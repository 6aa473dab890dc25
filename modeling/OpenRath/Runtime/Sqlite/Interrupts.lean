import OpenRath.Runtime.Sqlite.Histories

/-!
# What the operations of the SQLite store do to interrupts

Three operations write the table of interrupts. `create_interrupt` inserts an undecided one,
`decide_interrupt` records the decision of one, and `expire_interrupts` records a rejection for all
those whose deadline it finds passed. An interrupt is never changed otherwise, and never removed.

## Main definitions

* `Interrupt.asked`: an interrupt as it is inserted.
* `Op.Settles`: what an operation does to an interrupt.

## Main results

* `SQLite.keeps_interrupts`: the operations that leave the table alone.
* `SQLite.sweep_expireInterrupts`: the effect of the sweep on runs and interrupts.
* `SQLite.settles_perform`: what a call does to an interrupt.
-/

namespace OpenRath

/-- An interrupt as it is inserted, without a decision. -/
def Interrupt.asked (k : Interrupt) : Interrupt :=
  { k with decision := none, decidedAt_aware := undecided_aware }

/-- The operations that write interrupts. -/
def Op.WritesInterrupts : Op → Prop
  | .createInterrupt _ _ | .expireInterrupts _ | .decideInterrupt _ _ _ => True
  | _ => False

/-- What an operation that returns does to an interrupt. -/
inductive Op.Settles : Op → Interrupt → Interrupt → Prop
  | stay (op : Op) (k : Interrupt) : Settles op k k
  | decide {k : Interrupt} {d : ApprovalDecision} {v : ℤ} (decidedAt : Datetime)
      (haware : decidedAt.Aware) (hk : k.decision = none) :
      Settles (.decideInterrupt k.id d v) k (SQLite.decided k d decidedAt haware)
  | expire {k : Interrupt} {givenNow : Option Datetime} (expiredAt : Datetime)
      (haware : expiredAt.Aware) (hk : k.decision = none) :
      Settles (.expireInterrupts givenNow) k
        (SQLite.decided k SQLite.deadlineDecision expiredAt haware)

/-- What an operation leaves of an interrupt. -/
theorem Op.Settles.kept {op : Op} {k k' : Interrupt} (h : op.Settles k k') : k'.id = k.id ∧
    k'.runId = k.runId ∧ k'.kind = k.kind ∧ k'.request = k.request := by
  cases h <;> exact ⟨rfl, rfl, rfl, rfl⟩

/-- A decision is never changed. -/
theorem Op.Settles.decision_eq {op : Op} {k k' : Interrupt} (h : op.Settles k k')
    {d : ApprovalDecision × Datetime} (hk : k.decision = some d) : k'.decision = some d := by
  cases h with
  | stay => exact hk
  | decide _ _ hnone | expire _ _ hnone => cases hnone.symm.trans hk

namespace SQLite

open Tx Connection

variable {sha : Sha256} {c c' : Connection}

/-! ### Operations that leave the interrupts alone -/

section Keeps

/-- A body that leaves the interrupts alone. -/
abbrev KeepsInterrupts {α : Type} (x : Sql α) : Prop := Keeps (fun c => c.db.interrupts) x

theorem keepsInterrupts_of_db {α : Type} {x : Sql α} (h : Keeps Connection.db x) :
    KeepsInterrupts x :=
  fun _ _ _ hy => congrArg Database.interrupts (h hy)

theorem keepsInterrupts_now : KeepsInterrupts now := by
  intro c d c' h
  obtain ⟨-, rfl⟩ := yields_now.mp h
  rfl

theorem keepsInterrupts_nowOr (d : Option Datetime) : KeepsInterrupts (nowOr d) :=
  fun _ _ _ h => congrArg Database.interrupts (db_of_nowOr h)

theorem keepsInterrupts_readRun (k : UUID) : KeepsInterrupts (readRun k) :=
  keepsInterrupts_of_db (keeps_readRun k)

theorem keepsInterrupts_requiredRunRow (k : UUID) : KeepsInterrupts (requiredRunRow k) := by
  intro c row c' h
  obtain ⟨-, rfl⟩ := yields_requiredRunRow.mp h
  rfl

theorem keepsInterrupts_requiredLease (k : UUID) (workerId : String) (token : ℤ) :
    KeepsInterrupts (requiredLease k workerId token) := by
  intro c lease c' h
  obtain ⟨-, rfl⟩ := yields_requiredLease.mp h
  rfl

theorem keepsInterrupts_updateRuns (p : RunRow → Prop) [DecidablePred p] (f : RunRow → RunRow)
    (hf : ∀ r, (f r).id = r.id) : KeepsInterrupts (updateRuns p f hf) := by
  intro c n c' h
  obtain ⟨-, -, rfl⟩ := yields_updateRuns.mp h
  rfl

theorem keepsInterrupts_updateStatus (current : Run) (target : RunStatus) (v : ℤ) :
    KeepsInterrupts (updateStatus current target v) := by
  intro c u c' h
  obtain ⟨-, -, rfl⟩ := yields_updateStatus.mp h
  rfl

theorem keepsInterrupts_updateLease (k : UUID) (f : LeaseRow → LeaseRow)
    (hf : ∀ l, (f l).runId = l.runId) : KeepsInterrupts (updateLease k f hf) :=
  keeps_execute fun _ => rfl

theorem keepsInterrupts_insertRun (row : RunRow) : KeepsInterrupts (insertRun row) := by
  intro c u c' h
  obtain ⟨t, hone, -, rfl⟩ := yields_insertRun h
  rfl

theorem keepsInterrupts_insertCheckpoint (k : Checkpoint) :
    KeepsInterrupts (insertCheckpoint k) := by
  intro c u c' h
  obtain ⟨-, -, t, -, rfl⟩ := yields_insertCheckpoint.mp h
  rfl

theorem keepsInterrupts_appendEvent (k : UUID) (type : String) (data : JsonObject) :
    KeepsInterrupts (appendEvent k type data) := by
  intro c e c' h
  obtain ⟨-, -, t, -, rfl⟩ := yields_appendEvent.mp h
  rfl

theorem keepsInterrupts_requireNextSequence (k : Checkpoint) :
    KeepsInterrupts (requireNextSequence k) := by
  intro c u c' h
  rw [(yields_requireNextSequence.mp h).2]

theorem keepsInterrupts_upsertLease (row : LeaseRow) : KeepsInterrupts (upsertLease row) := by
  refine keeps_bind (fun c u c' h => ?_) fun _ => keeps_bind (keeps_query _) fun leases => ?_
  · rw [(yields_requireReference.mp h).2]
  · split
    · exact keeps_execute fun _ => rfl
    · exact keeps_bind (keeps_raiseUnless _ _) fun _ => keeps_execute fun _ => rfl

theorem keepsInterrupts_createRun (run : Run) : KeepsInterrupts (createRun sha run) := by
  refine keeps_bind (keeps_query _) fun found => ?_
  rcases found with _ | row
  · exact keeps_bind (keeps_mapError (keepsInterrupts_insertRun _) _) fun _ =>
      keeps_bind (keepsInterrupts_appendEvent _ _ _) fun _ => keeps_pure _
  · exact keeps_bind (keeps_raiseUnless _ _) fun _ => keeps_ofExcept _

theorem keepsInterrupts_claimNext (workerId : String) (seconds : Seconds)
    (givenNow : Option Datetime) : KeepsInterrupts (claimNext sha workerId seconds givenNow) := by
  refine keeps_bind (keeps_raiseUnless _ _) fun _ => keeps_bind (keeps_raiseUnless _ _) fun _ =>
    keeps_bind (keepsInterrupts_nowOr _) fun _ => keeps_bind (keeps_raiseUnless _ _) fun _ =>
    keeps_bind (keeps_query _) fun found => ?_
  rcases found with _ | row
  · exact keeps_pure _
  · exact keeps_bind (keeps_ofExcept _) fun _ => keeps_bind (keeps_ofExcept _) fun _ =>
      keeps_bind (keepsInterrupts_updateRuns _ _ _) fun _ =>
      keeps_bind (keeps_raiseUnless _ _) fun _ => keeps_bind (keeps_query _) fun _ =>
      keeps_bind (keeps_ofExcept _) fun _ => keeps_bind (keeps_ofExcept _) fun _ =>
      keeps_bind (keepsInterrupts_upsertLease _) fun _ =>
      keeps_bind (keepsInterrupts_appendEvent _ _ _) fun _ =>
      keeps_bind (keepsInterrupts_readRun _) fun _ => keeps_bind (keeps_ofExcept _) fun _ =>
      keeps_pure _

theorem keepsInterrupts_requeueLease (recoveredAt : Datetime) (row : ExpiredLease) :
    KeepsInterrupts (requeueLease recoveredAt row) := by
  rw [requeueLease]
  split_ifs
  · exact keepsInterrupts_updateLease _ _ _
  · exact keeps_bind (keepsInterrupts_updateRuns _ _ _) fun _ =>
      keeps_bind (keepsInterrupts_updateLease _ _ _) fun _ =>
      keeps_bind (keepsInterrupts_appendEvent _ _ _) fun _ => keeps_pure _

/-- The other operations leave the table of interrupts alone. -/
theorem keeps_interrupts {op : Op} (hop : ¬ op.WritesInterrupts) :
    KeepsInterrupts (body sha op) := by
  cases op with
  | createInterrupt | expireInterrupts | decideInterrupt => exact absurd trivial hop
  | createRun => exact keepsInterrupts_createRun _
  | transitionRun =>
    exact keeps_bind (keepsInterrupts_readRun _) fun _ => keeps_bind (keeps_raiseUnless _ _)
      fun _ => keeps_bind (keeps_ofExcept _) fun _ => keeps_bind keepsInterrupts_now fun _ =>
      keeps_bind (keepsInterrupts_updateRuns _ _ _) fun _ =>
      keeps_bind (keeps_raiseUnless _ _) fun _ =>
      keeps_bind (keepsInterrupts_appendEvent _ _ _) fun _ => keepsInterrupts_readRun _
  | appendRunEvent =>
    exact keeps_bind (keepsInterrupts_requiredRunRow _) fun _ =>
      keepsInterrupts_appendEvent _ _ _
  | appendCheckpoint =>
    exact keeps_bind (keepsInterrupts_requiredRunRow _) fun _ =>
      keeps_bind (keepsInterrupts_requireNextSequence _) fun _ =>
      keeps_bind (keepsInterrupts_insertCheckpoint _) fun _ =>
      keeps_bind (keepsInterrupts_appendEvent _ _ _) fun _ => keeps_pure _
  | commitCheckpoint =>
    exact keeps_bind (keepsInterrupts_requiredLease _ _ _) fun _ =>
      keeps_bind (keepsInterrupts_readRun _) fun _ => keeps_bind (keeps_raiseUnless _ _)
      fun _ => keeps_bind (keeps_raiseUnless _ _) fun _ =>
      keeps_bind (keepsInterrupts_requireNextSequence _) fun _ =>
      keeps_bind (keepsInterrupts_insertCheckpoint _) fun _ =>
      keeps_bind (keepsInterrupts_updateRuns _ _ _) fun _ =>
      keeps_bind (keepsInterrupts_appendEvent _ _ _) fun _ => keepsInterrupts_readRun _
  | finishClaim =>
    exact keeps_bind (keepsInterrupts_requiredLease _ _ _) fun _ =>
      keeps_bind (keepsInterrupts_readRun _) fun _ => keeps_bind (keeps_raiseUnless _ _)
      fun _ => keeps_bind (keeps_ofExcept _) fun _ =>
      keeps_bind (keepsInterrupts_updateStatus _ _ _) fun _ =>
      keeps_bind keepsInterrupts_now fun _ => keeps_bind (keepsInterrupts_updateLease _ _ _)
      fun _ => keeps_bind (keepsInterrupts_appendEvent _ _ _) fun _ => keepsInterrupts_readRun _
  | claimNext => exact keepsInterrupts_claimNext _ _ _
  | renewLease =>
    exact keeps_bind (keeps_raiseUnless _ _) fun _ => keeps_bind (keepsInterrupts_nowOr _)
      fun _ => keeps_bind (keeps_ofExcept _) fun _ =>
      keeps_bind (keepsInterrupts_requiredLease _ _ _) fun _ =>
      keeps_bind (keepsInterrupts_updateLease _ _ _) fun _ => keeps_bind (keeps_ofExcept _)
      fun _ => keeps_ofExcept _
  | requeueExpiredLeases =>
    exact keeps_bind (keepsInterrupts_nowOr _) fun _ => keeps_bind (keeps_query _) fun _ =>
      keeps_bind (keeps_forEach (keepsInterrupts_requeueLease _) _) fun _ =>
      keeps_pure _
  | getRun k => exact keepsInterrupts_readRun k
  | listRuns => exact keepsInterrupts_of_db (keeps_listRuns _ _ _ _ _)
  | listRunEvents => exact keepsInterrupts_of_db (keeps_listRunEvents _ _ _)
  | getInterrupt => exact keepsInterrupts_of_db (keeps_getInterrupt _)
  | assertFencingToken => exact keepsInterrupts_of_db (keeps_assertFencingToken _ _ _)
  | countRuns | latestCheckpoint | listCheckpoints | listInterrupts => exact keeps_query _

end Keeps

/-! ### Operations that write interrupts -/

theorem interrupts_createInterrupt {k : Interrupt} {v : ℤ} {run : Run}
    (h : (createInterrupt k v).Yields c run c') :
    c.db.interrupts.insert? k.asked = some c'.db.interrupts := by
  simp only [createInterrupt, yields_bind, yields_raiseUnless, yields_ofExcept,
    yields_requireReference, yields_query] at h
  obtain ⟨current, _, hread, _, _, ⟨-, rfl⟩, _, _, ⟨-, rfl⟩, _, _, ⟨-, rfl⟩, found, _,
    ⟨hfound, rfl⟩, h⟩ := h
  obtain ⟨-, -, rfl⟩ := stored_of_readRun hread
  rcases found with _ | interrupts
  · exact absurd h not_yields_raise
  simp only [yields_bind, yields_execute] at h
  obtain ⟨_, _, rfl, _, c₁, hstatus, _, c₂, hfree, e, _, he, hlast⟩ := h
  have hsame : c'.db.interrupts = interrupts :=
    (keepsInterrupts_readRun _ hlast).trans <| (keepsInterrupts_appendEvent _ _ _ he).trans <|
      (keepsInterrupts_updateLease _ _ _ hfree).trans (keepsInterrupts_updateStatus _ _ _ hstatus)
  rw [hsame]
  exact hfound

theorem interrupts_decideInterrupt {i : UUID} {d : ApprovalDecision} {v : ℤ} {run : Run}
    (h : (decideInterrupt i d v).Yields c run c') : ∃ k decidedAt,
      ∃ haware : Datetime.Aware decidedAt, c.db.interrupts.find? i = some k ∧ k.decision = none ∧
      c'.db.interrupts = c.db.interrupts.update (fun k => k.id = i ∧ k.decision = none)
        (fun k => decided k d decidedAt haware) fun _ => rfl := by
  simp only [decideInterrupt, yields_bind, yields_query] at h
  obtain ⟨found, _, ⟨hfound, rfl⟩, h⟩ := h
  rcases found with _ | k
  · exact absurd h not_yields_raise
  simp only [yields_bind, yields_raiseUnless, yields_ofExcept, yields_now] at h
  obtain ⟨_, _, ⟨hk, rfl⟩, current, _, hread, _, _, ⟨-, rfl⟩, _, _, ⟨-, rfl⟩, _, _, ⟨rfl, rfl⟩,
    h⟩ := h
  obtain ⟨-, -, rfl⟩ := stored_of_readRun hread
  rw [dif_pos (Datetime.isUtc_utc _).aware] at h
  simp only [yields_bind, yields_updateDecision] at h
  obtain ⟨_, _, rfl, _, c₁, hstatus, e, _, he, hlast⟩ := h
  exact ⟨k, _, (Datetime.isUtc_utc _).aware, hfound, hk, (keepsInterrupts_readRun _ hlast).trans <|
    (keepsInterrupts_appendEvent _ _ _ he).trans (keepsInterrupts_updateStatus _ _ _ hstatus)⟩

theorem interrupts_expireInterrupt {d : Datetime} {hd : d.Aware} {row : ExpiredRow} {u : Unit}
    (h : (expireInterrupt d hd row).Yields c u c') : c'.db.interrupts =
      c.db.interrupts.update (fun k => k.id = row.interrupt.id ∧ k.decision = none)
        (fun k => decided k deadlineDecision d hd) fun _ => rfl := by
  simp only [expireInterrupt, yields_bind, yields_updateDecision] at h
  obtain ⟨_, _, rfl, h⟩ := h
  have hkeeps : KeepsInterrupts (if row.runStatus = .waiting then do
      let current ← readRun row.interrupt.runId
      updateStatus current .timedOut row.runVersion
      let _ ← appendEvent row.interrupt.runId "run.interrupt.expired"
        [("interrupt_id", .str row.interrupt.id.str)]
    else pure ()) := by
    split_ifs
    · exact keeps_bind (keepsInterrupts_readRun _) fun _ =>
        keeps_bind (keepsInterrupts_updateStatus _ _ _) fun _ =>
        keeps_bind (keepsInterrupts_appendEvent _ _ _) fun _ => keeps_pure _
    · exact keeps_pure _
  exact hkeeps h

/-! ### The sweep -/

/-- The sweep rejects one interrupt after the other. -/
theorem find?_update_decided {t : Table Interrupt.id} {d : Datetime} {hd : d.Aware}
    {rows : List ExpiredRow} {row : ExpiredRow} {t' : Table Interrupt.id}
    (h : ∀ id, t'.find? id = (t.find? id).map fun k =>
      if k.decision = none ∧ ∃ row ∈ rows, row.interrupt.id = id then
        decided k deadlineDecision d hd else k) (id : UUID) :
    (t'.update (fun k => k.id = row.interrupt.id ∧ k.decision = none)
      (fun k => decided k deadlineDecision d hd) fun _ => rfl).find? id =
      (t.find? id).map fun k => if k.decision = none ∧
        ∃ row' ∈ rows ++ [row], row'.interrupt.id = id then
          decided k deadlineDecision d hd else k := by
  have hiff : (∃ row' ∈ rows ++ [row], row'.interrupt.id = id) ↔
      (∃ row' ∈ rows, row'.interrupt.id = id) ∨ row.interrupt.id = id := by
    simp [or_and_right, exists_or]
  refine (Table.find?_update _ _ _ _ _).trans ?_
  rw [h, Option.map_map]
  rcases hk : t.find? id with _ | k
  · rfl
  have hid : k.id = id := Table.key_of_find? hk
  simp only [Option.map_some, Function.comp_apply, hiff]
  by_cases hnone : k.decision = none
  · by_cases hpre : ∃ row' ∈ rows, row'.interrupt.id = id
    · simp [hnone, hpre, decided]
    · by_cases hlast : row.interrupt.id = id
      · simp [hnone, hpre, hlast, hid]
      · simp [hnone, hpre, hlast, hid, Ne.symm hlast]
  · simp [hnone]

/-- The interrupts after the loop of the sweep. -/
theorem find?_expireInterrupts {d : Datetime} {hd : d.Aware} {rows : List ExpiredRow}
    (h : (forEach (expireInterrupt d hd) rows).Yields c () c') (id : UUID) :
    c'.db.interrupts.find? id = (c.db.interrupts.find? id).map fun k =>
      if k.decision = none ∧ ∃ row ∈ rows, row.interrupt.id = id then
        decided k deadlineDecision d hd else k := by
  refine yields_forEach_invariant (fun pre t => ∀ id, t.db.interrupts.find? id =
    (c.db.interrupts.find? id).map fun k =>
      if k.decision = none ∧ ∃ row ∈ pre, row.interrupt.id = id then
        decided k deadlineDecision d hd else k) ?_ ?_ h id
  · intro id
    simp
  · intro pre row post t t' _ hI hy id
    rw [interrupts_expireInterrupt hy]
    exact find?_update_decided hI id

/-! ### What an operation does to an interrupt -/

/-- An operation that returns leaves an interrupt as it is, or decides it. -/
theorem settles_body {op : Op} {r : op.Result} (h : (body sha op).Yields c r c') {k : Interrupt}
    {id : UUID} (hk : c.db.interrupts.find? id = some k) :
    ∃ k', c'.db.interrupts.find? id = some k' ∧ op.Settles k k' := by
  have hid : k.id = id := Table.key_of_find? hk
  by_cases hop : op.WritesInterrupts
  swap
  · have hsame : c'.db.interrupts = c.db.interrupts := keeps_interrupts hop h
    exact ⟨k, by rw [hsame, hk], .stay op k⟩
  cases op with
  | createInterrupt k₀ v =>
    refine ⟨k, ?_, .stay _ k⟩
    rw [Table.find?_insert? (interrupts_createInterrupt h), if_neg, hk]
    rintro rfl
    rw [(Table.insert?_eq_some_iff.mp (interrupts_createInterrupt h)).1] at hk
    cases hk
  | decideInterrupt i d v =>
    obtain ⟨k₀, decidedAt, haware, -, -, hupdate⟩ := interrupts_decideInterrupt h
    rw [hupdate]
    refine ⟨_, (Table.find?_update ..).trans (congrArg _ hk), ?_⟩
    beta_reduce
    split_ifs with hp
    · obtain ⟨rfl, hnone⟩ := hp
      exact .decide decidedAt haware hnone
    · exact .stay _ k
  | expireInterrupts givenNow =>
    obtain ⟨d, c₀, hd, hnow, -, hloop, -⟩ := sweeps_expireInterrupts h
    rw [find?_expireInterrupts hloop, db_of_nowOr hnow, hk]
    refine ⟨_, rfl, ?_⟩
    beta_reduce
    split_ifs with hp
    · exact .expire d hd hp.1
    · exact .stay _ k
  | _ => exact hop.elim

/-- Only `create_interrupt` makes an interrupt. -/
theorem asked_of_body {op : Op} {r : op.Result} (h : (body sha op).Yields c r c') {k : Interrupt}
    {id : UUID} (hnone : c.db.interrupts.find? id = none)
    (hk : c'.db.interrupts.find? id = some k) :
    ∃ k₀ v, op = .createInterrupt k₀ v ∧ k = k₀.asked := by
  by_cases hop : op.WritesInterrupts
  swap
  · have hsame : c'.db.interrupts = c.db.interrupts := keeps_interrupts hop h
    rw [hsame, hnone] at hk
    cases hk
  cases op with
  | createInterrupt k₀ v =>
    refine ⟨k₀, v, rfl, ?_⟩
    rw [Table.find?_insert? (interrupts_createInterrupt h)] at hk
    split_ifs at hk
    · exact (Option.some.inj hk).symm
    · cases hnone.symm.trans hk
  | decideInterrupt i d v =>
    obtain ⟨k₀, decidedAt, haware, -, -, hupdate⟩ := interrupts_decideInterrupt h
    rw [hupdate] at hk
    cases ((Table.find?_update ..).trans (congrArg _ hnone)).symm.trans hk
  | expireInterrupts givenNow =>
    obtain ⟨d, c₀, hd, hnow, -, hloop, -⟩ := sweeps_expireInterrupts h
    rw [find?_expireInterrupts hloop, db_of_nowOr hnow, hnone] at hk
    cases hk
  | _ => exact hop.elim

section Calls

variable {call : Call} {db : Database} {k : Interrupt} {id : UUID}

/-- A call leaves an interrupt as it is, or decides it. -/
theorem settles_perform (sha : Sha256) (call : Call) (hk : db.interrupts.find? id = some k) :
    ∃ k', (perform sha call db).2.interrupts.find? id = some k' ∧ call.op.Settles k k' := by
  rcases perform_cases sha call db with ⟨e, -, hsame⟩ | ⟨r, c', -, hdb, hy⟩
  · rw [hsame]
    exact ⟨k, hk, .stay _ k⟩
  · rw [hdb]
    exact settles_body hy hk

end Calls

/-! ### The runs of interrupts -/

/-- Every interrupt has a run. -/
def Owned (db : Database) : Prop :=
  ∀ k ∈ db.interrupts.rows, ∃ row, db.runs.find? k.runId = some row

/-- What `create_interrupt` refers to is there. -/
theorem owned_body {op : Op} {r : op.Result} (h : (body sha op).Yields c r c') (hI : Owned c.db) :
    Owned c'.db := by
  intro k' hk'
  have hfind' := Table.find?_of_mem hk'
  have hstays : ∀ i row, c.db.runs.find? i = some row →
      ∃ row', c'.db.runs.find? i = some row' := by
    intro i row hrow
    obtain ⟨a, -, hstep⟩ := step_body h i
    exact hstep.exists_row hrow
  rcases hfind : c.db.interrupts.find? k'.id with _ | k
  · obtain ⟨k₀, v, rfl, rfl⟩ := asked_of_body h hfind hfind'
    obtain ⟨row, hrow, -⟩ := (wrote_createInterrupt h).version_eq
    exact hstays _ row hrow
  · obtain ⟨k₁, hk₁, hsettles⟩ := settles_body h hfind
    cases hfind'.symm.trans hk₁
    obtain ⟨row, hrow⟩ := hI k (Table.mem_of_find? hfind)
    rw [hsettles.kept.2.1]
    exact hstays _ row hrow

theorem owned_perform {call : Call} {db : Database} (h : Owned db) :
    Owned (perform sha call db).2 := by
  rcases perform_cases sha call db with ⟨e, -, hsame⟩ | ⟨r, c', -, hdb, hy⟩
  · rwa [hsame]
  · rw [hdb]
    exact owned_body hy h

theorem owned_after (sha : Sha256) (calls : List Call) : Owned (after sha calls) :=
  after_invariant (fun _ hk => absurd hk List.not_mem_nil) (fun _ _ _ _ => owned_body) calls

end SQLite

end OpenRath
