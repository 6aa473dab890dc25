import OpenRath.Runtime.Postgres.Statements
import OpenRath.Runtime.Sqlite.Histories

/-!
# The two stores are observationally equivalent

Every operation of the SQLite store, started on alike tables in UTC with the same clock, ends like
the operation of the Postgres store: both return the same value, on alike tables, or both raise
errors of the same class. So the two stores answer every sequence of calls alike, and after every
prefix of it the same queries have the same answers.

## Main definitions

* `Postgres.body`, `Postgres.perform`, `Postgres.after`: the operations as bodies, as calls, and
  a sequence of calls.
* `Op.Utc`: the timestamps among the arguments of an operation are in UTC.

## Main results

* `Postgres.sim_body`: the operations.
-/

namespace OpenRath

namespace Op

/-- The timestamps among the arguments of an operation are in UTC. -/
def Utc : Op → Prop
  | createRun run => run.createdAt.IsUtc ∧ run.updatedAt.IsUtc
  | appendCheckpoint checkpoint | commitCheckpoint checkpoint _ _ _ => checkpoint.createdAt.IsUtc
  | createInterrupt interrupt _ =>
    interrupt.createdAt.IsUtc ∧ ∀ e ∈ interrupt.expiresAt, e.IsUtc
  | expireInterrupts now | claimNext _ _ now | renewLease _ _ _ _ now
  | requeueExpiredLeases now => ∀ d ∈ now, d.IsUtc
  | _ => True

/-- The queries by which the state of a store is observed. -/
def Observes : Op → Prop
  | getRun _ | listRuns _ _ _ _ _ | listRunEvents _ _ _ | listCheckpoints _ | latestCheckpoint _
  | getInterrupt _ | listInterrupts _ _ => True
  | _ => False

theorem Observes.utc {op : Op} (h : op.Observes) : op.Utc := by
  cases op <;> trivial

end Op

/-- Answers that are equal values or errors of one class. -/
def SameAnswer {α : Type} : Except StoreError α → Except StoreError α → Prop
  | .ok a, .ok b => a = b
  | .error e, .error e' => SameClass e e'
  | _, _ => False

namespace Postgres

open Tx Connection Datetime

variable {sha : Sha256} {F : Table RunRow.id → Prop}

/-- Any runs. -/
abbrev anyRuns : Table RunRow.id → Prop := fun _ => True

/-! ### Runs -/

/-- The run of the tenant under the idempotency key of a run, if it has one. -/
def existing (run : Run) (runs : Table RunRow.id) : Option RunRow :=
  run.idempotencyKey.bind fun key => runs.rows.find? fun r =>
    r.tenantId = run.tenantId ∧ r.idempotencyKey = some key

theorem mem_of_existing {run : Run} {runs : Table RunRow.id} {row : RunRow}
    (h : existing run runs = some row) : row ∈ runs.rows := by
  obtain ⟨key, -, hfind⟩ := Option.bind_eq_some_iff.mp h
  exact List.mem_of_find?_eq_some hfind

theorem runRow_of_isUtc {run : Run} (hcreated : run.createdAt.IsUtc)
    (hupdated : run.updatedAt.IsUtc) (fingerprint : String) :
    runRow run fingerprint = RunRow.ofRun run fingerprint := by
  simp only [runRow, RunRow.ofRun, Datetime.toUtc_of_isUtc hcreated,
    Datetime.toUtc_of_isUtc hupdated]

theorem sim_createRun {run : Run} (hcreated : run.createdAt.IsUtc)
    (hupdated : run.updatedAt.IsUtc) :
    SameResult anyRuns (SQLite.createRun sha run) (createRun sha run) fun _ => anyRuns := by
  refine SameResult.bind (sameResult_query (G := fun found runs => existing run runs = found)
    (fun _ _ h => by rw [h.alike.runs_eq]) fun _ _ _ => rfl) fun found => ?_
  rcases found with _ | row
  · rw [runRow_of_isUtc hcreated hupdated]
    refine sim_insertRun ⟨hcreated, hupdated⟩ ?_ fun s t h => ?_
    · refine SameResult.bind (sim_appendEvent _ _ _ _) fun _ => ?_
      exact (sameResult_pure run).imp fun _ _ _ => trivial
    · have hnone : existing run t.db.runs = none := by
        rw [h.alike.runs_eq]
        exact h.runs
      refine ⟨.conflict "run already exists" [], raises_bind.mpr (Or.inr ⟨none, t, ?_⟩), rfl⟩
      exact ⟨yields_query.mpr ⟨hnone, rfl⟩, raises_raise.mpr rfl⟩
  · refine SameResult.bind (sameResult_raiseUnless Iff.rfl rfl) fun _ => ?_
    refine (sim_runFromRow (k := row.id) fun runs h => ?_).imp fun _ _ _ => trivial
    exact Table.find?_of_mem (mem_of_existing h.1)

theorem sim_getRun (k : UUID) : SameResult anyRuns (SQLite.getRun k) (getRun k) fun _ => anyRuns :=
  (sim_readRun anyRuns k).imp fun _ _ _ => trivial

theorem sim_transitionRun (k : UUID) (v : ℤ) (target : RunStatus) (state : Option JsonObject)
    (nextNodes : Option (List String)) :
    SameResult anyRuns (SQLite.transitionRun k v target state nextNodes)
      (transitionRun k v target state nextNodes) fun _ => anyRuns := by
  refine SameResult.bind (sim_readRun _ k) fun current => ?_
  refine SameResult.bind (sameResult_raiseUnless Iff.rfl rfl) fun _ => ?_
  refine SameResult.bind (sameResult_ofExcept _) fun _ => ?_
  refine SameResult.bind (sim_now _) fun d => assuming fun hd => ?_
  rw [Datetime.toUtc_of_isUtc hd]
  refine Sim.bind (sim_updateRunsReturning _ fun _ hc _ => ⟨hc, hd⟩) fun n row => ?_
  refine Sim.bind (sim_requireUpdated _ (fun _ h => h.1) n row _ _ _) fun _ row => ?_
  refine SameResult.bind (sim_appendEvent _ k _ _) fun _ => ?_
  exact sim_readUpdated k row

/-- The two stores sort runs in UTC alike. -/
theorem createdBefore_iff {a b : RunRow} (ha : a.createdAt.IsUtc) (hb : b.createdAt.IsUtc) :
    SQLite.createdBefore a b ↔ createdBefore a b := by
  rw [SQLite.createdBefore, createdBefore, isoformat_utc_lt_iff ha hb,
    isoformat_utc_eq_iff ha hb]

theorem mapM_runFromRow {rows : List RunRow} (h : ∀ r ∈ rows, r.updatedAt.Aware) :
    rows.mapM runFromRow = rows.mapM SQLite.runFromRow := by
  induction rows with
  | nil => rfl
  | cons row rows ih =>
    have hrow : runFromRow row = SQLite.runFromRow row := by
      have haware := h row List.mem_cons_self
      rw [runFromRow, SQLite.runFromRow, dif_pos haware, dif_pos haware]
    rw [List.mapM_cons, List.mapM_cons, hrow, ih fun r hr => h r (List.mem_cons_of_mem row hr)]

theorem sim_cursorRow (tenantId : String) (after : Option UUID) :
    SameResult anyRuns (SQLite.cursorRow tenantId after) (SQLite.cursorRow tenantId after)
      fun cursor runs => ∀ a ∈ cursor, a ∈ runs.rows := by
  rcases after with _ | k
  · exact (sameResult_pure none).imp fun _ _ ⟨_, hb⟩ a ha => by simp [hb] at ha
  refine SameResult.bind (sim_findRun _ k) fun found => ?_
  rcases found with _ | row
  · exact sameResult_raise rfl
  refine SameResult.bind (sameResult_raiseUnless Iff.rfl rfl) fun _ => ?_
  refine (sameResult_pure (some row)).imp fun cursor runs ⟨⟨hrow, _⟩, hcursor⟩ a ha => ?_
  rw [hcursor, Option.mem_some_iff] at ha
  exact ha ▸ Table.mem_of_find? hrow.2

theorem sim_listRuns (tenantId : String) (after : Option UUID) (limit : Option ℤ)
    (sessionId : Option UUID) (statuses : List RunStatus) :
    SameResult anyRuns (SQLite.listRuns tenantId after limit sessionId statuses)
      (listRuns tenantId after limit sessionId statuses) fun _ => anyRuns := by
  refine SameResult.bind (sameResult_raiseUnless Iff.rfl rfl) fun _ => assuming fun _ => ?_
  refine SameResult.bind (sim_cursorRow tenantId after) fun cursor => ?_
  refine SameResult.bind (sameResult_query (G := fun rows _ =>
    ∀ r ∈ rows, r.createdAt.IsUtc ∧ r.updatedAt.IsUtc) (fun s t h => ?_) fun s t h r hr =>
      h.regular.runs r (List.mem_filter.mp hr).1) fun rows => ?_
  · rw [h.alike.runs_eq]
    refine List.filter_congr fun r hr => decide_eq_decide.mpr (and_congr_right fun _ =>
      and_congr_left fun _ => forall₂_congr fun a ha => not_congr ?_)
    exact (createdBefore_iff (h.regular.runs r hr).1 (h.regular.runs a (h.runs a ha)).1).symm
  · refine Sim.intro fun s t h => Sim.consequence (P := With anyRuns) ?_
      (fun s' t' ⟨hs, ht⟩ => hs ▸ ht ▸ h.imp fun _ => trivial) fun _ _ _ _ h => h
    have hutc := h.runs
    have hlimit : ∀ r ∈ SQLite.limited limit (rows.insertionSort createdBefore),
        r.updatedAt.Aware := by
      intro r hr
      have hmem : r ∈ rows.insertionSort createdBefore := by
        rcases limit with _ | n
        · exact hr
        · exact List.mem_of_mem_take hr
      exact (hutc r ((List.mem_insertionSort _).mp hmem)).2.aware
    rw [insertionSort_congr fun a ha b hb => createdBefore_iff (hutc a ha).1 (hutc b hb).1,
      mapM_runFromRow hlimit]
    exact (sameResult_ofExcept _).imp fun _ _ _ => trivial

theorem sim_countRuns (status : RunStatus) (tenantId : Option String) :
    SameResult anyRuns (SQLite.countRuns status tenantId) (countRuns status tenantId)
      fun _ => anyRuns :=
  sameResult_read fun _ _ h => by rw [h.alike.runs_eq]

/-! ### Events and checkpoints -/

theorem sim_listRunEvents (k : UUID) (after : ℤ) (limit : Option ℤ) :
    SameResult anyRuns (SQLite.listRunEvents k after limit) (listRunEvents k after limit)
      fun _ => anyRuns := by
  refine SameResult.bind (sameResult_raiseUnless Iff.rfl rfl) fun _ => assuming fun _ => ?_
  refine SameResult.bind (sameResult_raiseUnless Iff.rfl rfl) fun _ => assuming fun _ => ?_
  refine SameResult.bind (sameResult_read fun _ _ h => by rw [h.alike.events_eq]) fun rows => ?_
  exact (sameResult_pure _).imp fun _ _ _ => trivial

theorem sim_listCheckpoints (k : UUID) :
    SameResult anyRuns (SQLite.listCheckpoints k) (listCheckpoints k) fun _ => anyRuns :=
  sameResult_read fun _ _ h => by
    rw [SQLite.sortedCheckpoints, SQLite.sortedCheckpoints, Database.checkpointsOf,
      Database.checkpointsOf, h.alike.checkpoints_eq]

/-- The last checkpoint by rising number is the first by falling number. -/
theorem sim_latestCheckpoint (k : UUID) :
    SameResult anyRuns (SQLite.latestCheckpoint k) (latestCheckpoint k) fun _ => anyRuns := by
  refine sameResult_read fun s t h => ?_
  rw [SQLite.sortedCheckpoints, Database.checkpointsOf, Database.checkpointsOf,
    h.alike.checkpoints_eq]
  refine (getLast?_insertionSort_eq_head? fun a ha b hb hab => ?_).symm
  obtain ⟨ha, hak⟩ := List.mem_filter.mp ha
  obtain ⟨hb, hbk⟩ := List.mem_filter.mp hb
  exact h.regular.checkpoints a ha b hb
    ((of_decide_eq_true hak).trans (of_decide_eq_true hbk).symm) hab

theorem sim_appendRunEvent (k : UUID) (type : String) (data : JsonObject) :
    SameResult anyRuns (SQLite.appendRunEvent k type data) (appendRunEvent k type data)
      fun _ => anyRuns := by
  refine SameResult.bind (sim_requiredRunRow _ k) fun _ => ?_
  exact (sim_appendEvent _ k _ _).imp fun _ _ _ => trivial

theorem sim_appendCheckpoint {k : Checkpoint} (hk : k.createdAt.IsUtc) :
    SameResult anyRuns (SQLite.appendCheckpoint k) (appendCheckpoint k) fun _ => anyRuns := by
  refine SameResult.bind (sim_requiredRunRow _ _) fun _ => ?_
  refine SameResult.bind (sim_requireNextSequence _ k) fun _ => ?_
  refine SameResult.bind (sim_insertCheckpoint _ hk) fun _ => ?_
  refine SameResult.bind (sim_appendEvent _ _ _ _) fun _ => ?_
  exact (sameResult_pure ()).imp fun _ _ _ => trivial

theorem sim_commitCheckpoint {k : Checkpoint} (hk : k.createdAt.IsUtc) (workerId : String)
    (token v : ℤ) : SameResult anyRuns (SQLite.commitCheckpoint k workerId token v)
      (commitCheckpoint k workerId token v) fun _ => anyRuns := by
  refine Sim.bind (sim_requiredLease _ _ _ _) fun _ _ => Sim.pull fun _ => ?_
  refine SameResult.bind (sim_readRun _ _) fun current => ?_
  refine SameResult.bind (sameResult_raiseUnless Iff.rfl rfl) fun _ => assuming fun hv => ?_
  refine SameResult.bind (sameResult_raiseUnless Iff.rfl rfl) fun _ => assuming fun _ => ?_
  refine SameResult.bind (sim_requireNextSequence _ k) fun _ => ?_
  refine SameResult.bind (sim_insertCheckpoint _ hk) fun _ => ?_
  rw [Datetime.toUtc_of_isUtc hk]
  refine Sim.bind (sim_updateRunsReturning _ fun _ hc _ => ⟨hc, hk⟩) fun n row => ?_
  refine Sim.bind_right (sim_requireUpdated_of_matched (fun _ h => h.1) ?_ n row _) fun row => ?_
  · rintro runs ⟨-, row, hrow, h, rfl⟩
    exact ⟨row, hrow, Table.key_of_find? hrow, hv⟩
  refine SameResult.bind (sim_appendEvent _ _ _ _) fun _ => ?_
  exact sim_readUpdated _ row

theorem sim_finishClaim (k : UUID) (workerId : String) (token v : ℤ) (target : RunStatus)
    (type : String) (data : Option JsonObject) :
    SameResult anyRuns (SQLite.finishClaim k workerId token v target type data)
      (finishClaim k workerId token v target type data) fun _ => anyRuns := by
  refine Sim.bind (sim_requiredLease _ _ _ _) fun _ _ => Sim.pull fun _ => ?_
  refine SameResult.bind ((sim_readRun _ k).imp fun current runs h =>
    (⟨trivial, h.2.id_eq⟩ : anyRuns runs ∧ current.id = k)) fun current => assuming fun hid => ?_
  subst hid
  refine SameResult.bind (sameResult_raiseUnless Iff.rfl rfl) fun _ => ?_
  refine SameResult.bind (sameResult_ofExcept _) fun _ => ?_
  rw [SQLite.updateStatus, bind_assoc]
  refine SameResult.bind (sim_now _) fun d => assuming fun hd => ?_
  rw [Datetime.toUtc_of_isUtc hd, bind_assoc]
  refine Sim.bind (sim_updateRunsReturning _ fun _ hc _ => ⟨hc, hd⟩) fun n row => ?_
  refine Sim.bind (sim_requireUpdated _ (fun _ h => h.1) n row _ _ _) fun _ row => ?_
  refine SameResult.bind (sim_now _) fun d => assuming fun hd => ?_
  refine SameResult.bind (sim_updateLease _ ?_ fun _ he hc => ⟨he, hc⟩) fun _ => ?_
  · intro l l' hl
    have hl := LeaseRow.core_eq_iff.mp hl
    simp only [LeaseRow.core_eq_iff, hl, and_self]
  refine SameResult.bind (sim_appendEvent _ _ _ _) fun _ => ?_
  exact sim_readUpdated _ row

/-! ### Interrupts -/

theorem interruptRow_of_isUtc {i : Interrupt} (hcreated : i.createdAt.IsUtc)
    (hexpires : ∀ e ∈ i.expiresAt, e.IsUtc) :
    interruptRow i =
      { i with decision := none, decidedAt_aware := Interrupt.undecided_aware } := by
  have hmap : i.expiresAt.map Datetime.toUtc = i.expiresAt := by
    rcases h : i.expiresAt with _ | e
    · rfl
    · rw [Option.map_some, Datetime.toUtc_of_isUtc (hexpires e h)]
  simp only [interruptRow, hmap, Datetime.toUtc_of_isUtc hcreated]

theorem sim_createInterrupt {i : Interrupt} (hcreated : i.createdAt.IsUtc)
    (hexpires : ∀ e ∈ i.expiresAt, e.IsUtc) (v : ℤ) :
    SameResult anyRuns (SQLite.createInterrupt i v) (createInterrupt i v) fun _ => anyRuns := by
  refine SameResult.bind ((sim_readRun _ i.runId).imp fun current runs h =>
    (⟨trivial, h.2.id_eq⟩ : anyRuns runs ∧ current.id = i.runId)) fun current =>
      assuming fun hid => ?_
  refine SameResult.bind (sameResult_raiseUnless Iff.rfl rfl) fun _ => assuming fun _ => ?_
  refine SameResult.bind (sameResult_ofExcept _) fun _ => assuming fun _ => ?_
  refine SameResult.bind (sim_requireReference _ _) fun _ => ?_
  rw [interruptRow_of_isUtc hcreated hexpires, Datetime.toUtc_of_isUtc hcreated]
  refine Sim.bind sim_query fun _ _ => Sim.intro fun s t ⟨h, hs, ht⟩ => ?_
  rw [h.alike.interrupts_eq] at ht
  subst hs ht
  refine Sim.consequence (P := With anyRuns) ?_ (fun s' t' ⟨hs, ht⟩ => hs ▸ ht ▸ h)
    fun _ _ _ _ h => h
  rcases hins : s.db.interrupts.insert?
      { i with decision := none, decidedAt_aware := Interrupt.undecided_aware } with _ | interrupts
  · exact sim_raise rfl
  have hregular : ∀ j ∈ interrupts.rows, j.createdAt.IsUtc ∧ ∀ e ∈ j.expiresAt, e.IsUtc := by
    intro j hj
    rw [(Table.insert?_eq_some_iff.mp hins).2, List.mem_append, List.mem_singleton] at hj
    rcases hj with hj | rfl
    · exact h.regular.interrupts j hj
    · exact ⟨hcreated, hexpires⟩
  refine Sim.bind (Q := fun _ _ s t => With anyRuns s t)
    (sim_execute fun _ _ h => h.setInterrupts hregular) fun _ _ => ?_
  rw [← hid]
  refine Sim.bind (sim_updateStatus _ _ _ _) fun _ row => ?_
  refine SameResult.bind (sim_updateLease _ ?_ fun _ he hc => ⟨he, hc⟩) fun _ => ?_
  · intro l l' hl
    have hl := LeaseRow.core_eq_iff.mp hl
    simp only [hl]
  refine SameResult.bind (sim_appendEvent _ _ _ _) fun _ => ?_
  exact sim_readUpdated _ row

theorem sim_getInterrupt (i : UUID) :
    SameResult anyRuns (SQLite.getInterrupt i) (getInterrupt i) fun _ => anyRuns := by
  refine SameResult.bind (sameResult_read fun _ _ h => by rw [h.alike.interrupts_eq]) fun row => ?_
  rcases row with _ | row
  · exact sameResult_raise rfl
  · exact (sameResult_pure row).imp fun _ _ _ => trivial

/-- Interrupts and their runs that have expired are the same in the same order. -/
theorem expiredRows_eq {s t : Connection} {d : Datetime} (h : With F s t) (hd : d.IsUtc) :
    expiredRows t.db d = SQLite.expiredRows s.db d := by
  rw [expiredRows, SQLite.expiredRows, h.alike.interrupts_eq, h.alike.runs_eq]
  have hfilter : (s.db.interrupts.rows.filter fun i => i.decision = none ∧
        ∃ e ∈ i.expiresAt, e.instant ≤ d.instant) =
      s.db.interrupts.rows.filter fun i => i.decision = none ∧
        ∃ e ∈ i.expiresAt, e.isoformat ≤ d.isoformat := by
    refine List.filter_congr fun i hi => decide_eq_decide.mpr (and_congr_right fun _ => ?_)
    refine exists_congr fun e => and_congr_right fun he => ?_
    exact (isoformat_utc_le_iff ((h.regular.interrupts i hi).2 e he) hd).symm
  rw [hfilter]
  -- Every row that is sorted has a deadline, which is in UTC.
  have hutc : ∀ row ∈ (s.db.interrupts.rows.filter fun i => i.decision = none ∧
      ∃ e ∈ i.expiresAt, e.isoformat ≤ d.isoformat).filterMap (fun i =>
        (s.db.runs.find? i.runId).map fun r => (⟨i, r.version, r.status⟩ : SQLite.ExpiredRow)),
      ∃ e, row.interrupt.expiresAt = some e ∧ e.IsUtc := by
    intro row hrow
    obtain ⟨i, hi, hmap⟩ := List.mem_filterMap.mp hrow
    obtain ⟨r, -, rfl⟩ := Option.map_eq_some_iff.mp hmap
    obtain ⟨hi, hexpired⟩ := List.mem_filter.mp hi
    obtain ⟨-, e, he, -⟩ := of_decide_eq_true hexpired
    exact ⟨e, he, (h.regular.interrupts i hi).2 e he⟩
  refine insertionSort_congr fun a ha b hb => ?_
  obtain ⟨e, he, heutc⟩ := hutc a ha
  obtain ⟨e', he', heutc'⟩ := hutc b hb
  simp only [expiresBefore, SQLite.expiresBefore, deadline, SQLite.deadlineText, he, he',
    Option.map_some, Option.getD_some, isoformat_utc_lt_iff heutc heutc',
    isoformat_utc_eq_iff heutc heutc']

theorem sim_expireInterrupt {d : Datetime} (hd : d.IsUtc) (row : SQLite.ExpiredRow) :
    SameResult anyRuns (SQLite.expireInterrupt d hd.aware row) (expireInterrupt d hd.aware row)
      fun _ => anyRuns := by
  refine SameResult.bind (sim_updateDecision _ _ _ _ _ (Datetime.toUtc_of_isUtc hd)) fun _ => ?_
  by_cases hw : row.runStatus = .waiting
  · rw [if_pos hw, if_pos hw]
    refine SameResult.bind (sim_readRun _ _) fun current => ?_
    refine Sim.bind (sim_updateStatus _ _ _ _) fun _ _ => ?_
    refine SameResult.bind (sim_appendEvent _ _ _ _) fun _ => ?_
    exact (sameResult_pure ()).imp fun _ _ _ => trivial
  · rw [if_neg hw, if_neg hw]
    exact (sameResult_pure ()).imp fun _ _ _ => trivial

theorem sim_expireInterrupts {d : Option Datetime} (hd : ∀ e ∈ d, e.IsUtc) :
    SameResult anyRuns (SQLite.expireInterrupts d) (expireInterrupts d) fun _ => anyRuns := by
  refine SameResult.bind (sim_nowOr _ hd) fun d => assuming fun hd => ?_
  simp only [hd.aware, ↓reduceDIte]
  refine SameResult.bind (sameResult_read fun s t h => expiredRows_eq h hd) fun rows => ?_
  have hloop : SameEnd (With anyRuns) (forEach (SQLite.expireInterrupt d hd.aware) rows)
      (forEach (expireInterrupt d hd.aware) rows) fun _ _ s t => With anyRuns s t :=
    Sim.forEach (V := Eq) (fun row row' hrow => hrow ▸
      Sim.consequence (sim_expireInterrupt hd row) (fun _ _ h => h) fun _ _ _ _ h => h.2)
      (List.forall₂_eq_eq_eq ▸ rfl)
  refine hloop.bind fun _ _ => ?_
  exact (sameResult_pure _).imp fun _ _ _ => trivial

theorem sim_listInterrupts (tenantId : String) (pendingOnly : Bool) :
    SameResult anyRuns (SQLite.listInterrupts tenantId pendingOnly)
      (listInterrupts tenantId pendingOnly) fun _ => anyRuns := by
  refine sameResult_read fun s t h => ?_
  rw [h.alike.interrupts_eq, h.alike.runs_eq]
  refine (insertionSort_congr fun a ha b hb => ?_).symm
  have ha := (h.regular.interrupts a (List.mem_filter.mp ha).1).1
  have hb := (h.regular.interrupts b (List.mem_filter.mp hb).1).1
  rw [SQLite.interruptCreatedBefore, interruptCreatedBefore, isoformat_utc_lt_iff ha hb,
    isoformat_utc_eq_iff ha hb]

theorem sim_decideInterrupt (i : UUID) (decision : ApprovalDecision) (v : ℤ) :
    SameResult anyRuns (SQLite.decideInterrupt i decision v) (decideInterrupt i decision v)
      fun _ => anyRuns := by
  refine SameResult.bind (sameResult_read fun _ _ h => by rw [h.alike.interrupts_eq]) fun row => ?_
  rcases row with _ | row
  · exact sameResult_raise rfl
  refine SameResult.bind (sameResult_raiseUnless Iff.rfl rfl) fun _ => assuming fun _ => ?_
  refine SameResult.bind ((sim_readRun _ row.runId).imp fun current runs h =>
    (⟨trivial, h.2.id_eq⟩ : anyRuns runs ∧ current.id = row.runId)) fun current =>
      assuming fun hid => ?_
  refine SameResult.bind (sameResult_raiseUnless Iff.rfl rfl) fun _ => assuming fun _ => ?_
  refine SameResult.bind (sameResult_ofExcept _) fun _ => assuming fun _ => ?_
  refine SameResult.bind (sim_now _) fun d => assuming fun hd => ?_
  simp only [hd.aware, ↓reduceDIte, ← hid]
  refine SameResult.bind (sim_updateDecision _ _ _ _ _ (Datetime.toUtc_of_isUtc hd)) fun _ => ?_
  refine Sim.bind (sim_updateStatus _ _ _ _) fun _ updated => ?_
  refine SameResult.bind (sim_appendEvent _ _ _ _) fun _ => ?_
  exact sim_readUpdated _ updated

/-! ### Leases -/

/-- The same run is claimed next. -/
theorem nextQueued_eq {s t : Connection} (h : With F s t) :
    nextQueued t.db = SQLite.nextQueued s.db := by
  rw [nextQueued, SQLite.nextQueued, h.alike.runs_eq]
  refine congrArg List.head? (insertionSort_congr fun a ha b hb => ?_).symm
  have ha := (h.regular.runs a (List.mem_filter.mp ha).1).1
  have hb := (h.regular.runs b (List.mem_filter.mp hb).1).1
  rw [SQLite.claimedBefore, claimedBefore, createdBefore_iff ha hb]

theorem isUtc_of_addSeconds {d d' : Datetime} {seconds : Seconds}
    (h : SQLite.addSeconds d seconds = .ok d') (hd : d.IsUtc) : d'.IsUtc := by
  rw [SQLite.addSeconds] at h
  split at h
  · simp at h
  · simp at h
  · split at h
    · simp at h
    · obtain rfl := Except.ok.inj h
      exact (add?_offset ‹_›).trans hd

theorem keeps_updateRuns {p : RunRow → Prop} [DecidablePred p] {f : RunRow → RunRow}
    {hf : ∀ r, (f r).id = r.id} (k : UUID) :
    Keeps (fun c => c.db.runLeases.find? k) (SQLite.updateRuns p f hf) := by
  intro c n c' h
  obtain ⟨hone, -, rfl⟩ := SQLite.yields_updateRuns.mp h
  rfl

/-- What a claim writes, given the lease that was there. The one store writes the run before it
computes when the lease expires, the other after it; the write of a queued run never fails. -/
theorem sim_claimLease {row : RunRow} (haware : row.updatedAt.Aware) {d : Datetime}
    (hd : d.IsUtc) (workerId : String) (seconds : Seconds) (leaseId : UUID) (token : ℕ)
    {createdAt : Datetime} (hcreated : createdAt.IsUtc) :
    SameResult (fun runs => runs.find? row.id = some row ∧ row.status = .queued)
      (do
        let rowcount ← SQLite.updateRuns
          (fun r => r.id = (row.toRun haware).id ∧ r.version = (row.toRun haware).version ∧
            r.status = .queued)
          (fun r => { r with status := .running, updatedAt := d, version := r.version + 1 })
          (fun _ => rfl)
        raiseUnless (rowcount = 1) (.conflict "run claim conflict" [])
        let expiresAt ← ofExcept (SQLite.addSeconds d seconds)
        SQLite.upsertLease ⟨leaseId, (row.toRun haware).id, workerId, expiresAt, token, true,
          createdAt, d⟩
        let _ ← SQLite.appendEvent (row.toRun haware).id "run.claimed"
          [("fencing_token", .int token), ("worker_id", .str workerId)]
        let run ← SQLite.readRun (row.toRun haware).id
        let lease ← ofExcept (ResourceLease.ofRun leaseId (row.toRun haware).id workerId
          expiresAt token createdAt d)
        pure (some (⟨run, lease⟩ : ClaimedRun)))
      (do
        let expiresAt ← ofExcept (SQLite.addSeconds d seconds)
        let updated ← updateRunsReturning
          (fun r => r.id = (row.toRun haware).id ∧ r.version = (row.toRun haware).version ∧
            r.status = .queued)
          (fun r => { r with status := .running, updatedAt := d.toUtc, version := r.version + 1 })
          (fun _ => rfl)
        let updated ← requireUpdated updated "run claim conflict"
        SQLite.upsertLease ⟨leaseId, (row.toRun haware).id, workerId, expiresAt.toUtc, token,
          true, createdAt.toUtc, d.toUtc⟩
        let _ ← appendEvent (row.toRun haware).id "run.claimed"
          [("fencing_token", .int token), ("worker_id", .str workerId)]
        let run ← ofExcept (runFromRow updated)
        let lease ← ofExcept (ResourceLease.ofRun leaseId (row.toRun haware).id workerId
          expiresAt token createdAt d)
        pure (some (⟨run, lease⟩ : ClaimedRun)))
      fun _ => anyRuns := by
  rw [toUtc_of_isUtc hcreated, toUtc_of_isUtc hd]
  rcases hadd : SQLite.addSeconds d seconds with e | expiresAt
  · refine ⟨fun s t h => ?_⟩
    obtain ⟨hrow, hqueued⟩ := h.runs
    have hone : OneActivePerSession (s.db.runs.update
        (fun r => r.id = (row.toRun haware).id ∧ r.version = (row.toRun haware).version ∧
          r.status = .queued)
        (fun r => { r with status := .running, updatedAt := d, version := r.version + 1 })
        (fun _ => rfl)).rows :=
      s.db.one_active.update (fun _ => rfl) fun r _ hr => by simp [hr.2.2, RunStatus.Active]
    have hcount : s.db.runs.rowcount (fun r => r.id = (row.toRun haware).id ∧
        r.version = (row.toRun haware).version ∧ r.status = .queued) = 1 :=
      (Table.rowcount_eq_one_iff fun _ h => h.1).mpr ⟨row, hrow, rfl, rfl, hqueued⟩
    rw [bind_of_ok (SQLite.yields_updateRuns.mpr ⟨hone, hcount, rfl⟩)]
    exact rfl
  have hexpires := isUtc_of_addSeconds hadd hd
  simp only [ofExcept_ok_bind, toUtc_of_isUtc hexpires]
  refine Sim.bind (sim_updateRunsReturning _ fun _ hc _ => ⟨hc, hd⟩) fun n updated => ?_
  refine Sim.bind (sim_requireUpdated _ (fun _ h => h.1) n updated _ _ _) fun _ updated => ?_
  refine SameResult.bind (sim_upsertLease _ rfl ⟨hexpires, hcreated⟩) fun _ => ?_
  refine SameResult.bind (sim_appendEvent _ _ _ _) fun _ => ?_
  refine SameResult.bind (sim_readUpdated _ updated) fun run => ?_
  refine SameResult.bind (sameResult_ofExcept _) fun lease => ?_
  exact (sameResult_pure _).imp fun _ _ _ => trivial

theorem sim_claimNext (workerId : String) (seconds : Seconds) {d : Option Datetime}
    (hd : ∀ e ∈ d, e.IsUtc) : SameResult anyRuns (SQLite.claimNext sha workerId seconds d)
      (claimNext sha workerId seconds d) fun _ => anyRuns := by
  refine SameResult.bind (sameResult_raiseUnless Iff.rfl rfl) fun _ => assuming fun _ => ?_
  refine SameResult.bind (sameResult_raiseUnless Iff.rfl rfl) fun _ => assuming fun _ => ?_
  refine SameResult.bind (sim_nowOr _ hd) fun d => assuming fun hd => ?_
  refine SameResult.bind (sameResult_raiseUnless Iff.rfl rfl) fun _ => assuming fun _ => ?_
  refine SameResult.bind (sameResult_query (G := fun found runs => ∀ row ∈ found,
    runs.find? row.id = some row ∧ row.status = .queued) (fun s t h => nextQueued_eq h)
    fun s t h row hrow => ?_) fun found => ?_
  · have hmem := List.mem_filter.mp ((List.mem_insertionSort _).mp (List.mem_of_mem_head? hrow))
    exact ⟨Table.find?_of_mem hmem.1, of_decide_eq_true hmem.2⟩
  rcases found with _ | row
  · exact (sameResult_pure none).imp fun _ _ _ => trivial
  refine SameResult.bind ((sim_runFromRow (k := row.id) fun runs h => (h row rfl).1).imp
    fun run runs h => (⟨h.1 row rfl, h.2⟩ : (runs.find? row.id = some row ∧
      row.status = .queued) ∧ ∃ haware, run = row.toRun haware)) fun current =>
        assuming fun hcurrent => ?_
  obtain ⟨haware, rfl⟩ := hcurrent
  refine Sim.intro fun s t h => Sim.consequence (P := With fun runs =>
    runs.find? row.id = some row ∧ row.status = .queued) ?_
      (fun s' t' heq => heq.1 ▸ heq.2 ▸ h) fun _ _ _ _ h => h
  have hassert : assertTransition (row.toRun haware).status .running = .ok () := by
    rw [RunRow.toRun_status, h.runs.2]
    rfl
  simp only [hassert, ofExcept_ok_bind]
  simp only [bind_query_comm (keeps_raiseUnless _ _)]
  rw [bind_query_comm (keeps_updateRuns _)]
  refine Sim.bind (sim_findLease _ _) fun previous previous' => Sim.pull fun hprevious => ?_
  obtain ⟨hcore, hutc⟩ := hprevious
  rcases previous with _ | l <;> rcases previous' with _ | l'
  · exact sim_claimLease haware hd workerId seconds _ 1 hd
  · simp at hcore
  · simp at hcore
  obtain ⟨-, hcreated, -⟩ := hutc l rfl
  have hcore' : l'.core = l.core := by simpa using hcore
  obtain ⟨hid, -, -, -, htoken, -, hc⟩ := LeaseRow.core_eq_iff.mp hcore'
  have hparse : SQLite.parseTime l.createdAt = .ok l.createdAt := if_pos hcreated.aware
  simp only [hid, htoken, hc, hparse, ofExcept_ok_bind]
  exact sim_claimLease haware hd workerId seconds l.id (l.fencingToken + 1) hcreated

theorem sim_renewLease (k : UUID) (workerId : String) (token : ℤ) (seconds : Seconds)
    {d : Option Datetime} (hd : ∀ e ∈ d, e.IsUtc) :
    SameResult anyRuns (SQLite.renewLease k workerId token seconds d)
      (renewLease k workerId token seconds d) fun _ => anyRuns := by
  refine SameResult.bind (sameResult_raiseUnless Iff.rfl rfl) fun _ => assuming fun _ => ?_
  refine SameResult.bind (sim_nowOr _ hd) fun d => assuming fun hd => ?_
  refine SameResult.bind (sameResult_ofExcept _) fun e => assuming fun he => ?_
  have heutc := isUtc_of_addSeconds he hd
  refine Sim.bind (sim_requiredLease _ _ _ _) fun l l' => Sim.pull fun ⟨hcore, hc, hk, hw⟩ => ?_
  obtain ⟨hid, hrun, hholder, -, htoken, -, hcreated⟩ := LeaseRow.core_eq_iff.mp hcore
  rw [toUtc_of_isUtc heutc, hid, hrun, hholder, htoken, hcreated, hk, hw]
  refine SameResult.bind (sim_updateLease _ ?_ fun _ _ hc => ⟨heutc, hc⟩) fun _ => ?_
  · intro l l' hl
    have hl := LeaseRow.core_eq_iff.mp hl
    simp only [LeaseRow.core_eq_iff, hl, and_self]
  have hparse : SQLite.parseTime l.createdAt = .ok l.createdAt := if_pos hc.aware
  rw [hparse, ofExcept_ok_bind]
  exact (sameResult_ofExcept _).imp fun _ _ _ => trivial

theorem sim_assertFencingToken (k : UUID) (workerId : String) (token : ℤ) :
    SameResult anyRuns (SQLite.assertFencingToken k workerId token)
      (assertFencingToken k workerId token) fun _ => anyRuns := by
  refine Sim.bind (sim_requiredLease _ _ _ _) fun _ _ => Sim.pull fun _ => ?_
  exact (sameResult_pure ()).imp fun _ _ _ => trivial

/-- An event is appended alike before and after a write of the leases. -/
theorem commutes_appendEvent (k : UUID) (type : String) (data : JsonObject)
    (g : Table LeaseRow.runId → Table LeaseRow.runId) :
    Commutes (fun c => c.setLeases (g c.db.runLeases)) (SQLite.appendEvent k type data) := by
  refine commutes_bind (commutes_query fun _ => rfl) fun _ =>
    commutes_bind (fun _ => rfl) fun d => commutes_bind ?_ fun _ =>
      commutes_bind (commutes_query fun _ => rfl) fun events => ?_
  · refine commutes_bind (commutes_query fun _ => rfl) fun found => ?_
    rcases found with _ | row
    · exact commutes_raise _
    · exact commutes_pure ()
  · rcases events with _ | events
    · exact commutes_raise _
    · exact commutes_bind (commutes_execute fun _ => rfl) fun _ => commutes_pure _

/-- Rows of the two sweeps that agree but for the `updated_at` of the lease. -/
def SameLease (row row' : SQLite.ExpiredLease) : Prop :=
  row'.lease.core = row.lease.core ∧ row'.status = row.status ∧ row'.version = row.version

theorem sim_requeueLease {d : Datetime} (hd : d.IsUtc) {row row' : SQLite.ExpiredLease}
    (h : SameLease row row') : SameResult anyRuns (SQLite.requeueLease d row)
      (requeueLease d row') fun _ => anyRuns := by
  obtain ⟨hcore, hstatus, hversion⟩ := h
  obtain ⟨-, hrun, -, -, htoken, -, -⟩ := LeaseRow.core_eq_iff.mp hcore
  have hrelease : ∀ l l' : LeaseRow, l'.core = l.core →
      ({ l' with active := false, updatedAt := d } : LeaseRow).core =
        ({ l with active := false } : LeaseRow).core := by
    intro l l' hl
    have hl := LeaseRow.core_eq_iff.mp hl
    simp only [LeaseRow.core_eq_iff, hl, and_self]
  rw [SQLite.requeueLease, requeueLease, requeueRun, hrun, hstatus, hversion, htoken,
    toUtc_of_isUtc hd]
  by_cases hs : row.status = .running
  · rw [if_neg (not_not.mpr hs), if_pos hs]
    rw [bind_assoc]
    refine SameResult.bind (sim_updateRuns _ fun _ hc _ => ⟨hc, hd⟩) fun _ => ?_
    -- The event is written after the lease in the one store, and before it in the other.
    have hevent : SameResult anyRuns
        (SQLite.appendEvent row.lease.runId "run.lease.expired"
          [("fencing_token", .int row.lease.fencingToken)] >>= fun _ => pure ())
        (appendEvent row.lease.runId "run.lease.expired"
          [("fencing_token", .int row.lease.fencingToken)] >>= fun _ => pure ())
        fun _ => anyRuns :=
      SameResult.bind (sim_appendEvent _ _ _ _) fun _ =>
        (sameResult_pure ()).imp fun _ _ _ => trivial
    refine Sim.consequence ?_ (P := With anyRuns) (fun _ _ h => h.imp fun _ => trivial)
      fun _ _ _ _ h => h
    have hcommutes := commutes_bind (commutes_appendEvent row.lease.runId "run.lease.expired"
      [("fencing_token", .int row.lease.fencingToken)] fun leases => leases.update
        (fun l => l.runId = row.lease.runId)
        (fun l => { l with active := false, updatedAt := d }) (fun _ => rfl))
      fun _ => commutes_pure ()
    refine Sim.bind_after (Sim.execute_left hcommutes hevent) fun _ _ => ⟨?_⟩
    rintro _ t ⟨s, ⟨-, h⟩, rfl⟩
    exact ⟨rfl, with_updateLease h (fun l l' hl => hrelease l l' hl)
      fun _ he hc => ⟨he, hc⟩⟩
  · rw [if_pos hs, if_neg hs]
    exact sim_updateLease _ hrelease fun _ he hc => ⟨he, hc⟩

/-- The row of the sweep without the `updated_at` of its lease. -/
def coreRow (row : SQLite.ExpiredLease) : SQLite.ExpiredLease :=
  { row with lease := row.lease.core }

theorem coreRow_eq_iff {row row' : SQLite.ExpiredLease} :
    coreRow row' = coreRow row ↔ SameLease row row' := by
  simp [coreRow, SameLease]

/-- The leases that a sweep reads, before they are sorted. -/
def sweptLeases (runs : Table RunRow.id) (d : Datetime) (leases : List LeaseRow) :
    List SQLite.ExpiredLease :=
  (leases.filter fun l => l.active = true ∧ l.expiresAt.instant ≤ d.instant).filterMap fun l =>
    (runs.find? l.runId).map fun r => ⟨l, r.status, r.version⟩

theorem map_coreRow_sweptLeases (runs : Table RunRow.id) (d : Datetime)
    (leases : List LeaseRow) : (sweptLeases runs d leases).map coreRow =
      sweptLeases runs d (leases.map LeaseRow.core) := by
  rw [sweptLeases, sweptLeases, List.filter_map, List.filterMap_map, List.map_filterMap]
  congr 1
  funext l
  exact Option.map_map _ _ _

/-- The leases that have expired agree but for `updated_at`, in the same order. -/
theorem expiredLeases_sameLease {s t : Connection} {d : Datetime} (h : With F s t)
    (hd : d.IsUtc) :
    List.Forall₂ SameLease (SQLite.expiredLeases s.db d) (expiredLeases t.db d) := by
  have hfilter : (s.db.runLeases.rows.filter fun l => l.active = true ∧
        l.expiresAt.isoformat ≤ d.isoformat) =
      s.db.runLeases.rows.filter fun l => l.active = true ∧
        l.expiresAt.instant ≤ d.instant := by
    refine List.filter_congr fun l hl => decide_eq_decide.mpr (and_congr_right fun _ => ?_)
    exact isoformat_utc_le_iff (h.regular.leases l hl).1 hd
  have hutc : ∀ row ∈ sweptLeases s.db.runs d s.db.runLeases.rows, row.lease.expiresAt.IsUtc := by
    intro row hrow
    obtain ⟨l, hl, hmap⟩ := List.mem_filterMap.mp hrow
    obtain ⟨r, -, rfl⟩ := Option.map_eq_some_iff.mp hmap
    exact (h.regular.leases l (List.mem_filter.mp hl).1).1
  have hleft : SQLite.expiredLeases s.db d =
      (sweptLeases s.db.runs d s.db.runLeases.rows).insertionSort leaseExpiresBefore := by
    rw [SQLite.expiredLeases, hfilter]
    refine insertionSort_congr fun a ha b hb => ?_
    rw [SQLite.leaseExpiresBefore, leaseExpiresBefore,
      isoformat_utc_lt_iff (hutc a ha) (hutc b hb), isoformat_utc_eq_iff (hutc a ha) (hutc b hb)]
  have hright : expiredLeases t.db d =
      (sweptLeases s.db.runs d t.db.runLeases.rows).insertionSort leaseExpiresBefore := by
    rw [expiredLeases, h.alike.runs_eq]
    rfl
  have hmap : ∀ rows : List SQLite.ExpiredLease,
    (rows.insertionSort leaseExpiresBefore).map coreRow =
      (rows.map coreRow).insertionSort leaseExpiresBefore :=
    fun rows => List.map_insertionSort _ _ coreRow rows fun _ _ _ _ => Iff.rfl
  have hcore : (SQLite.expiredLeases s.db d).map coreRow = (expiredLeases t.db d).map coreRow := by
    rw [hleft, hright, hmap, hmap, map_coreRow_sweptLeases, map_coreRow_sweptLeases,
      h.alike.leases_eq]
  exact (map_eq_map_iff_forall₂.mp hcore).imp fun _ _ hrow => coreRow_eq_iff.mp hrow.symm

theorem requeued_eq {rows rows' : List SQLite.ExpiredLease}
    (h : List.Forall₂ SameLease rows rows') :
    ((rows'.filter fun row => row.status = .running).map fun row => row.lease.runId) =
      (rows.filter fun row => row.status = .running).map fun row => row.lease.runId := by
  induction h with
  | nil => rfl
  | cons hrow _ ih =>
    obtain ⟨hcore, hstatus, -⟩ := hrow
    have hrun := (LeaseRow.core_eq_iff.mp hcore).2.1
    rw [List.filter_cons, List.filter_cons, hstatus]
    split_ifs
    · rw [List.map_cons, List.map_cons, ih, hrun]
    · exact ih

theorem sim_requeueExpiredLeases {d : Option Datetime} (hd : ∀ e ∈ d, e.IsUtc) :
    SameResult anyRuns (SQLite.requeueExpiredLeases d) (requeueExpiredLeases d)
      fun _ => anyRuns := by
  refine SameResult.bind (sim_nowOr _ hd) fun d => assuming fun hd => ?_
  refine Sim.bind (Q := fun rows rows' s t => List.Forall₂ SameLease rows rows' ∧
    With anyRuns s t) ⟨fun s t h => ⟨expiredLeases_sameLease h hd, h⟩⟩ fun rows rows' =>
      Sim.pull fun hrows => ?_
  have hloop : SameEnd (With anyRuns) (forEach (SQLite.requeueLease d) rows)
      (forEach (requeueLease d) rows') fun _ _ s t => With anyRuns s t :=
    Sim.forEach (fun row row' hrow => Sim.consequence (sim_requeueLease hd hrow)
      (fun _ _ h => h) fun _ _ _ _ h => h.2) hrows
  refine hloop.bind fun _ _ => ?_
  rw [requeued_eq hrows]
  exact (sameResult_pure _).imp fun _ _ _ => trivial

/-! ### Calls -/

variable (sha) in
/-- The operations of the interface as bodies of transactions. -/
def body : (op : Op) → Sql op.Result
  | .createRun run => createRun sha run
  | .getRun runId => getRun runId
  | .listRuns tenantId after limit sessionId statuses =>
    listRuns tenantId after limit sessionId statuses
  | .countRuns status tenantId => countRuns status tenantId
  | .transitionRun runId expectedVersion target state nextNodes =>
    transitionRun runId expectedVersion target state nextNodes
  | .listRunEvents runId afterSequence limit => listRunEvents runId afterSequence limit
  | .appendRunEvent runId type data => appendRunEvent runId type data
  | .appendCheckpoint checkpoint => appendCheckpoint checkpoint
  | .latestCheckpoint runId => latestCheckpoint runId
  | .listCheckpoints runId => listCheckpoints runId
  | .commitCheckpoint checkpoint workerId fencingToken expectedRunVersion =>
    commitCheckpoint checkpoint workerId fencingToken expectedRunVersion
  | .finishClaim runId workerId fencingToken expectedRunVersion target eventType eventData =>
    finishClaim runId workerId fencingToken expectedRunVersion target eventType eventData
  | .createInterrupt interrupt expectedRunVersion =>
    createInterrupt interrupt expectedRunVersion
  | .getInterrupt interruptId => getInterrupt interruptId
  | .listInterrupts tenantId pendingOnly => listInterrupts tenantId pendingOnly
  | .expireInterrupts now => expireInterrupts now
  | .decideInterrupt interruptId decision expectedRunVersion =>
    decideInterrupt interruptId decision expectedRunVersion
  | .claimNext workerId leaseSeconds now => claimNext sha workerId leaseSeconds now
  | .renewLease runId workerId fencingToken leaseSeconds now =>
    renewLease runId workerId fencingToken leaseSeconds now
  | .assertFencingToken runId workerId fencingToken =>
    assertFencingToken runId workerId fencingToken
  | .requeueExpiredLeases now => requeueExpiredLeases now

variable (sha) in
/-- A call as a transaction: its result and the tables it leaves. -/
def perform (call : Call) (db : Database) : Except StoreError call.op.Result × Database :=
  transaction (body sha call.op) call.clock db

variable (sha) in
/-- The tables after a sequence of calls, from those of a new store. -/
def after (calls : List Call) : Database :=
  calls.foldl (fun db call => (perform sha call db).2) .empty

/-- The operations of the two stores end alike. -/
theorem sim_body {op : Op} (h : op.Utc) :
    SameResult anyRuns (SQLite.body sha op) (body sha op) fun _ => anyRuns := by
  cases op with
  | createRun => exact sim_createRun h.1 h.2
  | getRun => exact sim_getRun _
  | listRuns => exact sim_listRuns _ _ _ _ _
  | countRuns => exact sim_countRuns _ _
  | transitionRun => exact sim_transitionRun _ _ _ _ _
  | listRunEvents => exact sim_listRunEvents _ _ _
  | appendRunEvent => exact sim_appendRunEvent _ _ _
  | appendCheckpoint => exact sim_appendCheckpoint h
  | latestCheckpoint => exact sim_latestCheckpoint _
  | listCheckpoints => exact sim_listCheckpoints _
  | commitCheckpoint => exact sim_commitCheckpoint h _ _ _
  | finishClaim => exact sim_finishClaim _ _ _ _ _ _ _
  | createInterrupt => exact sim_createInterrupt h.1 h.2 _
  | getInterrupt => exact sim_getInterrupt _
  | listInterrupts => exact sim_listInterrupts _ _
  | expireInterrupts => exact sim_expireInterrupts h
  | decideInterrupt => exact sim_decideInterrupt _ _ _
  | claimNext => exact sim_claimNext _ _ h
  | renewLease => exact sim_renewLease _ _ _ _ h
  | assertFencingToken => exact sim_assertFencingToken _ _ _
  | requeueExpiredLeases => exact sim_requeueExpiredLeases h

/-- A call has the same answer from alike tables, and leaves alike tables. -/
theorem perform_alike {call : Call} (h : call.op.Utc) {db db' : Database} (halike : db.Alike db')
    (hregular : db.Regular) :
    SameAnswer (SQLite.perform sha call db).1 (perform sha call db').1 ∧
      (SQLite.perform sha call db).2.Alike (perform sha call db').2 ∧
        (SQLite.perform sha call db).2.Regular := by
  have hstart : With anyRuns ⟨db, call.clock⟩ ⟨db', call.clock⟩ :=
    ⟨rfl, halike, hregular, trivial⟩
  rcases Sim.of_yields (sim_body h) hstart with
    ⟨a, s', b, t', hs, ht, rfl, h'⟩ | ⟨e, e', hs, ht, hclass⟩
  · have hs : SQLite.perform sha call db = (.ok b, s'.db) :=
      transaction_eq_ok_iff.mpr ⟨s', hs, rfl⟩
    have ht : perform sha call db' = (.ok b, t'.db) := transaction_eq_ok_iff.mpr ⟨t', ht, rfl⟩
    rw [hs, ht]
    exact ⟨rfl, h'.alike, h'.regular⟩
  · have hs : (SQLite.perform sha call db).1 = .error e := transaction_fst_eq_error_iff.mpr hs
    have ht : (perform sha call db').1 = .error e' := transaction_fst_eq_error_iff.mpr ht
    have hkeep : (perform sha call db').2 = db' := transaction_snd_of_error ht
    rw [hs, ht, SQLite.perform_of_error hs, hkeep]
    exact ⟨hclass, halike, hregular⟩

theorem after_concat (calls : List Call) (call : Call) :
    after sha (calls ++ [call]) = (perform sha call (after sha calls)).2 := by
  rw [after, List.foldl_append]
  rfl

/-- The tables of the two stores are alike after every sequence of calls. -/
theorem after_alike (sha : Sha256) {calls : List Call} (h : ∀ call ∈ calls, call.op.Utc) :
    (SQLite.after sha calls).Alike (after sha calls) ∧ (SQLite.after sha calls).Regular := by
  induction calls using List.reverseRecOn with
  | nil => exact ⟨.refl _, Database.regular_empty⟩
  | append_singleton calls call ih =>
    rw [SQLite.after_concat, after_concat]
    obtain ⟨halike, hregular⟩ := ih fun c hc => h c (List.mem_append_left _ hc)
    exact (perform_alike (h call (by simp)) halike hregular).2

/-- **Observational equivalence.** Along every sequence of calls whose timestamps are in UTC,
every call has the same answer from both stores, and after every prefix so has every query. -/
theorem answers_alike_of_calls (sha : Sha256) {calls : List Call}
    (h : ∀ call ∈ calls, call.op.Utc) :
    (∀ pre call post, calls = pre ++ call :: post →
      SameAnswer (SQLite.perform sha call (SQLite.after sha pre)).1
        (perform sha call (after sha pre)).1) ∧
    ∀ pre, pre <+: calls → ∀ query : Call, query.op.Observes →
      SameAnswer (SQLite.perform sha query (SQLite.after sha pre)).1
        (perform sha query (after sha pre)).1 := by
  refine ⟨fun pre call post hcalls => ?_, fun pre hpre query hquery => ?_⟩
  · have hpre : ∀ c ∈ pre, c.op.Utc := fun c hc => h c (by simp [hcalls, hc])
    obtain ⟨halike, hregular⟩ := after_alike sha hpre
    exact (perform_alike (h call (by simp [hcalls])) halike hregular).1
  · obtain ⟨halike, hregular⟩ := after_alike sha fun c hc => h c (hpre.subset hc)
    exact (perform_alike hquery.utc halike hregular).1

/-- The creation and the claim of the sample run have the same answers from both stores. -/
theorem answers_alike_of_calls_sample :
    SameAnswer (SQLite.perform Sample.sha ⟨.claimNext "first" (.finite 30) none, Sample.clock 1⟩
        (SQLite.after Sample.sha [⟨.createRun Sample.run, Sample.clock 0⟩])).1
      (perform Sample.sha ⟨.claimNext "first" (.finite 30) none, Sample.clock 1⟩
        (after Sample.sha [⟨.createRun Sample.run, Sample.clock 0⟩])).1 ∧
    SameAnswer (SQLite.perform Sample.sha ⟨.getRun Sample.run.id, Sample.clock 2⟩
        (SQLite.after Sample.sha Sample.claimed)).1
      (perform Sample.sha ⟨.getRun Sample.run.id, Sample.clock 2⟩
        (after Sample.sha Sample.claimed)).1 := by
  have hutc : ∀ call ∈ Sample.claimed, call.op.Utc := by
    simp [Sample.claimed, Op.Utc, Sample.run]
  have h := answers_alike_of_calls Sample.sha hutc
  exact ⟨h.1 [_] _ [] rfl, h.2 _ List.prefix_rfl ⟨.getRun Sample.run.id, Sample.clock 2⟩ trivial⟩

end Postgres

end OpenRath
