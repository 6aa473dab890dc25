import OpenRath.Runtime.Sqlite.Interrupts

/-!
# The lifecycle of interrupts

A run waits exactly as long as one of its interrupts is undecided, if the store is used as the
runtime and the server use it. Status and decision are columns of two tables, which four operations
change together: an interrupt is inserted when its run starts to wait, and it is decided, or
rejected at its deadline, when the run stops waiting. A run that is cancelled leaves its interrupt
undecided; the interrupt is then rejected at its deadline without touching the run.

## Main definitions

* `Database.Pending`: the undecided interrupts of a run.
* `Op.Issued`: the operations that the runtime and the server issue.
* `SQLite.Lifecycle`: the invariant of runs and interrupts.

## Main results

* `SQLite.Lifecycle.perform`: an operation that is issued keeps the invariant.
* `SQLite.interrupt_lifecycle`: the lifecycle along histories.
-/

namespace OpenRath

/-- An undecided interrupt of a run. -/
def Database.Pending (db : Database) (i : UUID) (k : Interrupt) : Prop :=
  db.interrupts.find? k.id = some k ∧ k.runId = i ∧ k.decision = none

/-- The statuses of a run that has not ended and does not wait. -/
def RunStatus.Attended (s : RunStatus) : Prop := s ∈ [queued, running, needsReview]

instance (s : RunStatus) : Decidable s.Attended := inferInstanceAs (Decidable (_ ∈ _))

theorem RunStatus.Terminal.not_attended {s : RunStatus} (h : s.Terminal) :
    s ≠ .waiting ∧ ¬ s.Attended := by
  revert h
  cases s <;> decide

/-- The operations that the runtime and the server issue: runs are created as queued, a claim ends
in a terminal status, and a transition cancels a run, moves a running run into review or lets a
reviewed run go on. -/
def Op.Issued (db : Database) : Op → Prop
  | .createRun run => run.status = .queued
  | .finishClaim _ _ _ _ target _ _ => target.Terminal
  | .transitionRun runId _ target _ _ => target = .cancelled ∨
      ∃ row ∈ db.runs.find? runId, row.status = .running ∧ target = .needsReview ∨
        row.status = .needsReview ∧ target = .queued
  | _ => True

instance (db : Database) : DecidablePred (Op.Issued db)
  | .createRun run => inferInstanceAs (Decidable (run.status = .queued))
  | .finishClaim _ _ _ _ target _ _ => inferInstanceAs (Decidable target.Terminal)
  | .transitionRun runId _ target _ _ => inferInstanceAs (Decidable (target = .cancelled ∨
      ∃ row ∈ db.runs.find? runId, row.status = .running ∧ target = .needsReview ∨
        row.status = .needsReview ∧ target = .queued))
  | .getRun _ | .listRuns .. | .countRuns .. | .listRunEvents .. | .appendRunEvent ..
  | .appendCheckpoint _ | .latestCheckpoint _ | .listCheckpoints _ | .commitCheckpoint ..
  | .createInterrupt .. | .getInterrupt _ | .listInterrupts .. | .expireInterrupts _
  | .decideInterrupt .. | .claimNext .. | .renewLease .. | .assertFencingToken ..
  | .requeueExpiredLeases _ => .isTrue trivial

/-- The steps of a run that the operations without interrupts make when they are issued. -/
def RunAction.Issued (v : RunView) : RunAction → Prop
  | .create run => run.status = .queued
  | .finish target => target.Terminal
  | .transition target _ _ => target = .cancelled ∨
      ∃ row ∈ v.row, row.status = .running ∧ target = .needsReview ∨
        row.status = .needsReview ∧ target = .queued
  | .interrupt | .decide | .expire => False
  | _ => True

/-- A run does not start or stop to wait in such a step, unless it ends. -/
theorem RunView.Step.attended {v v' : RunView} {a : RunAction} (h : v.Step a v')
    (ha : a.Issued v) {row' : RunRow} (hrow' : v'.row = some row') :
    (row'.status = .waiting → ∃ row, v.row = some row ∧ row.status = .waiting) ∧
    (row'.status.Attended → v.row = none ∨ ∃ row, v.row = some row ∧ row.status.Attended) := by
  have hqueued : RunStatus.queued.Attended := by decide
  have hrunning : RunStatus.running.Attended := by decide
  have hreview : RunStatus.needsReview.Attended := by decide
  cases h with
  | stay => exact ⟨fun hs => ⟨row', hrow', hs⟩, fun hs => Or.inr ⟨row', hrow', hs⟩⟩
  | create _ hnone =>
    cases hrow'
    exact ⟨fun hs => absurd (hs.symm.trans ha) (by decide), fun _ => Or.inl hnone⟩
  | transition _ hrow =>
    cases hrow'
    rcases ha with rfl | ⟨row, hfound, ⟨hs, rfl⟩ | ⟨hs, rfl⟩⟩
    · have hcancelled : RunStatus.cancelled.Terminal := by decide
      exact ⟨RunStatus.noConfusion, fun hs => absurd hs hcancelled.not_attended.2⟩
    · exact ⟨RunStatus.noConfusion, fun _ => Or.inr ⟨row, hfound, hs ▸ hrunning⟩⟩
    · exact ⟨RunStatus.noConfusion, fun _ => Or.inr ⟨row, hfound, hs ▸ hreview⟩⟩
  | logEvent | appendCheckpoint | renew | release =>
    exact ⟨fun hs => ⟨row', hrow', hs⟩, fun hs => Or.inr ⟨row', hrow', hs⟩⟩
  | claim _ hrow hs =>
    cases hrow'
    exact ⟨RunStatus.noConfusion, fun _ => Or.inr ⟨_, hrow, hs ▸ hqueued⟩⟩
  | commit hrow hs =>
    cases hrow'
    exact ⟨fun hs' => ⟨_, hrow, hs'⟩, fun hs' => Or.inr ⟨_, hrow, hs'⟩⟩
  | finish _ _ hrow =>
    cases hrow'
    obtain ⟨hne, hnot⟩ := RunStatus.Terminal.not_attended ha
    exact ⟨fun hs => absurd hs hne, fun hs => absurd hs hnot⟩
  | requeue _ hrow hs =>
    cases hrow'
    exact ⟨RunStatus.noConfusion, fun _ => Or.inr ⟨_, hrow, hs ▸ hrunning⟩⟩
  | interrupt | decide | expire => exact ha.elim

namespace SQLite

variable {sha : Sha256} {c c' : Connection}

/-- An operation that writes no interrupts acts on a run by a step that is issued. -/
theorem exists_issued_step {op : Op} {r : op.Result} (h : (body sha op).Yields c r c')
    (hop : ¬ op.WritesInterrupts) (hissued : op.Issued c.db) (i : UUID) :
    ∃ a, a.Issued (c.db.view i) ∧ (c.db.view i).Step a (c'.db.view i) := by
  obtain ⟨a, ha, hstep⟩ := step_body h i
  refine ⟨a, ?_, hstep⟩
  cases ha.causes with
  | createInterrupt | decideInterrupt | expireInterrupts => exact hop trivial
  | createRun => exact hissued
  | finishClaim => exact hissued
  | transitionRun =>
    obtain ⟨rfl, -⟩ := Op.eq_of_only_ne_stay ha (by simp)
    exact hissued
  | stay | appendRunEvent | appendCheckpoint | commitCheckpoint | claimNext | renewLease | requeue
  | release => trivial

/-! ### The invariant -/

/-- A waiting run has exactly one undecided interrupt, and a run that has not ended and does not
wait has none. -/
structure Lifecycle (db : Database) : Prop where
  waiting : ∀ i row, db.runs.find? i = some row → row.status = .waiting → ∃! k, db.Pending i k
  attended : ∀ i row, db.runs.find? i = some row → row.status.Attended → ∀ k, ¬ db.Pending i k

/-- What is undecided after an interrupt was inserted. -/
theorem pending_createInterrupt {k : Interrupt} {v : ℤ} {run : Run}
    (h : (createInterrupt k v).Yields c run c') {i : UUID} {x : Interrupt} :
    c'.db.Pending i x ↔ c.db.Pending i x ∨ x = k.asked ∧ k.runId = i := by
  have hins := interrupts_createInterrupt h
  have hfree := (Table.insert?_eq_some_iff.mp hins).1
  rw [Database.Pending, Table.find?_insert? hins]
  constructor
  · rintro ⟨hfind, hrun, hnone⟩
    split_ifs at hfind with hid
    · cases hfind
      exact Or.inr ⟨rfl, hrun⟩
    · exact Or.inl ⟨hfind, hrun, hnone⟩
  · rintro (⟨hfind, hrun, hnone⟩ | ⟨rfl, hrun⟩)
    · refine ⟨?_, hrun, hnone⟩
      rw [if_neg, hfind]
      intro hid
      rw [hid, hfree] at hfind
      cases hfind
    · exact ⟨if_pos rfl, hrun, rfl⟩

/-- What is undecided after a decision. -/
theorem pending_decideInterrupt {id : UUID} {d : ApprovalDecision} {v : ℤ} {run : Run}
    (h : (decideInterrupt id d v).Yields c run c') {i : UUID} {x : Interrupt} :
    c'.db.Pending i x ↔ c.db.Pending i x ∧ x.id ≠ id := by
  obtain ⟨k, decidedAt, haware, -, -, hupdate⟩ := interrupts_decideInterrupt h
  have hfind' : c'.db.interrupts.find? x.id = (c.db.interrupts.find? x.id).map fun k =>
      if k.id = id ∧ k.decision = none then decided k d decidedAt haware else k := by
    rw [hupdate]
    exact Table.find?_update ..
  rw [Database.Pending, hfind', Option.map_eq_some_iff]
  constructor
  · rintro ⟨⟨k', hfind, hk'⟩, hrun, hnone⟩
    split_ifs at hk' with hid
    · rw [← hk'] at hnone
      cases hnone
    · subst hk'
      exact ⟨⟨hfind, hrun, hnone⟩, fun hx => hid ⟨hx, hnone⟩⟩
  · rintro ⟨⟨hfind, hrun, hnone⟩, hne⟩
    exact ⟨⟨x, hfind, if_neg fun hid => hne hid.1⟩, hrun, hnone⟩

/-- What is undecided after the sweep. -/
theorem pending_expireInterrupts {d : Datetime} {hd : d.Aware} {rows : List ExpiredRow}
    (h : (Tx.forEach (expireInterrupt d hd) rows).Yields c () c') {i : UUID} {x : Interrupt} :
    c'.db.Pending i x ↔ c.db.Pending i x ∧ ∀ row ∈ rows, row.interrupt.id ≠ x.id := by
  rw [Database.Pending, find?_expireInterrupts h, Option.map_eq_some_iff]
  constructor
  · rintro ⟨⟨k', hfind, hk'⟩, hrun, hnone⟩
    split_ifs at hk' with hid
    · rw [← hk'] at hnone
      cases hnone
    · subst hk'
      exact ⟨⟨hfind, hrun, hnone⟩, fun row hrow hx => hid ⟨hnone, row, hrow, hx⟩⟩
  · rintro ⟨⟨hfind, hrun, hnone⟩, hne⟩
    refine ⟨⟨x, hfind, if_neg ?_⟩, hrun, hnone⟩
    rintro ⟨-, row, hrow, hx⟩
    exact hne row hrow hx

namespace Lifecycle

/-- A run that starts to wait had no undecided interrupt before. -/
theorem createInterrupt {k : Interrupt} {v : ℤ} {run : Run}
    (h : (createInterrupt k v).Yields c run c') (hI : Lifecycle c.db) : Lifecycle c'.db := by
  have hwrote := wrote_createInterrupt h
  have hsame : ∀ i row', c'.db.runs.find? i = some row' → i ≠ k.runId →
      c.db.runs.find? i = some row' ∧ ∀ x, c'.db.Pending i x ↔ c.db.Pending i x := by
    intro i row' hrow' hne
    have hview := congrArg RunView.row (hwrote.takes.view_of_ne i hne)
    refine ⟨hview.symm.trans hrow', fun x => ?_⟩
    rw [pending_createInterrupt h]
    exact or_iff_left fun hx => hne hx.2.symm
  have hnew : ∀ row', c'.db.runs.find? k.runId = some row' → row'.status = .waiting ∧
      ∀ x, ¬ c.db.Pending k.runId x := by
    intro row' hrow'
    obtain ⟨row, row'', hrow, htarget, hrow'', hs⟩ := hwrote.takes.step.of_interrupt
    cases hrow'.symm.trans hrow''
    refine ⟨hs, hI.attended _ row hrow ?_⟩
    revert htarget
    generalize row.status = s
    cases s <;> decide
  refine ⟨fun i row' hrow' hs => ?_, fun i row' hrow' hs x => ?_⟩
  · by_cases hi : i = k.runId
    · subst hi
      refine ⟨k.asked, (pending_createInterrupt h).mpr (Or.inr ⟨rfl, rfl⟩), fun x hx => ?_⟩
      rcases (pending_createInterrupt h).mp hx with hold | ⟨rfl, -⟩
      · exact absurd hold ((hnew row' hrow').2 x)
      · rfl
    · obtain ⟨hrow, hpending⟩ := hsame i row' hrow' hi
      simpa only [hpending] using hI.waiting i row' hrow hs
  · by_cases hi : i = k.runId
    · subst hi
      rw [(hnew row' hrow').1] at hs
      exact absurd hs (by decide)
    · obtain ⟨hrow, hpending⟩ := hsame i row' hrow' hi
      rw [hpending]
      exact hI.attended i row' hrow hs x

/-- A run whose interrupt is decided was waiting for it alone. -/
theorem decideInterrupt {id : UUID} {d : ApprovalDecision} {v : ℤ} {run : Run}
    (h : (decideInterrupt id d v).Yields c run c') (hI : Lifecycle c.db) : Lifecycle c'.db := by
  obtain ⟨k, hk, hwrote⟩ := wrote_decideInterrupt h
  obtain ⟨k', decidedAt, haware, hk', hnone, -⟩ := interrupts_decideInterrupt h
  cases hk.symm.trans hk'
  have hid : k.id = id := Table.key_of_find? hk
  have hpendingK : c.db.Pending k.runId k := ⟨hid ▸ hk, rfl, hnone⟩
  have hsame : ∀ i row', c'.db.runs.find? i = some row' → i ≠ k.runId →
      c.db.runs.find? i = some row' ∧ ∀ x, c'.db.Pending i x ↔ c.db.Pending i x := by
    intro i row' hrow' hne
    have hview := congrArg RunView.row (hwrote.takes.view_of_ne i hne)
    refine ⟨hview.symm.trans hrow', fun x => ?_⟩
    rw [pending_decideInterrupt h]
    refine and_iff_left_of_imp fun hx hxid => hne ?_
    have hxk : x = k := Option.some.inj (hx.1.symm.trans (hxid ▸ hk))
    rw [← hx.2.1, hxk]
  have hdone : ∀ row', c'.db.runs.find? k.runId = some row' → row'.status = .queued ∧
      ∀ x, ¬ c'.db.Pending k.runId x := by
    intro row' hrow'
    obtain ⟨row, row'', hrow, htarget, hrow'', hqueued⟩ := hwrote.takes.step.of_decide
    cases hrow'.symm.trans hrow''
    refine ⟨hqueued, fun x hx => ?_⟩
    obtain ⟨hxold, hxid⟩ := (pending_decideInterrupt h).mp hx
    by_cases hs : row.status = .waiting
    · obtain ⟨k₀, -, hunique⟩ := hI.waiting _ row hrow hs
      exact hxid (((hunique x hxold).trans (hunique k hpendingK).symm) ▸ hid)
    · refine hI.attended _ row hrow ?_ k hpendingK
      revert htarget hs
      generalize row.status = s
      cases s <;> decide
  refine ⟨fun i row' hrow' hs => ?_, fun i row' hrow' hs x => ?_⟩
  · by_cases hi : i = k.runId
    · subst hi
      exact absurd (hs.symm.trans (hdone row' hrow').1) (by decide)
    · obtain ⟨hrow, hpending⟩ := hsame i row' hrow' hi
      simpa only [hpending] using hI.waiting i row' hrow hs
  · by_cases hi : i = k.runId
    · subst hi
      exact (hdone row' hrow').2 x
    · obtain ⟨hrow, hpending⟩ := hsame i row' hrow' hi
      rw [hpending]
      exact hI.attended i row' hrow hs x

/-- A run whose interrupt is rejected by the sweep is timed out if it was waiting. -/
theorem expireInterrupts {givenNow : Option Datetime} {ids : List UUID}
    (h : (expireInterrupts givenNow).Yields c ids c') (hI : Lifecycle c.db) :
    Lifecycle c'.db := by
  obtain ⟨d, c₀, hd, hnow, hsweeps, hloop, -⟩ := sweeps_expireInterrupts h
  have hpending : ∀ i x, c'.db.Pending i x ↔
      c.db.Pending i x ∧ ∀ row ∈ expiredRows c.db d, row.interrupt.id ≠ x.id := by
    intro i x
    have hiff := pending_expireInterrupts hloop (i := i) (x := x)
    rwa [Database.Pending, Database.Pending, db_of_nowOr hnow] at hiff
  have hrow : ∀ i row', c'.db.runs.find? i = some row' → ¬ row'.status.Terminal →
      c.db.runs.find? i = some row' ∧
      ∀ row ∈ expiredRows c.db d, row.interrupt.runId = i → row.runStatus ≠ .waiting := by
    intro i row' hrow' hterm
    by_cases hi : ∃ row ∈ expiredRows c.db d, row.interrupt.runId = i ∧ row.runStatus = .waiting
    · obtain ⟨row, hrow, rfl, hs⟩ := hi
      obtain ⟨old, t, -, -, hnew⟩ := (hsweeps.runs row hrow hs).of_expire
      cases hrow'.symm.trans hnew
      exact absurd (by decide : RunStatus.timedOut.Terminal) hterm
    · push Not at hi
      exact ⟨(congrArg RunView.row (hsweeps.rest i hi)).symm.trans hrow', hi⟩
  refine ⟨fun i row' hrow' hs => ?_, fun i row' hrow' hs x hx => ?_⟩
  · obtain ⟨hold, hrest⟩ := hrow i row' hrow' (by rw [hs]; decide)
    obtain ⟨k, hk, hunique⟩ := hI.waiting i row' hold hs
    refine ⟨k, (hpending i k).mpr ⟨hk, fun row hmem hid => ?_⟩, fun x hx =>
      hunique x ((hpending i x).mp hx).1⟩
    -- A row of the sweep for this interrupt would have read the run as waiting.
    obtain ⟨hfind, -, -, r, hr, -, hstatus⟩ := mem_expiredRows.mp hmem
    have hk' : row.interrupt = k := Option.some.inj (hfind.symm.trans (hid ▸ hk.1))
    have hrun : row.interrupt.runId = i := hk' ▸ hk.2.1
    cases (hrun ▸ hr).symm.trans hold
    exact hrest row hmem hrun (hstatus.trans hs)
  · obtain ⟨hold, -⟩ := hrow i row' hrow' fun hterm => hterm.not_attended.2 hs
    exact hI.attended i row' hold hs x ((hpending i x).mp hx).1

/-- Any other operation that is issued leaves the interrupts alone, and no run starts or stops to
wait. -/
theorem of_keeps {op : Op} {r : op.Result} (h : (body sha op).Yields c r c')
    (hop : ¬ op.WritesInterrupts) (hissued : op.Issued c.db) (howned : Owned c.db)
    (hI : Lifecycle c.db) : Lifecycle c'.db := by
  have hpending : ∀ i x, c'.db.Pending i x ↔ c.db.Pending i x := by
    intro i x
    have hsame : c'.db.interrupts = c.db.interrupts := keeps_interrupts hop h
    rw [Database.Pending, Database.Pending, hsame]
  refine ⟨fun i row' hrow' hs => ?_, fun i row' hrow' hs x => ?_⟩
  · obtain ⟨a, ha, hstep⟩ := exists_issued_step h hop hissued i
    obtain ⟨row, hrow, hs'⟩ := (hstep.attended ha hrow').1 hs
    simpa only [hpending] using hI.waiting i row hrow hs'
  · obtain ⟨a, ha, hstep⟩ := exists_issued_step h hop hissued i
    rw [hpending]
    rcases (hstep.attended ha hrow').2 hs with hnone | ⟨row, hrow, hs'⟩
    · rintro ⟨hfind, rfl, -⟩
      obtain ⟨row, hrow⟩ := howned x (Table.mem_of_find? hfind)
      cases hnone.symm.trans hrow
    · exact hI.attended i row hrow hs' x

/-- An operation that is issued keeps the invariant. -/
theorem perform {call : Call} {db : Database} (hissued : call.op.Issued db)
    (howned : Owned db) (hI : Lifecycle db) : Lifecycle (SQLite.perform sha call db).2 := by
  rcases perform_cases sha call db with ⟨e, -, hsame⟩ | ⟨r, c', -, hdb, hy⟩
  · rwa [hsame]
  rw [hdb]
  obtain ⟨op, clock⟩ := call
  by_cases hop : op.WritesInterrupts
  swap
  · exact of_keeps hy hop hissued howned hI
  cases op with
  | createInterrupt => exact createInterrupt hy hI
  | decideInterrupt => exact decideInterrupt hy hI
  | expireInterrupts => exact expireInterrupts hy hI
  | _ => exact hop.elim

end Lifecycle

/-! ### Histories -/

/-- The calls are issued, each on the tables that the earlier ones leave. -/
def IssuedFrom (sha : Sha256) : Database → List Call → Prop
  | _, [] => True
  | db, call :: calls => call.op.Issued db ∧ IssuedFrom sha (SQLite.perform sha call db).2 calls

instance decidableIssuedFrom (sha : Sha256) : (db : Database) → (calls : List Call) →
    Decidable (IssuedFrom sha db calls)
  | _, [] => .isTrue trivial
  | db, call :: calls =>
    have := decidableIssuedFrom sha (SQLite.perform sha call db).2 calls
    inferInstanceAs (Decidable (_ ∧ _))

theorem lifecycle_foldl {calls : List Call} {db : Database} (h : IssuedFrom sha db calls)
    (howned : Owned db) (hI : Lifecycle db) :
    Lifecycle (calls.foldl (fun db call => (perform sha call db).2) db) := by
  induction calls generalizing db with
  | nil => exact hI
  | cons call calls ih => exact ih h.2 (owned_perform howned) (hI.perform h.1 howned)

theorem lifecycle_after {calls : List Call} (h : IssuedFrom sha .empty calls) :
    Lifecycle (after sha calls) := by
  have hnone : ∀ i row, Database.empty.runs.find? i ≠ some row := fun i row => by
    simp [Database.empty]
  exact lifecycle_foldl h (owned_after sha []) ⟨fun i row hrow => absurd hrow (hnone i row),
    fun i row hrow => absurd hrow (hnone i row)⟩

/-- A run whose interrupt is decided by a call does not wait after it. -/
theorem not_waiting_of_decided {call : Call} {db : Database} {id : UUID} {k k' : Interrupt}
    (hk : db.interrupts.find? id = some k) (hnone : k.decision = none)
    (hk' : (perform sha call db).2.interrupts.find? id = some k') (hsome : k'.decision ≠ none)
    {row : RunRow} (hrow : (perform sha call db).2.runs.find? k.runId = some row) :
    row.status ≠ .waiting := by
  rcases perform_cases sha call db with ⟨e, -, hsame⟩ | ⟨r, c', -, hdb, hy⟩
  · rw [hsame, hk] at hk'
    cases hk'
    exact absurd hnone hsome
  rw [hdb] at hk' hrow
  have hsettles : call.op.Settles k k' := by
    obtain ⟨k'', hk'', hsettles⟩ := settles_body hy hk
    cases hk'.symm.trans hk''
    exact hsettles
  obtain ⟨op, clock⟩ := call
  cases hsettles with
  | stay => exact absurd hnone hsome
  | decide =>
    obtain ⟨k₀, hk₀, hwrote⟩ := wrote_decideInterrupt hy
    rw [Table.key_of_find? hk] at hk₀
    cases hk.symm.trans hk₀
    obtain ⟨-, row', -, -, hrow', hs⟩ := hwrote.takes.step.of_decide
    cases hrow.symm.trans hrow'
    rw [hs]
    exact RunStatus.noConfusion
  | expire expiredAt haware hk₀ =>
    obtain ⟨d, c₀, hd, hnow, hsweeps, hloop, -⟩ := sweeps_expireInterrupts hy
    have hid : k.id = id := Table.key_of_find? hk
    have hmem : ∃ row ∈ expiredRows db d, row.interrupt.id = id := by
      by_contra hno
      have hfind := find?_expireInterrupts hloop id
      rw [db_of_nowOr hnow, hk', hk, Option.map_some, if_neg fun h => hno h.2] at hfind
      exact hsome ((congrArg Interrupt.decision (Option.some.inj hfind)).trans hnone)
    obtain ⟨r₀, hr₀, hrid⟩ := hmem
    obtain ⟨hfind, -, -, r₁, hr₁, -, hstatus⟩ := mem_expiredRows.mp hr₀
    rw [hrid] at hfind
    cases hk.symm.trans hfind
    by_cases hs : r₀.runStatus = .waiting
    · obtain ⟨old, t, -, -, hnew⟩ := (hsweeps.runs r₀ hr₀ hs).of_expire
      cases hrow.symm.trans hnew
      exact RunStatus.noConfusion
    · have hrest : ∀ row ∈ expiredRows db d, row.interrupt.runId = r₀.interrupt.runId →
          row.runStatus ≠ .waiting := by
        intro row' hrow' hrun
        obtain ⟨-, -, -, r₂, hr₂, -, hstatus₂⟩ := mem_expiredRows.mp hrow'
        rw [hrun] at hr₂
        cases hr₁.symm.trans hr₂
        rwa [hstatus₂, ← hstatus]
      have hview := congrArg RunView.row (hsweeps.rest _ hrest)
      cases hr₁.symm.trans (hview.symm.trans hrow)
      rwa [← hstatus]

/-- **Interrupt lifecycle.** After every history of operations that the runtime and the server
issue, a waiting run has exactly one undecided interrupt, and a run that is queued, running or in
review has none; no further operation changes a decision; and one that decides an interrupt leaves
its run in a status other than waiting. -/
theorem interrupt_lifecycle (sha : Sha256) (calls : List Call)
    (hcalls : IssuedFrom sha .empty calls) :
    (∀ i row, (after sha calls).runs.find? i = some row →
      (row.status = .waiting → ∃! k, (after sha calls).Pending i k) ∧
      (row.status ∈ [.queued, .running, .needsReview] → ∀ k, ¬ (after sha calls).Pending i k)) ∧
    ∀ call, call.op.Issued (after sha calls) →
      (∀ id k d, (after sha calls).interrupts.find? id = some k → k.decision = some d →
        ∃ k', (perform sha call (after sha calls)).2.interrupts.find? id = some k' ∧
          k'.decision = some d) ∧
      (∀ id k k', (after sha calls).interrupts.find? id = some k → k.decision = none →
        (perform sha call (after sha calls)).2.interrupts.find? id = some k' →
        k'.decision ≠ none →
        ∃ row, (perform sha call (after sha calls)).2.runs.find? k.runId = some row ∧
          row.status ≠ .waiting) := by
  have hI := lifecycle_after hcalls
  refine ⟨fun i row hrow => ⟨hI.waiting i row hrow, hI.attended i row hrow⟩, fun call _ =>
    ⟨fun id k d hk hd => ?_, fun id k k' hk hnone hk' hsome => ?_⟩⟩
  · obtain ⟨k', hk', hsettles⟩ := settles_perform sha call hk
    exact ⟨k', hk', hsettles.decision_eq hd⟩
  · obtain ⟨k'', hk'', hsettles⟩ := settles_perform sha call hk
    have howned : Owned (perform sha call (after sha calls)).2 :=
      owned_perform (owned_after sha calls)
    obtain ⟨row, hrow⟩ := howned k'' (Table.mem_of_find? hk'')
    rw [hsettles.kept.2.1] at hrow
    exact ⟨row, hrow, not_waiting_of_decided hk hnone hk' hsome hrow⟩

end SQLite

namespace Sample

/-- A question about the sample run. -/
def question : Interrupt where
  id := ⟨5⟩
  runId := run.id
  kind := .approval
  request := [("prompt", .str "go on?")]
  createdAt := .utc (reading 3)
  expiresAt := some (.utc (reading 60))
  decision := none
  createdAt_aware := by decide
  expiresAt_aware := by decide
  decidedAt_aware := Interrupt.undecided_aware

/-- The sample run waits for a decision. -/
def waiting : List Call := claimed ++ [⟨.createInterrupt question 1, clock 3⟩]

end Sample

/-- The waiting sample run has exactly one undecided interrupt. -/
theorem SQLite.interrupt_lifecycle_sample :
    ∃! k, (after Sample.sha Sample.waiting).Pending Sample.run.id k := by
  have hlaw := interrupt_lifecycle Sample.sha Sample.waiting (by decide +kernel)
  have hfound : ∃ row ∈ (after Sample.sha Sample.waiting).runs.find? Sample.run.id,
      row.status = .waiting := by decide +kernel
  obtain ⟨row, hrow, hs⟩ := hfound
  exact (hlaw.1 _ row hrow).1 hs

end OpenRath
