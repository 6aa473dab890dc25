import OpenRath.Runtime.Local

/-!
# Reconciliation of stale effects

`reconcile_stale_effects` (`src/rath/runtime/effects.py`) as a process. The ledger marks all stale
invocations in one transaction. The runs of those that have become ambiguous are then visited one
by one: a run that is read as `RUNNING` is moved to `NEEDS_REVIEW`, any other is passed over, and
so is a run that changes between the two.

An ambiguous invocation is never looked at again, so a run that is passed over while it is queued
or waiting is executed further without a review. The review of a run is not lost in the
interleavings in which this run is always read as running, in review or ended, and has not gone back
to the queue when it is moved. Other runs make no difference.

## Main definitions

* `reconcileStaleEffects`; `Outcome`, the results of the processes of the system.
* `World.Surfaced`: an ambiguous invocation whose run is in review or has ended.
* `Cmd.Reviewable`: the states in which a visit does not lose the review of a run.
* `KeepsReview`: the steps along which the review of a run is not lost.

## Main results

* `ambiguity_surfaces`: no review of a run is lost along such interleavings.
* `queued_run_passed_over`: an interleaving that loses it.
-/

namespace OpenRath

open Process

/-! ### The process -/

/-- The reported invocations by what is to be done about them. -/
structure Reconciliation where
  retryable : List UUID
  needsReview : List UUID
deriving DecidableEq

/-- What the processes of the system return. -/
inductive Outcome
  | worked (run : Option Run)
  | reconciled (reconciliation : Reconciliation)
  | done
deriving DecidableEq

/-- The comparison `x < 0`, false when `x` is not a number. -/
def Seconds.negative : Seconds → Bool
  | finite q => q < 0
  | inf => false
  | negInf => true
  | nan => false

/-- `datetime - timedelta(seconds=...)`. -/
def subtractSeconds (d : Datetime) (seconds : Seconds) : Except StoreError Datetime :=
  match seconds.timedelta with
  | .error .notANumber => .error (.valueError "cannot convert float NaN to integer")
  | .error .overflow => .error .overflowError
  | .ok us => match d.add? (-us) with
    | none => .error .overflowError
    | some d' => .ok d'

/-- The transition of a run to `NEEDS_REVIEW`, where a conflict is passed over. -/
def moveToReview (run : Run) : Process Unit := do
  match ← (store (.transitionRun run.id run.version .needsReview none none)).attempt with
  | .ok _ => pure ()
  | .error e => if e.isConflict then pure () else .throw e

/-- The visit of the run of an invocation that has become ambiguous. -/
def reviewRun (runId : UUID) : Process Unit := do
  let run ← getRun runId
  if run.status = .running then moveToReview run else pure ()

/-- The loop over the stale invocations. -/
def reviewInvocations : List ToolInvocation → Process Reconciliation
  | [] => pure ⟨[], []⟩
  | invocation :: rest =>
    if invocation.status = .prepared then do
      let r ← reviewInvocations rest
      pure { r with retryable := invocation.id :: r.retryable }
    else do
      reviewRun invocation.runId
      let r ← reviewInvocations rest
      pure { r with needsReview := invocation.id :: r.needsReview }

/-- The part of `reconcile_stale_effects` that works on the ledger and the runs. -/
def reconcileAt (graceSeconds : Seconds) (current : Datetime) : Process Reconciliation := do
  let olderThan ← check (subtractSeconds current graceSeconds)
  let stale : List ToolInvocation ← ledger (.reconcileStale olderThan)
  reviewInvocations stale

/-- `reconcile_stale_effects`. -/
def reconcileStaleEffects (graceSeconds : Seconds) (givenNow : Option Datetime) :
    Process Reconciliation := do
  .throwUnless (graceSeconds.negative = false)
    (.store (.valueError "grace_seconds must not be negative"))
  match givenNow with
  | some current => reconcileAt graceSeconds current
  | none => do
    let current ← Process.now
    reconcileAt graceSeconds current

/-! ### Reviews are kept -/

/-- The statuses in which no worker goes on with a run until an operator has looked at it. -/
def RunStatus.Settled (s : RunStatus) : Prop := s = .needsReview ∨ s.Terminal

instance (s : RunStatus) : Decidable s.Settled := inferInstanceAs (Decidable (_ ∨ _))

/-- A run that is settled. -/
def World.SettledRun (w : World) (i : UUID) : Prop :=
  ∃ row ∈ w.db.runs.find? i, row.status.Settled

/-- An ambiguous invocation whose run is in review or has ended. -/
def World.Surfaced (w : World) (id : UUID) : Prop :=
  ∃ row ∈ w.invocations.find? id, row.status = .ambiguous ∧ w.SettledRun row.runId

instance (w : World) (i : UUID) : Decidable (w.SettledRun i) :=
  inferInstanceAs (Decidable (∃ _ ∈ _, _))

instance (w : World) (id : UUID) : Decidable (w.Surfaced id) :=
  inferInstanceAs (Decidable (∃ _ ∈ _, _))

/-- The run is in review and goes back to the queue. -/
def World.Requeues (i : UUID) (w w' : World) : Prop :=
  ∃ row ∈ w.db.runs.find? i, row.status = .needsReview ∧
    ∃ row' ∈ w'.db.runs.find? i, row'.status = .queued

instance (i : UUID) (w w' : World) : Decidable (w.Requeues i w') :=
  inferInstanceAs (Decidable (∃ _ ∈ _, _))

/-- A run that is in review goes back to the queue. -/
def World.ReturnsToQueue (w w' : World) : Prop := ∃ row ∈ w.db.runs.rows, w.Requeues row.id w'

instance (w w' : World) : Decidable (w.ReturnsToQueue w') :=
  inferInstanceAs (Decidable (∃ _ ∈ _, _))

/-- The interference with a reconciliation: of some runs, those that are settled stay settled, and
ambiguous invocations stay ambiguous. -/
structure World.KeepsReviews (watched : UUID → Prop) (w w' : World) : Prop where
  runs : ∀ i, watched i → w.SettledRun i → w'.SettledRun i
  invocations : ∀ id row, w.invocations.find? id = some row → row.status = .ambiguous →
    ∃ row', w'.invocations.find? id = some row' ∧ row'.status = .ambiguous ∧
      row'.runId = row.runId

/-- An ambiguous invocation whose run is in review or has ended, if it is one of some runs. -/
def World.SurfacedIn (watched : UUID → Prop) (w : World) (id : UUID) : Prop :=
  ∃ row ∈ w.invocations.find? id, row.status = .ambiguous ∧
    (watched row.runId → w.SettledRun row.runId)

namespace World

variable {watched : UUID → Prop}

theorem KeepsReviews.refl (w : World) : w.KeepsReviews watched w :=
  ⟨fun _ _ h => h, fun _ row h hs => ⟨row, h, hs, rfl⟩⟩

theorem KeepsReviews.trans (w w' w'' : World) (h : w.KeepsReviews watched w')
    (h' : w'.KeepsReviews watched w'') : w.KeepsReviews watched w'' := by
  refine ⟨fun i hi hs => h'.runs i hi (h.runs i hi hs), fun id row hrow hs => ?_⟩
  obtain ⟨row', hrow', hs', hrun⟩ := h.invocations id row hrow hs
  obtain ⟨row'', hrow'', hs'', hrun'⟩ := h'.invocations id row' hrow' hs'
  exact ⟨row'', hrow'', hs'', hrun'.trans hrun⟩

theorem SurfacedIn.keep {w w' : World} {id : UUID} (h : w.SurfacedIn watched id)
    (hw : w.KeepsReviews watched w') : w'.SurfacedIn watched id := by
  obtain ⟨row, hrow, hamb, hs⟩ := h
  obtain ⟨row', hrow', hamb', hid⟩ := hw.invocations id row hrow hamb
  refine ⟨row', hrow', hamb', fun hwatched => ?_⟩
  rw [hid] at hwatched ⊢
  exact hw.runs row.runId hwatched (hs hwatched)

variable {sha : Sha256}

/-- An ambiguous invocation is moved by no operation of the ledger. -/
theorem eq_of_moves_ambiguous {op : LedgerOp} {row row' : ToolInvocation}
    (h : op.Moves row row') (hs : row.status = .ambiguous) : row' = row := by
  cases h with
  | stay => rfl
  | dispatch _ hs' => simp [hs] at hs'
  | complete _ _ hs' => simp [hs] at hs'
  | fail _ _ hs' => simp [hs] at hs'
  | reconcile _ hs' => simp [Ledger.Stale, hs] at hs'

/-- A command that returns none of the runs from review to the queue keeps the reviews. -/
theorem keepsReviews_exec {c : Cmd} {i : Input} {w : World}
    (h : ∀ k, watched k → ¬ w.Requeues k (exec sha c i w).2) :
    w.KeepsReviews watched (exec sha c i w).2 := by
  refine ⟨?_, fun id row hrow hs => ?_⟩
  · rintro k hk ⟨row, hrow, hs⟩
    obtain ⟨a, hstep⟩ := exists_step_exec sha c i w k
    rcases hstep.row_cases hrow with hsame | ⟨row', hw⟩
    · exact ⟨row, hsame, hs⟩
    · refine ⟨row', hw.row_eq, ?_⟩
      rcases hs with hreview | hterm
      · rcases hw.status_mem with hmem | ⟨hrun, -⟩
        · have hne : row'.status ≠ .queued := fun hq =>
            h k hk ⟨row, hrow, hreview, row', hw.row_eq, hq⟩
          rw [hreview] at hmem
          simp only [RunStatus.transitions, List.mem_cons, List.not_mem_nil, or_false] at hmem
          rcases hmem with hq | hf | hc
          · exact absurd hq hne
          · exact Or.inr (by rw [hf]; decide)
          · exact Or.inr (by rw [hc]; decide)
        · rw [hreview] at hrun
          cases hrun
      · have hsame := hstep.row_of_terminal hrow hterm
        cases hsame.symm.trans hw.row_eq
        exact Or.inr hterm
  · obtain ⟨row', hrow', hmove⟩ := exists_moves_exec sha c i hrow
    obtain rfl : row' = row := by
      rcases hmove with rfl | ⟨op, -, hmoves⟩
      · rfl
      · exact eq_of_moves_ambiguous hmoves hs
    exact ⟨row', hrow', hs, rfl⟩

/-- A command that writes no run keeps the reviews. -/
theorem keepsReviews_of_db_eq {c : Cmd} {i : Input} {w : World}
    (h : (exec sha c i w).2.db = w.db) : w.KeepsReviews watched (exec sha c i w).2 := by
  refine keepsReviews_exec ?_
  rintro k - ⟨row, hrow, hs, row', hrow', hs'⟩
  rw [h] at hrow'
  cases hrow.symm.trans hrow'
  rw [hs] at hs'
  cases hs'

/-- The transition to `NEEDS_REVIEW` keeps the reviews. -/
theorem keepsReviews_transitionRun {k : UUID} {v : ℤ} {i : Input} {w : World} :
    w.KeepsReviews watched
      (exec sha (.store (.transitionRun k v .needsReview none none)) i w).2 := by
  refine keepsReviews_exec ?_
  rintro k' - ⟨row, hrow, hs, row', hrow', hs'⟩
  obtain ⟨a, ha, hstep⟩ := SQLite.exists_step_perform sha
    ⟨.transitionRun k v .needsReview none none, i.clock⟩ w.db k'
  have hcase : a = .stay ∨ a = .transition .needsReview none none := by
    rcases ha with rfl | ⟨r, ha⟩
    · exact Or.inl rfl
    · have ha' : a = Op.only k (.transition .needsReview none none) k' := ha
      rw [Op.only] at ha'
      split_ifs at ha'
      · exact Or.inr ha'
      · exact Or.inl ha'
  rcases hcase with rfl | rfl
  · rw [exec_store] at hrow'
    have hsame := congrArg RunView.row hstep.eq_of_stay
    cases (hsame.trans hrow).symm.trans hrow'
    rw [hs] at hs'
    cases hs'
  · obtain ⟨row'', hrow'', hs''⟩ := hstep.of_transition
    cases hrow'.symm.trans hrow''
    rw [hs''] at hs'
    cases hs'

end World

/-! ### The visits -/

/-- The states in which a visit does not lose the review of a run: the run, if it is read, is
running or settled, and it is so if it is moved, in the version that was read if it is running. -/
def Cmd.Reviewable (i : UUID) (c : Cmd) (w : World) : Prop :=
  match c with
  | .store (.getRun k) => k = i → ∀ row ∈ w.db.runs.find? i,
    row.status = .running ∨ row.status.Settled
  | .store (.transitionRun k v _ _ _) => k = i → ∀ row ∈ w.db.runs.find? i,
    row.status = .running ∧ (row.version : ℤ) = v ∨ row.status.Settled
  | _ => True

instance (i : UUID) (c : Cmd) (w : World) : Decidable (c.Reviewable i w) := by
  unfold Cmd.Reviewable
  split <;> infer_instance

section Visits

variable {sha : Sha256} {watched : UUID → Prop} {w : World}

/-- The transition of a visit settles the run or raises no conflict. -/
theorem reviewTransition_cases (sha : Sha256) (clock : ℕ → ClockReading) {k : UUID} {v : ℤ}
    {db : Database}
    (hE : ∀ row, db.runs.find? k = some row →
      row.status = .running ∧ (row.version : ℤ) = v ∨ row.status.Settled) :
    (∃ row, (SQLite.perform sha ⟨.transitionRun k v .needsReview none none, clock⟩ db).2.runs.find?
        k = some row ∧ row.status.Settled) ∨
      ∃ e, (SQLite.perform sha ⟨.transitionRun k v .needsReview none none, clock⟩ db).1 =
        .error e ∧ e.isConflict = false := by
  rcases hr : (SQLite.perform sha ⟨.transitionRun k v .needsReview none none, clock⟩ db).1 with
    e | run
  · have hraise := transaction_fst_eq_error_iff.mp hr
    rcases hrow : db.runs.find? k with _ | row
    · refine Or.inr ⟨e, rfl, ?_⟩
      rcases Tx.raises_bind.mp hraise with h | ⟨current, _, hread, -⟩
      · exact SQLite.isConflict_of_raises_readRun h
      · obtain ⟨row, hrow', -⟩ := SQLite.yields_readRun.mp hread
        cases hrow.symm.trans hrow'
    · rcases hE row hrow with ⟨hs, hv⟩ | hs
      · refine Or.inr ⟨e, rfl, SQLite.isConflict_of_raises_transitionRun hrow hv ?_ hraise⟩
        rw [hs]
        decide
      · exact Or.inl ⟨row, by rw [SQLite.perform_of_error hr, hrow], hs⟩
  · obtain ⟨a, ha, hstep⟩ := SQLite.step_perform hr k
    have ha' : a = Op.only k (.transition .needsReview none none) k := ha
    rw [Op.only, if_pos rfl] at ha'
    subst ha'
    obtain ⟨row, hrow, hs⟩ := hstep.of_transition
    exact Or.inl ⟨row, hrow, Or.inl hs⟩

/-- A part of a reconciliation, along steps that do not lose the reviews of some runs, has a
postcondition. -/
abbrev Reviewing {α : Type} (sha : Sha256) (watched : UUID → Prop) (p : Process α)
    (Q : Except Exn α → World → Prop) (w : World) : Prop :=
  p.Safe (World.exec sha) (fun _ => True) (World.KeepsReviews watched)
    (fun c w => ∀ i, watched i → c.Reviewable i w) Q w

/-- The transition of a visit settles the run, unless it raises something else than a
conflict. -/
theorem safe_reviewTransition {k : UUID} {v : ℤ} :
    Reviewing sha watched (store (.transitionRun k v .needsReview none none))
      (fun r w => watched k → w.SettledRun k ∨ ∃ e, r = .error e ∧ e.isConflict = false) w := by
  refine safe_store fun w₁ _ _ hE i => ⟨trivial, World.keepsReviews_transitionRun, fun hk => ?_⟩
  rcases reviewTransition_cases sha i.clock (hE k hk rfl) with hs | ⟨e, he, hconflict⟩
  · exact Or.inl hs
  · exact Or.inr ⟨.store e, by rw [he]; rfl, hconflict⟩

theorem safe_moveToReview {run : Run} : Reviewing sha watched (moveToReview run)
    (fun r w => r = .ok () → watched run.id → w.SettledRun run.id) w := by
  refine Proc.Safe.attempt_bind safe_reviewTransition fun r w' h => ?_
  rcases r with e | run'
  · have hs : e.isConflict = true → watched run.id → w'.SettledRun run.id := by
      rintro hconflict hwatched
      rcases h hwatched with hs | ⟨e', ⟨rfl⟩, hfalse⟩
      · exact hs
      · exact absurd hconflict (by simp [hfalse])
    by_cases hconflict : e.isConflict = true
    · simp only [if_pos hconflict]
      exact fun _ => hs hconflict
    · simp only [if_neg hconflict]
      exact fun h => nomatch h
  · refine fun _ hwatched => (h hwatched).resolve_right ?_
    rintro ⟨e, he, -⟩
    cases he

/-- The visit of a run leaves it settled. -/
theorem safe_reviewRun {i : UUID} : Reviewing sha watched (reviewRun i)
    (fun r w => r = .ok () → watched i → w.SettledRun i) w := by
  have hread : Reviewing sha watched (getRun i) (fun r w => ∀ run, r = .ok run →
      run.id = i ∧ (watched i → run.status = .running ∨ w.SettledRun i)) w := by
    refine safe_store fun w₁ _ _ hE input => ⟨trivial,
      World.keepsReviews_of_db_eq (SQLite.perform_getRun_snd ..), fun run hrun => ?_⟩
    rcases hr : (SQLite.perform sha ⟨.getRun i, input.clock⟩ w₁.db).1 with e | run'
    · rw [hr] at hrun
      cases hrun
    · rw [hr] at hrun
      cases hrun
      obtain ⟨row, haware, hrow, rfl⟩ := SQLite.exists_row_of_getRun hr
      refine ⟨(Table.key_of_find? hrow : row.id = i), fun hwatched =>
        (hE i hwatched rfl row hrow).imp id fun hs => ⟨row, ?_, hs⟩⟩
      rw [World.exec_store, SQLite.perform_getRun_snd]
      exact hrow
  refine hread.bind (fun run w' h => ?_) fun e w' _ h => nomatch h
  obtain ⟨rfl, hs⟩ := h run rfl
  by_cases hrunning : run.status = .running
  · rw [if_pos hrunning]
    exact safe_moveToReview
  · rw [if_neg hrunning]
    exact fun _ hwatched => (hs hwatched).resolve_left hrunning

/-- A postcondition of a reconciliation: what is reported for review has surfaced. -/
def ReportsSurfaced (watched : UUID → Prop) (r : Except Exn Reconciliation) (w : World) : Prop :=
  ∀ a, r = .ok a → ∀ id ∈ a.needsReview, w.SurfacedIn watched id

theorem reportsSurfaced_error (e : Exn) (w : World) : ReportsSurfaced watched (.error e) w :=
  fun _ h => nomatch h

/-- The loop over invocations of which those to be reviewed are ambiguous reports surfaced
ones. -/
theorem safe_reviewInvocations {invocations : List ToolInvocation}
    (h : ∀ row ∈ invocations, row.status ≠ .prepared → ∃ row', w.invocations.find? row.id =
      some row' ∧ row'.status = .ambiguous ∧ row'.runId = row.runId) :
    Reviewing sha watched (reviewInvocations invocations) (ReportsSurfaced watched) w := by
  induction invocations generalizing w with
  | nil =>
    rintro a ⟨rfl⟩ id hid
    cases hid
  | cons row rest ih =>
    have hrest : ∀ w', w.KeepsReviews watched w' → ∀ r ∈ rest, r.status ≠ .prepared →
        ∃ row', w'.invocations.find? r.id = some row' ∧ row'.status = .ambiguous ∧
          row'.runId = r.runId := by
      intro w' hw r hr hs
      obtain ⟨row', hrow', hamb, hrun⟩ := h r (List.mem_cons_of_mem _ hr) hs
      obtain ⟨row'', hrow'', hamb', hrun'⟩ := hw.invocations r.id row' hrow' hamb
      exact ⟨row'', hrow'', hamb', hrun'.trans hrun⟩
    rw [reviewInvocations]
    by_cases hs : row.status = .prepared
    · rw [if_pos hs]
      refine (ih (hrest w (.refl w))).bind (fun a w' ha => ?_) fun e w' _ => ?_
      · rintro _ ⟨rfl⟩
        exact ha a rfl
      · rintro _ ⟨⟩
    · rw [if_neg hs]
      obtain ⟨row', hrow', hamb, hrun⟩ := h row (List.mem_cons_self ..) hs
      refine (safe_reviewRun.remember World.KeepsReviews.refl World.KeepsReviews.trans).bind
        (fun _ w₁ ⟨hw₁, hsettled⟩ => ?_) fun e w₁ _ => ?_
      · have hsurfaced : w₁.SurfacedIn watched row.id := by
          obtain ⟨row'', hrow'', hamb', hrun'⟩ := hw₁.invocations row.id row' hrow' hamb
          refine ⟨row'', hrow'', hamb', ?_⟩
          rw [hrun', hrun]
          exact hsettled rfl
        refine ((ih (hrest w₁ hw₁)).remember World.KeepsReviews.refl
          World.KeepsReviews.trans).bind (fun a w₂ ⟨hw₂, ha⟩ => ?_) fun e w₂ _ => ?_
        · rintro _ ⟨rfl⟩ id hid
          rcases List.mem_cons.mp hid with rfl | hid
          · exact hsurfaced.keep hw₂
          · exact ha a rfl id hid
        · rintro _ ⟨⟩
      · rintro _ ⟨⟩

/-- The marking of the stale invocations. -/
theorem safe_reconcileStale {olderThan : Datetime} :
    Reviewing sha watched (ledger (.reconcileStale olderThan))
      (fun r w => ∀ rows : List ToolInvocation, r = .ok rows → ∀ row ∈ rows,
        row.status ≠ .prepared →
        ∃ row', w.invocations.find? row.id = some row' ∧ row'.status = .ambiguous ∧
          row'.runId = row.runId) w := by
  refine safe_ledger fun w₁ _ _ _ i => ⟨trivial, World.keepsReviews_of_db_eq rfl,
    fun rows hrows row hrow hs => ?_⟩
  rcases hr : (Ledger.perform (.reconcileStale olderThan) i.clock i.uuid w₁.db.runs
    w₁.invocations).1 with e | rows'
  · rw [hr] at hrows
    cases hrows
  rw [hr] at hrows
  cases hrows
  obtain ⟨c', hy, hc'⟩ := Ledger.perform_of_ok hr
  obtain ⟨-, now, hnow, hfind, hmem⟩ := Ledger.reconcileStale_cases hy
  obtain ⟨r, hr', hstale, rfl⟩ := (hmem row).mp hrow
  have hfound := hfind r.id
  rw [Table.find?_of_mem hr', Option.map_some, if_pos hstale, hc'] at hfound
  refine ⟨_, hfound, ?_, rfl⟩
  change Ledger.staleTarget r = _
  change Ledger.staleTarget r ≠ _ at hs
  rw [Ledger.staleTarget] at hs ⊢
  split_ifs at hs ⊢
  · exact absurd rfl hs
  · rfl

theorem safe_reconcileAt {graceSeconds : Seconds} {current : Datetime} :
    Reviewing sha watched (reconcileAt graceSeconds current) (ReportsSurfaced watched) w := by
  refine (Proc.safe_ofExcept trivial).bind (Q := fun _ _ => True) (fun olderThan w₁ _ => ?_)
    fun e w₁ _ => reportsSurfaced_error e w₁
  exact safe_reconcileStale.bind (fun rows w₂ h => safe_reviewInvocations (h rows rfl))
    fun e w₂ _ => reportsSurfaced_error e w₂

/-- A reconciliation reports surfaced invocations. -/
theorem safe_reconcileStaleEffects {graceSeconds : Seconds} {givenNow : Option Datetime} :
    Reviewing sha watched (reconcileStaleEffects graceSeconds givenNow) (ReportsSurfaced watched)
      w := by
  refine (Proc.safe_throwUnless (fun _ => trivial) fun _ => trivial).bind (Q := fun _ _ => True)
    (fun _ w₁ _ => ?_) fun e w₁ _ => reportsSurfaced_error e w₁
  rcases givenNow with _ | current
  · exact Proc.safe_call fun w₂ _ _ _ i =>
      ⟨trivial, World.keepsReviews_of_db_eq rfl, safe_reconcileAt⟩
  · exact safe_reconcileAt

end Visits

/-! ### Ambiguity surfaces -/

/-- A process of the system that reconciles. -/
def reconcile (graceSeconds : Seconds) (givenNow : Option Datetime) : Process Outcome := do
  let r ← reconcileStaleEffects graceSeconds givenNow
  pure (.reconciled r)

/-- The steps along which the review of a run is not lost: each command of the reconciliation `j` is
issued in a state in which the visit does not lose it, and no other command returns the run from
review to the queue. -/
def KeepsReview (sha : Sha256) (j : ℕ) (i : UUID) (y : Pool Cmd Cmd.Answer Exn Outcome World)
    (l : ℕ × Input) : Prop :=
  (l.1 = j → ∀ c ∈ y.command? j, c.Reviewable i y.state) ∧
    (l.1 ≠ j → ¬ y.state.Requeues i (y.step (World.exec sha) l).state)

instance (sha : Sha256) (j : ℕ) (i : UUID) (y : Pool Cmd Cmd.Answer Exn Outcome World)
    (l : ℕ × Input) : Decidable (KeepsReview sha j i y l) := inferInstanceAs (Decidable (_ ∧ _))

theorem keepsReviews_step {sha : Sha256} {watched : UUID → Prop}
    {y : Pool Cmd Cmd.Answer Exn Outcome World} {l : ℕ × Input}
    (h : ∀ i, watched i → ¬ y.state.Requeues i (y.step (World.exec sha) l).state) :
    y.state.KeepsReviews watched (y.step (World.exec sha) l).state := by
  rcases Pool.step_state_cases (World.exec sha) y l with hsame | ⟨c, k, -, hexec⟩
  · rw [hsame]
    exact .refl _
  · rw [hexec] at h ⊢
    exact World.keepsReviews_exec h

section Runs

variable {x : Pool Cmd Cmd.Answer Exn Outcome World} {j : ℕ} {graceSeconds : Seconds}
  {givenNow : Option Datetime} {schedule : List (ℕ × Input)} {r : Reconciliation}

/-- What a reconciliation reports along steps that do not lose the reviews of some runs. -/
theorem surfacedIn_of_reconcile (sha : Sha256) {watched : UUID → Prop}
    (hj : x.procs[j]? = some (reconcile graceSeconds givenNow))
    (hsteps : x.Along (World.exec sha)
      (fun y l => ∀ i, watched i → KeepsReview sha j i y l) schedule)
    (hr : (x.run (World.exec sha) schedule).result? j = some (.reconciled r)) :
    ∀ id ∈ r.needsReview, (x.run (World.exec sha) schedule).state.SurfacedIn watched id := by
  let Q : Except Exn Outcome → World → Prop := fun result w => ∀ r, result = .ok (.reconciled r) →
    ∀ id ∈ r.needsReview, w.SurfacedIn watched id
  have hQ : ∀ result w w', Q result w → w.KeepsReviews watched w' → Q result w' :=
    fun _ _ _ h hw r hr id hid => (h r hr id hid).keep hw
  have hsafe : Reviewing sha watched (reconcile graceSeconds givenNow) Q x.state := by
    refine safe_reconcileStaleEffects.bind (fun a w h => ?_) fun e w _ r h => nomatch h
    rintro _ ⟨rfl⟩
    exact h a rfl
  obtain ⟨p, hp, -, hsafe'⟩ := Pool.safe_run_of_rely World.KeepsReviews.refl
    World.KeepsReviews.trans hQ hj trivial (fun _ _ _ _ => trivial) hsafe
    (hsteps.imp fun y l h => ⟨fun hl c hc i hi => (h i hi).1 hl c hc,
      fun hl => keepsReviews_step fun i hi => (h i hi).2 hl⟩)
  rw [Pool.result?, hp] at hr
  obtain rfl := Proc.eq_ret_of_result? hr
  exact hsafe' r rfl

/-- **Ambiguity surfaces.** In a system of any processes, from any state of the tables and along
any schedule: when a reconciliation has returned, every invocation it reports for review is
ambiguous; and the run of the invocation is in review or has ended, if the steps of the schedule
keep the review of this run. -/
theorem ambiguity_surfaces (sha : Sha256)
    (hj : x.procs[j]? = some (reconcile graceSeconds givenNow))
    (hr : (x.run (World.exec sha) schedule).result? j = some (.reconciled r)) :
    ∀ id ∈ r.needsReview, ∃ row ∈ (x.run (World.exec sha) schedule).state.invocations.find? id,
      row.status = .ambiguous ∧
        (x.Along (World.exec sha) (KeepsReview sha j row.runId) schedule →
          (x.run (World.exec sha) schedule).state.SettledRun row.runId) := by
  intro id hid
  -- That it is ambiguous does not depend on the reviews.
  have hnone : x.Along (World.exec sha) (fun y l => ∀ i, False → KeepsReview sha j i y l)
    schedule :=
    Pool.along_of_forall (fun _ _ _ h => False.elim h) schedule
  obtain ⟨row, hrow, hamb, -⟩ := surfacedIn_of_reconcile sha hj hnone hr id hid
  refine ⟨row, hrow, hamb, fun hsteps => ?_⟩
  have honly : x.Along (World.exec sha) (fun y l => ∀ i, i = row.runId → KeepsReview sha j i y l)
      schedule :=
    hsteps.imp fun y l h i hi => hi ▸ h
  obtain ⟨row', hrow', -, hsettled⟩ := surfacedIn_of_reconcile sha hj honly hr id hid
  obtain rfl : row = row' := Option.some.inj (hrow.symm.trans hrow')
  exact hsettled rfl

end Runs

namespace Sample

/-- A worker that is going to call the tool without a key, a sweep over leases and a
reconciliation. -/
def workers : Pool Cmd Cmd.Answer Exn Outcome World where
  state := ⟨.empty, .empty, [], .empty⟩
  procs := [
    do let _ ← store (.createRun run); pure .done,
    do let r ← (runtime none).workOnce 1 "first" (.finite 30) none none; pure (.worked r),
    do let _ ← store (.requeueExpiredLeases none); pure .done,
    reconcile (.finite 30) none]

/-- The run is created and claimed, and the worker crashes after the start of the tool. -/
def crashed : List (ℕ × Input) :=
  (0, input 0) :: (List.replicate 9 (1, input 1) ++ List.replicate 4 (1, input 2))

end Sample

/-- The reconciliation of a crashed worker whose run is still running. -/
theorem ambiguity_surfaces_sample : ((Sample.workers.run (World.exec Sample.sha)
    (Sample.crashed ++ List.replicate 4 (3, Sample.input 40))).state.Surfaced
      (Sample.input 2).uuid) := by
  have hr : (Sample.workers.run (World.exec Sample.sha)
      (Sample.crashed ++ List.replicate 4 (3, Sample.input 40))).result? 3 =
        some (.reconciled ⟨[], [(Sample.input 2).uuid]⟩) := by
    decide +kernel
  obtain ⟨row, hrow, hamb, hsettled⟩ :=
    ambiguity_surfaces Sample.sha (x := Sample.workers) rfl hr _ (List.mem_singleton_self _)
  have hkeeps : ∀ row' ∈ (Sample.workers.run (World.exec Sample.sha)
      (Sample.crashed ++ List.replicate 4 (3, Sample.input 40))).state.invocations.find?
        (Sample.input 2).uuid, Sample.workers.Along (World.exec Sample.sha)
          (KeepsReview Sample.sha 3 row'.runId)
          (Sample.crashed ++ List.replicate 4 (3, Sample.input 40)) := by
    decide +kernel
  exact ⟨row, hrow, hamb, hsettled (hkeeps row hrow)⟩

/-- **A review that is lost.** The lease of a crashed worker has expired, and the run goes back to
the queue before the reconciliation. It reports the invocation for review, and the run stays in the
queue. -/
theorem queued_run_passed_over :
    (Sample.workers.run (World.exec Sample.sha) (Sample.crashed ++ [(2, Sample.input 40)] ++
      List.replicate 3 (3, Sample.input 41))).result? 3 =
        some (.reconciled ⟨[], [(Sample.input 2).uuid]⟩) ∧
    ¬ (Sample.workers.run (World.exec Sample.sha) (Sample.crashed ++ [(2, Sample.input 40)] ++
      List.replicate 3 (3, Sample.input 41))).state.Surfaced (Sample.input 2).uuid := by
  decide +kernel

end OpenRath
