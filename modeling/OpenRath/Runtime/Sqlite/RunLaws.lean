import OpenRath.Runtime.Sqlite.Histories

/-!
# Laws of a run along the histories of the store

Two laws of the row of a run that hold after every history. The first is the machine of statuses:
a status changes along a transition only, a terminal run is never written again, and the version
counts the writes. The second ties the row to the log of checkpoints: as long as no checkpoint is
appended and no state is set behind the back of the workers, the cursor of the row is that of the
last checkpoint, or the one the run was created with.

## Main definitions

* `Op.KeepsCursor`: the operations that do not separate the row from the checkpoints.
* `SQLite.Created`: the call of a history that made a run.

## Main results

* `SQLite.status_machine_of_history`: the machine of statuses.
* `SQLite.cursor_eq_last_checkpoint`: the durable cursor is the last checkpoint.
-/

namespace OpenRath

namespace SQLite

variable {sha : Sha256}

/-! ### Statuses and versions -/

/-- A run that exists stays, and a call leaves its row alone or writes it. -/
theorem row_perform (sha : Sha256) (call : Call) (db : Database) {i : UUID} {row : RunRow}
    (hrow : db.runs.find? i = some row) : (perform sha call db).2.runs.find? i = some row ∨
      ∃ row', (db.view i).Writes row ((perform sha call db).2.view i) row' := by
  obtain ⟨a, -, hstep⟩ := exists_step_perform sha call db i
  exact hstep.row_cases hrow

/-- A terminal run is never written again. -/
theorem row_after_append_of_terminal (sha : Sha256) (calls later : List Call) {i : UUID}
    {row : RunRow} (hrow : (after sha calls).runs.find? i = some row)
    (hterm : row.status.Terminal) : (after sha (calls ++ later)).runs.find? i = some row := by
  induction later using List.reverseRecOn with
  | nil => rwa [List.append_nil]
  | append_singleton later call ih =>
    rw [← List.append_assoc, after_concat]
    obtain ⟨a, -, hstep⟩ := exists_step_perform sha call (after sha (calls ++ later)) i
    exact hstep.row_of_terminal ih hterm

/-- **Machine of statuses.** After every history and for every further call: a call that raises
leaves every table as it was; a call leaves the row of a run alone, or it adds one to its version
and moves its status, if at all, along a transition; and the row of a terminal run is the same
after every continuation of the history. -/
theorem status_machine_of_history (sha : Sha256) (calls : List Call) (call : Call) :
    (∀ e, (perform sha call (after sha calls)).1 = .error e →
      (perform sha call (after sha calls)).2 = after sha calls) ∧
    (∀ i row, (after sha calls).runs.find? i = some row →
      ∃ row', (perform sha call (after sha calls)).2.runs.find? i = some row' ∧
        (row'.status ≠ row.status → row'.status ∈ row.status.transitions) ∧
        (row' = row ∨ row'.version = row.version + 1)) ∧
    (∀ i row later, (after sha calls).runs.find? i = some row → row.status.Terminal →
      (after sha (calls ++ later)).runs.find? i = some row) := by
  refine ⟨fun e => perform_of_error, fun i row hrow => ?_, fun i row later hrow hterm =>
    row_after_append_of_terminal sha calls later hrow hterm⟩
  rcases row_perform sha call (after sha calls) hrow with hsame | ⟨row', hw⟩
  · exact ⟨row, hsame, fun h => absurd rfl h, Or.inl rfl⟩
  · refine ⟨row', hw.row_eq, fun hne => ?_, Or.inr hw.version_eq⟩
    rcases hw.status_mem with hmem | ⟨hs, hs'⟩
    · exact hmem
    · exact absurd (hs'.trans hs.symm) hne

/-! ### The durable cursor -/

end SQLite

/-- The operations that do not separate the row of a run from its checkpoints: no checkpoint is
appended without the row, and no transition sets a state or nodes. -/
def Op.KeepsCursor : Op → Prop
  | .appendCheckpoint _ => False
  | .transitionRun _ _ _ state nextNodes => state = none ∧ nextNodes = none
  | _ => True

/-- The actions of the operations that keep the cursor. -/
def RunAction.KeepsCursor : RunAction → Prop
  | .appendCheckpoint => False
  | .transition _ state nextNodes => state = none ∧ nextNodes = none
  | _ => True

theorem Op.KeepsCursor.action {op : Op} {a : RunAction} (h : op.KeepsCursor)
    (ha : op.Causes a) : a.KeepsCursor := by
  cases ha with
  | appendCheckpoint k => exact h
  | transitionRun => exact h
  | stay | createRun | appendRunEvent | commitCheckpoint | finishClaim | createInterrupt
  | decideInterrupt | expireInterrupts | claimNext | renewLease | requeue | release => trivial

/-- The cursor of a run with the given first state and nodes: the checkpoints are numbered, a run
that is not there has none, and the row stands at the last one. -/
structure RunView.AtCursor (state : JsonObject) (nextNodes : List String) (v : RunView) :
    Prop where
  numbered : Numbered Checkpoint.sequence v.checkpoints
  cursor_eq : ∀ row, v.row = some row → (row.state, row.nextNodes) =
    (v.checkpoints.getLast?.map fun c => (c.state, c.nextNodes)).getD (state, nextNodes)

theorem RunView.AtCursor.step {state : JsonObject} {nextNodes : List String} {v v' : RunView}
    {a : RunAction} {row : RunRow} (h : v.AtCursor state nextNodes) (ha : a.KeepsCursor)
    (hstep : v.Step a v') (hrow : v.row = some row) : v'.AtCursor state nextNodes := by
  have hcursor := h.cursor_eq row hrow
  cases hstep with
  | stay => exact h
  | create _ hnone => simp [hrow] at hnone
  | logEvent => exact ⟨h.numbered, h.cursor_eq⟩
  | renew => exact ⟨h.numbered, h.cursor_eq⟩
  | release => exact ⟨h.numbered, h.cursor_eq⟩
  | appendCheckpoint => exact absurd ha id
  | transition _ hrow' =>
    cases hrow.symm.trans hrow'
    obtain ⟨rfl, rfl⟩ := ha
    exact ⟨h.numbered, fun _ h' => by cases h'; exact hcursor⟩
  | commit hrow' _ _ _ hc =>
    refine ⟨h.numbered.concat hc, fun _ h' => ?_⟩
    cases h'
    simp
  | claim _ hrow' | finish _ _ hrow' | interrupt _ _ hrow' | decide _ hrow' | expire _ hrow'
  | requeue _ hrow' =>
    cases hrow.symm.trans hrow'
    exact ⟨h.numbered, fun _ h' => by cases h'; exact hcursor⟩

namespace SQLite

/-- The call of a history that made the run `run`. -/
def Created (sha : Sha256) (calls : List Call) (run : Run) : Prop :=
  ∃ before clock later, calls = before ++ ⟨.createRun run, clock⟩ :: later ∧
    (after sha before).runs.find? run.id = none ∧
    (perform sha ⟨.createRun run, clock⟩ (after sha before)).1 = .ok run

theorem Created.concat {calls : List Call} {run : Run} (h : Created sha calls run)
    (call : Call) : Created sha (calls ++ [call]) run := by
  obtain ⟨before, clock, later, rfl, hnone, hok⟩ := h
  exact ⟨before, clock, later ++ [call], by simp, hnone, hok⟩

/-- What holds of the cursor of the run `i` after a history. -/
structure CursorAfter (sha : Sha256) (calls : List Call) (i : UUID) : Prop where
  of_none : (after sha calls).runs.find? i = none → (after sha calls).checkpointsOf i = []
  of_some : ∀ row, (after sha calls).runs.find? i = some row → ∃ run, run.id = i ∧
    Created sha calls run ∧ ((after sha calls).view i).AtCursor run.state run.nextNodes

/-- A run that a call makes is the one the call was given. -/
theorem created_of_find? {calls : List Call} {call : Call} {i : UUID} {row : RunRow}
    (hnone : (after sha calls).runs.find? i = none)
    (hrow : (perform sha call (after sha calls)).2.runs.find? i = some row) :
    ∃ run, run.id = i ∧ Created sha (calls ++ [call]) run ∧
      row.state = run.state ∧ row.nextNodes = run.nextNodes := by
  rcases hok : (perform sha call (after sha calls)).1 with e | r
  · rw [perform_of_error hok, hnone] at hrow
    cases hrow
  obtain ⟨a, ha, hstep⟩ := step_perform hok i
  rcases hstep.row_none hnone with hsame | ⟨run, fingerprint, rfl, hnew⟩
  · cases hsame.symm.trans hrow
  obtain ⟨op, clock⟩ := call
  cases ha.causes
  rcases ha with ha | ⟨hr, ha⟩
  · cases ha
  obtain ⟨rfl, -⟩ := Op.eq_of_only_ne_stay ha (by simp)
  cases hnew.symm.trans hrow
  exact ⟨run, rfl, ⟨calls, clock, [], rfl, hnone, hok.trans (congrArg Except.ok hr)⟩, rfl, rfl⟩

theorem cursorAfter {calls : List Call} (hcalls : ∀ call ∈ calls, call.op.KeepsCursor)
    (i : UUID) : CursorAfter sha calls i := by
  induction calls using List.reverseRecOn with
  | nil => exact ⟨fun _ => rfl, fun row h => absurd h (by simp [after, Database.empty])⟩
  | append_singleton calls call ih =>
    have hprev := ih fun call hcall => hcalls call (List.mem_append_left _ hcall)
    have hcall : call.op.KeepsCursor := hcalls call (by simp)
    obtain ⟨a, ha, hstep⟩ := exists_step_perform sha call (after sha calls) i
    have hkeeps : a.KeepsCursor := by
      rcases ha with rfl | ⟨r, ha⟩
      · trivial
      · exact hcall.action ha.causes
    rcases hrow : (after sha calls).runs.find? i with _ | row
    · have hempty : (after sha (calls ++ [call])).checkpointsOf i = [] := by
        rw [after_concat]
        exact (hstep.checkpoints_of_none hrow).trans (hprev.of_none hrow)
      refine ⟨fun _ => hempty, fun row' hrow' => ?_⟩
      rw [after_concat] at hrow'
      obtain ⟨run, hid, hcreated, hstate, hnodes⟩ := created_of_find? hrow hrow'
      refine ⟨run, hid, hcreated, ?_, fun row'' hrow'' => ?_⟩
      · change Numbered _ ((after sha (calls ++ [call])).checkpointsOf i)
        rw [hempty]
        exact numbered_nil
      · change _ = (((after sha (calls ++ [call])).checkpointsOf i).getLast?.map _).getD _
        rw [after_concat] at hrow''
        cases hrow'.symm.trans hrow''
        rw [hempty, hstate, hnodes]
        rfl
    · obtain ⟨run, hid, hcreated, hcursor⟩ := hprev.of_some row hrow
      refine ⟨fun hnone => ?_, fun row' hrow' => ⟨run, hid, hcreated.concat call, ?_⟩⟩
      · obtain ⟨row', hrow'⟩ := hstep.exists_row hrow
        rw [after_concat] at hnone
        cases hnone.symm.trans hrow'
      · rw [after_concat]
        exact hcursor.step hkeeps hstep hrow

/-- **Durable cursor.** After every history without `append_checkpoint` and without transitions
that set a state or nodes, the checkpoints of a run are numbered from `1` in order, and its row
stands at the last of them, or at the state and the nodes it was created with if there is none. -/
theorem cursor_eq_last_checkpoint (sha : Sha256) (calls : List Call)
    (hcalls : ∀ call ∈ calls, call.op.KeepsCursor) (i : UUID) (row : RunRow)
    (hrow : (after sha calls).runs.find? i = some row) :
    ((after sha calls).checkpointsOf i).map Checkpoint.sequence =
      List.range' 1 ((after sha calls).checkpointsOf i).length ∧
    (∀ c, ((after sha calls).checkpointsOf i).getLast? = some c →
      row.state = c.state ∧ row.nextNodes = c.nextNodes) ∧
    ((after sha calls).checkpointsOf i = [] → ∃ run, run.id = i ∧ Created sha calls run ∧
      row.state = run.state ∧ row.nextNodes = run.nextNodes) := by
  obtain ⟨run, hid, hcreated, hcursor⟩ := (cursorAfter hcalls i).of_some row hrow
  have heq := hcursor.cursor_eq row hrow
  change _ = (((after sha calls).checkpointsOf i).getLast?.map _).getD _ at heq
  refine ⟨hcursor.numbered, fun c hc => ?_, fun hnil => ⟨run, hid, hcreated, ?_⟩⟩
  · rw [hc] at heq
    exact Prod.mk.inj heq
  · rw [hnil] at heq
    exact Prod.mk.inj heq

/-- The cursor of the sample run after its first commit. -/
theorem cursor_eq_last_checkpoint_sample : ∃ row,
    (after Sample.sha (Sample.claimed ++
      [⟨.commitCheckpoint Sample.checkpoint "first" 1 1, Sample.clock 2⟩])).runs.find?
        Sample.run.id = some row ∧
    row.state = Sample.checkpoint.state ∧ row.nextNodes = Sample.checkpoint.nextNodes := by
  let calls := Sample.claimed ++
    [⟨.commitCheckpoint Sample.checkpoint "first" 1 1, Sample.clock 2⟩]
  have hcalls : ∀ call ∈ calls, call.op.KeepsCursor := by
    simp [calls, Sample.claimed, Op.KeepsCursor]
  have hsome : ((after Sample.sha calls).runs.find? Sample.run.id).isSome = true := by
    decide +kernel
  have hlast : ((after Sample.sha calls).checkpointsOf Sample.run.id).getLast? =
    some Sample.checkpoint := by decide +kernel
  obtain ⟨row, hrow⟩ := Option.isSome_iff_exists.mp hsome
  have hlaw := cursor_eq_last_checkpoint Sample.sha calls hcalls Sample.run.id row hrow
  exact ⟨row, hrow, hlaw.2.1 _ hlast⟩

end SQLite

end OpenRath
