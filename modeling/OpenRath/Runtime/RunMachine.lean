import OpenRath.Runtime.Schema

/-!
# The life of one run

The tables of a run store, read for a single run, are its row, its lease, its events and its
checkpoints (`RunView`). What the operations of a store may do to one run is an abstract machine
on such views: a run is created, claimed, checkpointed, finished, interrupted, decided, expired,
requeued or moved by an operator, and every one of these writes has its own precondition and its
own effect on the four components (`RunView.Step`). An operation that concerns another run is the
step `stay`.

The laws of a run that do not depend on how the operations are implemented are properties of this
machine. They are transported to a store by showing that each of its operations acts on every run
by a step of the machine.

## Main definitions

* `RunView`, `Database.view`.
* `RunAction`, `RunView.Step`: the machine; `RunView.Writes`: a write of the row.

## Main results

* `RunView.Step.exists_writes`, `RunView.Step.row_eq`, `RunView.Step.row_cases`: the row of a run
  that exists is left alone, or it is written, with the next version, along a transition unless
  it stays running, and with one event.
* `RunView.Step.row_none`: only a creation makes a run.
* `RunView.Step.row_of_terminal`: the row of a terminal run is never written again.
-/

namespace OpenRath

/-! ### Views -/

/-- What a run store holds about one run. -/
structure RunView where
  row : Option RunRow
  lease : Option LeaseRow
  events : List RunEvent
  checkpoints : List Checkpoint

/-- The view of the run `i` in the tables. -/
def Database.view (db : Database) (i : UUID) : RunView where
  row := db.runs.find? i
  lease := db.runLeases.find? i
  events := db.eventsOf i
  checkpoints := db.checkpointsOf i

theorem Database.view_lease (db : Database) (i : UUID) :
    (db.view i).lease = db.runLeases.find? i := rfl

theorem Database.view_events (db : Database) (i : UUID) : (db.view i).events = db.eventsOf i :=
  rfl

/-- The number of the next event of a run. -/
def RunView.nextEvent (v : RunView) : ℕ := maxNumber RunEvent.sequence v.events + 1

/-- The number of the next checkpoint of a run. -/
def RunView.nextCheckpoint (v : RunView) : ℕ :=
  maxNumber Checkpoint.sequence v.checkpoints + 1

/-- A row with another status and the next version. -/
def RunRow.write (row : RunRow) (status : RunStatus) (updatedAt : Datetime) : RunRow :=
  { row with status := status, updatedAt := updatedAt, version := row.version + 1 }

/-- The columns of a run that are never written again: its request. -/
structure RunRequest where
  id : UUID
  planId : UUID
  revisionId : UUID
  sessionId : UUID
  tenantId : String
  idempotencyKey : Option String
  context : JsonObject
  priority : ℤ
  requestFingerprint : String
  createdAt : Datetime
deriving DecidableEq

/-- The request of a row. -/
def RunRow.request (row : RunRow) : RunRequest :=
  ⟨row.id, row.planId, row.revisionId, row.sessionId, row.tenantId, row.idempotencyKey,
    row.context, row.priority, row.requestFingerprint, row.createdAt⟩

/-- A lease that no worker holds any more. -/
def LeaseRow.release (lease : LeaseRow) (updatedAt : Datetime) : LeaseRow :=
  { lease with active := false, updatedAt := updatedAt }

/-! ### Steps -/

/-- What an operation does to one run. -/
inductive RunAction
  | stay
  | create (run : Run)
  | transition (target : RunStatus) (state : Option JsonObject)
      (nextNodes : Option (List String))
  | logEvent
  | appendCheckpoint
  | claim (token : ℕ)
  | renew
  | commit (checkpoint : Checkpoint)
  | finish (target : RunStatus)
  | interrupt
  | decide
  | expire
  | requeue
  | release
deriving DecidableEq

/-- The actions that write the row of a run that exists. -/
def RunAction.writes : RunAction → Bool
  | stay | create _ | logEvent | appendCheckpoint | renew | release => false
  | transition _ _ _ | claim _ | commit _ | finish _ | interrupt | decide | expire
  | requeue => true

/-- The steps of the machine. Every write of the row goes with one event, whose number follows
the numbers of the earlier ones. -/
inductive RunView.Step : RunView → RunAction → RunView → Prop
  | stay (v : RunView) : Step v .stay v
  | create {v : RunView} {run : Run} {e : RunEvent} (fingerprint : String)
      (hrow : v.row = none) (he : e.sequence = v.nextEvent) (htype : e.type = "run.created") :
      Step v (.create run)
        { v with row := some (.ofRun run fingerprint), events := v.events ++ [e] }
  | transition {v : RunView} {row : RunRow} {e : RunEvent} {target : RunStatus}
      {state : Option JsonObject} {nextNodes : Option (List String)} (updatedAt : Datetime)
      (hrow : v.row = some row) (htarget : target ∈ row.status.transitions)
      (he : e.sequence = v.nextEvent) :
      Step v (.transition target state nextNodes)
        { v with
          row := some { row.write target updatedAt with
            state := state.getD row.state
            nextNodes := nextNodes.getD row.nextNodes }
          events := v.events ++ [e] }
  | logEvent {v : RunView} {row : RunRow} {e : RunEvent} (hrow : v.row = some row)
      (he : e.sequence = v.nextEvent) : Step v .logEvent { v with events := v.events ++ [e] }
  | appendCheckpoint {v : RunView} {row : RunRow} {c : Checkpoint} {e : RunEvent}
      (hrow : v.row = some row) (hc : c.sequence = v.nextCheckpoint)
      (he : e.sequence = v.nextEvent) :
      Step v .appendCheckpoint
        { v with checkpoints := v.checkpoints ++ [c], events := v.events ++ [e] }
  | claim {v : RunView} {row : RunRow} {lease : LeaseRow} {e : RunEvent} (updatedAt : Datetime)
      (hrow : v.row = some row) (hstatus : row.status = .queued) (hactive : lease.active = true)
      (htoken : lease.fencingToken = (v.lease.map LeaseRow.fencingToken).getD 0 + 1)
      (he : e.sequence = v.nextEvent) :
      Step v (.claim lease.fencingToken)
        { v with
          row := some (row.write .running updatedAt)
          lease := some lease
          events := v.events ++ [e] }
  | renew {v : RunView} {lease : LeaseRow} (expiresAt updatedAt : Datetime)
      (hlease : v.lease = some lease) (hactive : lease.active = true) :
      Step v .renew
        { v with lease := some { lease with expiresAt := expiresAt, updatedAt := updatedAt } }
  | commit {v : RunView} {row : RunRow} {lease : LeaseRow} {c : Checkpoint} {e : RunEvent}
      (hrow : v.row = some row) (hstatus : row.status = .running)
      (hlease : v.lease = some lease) (hactive : lease.active = true)
      (hc : c.sequence = v.nextCheckpoint) (he : e.sequence = v.nextEvent) :
      Step v (.commit c)
        { v with
          row := some { row.write row.status c.createdAt with
            state := c.state
            nextNodes := c.nextNodes }
          events := v.events ++ [e]
          checkpoints := v.checkpoints ++ [c] }
  | finish {v : RunView} {row : RunRow} {lease : LeaseRow} {e : RunEvent} {target : RunStatus}
      (updatedAt releasedAt : Datetime) (hrow : v.row = some row)
      (htarget : target ∈ row.status.transitions) (hlease : v.lease = some lease)
      (hactive : lease.active = true) (he : e.sequence = v.nextEvent) :
      Step v (.finish target)
        { v with
          row := some (row.write target updatedAt)
          lease := some (lease.release releasedAt)
          events := v.events ++ [e] }
  | interrupt {v : RunView} {row : RunRow} {e : RunEvent} (updatedAt releasedAt : Datetime)
      (hrow : v.row = some row) (htarget : .waiting ∈ row.status.transitions)
      (he : e.sequence = v.nextEvent) :
      Step v .interrupt
        { v with
          row := some (row.write .waiting updatedAt)
          lease := v.lease.map fun l => l.release releasedAt
          events := v.events ++ [e] }
  | decide {v : RunView} {row : RunRow} {e : RunEvent} (updatedAt : Datetime)
      (hrow : v.row = some row) (htarget : .queued ∈ row.status.transitions)
      (he : e.sequence = v.nextEvent) :
      Step v .decide
        { v with row := some (row.write .queued updatedAt), events := v.events ++ [e] }
  | expire {v : RunView} {row : RunRow} {e : RunEvent} (updatedAt : Datetime)
      (hrow : v.row = some row) (hstatus : row.status = .waiting)
      (he : e.sequence = v.nextEvent) :
      Step v .expire
        { v with row := some (row.write .timedOut updatedAt), events := v.events ++ [e] }
  | requeue {v : RunView} {row : RunRow} {lease : LeaseRow} {e : RunEvent}
      (recoveredAt : Datetime) (hrow : v.row = some row) (hstatus : row.status = .running)
      (hlease : v.lease = some lease) (hactive : lease.active = true)
      (he : e.sequence = v.nextEvent) :
      Step v .requeue
        { v with
          row := some (row.write .queued recoveredAt)
          lease := some (lease.release recoveredAt)
          events := v.events ++ [e] }
  | release {v : RunView} {row : RunRow} {lease : LeaseRow} (hrow : v.row = some row)
      (hstatus : row.status ≠ .running) (hlease : v.lease = some lease)
      (hactive : lease.active = true) :
      Step v .release { v with lease := some (lease.release lease.updatedAt) }

/-- A write of the row of a run: the status stays that of a running run or moves along a
transition, the version is the next one, and one event is appended. -/
structure RunView.Writes (v : RunView) (row : RunRow) (v' : RunView) (row' : RunRow) : Prop where
  row_eq : v'.row = some row'
  version_eq : row'.version = row.version + 1
  status_mem : row'.status ∈ row.status.transitions ∨
    row.status = .running ∧ row'.status = .running
  events_eq : ∃ e, v'.events = v.events ++ [e]

namespace RunView.Step

variable {v v' : RunView} {a : RunAction} {row : RunRow}

theorem eq_of_stay (h : v.Step .stay v') : v' = v := by
  cases h
  rfl

/-- An action that writes finds a row and writes it. -/
theorem exists_writes (h : v.Step a v') (ha : a.writes = true) :
    ∃ row row', v.row = some row ∧ v.Writes row v' row' := by
  have hqueued : RunStatus.running ∈ RunStatus.queued.transitions := by decide
  have hwaiting : RunStatus.timedOut ∈ RunStatus.waiting.transitions := by decide
  have hrunning : RunStatus.queued ∈ RunStatus.running.transitions := by decide
  cases h with
  | stay | create | logEvent | appendCheckpoint | renew | release =>
    exact absurd ha Bool.false_ne_true
  | transition _ h ht => exact ⟨_, _, h, rfl, rfl, Or.inl ht, _, rfl⟩
  | claim _ h hs => exact ⟨_, _, h, rfl, rfl, Or.inl (hs ▸ hqueued), _, rfl⟩
  | commit h hs => exact ⟨_, _, h, rfl, rfl, Or.inr ⟨hs, hs⟩, _, rfl⟩
  | finish _ _ h ht => exact ⟨_, _, h, rfl, rfl, Or.inl ht, _, rfl⟩
  | interrupt _ _ h ht => exact ⟨_, _, h, rfl, rfl, Or.inl ht, _, rfl⟩
  | decide _ h ht => exact ⟨_, _, h, rfl, rfl, Or.inl ht, _, rfl⟩
  | expire _ h hs => exact ⟨_, _, h, rfl, rfl, Or.inl (hs ▸ hwaiting), _, rfl⟩
  | requeue _ h hs => exact ⟨_, _, h, rfl, rfl, Or.inl (hs ▸ hrunning), _, rfl⟩

/-- An action that does not write leaves the row of a run that exists. -/
theorem row_eq (h : v.Step a v') (ha : a.writes = false) (hrow : v.row = some row) :
    v'.row = some row := by
  cases h with
  | create _ h => simp [hrow] at h
  | stay | logEvent | appendCheckpoint | renew | release => exact hrow
  | transition | claim | commit | finish | interrupt | decide | expire | requeue =>
    exact absurd ha.symm Bool.false_ne_true

/-- **Inversion of a step.** The row of a run that exists is left alone or written. -/
theorem row_cases (h : v.Step a v') (hrow : v.row = some row) :
    v'.row = some row ∨ ∃ row', v.Writes row v' row' := by
  rcases ha : a.writes with _ | _
  · exact Or.inl (h.row_eq ha hrow)
  · obtain ⟨row₀, row', hrow₀, hw⟩ := h.exists_writes ha
    cases hrow.symm.trans hrow₀
    exact Or.inr ⟨row', hw⟩

/-- Only a creation makes a run. -/
theorem row_none (h : v.Step a v') (hrow : v.row = none) :
    v'.row = none ∨ ∃ run fingerprint, a = .create run ∧
      v'.row = some (.ofRun run fingerprint) := by
  cases h with
  | stay => exact Or.inl hrow
  | create fp => exact Or.inr ⟨_, fp, rfl, rfl⟩
  | renew => exact Or.inl hrow
  | transition _ h | logEvent h | appendCheckpoint h | claim _ h | commit h | finish _ _ h
  | interrupt _ _ h | decide _ h | expire _ h | requeue _ h | release h => simp [hrow] at h

/-- A run is created as it was given. -/
theorem of_create {run : Run} (h : v.Step (.create run) v') :
    ∃ fingerprint, v'.row = some (.ofRun run fingerprint) := by
  cases h with
  | create fingerprint => exact ⟨fingerprint, rfl⟩

/-- A transition leaves its target. -/
theorem of_transition {target : RunStatus} {state : Option JsonObject}
    {nextNodes : Option (List String)} (h : v.Step (.transition target state nextNodes) v') :
    ∃ row, v'.row = some row ∧ row.status = target := by
  cases h
  exact ⟨_, rfl, rfl⟩

/-- The end of a claim leaves its target. -/
theorem of_finish {target : RunStatus} (h : v.Step (.finish target) v') :
    ∃ row, v'.row = some row ∧ row.status = target := by
  cases h
  exact ⟨_, rfl, rfl⟩

/-- An interrupt leaves a run that may wait waiting. -/
theorem of_interrupt (h : v.Step .interrupt v') : ∃ row row', v.row = some row ∧
    .waiting ∈ row.status.transitions ∧ v'.row = some row' ∧ row'.status = .waiting := by
  cases h with
  | interrupt _ _ hrow htarget => exact ⟨_, _, hrow, htarget, rfl, rfl⟩

/-- A decision leaves a run that may be queued queued. -/
theorem of_decide (h : v.Step .decide v') : ∃ row row', v.row = some row ∧
    .queued ∈ row.status.transitions ∧ v'.row = some row' ∧ row'.status = .queued := by
  cases h with
  | decide _ hrow htarget => exact ⟨_, _, hrow, htarget, rfl, rfl⟩

/-- An expiry times out a waiting run, with the next version. -/
theorem of_expire (h : v.Step .expire v') : ∃ row d, v.row = some row ∧ row.status = .waiting ∧
    v'.row = some (row.write .timedOut d) := by
  cases h with
  | expire d hrow hs => exact ⟨_, d, hrow, hs, rfl⟩

/-- A run that is not there gets no checkpoints. -/
theorem checkpoints_of_none (h : v.Step a v') (hrow : v.row = none) :
    v'.checkpoints = v.checkpoints := by
  cases h with
  | stay | create | renew => rfl
  | transition _ h | logEvent h | appendCheckpoint h | claim _ h | commit h | finish _ _ h
  | interrupt _ _ h | decide _ h | expire _ h | requeue _ h | release h => simp [hrow] at h

/-- A run that is there stays. -/
theorem exists_row (h : v.Step a v') (hrow : v.row = some row) : ∃ row', v'.row = some row' := by
  rcases h.row_cases hrow with hsame | ⟨row', hw⟩
  · exact ⟨row, hsame⟩
  · exact ⟨row', hw.row_eq⟩

/-- A run that is there keeps its request. -/
theorem exists_request (h : v.Step a v') (hrow : v.row = some row) :
    ∃ row', v'.row = some row' ∧ row'.request = row.request := by
  cases h with
  | stay | logEvent | appendCheckpoint | renew | release => exact ⟨row, hrow, rfl⟩
  | create _ h => cases h.symm.trans hrow
  | transition _ h | claim _ h | commit h | finish _ _ h | interrupt _ _ h | decide _ h
  | expire _ h | requeue _ h =>
    cases hrow.symm.trans h
    exact ⟨_, rfl, rfl⟩

/-- The row of a run that exists is left alone by a step from a terminal status. -/
theorem row_of_terminal (h : v.Step a v') (hrow : v.row = some row)
    (hterm : row.status.Terminal) : v'.row = some row := by
  rcases h.row_cases hrow with hsame | ⟨row', hw⟩
  · exact hsame
  · rcases hw.status_mem with ht | ⟨hs, -⟩
    · exact absurd hterm (RunStatus.not_terminal_of_mem_transitions ht)
    · rw [hs] at hterm
      exact absurd hterm (by decide)

end RunView.Step

end OpenRath
