import OpenRath.Runtime.Sqlite.Store

/-!
# The Postgres run store

The operations of `PostgresRunStore` (`src/rath/runtime/postgres.py`), statement by statement, as
bodies of transactions on the same tables. They differ from those of the SQLite store in the order
of some statements, in the row counts that are checked, in the use of `RETURNING`, and in the type
of the timestamp columns: a `TIMESTAMPTZ` column holds an instant, which it gives back in UTC
(`Datetime.toUtc`) and compares and sorts as an instant. The transactions are run one at a time,
so the row locks and `SKIP LOCKED` have no effect.

Statements that are the same on the same columns are those of `OpenRath.Runtime.Sqlite.Store`.

## Main definitions

* `Postgres.updateRunsReturning`, `Postgres.insertRun`: the statements of this store only.
* `Postgres.createRun`, `Postgres.transitionRun`, `Postgres.commitCheckpoint`,
  `Postgres.finishClaim`, `Postgres.createInterrupt`, `Postgres.expireInterrupts`,
  `Postgres.decideInterrupt`, `Postgres.claimNext`, `Postgres.renewLease`,
  `Postgres.requeueExpiredLeases`, and the operations that only append or read.
-/

namespace OpenRath

namespace Postgres

open Tx

/-! ### Rows -/

/-- The row of a run as the columns hold it. -/
def runRow (run : Run) (fingerprint : String) : RunRow :=
  { RunRow.ofRun run fingerprint with
    createdAt := run.createdAt.toUtc
    updatedAt := run.updatedAt.toUtc
    createdAt_aware := run.createdAt_aware.toUtc }

/-- A checkpoint as the columns hold it. -/
def checkpointRow (checkpoint : Checkpoint) : Checkpoint :=
  { checkpoint with
    createdAt := checkpoint.createdAt.toUtc
    createdAt_aware := checkpoint.createdAt_aware.toUtc }

/-- An interrupt as the columns hold it; no decision is written, whatever the record holds. -/
def interruptRow (interrupt : Interrupt) : Interrupt :=
  { interrupt with
    createdAt := interrupt.createdAt.toUtc
    expiresAt := interrupt.expiresAt.map Datetime.toUtc
    decision := none
    createdAt_aware := interrupt.createdAt_aware.toUtc
    expiresAt_aware := by
      intro e he
      obtain ⟨d, hd, rfl⟩ := Option.map_eq_some_iff.mp he
      obtain ⟨haware, hlt⟩ := interrupt.expiresAt_aware d hd
      exact ⟨haware.toUtc, by simpa using hlt⟩
    decidedAt_aware := Interrupt.undecided_aware }

/-- `_run_from_row`: the checks are those made when the run is built. -/
def runFromRow (row : RunRow) : Except StoreError Run :=
  if h : row.updatedAt.Aware then .ok (row.toRun h)
  else .error (.valueError "run.updated_at must be timezone-aware")

/-! ### Statements -/

/-- `_required_run_row`. -/
def requiredRunRow (runId : UUID) : Sql RunRow := SQLite.requiredRunRow runId

/-- `_required_lease`. -/
def requiredLease (runId : UUID) (workerId : String) (fencingToken : ℤ) : Sql LeaseRow := do
  match ← query fun c => c.db.runLeases.find? runId with
  | none => raise (.conflict "lease fencing token is stale or not owned" [])
  | some row =>
    raiseUnless (row.active = true ∧ row.holderWorkerId = workerId ∧
      (row.fencingToken : ℤ) = fencingToken)
      (.conflict "lease fencing token is stale or not owned" [])
    let current ← now
    raiseUnless (current.instant < row.expiresAt.instant)
      (.conflict "lease fencing token is stale or not owned" [])
    pure row

/-- `INSERT INTO runs ... ON CONFLICT DO NOTHING RETURNING id`: whether the row was inserted. -/
def insertRun (row : RunRow) : Sql Bool := do
  let runs ← query fun c => c.db.runs
  if row.idempotencyKey = none ∨ ∀ r ∈ runs.rows,
      ¬ (r.tenantId = row.tenantId ∧ r.idempotencyKey = row.idempotencyKey) then
    match runs.insert? row with
    | none => pure false
    | some runs =>
      if h : OneActivePerSession runs.rows then
        execute fun c => c.setRuns runs h
        pure true
      else pure false
  else pure false

/-- `UPDATE runs ... RETURNING *`: the row that was written, if there is one. -/
def updateRunsReturning (p : RunRow → Prop) [DecidablePred p] (f : RunRow → RunRow)
    (hf : ∀ r, (f r).id = r.id) : Sql (Option RunRow) := do
  let runs ← query fun c => c.db.runs
  let _ ← SQLite.updateRuns p f hf
  pure ((runs.rows.find? fun r => p r).map f)

/-- The row an update returned; an update that matched no row is a conflict. -/
def requireUpdated (row : Option RunRow) (message : String) : Sql RunRow :=
  match row with
  | some row => pure row
  | none => raise (.conflict message [])

/-- `_insert_checkpoint`. -/
def insertCheckpoint (checkpoint : Checkpoint) : Sql Unit :=
  SQLite.insertCheckpoint (checkpointRow checkpoint)

/-- `_append_event`. The event returned holds the reading of the clock, its row the column. -/
def appendEvent (runId : UUID) (type : String) (data : JsonObject) : Sql RunEvent := do
  let sequence ← query fun c => c.db.maxEvent runId + 1
  let createdAt ← now
  SQLite.requireReference runId
  match ← query fun c => c.db.runEvents.insert? ⟨runId, sequence, type, data, createdAt.toUtc⟩ with
  | none => raise .integrityError
  | some events =>
    execute fun c => c.setEvents events
    pure ⟨runId, sequence, type, data, createdAt⟩

/-- `_update_status`. -/
def updateStatus (current : Run) (target : RunStatus) (expectedVersion : ℤ) : Sql RunRow := do
  let updatedAt ← now
  let row ← updateRunsReturning
    (fun r => r.id = current.id ∧ (r.version : ℤ) = expectedVersion)
    (fun r => { r with
      status := target
      updatedAt := updatedAt.toUtc
      version := r.version + 1 })
    (fun _ => rfl)
  requireUpdated row "run version conflict"

/-- The row of a run, read as a run. -/
def readRun (runId : UUID) : Sql Run := do
  let row ← requiredRunRow runId
  ofExcept (runFromRow row)

/-! ### Runs -/

/-- `create_run`. -/
def createRun (sha : Sha256) (run : Run) : Sql Run := do
  let existing := fun c : Connection => run.idempotencyKey.bind fun key =>
    c.db.runs.rows.find? fun r => r.tenantId = run.tenantId ∧ r.idempotencyKey = some key
  match ← query existing with
  | some row =>
    raiseUnless (row.requestFingerprint = fingerprint sha run)
      (.conflict "idempotency key was already used for a different request" [])
    ofExcept (runFromRow row)
  | none =>
    if ← insertRun (runRow run (fingerprint sha run)) then
      let _ ← appendEvent run.id "run.created" [("status", .str run.status.value)]
      pure run
    else
      match ← query existing with
      | some row =>
        raiseUnless (row.requestFingerprint = fingerprint sha run)
          (.conflict "run already exists" [])
        ofExcept (runFromRow row)
      | none => raise (.conflict "run already exists" [])

/-- `get_run`. -/
def getRun (runId : UUID) : Sql Run := readRun runId

/-- The order `ORDER BY created_at, id` of runs. -/
def createdBefore (a b : RunRow) : Prop :=
  a.createdAt.instant < b.createdAt.instant ∨
    a.createdAt.instant = b.createdAt.instant ∧ a.id ≤ b.id

instance : DecidableRel createdBefore := fun _ _ => inferInstanceAs (Decidable (_ ∨ _))

/-- `list_runs`. -/
def listRuns (tenantId : String) (after : Option UUID) (limit : Option ℤ)
    (sessionId : Option UUID) (statuses : List RunStatus) : Sql (List Run) := do
  raiseUnless (∀ n ∈ limit, 1 ≤ n) (.valueError "limit must be positive")
  let cursor ← SQLite.cursorRow tenantId after
  let rows ← query fun c => c.db.runs.rows.filter fun r =>
    r.tenantId = tenantId ∧ (∀ a ∈ cursor, ¬ createdBefore r a) ∧
      (∀ s ∈ sessionId, r.sessionId = s) ∧ (statuses = [] ∨ r.status ∈ statuses)
  ofExcept ((SQLite.limited limit (rows.insertionSort createdBefore)).mapM runFromRow)

/-- `count_runs`. -/
def countRuns (status : RunStatus) (tenantId : Option String) : Sql ℕ :=
  query fun c => c.db.runs.rows.countP fun r =>
    r.status = status ∧ ∀ t ∈ tenantId, r.tenantId = t

/-- `transition_run`. -/
def transitionRun (runId : UUID) (expectedVersion : ℤ) (target : RunStatus)
    (state : Option JsonObject) (nextNodes : Option (List String)) : Sql Run := do
  let current ← readRun runId
  raiseUnless ((current.version : ℤ) = expectedVersion) (.conflict "run version conflict" [])
  ofExcept (assertTransition current.status target)
  let updatedAt ← now
  let updated ← updateRunsReturning
    (fun r => r.id = runId ∧ (r.version : ℤ) = expectedVersion)
    (fun r => { r with
      status := target
      state := state.getD current.state
      nextNodes := nextNodes.getD current.nextNodes
      updatedAt := updatedAt.toUtc
      version := r.version + 1 })
    (fun _ => rfl)
  let row ← requireUpdated updated "run version conflict"
  let _ ← appendEvent runId "run.state.changed"
    [("from", .str current.status.value), ("to", .str target.value)]
  ofExcept (runFromRow row)

/-! ### Events and checkpoints -/

/-- `list_run_events`. -/
def listRunEvents (runId : UUID) (afterSequence : ℤ) (limit : Option ℤ) :
    Sql (List RunEvent) := do
  raiseUnless (0 ≤ afterSequence) (.valueError "after_sequence must not be negative")
  raiseUnless (∀ n ∈ limit, 1 ≤ n) (.valueError "limit must be positive")
  let rows ← query fun c => c.db.runEvents.rows.filter fun e =>
    e.runId = runId ∧ afterSequence < (e.sequence : ℤ)
  pure (SQLite.limited limit (rows.insertionSort fun a b => a.sequence ≤ b.sequence))

/-- `append_run_event`. -/
def appendRunEvent (runId : UUID) (type : String) (data : JsonObject) : Sql RunEvent := do
  let _ ← requiredRunRow runId
  appendEvent runId type data

/-- `_validate_checkpoint_sequence`. -/
def validateCheckpointSequence (checkpoint : Checkpoint) : Sql Unit :=
  SQLite.requireNextSequence checkpoint

/-- The event of a new checkpoint. -/
def appendCheckpointEvent (checkpoint : Checkpoint) : Sql RunEvent :=
  appendEvent checkpoint.runId "run.checkpoint.created"
    [("checkpoint_id", .str checkpoint.id.str), ("sequence", .int checkpoint.sequence)]

/-- `append_checkpoint`. -/
def appendCheckpoint (checkpoint : Checkpoint) : Sql Unit := do
  let _ ← requiredRunRow checkpoint.runId
  validateCheckpointSequence checkpoint
  insertCheckpoint checkpoint
  let _ ← appendCheckpointEvent checkpoint

/-- `latest_checkpoint`: the first row by falling sequence number. -/
def latestCheckpoint (runId : UUID) : Sql (Option Checkpoint) :=
  query fun c => ((c.db.checkpointsOf runId).insertionSort
    fun a b => b.sequence ≤ a.sequence).head?

/-- `list_checkpoints`. -/
def listCheckpoints (runId : UUID) : Sql (List Checkpoint) :=
  query fun c => SQLite.sortedCheckpoints c.db runId

/-- `commit_checkpoint`. -/
def commitCheckpoint (checkpoint : Checkpoint) (workerId : String) (fencingToken : ℤ)
    (expectedRunVersion : ℤ) : Sql Run := do
  let _ ← requiredLease checkpoint.runId workerId fencingToken
  let current ← readRun checkpoint.runId
  raiseUnless ((current.version : ℤ) = expectedRunVersion) (.conflict "run version conflict" [])
  raiseUnless (current.status = .running) (.conflict "checkpoint requires a running run" [])
  validateCheckpointSequence checkpoint
  insertCheckpoint checkpoint
  let updated ← updateRunsReturning
    (fun r => r.id = checkpoint.runId ∧ (r.version : ℤ) = expectedRunVersion)
    (fun r => { r with
      state := checkpoint.state
      nextNodes := checkpoint.nextNodes
      updatedAt := checkpoint.createdAt.toUtc
      version := r.version + 1 })
    (fun _ => rfl)
  let row ← requireUpdated updated "run version conflict"
  let _ ← appendCheckpointEvent checkpoint
  ofExcept (runFromRow row)

/-- `finish_claim`. -/
def finishClaim (runId : UUID) (workerId : String) (fencingToken : ℤ)
    (expectedRunVersion : ℤ) (target : RunStatus) (eventType : String)
    (eventData : Option JsonObject) : Sql Run := do
  let _ ← requiredLease runId workerId fencingToken
  let current ← readRun runId
  raiseUnless ((current.version : ℤ) = expectedRunVersion) (.conflict "run version conflict" [])
  ofExcept (assertTransition current.status target)
  let updatedAt ← now
  let updated ← updateRunsReturning
    (fun r => r.id = runId ∧ (r.version : ℤ) = expectedRunVersion)
    (fun r => { r with
      status := target
      updatedAt := updatedAt.toUtc
      version := r.version + 1 })
    (fun _ => rfl)
  let row ← requireUpdated updated "run version conflict"
  let releasedAt ← now
  SQLite.updateLease runId
    (fun l => { l with active := false, updatedAt := releasedAt.toUtc }) (fun _ => rfl)
  let _ ← appendEvent runId eventType (match eventData with
    | none | some [] => [("status", .str target.value)]
    | some data => data)
  ofExcept (runFromRow row)

/-! ### Interrupts -/

/-- `create_interrupt`. -/
def createInterrupt (interrupt : Interrupt) (expectedRunVersion : ℤ) : Sql Run := do
  let current ← readRun interrupt.runId
  raiseUnless ((current.version : ℤ) = expectedRunVersion) (.conflict "run version conflict" [])
  ofExcept (assertTransition current.status .waiting)
  SQLite.requireReference interrupt.runId
  match ← query fun c => c.db.interrupts.insert? (interruptRow interrupt) with
  | none => raise .integrityError
  | some interrupts =>
    execute fun c => c.setInterrupts interrupts
    let row ← updateStatus current .waiting expectedRunVersion
    SQLite.updateLease interrupt.runId
      (fun l => { l with active := false, updatedAt := interrupt.createdAt.toUtc })
      (fun _ => rfl)
    let _ ← appendEvent interrupt.runId "run.interrupt.created"
      [("interrupt_id", .str interrupt.id.str), ("kind", .str interrupt.kind.value)]
    ofExcept (runFromRow row)

/-- `get_interrupt`. -/
def getInterrupt (interruptId : UUID) : Sql Interrupt := SQLite.getInterrupt interruptId

/-- The order `ORDER BY created_at, id` of interrupts. -/
def interruptCreatedBefore (a b : Interrupt) : Prop :=
  a.createdAt.instant < b.createdAt.instant ∨
    a.createdAt.instant = b.createdAt.instant ∧ a.id ≤ b.id

instance : DecidableRel interruptCreatedBefore := fun _ _ => inferInstanceAs (Decidable (_ ∨ _))

/-- `list_interrupts`. -/
def listInterrupts (tenantId : String) (pendingOnly : Bool) : Sql (List Interrupt) :=
  query fun c => (c.db.interrupts.rows.filter fun i : Interrupt =>
    (∃ r ∈ c.db.runs.find? i.runId, r.tenantId = tenantId) ∧
      (pendingOnly = true → i.decision = none)).insertionSort interruptCreatedBefore

/-- The deadline of an interrupt as an instant. -/
def deadline (i : Interrupt) : ℤ := (i.expiresAt.map Datetime.instant).getD 0

/-- The order `ORDER BY expires_at, id` of interrupts. -/
def expiresBefore (a b : SQLite.ExpiredRow) : Prop :=
  deadline a.interrupt < deadline b.interrupt ∨
    deadline a.interrupt = deadline b.interrupt ∧ a.interrupt.id ≤ b.interrupt.id

instance : DecidableRel expiresBefore := fun _ _ => inferInstanceAs (Decidable (_ ∨ _))

/-- The undecided interrupts whose deadline is not after a datetime, with the version and the
status of their runs. -/
def expiredRows (db : Database) (expiredAt : Datetime) : List SQLite.ExpiredRow :=
  ((db.interrupts.rows.filter fun i => i.decision = none ∧
    ∃ e ∈ i.expiresAt, e.instant ≤ expiredAt.instant).filterMap fun i =>
      (db.runs.find? i.runId).map fun r => ⟨i, r.version, r.status⟩).insertionSort expiresBefore

/-- One iteration of `expire_interrupts`. -/
def expireInterrupt (expiredAt : Datetime) (h : expiredAt.Aware) (row : SQLite.ExpiredRow) :
    Sql Unit := do
  SQLite.updateDecision row.interrupt.id SQLite.deadlineDecision expiredAt.toUtc h.toUtc
  if row.runStatus = .waiting then
    let current ← readRun row.interrupt.runId
    let _ ← updateStatus current .timedOut row.runVersion
    let _ ← appendEvent row.interrupt.runId "run.interrupt.expired"
      [("interrupt_id", .str row.interrupt.id.str)]
  else
    pure ()

/-- `expire_interrupts`. -/
def expireInterrupts (givenNow : Option Datetime) : Sql (List UUID) := do
  let expiredAt ← nowOr givenNow
  if h : expiredAt.Aware then
    let rows ← query fun c => expiredRows c.db expiredAt
    forEach (expireInterrupt expiredAt h) rows
    pure (rows.map fun row => row.interrupt.id)
  else raise (.valueError "now must be timezone-aware")

/-- `decide_interrupt`. -/
def decideInterrupt (interruptId : UUID) (decision : ApprovalDecision)
    (expectedRunVersion : ℤ) : Sql Run := do
  match ← query fun c => c.db.interrupts.find? interruptId with
  | none => raise (.keyError interruptId.str)
  | some row =>
    raiseUnless (row.decision = none) (.conflict "interrupt was already decided" [])
    let current ← readRun row.runId
    raiseUnless ((current.version : ℤ) = expectedRunVersion)
      (.conflict "run version conflict" [])
    ofExcept (assertTransition current.status .queued)
    let decidedAt ← now
    if h : decidedAt.Aware then
      SQLite.updateDecision interruptId decision decidedAt.toUtc h.toUtc
      let updated ← updateStatus current .queued expectedRunVersion
      let _ ← appendEvent current.id "run.interrupt.decided"
        [("actor_id", .str decision.actorId), ("decision", .str decision.kind.value),
          ("interrupt_id", .str interruptId.str)]
      ofExcept (runFromRow updated)
    else raise (.valueError "interrupt.decided_at must be timezone-aware")

/-! ### Leases -/

/-- The order `ORDER BY priority DESC, created_at, id` of queued runs. -/
def claimedBefore (a b : RunRow) : Prop :=
  b.priority < a.priority ∨ a.priority = b.priority ∧ createdBefore a b

instance : DecidableRel claimedBefore := fun _ _ => inferInstanceAs (Decidable (_ ∨ _))

/-- The queued run that is claimed next. -/
def nextQueued (db : Database) : Option RunRow :=
  ((db.runs.rows.filter fun r => r.status = .queued).insertionSort claimedBefore).head?

/-- A claim does not change the id of a run. -/
theorem id_of_claim (claimedAt : Datetime) (r : RunRow) :
    ({ r with
      status := .running
      updatedAt := claimedAt.toUtc
      version := r.version + 1 } : RunRow).id = r.id := rfl

/-- `claim_next`. The lease is read before the run is written, and the transition is not
asserted. -/
def claimNext (sha : Sha256) (workerId : String) (leaseSeconds : Seconds)
    (givenNow : Option Datetime) : Sql (Option ClaimedRun) := do
  raiseUnless (isBlank workerId = false) (.valueError "worker_id must not be empty")
  raiseUnless (leaseSeconds.nonpos = false)
    (.valueError "lease_seconds must be greater than zero")
  let claimedAt ← nowOr givenNow
  raiseUnless claimedAt.Aware (.valueError "now must be timezone-aware")
  match ← query fun c => nextQueued c.db with
  | none => pure none
  | some row =>
    let current ← ofExcept (runFromRow row)
    let previous ← query fun c => c.db.runLeases.find? current.id
    let leaseId := match previous with
      | some l => l.id
      | none => sha.uuid current.id.str
    let token := match previous with
      | some l => l.fencingToken + 1
      | none => 1
    let createdAt := match previous with
      | some l => l.createdAt
      | none => claimedAt
    let expiresAt ← ofExcept (SQLite.addSeconds claimedAt leaseSeconds)
    let updated ← updateRunsReturning
      (fun r => r.id = current.id ∧ r.version = current.version ∧ r.status = .queued)
      (fun r => { r with
        status := .running
        updatedAt := claimedAt.toUtc
        version := r.version + 1 })
      (id_of_claim claimedAt)
    let row ← requireUpdated updated "run claim conflict"
    SQLite.upsertLease ⟨leaseId, current.id, workerId, expiresAt.toUtc, token, true,
      createdAt.toUtc, claimedAt.toUtc⟩
    let _ ← appendEvent current.id "run.claimed"
      [("fencing_token", .int token), ("worker_id", .str workerId)]
    let run ← ofExcept (runFromRow row)
    let lease ← ofExcept
      (ResourceLease.ofRun leaseId current.id workerId expiresAt token createdAt claimedAt)
    pure (some ⟨run, lease⟩)

/-- `renew_lease`. The lease returned is built from the row (`_lease_from_row`). -/
def renewLease (runId : UUID) (workerId : String) (fencingToken : ℤ) (leaseSeconds : Seconds)
    (givenNow : Option Datetime) : Sql ResourceLease := do
  raiseUnless (leaseSeconds.nonpos = false)
    (.valueError "lease_seconds must be greater than zero")
  let renewedAt ← nowOr givenNow
  let expiresAt ← ofExcept (SQLite.addSeconds renewedAt leaseSeconds)
  let row ← requiredLease runId workerId fencingToken
  SQLite.updateLease runId
    (fun l => { l with expiresAt := expiresAt.toUtc, updatedAt := renewedAt.toUtc })
    (fun _ => rfl)
  ofExcept (ResourceLease.ofRun row.id row.runId row.holderWorkerId expiresAt row.fencingToken
    row.createdAt renewedAt)

/-- `assert_fencing_token`. -/
def assertFencingToken (runId : UUID) (workerId : String) (fencingToken : ℤ) : Sql Unit := do
  let _ ← requiredLease runId workerId fencingToken

/-- The order `ORDER BY expires_at, run_id` of leases. -/
def leaseExpiresBefore (a b : SQLite.ExpiredLease) : Prop :=
  a.lease.expiresAt.instant < b.lease.expiresAt.instant ∨
    a.lease.expiresAt.instant = b.lease.expiresAt.instant ∧ a.lease.runId ≤ b.lease.runId

instance : DecidableRel leaseExpiresBefore := fun _ _ => inferInstanceAs (Decidable (_ ∨ _))

/-- The active leases that expire no later than a datetime, with the status and the version of
their runs. -/
def expiredLeases (db : Database) (recoveredAt : Datetime) : List SQLite.ExpiredLease :=
  ((db.runLeases.rows.filter fun l => l.active = true ∧
    l.expiresAt.instant ≤ recoveredAt.instant).filterMap fun l =>
      (db.runs.find? l.runId).map fun r => ⟨l, r.status, r.version⟩).insertionSort
        leaseExpiresBefore

/-- The first part of an iteration of `requeue_expired_leases`: a run that was read as running is
queued again. -/
def requeueRun (recoveredAt : Datetime) (row : SQLite.ExpiredLease) : Sql Unit :=
  if row.status = .running then do
    let _ ← SQLite.updateRuns (fun r => r.id = row.lease.runId ∧ r.version = row.version)
      (fun r => { r with
        status := .queued
        updatedAt := recoveredAt.toUtc
        version := r.version + 1 })
      (fun _ => rfl)
    let _ ← appendEvent row.lease.runId "run.lease.expired"
      [("fencing_token", .int row.lease.fencingToken)]
  else pure ()

/-- One iteration of `requeue_expired_leases`. The event comes before the release of the lease,
and the release of the lease of a run that is not running sets its `updated_at` too. -/
def requeueLease (recoveredAt : Datetime) (row : SQLite.ExpiredLease) : Sql Unit := do
  requeueRun recoveredAt row
  SQLite.updateLease row.lease.runId
    (fun l => { l with active := false, updatedAt := recoveredAt.toUtc }) (fun _ => rfl)

/-- `requeue_expired_leases`. -/
def requeueExpiredLeases (givenNow : Option Datetime) : Sql (List UUID) := do
  let recoveredAt ← nowOr givenNow
  let rows ← query fun c => expiredLeases c.db recoveredAt
  forEach (requeueLease recoveredAt) rows
  pure ((rows.filter fun row => row.status = .running).map fun row => row.lease.runId)

end Postgres

end OpenRath
