import Mathlib.Data.List.Sort
import OpenRath.Runtime.Schema

/-!
# The SQLite run store

The operations of `SQLiteRunStore` (`src/rath/runtime/sqlite.py`), statement by statement, as
bodies of transactions. Every operation keeps the order of the source: the checks before the
transaction, the reads, the checks on what was read, the writes and the event. Timestamps are
compared and sorted by their ISO text, as the text columns of SQLite are.

SHA-256 enters in two places, the fingerprint of a request and the id of a first lease; it is a
parameter about which nothing is assumed (`Sha256`).

## Main definitions

* `Sha256`.
* `SQLite.createRun`, `SQLite.transitionRun`, `SQLite.appendRunEvent`, `SQLite.appendCheckpoint`,
  `SQLite.commitCheckpoint`, `SQLite.finishClaim`, `SQLite.createInterrupt`,
  `SQLite.expireInterrupts`, `SQLite.decideInterrupt`, `SQLite.claimNext`, `SQLite.renewLease`,
  `SQLite.requeueExpiredLeases`: the operations that write.
* `SQLite.getRun`, `SQLite.listRuns`, `SQLite.countRuns`, `SQLite.listRunEvents`,
  `SQLite.latestCheckpoint`, `SQLite.listCheckpoints`, `SQLite.getInterrupt`,
  `SQLite.listInterrupts`, `SQLite.assertFencingToken`: the operations that read.
-/

namespace OpenRath

/-- The two uses a run store makes of SHA-256: the hexadecimal digest of the canonical dump of a
JSON value, and the UUID made of the first 16 bytes of the digest of a text. -/
structure Sha256 where
  hexdigest : Json → String
  uuid : String → UUID

/-- `_fingerprint`: the digest of what identifies the request of a run. -/
def fingerprint (sha : Sha256) (run : Run) : String :=
  sha.hexdigest (.obj [("next_nodes", .arr (run.nextNodes.map .str)),
    ("plan_id", .str run.planId.str), ("priority", .int run.priority),
    ("revision_id", .str run.revisionId.str), ("session_id", .str run.sessionId.str),
    ("state", .obj run.state), ("tenant_id", .str run.tenantId)])

namespace SQLite

open Tx

/-! ### Rows as records -/

/-- `_parse_time`: a stored timestamp has to be aware. -/
def parseTime (d : Datetime) : Except StoreError Datetime :=
  if d.Aware then .ok d else .error (.valueError "persisted timestamp must be timezone-aware")

/-- `_run_from_row`. -/
def runFromRow (row : RunRow) : Except StoreError Run :=
  if h : row.updatedAt.Aware then .ok (row.toRun h)
  else .error (.valueError "persisted timestamp must be timezone-aware")

/-! ### Statements -/

/-- `_required_run_row`. -/
def requiredRunRow (runId : UUID) : Sql RunRow := do
  match ← query fun c => c.db.runs.find? runId with
  | some row => pure row
  | none => raise (.keyError runId.str)

/-- `_required_lease`: the lease of a run, if the worker holds it under the token and it is
neither released nor expired. The clock is read only when the other conditions hold. -/
def requiredLease (runId : UUID) (workerId : String) (fencingToken : ℤ) : Sql LeaseRow := do
  match ← query fun c => c.db.runLeases.find? runId with
  | none => raise (.conflict "lease fencing token is stale or not owned" [])
  | some row =>
    raiseUnless (row.active = true ∧ row.holderWorkerId = workerId ∧
      (row.fencingToken : ℤ) = fencingToken)
      (.conflict "lease fencing token is stale or not owned" [])
    let expiresAt ← ofExcept (parseTime row.expiresAt)
    let current ← now
    raiseUnless (current.instant < expiresAt.instant)
      (.conflict "lease fencing token is stale or not owned" [])
    pure row

/-- A reference to `runs` that has no target is refused. -/
def requireReference (runId : UUID) : Sql Unit := do
  match ← query fun c => c.db.runs.find? runId with
  | some _ => pure ()
  | none => raise .integrityError

/-- `INSERT INTO runs`: the id, the idempotency key of the tenant and the active run of the
session are unique. -/
def insertRun (row : RunRow) : Sql Unit := do
  let runs ← query fun c => c.db.runs
  raiseUnless (row.idempotencyKey = none ∨ ∀ r ∈ runs.rows,
    ¬ (r.tenantId = row.tenantId ∧ r.idempotencyKey = row.idempotencyKey)) .integrityError
  match runs.insert? row with
  | none => raise .integrityError
  | some runs =>
    if h : OneActivePerSession runs.rows then execute fun c => c.setRuns runs h
    else raise .integrityError

/-- `UPDATE runs`: the number of rows it matched. -/
def updateRuns (p : RunRow → Prop) [DecidablePred p] (f : RunRow → RunRow)
    (hf : ∀ r, (f r).id = r.id) : Sql ℕ := do
  let runs ← query fun c => c.db.runs
  if h : OneActivePerSession (runs.update p f hf).rows then
    execute fun c => c.setRuns (runs.update p f hf) h
    pure (runs.rowcount p)
  else raise .integrityError

/-- `UPDATE run_leases`. -/
def updateLease (runId : UUID) (f : LeaseRow → LeaseRow)
    (hf : ∀ l, (f l).runId = l.runId) : Sql Unit :=
  execute fun c => c.setLeases (c.db.runLeases.update (fun l => l.runId = runId) f hf)

/-- `INSERT INTO checkpoints` (`_insert_checkpoint`). -/
def insertCheckpoint (checkpoint : Checkpoint) : Sql Unit := do
  requireReference checkpoint.runId
  let checkpoints ← query fun c => c.db.checkpoints
  raiseUnless (∀ c ∈ checkpoints.rows,
    ¬ (c.runId = checkpoint.runId ∧ c.sequence = checkpoint.sequence)) .integrityError
  match checkpoints.insert? checkpoint with
  | none => raise .integrityError
  | some checkpoints => execute fun c => c.setCheckpoints checkpoints

/-- `_append_event`: the next event of a run. -/
def appendEvent (runId : UUID) (type : String) (data : JsonObject) : Sql RunEvent := do
  let sequence ← query fun c => c.db.maxEvent runId + 1
  let createdAt ← now
  requireReference runId
  let event : RunEvent := ⟨runId, sequence, type, data, createdAt⟩
  match ← query fun c => c.db.runEvents.insert? event with
  | none => raise .integrityError
  | some events =>
    execute fun c => c.setEvents events
    pure event

/-- `_update_status`. -/
def updateStatus (current : Run) (target : RunStatus) (expectedVersion : ℤ) : Sql Unit := do
  let updatedAt ← now
  let rowcount ← updateRuns (fun r => r.id = current.id ∧ (r.version : ℤ) = expectedVersion)
    (fun r => { r with status := target, updatedAt := updatedAt, version := r.version + 1 })
    (fun _ => rfl)
  raiseUnless (rowcount = 1) (.conflict "run version conflict" [])

/-- The row of a run, read again, as a run. -/
def readRun (runId : UUID) : Sql Run := do
  let row ← requiredRunRow runId
  ofExcept (runFromRow row)

/-! ### Runs -/

/-- `create_run`. -/
def createRun (sha : Sha256) (run : Run) : Sql Run := do
  match ← query fun c => run.idempotencyKey.bind fun key => c.db.runs.rows.find? fun r =>
      r.tenantId = run.tenantId ∧ r.idempotencyKey = some key with
  | some row =>
    raiseUnless (row.requestFingerprint = fingerprint sha run)
      (.conflict "idempotency key was already used for a different request" [])
    ofExcept (runFromRow row)
  | none =>
    (insertRun (.ofRun run (fingerprint sha run))).mapError fun
      | .integrityError => .conflict "run already exists" []
      | e => e
    let _ ← appendEvent run.id "run.created" [("status", .str run.status.value)]
    pure run

/-- `get_run`. -/
def getRun (runId : UUID) : Sql Run := readRun runId

/-- The order `ORDER BY created_at, id` of runs. -/
def createdBefore (a b : RunRow) : Prop :=
  a.createdAt.isoformat < b.createdAt.isoformat ∨
    a.createdAt.isoformat = b.createdAt.isoformat ∧ a.id ≤ b.id

instance : DecidableRel createdBefore := fun _ _ => inferInstanceAs (Decidable (_ ∨ _))

/-- `LIMIT ?`, where the limit is optional. -/
def limited {α : Type} (limit : Option ℤ) (rows : List α) : List α :=
  match limit with
  | none => rows
  | some n => rows.take n.toNat

/-- The run after which a page starts; it has to be one of the tenant. -/
def cursorRow (tenantId : String) : Option UUID → Sql (Option RunRow)
  | none => pure none
  | some i => do
    match ← query fun c => c.db.runs.find? i with
    | some row =>
      raiseUnless (row.tenantId = tenantId) (.keyError i.str)
      pure (some row)
    | none => raise (.keyError i.str)

/-- `list_runs`. -/
def listRuns (tenantId : String) (after : Option UUID) (limit : Option ℤ)
    (sessionId : Option UUID) (statuses : List RunStatus) : Sql (List Run) := do
  raiseUnless (∀ n ∈ limit, 1 ≤ n) (.valueError "limit must be positive")
  let cursor ← cursorRow tenantId after
  let rows ← query fun c => c.db.runs.rows.filter fun r =>
    r.tenantId = tenantId ∧ (∀ a ∈ cursor, ¬ createdBefore r a) ∧
      (∀ s ∈ sessionId, r.sessionId = s) ∧ (statuses = [] ∨ r.status ∈ statuses)
  ofExcept ((limited limit (rows.insertionSort createdBefore)).mapM runFromRow)

/-- `count_runs`. -/
def countRuns (status : RunStatus) (tenantId : Option String) : Sql ℕ :=
  query fun c => c.db.runs.rows.countP fun r =>
    r.status = status ∧ ∀ t ∈ tenantId, r.tenantId = t

/-- `transition_run`. -/
def transitionRun (runId : UUID) (expectedVersion : ℤ) (target : RunStatus)
    (state : Option JsonObject) (nextNodes : Option (List String)) : Sql Run := do
  let current ← readRun runId
  raiseUnless ((current.version : ℤ) = expectedVersion)
    (.conflict "run version conflict" [("actual_version", .int current.version),
      ("expected_version", .int expectedVersion)])
  ofExcept (assertTransition current.status target)
  let updatedAt ← now
  let rowcount ← updateRuns (fun r => r.id = runId ∧ (r.version : ℤ) = expectedVersion)
    (fun r => { r with
      status := target
      state := state.getD current.state
      nextNodes := nextNodes.getD current.nextNodes
      updatedAt := updatedAt
      version := r.version + 1 })
    (fun _ => rfl)
  raiseUnless (rowcount = 1) (.conflict "run version conflict" [])
  let _ ← appendEvent runId "run.state.changed"
    [("from", .str current.status.value), ("to", .str target.value)]
  readRun runId

/-! ### Events and checkpoints -/

/-- `list_run_events`. -/
def listRunEvents (runId : UUID) (afterSequence : ℤ) (limit : Option ℤ) :
    Sql (List RunEvent) := do
  raiseUnless (0 ≤ afterSequence) (.valueError "after_sequence must not be negative")
  raiseUnless (∀ n ∈ limit, 1 ≤ n) (.valueError "limit must be positive")
  let rows ← query fun c => c.db.runEvents.rows.filter fun e =>
    e.runId = runId ∧ afterSequence < (e.sequence : ℤ)
  pure (limited limit (rows.insertionSort fun a b => a.sequence ≤ b.sequence))

/-- `append_run_event`. -/
def appendRunEvent (runId : UUID) (type : String) (data : JsonObject) : Sql RunEvent := do
  let _ ← requiredRunRow runId
  appendEvent runId type data

/-- The check that a checkpoint is the next one of its run. -/
def requireNextSequence (checkpoint : Checkpoint) : Sql Unit := do
  let expected ← query fun c => c.db.maxCheckpoint checkpoint.runId + 1
  raiseUnless (checkpoint.sequence = expected)
    (.conflict s!"checkpoint sequence must be {expected}, got {checkpoint.sequence}" [])

/-- The event of a new checkpoint. -/
def appendCheckpointEvent (checkpoint : Checkpoint) : Sql RunEvent :=
  appendEvent checkpoint.runId "run.checkpoint.created"
    [("checkpoint_id", .str checkpoint.id.str), ("sequence", .int checkpoint.sequence)]

/-- `append_checkpoint`. -/
def appendCheckpoint (checkpoint : Checkpoint) : Sql Unit := do
  let _ ← requiredRunRow checkpoint.runId
  requireNextSequence checkpoint
  insertCheckpoint checkpoint
  let _ ← appendCheckpointEvent checkpoint

/-- The checkpoints of a run by sequence number. -/
def sortedCheckpoints (db : Database) (runId : UUID) : List Checkpoint :=
  (db.checkpointsOf runId).insertionSort fun a b => a.sequence ≤ b.sequence

/-- `latest_checkpoint`. -/
def latestCheckpoint (runId : UUID) : Sql (Option Checkpoint) :=
  query fun c => (sortedCheckpoints c.db runId).getLast?

/-- `list_checkpoints`. -/
def listCheckpoints (runId : UUID) : Sql (List Checkpoint) :=
  query fun c => sortedCheckpoints c.db runId

/-- `commit_checkpoint`. The row count of the update is not looked at. -/
def commitCheckpoint (checkpoint : Checkpoint) (workerId : String) (fencingToken : ℤ)
    (expectedRunVersion : ℤ) : Sql Run := do
  let _ ← requiredLease checkpoint.runId workerId fencingToken
  let current ← readRun checkpoint.runId
  raiseUnless ((current.version : ℤ) = expectedRunVersion) (.conflict "run version conflict" [])
  raiseUnless (current.status = .running) (.conflict "checkpoint requires a running run" [])
  requireNextSequence checkpoint
  insertCheckpoint checkpoint
  let _ ← updateRuns (fun r => r.id = checkpoint.runId ∧ (r.version : ℤ) = expectedRunVersion)
    (fun r => { r with
      state := checkpoint.state
      nextNodes := checkpoint.nextNodes
      updatedAt := checkpoint.createdAt
      version := r.version + 1 })
    (fun _ => rfl)
  let _ ← appendCheckpointEvent checkpoint
  readRun checkpoint.runId

/-- `finish_claim`. -/
def finishClaim (runId : UUID) (workerId : String) (fencingToken : ℤ)
    (expectedRunVersion : ℤ) (target : RunStatus) (eventType : String)
    (eventData : Option JsonObject) : Sql Run := do
  let _ ← requiredLease runId workerId fencingToken
  let current ← readRun runId
  raiseUnless ((current.version : ℤ) = expectedRunVersion) (.conflict "run version conflict" [])
  ofExcept (assertTransition current.status target)
  updateStatus current target expectedRunVersion
  let updatedAt ← now
  updateLease runId (fun l => { l with active := false, updatedAt := updatedAt }) (fun _ => rfl)
  let _ ← appendEvent runId eventType (match eventData with
    | none | some [] => [("status", .str target.value)]
    | some data => data)
  readRun runId

/-! ### Interrupts -/

/-- The interrupt with a decision. -/
def decided (i : Interrupt) (decision : ApprovalDecision) (decidedAt : Datetime)
    (h : decidedAt.Aware) : Interrupt :=
  { i with
    decision := some (decision, decidedAt)
    decidedAt_aware := by rintro d ⟨rfl⟩; exact h }

/-- `UPDATE interrupts SET decision_kind = ..., decided_at = ...` for an undecided interrupt. -/
def updateDecision (interruptId : UUID) (decision : ApprovalDecision) (decidedAt : Datetime)
    (h : decidedAt.Aware) : Sql Unit :=
  execute fun c => c.setInterrupts
    (c.db.interrupts.update (fun i => i.id = interruptId ∧ i.decision = none)
      (fun i => decided i decision decidedAt h) (fun _ => rfl))

/-- `create_interrupt`. -/
def createInterrupt (interrupt : Interrupt) (expectedRunVersion : ℤ) : Sql Run := do
  let current ← readRun interrupt.runId
  raiseUnless ((current.version : ℤ) = expectedRunVersion) (.conflict "run version conflict" [])
  ofExcept (assertTransition current.status .waiting)
  requireReference interrupt.runId
  -- The statement writes no decision columns, whatever the record holds.
  let row : Interrupt :=
    { interrupt with decision := none, decidedAt_aware := Interrupt.undecided_aware }
  match ← query fun c => c.db.interrupts.insert? row with
  | none => raise .integrityError
  | some interrupts =>
    execute fun c => c.setInterrupts interrupts
    updateStatus current .waiting expectedRunVersion
    updateLease interrupt.runId
      (fun l => { l with active := false, updatedAt := interrupt.createdAt }) (fun _ => rfl)
    let _ ← appendEvent interrupt.runId "run.interrupt.created"
      [("interrupt_id", .str interrupt.id.str), ("kind", .str interrupt.kind.value)]
    readRun interrupt.runId

/-- `get_interrupt`. -/
def getInterrupt (interruptId : UUID) : Sql Interrupt := do
  match ← query fun c => c.db.interrupts.find? interruptId with
  | some row => pure row
  | none => raise (.keyError interruptId.str)

/-- The order `ORDER BY created_at, id` of interrupts. -/
def interruptCreatedBefore (a b : Interrupt) : Prop :=
  a.createdAt.isoformat < b.createdAt.isoformat ∨
    a.createdAt.isoformat = b.createdAt.isoformat ∧ a.id ≤ b.id

instance : DecidableRel interruptCreatedBefore := fun _ _ => inferInstanceAs (Decidable (_ ∨ _))

/-- `list_interrupts`. -/
def listInterrupts (tenantId : String) (pendingOnly : Bool) : Sql (List Interrupt) :=
  query fun c => (c.db.interrupts.rows.filter fun i : Interrupt =>
    (∃ r ∈ c.db.runs.find? i.runId, r.tenantId = tenantId) ∧
      (pendingOnly = true → i.decision = none)).insertionSort interruptCreatedBefore

/-- The decision recorded for an interrupt whose deadline has passed. -/
def deadlineDecision : ApprovalDecision :=
  ⟨.reject, "openrath-system", "interrupt deadline expired", [], by decide, by decide⟩

/-- A row of the join of `interrupts` and `runs` that `expire_interrupts` reads. -/
structure ExpiredRow where
  interrupt : Interrupt
  runVersion : ℕ
  runStatus : RunStatus

/-- The text of the deadline of an interrupt. -/
def deadlineText (i : Interrupt) : List Char := (i.expiresAt.map Datetime.isoformat).getD []

/-- The order `ORDER BY expires_at, id` of interrupts. -/
def expiresBefore (a b : ExpiredRow) : Prop :=
  deadlineText a.interrupt < deadlineText b.interrupt ∨
    deadlineText a.interrupt = deadlineText b.interrupt ∧ a.interrupt.id ≤ b.interrupt.id

instance : DecidableRel expiresBefore := fun _ _ => inferInstanceAs (Decidable (_ ∨ _))

/-- The undecided interrupts whose deadline is not after a datetime, with the version and the
status of their runs. -/
def expiredRows (db : Database) (expiredAt : Datetime) : List ExpiredRow :=
  ((db.interrupts.rows.filter fun i => i.decision = none ∧
    ∃ e ∈ i.expiresAt, e.isoformat ≤ expiredAt.isoformat).filterMap fun i =>
      (db.runs.find? i.runId).map fun r => ⟨i, r.version, r.status⟩).insertionSort expiresBefore

/-- One iteration of `expire_interrupts`. The version and the status of the run are those read
before the loop. -/
def expireInterrupt (expiredAt : Datetime) (h : expiredAt.Aware) (row : ExpiredRow) :
    Sql Unit := do
  updateDecision row.interrupt.id deadlineDecision expiredAt h
  if row.runStatus = .waiting then
    let current ← readRun row.interrupt.runId
    updateStatus current .timedOut row.runVersion
    let _ ← appendEvent row.interrupt.runId "run.interrupt.expired"
      [("interrupt_id", .str row.interrupt.id.str)]
  else
    pure ()

/-- `expire_interrupts`. -/
def expireInterrupts (givenNow : Option Datetime) : Sql (List UUID) := do
  let expiredAt ← nowOr givenNow
  if h : expiredAt.Aware then
    let rows ← query fun c => expiredRows c.db expiredAt
    forEach (expireInterrupt expiredAt h) rows
    pure (rows.map fun row => row.interrupt.id)
  else raise (.valueError "now must be timezone-aware")

/-- `decide_interrupt`. -/
def decideInterrupt (interruptId : UUID) (decision : ApprovalDecision)
    (expectedRunVersion : ℤ) : Sql Run := do
  match ← query fun c => c.db.interrupts.find? interruptId with
  | none => raise (.keyError interruptId.str)
  | some row =>
    raiseUnless (row.decision = none) (.conflict "interrupt was already decided" [])
    let current ← readRun row.runId
    raiseUnless ((current.version : ℤ) = expectedRunVersion)
      (.conflict "run version conflict" [])
    ofExcept (assertTransition current.status .queued)
    let decidedAt ← now
    if h : decidedAt.Aware then
      updateDecision interruptId decision decidedAt h
      updateStatus current .queued expectedRunVersion
      let _ ← appendEvent row.runId "run.interrupt.decided"
        [("actor_id", .str decision.actorId), ("decision", .str decision.kind.value),
          ("interrupt_id", .str interruptId.str)]
      readRun row.runId
    else raise (.valueError "interrupt.decided_at must be timezone-aware")

/-! ### Leases -/

/-- The order `ORDER BY priority DESC, created_at, id` of queued runs. -/
def claimedBefore (a b : RunRow) : Prop :=
  b.priority < a.priority ∨ a.priority = b.priority ∧ createdBefore a b

instance : DecidableRel claimedBefore := fun _ _ => inferInstanceAs (Decidable (_ ∨ _))

/-- The queued run that is claimed next. -/
def nextQueued (db : Database) : Option RunRow :=
  ((db.runs.rows.filter fun r => r.status = .queued).insertionSort claimedBefore).head?

/-- `datetime + timedelta(seconds=...)`. -/
def addSeconds (d : Datetime) (seconds : Seconds) : Except StoreError Datetime :=
  match seconds.timedelta with
  | .error .notANumber => .error (.valueError "cannot convert float NaN to integer")
  | .error .overflow => .error .overflowError
  | .ok us => match d.add? us with
    | none => .error .overflowError
    | some d' => .ok d'

/-- `INSERT INTO run_leases ... ON CONFLICT(run_id) DO UPDATE`: a taken lease id is an error
unless it is the one of the row to update. -/
def upsertLease (row : LeaseRow) : Sql Unit := do
  requireReference row.runId
  let leases ← query fun c => c.db.runLeases
  match leases.insert? row with
  | none =>
    execute fun c => c.setLeases
      (leases.update (fun l => l.runId = row.runId) (fun l => { l with
        holderWorkerId := row.holderWorkerId
        expiresAt := row.expiresAt
        fencingToken := row.fencingToken
        active := true
        updatedAt := row.updatedAt }) (fun _ => rfl))
  | some leases' =>
    raiseUnless (∀ l ∈ leases.rows, l.id ≠ row.id) .integrityError
    execute fun c => c.setLeases leases'

/-- `claim_next`. -/
def claimNext (sha : Sha256) (workerId : String) (leaseSeconds : Seconds)
    (givenNow : Option Datetime) : Sql (Option ClaimedRun) := do
  raiseUnless (isBlank workerId = false) (.valueError "worker_id must not be empty")
  raiseUnless (leaseSeconds.nonpos = false)
    (.valueError "lease_seconds must be greater than zero")
  let claimedAt ← nowOr givenNow
  raiseUnless claimedAt.Aware (.valueError "now must be timezone-aware")
  match ← query fun c => nextQueued c.db with
  | none => pure none
  | some row =>
    let current ← ofExcept (runFromRow row)
    ofExcept (assertTransition current.status .running)
    let rowcount ← updateRuns
      (fun r => r.id = current.id ∧ r.version = current.version ∧ r.status = .queued)
      (fun r => { r with status := .running, updatedAt := claimedAt, version := r.version + 1 })
      (fun _ => rfl)
    raiseUnless (rowcount = 1) (.conflict "run claim conflict" [])
    let previous ← query fun c => c.db.runLeases.find? current.id
    let leaseId := match previous with
      | some l => l.id
      | none => sha.uuid current.id.str
    let token := match previous with
      | some l => l.fencingToken + 1
      | none => 1
    let createdAt ← ofExcept (match previous with
      | some l => parseTime l.createdAt
      | none => .ok claimedAt)
    let expiresAt ← ofExcept (addSeconds claimedAt leaseSeconds)
    upsertLease ⟨leaseId, current.id, workerId, expiresAt, token, true, createdAt, claimedAt⟩
    let _ ← appendEvent current.id "run.claimed"
      [("fencing_token", .int token), ("worker_id", .str workerId)]
    let run ← readRun current.id
    let lease ← ofExcept
      (ResourceLease.ofRun leaseId current.id workerId expiresAt token createdAt claimedAt)
    pure (some ⟨run, lease⟩)

/-- `renew_lease`. -/
def renewLease (runId : UUID) (workerId : String) (fencingToken : ℤ) (leaseSeconds : Seconds)
    (givenNow : Option Datetime) : Sql ResourceLease := do
  raiseUnless (leaseSeconds.nonpos = false)
    (.valueError "lease_seconds must be greater than zero")
  let renewedAt ← nowOr givenNow
  let expiresAt ← ofExcept (addSeconds renewedAt leaseSeconds)
  let row ← requiredLease runId workerId fencingToken
  updateLease runId (fun l => { l with expiresAt := expiresAt, updatedAt := renewedAt })
    (fun _ => rfl)
  let createdAt ← ofExcept (parseTime row.createdAt)
  ofExcept (ResourceLease.ofRun row.id runId workerId expiresAt row.fencingToken createdAt
    renewedAt)

/-- `assert_fencing_token`. -/
def assertFencingToken (runId : UUID) (workerId : String) (fencingToken : ℤ) : Sql Unit := do
  let _ ← requiredLease runId workerId fencingToken

/-- A row of the join of `run_leases` and `runs` that `requeue_expired_leases` reads. -/
structure ExpiredLease where
  lease : LeaseRow
  status : RunStatus
  version : ℕ

/-- The order `ORDER BY expires_at, run_id` of leases. -/
def leaseExpiresBefore (a b : ExpiredLease) : Prop :=
  a.lease.expiresAt.isoformat < b.lease.expiresAt.isoformat ∨
    a.lease.expiresAt.isoformat = b.lease.expiresAt.isoformat ∧ a.lease.runId ≤ b.lease.runId

instance : DecidableRel leaseExpiresBefore := fun _ _ => inferInstanceAs (Decidable (_ ∨ _))

/-- The active leases that expire no later than a datetime, with the status and the version of
their runs. -/
def expiredLeases (db : Database) (recoveredAt : Datetime) : List ExpiredLease :=
  ((db.runLeases.rows.filter fun l => l.active = true ∧
    l.expiresAt.isoformat ≤ recoveredAt.isoformat).filterMap fun l =>
      (db.runs.find? l.runId).map fun r => ⟨l, r.status, r.version⟩).insertionSort
        leaseExpiresBefore

/-- One iteration of `requeue_expired_leases`. The status and the version of the run are those
read before the loop, and the row count of the update is not looked at. -/
def requeueLease (recoveredAt : Datetime) (row : ExpiredLease) : Sql Unit :=
  if row.status ≠ .running then
    updateLease row.lease.runId (fun l => { l with active := false }) (fun _ => rfl)
  else do
    let _ ← updateRuns (fun r => r.id = row.lease.runId ∧ r.version = row.version)
      (fun r => { r with status := .queued, updatedAt := recoveredAt, version := r.version + 1 })
      (fun _ => rfl)
    updateLease row.lease.runId
      (fun l => { l with active := false, updatedAt := recoveredAt }) (fun _ => rfl)
    let _ ← appendEvent row.lease.runId "run.lease.expired"
      [("fencing_token", .int row.lease.fencingToken)]

/-- `requeue_expired_leases`. -/
def requeueExpiredLeases (givenNow : Option Datetime) : Sql (List UUID) := do
  let recoveredAt ← nowOr givenNow
  let rows ← query fun c => expiredLeases c.db recoveredAt
  forEach (requeueLease recoveredAt) rows
  pure ((rows.filter fun row => row.status = .running).map fun row => row.lease.runId)

end SQLite

end OpenRath
