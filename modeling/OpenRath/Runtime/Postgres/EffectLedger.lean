import OpenRath.Runtime.Effects

/-!
# The Postgres effect ledger

The operations of `PostgresEffectLedger` (`src/rath/runtime/effects.py`), as bodies of transactions
on the rows of `tool_invocations`. They differ from those of the SQLite ledger in how a used
idempotency key is noticed (`ON CONFLICT` in place of a query), in the guards on the status, which
are part of the updates, in the readings of the clock (one for each row that is reconciled), and in
the type of the timestamp columns, which hold instants. A row becomes an invocation, which has
checks of its own, only after the transaction, except in `reconcile_stale`. The transactions are run
one at a time, so `FOR UPDATE` and `SKIP LOCKED` have no effect.

## Main definitions

* `InvocationRow`, `InvocationRow.fromRow`.
* `PostgresLedger.prepare`, `PostgresLedger.transition`, `PostgresLedger.reconcileStale`,
  `PostgresLedger.watermark`.
* `EffectLedger`, `sqliteEffectLedger`, `postgresEffectLedger`: the two ledgers as values.
-/

namespace OpenRath

/-- A row of `tool_invocations` as the columns hold it. -/
structure InvocationRow where
  id : UUID
  runId : UUID
  toolName : String
  effectClass : EffectClass
  argumentsDigest : String
  status : InvocationStatus
  createdAt : Datetime
  updatedAt : Datetime
  nodeId : Option String
  checkpointSequence : Option ℤ
  invocationSequence : Option ℕ
  idempotencyKey : Option String
  result : Json
  error : Option String
deriving DecidableEq

/-- `_from_row`: the checks are those made when the invocation is built. -/
def InvocationRow.fromRow (row : InvocationRow) : Except LedgerError ToolInvocation :=
  if hname : row.toolName ≠ "" then
    if hdigest : row.argumentsDigest.length = 64 then
      if haware : row.createdAt.Aware ∧ row.updatedAt.Aware then
        .ok
          { id := row.id
            runId := row.runId
            toolName := row.toolName
            effectClass := row.effectClass
            argumentsDigest := row.argumentsDigest
            status := row.status
            createdAt := row.createdAt
            updatedAt := row.updatedAt
            nodeId := row.nodeId
            checkpointSequence := row.checkpointSequence
            invocationSequence := row.invocationSequence
            idempotencyKey := row.idempotencyKey
            result := row.result
            error := row.error
            toolName_ne_empty := hname
            argumentsDigest_length := hdigest
            createdAt_aware := haware.1
            updatedAt_aware := haware.2 }
      else .error (.valueError "invocation timestamps must be timezone-aware")
    else .error (.valueError "arguments_digest must be a SHA-256 digest")
  else .error (.valueError "tool_name must not be empty")

namespace PostgresLedger

open Tx

/-- What a transaction of the ledger works on. -/
structure Connection where
  runs : Table RunRow.id
  invocations : Table InvocationRow.id
  clock : ℕ → ClockReading
  uuid : UUID

/-- The body of an operation of the ledger. -/
abbrev Sql (α : Type) : Type := Tx Connection LedgerError α

/-! ### Statements -/

/-- `datetime.now(timezone.utc)`. -/
def now : Sql Datetime := fun c =>
  (.ok (.utc (c.clock 0)), { c with clock := fun n => c.clock (n + 1) })

/-- The invocations of a run. -/
def invocationsOf (runId : UUID) (rows : List InvocationRow) : List InvocationRow :=
  rows.filter fun r => r.runId = runId

/-- The row of a run under an idempotency key. -/
def underKey (runId : UUID) (idempotencyKey : Option String) (rows : List InvocationRow) :
    Option InvocationRow :=
  idempotencyKey.bind fun key =>
    rows.find? fun r => r.runId = runId ∧ r.idempotencyKey = some key

/-- `INSERT INTO tool_invocations ... ON CONFLICT (run_id, idempotency_key) DO NOTHING
RETURNING *`. -/
def insertInvocation (row : InvocationRow) : Sql (Option InvocationRow) := do
  match ← query fun c => underKey row.runId row.idempotencyKey c.invocations.rows with
  | some _ => pure none
  | none =>
    let c ← query id
    raiseUnless ((c.runs.find? row.runId).isSome = true) .integrityError
    raiseUnless (∀ r ∈ c.invocations.rows, r.runId = row.runId →
      r.invocationSequence = none ∨ r.invocationSequence ≠ row.invocationSequence) .integrityError
    match c.invocations.insert? row with
    | none => raise .integrityError
    | some invocations =>
      execute fun c => { c with invocations := invocations }
      pure (some row)

/-- `UPDATE tool_invocations ... RETURNING *`: the row that was written, if there is one. -/
def updateReturning (p : InvocationRow → Prop) [DecidablePred p] (f : InvocationRow → InvocationRow)
    (hf : ∀ r, (f r).id = r.id) : Sql (Option InvocationRow) := do
  let row ← query fun c => (c.invocations.rows.find? fun r => p r).map f
  execute fun c => { c with invocations := c.invocations.update p f hf }
  pure row

/-! ### Operations -/

/-- `prepare`. -/
def prepare (runId : UUID) (toolName : String) (effectClass : EffectClass)
    (argumentsDigest : String) (idempotencyKey : Option String) (nodeId : Option String)
    (checkpointSequence : Option ℤ) : Sql InvocationRow := do
  let now ← now
  let id ← query fun c => c.uuid
  let invocationSequence ← query fun c =>
    maxNumber (fun r => r.invocationSequence.getD 0) (invocationsOf runId c.invocations.rows) + 1
  let row ← insertInvocation
    { id := id
      runId := runId
      toolName := toolName
      effectClass := effectClass
      argumentsDigest := argumentsDigest
      status := .prepared
      createdAt := now.toUtc
      updatedAt := now.toUtc
      nodeId := nodeId
      checkpointSequence := checkpointSequence
      invocationSequence := some invocationSequence
      idempotencyKey := idempotencyKey
      result := .null
      error := none }
  match row with
  | some row => pure row
  | none =>
    match ← query fun c => underKey runId idempotencyKey c.invocations.rows with
    | none => raise (.conflict "effect invocation already exists")
    | some row =>
      raiseUnless (row.argumentsDigest = argumentsDigest ∧ row.toolName = toolName)
        (.conflict "effect idempotency key was reused with different input")
      pure row

/-- `get`. -/
def get (invocationId : UUID) : Sql InvocationRow := do
  match ← query fun c => c.invocations.find? invocationId with
  | some row => pure row
  | none => raise (.keyError invocationId.str)

/-- `_transition`. -/
def transition (invocationId : UUID) (expected : List InvocationStatus)
    (target : InvocationStatus) (result : Json) (error : Option String) : Sql InvocationRow := do
  let now ← now
  let row ← updateReturning (fun r => r.id = invocationId ∧ r.status ∈ expected)
    (fun r => { r with
      status := target
      result := result
      error := error
      updatedAt := now.toUtc }) fun _ => rfl
  match row with
  | some row => pure row
  | none => raise (.conflict "invalid effect invocation transition")

/-- The status in which the reconciliation leaves a stale invocation. -/
def staleTarget (row : InvocationRow) : InvocationStatus :=
  if row.effectClass ∈ [.none, .readOnly] ∨
    row.effectClass = .idempotent ∧ row.idempotencyKey ≠ none then .prepared
  else .ambiguous

/-- The order `ORDER BY created_at, id` of rows. -/
def createdBefore (a b : InvocationRow) : Prop :=
  a.createdAt.instant < b.createdAt.instant ∨
    a.createdAt.instant = b.createdAt.instant ∧ a.id ≤ b.id

instance : DecidableRel createdBefore := fun _ _ => inferInstanceAs (Decidable (_ ∨ _))

/-- The dispatched rows that were last written no later than a datetime. -/
def staleRows (rows : List InvocationRow) (olderThan : Datetime) : List InvocationRow :=
  (rows.filter fun r => r.status = .dispatched ∧
    r.updatedAt.instant ≤ olderThan.instant).insertionSort createdBefore

/-- The loop of `reconcile_stale`. -/
def reconcileRows : List InvocationRow → Sql (List ToolInvocation)
  | [] => pure []
  | row :: rows => do
    let now ← now
    let updated ← updateReturning (fun r => r.id = row.id ∧ r.status = .dispatched)
      (fun r => { r with status := staleTarget row, updatedAt := now.toUtc }) fun _ => rfl
    match updated with
    | none => reconcileRows rows
    | some updated => do
      let invocation ← ofExcept updated.fromRow
      let output ← reconcileRows rows
      pure (invocation :: output)

/-- `reconcile_stale`. -/
def reconcileStale (olderThan : Datetime) : Sql (List ToolInvocation) := do
  let rows ← query fun c => staleRows c.invocations.rows olderThan
  reconcileRows rows

/-- `watermark`. -/
def watermark (runId : UUID) : Sql ℕ :=
  query fun c =>
    let rows := (invocationsOf runId c.invocations.rows).filter fun r => r.status = .succeeded
    (rows.filterMap InvocationRow.invocationSequence).max?.getD rows.length

end PostgresLedger

/-! ### The ledgers as values -/

/-- The arguments of `prepare`. -/
structure Preparation where
  runId : UUID
  toolName : String
  effectClass : EffectClass
  argumentsDigest : String
  idempotencyKey : Option String
  nodeId : Option String
  checkpointSequence : Option ℤ

/-- What a call draws: readings of the clock and a UUID. -/
structure Draws where
  clock : ℕ → ClockReading
  uuid : UUID

/-- An `EffectLedger` over tables of a type: each call has an answer and leaves tables. -/
structure EffectLedger (T : Type) where
  prepare : Draws → Preparation → T → Except LedgerError ToolInvocation × T
  get : Draws → UUID → T → Except LedgerError ToolInvocation × T
  markDispatched : Draws → UUID → T → Except LedgerError ToolInvocation × T
  complete : Draws → UUID → Json → T → Except LedgerError ToolInvocation × T
  fail : Draws → UUID → String → T → Except LedgerError ToolInvocation × T
  reconcileStale : Draws → Datetime → T → Except LedgerError (List ToolInvocation) × T
  watermark : Draws → UUID → T → Except LedgerError ℕ × T

section Ledgers

variable (runs : Table RunRow.id)

/-- A transaction of `_transition` and the query of the row after it. -/
def thenGet (draws : Draws) (invocationId : UUID) (op : LedgerOp)
    (invocations : Table ToolInvocation.id) :
    Except LedgerError ToolInvocation × Table ToolInvocation.id :=
  match Ledger.perform op draws.clock draws.uuid runs invocations with
  | (.ok _, invocations) =>
    Ledger.perform (.get invocationId) draws.clock draws.uuid runs invocations
  | (.error e, invocations) => (.error e, invocations)

/-- `SQLiteEffectLedger`, over the runs of its database. -/
def sqliteEffectLedger : EffectLedger (Table ToolInvocation.id) where
  prepare draws p := Ledger.perform (.prepare p.runId p.toolName p.effectClass p.argumentsDigest
    p.idempotencyKey p.nodeId p.checkpointSequence) draws.clock draws.uuid runs
  get draws id := Ledger.perform (.get id) draws.clock draws.uuid runs
  markDispatched draws id := thenGet runs draws id (.markDispatched id)
  complete draws id result := thenGet runs draws id (.complete id result)
  fail draws id error := thenGet runs draws id (.fail id error)
  reconcileStale draws olderThan :=
    Ledger.perform (.reconcileStale olderThan) draws.clock draws.uuid runs
  watermark draws runId := Ledger.perform (.watermark runId) draws.clock draws.uuid runs

namespace PostgresLedger

open Tx

/-- A transaction of the ledger. -/
def perform {α : Type} (body : Sql α) (draws : Draws) (invocations : Table InvocationRow.id) :
    Except LedgerError α × Table InvocationRow.id :=
  let out := body.atomically ⟨runs, invocations, draws.clock, draws.uuid⟩
  (out.1, out.2.invocations)

/-- A transaction whose row becomes an invocation afterwards. -/
def performRow (body : Sql InvocationRow) (draws : Draws) (invocations : Table InvocationRow.id) :
    Except LedgerError ToolInvocation × Table InvocationRow.id :=
  let out := perform runs body draws invocations
  (out.1 >>= InvocationRow.fromRow, out.2)

end PostgresLedger

open PostgresLedger in
/-- `PostgresEffectLedger`, over the runs of its schema. -/
def postgresEffectLedger : EffectLedger (Table InvocationRow.id) where
  prepare draws p := performRow runs (prepare p.runId p.toolName p.effectClass p.argumentsDigest
    p.idempotencyKey p.nodeId p.checkpointSequence) draws
  get draws id := performRow runs (get id) draws
  markDispatched draws id :=
    performRow runs (transition id [.prepared] .dispatched .null none) draws
  complete draws id result :=
    performRow runs (transition id [.prepared, .dispatched] .succeeded result none) draws
  fail draws id error :=
    performRow runs (transition id [.prepared, .dispatched] .failed .null (some error)) draws
  reconcileStale draws olderThan := perform runs (reconcileStale olderThan) draws
  watermark draws runId := perform runs (watermark runId) draws

end Ledgers

end OpenRath
