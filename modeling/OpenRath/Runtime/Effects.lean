import OpenRath.Library.Numbered
import OpenRath.Library.Table
import OpenRath.Library.Transaction
import OpenRath.Runtime.Schema

/-!
# The effect ledger

The table `tool_invocations` and the operations of `SQLiteEffectLedger`
(`src/rath/runtime/effects.py`), as bodies of transactions. The ledger shares the database of the
runs, of which it only reads that the run of a new invocation exists. Its timestamps are readings
of the clock, in UTC; the argument of the reconciliation is any datetime, and is compared by its
text.

`mark_dispatched`, `complete` and `fail` are one transaction each (`_transition`), followed by a
separate read of the row; the two parts are operations of their own here.

## Main definitions

* `EffectClass`, `InvocationStatus`, `ToolInvocation`.
* `Ledger.prepare`, `Ledger.transition`, `Ledger.get`, `Ledger.reconcileStale`,
  `Ledger.watermark`.
* `LedgerOp`, `LedgerOp.body`: the operations as data.

## Main results

* `Ledger.prepare_cases`, `Ledger.transition_cases`, `Ledger.reconcileStale_cases`: what the
  operations that write do to the invocations.
-/

namespace OpenRath

/-! ### Invocations -/

/-- What repeating a call of a tool may do. -/
inductive EffectClass
  | none
  | readOnly
  | idempotent
  | nonIdempotent
deriving DecidableEq

/-- The text an effect class is stored as. -/
def EffectClass.value : EffectClass → String
  | none => "none"
  | readOnly => "read_only"
  | idempotent => "idempotent"
  | nonIdempotent => "non_idempotent"

/-- How far an invocation of a tool has come. -/
inductive InvocationStatus
  | prepared
  | dispatched
  | succeeded
  | failed
  | ambiguous
deriving DecidableEq

/-- The text an invocation status is stored as. -/
def InvocationStatus.value : InvocationStatus → String
  | prepared => "prepared"
  | dispatched => "dispatched"
  | succeeded => "succeeded"
  | failed => "failed"
  | ambiguous => "ambiguous"

/-- An invocation of a tool, and its row in `tool_invocations`. Rows of older databases have no
number; a missing result is `null`. -/
@[ext]
structure ToolInvocation where
  id : UUID
  runId : UUID
  toolName : String
  effectClass : EffectClass
  argumentsDigest : String
  status : InvocationStatus
  createdAt : Datetime
  updatedAt : Datetime
  nodeId : Option String
  checkpointSequence : Option ℤ
  invocationSequence : Option ℕ
  idempotencyKey : Option String
  result : Json
  error : Option String
  toolName_ne_empty : toolName ≠ ""
  argumentsDigest_length : argumentsDigest.length = 64
  createdAt_aware : createdAt.Aware
  updatedAt_aware : updatedAt.Aware

instance : DecidableEq ToolInvocation := fun _ _ => decidable_of_iff' _ ToolInvocation.ext_iff

/-- What an operation of the ledger raises, by the class of the exception. -/
inductive LedgerError
  | conflict (message : String)
  | keyError (key : String)
  | valueError (message : String)
  | integrityError
deriving DecidableEq

/-- What a transaction of the ledger works on: the runs, the invocations, the readings of the
clock still to come and the UUID it will draw. -/
structure LedgerConnection where
  runs : Table RunRow.id
  invocations : Table ToolInvocation.id
  clock : ℕ → ClockReading
  uuid : UUID

/-- The body of an operation of the ledger. -/
abbrev LedgerSql (α : Type) : Type := Tx LedgerConnection LedgerError α

namespace Ledger

open Tx

/-! ### Statements -/

/-- `datetime.now(timezone.utc)`. -/
def now : LedgerSql Datetime := fun c =>
  (.ok (.utc (c.clock 0)), { c with clock := fun n => c.clock (n + 1) })

/-- The invocations of a run. -/
def invocationsOf (runId : UUID) (rows : List ToolInvocation) : List ToolInvocation :=
  rows.filter fun r => r.runId = runId

/-- The invocation of a run under an idempotency key. -/
def underKey (runId : UUID) (idempotencyKey : Option String) (rows : List ToolInvocation) :
    Option ToolInvocation :=
  idempotencyKey.bind fun key =>
    rows.find? fun r => r.runId = runId ∧ r.idempotencyKey = some key

/-- `INSERT INTO tool_invocations`: the run exists, and the id, the key of the run and the number
in the run are unique. -/
def insertInvocation (invocation : ToolInvocation) : LedgerSql Unit := do
  let c ← query id
  raiseUnless ((c.runs.find? invocation.runId).isSome = true) .integrityError
  raiseUnless (∀ r ∈ c.invocations.rows, r.runId = invocation.runId →
    (r.idempotencyKey = none ∨ r.idempotencyKey ≠ invocation.idempotencyKey) ∧
      (r.invocationSequence = none ∨ r.invocationSequence ≠ invocation.invocationSequence))
    .integrityError
  match c.invocations.insert? invocation with
  | none => raise .integrityError
  | some invocations => execute fun c => { c with invocations := invocations }

/-! ### Operations -/

/-- `prepare`. -/
def prepare (runId : UUID) (toolName : String) (effectClass : EffectClass)
    (argumentsDigest : String) (idempotencyKey : Option String) (nodeId : Option String)
    (checkpointSequence : Option ℤ) : LedgerSql ToolInvocation := do
  let now ← now
  match ← query fun c => underKey runId idempotencyKey c.invocations.rows with
  | some existing =>
    raiseUnless (existing.argumentsDigest = argumentsDigest ∧ existing.toolName = toolName)
      (.conflict "effect idempotency key was reused with different input")
    pure existing
  | none =>
    let invocationSequence ← query fun c =>
      maxNumber (fun r => r.invocationSequence.getD 0) (invocationsOf runId c.invocations.rows) + 1
    let id ← query fun c => c.uuid
    if hname : toolName ≠ "" then
      if hdigest : argumentsDigest.length = 64 then
        if hnow : now.Aware then
          let invocation : ToolInvocation :=
            { id := id
              runId := runId
              toolName := toolName
              effectClass := effectClass
              argumentsDigest := argumentsDigest
              status := .prepared
              createdAt := now
              updatedAt := now
              nodeId := nodeId
              checkpointSequence := checkpointSequence
              invocationSequence := some invocationSequence
              idempotencyKey := idempotencyKey
              result := .null
              error := none
              toolName_ne_empty := hname
              argumentsDigest_length := hdigest
              createdAt_aware := hnow
              updatedAt_aware := hnow }
          insertInvocation invocation
          pure invocation
        else raise (.valueError "invocation timestamps must be timezone-aware")
      else raise (.valueError "arguments_digest must be a SHA-256 digest")
    else raise (.valueError "tool_name must not be empty")

/-- `get`. -/
def get (invocationId : UUID) : LedgerSql ToolInvocation := do
  match ← query fun c => c.invocations.find? invocationId with
  | some row => pure row
  | none => raise (.keyError invocationId.str)

/-- The invocation in another status. -/
def moved (row : ToolInvocation) (target : InvocationStatus) (updatedAt : Datetime)
    (h : updatedAt.Aware) : ToolInvocation :=
  { row with status := target, updatedAt := updatedAt, updatedAt_aware := h }

@[simp] theorem moved_id (row : ToolInvocation) (target : InvocationStatus)
    (updatedAt : Datetime) (h : updatedAt.Aware) : (moved row target updatedAt h).id = row.id :=
  rfl

/-- The invocation in another status, with a result and an error. -/
def recorded (row : ToolInvocation) (target : InvocationStatus) (result : Json)
    (error : Option String) (updatedAt : Datetime) (h : updatedAt.Aware) : ToolInvocation :=
  { moved row target updatedAt h with result := result, error := error }

@[simp] theorem recorded_id (row : ToolInvocation) (target : InvocationStatus) (result : Json)
    (error : Option String) (updatedAt : Datetime) (h : updatedAt.Aware) :
    (recorded row target result error updatedAt h).id = row.id := rfl

/-- The transaction of `_transition`: the status is one of those expected. -/
def transition (invocationId : UUID) (expected : List InvocationStatus)
    (target : InvocationStatus) (result : Json) (error : Option String) :
    LedgerSql Unit := do
  match ← query fun c => c.invocations.find? invocationId with
  | none => raise (.keyError invocationId.str)
  | some row =>
    raiseUnless (row.status ∈ expected) (.conflict "invalid effect invocation transition")
    let now ← now
    if hnow : now.Aware then
      execute fun c => { c with
        invocations := c.invocations.update (fun r => r.id = invocationId)
          (fun r => recorded r target result error now hnow)
          (fun r => recorded_id r target result error now hnow) }
    else raise (.valueError "invocation timestamps must be timezone-aware")

/-- The status in which the reconciliation leaves a stale invocation: calls whose repetition is
harmless may be made again, of the others it is not known whether they took effect. -/
def staleTarget (row : ToolInvocation) : InvocationStatus :=
  if row.effectClass ∈ [.none, .readOnly] ∨
    row.effectClass = .idempotent ∧ row.idempotencyKey ≠ none then .prepared
  else .ambiguous

/-- The order `ORDER BY created_at, id` of invocations. -/
def createdBefore (a b : ToolInvocation) : Prop :=
  a.createdAt.isoformat < b.createdAt.isoformat ∨
    a.createdAt.isoformat = b.createdAt.isoformat ∧ a.id ≤ b.id

instance : DecidableRel createdBefore := fun _ _ => inferInstanceAs (Decidable (_ ∨ _))

/-- The dispatched invocations that were last written no later than a datetime. -/
def staleInvocations (rows : List ToolInvocation) (olderThan : Datetime) :
    List ToolInvocation :=
  (rows.filter fun r => r.status = .dispatched ∧
    r.updatedAt.isoformat ≤ olderThan.isoformat).insertionSort createdBefore

/-- One iteration of `reconcile_stale`. -/
def reconcileInvocation (now : Datetime) (hnow : now.Aware) (row : ToolInvocation) :
    LedgerSql Unit :=
  execute fun c => { c with
    invocations := c.invocations.update (fun r => r.id = row.id ∧ r.status = .dispatched)
      (fun r => moved r (staleTarget row) now hnow)
      (fun r => moved_id r (staleTarget row) now hnow) }

/-- `reconcile_stale`. -/
def reconcileStale (olderThan : Datetime) : LedgerSql (List ToolInvocation) := do
  let rows ← query fun c => staleInvocations c.invocations.rows olderThan
  let now ← now
  if hnow : now.Aware then
    forEach (reconcileInvocation now hnow) rows
    pure (rows.map fun row => moved row (staleTarget row) now hnow)
  else raise (.valueError "invocation timestamps must be timezone-aware")

/-- `watermark`: the largest number of a succeeded invocation, or their count if none has a
number. -/
def watermark (runId : UUID) : LedgerSql ℕ :=
  query fun c =>
    let rows := (invocationsOf runId c.invocations.rows).filter fun r => r.status = .succeeded
    (rows.filterMap ToolInvocation.invocationSequence).max?.getD rows.length

end Ledger

/-! ### The operations as data -/

/-- The operations of the ledger. -/
inductive LedgerOp
  | prepare (runId : UUID) (toolName : String) (effectClass : EffectClass)
      (argumentsDigest : String) (idempotencyKey : Option String) (nodeId : Option String)
      (checkpointSequence : Option ℤ)
  | markDispatched (invocationId : UUID)
  | complete (invocationId : UUID) (result : Json)
  | fail (invocationId : UUID) (error : String)
  | get (invocationId : UUID)
  | reconcileStale (olderThan : Datetime)
  | watermark (runId : UUID)

namespace LedgerOp

/-- The type of what an operation returns. -/
def Result : LedgerOp → Type
  | prepare _ _ _ _ _ _ _ | get _ => ToolInvocation
  | markDispatched _ | complete _ _ | fail _ _ => Unit
  | reconcileStale _ => List ToolInvocation
  | watermark _ => ℕ

/-- The operations as bodies of transactions. -/
def body : (op : LedgerOp) → LedgerSql op.Result
  | prepare runId toolName effectClass argumentsDigest idempotencyKey nodeId
      checkpointSequence =>
    Ledger.prepare runId toolName effectClass argumentsDigest idempotencyKey nodeId
      checkpointSequence
  | markDispatched invocationId =>
    Ledger.transition invocationId [.prepared] .dispatched .null none
  | complete invocationId result =>
    Ledger.transition invocationId [.prepared, .dispatched] .succeeded result none
  | fail invocationId error =>
    Ledger.transition invocationId [.prepared, .dispatched] .failed .null (some error)
  | get invocationId => Ledger.get invocationId
  | reconcileStale olderThan => Ledger.reconcileStale olderThan
  | watermark runId => Ledger.watermark runId

end LedgerOp

/-! ### What the operations do to the invocations -/

namespace Ledger

open Tx

variable {c c' : LedgerConnection}

theorem yields_now {d : Datetime} : now.Yields c d c' ↔
    .utc (c.clock 0) = d ∧ { c with clock := fun n => c.clock (n + 1) } = c' := by
  simp [now, Yields]

/-- An invocation as `prepare` makes it. -/
structure New (runId : UUID) (toolName : String) (effectClass : EffectClass)
    (argumentsDigest : String) (idempotencyKey nodeId : Option String)
    (checkpointSequence : Option ℤ) (row : ToolInvocation) : Prop where
  runId_eq : row.runId = runId
  toolName_eq : row.toolName = toolName
  effectClass_eq : row.effectClass = effectClass
  argumentsDigest_eq : row.argumentsDigest = argumentsDigest
  idempotencyKey_eq : row.idempotencyKey = idempotencyKey
  nodeId_eq : row.nodeId = nodeId
  checkpointSequence_eq : row.checkpointSequence = checkpointSequence
  status_eq : row.status = .prepared

theorem underKey_eq_some {runId : UUID} {key : Option String} {rows : List ToolInvocation}
    {row : ToolInvocation} (h : underKey runId key rows = some row) :
    row ∈ rows ∧ row.runId = runId ∧ key ≠ none ∧ row.idempotencyKey = key := by
  rcases key with _ | key
  · cases h
  · have hrow := List.find?_some h
    simp only [decide_eq_true_eq] at hrow
    exact ⟨List.mem_of_find?_eq_some h, hrow.1, Option.some_ne_none _, hrow.2⟩

theorem underKey_eq_none {runId : UUID} {key : String} {rows : List ToolInvocation}
    (h : underKey runId (some key) rows = none) :
    ∀ row ∈ rows, row.runId = runId → row.idempotencyKey ≠ some key := by
  intro row hrow hrun hkey
  have hnot := List.find?_eq_none.mp h row hrow
  simp [hrun, hkey] at hnot

theorem yields_insertInvocation {row : ToolInvocation} {u : Unit}
    (h : (insertInvocation row).Yields c u c') : ∃ t, c.invocations.insert? row = some t ∧
      c' = { c with invocations := t } := by
  simp only [insertInvocation, yields_bind, yields_query, yields_raiseUnless] at h
  obtain ⟨_, _, ⟨rfl, rfl⟩, _, _, ⟨-, rfl⟩, _, _, ⟨-, rfl⟩, h⟩ := h
  rcases hins : c.invocations.insert? row with _ | t
  · simp [hins] at h
  · simp only [id_eq, hins, yields_execute] at h
    exact ⟨t, rfl, h.symm⟩

/-- `prepare` returns the invocation of the run under the key, unchanged, or a new one. -/
theorem prepare_cases {runId : UUID} {toolName digest : String} {effectClass : EffectClass}
    {key nodeId : Option String} {sequence : Option ℤ} {row : ToolInvocation}
    (h : (prepare runId toolName effectClass digest key nodeId sequence).Yields c row c') :
    c'.runs = c.runs ∧
    ((underKey runId key c.invocations.rows = some row ∧ row.argumentsDigest = digest ∧
        row.toolName = toolName ∧ c'.invocations = c.invocations) ∨
      (underKey runId key c.invocations.rows = none ∧
        New runId toolName effectClass digest key nodeId sequence row ∧
        c.invocations.insert? row = some c'.invocations)) := by
  simp only [prepare, yields_bind, yields_now, yields_query] at h
  obtain ⟨now, _, ⟨-, rfl⟩, found, _, ⟨hfound, rfl⟩, h⟩ := h
  rcases found with _ | existing
  · simp only [yields_bind, yields_query] at h
    obtain ⟨_, _, ⟨rfl, rfl⟩, _, _, ⟨rfl, rfl⟩, h⟩ := h
    split_ifs at h
    · simp only [yields_bind, yields_pure] at h
      obtain ⟨_, _, hins, rfl, rfl⟩ := h
      obtain ⟨t, ht, rfl⟩ := yields_insertInvocation hins
      exact ⟨rfl, Or.inr ⟨hfound, ⟨rfl, rfl, rfl, rfl, rfl, rfl, rfl, rfl⟩, ht⟩⟩
    · exact absurd h not_yields_raise
    · exact absurd h not_yields_raise
    · exact absurd h not_yields_raise
  · simp only [yields_bind, yields_raiseUnless, yields_pure] at h
    obtain ⟨_, _, ⟨hsame, rfl⟩, rfl, rfl⟩ := h
    exact ⟨rfl, Or.inl ⟨hfound, hsame.1, hsame.2, rfl⟩⟩

/-- A transition finds the invocation in one of the expected statuses and records the target. -/
theorem transition_cases {invocationId : UUID} {expected : List InvocationStatus}
    {target : InvocationStatus} {result : Json} {error : Option String} {u : Unit}
    (h : (transition invocationId expected target result error).Yields c u c') :
    c'.runs = c.runs ∧ ∃ row now hnow, c.invocations.find? invocationId = some row ∧
      row.status ∈ expected ∧ c'.invocations = c.invocations.update
        (fun r => r.id = invocationId) (fun r => recorded r target result error now hnow)
        (fun r => recorded_id r target result error now hnow) := by
  simp only [transition, yields_bind, yields_query] at h
  obtain ⟨found, _, ⟨hfound, rfl⟩, h⟩ := h
  rcases found with _ | row
  · exact absurd h not_yields_raise
  simp only [yields_bind, yields_raiseUnless, yields_now] at h
  obtain ⟨_, _, ⟨hmem, rfl⟩, _, _, ⟨rfl, rfl⟩, h⟩ := h
  split_ifs at h with hnow
  · obtain rfl := yields_execute.mp h
    exact ⟨rfl, row, _, hnow, hfound, hmem, rfl⟩
  · exact absurd h not_yields_raise

/-- The connection after a reading of the clock. -/
abbrev ticked (c : LedgerConnection) : LedgerConnection :=
  { c with clock := fun n => c.clock (n + 1) }

theorem yields_transition {id : UUID} {expected : List InvocationStatus}
    {target : InvocationStatus} {result : Json} {error : Option String} {row : ToolInvocation}
    (hrow : c.invocations.find? id = some row) (hs : row.status ∈ expected) :
    (transition id expected target result error).Yields c () { ticked c with
      invocations := c.invocations.update (fun r => r.id = id)
        (fun r => recorded r target result error (.utc (c.clock 0)) (Datetime.isUtc_utc _).aware)
        (fun r => recorded_id r target result error _ _) } := by
  rw [transition, yields_bind]
  refine ⟨_, _, yields_query.mpr ⟨hrow, rfl⟩, ?_⟩
  dsimp only
  rw [yields_bind]
  refine ⟨(), _, yields_raiseUnless.mpr ⟨hs, rfl⟩, ?_⟩
  rw [yields_bind]
  refine ⟨_, _, yields_now.mpr ⟨rfl, rfl⟩, ?_⟩
  rw [dif_pos (Datetime.isUtc_utc _).aware]
  exact yields_execute.mpr rfl

theorem raises_transition {id : UUID} {expected : List InvocationStatus}
    {target : InvocationStatus} {result : Json} {error : Option String} {row : ToolInvocation}
    (hrow : c.invocations.find? id = some row) (hs : row.status ∉ expected) :
    (transition id expected target result error).Raises c
      (.conflict "invalid effect invocation transition") := by
  rw [transition, raises_bind]
  refine Or.inr ⟨_, _, yields_query.mpr ⟨hrow, rfl⟩, ?_⟩
  dsimp only
  rw [raises_bind]
  exact Or.inl (raises_raiseUnless.mpr ⟨hs, rfl⟩)

theorem yields_get {invocationId : UUID} {row : ToolInvocation} :
    (get invocationId).Yields c row c' ↔
      c.invocations.find? invocationId = some row ∧ c = c' := by
  simp only [get, yields_bind, yields_query]
  constructor
  · rintro ⟨found, _, ⟨hfound, rfl⟩, h⟩
    rcases found with _ | row'
    · exact absurd h not_yields_raise
    · obtain ⟨rfl, rfl⟩ := yields_pure.mp h
      exact ⟨hfound, rfl⟩
  · rintro ⟨hfound, rfl⟩
    exact ⟨_, _, ⟨hfound, rfl⟩, yields_pure.mpr ⟨rfl, rfl⟩⟩

/-- An invocation that the reconciliation finds stale. -/
def Stale (olderThan : Datetime) (row : ToolInvocation) : Prop :=
  row.status = .dispatched ∧ row.updatedAt.isoformat ≤ olderThan.isoformat

instance (olderThan : Datetime) : DecidablePred (Stale olderThan) :=
  fun _ => inferInstanceAs (Decidable (_ ∧ _))

theorem mem_staleInvocations {rows : List ToolInvocation} {olderThan : Datetime}
    {row : ToolInvocation} : row ∈ staleInvocations rows olderThan ↔
      row ∈ rows ∧ Stale olderThan row := by
  rw [staleInvocations, List.mem_insertionSort, List.mem_filter]
  simp [Stale]

/-- **Reconciliation.** Every stale invocation is moved to its target and every other one is left
alone; the moved ones are reported. -/
theorem reconcileStale_cases {olderThan : Datetime} {reported : List ToolInvocation}
    (h : (reconcileStale olderThan).Yields c reported c') :
    c'.runs = c.runs ∧ ∃ now hnow,
      (∀ id, c'.invocations.find? id = (c.invocations.find? id).map fun r =>
        if Stale olderThan r then moved r (staleTarget r) now hnow else r) ∧
      ∀ row, row ∈ reported ↔ ∃ r ∈ c.invocations.rows, Stale olderThan r ∧
        row = moved r (staleTarget r) now hnow := by
  simp only [reconcileStale, yields_bind, yields_query, yields_now] at h
  obtain ⟨rows, _, ⟨rfl, rfl⟩, now, _, ⟨-, rfl⟩, h⟩ := h
  split_ifs at h with hnow
  · simp only [yields_bind, yields_pure] at h
    obtain ⟨_, _, hloop, rfl, rfl⟩ := h
    -- After an iteration, exactly the rows of the iterations so far have been moved.
    have hinv := yields_forEach_invariant (fun pre t => t.runs = c.runs ∧ ∀ id,
      t.invocations.find? id = (c.invocations.find? id).map fun r =>
        if r ∈ pre then moved r (staleTarget r) now hnow else r) ⟨rfl, fun id => ?_⟩ ?_ hloop
    · refine ⟨hinv.1, now, hnow, fun id => ?_, fun row => ?_⟩
      · rw [hinv.2 id]
        rcases hr : c.invocations.find? id with _ | r
        · rfl
        · simp [mem_staleInvocations, Table.mem_of_find? hr]
      · simp only [List.mem_map, mem_staleInvocations, and_assoc, eq_comm]
    · simp
    · rintro pre row post t t' hrows ⟨hruns, hfind⟩ hstep
      rw [reconcileInvocation, yields_execute] at hstep
      obtain rfl := hstep
      refine ⟨hruns, fun id => ?_⟩
      have hrow : row ∈ staleInvocations c.invocations.rows olderThan := by
        rw [hrows]
        simp
      obtain ⟨hmem, hdisp, -⟩ := mem_staleInvocations.mp hrow
      have hnodup : (staleInvocations c.invocations.rows olderThan).Nodup := by
        refine ((List.perm_insertionSort _ _).nodup_iff).mpr ?_
        exact (List.Nodup.of_map _ c.invocations.nodup).filter _
      have hfresh : row ∉ pre := by
        rw [hrows] at hnodup
        exact fun h => (List.nodup_append.mp hnodup).2.2 _ h _ (List.mem_cons_self ..) rfl
      rw [Table.find?_update, hfind id]
      rcases hr : c.invocations.find? id with _ | r
      · rfl
      · simp only [Option.map_some, List.mem_append, List.mem_singleton, Option.some.injEq]
        by_cases heq : r = row
        · subst heq
          simp [hfresh, hdisp]
        · have hid : r.id ≠ row.id := fun h =>
            heq (c.invocations.eq_of_key_eq (Table.mem_of_find? hr) hmem h)
          by_cases hpre : r ∈ pre <;> simp [hpre, heq, hid, moved]
  · exact absurd h not_yields_raise

end Ledger

/-! ### Invocations as machines -/

open Ledger in
/-- What an operation may do to an invocation that is there. -/
inductive LedgerOp.Moves : LedgerOp → ToolInvocation → ToolInvocation → Prop
  | stay (op : LedgerOp) (row : ToolInvocation) : Moves op row row
  | dispatch {row : ToolInvocation} {now : Datetime} (hnow : now.Aware)
      (hs : row.status = .prepared) :
      Moves (.markDispatched row.id) row (recorded row .dispatched .null none now hnow)
  | complete {row : ToolInvocation} {now : Datetime} (hnow : now.Aware) (result : Json)
      (hs : row.status ∈ [.prepared, .dispatched]) :
      Moves (.complete row.id result) row (recorded row .succeeded result none now hnow)
  | fail {row : ToolInvocation} {now : Datetime} (hnow : now.Aware) (error : String)
      (hs : row.status ∈ [.prepared, .dispatched]) :
      Moves (.fail row.id error) row (recorded row .failed .null (some error) now hnow)
  | reconcile {row : ToolInvocation} {now : Datetime} (hnow : now.Aware)
      {olderThan : Datetime} (hs : Stale olderThan row) :
      Moves (.reconcileStale olderThan) row (moved row (staleTarget row) now hnow)

/-- What an operation leaves of an invocation. -/
theorem LedgerOp.Moves.kept {op : LedgerOp} {row row' : ToolInvocation} (h : op.Moves row row') :
    row'.id = row.id ∧ row'.runId = row.runId ∧ row'.toolName = row.toolName ∧
    row'.argumentsDigest = row.argumentsDigest ∧ row'.effectClass = row.effectClass ∧
    row'.idempotencyKey = row.idempotencyKey := by
  cases h <;> exact ⟨rfl, rfl, rfl, rfl, rfl, rfl⟩

/-- A succeeded, failed or ambiguous invocation is moved by no operation. -/
theorem LedgerOp.Moves.eq_of_settled {op : LedgerOp} {row row' : ToolInvocation}
    (h : op.Moves row row') (hs : row.status ∈ [.succeeded, .failed, .ambiguous]) :
    row' = row := by
  have hopen : ∀ s : InvocationStatus, s ∈ [.succeeded, .failed, .ambiguous] →
      s ∉ [InvocationStatus.prepared, .dispatched] := by
    intro s
    cases s <;> decide
  cases h with
  | stay => rfl
  | dispatch _ hs' =>
    rw [hs'] at hs
    exact absurd hs (by decide)
  | complete _ _ hs' | fail _ _ hs' => exact absurd hs' (hopen _ hs)
  | reconcile _ hs' =>
    rw [hs'.1] at hs
    exact absurd hs (by decide)

namespace Ledger

open Tx

variable {c c' : LedgerConnection}

/-- What an operation does to the tables when it returns. -/
structure Acts (op : LedgerOp) (c c' : LedgerConnection) : Prop where
  runs_eq : c'.runs = c.runs
  moves : ∀ id row, c.invocations.find? id = some row →
    ∃ row', c'.invocations.find? id = some row' ∧ op.Moves row row'
  makes : ∀ id row, c.invocations.find? id = none → c'.invocations.find? id = some row →
    ∃ runId toolName effectClass digest key nodeId sequence,
      op = .prepare runId toolName effectClass digest key nodeId sequence ∧
      New runId toolName effectClass digest key nodeId sequence row ∧
      underKey runId key c.invocations.rows = none

theorem acts_of_eq {op : LedgerOp} (hruns : c'.runs = c.runs)
    (h : c'.invocations = c.invocations) : Acts op c c' := by
  refine ⟨hruns, fun id row hrow => ⟨row, h ▸ hrow, .stay op row⟩, fun id row hnone hrow => ?_⟩
  rw [h, hnone] at hrow
  cases hrow

theorem acts_of_update {op : LedgerOp} {p : ToolInvocation → Prop} [DecidablePred p]
    {f : ToolInvocation → ToolInvocation} {hf : ∀ r, (f r).id = r.id}
    (hruns : c'.runs = c.runs) (h : c'.invocations = c.invocations.update p f hf)
    (hop : ∀ row ∈ c.invocations.rows, p row → op.Moves row (f row)) : Acts op c c' := by
  refine ⟨hruns, fun id row hrow => ?_, fun id row hnone hrow => ?_⟩
  · refine ⟨if p row then f row else row, by rw [h, Table.find?_update, hrow]; rfl, ?_⟩
    split_ifs with hp
    · exact hop row (Table.mem_of_find? hrow) hp
    · exact .stay op row
  · rw [h, Table.find?_update, hnone] at hrow
    cases hrow

/-- A transition acts on the one invocation it is about. -/
theorem acts_of_transition {op : LedgerOp} {invocationId : UUID}
    {expected : List InvocationStatus} {target : InvocationStatus} {result : Json}
    {error : Option String} {u : Unit}
    (h : (transition invocationId expected target result error).Yields c u c')
    (hop : ∀ (row : ToolInvocation) now hnow, row.id = invocationId → row.status ∈ expected →
      op.Moves row (recorded row target result error now hnow)) : Acts op c c' := by
  obtain ⟨hruns, row, now, hnow, hrow, hs, hupdate⟩ := transition_cases h
  refine acts_of_update hruns hupdate fun row' hrow' hid => ?_
  have heq : row' = row := c.invocations.eq_of_key_eq hrow' (Table.mem_of_find? hrow)
    (hid.trans (Table.key_of_find? hrow).symm)
  exact hop row' now hnow hid (heq ▸ hs)

theorem acts_of_yields {op : LedgerOp} {r : op.Result} (h : op.body.Yields c r c') :
    Acts op c c' := by
  cases op with
  | prepare runId toolName effectClass digest key nodeId sequence =>
    obtain ⟨hruns, ⟨-, -, -, hsame⟩ | ⟨hnone, hnew, hins⟩⟩ := prepare_cases h
    · exact acts_of_eq hruns hsame
    · refine ⟨hruns, fun id row hrow => ⟨row, ?_, .stay _ row⟩, fun id row hfree hrow => ?_⟩
      · rw [Table.find?_insert? hins, if_neg, hrow]
        rintro rfl
        rw [(Table.insert?_eq_some_iff.mp hins).1] at hrow
        cases hrow
      · rw [Table.find?_insert? hins] at hrow
        split_ifs at hrow
        · cases hrow
          exact ⟨_, _, _, _, _, _, _, rfl, hnew, hnone⟩
        · rw [hfree] at hrow
          cases hrow
  | markDispatched invocationId =>
    refine acts_of_transition h fun row now hnow hid hs => ?_
    subst hid
    exact .dispatch hnow (by simpa using hs)
  | complete invocationId result =>
    refine acts_of_transition h fun row now hnow hid hs => ?_
    subst hid
    exact .complete hnow result hs
  | fail invocationId error =>
    refine acts_of_transition h fun row now hnow hid hs => ?_
    subst hid
    exact .fail hnow error hs
  | get invocationId =>
    obtain ⟨-, rfl⟩ := yields_get.mp h
    exact acts_of_eq rfl rfl
  | reconcileStale olderThan =>
    obtain ⟨hruns, now, hnow, hfind, -⟩ := reconcileStale_cases h
    refine ⟨hruns, fun id row hrow => ?_, fun id row hnone hrow => ?_⟩
    · refine ⟨if Stale olderThan row then moved row (staleTarget row) now hnow else row,
        by rw [hfind, hrow]; rfl, ?_⟩
      split_ifs with hs
      · exact .reconcile hnow hs
      · exact .stay _ row
    · rw [hfind, hnone] at hrow
      cases hrow
  | watermark runId =>
    obtain ⟨-, rfl⟩ := yields_query.mp h
    exact acts_of_eq rfl rfl

/-! ### Transactions of the ledger -/

/-- An operation as a transaction: its result and the invocations it leaves. -/
def perform (op : LedgerOp) (clock : ℕ → ClockReading) (uuid : UUID) (runs : Table RunRow.id)
    (invocations : Table ToolInvocation.id) :
    Except LedgerError op.Result × Table ToolInvocation.id :=
  let out := op.body.atomically ⟨runs, invocations, clock, uuid⟩
  (out.1, out.2.invocations)

variable {op : LedgerOp} {clock : ℕ → ClockReading} {uuid : UUID} {runs : Table RunRow.id}
  {invocations : Table ToolInvocation.id}

theorem perform_of_ok {r : op.Result} (h : (perform op clock uuid runs invocations).1 = .ok r) :
    ∃ c', op.body.Yields ⟨runs, invocations, clock, uuid⟩ r c' ∧
      c'.invocations = (perform op clock uuid runs invocations).2 :=
  ⟨_, yields_atomically.mp (Prod.ext h rfl), rfl⟩

/-- A transaction that raises leaves the invocations as they were. -/
theorem perform_of_error {e : LedgerError}
    (h : (perform op clock uuid runs invocations).1 = .error e) :
    (perform op clock uuid runs invocations).2 = invocations := by
  have hraise : op.body.Raises ⟨runs, invocations, clock, uuid⟩ e := raises_atomically.mp h
  exact congrArg LedgerConnection.invocations (atomically_snd_of_raises hraise)

theorem perform_of_yields {r : op.Result} {c' : LedgerConnection}
    (h : op.body.Yields ⟨runs, invocations, clock, uuid⟩ r c') :
    perform op clock uuid runs invocations = (.ok r, c'.invocations) := by
  rw [perform, yields_atomically.mpr h]

theorem perform_of_raises {e : LedgerError}
    (h : op.body.Raises ⟨runs, invocations, clock, uuid⟩ e) :
    perform op clock uuid runs invocations = (.error e, invocations) := by
  have herror := raises_atomically.mpr h
  rw [perform, atomically_snd_of_raises h]
  exact Prod.ext herror rfl

/-- An invocation that is there is moved by an operation, whether it returns or raises. -/
theorem exists_moves_perform (op : LedgerOp) (clock : ℕ → ClockReading) (uuid : UUID)
    (runs : Table RunRow.id) {id : UUID} {row : ToolInvocation}
    (hrow : invocations.find? id = some row) :
    ∃ row', (perform op clock uuid runs invocations).2.find? id = some row' ∧
      op.Moves row row' := by
  rcases h : (perform op clock uuid runs invocations).1 with e | r
  · exact ⟨row, by rwa [perform_of_error h], .stay op row⟩
  · obtain ⟨c', hy, hc'⟩ := perform_of_ok h
    rw [← hc']
    exact (acts_of_yields hy).moves id row hrow

/-- Only a preparation makes an invocation. -/
theorem exists_prepare_of_new {op : LedgerOp} {clock : ℕ → ClockReading} {uuid : UUID}
    {runs : Table RunRow.id} {id : UUID} {row : ToolInvocation}
    (hnone : invocations.find? id = none)
    (hrow : (perform op clock uuid runs invocations).2.find? id = some row) :
    ∃ runId toolName effectClass digest key nodeId sequence,
      op = .prepare runId toolName effectClass digest key nodeId sequence ∧
      New runId toolName effectClass digest key nodeId sequence row := by
  rcases h : (perform op clock uuid runs invocations).1 with e | r
  · rw [perform_of_error h, hnone] at hrow
    cases hrow
  · obtain ⟨c', hy, hc'⟩ := perform_of_ok h
    rw [← hc'] at hrow
    obtain ⟨runId, toolName, effectClass, digest, key, nodeId, sequence, hop, hnew, -⟩ :=
      (acts_of_yields hy).makes id row hnone hrow
    exact ⟨runId, toolName, effectClass, digest, key, nodeId, sequence, hop, hnew⟩

end Ledger

end OpenRath
