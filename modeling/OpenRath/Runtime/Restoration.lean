import OpenRath.Runtime.World

/-!
# The context in the column of a run

`_restore_context` (`src/rath/runtime/local.py`) builds the context of a run again from the column
that `submit` has written. The identity comes from the column and the tenant of the run; a run that
was stored without a context has the identity of a legacy worker. What Python makes of the texts of
identifiers and datetimes is a parameter (`Readings`), on which the identity does not depend.

## Main definitions

* `restoreSecurity`, `storedSecurity`: the identity that is stored with a run.
* `Readings`, `restoreContext`.

## Main results

* `storedSecurity_column`: the identity in the column of a context is the one of the context.
-/

namespace OpenRath

open Process

/-! ### Parts of a column -/

/-- The value of a key that has to be there. -/
def JsonObject.require (o : JsonObject) (key : String) : Except Exn Json :=
  match o.get? key with
  | some value => .ok value
  | none => .error (.store (.keyError key))

/-- A value as a frozen mapping, where `value or {}` stands. -/
def mappingOr : Option Json → Except Exn JsonObject
  | none => .ok []
  | some (.obj fields) => .ok fields
  | some value => if value.truthy then .error (.other "AssertionError" "") else .ok []

/-- The items that an iteration over a value goes through. -/
def iterate : Json → Except Exn (List Json)
  | .arr items => .ok items
  | .obj fields => .ok (fields.map fun f => .str f.1)
  | .str s => .ok (s.toList.map fun c => .str (String.singleton c))
  | value => .error (.other "TypeError" s!"'{value.typeName}' object is not iterable")

/-- `_required`, whose exception is raised. -/
def required (value fieldName : String) : Except Exn Required :=
  (Required.ofString value fieldName).mapError .store

@[simp] theorem required_val (r : Required) (fieldName : String) :
    required r.val fieldName = .ok r := by
  rw [required, r.ofString_val]
  rfl

section Restore

variable (texts : Texts)

/-- The principal in the column of a context. -/
def restorePrincipal (principal : JsonObject) : Except Exn Principal := do
  let id ← principal.require "id"
  let kind ← principal.require "kind"
  let kind ← match PrincipalKind.ofValue? (texts.text kind) with
    | some kind => .ok kind
    | none => .error (.store (.valueError
      s!"{texts.repr (.str (texts.text kind))} is not a valid PrincipalKind"))
  let id ← required (texts.text id) "principal.id"
  let claims ← mappingOr (principal.get? "claims")
  .ok ⟨id, kind, claims⟩

/-- The project in the column of a context. -/
def restoreProject : Option Json → Except Exn (Option Required)
  | none | some .null => .ok none
  | some value => (required (texts.text value) "project_id").map some

/-- The identity in the column of a context, for a run of a tenant. -/
def restoreSecurity (raw : JsonObject) (tenantId : String) : Except Exn SecurityContext := do
  let principal ← match ← raw.require "principal" with
    | .obj principal => restorePrincipal texts principal
    | _ => .error (.other "AssertionError" "")
  let grants ← iterate ((raw.get? "grants").getD (.arr []))
  let tenantId ← required tenantId "tenant_id"
  let projectId ← restoreProject texts (raw.get? "project_id")
  let grants ← grants.mapM fun item => required (texts.text item) "grant"
  let attributes ← mappingOr (raw.get? "attributes")
  .ok ⟨principal, tenantId, projectId, grants.toFinset, attributes⟩

/-- The identity of a run that was stored without a context. -/
def legacySecurity (tenantId : String) : Except Exn SecurityContext := do
  let id ← required "legacy-runtime-worker" "principal.id"
  let tenantId ← required tenantId "tenant_id"
  .ok ⟨⟨id, .system, [("context", .str "legacy-run")]⟩, tenantId, none, ∅, []⟩

/-- The identity that is stored with a run. -/
def storedSecurity (raw : JsonObject) (tenantId : String) : Except Exn SecurityContext :=
  if raw = [] then legacySecurity tenantId else restoreSecurity texts raw tenantId

end Restore

/-- The grants in a column are read as they were written. -/
theorem mapM_required (texts : Texts) (grants : List Required) :
    ((grants.map fun grant => Json.str grant.val).mapM fun item =>
      required (texts.text item) "grant") = .ok grants := by
  induction grants with
  | nil => rfl
  | cons grant grants ih =>
    rw [List.map_cons, List.mapM_cons, ih, Texts.text_str, required_val]
    rfl

/-- The identity in the column of a context is the one of the context. -/
theorem storedSecurity_column (texts : Texts) (context : RunContext) :
    storedSecurity texts context.column context.security.tenantId.val = .ok context.security := by
  have hprincipal : restorePrincipal texts [("claims", .obj context.security.principal.claims),
      ("id", .str context.security.principal.id.val),
      ("kind", .str context.security.principal.kind.value)] = .ok context.security.principal := by
    simp [restorePrincipal, JsonObject.require, JsonObject.get?, mappingOr, bind, Except.bind]
  have hproject : restoreProject texts (some (.ofText? (context.security.projectId.map
      Required.val))) = .ok context.security.projectId := by
    rcases context.security.projectId with _ | project
    · rfl
    · simp [restoreProject, Json.ofText?, Except.map]
  rw [storedSecurity, if_neg (by simp [RunContext.column]), restoreSecurity]
  simp [RunContext.column, JsonObject.require, JsonObject.get?, bind, Except.bind, hprincipal,
    hproject, iterate, mapM_required, mappingOr, -List.mapM_map]

/-! ### The other parts -/

/-- What Python reads in a text. -/
structure Readings where
  /-- `UUID(text)`. -/
  uuid : String → Except Exn UUID
  /-- `datetime.fromisoformat(text)`. -/
  datetime : String → Except Exn Datetime
  lower : String → String
  /-- Whether `int(text, 16)` returns. -/
  isHex : String → Bool

/-- `_validate_hex`. -/
def Readings.validateHex (readings : Readings) (value : String) (length : ℕ)
    (fieldName : String) : Except Exn String :=
  let normalized := readings.lower value
  if normalized.length ≠ length then
    .error (.store (.valueError s!"{fieldName} must contain {length} hexadecimal characters"))
  else if readings.isHex normalized then .ok normalized
  else .error (.store (.valueError s!"{fieldName} must be hexadecimal"))

/-- `secrets.token_hex`, of as many random bytes as a UUID has, or fewer. -/
def tokenHex (bytes : ℕ) : Process String := do
  let random ← uuid4
  pure (String.ofList (UUID.hexDigits (2 * bytes) random.int))

section Restore

variable (texts : Texts) (readings : Readings)

/-- The parts of the context in the column of a run that do not belong to the identity. -/
def restoreRequest (raw : JsonObject) :
    Except Exn (UUID × TraceContext × { d : Option Datetime // ∀ e ∈ d, e.Aware }) := do
  let requestId ← raw.require "request_id"
  let requestId ← readings.uuid (texts.text requestId)
  let traceId ← raw.require "trace_id"
  let spanId ← raw.require "span_id"
  let traceId ← readings.validateHex (texts.text traceId) 32 "trace_id"
  let spanId ← readings.validateHex (texts.text spanId) 16 "span_id"
  let traceContext := ⟨traceId, spanId, ((raw.get? "sampled").getD (.bool true)).truthy⟩
  let deadline := (raw.get? "deadline").getD .null
  if deadline.truthy then
    let deadline ← readings.datetime (texts.text deadline)
    if aware : deadline.Aware then
      .ok (requestId, traceContext, ⟨some deadline, fun _ h => Option.some.inj h ▸ aware⟩)
    else .error (.store (.valueError "deadline must be timezone-aware"))
  else .ok (requestId, traceContext, ⟨none, Datetime.aware_none⟩)

/-- `_restore_context`. -/
def restoreContext (run : Run) : Process RunContext := do
  let security ← .ofExcept (storedSecurity texts run.context run.tenantId)
  if run.context = [] then
    let requestId ← uuid4
    let traceId ← tokenHex 16
    let spanId ← tokenHex 8
    pure ⟨security, run.revisionId, requestId, ⟨traceId, spanId, true⟩, none, by simp⟩
  else
    let (requestId, traceContext, deadline) ← .ofExcept (restoreRequest texts readings run.context)
    pure ⟨security, run.revisionId, requestId, traceContext, deadline.val, deadline.property⟩

end Restore

end OpenRath
