import Mathlib.Data.Finset.Sort
import Mathlib.Data.String.Basic
import OpenRath.Runtime.Models

/-!
# The context of a run

Who a run is executed for: the principal, the tenant and the project, the grants and attributes
(`src/rath/security/context.py`), with the identifiers of the request and the deadline
(`src/rath/context.py`). The texts of an identity are stripped and not empty, which is a field of
the type of such texts.

`LocalRuntime.submit` writes a context into a column of the run. The tenant and the revision are
columns of their own.

## Main definitions

* `Required`: texts that `_required` has accepted.
* `Principal`, `SecurityContext`, `TraceContext`, `RunContext`.
* `RunContext.column`: the column `context` of a run.
-/

namespace OpenRath

/-! ### Required texts -/

/-- A text that `_required` has accepted: it is stripped and not empty. -/
@[ext]
structure Required where
  val : String
  strip_val : strip val = val
  val_ne_empty : val ≠ ""
deriving DecidableEq

namespace Required

instance : LinearOrder Required := LinearOrder.lift' val fun _ _ h => Required.ext h

/-- `_required`. -/
def ofString (value fieldName : String) : Except StoreError Required :=
  if h : strip value = "" then .error (.valueError s!"{fieldName} must not be empty")
  else .ok ⟨strip value, strip_strip value, h⟩

/-- A text that was accepted is accepted as it is. -/
theorem ofString_val (r : Required) (fieldName : String) : ofString r.val fieldName = .ok r := by
  have hne : strip r.val ≠ "" := by
    rw [r.strip_val]
    exact r.val_ne_empty
  rw [ofString, dif_neg hne]
  exact congrArg Except.ok (Required.ext r.strip_val)

theorem val_not_blank (r : Required) : isBlank r.val = false := by
  refine Bool.eq_false_iff.mpr fun hblank => r.val_ne_empty ?_
  rw [← r.strip_val]
  exact strip_eq_empty_iff.mpr hblank

end Required

/-! ### Identities -/

/-- The kind of a principal. -/
inductive PrincipalKind
  | user
  | service
  | system
deriving DecidableEq

namespace PrincipalKind

/-- The text a kind is stored as. -/
def value : PrincipalKind → String
  | user => "user"
  | service => "service"
  | system => "system"

/-- The kind that is stored as a text. -/
def ofValue? (text : String) : Option PrincipalKind :=
  [user, service, system].find? fun kind => kind.value = text

@[simp] theorem ofValue?_value (kind : PrincipalKind) : ofValue? kind.value = some kind := by
  cases kind <;> decide

end PrincipalKind

/-- An authenticated caller. -/
structure Principal where
  id : Required
  kind : PrincipalKind
  claims : JsonObject
deriving DecidableEq

/-- The identity and the boundary of a run. -/
structure SecurityContext where
  principal : Principal
  tenantId : Required
  projectId : Option Required
  grants : Finset Required
  attributes : JsonObject
deriving DecidableEq

/-! ### Contexts -/

/-- The identifiers of a trace. -/
structure TraceContext where
  traceId : String
  spanId : String
  sampled : Bool
deriving DecidableEq

/-- The context of a run. -/
structure RunContext where
  security : SecurityContext
  revisionId : UUID
  requestId : UUID
  traceContext : TraceContext
  deadline : Option Datetime
  deadline_aware : ∀ d ∈ deadline, d.Aware
deriving DecidableEq

/-- A text, or null. -/
def Json.ofText? : Option String → Json
  | none => .null
  | some text => .str text

namespace RunContext

/-- The context as `submit` writes it into the column of a run. -/
def column (context : RunContext) : JsonObject :=
  [("attributes", .obj context.security.attributes),
    ("deadline", .ofText? (context.deadline.map fun d => String.ofList d.isoformat)),
    ("grants", .arr ((context.security.grants.sort (· ≤ ·)).map fun grant => .str grant.val)),
    ("principal", .obj [("claims", .obj context.security.principal.claims),
      ("id", .str context.security.principal.id.val),
      ("kind", .str context.security.principal.kind.value)]),
    ("project_id", .ofText? (context.security.projectId.map Required.val)),
    ("request_id", .str context.requestId.str),
    ("sampled", .bool context.traceContext.sampled),
    ("span_id", .str context.traceContext.spanId),
    ("trace_id", .str context.traceContext.traceId)]

end RunContext

end OpenRath
