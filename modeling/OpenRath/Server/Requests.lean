import OpenRath.Adapters.Schema
import OpenRath.Library.JsonText
import OpenRath.Library.NumberText
import OpenRath.Runtime.Context

/-!
# Requests to the server

What the handlers of the server (`src/rath/server/app.py`) do with a request before they turn to a
store: the caller is authenticated and needs a grant for the action
(`src/rath/server/authorization.py`), and a run is shown to its own tenant and project only. A run
is shown as a JSON text, which there is none of if its state holds an infinity or a number that is
none, as states that were sent in or that a workflow has computed may do.

## Main definitions

* `pageLimit`: the limit of a page.
* `ErrorResponse`, `Failure`, `authenticate`, `runVisible`.
* `jsonResponse`, `runJson`: what a run is answered as.
-/

namespace OpenRath

/-! ### Pages -/

/-- `min(max(int(limit), 1), most)`. -/
def pageLimit (t : Decimals) (limit : String) (most : ℤ) : Option ℤ :=
  (t.int limit).map fun n => min (max n 1) most

theorem one_le_of_pageLimit {t : Decimals} {limit : String} {most n : ℤ} (hmost : 1 ≤ most)
    (h : pageLimit t limit most = some n) : 1 ≤ n := by
  obtain ⟨m, -, rfl⟩ := Option.map_eq_some_iff.mp h
  omega

/-! ### Answers -/

/-- The answer of `error_response`. -/
structure ErrorResponse where
  code : String
  message : String
  statusCode : ℕ
deriving DecidableEq

/-- How a handler ends that does not answer as it should. -/
inductive Failure
  | response (r : ErrorResponse)
  /-- An exception that leaves the handler. -/
  | raised (e : StoreError)
deriving DecidableEq

mutual

/-- The text of the `ValueError` of `json.dumps(value, allow_nan=False)`, about the first number of
the value that has no text. -/
def Json.dumpsError? : Json → Option String
  | .int n =>
    if (dumpsInt n).countP Char.isDigit ≤ 4300 then none
    else some "Exceeds the limit (4300 digits) for integer string conversion"
  | .float bits =>
    if (doubleValue bits).isSome then none
    else some "Out of range float values are not JSON compliant"
  | .arr items => itemsDumpsError? items
  | .obj fields => fieldsDumpsError? fields
  | .null | .bool _ | .str _ => none

/-- The first of the items that cannot be written. -/
def itemsDumpsError? : List Json → Option String
  | [] => none
  | v :: items => v.dumpsError?.or (itemsDumpsError? items)

/-- The first of the fields that cannot be written. -/
def fieldsDumpsError? : List (String × Json) → Option String
  | [] => none
  | (_, v) :: fields => v.dumpsError?.or (fieldsDumpsError? fields)

end

/-- `JSONResponse`, which writes its content and does not allow the exceptional values. -/
def jsonResponse (content : Json) : Except StoreError Unit :=
  match content.dumpsError? with
  | none => .ok ()
  | some message => .error (.valueError message)

/-- `_run_json`. -/
def runJson (run : Run) : Json :=
  .obj [("id", .str run.id.str), ("plan_id", .str run.planId.str),
    ("revision_id", .str run.revisionId.str), ("session_id", .str run.sessionId.str),
    ("tenant_id", .str run.tenantId), ("status", .str run.status.value), ("state", .obj run.state),
    ("next_nodes", .arr (run.nextNodes.map .str)), ("version", .int run.version),
    ("priority", .int run.priority),
    ("request_id", (JsonObject.get? run.context "request_id").getD .null),
    ("trace_id", (JsonObject.get? run.context "trace_id").getD .null),
    ("created_at", .str (String.ofList run.createdAt.isoformat)),
    ("updated_at", .str (String.ofList run.updatedAt.isoformat))]

/-! ### Authorization -/

/-- `allows`. -/
def allows (context : SecurityContext) (action : String) : Bool :=
  let scope := String.ofList (action.toList.takeWhile (· ≠ '.'))
  (∃ grant ∈ context.grants, grant.val = "*") ∨ (∃ grant ∈ context.grants, grant.val = action) ∨
    ∃ grant ∈ context.grants, grant.val = scope ++ ".*"

/-- `authenticate`, where `context` is what the provider of the application makes of the
request. -/
def authenticate (context : Option SecurityContext) (action : String) :
    Except Failure SecurityContext :=
  match context with
  | none => .error (.response ⟨"security.unauthenticated", "unauthenticated", 401⟩)
  | some context =>
    if allows context action then .ok context
    else .error (.response ⟨"security.forbidden", s!"missing grant: {action}", 403⟩)

theorem authenticate_eq_ok_iff {context : Option SecurityContext} {action : String}
    {c : SecurityContext} :
    authenticate context action = .ok c ↔ context = some c ∧ allows c action = true := by
  rcases context with _ | own
  · simp [authenticate]
  · by_cases hallows : allows own action = true
    · simp only [authenticate, hallows, if_true, Except.ok.injEq, Option.some.injEq]
      constructor
      · rintro rfl
        exact ⟨rfl, hallows⟩
      · exact And.left
    · simp only [authenticate, hallows, Bool.false_eq_true, if_false, reduceCtorEq,
        Option.some.injEq, false_iff, not_and]
      rintro rfl
      exact hallows

/-- `project_allows`. -/
def projectAllows (texts : Texts) (context : SecurityContext) : Option Json → Bool
  | none | some .null => true
  | some projectId => context.projectId.any fun own => texts.text projectId = own.val

/-- `run_visible`. -/
def runVisible (texts : Texts) (context : SecurityContext) (run : Run) : Bool :=
  run.tenantId = context.tenantId.val ∧
    projectAllows texts context (JsonObject.get? run.context "project_id") = true

/-- The answer for a run that is not there or not visible. -/
def runNotFound : Failure := .response ⟨"resource.not_found", "run not found", 404⟩

/-! ### A sample -/

namespace Sample

theorem strip_reader : strip "reader" = "reader" := by decide

theorem strip_readerTenant : strip "tenant" = "tenant" := by decide

theorem strip_runRead : strip "run.read" = "run.read" := by decide

theorem ne_empty_reader : "reader" ≠ "" := by decide

theorem ne_empty_readerTenant : "tenant" ≠ "" := by decide

theorem ne_empty_runRead : "run.read" ≠ "" := by decide

/-- A caller who may read the sample run. -/
def reader : SecurityContext where
  principal := ⟨⟨"reader", strip_reader, ne_empty_reader⟩, .user, []⟩
  tenantId := ⟨"tenant", strip_readerTenant, ne_empty_readerTenant⟩
  projectId := none
  grants := {⟨"run.read", strip_runRead, ne_empty_runRead⟩}
  attributes := []

end Sample

end OpenRath
