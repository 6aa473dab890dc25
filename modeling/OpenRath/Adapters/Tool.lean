import OpenRath.Runtime.World

/-!
# Governed calls of tools

`ToolExecutor.execute` (`src/rath/adapters/tool.py`) as a process. What comes before the effect
ledger, the checks of the arguments, of the approval and of the policy, either refuses the call or
leaves a limit on the size of the output; the policy engine and the approval validator are supplied
by the application, and the whole is a parameter here. So are the size of the encoding of a result
and the artifact store. A handler raises or returns a JSON value.

## Main definitions

* `ToolExecutor`, `ToolExecutor.execute`.
-/

namespace OpenRath

/-- The services of a tool executor. -/
structure ToolExecutor where
  /-- The checks before the ledger; the limit on the output. -/
  admission : ToolCall → Except Exn ℕ
  /-- Whether there is an effect ledger. -/
  effectLedger : Bool
  /-- `arguments_digest`. -/
  argumentsDigest : JsonObject → String
  texts : Texts
  /-- The text of an exception. -/
  text : Exn → String
  /-- The length of the encoding of a result. -/
  encodedLength : Json → ℕ
  /-- The artifact store: the reference to a stored result. -/
  artifactStore : Option (Json → Except Exn Json)

namespace ToolExecutor

open Process

variable (x : ToolExecutor) (call : ToolCall)

/-- `ledger.complete`, if there is an invocation. -/
def complete (invocation : Option ToolInvocation) (result : Json) : Process Unit :=
  match invocation with
  | none => pure ()
  | some row => do
    ledger (.complete row.id result)
    let _ ← ledger (.get row.id)

/-- `ledger.fail`, if there is an invocation. -/
def fail (invocation : Option ToolInvocation) (error : String) : Process Unit :=
  match invocation with
  | none => pure ()
  | some row => do
    ledger (.fail row.id error)
    let _ ← ledger (.get row.id)

/-- Whether an exception of the handler is recorded as a failure: of a call that may have taken
effect it is not, nor is a timeout. -/
def recordsFailure (e : Exn) : Bool :=
  call.spec.effects ≠ .nonIdempotent ∧ e.isTimeout = false

/-- The part of `execute` after the dispatch. -/
def run (limit : ℕ) (invocation : Option ToolInvocation) : Process Json := do
  match ← startTool call (invocation.map ToolInvocation.id) with
  | .error e =>
    if recordsFailure call e then fail invocation s!"{e.typeName}: {x.text e}"
    .throw e
  | .ok result =>
    match call.spec.outputSchema with
    | none => pure ()
    | some schema => .ofExcept ((validateJson x.texts false result schema "$").mapError .schema)
    if limit < x.encodedLength result then
      match x.artifactStore with
      | some put =>
        let reference ← .ofExcept (put result)
        complete invocation reference
        pure reference
      | none =>
        fail invocation s!"tool output exceeded {limit} bytes"
        .throw (.other "ToolOutputTooLarge"
          s!"tool output is {x.encodedLength result} bytes; maximum is {limit}")
    else
      complete invocation result
      pure result

/-- `execute`. -/
def execute : Process Json := do
  let limit ← .ofExcept (x.admission call)
  if x.effectLedger then
    match call.runId with
    | none => .throw (.other "ValueError" "run_id is required when effect ledger is enabled")
    | some runId =>
      let invocation : ToolInvocation ← ledger (.prepare runId call.spec.recordedName
        call.spec.effects (x.argumentsDigest call.arguments) call.idempotencyKey
        (some call.nodeId) call.checkpointSequence)
      if invocation.status = .succeeded then pure invocation.result
      else if invocation.status ∈ [.ambiguous, .dispatched] then
        .throw (.other "RuntimeError"
          "tool invocation outcome is ambiguous and requires reconciliation")
      else
        ledger (.markDispatched invocation.id)
        let dispatched : ToolInvocation ← ledger (.get invocation.id)
        x.run call limit (some dispatched)
  else x.run call limit none

end ToolExecutor

end OpenRath
