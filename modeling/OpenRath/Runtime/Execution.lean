import OpenRath.Adapters.Tool
import OpenRath.Definition.Plan

/-!
# Execution of a step

The handler of a node is a program of the application. What it does to the runtime is ask for a
decision (`StepContext.interrupt`) or call a tool; it finds other things outside, and it returns
or raises, leaving behind the state it was given, which it may have changed. Such a program is a
`Script`. An object that is not a JSON value is refused by the runtime; a script that returns one,
or leaves one in the state, says with which exception.

`PythonStepExecutor.execute` (`src/rath/runtime/execution.py`) makes the attempts of a step. Every
attempt is given the state as the one before has left it.

## Main definitions

* `HandlerCmd`, `StepEnd`, `Script`, `StepContext`.
* `Interrupt.create`, `requestInterrupt`: the interrupt handler of a step.
* `StepExecutor.execute`: the attempts of a step.
-/

namespace OpenRath

open Process

/-! ### Handlers -/

/-- What a handler of a step asks of the runtime. -/
inductive HandlerCmd
  | interrupt (kind : InterruptKind) (request : JsonObject) (timeoutSeconds : Option Seconds)
  | tool (call : ToolCall)
  | observe

/-- What the runtime answers a handler. -/
def HandlerCmd.Answer : HandlerCmd → Type
  | interrupt _ _ _ => Except Exn ApprovalDecision
  | tool _ => Except Exn Json
  | observe => Json

/-- How a handler ends, and the state it leaves. -/
inductive StepEnd
  | returns (value : Except Exn Json) (state : JsonObject)
  | raises (e : Exn) (state : JsonObject)

/-- The program of a handler. -/
abbrev Script : Type := Proc HandlerCmd HandlerCmd.Answer Empty StepEnd

/-- What a handler is told about its run; a router is told nothing. -/
structure StepContext where
  runId : UUID
  request : RunContext
  workerId : String
  fencingToken : ℕ

/-! ### Interrupts -/

/-- `Interrupt.create`, with the id it draws and the time it reads. -/
def Interrupt.create (id runId : UUID) (kind : InterruptKind) (request : JsonObject)
    (timeoutSeconds : Option Seconds) (createdAt : Datetime) : Except StoreError Interrupt := do
  let expiresAt ← match timeoutSeconds with
    | none => .ok none
    | some seconds => (SQLite.addSeconds createdAt seconds).map some
  if created : createdAt.Aware then
    if aware : ∀ e ∈ expiresAt, e.Aware then
      if later : ∀ e ∈ expiresAt, createdAt.instant < e.instant then
        .ok ⟨id, runId, kind, request, createdAt, expiresAt, none, created,
          fun e he => ⟨aware e he, later e he⟩, undecided_aware⟩
      else .error (.valueError "interrupt expires_at must be after created_at")
    else .error (.valueError "interrupt.expires_at must be timezone-aware")
  else .error (.valueError "interrupt.created_at must be timezone-aware")

/-- The interrupts of a run that were made by a node before the checkpoint with a number. -/
def Interrupt.Belongs (run : Run) (node : NodeSpec) (sequence : ℕ) (i : Interrupt) : Prop :=
  i.runId = run.id ∧ i.request.get? "_openrath_node_id" = some (.str node.id) ∧
    (i.request.get? "_openrath_checkpoint_sequence").bind Json.number? = some (sequence : ℚ)

instance (run : Run) (node : NodeSpec) (sequence : ℕ) :
    DecidablePred (Interrupt.Belongs run node sequence) :=
  fun _ => inferInstanceAs (Decidable (_ ∧ _))

/-- `request_interrupt` of `_execute_claim`. -/
def requestInterrupt (run : Run) (node : NodeSpec) (sequence : ℕ) (kind : InterruptKind)
    (request : JsonObject) (timeoutSeconds : Option Seconds) : Process ApprovalDecision := do
  let interrupts : List Interrupt ← store (.listInterrupts run.tenantId false)
  match interrupts.find? fun i => Interrupt.Belongs run node sequence i with
  | some existing =>
    match existing.decision with
    | none => .throw (.suspended "run is waiting for a decision")
    | some (decision, _) => pure decision
  | none =>
    .throwUnless (∀ s ∈ timeoutSeconds, s.nonpos = false)
      (.store (.valueError "interrupt timeout_seconds must be positive"))
    let createdAt ← Process.now
    let id ← uuid4
    let interrupt ← check (Interrupt.create id run.id kind
      ((request.set "_openrath_node_id" (.str node.id)).set "_openrath_checkpoint_sequence"
        (.int sequence)) timeoutSeconds createdAt)
    let _ ← store (.createInterrupt interrupt run.version)
    .throw (.suspended "run was suspended for a decision")

/-! ### Attempts -/

/-- What a step runs with. -/
structure StepExecutor where
  executor : ToolExecutor
  texts : Texts

namespace StepExecutor

variable (x : StepExecutor) (run : Run) (node : NodeSpec) (sequence : ℕ)

/-- The answer of the runtime to a handler; what it raises, it raises in the handler. -/
def answer : (c : HandlerCmd) → Process c.Answer
  | .interrupt kind request timeoutSeconds =>
    (requestInterrupt run node sequence kind request timeoutSeconds).attempt
  | .tool call => (x.executor.execute call).attempt
  | .observe => .call .observe .ret

/-- The exception of a step that has taken longer than its timeout. -/
def timeoutError : Exn :=
  .timeout (if node.isAsync then "" else s!"sync step {x.texts.repr (.str node.id)} exceeded " ++
    "timeout; the handler was allowed to stop before terminalization")

/-- One attempt: the returned value and the state that was left, or the exception and the state
that was left. -/
def attempt (script : Script) :
    Process (Except (Exn × JsonObject) (Except Exn Json × JsonObject)) := do
  match ← script.interpret (x.answer run node sequence) Empty.elim with
  | .raises e left => pure (.error (e, left))
  | .returns value left =>
    match node.timeoutSeconds with
    | none => pure (.ok (value, left))
    | some _ =>
      if ← elapsed then pure (.error (x.timeoutError node, left)) else pure (.ok (value, left))

/-- What is done about an exception of an attempt: a suspension is passed on, anything else is
logged. -/
def recordAttempt (number : ℕ) (e : Exn) : Process Unit := do
  match e with
  | .suspended message => .throw (.suspended message)
  | e =>
    let _ ← store (.appendRunEvent run.id "run.step.attempt.failed"
      [("attempt", .int number), ("error_type", .str e.typeName), ("node_id", .str node.id)])

/-- `PythonStepExecutor.execute`, from an attempt on, with the number of attempts that are left
after it. -/
def execute (handler : JsonObject → Script) :
    (left number : ℕ) → JsonObject → Process (Except Exn Json × JsonObject)
  | 0, number, state => do
    match ← x.attempt run node sequence (handler state) with
    | .ok result => pure result
    | .error (e, _) =>
      recordAttempt run node number e
      .throw e
  | left + 1, number, state => do
    match ← x.attempt run node sequence (handler state) with
    | .ok result => pure result
    | .error (e, state') =>
      recordAttempt run node number e
      execute handler left (number + 1) state'

end StepExecutor

end OpenRath
