import OpenRath.Adapters.Schema
import OpenRath.Library.Process
import OpenRath.Runtime.Context
import OpenRath.Runtime.Effects
import OpenRath.Runtime.Sqlite.Histories

/-!
# The system that the workers share

The workers, the sweeps and the server share the tables of the runs, the effect ledger and the
outside world, in which the handlers of tools act. A process issues commands on this system one at
a time; an operation of the run store or of the ledger is one command, as each is one transaction.
The logs of the started tool handlers and of the contexts that handlers of steps were given are not
stored anywhere; they are what laws about effects and identities speak of. What a command reads
from outside is the input that comes with it.

Every runtime object has a cache of contexts in the memory of its process. A process that was
restarted has a new runtime, whose cache is empty.

## Main definitions

* `Exn`: the exceptions.
* `ToolSpec`, `ToolCall`.
* `Contexts`, `ContextCmd`: the caches of contexts.
* `World`, `Cmd`, `Input`, `World.exec`; `Process`.

## Main results

* `World.exists_step_exec`: a command acts on every run by a step of the machine.
* `World.exists_moves_exec`: what a command does to an invocation.
-/

namespace OpenRath

/-! ### Exceptions -/

/-- An exception. -/
inductive Exn
  | store (e : StoreError)
  | ledger (e : LedgerError)
  | schema (e : SchemaError)
  /-- `StepSuspended`. -/
  | suspended (message : String)
  /-- `DeadlineExceededError`. -/
  | deadlineExceeded
  /-- `TimeoutError`, of which the timeouts of the standard library are aliases. -/
  | timeout (message : String)
  /-- An exception of another class, by the name of the class and its text. -/
  | other (type message : String)
deriving DecidableEq

/-- The name of the class of an exception. -/
def Exn.typeName : Exn → String
  | store (.conflict _ _) | ledger (.conflict _) => "ConflictError"
  | store (.invalidTransition _ _) => "InvalidRunTransition"
  | store (.keyError _) | ledger (.keyError _) => "KeyError"
  | store (.valueError _) | ledger (.valueError _) => "ValueError"
  | store .overflowError => "OverflowError"
  | store .integrityError | ledger .integrityError => "IntegrityError"
  | schema (.invalid _) => "SchemaValidationError"
  | schema (.typeError _) => "TypeError"
  | suspended _ => "StepSuspended"
  | deadlineExceeded => "DeadlineExceededError"
  | timeout _ => "TimeoutError"
  | other type _ => type

/-- The instances of `ConflictError`. -/
def Exn.isConflict : Exn → Bool
  | store e => e.isConflict
  | ledger (.conflict _) => true
  | _ => false

/-- The instances of `TimeoutError`. -/
def Exn.isTimeout : Exn → Bool
  | timeout _ => true
  | _ => false

/-! ### Calls of tools -/

/-- A tool. -/
structure ToolSpec where
  name : String
  version : String
  effects : EffectClass
  outputSchema : Option JsonObject

/-- The name under which a tool is recorded. -/
def ToolSpec.recordedName (spec : ToolSpec) : String := s!"{spec.name}@{spec.version}"

/-- A call of a tool: the arguments of `ToolExecutor.execute` and the fields of its adapter
context, with the idempotency key that is in effect. -/
structure ToolCall where
  spec : ToolSpec
  arguments : JsonObject
  runId : Option UUID
  nodeId : String
  checkpointSequence : Option ℤ
  idempotencyKey : Option String

/-! ### Contexts in memory -/

/-- The contexts that the runtimes keep in memory. -/
structure Contexts where
  /-- The cache `_contexts` of a runtime, by the number of the runtime. -/
  cached : ℕ → UUID → Option RunContext
  /-- The contexts that the handlers of steps of a run were called with. -/
  given : List (UUID × RunContext)

/-- The contexts before any run. -/
def Contexts.empty : Contexts := ⟨fun _ _ => none, []⟩

/-- What a runtime does about contexts. -/
inductive ContextCmd
  /-- `_contexts.get`. -/
  | get (runtime : ℕ) (runId : UUID)
  /-- An assignment to `_contexts`. -/
  | set (runtime : ℕ) (runId : UUID) (context : RunContext)
  /-- `_contexts.pop`. -/
  | pop (runtime : ℕ) (runId : UUID)
  /-- The handler of a step of the run is going to be called with the context. -/
  | give (runId : UUID) (context : RunContext)

/-- What a runtime learns from it. -/
def ContextCmd.Answer : ContextCmd → Type
  | get _ _ => Option RunContext
  | set _ _ _ | pop _ _ | give _ _ => Unit

/-- The contexts with the one of a run in the cache of a runtime replaced. -/
def Contexts.put (x : Contexts) (runtime : ℕ) (runId : UUID) (context : Option RunContext) :
    Contexts :=
  { x with cached := fun r i => if r = runtime ∧ i = runId then context else x.cached r i }

/-- What happens to the contexts. -/
def ContextCmd.exec : (c : ContextCmd) → Contexts → c.Answer × Contexts
  | .get runtime runId, x => (x.cached runtime runId, x)
  | .set runtime runId context, x => ((), x.put runtime runId (some context))
  | .pop runtime runId, x => ((), x.put runtime runId none)
  | .give runId context, x => ((), { x with given := x.given ++ [(runId, context)] })

/-! ### The system -/

/-- The tables, the calls whose handlers were started, with their invocations, and the contexts. -/
structure World where
  db : Database
  invocations : Table ToolInvocation.id
  started : List (ToolCall × Option UUID)
  contexts : Contexts

/-- The commands. -/
inductive Cmd
  /-- An operation of the run store. -/
  | store (op : Op)
  /-- An operation of the effect ledger. -/
  | ledger (op : LedgerOp)
  /-- `datetime.now(timezone.utc)`. -/
  | now
  | uuid4
  /-- Whether a step has taken longer than its timeout. -/
  | elapsed
  /-- A call of the handler of a tool. -/
  | startTool (call : ToolCall) (invocationId : Option UUID)
  /-- Anything else that a handler of a step finds outside. -/
  | observe
  /-- A command on the contexts in memory. -/
  | context (c : ContextCmd)

/-- What a command answers. -/
def Cmd.Answer : Cmd → Type
  | store op => Except StoreError op.Result
  | ledger op => Except LedgerError op.Result
  | now => Datetime
  | uuid4 => UUID
  | elapsed => Bool
  | startTool _ _ => Except Exn Json
  | observe => Json
  | context c => c.Answer

/-- What a command finds outside. -/
structure Input where
  clock : ℕ → ClockReading
  uuid : UUID
  elapsed : Bool
  outcome : Except Exn Json
  observed : Json

namespace World

variable (sha : Sha256)

/-- A command of a process. -/
def exec : (c : Cmd) → Input → World → c.Answer × World
  | .store op, i, w =>
    let out := SQLite.perform sha ⟨op, i.clock⟩ w.db
    (out.1, { w with db := out.2 })
  | .ledger op, i, w =>
    let out := Ledger.perform op i.clock i.uuid w.db.runs w.invocations
    (out.1, { w with invocations := out.2 })
  | .now, i, w => (.utc (i.clock 0), w)
  | .uuid4, i, w => (i.uuid, w)
  | .elapsed, i, w => (i.elapsed, w)
  | .startTool call invocationId, i, w =>
    (i.outcome, { w with started := w.started ++ [(call, invocationId)] })
  | .observe, i, w => (i.observed, w)
  | .context c, _, w => ((c.exec w.contexts).1, { w with contexts := (c.exec w.contexts).2 })

end World

/-- A process that works on the system. -/
abbrev Process (α : Type) : Type := Proc Cmd Cmd.Answer Exn α

namespace Process

/-- An operation of the run store, whose errors are raised. -/
def store (op : Op) : Process op.Result :=
  .call (.store op) fun r => .ofExcept (Except.mapError .store r)

/-- An operation of the effect ledger, whose errors are raised. -/
def ledger (op : LedgerOp) : Process op.Result :=
  .call (.ledger op) fun r => .ofExcept (Except.mapError .ledger r)

/-- `datetime.now(timezone.utc)`. -/
def now : Process Datetime := .call .now .ret

/-- `uuid4()`. -/
def uuid4 : Process UUID := .call .uuid4 .ret

/-- Whether a step has taken longer than its timeout. -/
def elapsed : Process Bool := .call .elapsed .ret

/-- A call of the handler of a tool. -/
def startTool (call : ToolCall) (invocationId : Option UUID) : Process (Except Exn Json) :=
  .call (.startTool call invocationId) .ret

/-- `get_run`. -/
def getRun (runId : UUID) : Process Run := store (.getRun runId)

/-- A command on the contexts in memory. -/
def context (c : ContextCmd) : Process c.Answer := .call (.context c) .ret

/-- A check made by a function of the stores. -/
def check {α : Type} (x : Except StoreError α) : Process α := .ofExcept (x.mapError .store)

end Process

/-! ### What a command does -/

namespace World

variable (sha : Sha256)

theorem exec_store (op : Op) (i : Input) (w : World) :
    (exec sha (.store op) i w).2 = { w with db := (SQLite.perform sha ⟨op, i.clock⟩ w.db).2 } :=
  rfl

/-- An operation of the run store that returns is one whose body returns. -/
theorem exists_yields_of_ok {op : Op} {i : Input} {w : World} {r : op.Result}
    (h : (SQLite.perform sha ⟨op, i.clock⟩ w.db).1 = .ok r) :
    ∃ c', (SQLite.body sha op).Yields ⟨w.db, i.clock⟩ r c' ∧
      (exec sha (.store op) i w).2.db = c'.db := by
  rcases SQLite.perform_cases sha ⟨op, i.clock⟩ w.db with ⟨e, he, -⟩ | ⟨r', c', hr, hdb, hy⟩
  · cases h.symm.trans he
  · cases h.symm.trans hr
    exact ⟨c', hy, hdb⟩

/-- A command acts on every run by a step of the machine. -/
theorem exists_step_exec (c : Cmd) (i : Input) (w : World) (k : UUID) :
    ∃ a, (w.db.view k).Step a ((exec sha c i w).2.db.view k) := by
  cases c with
  | store op =>
    obtain ⟨a, -, h⟩ := SQLite.exists_step_perform sha ⟨op, i.clock⟩ w.db k
    exact ⟨a, h⟩
  | ledger | now | uuid4 | elapsed | startTool | observe | context => exact ⟨.stay, .stay _⟩

/-- An invocation that is there is moved by a command of the ledger, and left alone by every other
one. -/
theorem exists_moves_exec (c : Cmd) (i : Input) {w : World} {id : UUID} {row : ToolInvocation}
    (hrow : w.invocations.find? id = some row) :
    ∃ row', (exec sha c i w).2.invocations.find? id = some row' ∧
      (row' = row ∨ ∃ op, c = .ledger op ∧ op.Moves row row') := by
  cases c with
  | ledger op =>
    obtain ⟨row', hrow', hmoves⟩ := Ledger.exists_moves_perform op i.clock i.uuid w.db.runs hrow
    exact ⟨row', hrow', Or.inr ⟨op, rfl, hmoves⟩⟩
  | store | now | uuid4 | elapsed | startTool | observe | context =>
    exact ⟨row, hrow, Or.inl rfl⟩

end World

/-! ### Safety of a command -/

namespace Process

variable {sha : Sha256} {I : World → Prop} {R : World → World → Prop} {E : Cmd → World → Prop}
  {w : World}

/-- An operation of the run store is safe if it is so whatever it answers. -/
theorem safe_store {op : Op} {Q : Except Exn op.Result → World → Prop}
    (h : ∀ w₁, R w w₁ → I w₁ → E (.store op) w₁ → ∀ i,
      I (World.exec sha (.store op) i w₁).2 ∧ R w₁ (World.exec sha (.store op) i w₁).2 ∧
      Q ((SQLite.perform sha ⟨op, i.clock⟩ w₁.db).1.mapError .store)
        (World.exec sha (.store op) i w₁).2) :
    (store op).Safe (World.exec sha) I R E Q w := by
  refine Proc.safe_call fun w₁ hR hI hE i => ?_
  obtain ⟨h₁, h₂, h₃⟩ := h w₁ hR hI hE i
  exact ⟨h₁, h₂, Proc.safe_ofExcept h₃⟩

/-- An operation of the effect ledger is safe if it is so whatever it answers. -/
theorem safe_ledger {op : LedgerOp} {Q : Except Exn op.Result → World → Prop}
    (h : ∀ w₁, R w w₁ → I w₁ → E (.ledger op) w₁ → ∀ i,
      I (World.exec sha (.ledger op) i w₁).2 ∧ R w₁ (World.exec sha (.ledger op) i w₁).2 ∧
      Q ((Ledger.perform op i.clock i.uuid w₁.db.runs w₁.invocations).1.mapError .ledger)
        (World.exec sha (.ledger op) i w₁).2) :
    (ledger op).Safe (World.exec sha) I R E Q w := by
  refine Proc.safe_call fun w₁ hR hI hE i => ?_
  obtain ⟨h₁, h₂, h₃⟩ := h w₁ hR hI hE i
  exact ⟨h₁, h₂, Proc.safe_ofExcept h₃⟩

end Process

end OpenRath
