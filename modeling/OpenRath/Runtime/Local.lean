import OpenRath.Runtime.Execution
import OpenRath.Runtime.Restoration

/-!
# The local runtime

`LocalRuntime.work_once` (`src/rath/runtime/local.py`) as a process: a run is claimed and executed
step by step, from the durable position to the end or to a number of steps. A node without
checkpoint moves the run in memory only. Whatever is raised meanwhile ends the claim, except for a
suspension and for a conflict in ending it.

The context of a run is the one in the cache of the runtime, or else it is restored from the
column of the run.

Telemetry and the structured log have no effect on the system and are left out. A worker whose
process is not scheduled any more has crashed; the number of iterations after which the model of
the loop goes no further is an argument.

## Main definitions

* `Registration`, `LocalRuntime`.
* `LocalRuntime.executeClaim`, `LocalRuntime.workOnce`, `heartbeat`.
-/

namespace OpenRath

open Process

/-- A workflow that was registered: its plan and the handlers of its nodes. -/
structure Registration where
  plan : ExecutionPlan
  handler : String → Option StepContext → JsonObject → Script

/-- `RunContext.ensure_active`. -/
def RunContext.ensureActive (context : RunContext) : Process Unit :=
  match context.deadline with
  | none => pure ()
  | some deadline => do
    let current ← Process.now
    .throwUnless (current.instant < deadline.instant) .deadlineExceeded

/-- The runtime of a worker. -/
structure LocalRuntime where
  /-- The number of the runtime among those of the system. -/
  number : ℕ
  /-- The registered workflows, by the id of their plan. -/
  registrations : UUID → Option Registration
  readings : Readings
  steps : StepExecutor
  /-- Whether there is an effect ledger. -/
  effectLedger : Bool
  /-- The text of an exception. -/
  text : Exn → String

namespace LocalRuntime

variable (rt : LocalRuntime)

/-! ### Contexts -/

/-- A context that was found in the cache, or else the one in the column of the run. -/
def cachedOr (run : Run) : Option RunContext → Process RunContext
  | some context => pure context
  | none => restoreContext rt.steps.texts rt.readings run

/-- The context that a claimed run is executed with: the one in the cache, or else the one in its
column. -/
def contextOf (run : Run) : Process RunContext := do
  let cached : Option RunContext ← Process.context (.get rt.number run.id)
  rt.cachedOr run cached

/-- The handler of a node, unless it is a router, is going to be called with a context; this is
recorded. -/
def giveContext (run : Run) (node : NodeSpec) (context : RunContext) : Process Unit :=
  if node.kind = .router then pure () else Process.context (.give run.id context)

/-- `_forget_context_if_terminal`. -/
def forgetContextIfTerminal (run : Run) : Process Unit :=
  if run.status.Terminal then Process.context (.pop rt.number run.id) else pure ()

/-! ### Steps -/

/-- Where a step leads: the next state and the next nodes. -/
def nextPosition (node : NodeSpec) (value : Json) (left : JsonObject) :
    Except Exn (JsonObject × List String) :=
  let id := rt.steps.texts.repr (.str node.id)
  match node.kind with
  | .router =>
    match value with
    | .str successor =>
      if successor ∈ node.successors then .ok (left, [successor])
      else .error (.other "ValueError"
        s!"router {id} returned invalid successor {rt.steps.texts.repr value}")
    | value => .error (.other "ValueError"
        s!"router {id} returned invalid successor {rt.steps.texts.repr value}")
  | .step | .opaqueCall => do
    let state ← match value with
      | .null => .ok left
      | .obj state => .ok state
      | _ => .error (.other "TypeError" s!"step {id} must return a mapping or None")
    if 1 < node.successors.length then
      .error (.other "ValueError" s!"step {id} has multiple successors; use @router")
    else .ok (state, node.successors)

/-- The check of the next state against the schema of the plan. -/
def validateState (plan : ExecutionPlan) (state : JsonObject) : Except Exn Unit :=
  if plan.stateSchema = [] then .ok ()
  else (validateJson rt.steps.texts true (.obj state) plan.stateSchema "$").mapError .schema

/-- `Checkpoint.create` and `commit_checkpoint` for the position a step led to. -/
def commit (claim : ClaimedRun) (plan : ExecutionPlan) (run : Run) (latest : Option Checkpoint)
    (state : JsonObject) (nextNodes : List String) : Process Run := do
  let effectWatermark ← if rt.effectLedger then ledger (.watermark run.id) else pure (0 : ℕ)
  let id ← uuid4
  let createdAt ← Process.now
  if aware : createdAt.Aware then
    store (.commitCheckpoint
      { id := id
        runId := run.id
        sequence := (latest.map Checkpoint.sequence).getD 0 + 1
        planHash := plan.definitionHash
        state := state
        nextNodes := nextNodes
        pendingInterrupts := []
        effectWatermark := effectWatermark
        createdAt := createdAt
        sequence_pos := Nat.le_add_left 1 _
        planHash_length := plan.definitionHash_length
        createdAt_aware := aware }
      claim.lease.holderWorkerId claim.lease.fencingToken run.version)
  else .throw (.store (.valueError "checkpoint.created_at must be timezone-aware"))

/-- One iteration of the loop of `_execute_claim`, after its checks: the node is executed, and the
run is moved durably or in memory. -/
def executeNode (claim : ClaimedRun) (registration : Registration) (context : RunContext)
    (run : Run) (nodeId : String) : Process Run := do
  match registration.plan.node? nodeId with
  | none => .throw (.store (.keyError nodeId))
  | some node =>
    let latest : Option Checkpoint ← store (.latestCheckpoint run.id)
    let stepContext : Option StepContext := if node.kind = .router then none
      else some ⟨run.id, context, claim.lease.holderWorkerId, claim.lease.fencingToken⟩
    giveContext run node context
    let (value, left) ← rt.steps.execute run node ((latest.map Checkpoint.sequence).getD 0 + 1)
      (registration.handler node.id stepContext) (node.maxAttempts - 1) 1 run.state
    let value ← .ofExcept value
    let (state, nextNodes) ← .ofExcept (rt.nextPosition node value left)
    .ofExcept (rt.validateState registration.plan state)
    if node.checkpoint ∨ nextNodes = [] then
      rt.commit claim registration.plan run latest state nextNodes
    else pure { run with state := state, nextNodes := nextNodes }

/-- The loop of `_execute_claim`: it leaves with a run that has meanwhile ended (`inl`), or with
the run as it was moved (`inr`). -/
def executeNodes (claim : ClaimedRun) (registration : Registration) (context : RunContext)
    (maxSteps : Option ℤ) : (fuel : ℕ) → (run : Run) → (steps : ℕ) → Process (Run ⊕ Run)
  | 0, _, _ => .stop
  | fuel + 1, run, steps =>
    match run.nextNodes with
    | [] => pure (.inr run)
    | nodeId :: _ =>
      if ∀ m ∈ maxSteps, (steps : ℤ) < m then do
        context.ensureActive
        let durable ← getRun run.id
        if durable.status.Terminal then pure (.inl durable)
        else do
          .throwUnless (durable.version = run.version)
            (.store (.conflict "run changed while worker was executing" []))
          let run' ← rt.executeNode claim registration context run nodeId
          executeNodes claim registration context maxSteps fuel run' (steps + 1)
      else pure (.inr run)

/-! ### Claims -/

/-- `_execute_claim`. -/
def executeClaim (fuel : ℕ) (claim : ClaimedRun) (maxSteps : Option ℤ) : Process Run := do
  match rt.registrations claim.run.planId with
  | none => .throw (.other "RuntimeError"
      s!"execution plan {claim.run.planId.str} is not registered")
  | some registration =>
    let context ← rt.contextOf claim.run
    let latest : Option Checkpoint ← store (.latestCheckpoint claim.run.id)
    .throwUnless (∀ c ∈ latest, c.planHash = registration.plan.definitionHash)
      (.other "PlanMismatchError" "checkpoint plan hash does not match registered execution plan")
    match ← rt.executeNodes claim registration context maxSteps fuel claim.run 0 with
    | .inl durable => pure durable
    | .inr run =>
      if run.nextNodes = [] then
        store (.finishClaim run.id claim.lease.holderWorkerId claim.lease.fencingToken run.version
          .succeeded "run.execution.completed" none)
      else pure run

/-- The status in which an exception leaves a run. -/
def failureTarget (e : Exn) : RunStatus :=
  if e.isTimeout ∨ e = .deadlineExceeded then .timedOut else .failed

/-- The handler of `work_once` for the exceptions that are not suspensions: the run is read again,
and the claim ends under the version just read. -/
def endClaim (claim : ClaimedRun) (workerId : String) (e : Exn) : Process Run := do
  let current ← getRun claim.run.id
  if current.status.Terminal then do
    rt.forgetContextIfTerminal current
    pure current
  else do
    let finish : Process Run := store (.finishClaim claim.run.id workerId claim.lease.fencingToken
      current.version (failureTarget e) "run.execution.failed"
      (some [("error_type", .str e.typeName), ("message", .str (rt.text e))]))
    match ← finish.attempt with
    | .ok failed =>
      rt.forgetContextIfTerminal failed
      pure failed
    | .error e => if e.isConflict then getRun claim.run.id else .throw e

/-- `work_once`. -/
def workOnce (fuel : ℕ) (workerId : String) (leaseSeconds : Seconds) (maxSteps : Option ℤ)
    (givenNow : Option Datetime) : Process (Option Run) := do
  match (← store (.claimNext workerId leaseSeconds givenNow) : Option ClaimedRun) with
  | none => pure none
  | some claim =>
    match ← (rt.executeClaim fuel claim maxSteps).attempt with
    | .ok run =>
      rt.forgetContextIfTerminal run
      pure (some run)
    | .error (.suspended _) =>
      let waiting ← getRun claim.run.id
      pure (some waiting)
    | .error e =>
      let run ← rt.endClaim claim workerId e
      pure (some run)

end LocalRuntime

/-- `_heartbeat`: the lease of a claim is renewed until a renewal raises. -/
def heartbeat (runId : UUID) (workerId : String) (fencingToken : ℕ) (leaseSeconds : Seconds) :
    (fuel : ℕ) → Process Unit
  | 0 => .stop
  | fuel + 1 => do
    match ← (store (.renewLease runId workerId fencingToken leaseSeconds none)).attempt with
    | .error _ => pure ()
    | .ok _ => heartbeat runId workerId fencingToken leaseSeconds fuel

/-! ### A sample -/

namespace Sample

/-- A call of a tool that may not be repeated, under an optional key. -/
def charge (key : Option String) : ToolCall where
  spec := ⟨"charge", "1", .nonIdempotent, none⟩
  arguments := []
  runId := some run.id
  nodeId := "first"
  checkpointSequence := some 1
  idempotencyKey := key

theorem first_not_blank : isBlank "first" = false := by decide

/-- A workflow with one node, which calls the tool. -/
def registration (key : Option String) : Registration where
  plan :=
    { id := run.planId
      definitionHash := checkpoint.planHash
      entrypoint := "first"
      nodes := [⟨"first", .step, false, 1, none, true, [], first_not_blank, first_pos⟩]
      stateSchema := []
      definitionHash_length := checkpoint.planHash_length
      nodup_ids := by simp
      entrypoint_mem := by simp
      successors_mem := by simp
      router_successors := by simp }
  handler _ _ state := .call (.tool (charge key)) fun r => match (r : Except Exn Json) with
    | .ok _ => .ret (.returns (.ok .null) state)
    | .error e => .ret (.raises e state)

/-- The texts of the values that a sample shows, which are strings. -/
def texts : Texts where
  str _ := ""
  repr
    | .str s => s!"'{s}'"
    | _ => ""

/-- What a sample reads: no identifiers and no datetimes. -/
def readings : Readings where
  uuid _ := .error (.store (.valueError "badly formed hexadecimal UUID string"))
  datetime _ := .error (.store (.valueError "Invalid isoformat string"))
  lower := String.toLower
  isHex s := s.all fun c => c.isDigit || ('a' ≤ c && c ≤ 'f')

/-- A worker that knows the workflow. Without arguments, the digest is that of the empty
object. -/
def runtime (key : Option String) : LocalRuntime where
  number := 0
  registrations id := if id = run.planId then some (registration key) else none
  readings := readings
  steps :=
    { executor :=
        { admission := fun _ => .ok 1048576
          effectLedger := true
          argumentsDigest := fun _ =>
            "44136fa355b3678a1146ad16f7e8649e94fb4fc21fe77e8310c060f61caaff8a"
          texts := texts
          text := fun _ => ""
          encodedLength := fun _ => 4
          artifactStore := none }
      texts := texts }
  effectLedger := true
  text _ := ""

/-- What a command finds outside `s` seconds after the start of 2026. -/
def input (s : Fin 1000) : Input where
  clock := clock s
  uuid := ⟨100 + s, by omega⟩
  elapsed := false
  outcome := .ok .null
  observed := .null

end Sample

end OpenRath
