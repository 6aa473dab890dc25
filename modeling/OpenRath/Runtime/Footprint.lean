import OpenRath.Runtime.Reconciliation

/-!
# What the programs of the runtime consist of

The programs of workers, heartbeats and reconciliations are put together from commands by the
constructs of processes. A property that these constructs hand on (`Proc.Closed`) therefore holds
of a whole worker if it holds of the commands and of the calls of tools. This is proved once here,
for every such property.

## Main definitions

* `Cmd.OfRuntime`, `Cmd.Unfailing`, `Cmd.OfSteps`, `Cmd.Free`, `Cmd.Contextless`: the commands of
  the programs, and those without the ends of claims by an exception, without commits, outside the
  dispatch of a tool and outside of the handling of contexts.
* `ClosedOnRuntime`, `ClosedOnSteps`: properties that the constructs of these programs hand on.
* `Participant`: the processes of a system of workers, heartbeats and reconciliations.

## Main results

* `LocalRuntime.closed_workOnce`, `closed_heartbeat`, `closed_reconcileStaleEffects`.
* `Participant.issues`: the participants issue commands of the runtime only.
-/

namespace OpenRath

open Process

/-! ### Commands -/

/-- The commands that workers, heartbeats and reconciliations issue: a run is moved by claims,
commits, ends of claims with a result, interrupts and the transition to `NEEDS_REVIEW` only. -/
def Cmd.OfRuntime : Cmd → Prop
  | .store (.claimNext _ _ _) | .store (.getRun _) | .store (.latestCheckpoint _)
  | .store (.commitCheckpoint _ _ _ _) | .store (.appendRunEvent _ _ _)
  | .store (.listInterrupts _ _) | .store (.createInterrupt _ _)
  | .store (.renewLease _ _ _ _ _) => True
  | .store (.finishClaim _ _ _ _ target _ _) => target ∈ [.succeeded, .failed, .timedOut]
  | .store (.transitionRun _ _ target _ _) => target = .needsReview
  | .store _ => False
  | _ => True

/-- The commands of the runtime but the ends of claims by an exception. -/
def Cmd.Unfailing : Cmd → Prop
  | .store (.finishClaim _ _ _ _ target _ _) => target = .succeeded
  | c => c.OfRuntime

/-- Those that leave the position of every run alone, which are all but the commits. -/
def Cmd.OfSteps : Cmd → Prop
  | .store (.claimNext _ _ _) | .store (.getRun _) | .store (.latestCheckpoint _)
  | .store (.appendRunEvent _ _ _) | .store (.listInterrupts _ _)
  | .store (.createInterrupt _ _) | .store (.renewLease _ _ _ _ _) => True
  | .store (.finishClaim _ _ _ _ target _ _) => target = .succeeded
  | .store (.transitionRun _ _ target _ nextNodes) => target = .needsReview ∧ nextNodes = none
  | .store _ => False
  | _ => True

theorem Cmd.Unfailing.ofRuntime {c : Cmd} (h : c.Unfailing) : c.OfRuntime := by
  cases c with
  | store op =>
    cases op with
    | finishClaim =>
      obtain rfl := h
      exact List.mem_cons_self ..
    | _ => exact h
  | _ => exact h

theorem Cmd.OfSteps.unfailing {c : Cmd} (h : c.OfSteps) : c.Unfailing := by
  cases c with
  | store op =>
    cases op with
    | transitionRun => exact h.1
    | finishClaim | claimNext | getRun | latestCheckpoint | appendRunEvent | listInterrupts
    | createInterrupt | renewLease => exact h
    | createRun | listRuns | countRuns | listRunEvents | appendCheckpoint | listCheckpoints
    | commitCheckpoint | getInterrupt | expireInterrupts | decideInterrupt | assertFencingToken
    | requeueExpiredLeases => exact h.elim
  | ledger | now | uuid4 | elapsed | startTool | observe | context => trivial

/-- The commands that are no part of the dispatch of a tool. -/
def Cmd.Free : Cmd → Prop
  | .startTool _ _ | .ledger (.markDispatched _) => False
  | _ => True

/-- The commands that do not concern the contexts in memory. -/
def Cmd.Contextless : Cmd → Prop
  | .context _ => False
  | _ => True

/-! ### Closed properties of the programs -/

/-- A closed property of processes that holds of the commands outside the dispatch of a tool, but
for those on contexts and for the ends of claims by an exception. -/
structure ClosedOnRuntime (G : (ε α : Type) → Proc Cmd Cmd.Answer ε α → Prop) : Prop
    extends Proc.Closed G where
  command : ∀ c : Cmd, c.Unfailing → c.Free → c.Contextless → G Exn c.Answer (Proc.perform c)

/-- The same for the commands that leave the positions of the runs alone. -/
structure ClosedOnSteps (G : (ε α : Type) → Proc Cmd Cmd.Answer ε α → Prop) : Prop
    extends Proc.Closed G where
  command : ∀ c : Cmd, c.OfSteps → c.Free → c.Contextless → G Exn c.Answer (Proc.perform c)

theorem ClosedOnRuntime.onSteps {G : (ε α : Type) → Proc Cmd Cmd.Answer ε α → Prop}
    (hG : ClosedOnRuntime G) : ClosedOnSteps G where
  toClosed := hG.toClosed
  command c h := hG.command c h.unfailing

section Closed

variable {G : (ε α : Type) → Proc Cmd Cmd.Answer ε α → Prop}

namespace ClosedOnSteps

variable (hG : ClosedOnSteps G)
include hG

theorem store (op : Op) (h : Cmd.OfSteps (.store op)) : G Exn op.Result (Process.store op) :=
  hG.bind (hG.command (.store op) h trivial trivial) fun _ => hG.ofExcept _

theorem ledger (op : LedgerOp) (h : Cmd.Free (.ledger op)) :
    G Exn op.Result (Process.ledger op) :=
  hG.bind (hG.command (.ledger op) trivial h trivial) fun _ => hG.ofExcept _

theorem now : G Exn Datetime Process.now := hG.command .now trivial trivial trivial

theorem uuid4 : G Exn UUID Process.uuid4 := hG.command .uuid4 trivial trivial trivial

end ClosedOnSteps

theorem ClosedOnRuntime.store (hG : ClosedOnRuntime G) (op : Op)
    (h : Cmd.Unfailing (.store op)) : G Exn op.Result (Process.store op) :=
  hG.bind (hG.command (.store op) h trivial trivial) fun _ => hG.ofExcept _

section Steps

variable (hG : ClosedOnSteps G)
include hG

theorem ToolExecutor.closed_complete (invocation : Option ToolInvocation) (result : Json) :
    G Exn Unit (complete invocation result) := by
  rcases invocation with _ | row
  · exact hG.ret ()
  · exact hG.bind (hG.ledger (.complete _ _) trivial) fun _ =>
      hG.bind (hG.ledger (.get _) trivial) fun _ => hG.ret ()

theorem ToolExecutor.closed_fail (invocation : Option ToolInvocation) (error : String) :
    G Exn Unit (fail invocation error) := by
  rcases invocation with _ | row
  · exact hG.ret ()
  · exact hG.bind (hG.ledger (.fail _ _) trivial) fun _ =>
      hG.bind (hG.ledger (.get _) trivial) fun _ => hG.ret ()

theorem closed_requestInterrupt (run : Run) (node : NodeSpec) (sequence : ℕ)
    (kind : InterruptKind) (request : JsonObject) (timeoutSeconds : Option Seconds) :
    G Exn ApprovalDecision (requestInterrupt run node sequence kind request timeoutSeconds) := by
  refine hG.bind (hG.store (.listInterrupts _ _) trivial) fun interrupts => ?_
  split
  · next existing _ =>
    rcases existing.decision with _ | decision
    · exact hG.throw _
    · exact hG.ret _
  · exact hG.bind (hG.throwUnless ..) fun _ => hG.bind hG.now fun _ =>
      hG.bind hG.uuid4 fun _ => hG.bind (hG.ofExcept _) fun _ =>
      hG.bind (hG.store (.createInterrupt _ _) trivial) fun _ => hG.throw _

namespace StepExecutor

variable (x : StepExecutor) (run : Run) (node : NodeSpec) (sequence : ℕ)
  (htool : ∀ call, G Exn Json (x.executor.execute call))

section Tools

include htool

theorem closed_answer (c : HandlerCmd) : G Exn c.Answer (x.answer run node sequence c) := by
  cases c with
  | interrupt kind request timeoutSeconds =>
    exact hG.attempt (closed_requestInterrupt hG ..)
  | tool call => exact hG.attempt (htool call)
  | observe => exact hG.command .observe trivial trivial trivial

theorem closed_attempt (script : Script) :
    G Exn _ (x.attempt run node sequence script) := by
  refine hG.bind (hG.interpret (x.closed_answer hG run node sequence htool) script)
    fun ending => ?_
  rcases ending with ⟨value, left⟩ | ⟨e, left⟩
  · dsimp only
    rcases node.timeoutSeconds with _ | seconds
    · exact hG.ret _
    · exact hG.bind (hG.command .elapsed trivial trivial trivial) fun late =>
        hG.ite (hG.ret _) (hG.ret _)
  · exact hG.ret _

end Tools

theorem closed_recordAttempt (number : ℕ) (e : Exn) :
    G Exn Unit (recordAttempt run node number e) := by
  cases e with
  | suspended message => exact hG.throw _
  | store | ledger | schema | deadlineExceeded | timeout | other =>
    exact hG.bind (hG.store (.appendRunEvent _ _ _) trivial) fun _ => hG.ret ()

include htool

theorem closed_execute (handler : JsonObject → Script) (left number : ℕ) (state : JsonObject) :
    G Exn _ (x.execute run node sequence handler left number state) := by
  induction left generalizing number state with
  | zero =>
    refine hG.bind (x.closed_attempt hG run node sequence htool _) fun result => ?_
    rcases result with ⟨e, state'⟩ | result
    · exact hG.bind (closed_recordAttempt hG ..) fun _ => hG.throw _
    · exact hG.ret _
  | succ left ih =>
    refine hG.bind (x.closed_attempt hG run node sequence htool _) fun result => ?_
    rcases result with ⟨e, state'⟩ | result
    · exact hG.bind (closed_recordAttempt hG ..) fun _ => ih ..
    · exact hG.ret _

end StepExecutor

theorem closed_tokenHex (bytes : ℕ) : G Exn String (tokenHex bytes) :=
  hG.bind hG.uuid4 fun _ => hG.ret _

theorem closed_restoreContext (texts : Texts) (readings : Readings) (run : Run) :
    G Exn RunContext (restoreContext texts readings run) := by
  refine hG.bind (hG.ofExcept _) fun security =>
    hG.ite ?_ (hG.bind (hG.ofExcept _) fun _ => hG.ret _)
  exact hG.bind hG.uuid4 fun _ => hG.bind (closed_tokenHex hG 16) fun _ =>
    hG.bind (closed_tokenHex hG 8) fun _ => hG.ret _

theorem closed_ensureActive (context : RunContext) : G Exn Unit context.ensureActive := by
  rw [RunContext.ensureActive]
  rcases context.deadline with _ | deadline
  · exact hG.ret ()
  · exact hG.bind hG.now fun _ => hG.throwUnless ..

namespace LocalRuntime

variable (rt : LocalRuntime)

section Contexts

variable (hcontext : ∀ c, G Exn c.Answer (Process.context c))
include hcontext

theorem closed_contextOf (run : Run) : G Exn RunContext (rt.contextOf run) := by
  refine hG.bind (hcontext (.get rt.number run.id)) fun cached => ?_
  rcases cached with _ | context
  · exact closed_restoreContext hG ..
  · exact hG.ret _

omit rt in
theorem closed_giveContext (run : Run) (node : NodeSpec) (context : RunContext) :
    G Exn Unit (giveContext run node context) :=
  hG.ite (hG.ret _) (hcontext (.give run.id context))

theorem closed_forgetContextIfTerminal (run : Run) :
    G Exn Unit (rt.forgetContextIfTerminal run) :=
  hG.ite (hcontext (.pop rt.number run.id)) (hG.ret _)

end Contexts

omit hG in
theorem failureTarget_mem (e : Exn) :
    failureTarget e ∈ [RunStatus.succeeded, .failed, .timedOut] := by
  rw [failureTarget]
  split_ifs <;> simp

theorem closed_endClaim (hforget : ∀ run, G Exn Unit (rt.forgetContextIfTerminal run))
    (claim : ClaimedRun) (workerId : String) (e : Exn)
    (hfinish : ∀ v data, G Exn Run (Process.store (.finishClaim claim.run.id workerId
      claim.lease.fencingToken v (failureTarget e) "run.execution.failed" data))) :
    G Exn Run (rt.endClaim claim workerId e) := by
  refine hG.bind (hG.store (.getRun _) trivial) fun current =>
    hG.ite (hG.bind (hforget current) fun _ => hG.ret _) ?_
  refine hG.bind (hG.attempt (hfinish _ _)) fun result => ?_
  rcases result with e' | failed
  · exact hG.ite (hG.store (.getRun _) trivial) (hG.throw _)
  · exact hG.bind (hforget failed) fun _ => hG.ret _

end LocalRuntime

theorem closed_heartbeat (runId : UUID) (workerId : String) (fencingToken : ℕ)
    (leaseSeconds : Seconds) (fuel : ℕ) :
    G Exn Unit (heartbeat runId workerId fencingToken leaseSeconds fuel) := by
  induction fuel with
  | zero => exact hG.stop
  | succ fuel ih =>
    refine hG.bind (hG.attempt (hG.store (.renewLease _ _ _ _ _) trivial)) fun result => ?_
    rcases result with e | lease
    · exact hG.ret _
    · exact ih

theorem closed_reviewRun (runId : UUID) : G Exn Unit (reviewRun runId) := by
  refine hG.bind (hG.store (.getRun _) trivial) fun run => hG.ite ?_ (hG.ret _)
  have htransition : Cmd.OfSteps
      (.store (.transitionRun run.id run.version .needsReview none none)) := ⟨rfl, rfl⟩
  refine hG.bind (hG.attempt (hG.store _ htransition)) fun result => ?_
  rcases result with e | run'
  · exact hG.ite (hG.ret _) (hG.throw _)
  · exact hG.ret _

theorem closed_reviewInvocations (invocations : List ToolInvocation) :
    G Exn Reconciliation (reviewInvocations invocations) := by
  induction invocations with
  | nil => exact hG.ret _
  | cons row rest ih =>
    rw [reviewInvocations]
    exact hG.ite (hG.bind ih fun _ => hG.ret _)
      (hG.bind (closed_reviewRun hG _) fun _ => hG.bind ih fun _ => hG.ret _)

theorem closed_reconcileStaleEffects (graceSeconds : Seconds) (givenNow : Option Datetime) :
    G Exn Reconciliation (reconcileStaleEffects graceSeconds givenNow) := by
  have hat : ∀ current, G Exn Reconciliation (reconcileAt graceSeconds current) := fun current =>
    hG.bind (hG.ofExcept _) fun _ => hG.bind (hG.ledger (.reconcileStale _) trivial) fun _ =>
      closed_reviewInvocations hG _
  refine hG.bind (hG.throwUnless ..) fun _ => ?_
  rcases givenNow with _ | current
  · exact hG.bind hG.now hat
  · exact hat current

end Steps

/-! ### Closed properties of a worker -/

namespace LocalRuntime

variable (hG : ClosedOnRuntime G) (rt : LocalRuntime)
include hG

theorem closed_commit (claim : ClaimedRun) (plan : ExecutionPlan) (run : Run)
    (latest : Option Checkpoint) (state : JsonObject) (nextNodes : List String) :
    G Exn Run (rt.commit claim plan run latest state nextNodes) := by
  have hput : ∀ effectWatermark, G Exn Run (do
      let id ← uuid4
      let createdAt ← Process.now
      if aware : createdAt.Aware then
        store (.commitCheckpoint
          { id := id
            runId := run.id
            sequence := (latest.map Checkpoint.sequence).getD 0 + 1
            planHash := plan.definitionHash
            state := state
            nextNodes := nextNodes
            pendingInterrupts := []
            effectWatermark := effectWatermark
            createdAt := createdAt
            sequence_pos := Nat.le_add_left 1 _
            planHash_length := plan.definitionHash_length
            createdAt_aware := aware }
          claim.lease.holderWorkerId claim.lease.fencingToken run.version)
      else .throw (.store (.valueError "checkpoint.created_at must be timezone-aware"))) :=
    fun effectWatermark => hG.bind hG.onSteps.uuid4 fun _ =>
      hG.bind hG.onSteps.now fun createdAt =>
        hG.dite (fun _ => hG.store (.commitCheckpoint _ _ _ _) trivial) fun _ => hG.throw _
  rw [commit]
  split_ifs
  · exact hG.bind (hG.onSteps.ledger (.watermark _) trivial) hput
  · exact hput 0

section Tools

variable (htool : ∀ call, G Exn Json (rt.steps.executor.execute call))
  (hcontext : ∀ c, G Exn c.Answer (Process.context c))
include htool hcontext

theorem closed_executeNode (claim : ClaimedRun) (registration : Registration)
    (context : RunContext) (run : Run) (nodeId : String) :
    G Exn Run (rt.executeNode claim registration context run nodeId) := by
  rw [executeNode]
  rcases registration.plan.node? nodeId with _ | node
  · exact hG.throw _
  · exact hG.bind (hG.store (.latestCheckpoint _) trivial) fun _ =>
      hG.bind (closed_giveContext hG.onSteps hcontext ..) fun _ =>
      hG.bind (rt.steps.closed_execute hG.onSteps _ _ _ htool ..) fun result =>
      hG.bind (hG.ofExcept _) fun _ => hG.bind (hG.ofExcept _) fun position =>
      hG.bind (hG.ofExcept _) fun _ => hG.ite (rt.closed_commit hG ..) (hG.ret _)

theorem closed_executeNodes (claim : ClaimedRun) (registration : Registration)
    (context : RunContext) (maxSteps : Option ℤ) (fuel : ℕ) (run : Run) (steps : ℕ) :
    G Exn (Run ⊕ Run)
      (rt.executeNodes claim registration context maxSteps fuel run steps) := by
  induction fuel generalizing run steps with
  | zero => exact hG.stop
  | succ fuel ih =>
    rw [executeNodes]
    rcases run.nextNodes with _ | ⟨nodeId, rest⟩
    · exact hG.ret _
    · exact hG.ite (hG.bind (closed_ensureActive hG.onSteps context) fun _ =>
        hG.bind (hG.store (.getRun _) trivial) fun durable => hG.ite (hG.ret _)
          (hG.bind (hG.throwUnless ..) fun _ =>
            hG.bind (rt.closed_executeNode hG htool hcontext ..) fun _ => ih ..)) (hG.ret _)

theorem closed_executeClaim (fuel : ℕ) (claim : ClaimedRun) (maxSteps : Option ℤ) :
    G Exn Run (rt.executeClaim fuel claim maxSteps) := by
  rw [executeClaim]
  rcases rt.registrations claim.run.planId with _ | registration
  · exact hG.throw _
  · refine hG.bind (rt.closed_contextOf hG.onSteps hcontext _) fun context =>
      hG.bind (hG.store (.latestCheckpoint _) trivial) fun (latest : Option Checkpoint) =>
      hG.bind (hG.throwUnless ..) fun _ =>
      hG.bind (rt.closed_executeNodes hG htool hcontext ..) fun result => ?_
    rcases result with durable | run
    · exact hG.ret _
    · exact hG.ite (hG.store (.finishClaim _ _ _ _ .succeeded _ _) rfl) (hG.ret _)

end Tools

/-- A closed property of the commands, of the calls of tools and of the handler of exceptions is
one of the worker. -/
theorem closed_workOnce (htool : ∀ call, G Exn Json (rt.steps.executor.execute call))
    (hcontext : ∀ c, G Exn c.Answer (Process.context c))
    (hend : ∀ claim workerId e, G Exn Run (rt.endClaim claim workerId e)) (fuel : ℕ)
    (workerId : String) (leaseSeconds : Seconds) (maxSteps : Option ℤ)
    (givenNow : Option Datetime) :
    G Exn (Option Run) (rt.workOnce fuel workerId leaseSeconds maxSteps givenNow) := by
  have hforget := rt.closed_forgetContextIfTerminal hG.onSteps hcontext
  refine hG.bind (hG.store (.claimNext _ _ _) trivial) fun claimed => ?_
  rcases claimed with _ | claim
  · exact hG.ret _
  · refine hG.bind (hG.attempt (rt.closed_executeClaim hG htool hcontext ..)) fun result => ?_
    rcases result with e | run
    · cases e with
      | suspended message => exact hG.bind (hG.store (.getRun _) trivial) fun _ => hG.ret _
      | store | ledger | schema | deadlineExceeded | timeout | other =>
        exact hG.bind (hend ..) fun _ => hG.ret _
    · exact hG.bind (hforget run) fun _ => hG.ret _

end LocalRuntime

end Closed

/-! ### Commands of the participants -/

theorem closedOnRuntime_issues :
    ClosedOnRuntime fun _ _ (p : Proc Cmd Cmd.Answer _ _) => p.Issues Cmd.OfRuntime where
  toClosed := Proc.closed_issues Cmd.OfRuntime
  command _ h _ _ := Proc.issues_perform h.ofRuntime

section Tools

variable {G : (ε α : Type) → Proc Cmd Cmd.Answer ε α → Prop} (hG : ClosedOnSteps G)
  (x : ToolExecutor) (call : ToolCall)
include hG

/-- The handler is started, and what follows has the property. -/
theorem ToolExecutor.exists_run_eq (limit : ℕ) (invocation : Option ToolInvocation) :
    ∃ f, x.run call limit invocation =
        startTool call (invocation.map ToolInvocation.id) >>= f ∧ ∀ r, G Exn Json (f r) := by
  refine ⟨_, rfl, fun outcome => ?_⟩
  rcases outcome with e | result
  · exact hG.ite (hG.bind (closed_fail hG ..) fun _ => hG.throw _) (hG.throw _)
  · have hsmall := hG.bind (closed_complete hG invocation result) fun _ => hG.ret result
    rcases hstore : x.artifactStore with _ | put
    · have hsettle := hG.ite (c := limit < x.encodedLength result)
        (hG.bind (closed_fail hG invocation s!"tool output exceeded {limit} bytes") fun _ =>
          hG.throw (.other "ToolOutputTooLarge"
            s!"tool output is {x.encodedLength result} bytes; maximum is {limit}")) hsmall
      rcases call.spec.outputSchema with _ | schema
      · exact hsettle
      · exact hG.bind (hG.ofExcept _) fun _ => hsettle
    · have hsettle := hG.ite (c := limit < x.encodedLength result)
        (hG.bind (hG.ofExcept (put result)) fun reference =>
          hG.bind (closed_complete hG invocation reference) fun _ => hG.ret reference) hsmall
      rcases call.spec.outputSchema with _ | schema
      · exact hsettle
      · exact hG.bind (hG.ofExcept _) fun _ => hsettle

/-- A closed property of the commands outside the dispatch of a tool and of the dispatch is one of
a call. -/
theorem ToolExecutor.closed_execute
    (hstart : ∀ invocationId, G Exn _ (startTool call invocationId))
    (hmark : ∀ id, G Exn _ (Process.ledger (.markDispatched id))) :
    G Exn Json (x.execute call) := by
  have hrun : ∀ limit invocation, G Exn Json (x.run call limit invocation) := by
    intro limit invocation
    obtain ⟨f, hf, hclosed⟩ := exists_run_eq hG x call limit invocation
    rw [hf]
    exact hG.bind (hstart _) hclosed
  refine hG.bind (hG.ofExcept _) fun limit => hG.ite ?_ (hrun ..)
  rcases call.runId with _ | runId
  · exact hG.throw _
  · exact hG.bind (hG.ledger (.prepare _ _ _ _ _ _ _) trivial) fun _ => hG.ite (hG.ret _)
      (hG.ite (hG.throw _) (hG.bind (hmark _) fun _ => hG.bind (hG.ledger (.get _) trivial) fun _ =>
        hrun ..))

end Tools

/-! ### Participants -/

theorem ToolExecutor.issues_execute (x : ToolExecutor) (call : ToolCall) :
    (x.execute call).Issues Cmd.OfRuntime :=
  x.closed_execute closedOnRuntime_issues.onSteps call
    (fun _ => Proc.issues_perform trivial) fun _ =>
    ⟨trivial, fun _ => closedOnRuntime_issues.ofExcept _⟩

/-- The processes of a system of workers, heartbeats and reconciliations. -/
inductive Participant : Process Outcome → Prop
  | work (rt : LocalRuntime) (fuel : ℕ) (workerId : String) (leaseSeconds : Seconds)
      (maxSteps : Option ℤ) (givenNow : Option Datetime) : Participant do
        let r ← rt.workOnce fuel workerId leaseSeconds maxSteps givenNow
        pure (.worked r)
  | renew (runId : UUID) (workerId : String) (fencingToken : ℕ) (leaseSeconds : Seconds)
      (fuel : ℕ) : Participant do
        heartbeat runId workerId fencingToken leaseSeconds fuel
        pure .done
  | reconcile (graceSeconds : Seconds) (givenNow : Option Datetime) :
      Participant (reconcile graceSeconds givenNow)

theorem Participant.issues {p : Process Outcome} (h : Participant p) :
    p.Issues Cmd.OfRuntime := by
  have hG := closedOnRuntime_issues
  cases h with
  | work rt =>
    have hcontext : ∀ c, (Process.context c).Issues Cmd.OfRuntime :=
      fun _ => Proc.issues_perform trivial
    have hend : ∀ claim workerId e, (rt.endClaim claim workerId e).Issues Cmd.OfRuntime :=
      fun claim workerId e => rt.closed_endClaim hG.onSteps
        (rt.closed_forgetContextIfTerminal hG.onSteps hcontext) claim workerId e fun _ _ =>
          ⟨LocalRuntime.failureTarget_mem e, fun _ => hG.ofExcept _⟩
    exact hG.bind (rt.closed_workOnce hG rt.steps.executor.issues_execute hcontext hend ..)
      fun _ => hG.ret _
  | renew => exact hG.bind (closed_heartbeat hG.onSteps ..) fun _ => hG.ret _
  | reconcile => exact hG.bind (closed_reconcileStaleEffects hG.onSteps ..) fun _ => hG.ret _

end OpenRath
