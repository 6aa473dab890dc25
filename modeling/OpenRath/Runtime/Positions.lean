import OpenRath.Definition.Compiler
import OpenRath.Library.Notes
import OpenRath.Runtime.Submission

/-!
# Structural faults of a plan

A worker that executes a claim relies on the structure of the plan at every node: the next node is
one of the plan, a router has returned one of its successors, and a step has at most one. Where it
raises for such a reason, the programs here take a note. Without the notes they are the programs of
`LocalRuntime`.

A position of a plan is kept in the row of the run. It is written by the submission, which puts the
entrypoint there, and by commits of checkpoints, which put the successors of a node there. So the
next node of a run is always one of its plan, through any number of claims. Routers are checked to
have successors, and all successors to be nodes, by the compiler. Nothing checks that a step has at
most one.

## Main definitions

* `ExecutionPlan.Position`, `World.Positioned`: the positions of a plan.
* `NodeSpec.Admits`: what the handler of a node is to return.
* `Fault`, `NodeSpec.fault?`, `LocalRuntime.workOnceNoted`: the faults of a plan.
* `Operated`: the processes of a system that executes runs of a plan.

## Main results

* `LocalRuntime.forget_workOnceNoted`: a worker without its notes.
* `compiled_no_fault`: in a compiled plan whose steps have at most one successor, there is no fault.
* `compiled_fault`: a compiled plan and a run of it with a fault.
-/

namespace OpenRath

open Process

/-! ### Positions -/

/-- The nodes of a position are nodes of the plan. -/
def ExecutionPlan.Position (plan : ExecutionPlan) (nextNodes : List String) : Prop :=
  ∀ id ∈ nextNodes, id ∈ plan.nodes.map NodeSpec.id

theorem ExecutionPlan.mem_of_node? {plan : ExecutionPlan} {id : String} {node : NodeSpec}
    (h : plan.node? id = some node) : node ∈ plan.nodes :=
  List.mem_of_find?_eq_some h

theorem ExecutionPlan.exists_node? {plan : ExecutionPlan} {id : String}
    (h : id ∈ plan.nodes.map NodeSpec.id) : ∃ node, plan.node? id = some node := by
  obtain ⟨node, hnode, rfl⟩ := List.mem_map.mp h
  exact Option.isSome_iff_exists.mp
    (List.find?_isSome.mpr ⟨node, hnode, decide_eq_true rfl⟩)

/-- The successors of a node are a position. -/
theorem ExecutionPlan.position_of_subset {plan : ExecutionPlan} {node : NodeSpec}
    {nextNodes : List String} (hnode : node ∈ plan.nodes) (h : nextNodes ⊆ node.successors) :
    plan.Position nextNodes :=
  fun id hid => plan.successors_mem node hnode id (h hid)

/-- A step leads to successors of its node. -/
theorem LocalRuntime.subset_of_nextPosition {rt : LocalRuntime} {node : NodeSpec} {value : Json}
    {left state : JsonObject} {nextNodes : List String}
    (h : rt.nextPosition node value left = .ok (state, nextNodes)) :
    nextNodes ⊆ node.successors := by
  cases value with
  | str successor =>
    rcases hkind : node.kind <;> simp only [nextPosition, hkind] at h
    · cases h
    · -- A router leads to the successor that was returned.
      split_ifs at h with hmem
      cases h
      exact fun id hid => List.mem_singleton.mp hid ▸ hmem
    · cases h
  | null | obj =>
    rcases hkind : node.kind <;> simp only [nextPosition, hkind] at h
    · -- A step leads to all of its successors.
      obtain ⟨state', -, h⟩ := exists_of_bind_eq_ok h
      split_ifs at h
      cases h
      exact List.Subset.refl _
    · cases h
    · obtain ⟨state', -, h⟩ := exists_of_bind_eq_ok h
      split_ifs at h
      cases h
      exact List.Subset.refl _
  | bool | int | float | arr =>
    rcases hkind : node.kind <;> simp only [nextPosition, hkind] at h <;> cases h

/-! ### Faults -/

/-- What the handler of a node is to return: a mapping or `None`, and one of the successors from a
router. -/
def NodeSpec.Expects (node : NodeSpec) : Json → Prop
  | .str successor => node.kind = .router ∧ successor ∈ node.successors
  | .null | .obj _ => node.kind ≠ .router
  | _ => False

/-- How a handler that returns what it is to return may end. What a step returns may contain
objects that are not JSON values. -/
def NodeSpec.Admits (node : NodeSpec) : StepEnd → Prop
  | .returns (.ok value) _ => node.Expects value
  | .returns (.error _) _ => node.kind ≠ .router
  | .raises _ _ => True

/-- What can be wrong with the structure of a plan. -/
inductive Fault
  | unknownNode
  | invalidSuccessor
  | manySuccessors
deriving DecidableEq

/-- A fault at a node of a plan. -/
structure FaultNote where
  planId : UUID
  fault : Fault
deriving DecidableEq

/-- The fault at a node whose handler has returned a value. -/
def NodeSpec.fault? (node : NodeSpec) (value : Except Exn Json) : Option Fault :=
  match node.kind with
  | .router =>
    match value with
    | .ok (.str successor) =>
      if successor ∈ node.successors then none else some .invalidSuccessor
    | _ => some .invalidSuccessor
  | .step | .opaqueCall =>
    match value with
    | .ok .null | .ok (.obj _) =>
      if 1 < node.successors.length then some .manySuccessors else none
    | _ => none

/-- A node with at most one successor, or a router, has no fault. -/
theorem NodeSpec.fault?_eq_none {node : NodeSpec} {value : Except Exn Json} {left : JsonObject}
    (h : node.Admits (.returns value left))
    (hsingle : node.kind ≠ .router → node.successors.length ≤ 1) : node.fault? value = none := by
  rcases value with e | value
  · have hkind : node.kind ≠ .router := h
    rcases hk : node.kind
    · simp only [fault?, hk]
    · exact absurd hk hkind
    · simp only [fault?, hk]
  · cases value with
    | str successor =>
      obtain ⟨hkind, hmem⟩ := h
      simp only [fault?, hkind, if_pos hmem]
    | null | obj =>
      have hkind : node.kind ≠ .router := h
      have hmany : ¬ 1 < node.successors.length := Nat.not_lt.mpr (hsingle hkind)
      rcases hk : node.kind
      · simp only [fault?, hk, if_neg hmany]
      · exact absurd hk hkind
      · simp only [fault?, hk, if_neg hmany]
    | bool | int | float | arr => exact h.elim

/-! ### Workers with notes -/

/-- A program with notes of faults. -/
abbrev FaultyProcess (α : Type) : Type := Proc.Noted Cmd Cmd.Answer FaultNote Exn α

/-- A note of a fault, if there is one. -/
def noteFault (planId : UUID) : Option Fault → FaultyProcess Unit
  | none => pure ()
  | some fault => Proc.note ⟨planId, fault⟩

namespace LocalRuntime

variable (rt : LocalRuntime)

/-- `executeNode`, with notes of faults. -/
def executeNodeNoted (claim : ClaimedRun) (registration : Registration) (context : RunContext)
    (run : Run) (nodeId : String) : FaultyProcess Run :=
  match registration.plan.node? nodeId with
  | none => do
    noteFault claim.run.planId (some .unknownNode)
    .throw (.store (.keyError nodeId))
  | some node => do
    let latest : Option Checkpoint ← (store (.latestCheckpoint run.id)).unnoted
    let stepContext : Option StepContext := if node.kind = .router then none
      else some ⟨run.id, context, claim.lease.holderWorkerId, claim.lease.fencingToken⟩
    (giveContext run node context).unnoted
    let (value, left) ← (rt.steps.execute run node ((latest.map Checkpoint.sequence).getD 0 + 1)
      (registration.handler node.id stepContext) (node.maxAttempts - 1) 1 run.state).unnoted
    noteFault claim.run.planId (node.fault? value)
    let value ← .ofExcept value
    let (state, nextNodes) ← .ofExcept (rt.nextPosition node value left)
    .ofExcept (rt.validateState registration.plan state)
    if node.checkpoint ∨ nextNodes = [] then
      (rt.commit claim registration.plan run latest state nextNodes).unnoted
    else pure { run with state := state, nextNodes := nextNodes }

/-- `executeNodes`, with notes of faults. -/
def executeNodesNoted (claim : ClaimedRun) (registration : Registration) (context : RunContext)
    (maxSteps : Option ℤ) : (fuel : ℕ) → (run : Run) → (steps : ℕ) → FaultyProcess (Run ⊕ Run)
  | 0, _, _ => .stop
  | fuel + 1, run, steps =>
    match run.nextNodes with
    | [] => pure (.inr run)
    | nodeId :: _ =>
      if ∀ m ∈ maxSteps, (steps : ℤ) < m then do
        (context.ensureActive).unnoted
        let durable ← (getRun run.id).unnoted
        if durable.status.Terminal then pure (.inl durable)
        else do
          .throwUnless (durable.version = run.version)
            (.store (.conflict "run changed while worker was executing" []))
          let run' ← rt.executeNodeNoted claim registration context run nodeId
          executeNodesNoted claim registration context maxSteps fuel run' (steps + 1)
      else pure (.inr run)

/-- `executeClaim`, with notes of faults. -/
def executeClaimNoted (fuel : ℕ) (claim : ClaimedRun) (maxSteps : Option ℤ) :
    FaultyProcess Run :=
  match rt.registrations claim.run.planId with
  | none => .throw (.other "RuntimeError"
      s!"execution plan {claim.run.planId.str} is not registered")
  | some registration => do
    let context ← (rt.contextOf claim.run).unnoted
    let latest : Option Checkpoint ← (store (.latestCheckpoint claim.run.id)).unnoted
    .throwUnless (∀ c ∈ latest, c.planHash = registration.plan.definitionHash)
      (.other "PlanMismatchError" "checkpoint plan hash does not match registered execution plan")
    match ← rt.executeNodesNoted claim registration context maxSteps fuel claim.run 0 with
    | .inl durable => pure durable
    | .inr run =>
      if run.nextNodes = [] then
        (store (.finishClaim run.id claim.lease.holderWorkerId claim.lease.fencingToken
          run.version .succeeded "run.execution.completed" none)).unnoted
      else pure run

/-- `workOnce`, with notes of faults. -/
def workOnceNoted (fuel : ℕ) (workerId : String) (leaseSeconds : Seconds) (maxSteps : Option ℤ)
    (givenNow : Option Datetime) : FaultyProcess (Option Run) := do
  match (← (store (.claimNext workerId leaseSeconds givenNow)).unnoted : Option ClaimedRun) with
  | none => pure none
  | some claim =>
    match ← (rt.executeClaimNoted fuel claim maxSteps).attempt with
    | .ok run =>
      (rt.forgetContextIfTerminal run).unnoted
      pure (some run)
    | .error (.suspended _) =>
      let waiting ← (getRun claim.run.id).unnoted
      pure (some waiting)
    | .error e =>
      let run ← (rt.endClaim claim workerId e).unnoted
      pure (some run)

theorem forget_noteFault (planId : UUID) (fault : Option Fault) :
    (noteFault planId fault).forget = .ret () := by
  cases fault <;> rfl

theorem forget_executeNodeNoted (claim : ClaimedRun) (registration : Registration)
    (context : RunContext) (run : Run) (nodeId : String) :
    (rt.executeNodeNoted claim registration context run nodeId).forget =
      rt.executeNode claim registration context run nodeId := by
  rw [executeNodeNoted, executeNode]
  rcases registration.plan.node? nodeId with _ | node
  · rfl
  refine Proc.forget_bind_of_eq (Proc.forget_unnoted _) fun latest => ?_
  refine Proc.forget_bind_of_eq (Proc.forget_unnoted _) fun _ => ?_
  refine Proc.forget_bind_of_eq (Proc.forget_unnoted _) fun result => ?_
  refine (Proc.forget_bind _ _).trans ?_
  rw [forget_noteFault, Proc.ret_bind]
  refine Proc.forget_bind_of_eq (Proc.forget_ofExcept _) fun value => ?_
  refine Proc.forget_bind_of_eq (Proc.forget_ofExcept _) fun position => ?_
  refine Proc.forget_bind_of_eq (Proc.forget_ofExcept _) fun _ => ?_
  rw [Proc.forget_ite, Proc.forget_unnoted]
  rfl

theorem forget_executeNodesNoted (claim : ClaimedRun) (registration : Registration)
    (context : RunContext) (maxSteps : Option ℤ) (fuel : ℕ) (run : Run) (steps : ℕ) :
    (rt.executeNodesNoted claim registration context maxSteps fuel run steps).forget =
      rt.executeNodes claim registration context maxSteps fuel run steps := by
  induction fuel generalizing run steps with
  | zero => rfl
  | succ fuel ih =>
    rw [executeNodesNoted, executeNodes]
    rcases run.nextNodes with _ | ⟨nodeId, rest⟩
    · rfl
    refine (Proc.forget_ite _ _).trans (if_congr Iff.rfl ?_ rfl)
    refine Proc.forget_bind_of_eq (Proc.forget_unnoted _) fun _ => ?_
    refine Proc.forget_bind_of_eq (Proc.forget_unnoted _) fun durable => ?_
    refine (Proc.forget_ite _ _).trans (if_congr Iff.rfl rfl ?_)
    refine Proc.forget_bind_of_eq (Proc.forget_throwUnless _ _) fun _ => ?_
    exact Proc.forget_bind_of_eq (rt.forget_executeNodeNoted ..) fun run' => ih run' (steps + 1)

theorem forget_executeClaimNoted (fuel : ℕ) (claim : ClaimedRun) (maxSteps : Option ℤ) :
    (rt.executeClaimNoted fuel claim maxSteps).forget = rt.executeClaim fuel claim maxSteps := by
  rw [executeClaimNoted, executeClaim]
  rcases rt.registrations claim.run.planId with _ | registration
  · rfl
  refine Proc.forget_bind_of_eq (Proc.forget_unnoted _) fun context => ?_
  refine Proc.forget_bind_of_eq (Proc.forget_unnoted _) fun latest => ?_
  refine Proc.forget_bind_of_eq (Proc.forget_throwUnless _ _) fun _ => ?_
  refine Proc.forget_bind_of_eq (rt.forget_executeNodesNoted ..) fun result => ?_
  rcases result with durable | run
  · rfl
  · exact (Proc.forget_ite _ _).trans (if_congr Iff.rfl (Proc.forget_unnoted _) rfl)

/-- Without its notes, the worker is the one of the runtime. -/
theorem forget_workOnceNoted (fuel : ℕ) (workerId : String) (leaseSeconds : Seconds)
    (maxSteps : Option ℤ) (givenNow : Option Datetime) :
    (rt.workOnceNoted fuel workerId leaseSeconds maxSteps givenNow).forget =
      rt.workOnce fuel workerId leaseSeconds maxSteps givenNow := by
  rw [workOnceNoted, workOnce]
  refine Proc.forget_bind_of_eq (Proc.forget_unnoted _) fun claimed => ?_
  rcases claimed with _ | claim
  · rfl
  have hclaim := rt.forget_executeClaimNoted fuel claim maxSteps
  refine Proc.forget_bind_of_eq ((Proc.forget_attempt _).trans (congrArg Proc.attempt hclaim))
    fun result => ?_
  rcases result with e | run
  · cases e with
    | suspended | store | ledger | schema | deadlineExceeded | timeout | other =>
      exact Proc.forget_bind_of_eq (Proc.forget_unnoted _) fun _ => rfl
  · exact Proc.forget_bind_of_eq (Proc.forget_unnoted _) fun _ => rfl

end LocalRuntime

/-! ### Positions in the tables -/

/-- What a step of the machine writes to the position of a run. -/
theorem RunView.Step.position_cases {v v' : RunView} {a : RunAction} {row' : RunRow}
    (h : v.Step a v') (hrow' : v'.row = some row') :
    (∃ row, v.row = some row ∧ row'.planId = row.planId ∧ row'.nextNodes = row.nextNodes) ∨
      (∃ run, a = .create run ∧ row'.planId = run.planId ∧ row'.nextNodes = run.nextNodes) ∨
      (∃ row c, v.row = some row ∧ a = .commit c ∧ row'.planId = row.planId ∧
        row'.nextNodes = c.nextNodes) ∨
      ∃ target state nextNodes, a = .transition target state (some nextNodes) := by
  cases h with
  | stay | logEvent | appendCheckpoint | renew | release =>
    exact Or.inl ⟨row', hrow', rfl, rfl⟩
  | create fingerprint hrow =>
    cases hrow'
    exact Or.inr (Or.inl ⟨_, rfl, rfl, rfl⟩)
  | @transition row _ target state nextNodes _ hrow =>
    cases hrow'
    rcases nextNodes with _ | nextNodes
    · exact Or.inl ⟨row, hrow, rfl, rfl⟩
    · exact Or.inr (Or.inr (Or.inr ⟨target, state, nextNodes, rfl⟩))
  | commit hrow =>
    cases hrow'
    exact Or.inr (Or.inr (Or.inl ⟨_, _, hrow, rfl, rfl, rfl⟩))
  | claim _ hrow | decide _ hrow | expire _ hrow | requeue _ hrow | finish _ _ hrow
  | interrupt _ _ hrow =>
    cases hrow'
    exact Or.inl ⟨_, hrow, rfl, rfl⟩

section Tables

variable (plan : ExecutionPlan)

/-- Every run of the plan is at a position of it. -/
def World.Positioned (w : World) : Prop :=
  ∀ i, ∀ row ∈ w.db.runs.find? i, row.planId = plan.id → plan.Position row.nextNodes

/-- A command that writes the position of a run of the plan writes one of the plan. -/
def Cmd.KeepsPositions (c : Cmd) (w : World) : Prop :=
  match c with
  | .store (.createRun run) => run.planId = plan.id → plan.Position run.nextNodes
  | .store (.commitCheckpoint checkpoint _ _ _) => ∀ row ∈ w.db.runs.find? checkpoint.runId,
    row.planId = plan.id → plan.Position checkpoint.nextNodes
  | .store (.transitionRun _ _ _ _ nextNodes) => nextNodes = none
  | _ => True

variable {plan} {sha : Sha256} {w : World}

theorem World.Positioned.exec (h : w.Positioned plan) {c : Cmd} (input : Input)
    (hc : c.KeepsPositions plan w) : (World.exec sha c input w).2.Positioned plan := by
  cases c with
  | ledger | now | uuid4 | elapsed | startTool | observe | context => exact h
  | store op =>
    intro i row' hrow' hplan
    obtain ⟨a, ha, hstep⟩ := SQLite.exists_step_perform sha ⟨op, input.clock⟩ w.db i
    have hcauses : op.Causes a := by
      rcases ha with rfl | ⟨r, ha⟩
      · exact .stay op
      · exact ha.causes
    rcases hstep.position_cases hrow' with ⟨row, hrow, hid, hnodes⟩ | ⟨run, rfl, hid, hnodes⟩ |
      ⟨row, checkpoint, hrow, rfl, hid, hnodes⟩ | ⟨target, state, nextNodes, rfl⟩
    · rw [hnodes]
      exact h i row hrow (hid.symm.trans hplan)
    · cases hcauses
      rw [hnodes]
      exact hc (hid.symm.trans hplan)
    · cases hcauses
      rcases ha with ha | ⟨r, ha⟩
      · cases ha
      have hi : i = checkpoint.runId := (Op.eq_of_only_ne_stay ha fun hstay => by cases hstay).1
      rw [hnodes]
      exact hc row (hi ▸ hrow) (hid.symm.trans hplan)
    · cases hcauses
      cases hc

end Tables

/-! ### What the attempts of a step return -/

namespace StepExecutor

variable (x : StepExecutor) (run : Run) (node : NodeSpec) (sequence : ℕ)

/-- What an attempt returns, the script of its handler has returned. -/
theorem returns_attempt {script : Script} (h : script.Returns node.Admits) :
    (x.attempt run node sequence script).Returns fun r => ∀ result, r = .ok result →
      node.Admits (.returns result.1 result.2) := by
  refine (h.interpret (x.answer run node sequence) Empty.elim).bind fun ending hending => ?_
  rcases ending with ⟨value, left⟩ | ⟨e, left⟩
  · have hreturn : ∀ result, Except.ok (value, left) =
        (Except.ok result : Except (Exn × JsonObject) (Except Exn Json × JsonObject)) →
        node.Admits (.returns result.1 result.2) := by
      intro result hresult
      cases hresult
      exact hending
    dsimp only
    rcases node.timeoutSeconds with _ | seconds
    · exact hreturn
    · intro late
      cases late with
      | false => exact hreturn
      | true => exact fun result hresult => by cases hresult
  · exact fun result hresult => by cases hresult

theorem returns_execute {handler : JsonObject → Script}
    (h : ∀ state, (handler state).Returns node.Admits) (left number : ℕ) (state : JsonObject) :
    (x.execute run node sequence handler left number state).Returns fun r =>
      node.Admits (.returns r.1 r.2) := by
  induction left generalizing number state with
  | zero =>
    rw [execute]
    refine (x.returns_attempt run node sequence (h state)).bind fun r hr => ?_
    rcases r with ⟨e, state'⟩ | result
    · exact (Proc.returns_of_forall (P := fun _ => True) (fun _ => trivial) _).bind
        fun _ _ => trivial
    · exact hr result rfl
  | succ left ih =>
    rw [execute]
    refine (x.returns_attempt run node sequence (h state)).bind fun r hr => ?_
    rcases r with ⟨e, state'⟩ | result
    · exact (Proc.returns_of_forall (P := fun _ => True) (fun _ => trivial) _).bind
        fun _ _ => ih (number + 1) state'
    · exact hr result rfl

end StepExecutor

/-! ### Programs -/

/-- The handlers of a registered plan return what they are to return. -/
def Registration.Admitted (registration : Registration) : Prop :=
  ∀ node ∈ registration.plan.nodes, ∀ context state,
    (registration.handler node.id context state).Returns node.Admits

/-- No step of a plan has more than one successor. -/
def ExecutionPlan.Single (plan : ExecutionPlan) : Prop :=
  ∀ node ∈ plan.nodes, node.kind ≠ .router → node.successors.length ≤ 1

/-- A run as a worker has it in memory: it is stored as a run of the plan with an id, and it is at a
position if that is the plan in question. -/
structure World.Current (plan : ExecutionPlan) (w : World) (planId : UUID) (run : Run) : Prop where
  row : ∃ row ∈ w.db.runs.find? run.id, row.planId = planId
  position : planId = plan.id → plan.Position run.nextNodes

theorem World.Current.mono {plan : ExecutionPlan} {w w' : World} {planId : UUID} {run : Run}
    (h : w.Current plan planId run) (hkeeps : w.KeepsRequests w') :
    w'.Current plan planId run := by
  obtain ⟨row, hrow, hplan⟩ := h.row
  obtain ⟨row', hrow', hsame⟩ := hkeeps _ row hrow
  exact ⟨⟨row', hrow', (congrArg RunRequest.planId hsame).trans hplan⟩, h.position⟩

section Programs

variable (sha : Sha256) (plan : ExecutionPlan)

/-- A program that keeps the runs of the plan at positions, among others that leave the requests of
runs alone. -/
abbrev Steady {ε α : Type} (Q : Except ε α → World → Prop) (p : Proc Cmd Cmd.Answer ε α)
    (w : World) : Prop :=
  p.Safe (World.exec sha) (World.Positioned plan) World.KeepsRequests (fun _ _ => True) Q w

/-- The same for a program that takes no note of a fault of the plan. -/
abbrev Faultless {α : Type} (Q : Except Exn α → World → Prop) (p : FaultyProcess α)
    (x : World × List FaultNote) : Prop :=
  Proc.NotedSafe (fun n => n.planId ≠ plan.id) (World.exec sha) (World.Positioned plan)
    World.KeepsRequests Q p x

variable {sha plan} {w : World} {x : World × List FaultNote} {planId : UUID} {run : Run}

theorem steady_perform {ε : Type} {c : Cmd}
    (hc : ∀ w', w.KeepsRequests w' → c.KeepsPositions plan w') :
    Steady sha plan (fun _ _ => True) (Proc.perform c : Proc Cmd Cmd.Answer ε c.Answer) w := by
  refine Proc.safe_call fun w₁ hR hI _ input => ⟨hI.exec input (hc w₁ hR), ?_, trivial⟩
  exact World.keepsRequests_exec sha c input w₁

theorem Cmd.OfSteps.keepsPositions {c : Cmd} (h : c.OfSteps) (w : World) :
    c.KeepsPositions plan w := by
  cases c with
  | store op =>
    cases op with
    | transitionRun => exact h.2
    | createRun | commitCheckpoint => exact h.elim
    | finishClaim | claimNext | getRun | latestCheckpoint | appendRunEvent | listInterrupts
    | createInterrupt | renewLease | listRuns | countRuns | listRunEvents | appendCheckpoint
    | listCheckpoints | getInterrupt | expireInterrupts | decideInterrupt | assertFencingToken
    | requeueExpiredLeases => trivial
  | ledger | now | uuid4 | elapsed | startTool | observe | context => trivial

theorem closedOnSteps_steady : ClosedOnSteps fun _ _ p =>
    ∀ w, Steady sha plan (fun _ _ => True) p w where
  toClosed := Proc.closed_safe
  command _ hc _ _ _ := steady_perform fun w' _ => hc.keepsPositions w'

/-- An operation of the run store, with a condition on what it returns. -/
theorem steady_store {op : Op} {Q : Except Exn op.Result → World → Prop}
    (hop : ∀ w₁, w.KeepsRequests w₁ → Cmd.KeepsPositions plan (.store op) w₁)
    (h : ∀ w₁ input r, w.KeepsRequests w₁ →
      (World.exec sha (.store op) input w₁).2.Positioned plan →
      (SQLite.perform sha ⟨op, input.clock⟩ w₁.db).1 = .ok r →
      Q (.ok r) (World.exec sha (.store op) input w₁).2)
    (herror : ∀ e w', Q (.error e) w') : Steady sha plan Q (store op) w := by
  refine safe_store fun w₁ hR hI _ input => ?_
  have hI' : (World.exec sha (.store op) input w₁).2.Positioned plan := hI.exec input (hop w₁ hR)
  refine ⟨hI', World.keepsRequests_exec sha _ input w₁, ?_⟩
  rcases hr : (SQLite.perform sha ⟨op, input.clock⟩ w₁.db).1 with e | r
  · exact herror _ _
  · exact h w₁ input r hR hI' hr

/-- A program, followed by one that is steady wherever a run is still as it is in memory. -/
theorem Steady.bind_keep {ε α β : Type} {p : Proc Cmd Cmd.Answer ε α}
    {Q : Except ε α → World → Prop} {f : α → Proc Cmd Cmd.Answer ε β}
    {Q' : Except ε β → World → Prop} (h : Steady sha plan Q p w)
    (hrun : w.Current plan planId run)
    (hf : ∀ a w', w'.Current plan planId run → Q (.ok a) w' → Steady sha plan Q' (f a) w')
    (herror : ∀ e w', Q (.error e) w' → Q' (.error e) w') : Steady sha plan Q' (p >>= f) w :=
  (h.keep World.KeepsRequests.refl World.KeepsRequests.trans fun _ hR => hrun.mono hR).bind
    (fun a w' hw => hf a w' hw.1 hw.2) fun e w' hw => herror e w' hw.2

/-- The same for a program with notes. -/
theorem Faultless.bind_keep {α β : Type} {p : FaultyProcess α} {Q : Except Exn α → World → Prop}
    {f : α → FaultyProcess β} {Q' : Except Exn β → World → Prop} (h : Faultless sha plan Q p x)
    (hrun : x.1.Current plan planId run)
    (hf : ∀ a y, y.1.Current plan planId run → Q (.ok a) y.1 → Faultless sha plan Q' (f a) y)
    (herror : ∀ e w', Q (.error e) w' → Q' (.error e) w') :
    Faultless sha plan Q' (p >>= f) x :=
  (h.keep (R := fun y z : World × List FaultNote => y.1.KeepsRequests z.1)
      (fun _ => .refl _) (fun _ _ _ => .trans _ _ _)
      (K := fun y => y.1.Current plan planId run) fun _ hR => hrun.mono hR).bind
    (fun a y hy => hf a y hy.1 hy.2) fun e y hy => herror e y.1 hy.2

/-- A run that was read is at a position. -/
theorem World.current_of_stored (hw : w.Positioned plan) (h : SQLite.Stored w.db run) :
    w.Current plan run.planId run := by
  obtain ⟨row, hrow, hread⟩ := h
  obtain ⟨haware, hrun⟩ := SQLite.runFromRow_eq_ok.mp hread
  have hplan : row.planId = run.planId := congrArg Run.planId hrun
  have hnodes : row.nextNodes = run.nextNodes := congrArg Run.nextNodes hrun
  refine ⟨⟨row, hrow, hplan⟩, fun hp => ?_⟩
  rw [← hnodes]
  exact hw _ row hrow (hplan.trans hp)

/-- A commit of a position of the plan of the run returns the run at a position. -/
theorem steady_commitCheckpoint {checkpoint : Checkpoint} {workerId : String} {token v : ℤ}
    (hrun : w.Current plan planId run) (hid : checkpoint.runId = run.id)
    (hposition : planId = plan.id → plan.Position checkpoint.nextNodes) :
    Steady sha plan (fun r w' => ∀ run', r = .ok run' → w'.Current plan planId run')
      (store (.commitCheckpoint checkpoint workerId token v)) w := by
  refine steady_store (fun w₁ hR row hrow hp => ?_) (fun w₁ input r hR hI hr run' hrun' => ?_)
    fun _ _ _ h => by cases h
  · obtain ⟨row', hrow', hplan⟩ := (hrun.mono hR).row
    rw [hid] at hrow
    cases hrow'.symm.trans hrow
    exact hposition (hplan.symm.trans hp)
  · cases hrun'
    obtain ⟨c', hy, hdb⟩ := World.exists_yields_of_ok sha hr
    have hwrote := (SQLite.wrote_commitCheckpoint hy).2
    have hcurrent := World.current_of_stored hI (hdb ▸ hwrote.stored)
    have hkeeps := World.keepsRequests_exec sha
      (.store (.commitCheckpoint checkpoint workerId token v)) input w₁
    obtain ⟨row', hrow', hplan⟩ := ((hrun.mono hR).mono hkeeps).row
    obtain ⟨row, hrow, hrowPlan⟩ := hcurrent.row
    rw [hwrote.id_eq, hid] at hrow
    cases hrow'.symm.trans hrow
    rw [← hplan, hrowPlan]
    exact hcurrent

namespace LocalRuntime

variable (rt : LocalRuntime)

theorem steady_commit (claim : ClaimedRun) (p : ExecutionPlan) (latest : Option Checkpoint)
    (state : JsonObject) {nextNodes : List String} (hrun : w.Current plan planId run)
    (hposition : planId = plan.id → plan.Position nextNodes) :
    Steady sha plan (fun r w' => ∀ run', r = .ok run' → w'.Current plan planId run')
      (rt.commit claim p run latest state nextNodes) w := by
  have hG : ClosedOnSteps fun _ _ p => ∀ w, Steady sha plan (fun _ _ => True) p w :=
    closedOnSteps_steady
  have herror : ∀ (e : Exn) (w' : World) (run' : Run),
      (Except.error e : Except Exn Run) = .ok run' → w'.Current plan planId run' :=
    fun _ _ _ h => by cases h
  have hput : ∃ f : ℕ → Process Run, rt.commit claim p run latest state nextNodes =
      (if rt.effectLedger then ledger (.watermark run.id) >>= f else pure 0 >>= f) ∧
      ∀ n w, w.Current plan planId run → Steady sha plan
        (fun r w' => ∀ run', r = .ok run' → w'.Current plan planId run') (f n) w := by
    refine ⟨_, rfl, fun n w hrun => ?_⟩
    refine Steady.bind_keep (hG.uuid4 w) hrun (fun id w' hrun _ => ?_) fun e w' _ => herror e w'
    refine Steady.bind_keep (hG.now w') hrun (fun createdAt w' hrun _ => ?_)
      fun e w' _ => herror e w'
    refine Proc.safe_dite (fun aware => ?_) fun _ => herror _ w'
    exact steady_commitCheckpoint hrun rfl hposition
  obtain ⟨f, hf, hsteady⟩ := hput
  rw [hf]
  refine Proc.safe_ite (fun _ => ?_) fun _ => hsteady 0 w hrun
  exact Steady.bind_keep (hG.ledger (.watermark run.id) trivial w) hrun
    (fun n w' hrun _ => hsteady n w' hrun) fun e w' _ => herror e w'

/-- A fault that is noted is none of the plan. -/
theorem faultless_noteFault {fault : Option Fault} (h : planId ≠ plan.id ∨ fault = none) :
    Faultless sha plan (fun _ _ => True) (noteFault planId fault) x := by
  cases fault with
  | none => trivial
  | some fault =>
    have hplan : planId ≠ plan.id := h.resolve_right (Option.some_ne_none _)
    exact Proc.notedSafe_note (P := fun n : FaultNote => n.planId ≠ plan.id)
      World.KeepsRequests.refl hplan x

/-- Tools do not concern positions. -/
theorem steady_executeTool (t : ToolExecutor) (call : ToolCall) (w : World) :
    Steady sha plan (fun _ _ => True) (t.execute call) w :=
  t.closed_execute closedOnSteps_steady call
    (fun invocationId _ => steady_perform (c := .startTool call invocationId) fun _ _ => trivial)
    (fun id => closedOnSteps_steady.bind
      (fun _ => steady_perform (c := .ledger (.markDispatched id)) fun _ _ => trivial)
      fun _ => closedOnSteps_steady.ofExcept _) w

theorem steady_context (c : ContextCmd) (w : World) :
    Steady sha plan (fun _ _ => True) (Process.context c) w :=
  steady_perform (c := .context c) fun _ _ => trivial

/-- A run at a position is moved to a position, without a fault. -/
theorem faultless_executeNodeNoted {claim : ClaimedRun} {registration : Registration}
    (hregistered : claim.run.planId = plan.id →
      registration.plan = plan ∧ registration.Admitted) (hsingle : plan.Single)
    (context : RunContext) {nodeId : String} (hrun : x.1.Current plan claim.run.planId run)
    (hnode : nodeId ∈ run.nextNodes) :
    Faultless sha plan
      (fun r w' => ∀ run', r = .ok run' → w'.Current plan claim.run.planId run')
      (rt.executeNodeNoted claim registration context run nodeId) x := by
  have hG : ClosedOnSteps fun _ _ p => ∀ w, Steady sha plan (fun _ _ => True) p w :=
    closedOnSteps_steady
  have herror : ∀ (e : Exn) (w' : World), True → ∀ run' : Run,
      (Except.error e : Except Exn Run) = .ok run' → w'.Current plan claim.run.planId run' :=
    fun _ _ _ _ h => by cases h
  rw [executeNodeNoted]
  rcases hfound : registration.plan.node? nodeId with _ | node
  · -- The next node of a run of the plan is one of the plan.
    have hplan : claim.run.planId ≠ plan.id := by
      intro hplan
      obtain ⟨rfl, -⟩ := hregistered hplan
      obtain ⟨node, hnode'⟩ := registration.plan.exists_node? (hrun.position hplan _ hnode)
      cases hfound.symm.trans hnode'
    exact Faultless.bind_keep (faultless_noteFault (Or.inl hplan)) hrun
      (fun _ _ _ _ _ h => by cases h) herror
  have hmem := ExecutionPlan.mem_of_node? hfound
  refine Faultless.bind_keep (Proc.Safe.unnoted (hG.store (.latestCheckpoint run.id) trivial x.1))
    hrun (fun latest y hrun _ => ?_) herror
  refine Faultless.bind_keep (Proc.Safe.unnoted (closed_giveContext hG steady_context run node
    context y.1)) hrun (fun _ y hrun _ => ?_) herror
  -- What the handler of a node of the plan returns is what it is to return.
  have hreturns : ∀ stepContext sequence, (rt.steps.execute run node sequence
      (registration.handler node.id stepContext) (node.maxAttempts - 1) 1 run.state).Returns
      fun r => claim.run.planId = plan.id → node.Admits (.returns r.1 r.2) := by
    intro stepContext sequence
    by_cases hplan : claim.run.planId = plan.id
    · have hhandler := (hregistered hplan).2 node hmem stepContext
      exact (rt.steps.returns_execute run node sequence hhandler _ _ _).imp fun r hr _ => hr
    · exact Proc.returns_of_forall (fun r hr => absurd hr hplan) _
  have hexecute := rt.steps.closed_execute hG run node
    ((latest.map Checkpoint.sequence).getD 0 + 1) (steady_executeTool rt.steps.executor)
  refine Faultless.bind_keep (Proc.Safe.unnoted ((hexecute _ _ _ _ y.1).and_returns
    (hreturns _ _))) hrun (fun result y hrun hresult => ?_) fun _ _ _ _ h => by cases h
  have hadmits := hresult.2 result rfl
  have hfault : claim.run.planId ≠ plan.id ∨ node.fault? result.1 = none := by
    by_cases hplan : claim.run.planId = plan.id
    · refine Or.inr (NodeSpec.fault?_eq_none (hadmits hplan) (hsingle node ?_))
      exact (hregistered hplan).1 ▸ hmem
    · exact Or.inl hplan
  refine Faultless.bind_keep (faultless_noteFault hfault) hrun (fun _ y hrun _ => ?_) herror
  rcases result.1 with e | value
  · exact fun _ h => by cases h
  change Faultless sha plan _ (Proc.bind (.ofExcept (rt.nextPosition node value result.2)) _) y
  rcases hposition : rt.nextPosition node value result.2 with e | ⟨state, nextNodes⟩
  · exact fun _ h => by cases h
  have hnext : claim.run.planId = plan.id → plan.Position nextNodes := by
    intro hplan
    obtain ⟨rfl, -⟩ := hregistered hplan
    exact ExecutionPlan.position_of_subset hmem (subset_of_nextPosition hposition)
  change Faultless sha plan _ (Proc.bind (.ofExcept (rt.validateState registration.plan state)) _) y
  rcases rt.validateState registration.plan state with e | u
  · exact fun _ h => by cases h
  refine Proc.safe_ite (fun _ => ?_) fun _ => ?_
  · exact Proc.Safe.unnoted (rt.steady_commit claim registration.plan latest state hrun hnext)
  · intro run' h
    cases h
    exact ⟨hrun.row, hnext⟩

/-- The loop of a claim executes its nodes without a fault. -/
theorem faultless_executeNodesNoted {claim : ClaimedRun} {registration : Registration}
    (hregistered : claim.run.planId = plan.id →
      registration.plan = plan ∧ registration.Admitted) (hsingle : plan.Single)
    (context : RunContext) (maxSteps : Option ℤ) (fuel steps : ℕ)
    (hrun : x.1.Current plan claim.run.planId run) :
    Faultless sha plan (fun _ _ => True)
      (rt.executeNodesNoted claim registration context maxSteps fuel run steps) x := by
  have hG : ClosedOnSteps fun _ _ p => ∀ w, Steady sha plan (fun _ _ => True) p w :=
    closedOnSteps_steady
  induction fuel generalizing run steps x with
  | zero => trivial
  | succ fuel ih =>
    rw [executeNodesNoted]
    rcases hnodes : run.nextNodes with _ | ⟨nodeId, rest⟩
    · trivial
    refine Proc.safe_ite (fun _ => ?_) fun _ => trivial
    change Faultless sha plan (fun _ _ => True) _ x
    refine Faultless.bind_keep (Proc.Safe.unnoted (closed_ensureActive hG context x.1)) hrun
      (fun _ y hrun _ => ?_) fun _ _ _ => trivial
    refine Faultless.bind_keep (Proc.Safe.unnoted (hG.store (.getRun run.id) trivial y.1)) hrun
      (fun durable y hrun _ => ?_) fun _ _ _ => trivial
    refine Proc.safe_ite (fun _ => trivial) fun _ => ?_
    change Faultless sha plan (fun _ _ => True) _ y
    refine Faultless.bind_keep (Q := fun _ _ => True) (Proc.closed_safe.throwUnless _ _ y) hrun
      (fun _ y hrun _ => ?_) fun _ _ _ => trivial
    refine (rt.faultless_executeNodeNoted hregistered hsingle context hrun ?_).bind
      (fun run' y hrun' => ?_) fun _ _ _ => trivial
    · rw [hnodes]
      exact List.mem_cons_self
    · exact ih (steps + 1) (hrun' run' rfl)

/-- A claim of a run at a position is executed without a fault of the plan. -/
theorem faultless_executeClaimNoted (hregistered : ∀ registration,
      rt.registrations plan.id = some registration →
        registration.plan = plan ∧ registration.Admitted)
    (hsingle : plan.Single) (fuel : ℕ) {claim : ClaimedRun} (maxSteps : Option ℤ)
    (hrun : x.1.Current plan claim.run.planId claim.run) :
    Faultless sha plan (fun _ _ => True) (rt.executeClaimNoted fuel claim maxSteps) x := by
  have hG : ClosedOnSteps fun _ _ p => ∀ w, Steady sha plan (fun _ _ => True) p w :=
    closedOnSteps_steady
  rw [executeClaimNoted]
  rcases hfound : rt.registrations claim.run.planId with _ | registration
  · trivial
  refine Faultless.bind_keep (Proc.Safe.unnoted (rt.closed_contextOf hG steady_context claim.run
    x.1)) hrun (fun context y hrun _ => ?_) fun _ _ _ => trivial
  refine Faultless.bind_keep (Proc.Safe.unnoted (hG.store (.latestCheckpoint claim.run.id) trivial
    y.1)) hrun (fun latest y hrun _ => ?_) fun _ _ _ => trivial
  refine Faultless.bind_keep (Q := fun _ _ => True) (Proc.closed_safe.throwUnless _ _ y) hrun
    (fun _ y hrun _ => ?_) fun _ _ _ => trivial
  have hthis : claim.run.planId = plan.id → registration.plan = plan ∧ registration.Admitted :=
    fun hplan => hregistered registration (hplan ▸ hfound)
  refine (rt.faultless_executeNodesNoted hthis hsingle context maxSteps fuel 0 hrun).bind
    (fun result y _ => ?_) fun _ _ _ => trivial
  rcases result with durable | run
  · trivial
  · exact Proc.safe_ite (fun _ => Proc.Safe.unnoted
      (hG.store (.finishClaim _ _ _ _ .succeeded _ _) rfl y.1)) fun _ => trivial

/-- A run that is claimed is at a position. -/
theorem steady_claimNext (workerId : String) (leaseSeconds : Seconds)
    (givenNow : Option Datetime) (w : World) :
    Steady sha plan (fun r w' => ∀ claim : ClaimedRun, r = .ok (some claim) →
        w'.Current plan claim.run.planId claim.run)
      (store (.claimNext workerId leaseSeconds givenNow)) w := by
  refine steady_store (fun _ _ => trivial) (fun w₁ input r _ hI hr claim hclaim => ?_)
    fun _ _ _ h => by cases h
  obtain ⟨c', hy, hdb⟩ := World.exists_yields_of_ok sha hr
  rcases SQLite.claimed_claimNext hy with ⟨rfl, -⟩ | ⟨claimed, rfl, -, hclaimed⟩
  · cases hclaim
  · cases hclaim
    exact World.current_of_stored hI (hdb ▸ hclaimed.stored)

theorem steady_endClaim (claim : ClaimedRun) (workerId : String) (e : Exn) (w : World) :
    Steady sha plan (fun _ _ => True) (rt.endClaim claim workerId e) w := by
  have hG : ClosedOnSteps fun _ _ p => ∀ w, Steady sha plan (fun _ _ => True) p w :=
    closedOnSteps_steady
  refine rt.closed_endClaim hG (rt.closed_forgetContextIfTerminal hG steady_context) claim
    workerId e (fun v data => ?_) w
  have hfinish : ∀ w, Cmd.KeepsPositions plan (.store (.finishClaim claim.run.id workerId
      claim.lease.fencingToken v (failureTarget e) "run.execution.failed" data)) w :=
    fun _ => trivial
  exact hG.bind (fun _ => steady_perform fun w' _ => hfinish w') fun _ => hG.ofExcept _

/-- A worker executes the runs of the plan without a fault. -/
theorem faultless_workOnceNoted (hregistered : ∀ registration,
      rt.registrations plan.id = some registration →
        registration.plan = plan ∧ registration.Admitted)
    (hsingle : plan.Single) (fuel : ℕ) (workerId : String) (leaseSeconds : Seconds)
    (maxSteps : Option ℤ) (givenNow : Option Datetime) (x : World × List FaultNote) :
    Faultless sha plan (fun _ _ => True)
      (rt.workOnceNoted fuel workerId leaseSeconds maxSteps givenNow) x := by
  have hG : ClosedOnSteps fun _ _ p => ∀ w, Steady sha plan (fun _ _ => True) p w :=
    closedOnSteps_steady
  have hforget := fun run => rt.closed_forgetContextIfTerminal hG steady_context run
  refine Proc.Safe.bind (Proc.Safe.unnoted (steady_claimNext workerId leaseSeconds givenNow x.1))
    (fun claimed y hclaimed => ?_) fun _ _ _ => trivial
  rcases claimed with _ | claim
  · trivial
  refine (rt.faultless_executeClaimNoted hregistered hsingle fuel maxSteps
    (hclaimed claim rfl)).attempt_bind fun result y _ => ?_
  rcases result with e | run
  · cases e with
    | suspended message =>
      exact Proc.Safe.bind (Proc.Safe.unnoted (hG.store (.getRun claim.run.id) trivial y.1))
        (fun _ _ _ => trivial) fun _ _ _ => trivial
    | store | ledger | schema | deadlineExceeded | timeout | other =>
      exact Proc.Safe.bind (Proc.Safe.unnoted (rt.steady_endClaim claim workerId _ y.1))
        (fun _ _ _ => trivial) fun _ _ _ => trivial
  · exact Proc.Safe.bind (Proc.Safe.unnoted (hforget run y.1)) (fun _ _ _ => trivial)
      fun _ _ _ => trivial

/-- A submission of the plan puts a run at its entrypoint. -/
theorem steady_submit {s : Submission} (hs : s.plan.id = plan.id → s.plan = plan) (w : World) :
    Steady sha plan (fun _ _ => True) (rt.submit s) w := by
  have hG : ClosedOnSteps fun _ _ p => ∀ w, Steady sha plan (fun _ _ => True) p w :=
    closedOnSteps_steady
  refine hG.bind (closed_ensureActive hG s.context) (fun _ => ?_) w
  refine hG.bind (hG.ofExcept _) fun _ => hG.bind hG.now fun createdAt =>
    hG.bind hG.uuid4 fun id => ?_
  intro w
  rcases hcreate : Run.create s id createdAt with e | run
  · rw [check]
    trivial
  have hposition : run.planId = plan.id → plan.Position run.nextNodes := by
    rw [Run.create] at hcreate
    split_ifs at hcreate
    cases hcreate
    intro hplan id hid
    obtain rfl := hs hplan
    rw [List.mem_singleton.mp hid]
    exact s.plan.entrypoint_mem
  have hstore : Steady sha plan (fun _ _ => True) (store (.createRun run)) w :=
    steady_store (fun _ _ => hposition) (fun _ _ _ _ _ _ => trivial) fun _ _ => trivial
  exact hstore.bind (fun created w' _ => (steady_context (.set rt.number created.id s.context)
    w').bind (fun _ _ _ => trivial) fun _ _ _ => trivial) fun _ _ _ => trivial

end LocalRuntime

end Programs

/-! ### Systems that execute a plan -/

/-- The commands that write no position. -/
def Cmd.Unmoved : Cmd → Prop
  | .store (.createRun _) | .store (.commitCheckpoint _ _ _ _) => False
  | .store (.transitionRun _ _ _ _ nextNodes) => nextNodes = none
  | _ => True

theorem Cmd.Unmoved.keepsPositions {c : Cmd} (h : c.Unmoved) (plan : ExecutionPlan) (w : World) :
    c.KeepsPositions plan w := by
  cases c with
  | store op =>
    cases op with
    | transitionRun => exact h
    | createRun | commitCheckpoint => exact h.elim
    | finishClaim | claimNext | getRun | latestCheckpoint | appendRunEvent | listInterrupts
    | createInterrupt | renewLease | listRuns | countRuns | listRunEvents | appendCheckpoint
    | listCheckpoints | getInterrupt | expireInterrupts | decideInterrupt | assertFencingToken
    | requeueExpiredLeases => trivial
  | ledger | now | uuid4 | elapsed | startTool | observe | context => trivial

/-- The processes of a system that executes runs of a plan: submissions and workers of any runtimes,
which know no other plan under its id and whose handlers return what they are to return, and any
processes that write no positions. -/
inductive Operated (plan : ExecutionPlan) : FaultyProcess Outcome → Prop
  | submit (rt : LocalRuntime) (s : Submission) (h : s.plan.id = plan.id → s.plan = plan) :
      Operated plan (Proc.unnoted do
        let _ ← rt.submit s
        pure .done)
  | work (rt : LocalRuntime) (fuel : ℕ) (workerId : String) (leaseSeconds : Seconds)
      (maxSteps : Option ℤ) (givenNow : Option Datetime)
      (h : ∀ registration, rt.registrations plan.id = some registration →
        registration.plan = plan ∧ registration.Admitted) :
      Operated plan do
        let r ← rt.workOnceNoted fuel workerId leaseSeconds maxSteps givenNow
        pure (.worked r)
  | other (p : Process Outcome) (h : p.Issues Cmd.Unmoved) : Operated plan p.unnoted

/-- The system before any submission. -/
structure Pool.Unsubmitted (plan : ExecutionPlan)
    (x : Pool (Cmd ⊕ FaultNote) (Proc.NotedAnswer Cmd.Answer FaultNote) Exn Outcome
      (World × List FaultNote)) : Prop where
  operated : ∀ p ∈ x.procs, Operated plan p
  runs_eq : x.state.1.db.runs = .empty
  notes_eq : x.state.2 = []

section Systems

variable {sha : Sha256} {plan : ExecutionPlan}

theorem Operated.faultless (hsingle : plan.Single) {p : FaultyProcess Outcome}
    (h : Operated plan p) (x : World × List FaultNote) :
    Faultless sha plan (fun _ _ => True) p x := by
  cases h with
  | submit rt s h =>
    exact Proc.Safe.unnoted ((rt.steady_submit h x.1).bind (fun _ _ _ => trivial)
      fun _ _ _ => trivial)
  | work rt fuel workerId leaseSeconds maxSteps givenNow h =>
    exact Proc.Safe.bind (rt.faultless_workOnceNoted h hsingle fuel workerId leaseSeconds maxSteps
      givenNow x) (fun _ _ _ => trivial) fun _ _ _ => trivial
  | other p h =>
    refine Proc.Safe.unnoted (h.safe (fun c hc w hI _ input => ?_) x.1)
    exact ⟨hI.exec input (hc.keepsPositions plan w), World.keepsRequests_exec sha c input w⟩

/-- Along every schedule, no worker notes a fault of a plan whose steps have at most one
successor. -/
theorem Pool.Unsubmitted.no_fault (hsingle : plan.Single)
    {x : Pool (Cmd ⊕ FaultNote) (Proc.NotedAnswer Cmd.Answer FaultNote) Exn Outcome
      (World × List FaultNote)} (hx : x.Unsubmitted plan) (schedule : List (ℕ × Input)) :
    ∀ n ∈ (x.run (Proc.notedExec (World.exec sha)) schedule).state.2, n.planId ≠ plan.id := by
  have hstart : Proc.NotedInvariant (fun n : FaultNote => n.planId ≠ plan.id)
      (World.Positioned plan) x.state := by
    refine ⟨fun i row hrow => ?_, fun n hn => ?_⟩
    · rw [hx.runs_eq] at hrow
      cases hrow
    · rw [hx.notes_eq] at hn
      exact absurd hn List.not_mem_nil
  have hsafe : x.Safe (Proc.notedExec (World.exec sha))
      (Proc.NotedInvariant (fun n : FaultNote => n.planId ≠ plan.id) (World.Positioned plan))
      (fun y z => y.1.KeepsRequests z.1) fun _ _ => True :=
    ⟨hstart, fun p hp => ⟨_, fun _ _ _ _ _ => trivial, (hx.operated p hp).faultless hsingle _⟩⟩
  exact (Pool.safe_run (fun _ => .refl _) (fun _ _ _ => .trans _ _ _) hsafe
    (Pool.along_of_forall (fun _ _ _ _ => trivial) schedule)).1.invariant.2

/-- **No structural fault.** Take a workflow that is compiled to a durable plan and whose methods,
but for the routers, have at most one successor. In a system of submissions and workers of any
runtimes among any other processes, along every schedule, no worker notes a fault at a node of a run
of the plan. A worker without its notes is the worker of the runtime. -/
theorem compiled_no_fault (sha : Sha256) {texts : Texts} {identity : PlanIdentity}
    {productionDurable : Bool} {stateSchema : JsonObject} {workflow : Workflow}
    {compiled : CompiledPlan}
    (hcompile : compile texts identity productionDurable stateSchema workflow = .ok compiled)
    (hdurable : compiled.durable = true)
    (hsingle : ∀ d ∈ workflow.discovered, d.2.kind ≠ .router → d.2.successors.length ≤ 1)
    {x : Pool (Cmd ⊕ FaultNote) (Proc.NotedAnswer Cmd.Answer FaultNote) Exn Outcome
      (World × List FaultNote)} (hx : x.Unsubmitted compiled.plan) (schedule : List (ℕ × Input)) :
    (∀ n ∈ (x.run (Proc.notedExec (World.exec sha)) schedule).state.2,
      n.planId ≠ compiled.plan.id) ∧
    ∀ (rt : LocalRuntime) (fuel : ℕ) (workerId : String) (leaseSeconds : Seconds)
      (maxSteps : Option ℤ) (givenNow : Option Datetime),
      (rt.workOnceNoted fuel workerId leaseSeconds maxSteps givenNow).forget =
        rt.workOnce fuel workerId leaseSeconds maxSteps givenNow := by
  refine ⟨hx.no_fault (fun node hnode hkind => ?_) schedule, LocalRuntime.forget_workOnceNoted⟩
  obtain ⟨d, hd, -, hkind', hsuccessors⟩ := exists_discovered_of_compile hcompile hdurable hnode
  rw [hsuccessors]
  exact hsingle d hd (hkind' ▸ hkind)

end Systems

/-! ### A sample -/

namespace Sample

/-- A marked step that leads to successors. -/
def markedStep (name : String) (entry : Bool) (successors : List String) : WorkflowMember where
  name := name
  qualname := name
  isAsync := false
  metadata := some ⟨.step, entry, successors, 1, .nonIdempotent, none, none, true,
    NodeMetadata.one_attempt⟩

/-- A workflow whose first step leads to other ones. -/
def branching (successors : List String) : Workflow where
  members := markedStep "first" true successors ::
    successors.map fun name => markedStep name false []
  forwardIsAsync := false

/-- The compiler for the sample workflows. -/
def compileBranching (successors : List String) : Except CompileError CompiledPlan :=
  compile texts ⟨run.planId, checkpoint.planHash, checkpoint.planHash_length⟩ false []
    (branching successors)

/-- What a sample workflow is compiled to. -/
def compiled (successors : List String) : CompiledPlan :=
  (compileBranching successors).toOption.getD ⟨(registration none).plan, false⟩

theorem compileBranching_eq {successors : List String}
    (h : (compileBranching successors).isOk = true) :
    compileBranching successors = .ok (compiled successors) := by
  rw [compiled]
  rcases hcompile : compileBranching successors with e | c
  · rw [hcompile] at h
    cases h
  · rfl

/-- A runtime that knows the sample workflow; its handlers return `None`. -/
def branchingRuntime (successors : List String) : LocalRuntime :=
  { runtime none with
    registrations := fun id => if id = run.planId then
      some ⟨(compiled successors).plan, fun _ _ state => .ret (.returns (.ok .null) state)⟩
    else none }

/-- The sample workflow is submitted and a worker executes it. -/
def branchingPool (successors : List String) :
    Pool (Cmd ⊕ FaultNote) (Proc.NotedAnswer Cmd.Answer FaultNote) Exn Outcome
      (World × List FaultNote) where
  state := (⟨.empty, .empty, [], .empty⟩, [])
  procs := [
    Proc.unnoted do
      let _ ← (branchingRuntime successors).submit
        { submission alice with plan := (compiled successors).plan }
      pure .done,
    do
      let r ← (branchingRuntime successors).workOnceNoted 2 "first" (.finite 30) none none
      pure (.worked r)]

/-- The submission, and the execution of the first step. -/
def branched : List (ℕ × Input) :=
  List.replicate 4 (0, input 1) ++ List.replicate 8 (1, input 2)

theorem unsubmitted_branchingPool {successors : List String}
    (hkinds : ∀ node ∈ (compiled successors).plan.nodes, node.kind ≠ .router) :
    (branchingPool successors).Unsubmitted (compiled successors).plan where
  operated p hp := by
    rcases List.mem_cons.mp hp with rfl | hp
    · exact .submit _ _ fun _ => rfl
    · obtain rfl := List.mem_singleton.mp hp
      refine .work _ _ _ _ _ _ fun registration hregistration => ?_
      obtain ⟨-, hregistration⟩ := Option.ite_none_right_eq_some.mp hregistration
      cases hregistration
      exact ⟨rfl, fun node hnode _ _ => hkinds node hnode⟩
  runs_eq := rfl
  notes_eq := rfl

end Sample

/-- A step with one successor is executed without a fault. -/
theorem compiled_no_fault_sample :
    (∀ n ∈ ((Sample.branchingPool ["second"]).run (Proc.notedExec (World.exec Sample.sha))
      Sample.branched).state.2, n.planId ≠ (Sample.compiled ["second"]).plan.id) ∧
    ∀ (rt : LocalRuntime) (fuel : ℕ) (workerId : String) (leaseSeconds : Seconds)
      (maxSteps : Option ℤ) (givenNow : Option Datetime),
      (rt.workOnceNoted fuel workerId leaseSeconds maxSteps givenNow).forget =
        rt.workOnce fuel workerId leaseSeconds maxSteps givenNow :=
  compiled_no_fault Sample.sha (Sample.compileBranching_eq (by decide +kernel))
    (by decide +kernel) (by decide +kernel) (Sample.unsubmitted_branchingPool (by decide +kernel))
    Sample.branched

/-- **A fault of a compiled plan.** A workflow whose first step has two successors is compiled to a
durable plan, and its run fails at that step, whose handler has returned `None`. -/
theorem compiled_fault :
    Sample.compileBranching ["second", "third"] = .ok (Sample.compiled ["second", "third"]) ∧
    (Sample.compiled ["second", "third"]).durable = true ∧
    (Sample.branchingPool ["second", "third"]).Unsubmitted
      (Sample.compiled ["second", "third"]).plan ∧
    ⟨(Sample.compiled ["second", "third"]).plan.id, .manySuccessors⟩ ∈
      ((Sample.branchingPool ["second", "third"]).run (Proc.notedExec (World.exec Sample.sha))
        Sample.branched).state.2 :=
  ⟨Sample.compileBranching_eq (by decide +kernel), by decide +kernel,
    Sample.unsubmitted_branchingPool (by decide +kernel), by decide +kernel⟩

end OpenRath
