import OpenRath.Adapters.Schema
import OpenRath.Definition.Plan
import OpenRath.Library.Reach
import OpenRath.Runtime.Effects

/-!
# The compiler of workflows

`WorkflowCompiler.compile` (`src/rath/definition/compiler.py`) makes an execution plan of the
methods of a workflow that were marked by the decorators `step` and `router`
(`src/rath/definition/decorators.py`). A workflow without such methods becomes one opaque node,
whose runs cannot be resumed.

A class is given by its callable members as `inspect.getmembers` lists them. The identity of the
plan, digests of its definition, is an argument. The name of a handler, the digest of its source and
the resources of a workflow are part of that identity only, and the two delays of a retry policy are
left out with it.

## Main definitions

* `NodeMetadata`, `NodeMetadata.step`, `NodeMetadata.router`: the decorators.
* `Workflow`, `compileNodes`, `validateNodes`, `compile`.

## Main results

* `validateNodes_eq_error_iff`: which nodes do not pass the validation.
* `compile_eq_ok`: the nodes of a compiled plan.
-/

namespace OpenRath

/-- What the compiler and the decorators raise. -/
inductive CompileError
  /-- `DefinitionError`. -/
  | definition (message : String)
  | valueError (message : String)
  | keyError (id : String)
deriving DecidableEq

/-! ### Decorators -/

/-- `_NodeMetadata`: the mark of a method. -/
structure NodeMetadata where
  kind : NodeKind
  entry : Bool
  successors : List String
  maxAttempts : ℕ
  effects : EffectClass
  idempotencyKey : Option String
  timeoutSeconds : Option Seconds
  checkpoint : Bool
  maxAttempts_pos : 1 ≤ maxAttempts

/-- Neither `None` nor empty. -/
def isTruthy (s : Option String) : Bool := s.any fun s => s ≠ ""

/-- Whether the step may be repeated although its effects may not. -/
def NodeMetadata.Unrepeatable (m : NodeMetadata) : Prop :=
  m.effects = .nonIdempotent ∧ 1 < m.maxAttempts ∧ isTruthy m.idempotencyKey = false

instance (m : NodeMetadata) : Decidable m.Unrepeatable := inferInstanceAs (Decidable (_ ∧ _))

/-- A callable member of a class. -/
structure WorkflowMember where
  name : String
  qualname : String
  isAsync : Bool
  metadata : Option NodeMetadata

namespace NodeMetadata

theorem one_attempt : 1 ≤ 1 := le_refl 1

/-- `_decorate`. -/
def decorate (member : WorkflowMember) (m : NodeMetadata) : Except CompileError WorkflowMember :=
  if member.metadata.isSome then
    .error (.valueError s!"{member.qualname} already has OpenRath node metadata")
  else if m.Unrepeatable then .error (.valueError "non-idempotent retries require idempotency_key")
  else .ok { member with metadata := some m }

/-- `step`. -/
def step (entry : Bool) (successors : List String) (maxAttempts : ℕ) (effects : EffectClass)
    (idempotencyKey : Option String) (timeoutSeconds : Option Seconds) (checkpoint : Bool)
    (maxAttempts_pos : 1 ≤ maxAttempts) (member : WorkflowMember) :
    Except CompileError WorkflowMember :=
  decorate member ⟨.step, entry, successors, maxAttempts, effects, idempotencyKey, timeoutSeconds,
    checkpoint, maxAttempts_pos⟩

/-- `router`. -/
def router (successors : List String) (entry : Bool) (member : WorkflowMember) :
    Except CompileError WorkflowMember :=
  if successors = [] then .error (.valueError "router successors must not be empty")
  else decorate member ⟨.router, entry, successors, 1, .none, none, none, true, one_attempt⟩

end NodeMetadata

/-! ### Nodes -/

/-- A workflow: the callable members of its class, and whether `forward` is a coroutine function. -/
structure Workflow where
  members : List WorkflowMember
  forwardIsAsync : Bool

/-- The members that were marked, with their marks. -/
def Workflow.discovered (w : Workflow) : List (WorkflowMember × NodeMetadata) :=
  w.members.filterMap fun member => member.metadata.map fun m => (member, m)

/-- `NodeSpec` for a marked method. -/
def NodeSpec.create (name : String) (isAsync : Bool) (m : NodeMetadata) :
    Except CompileError NodeSpec :=
  if id_not_blank : isBlank name = false then
    if m.timeoutSeconds.any Seconds.nonpos then
      .error (.valueError "node timeout_seconds must be greater than zero")
    else if m.Unrepeatable then
      .error (.valueError "non-idempotent retries require a stable idempotency key")
    else .ok
      { id := name
        kind := m.kind
        isAsync := isAsync
        maxAttempts := m.maxAttempts
        timeoutSeconds := m.timeoutSeconds
        checkpoint := m.checkpoint
        successors := m.successors
        id_not_blank := id_not_blank
        maxAttempts_pos := m.maxAttempts_pos }
  else .error (.valueError "node id must not be empty")

theorem legacy_not_blank : isBlank "legacy.forward" = false := by decide

/-- The node of a workflow without marked methods. -/
def NodeSpec.legacyForward (isAsync : Bool) : NodeSpec where
  id := "legacy.forward"
  kind := .opaqueCall
  isAsync := isAsync
  maxAttempts := 1
  timeoutSeconds := none
  checkpoint := false
  successors := []
  id_not_blank := legacy_not_blank
  maxAttempts_pos := NodeMetadata.one_attempt

/-- What the methods of a workflow are compiled to. -/
structure CompiledNodes where
  nodes : List NodeSpec
  entrypoint : String
  durable : Bool

/-- `_nodes`. -/
def compileNodes (w : Workflow) : Except CompileError CompiledNodes :=
  match w.discovered with
  | [] => .ok ⟨[.legacyForward w.forwardIsAsync], "legacy.forward", false⟩
  | discovered => do
    let nodes ← discovered.mapM fun d => NodeSpec.create d.1.name d.1.isAsync d.2
    match discovered.filter fun d => d.2.entry with
    | [entry] => .ok ⟨nodes, entry.1.name, true⟩
    | entries => .error (.definition
        s!"workflow must declare exactly one entrypoint; found {entries.length}")

/-! ### Validation -/

section Validation

variable (texts : Texts) (productionDurable : Bool)

/-- The checks of `_validate` for one node. -/
def validateNode (ids : List String) (node : NodeSpec) : Except CompileError Unit :=
  if productionDurable ∧ node.isAsync = false ∧ node.timeoutSeconds.isSome then
    .error (.definition ("synchronous durable steps cannot guarantee preemptive timeout; " ++
      "use an async handler or an isolated executor"))
  else match node.successors.find? fun successor => successor ∉ ids with
    | some successor => .error (.definition (s!"node {texts.repr (.str node.id)} references " ++
        s!"unknown successor {texts.repr (.str successor)}"))
    | none =>
      if node.kind = .router ∧ node.successors = [] then
        .error (.definition s!"router {texts.repr (.str node.id)} requires successors")
      else .ok ()

/-- The graph of the nodes. -/
def nodeGraph (nodes : List NodeSpec) : Graph String :=
  nodes.map fun node => (node.id, node.successors)

/-- `_validate`. -/
def validateNodes (nodes : List NodeSpec) (entrypoint : String) : Except CompileError Unit :=
  let ids := nodes.map NodeSpec.id
  if ids.Nodup then do
    nodes.forM (validateNode texts productionDurable ids)
    let reachable ← ((nodeGraph nodes).reach [entrypoint] []).mapError .keyError
    let unreachable := (ids.filter fun id => id ∉ reachable).insertionSort (· ≤ ·)
    if unreachable = [] then .ok ()
    else .error (.definition
      s!"unreachable workflow nodes: {texts.repr (.arr (unreachable.map .str))}")
  else .error (.definition "workflow node ids must be unique")

end Validation

/-- Nodes that pass `_validate`. -/
structure ValidNodes (nodes : List NodeSpec) (entrypoint : String) : Prop where
  nodup_ids : (nodes.map NodeSpec.id).Nodup
  successors_mem : ∀ node ∈ nodes, ∀ s ∈ node.successors, s ∈ nodes.map NodeSpec.id
  router_successors : ∀ node ∈ nodes, node.kind = .router → node.successors ≠ []
  entrypoint_mem : entrypoint ∈ nodes.map NodeSpec.id
  path : ∀ node ∈ nodes, Relation.ReflTransGen (nodeGraph nodes).Edge entrypoint node.id

section Validation

variable {texts : Texts} {productionDurable : Bool} {ids : List String} {node : NodeSpec}
  {nodes : List NodeSpec} {entrypoint : String}

theorem validateNode_eq_ok (h : validateNode texts productionDurable ids node = .ok ()) :
    (∀ s ∈ node.successors, s ∈ ids) ∧ (node.kind = .router → node.successors ≠ []) := by
  rw [validateNode] at h
  split_ifs at h with hsync hrouter
  · split at h <;> cases h
  · split at h
    · cases h
    · next hnone =>
      refine ⟨fun s hs => ?_, fun hkind hnil => hrouter ⟨hkind, hnil⟩⟩
      have hmem := List.find?_eq_none.mp hnone s hs
      simpa using hmem

theorem ValidNodes.of_validateNodes
    (h : validateNodes texts productionDurable nodes entrypoint = .ok ()) :
    ValidNodes nodes entrypoint := by
  rw [validateNodes] at h
  split_ifs at h with hnodup
  obtain ⟨_, hnodes, h⟩ := exists_of_bind_eq_ok h
  obtain ⟨reachable, hreach, h⟩ := exists_of_bind_eq_ok h
  dsimp only at h
  split_ifs at h with hunreachable
  have hreach' : (nodeGraph nodes).reach [entrypoint] [] = .ok reachable := by
    rcases hresult : (nodeGraph nodes).reach [entrypoint] [] with e | found
    · rw [hresult] at hreach
      cases hreach
    · rw [hresult] at hreach
      cases hreach
      rfl
  have hall : ∀ id ∈ nodes.map NodeSpec.id, id ∈ reachable := by
    intro id hid
    by_contra hnot
    have hmem : id ∈ ((nodes.map NodeSpec.id).filter fun id => id ∉ reachable).insertionSort
        (· ≤ ·) :=
      (List.mem_insertionSort _).mpr (List.mem_filter.mpr ⟨hid, decide_eq_true hnot⟩)
    rw [hunreachable] at hmem
    exact List.not_mem_nil hmem
  constructor
  · exact hnodup
  · exact fun node hnode => (validateNode_eq_ok (forM_eq_ok_iff.mp hnodes node hnode)).1
  · exact fun node hnode => (validateNode_eq_ok (forM_eq_ok_iff.mp hnodes node hnode)).2
  · obtain ⟨next, hnext⟩ := Option.isSome_iff_exists.mp (Graph.isSome_lookup_of_reach hreach')
    obtain ⟨node, hnode, heq⟩ := List.mem_map.mp (Graph.mem_of_lookup hnext)
    cases heq
    exact List.mem_map_of_mem hnode
  · intro node hnode
    rcases Graph.exists_of_mem_reach hreach' (hall node.id (List.mem_map_of_mem hnode))
      with hnil | ⟨a, ha, hpath⟩
    · exact absurd hnil List.not_mem_nil
    · cases List.mem_singleton.mp ha
      exact hpath

/-- What the checks of a node find out, without the one for production. -/
theorem validateNode_cases (texts : Texts) (ids : List String) (node : NodeSpec) :
    (validateNode texts false ids node = .ok () ∧ (∀ s ∈ node.successors, s ∈ ids) ∧
      (node.kind = .router → node.successors ≠ [])) ∨
    (∃ message, validateNode texts false ids node = .error (.definition message)) ∧
      ((∃ s ∈ node.successors, s ∉ ids) ∨ node.kind = .router ∧ node.successors = []) := by
  rw [validateNode, if_neg fun h => Bool.false_ne_true h.1]
  rcases hfind : node.successors.find? fun successor => successor ∉ ids with _ | successor
  · have hall : ∀ s ∈ node.successors, s ∈ ids := by
      intro s hs
      by_contra hnot
      exact List.find?_eq_none.mp hfind s hs (decide_eq_true hnot)
    by_cases hrouter : node.kind = .router ∧ node.successors = []
    · dsimp only
      rw [if_pos hrouter]
      exact Or.inr ⟨⟨_, rfl⟩, Or.inr hrouter⟩
    · dsimp only
      rw [if_neg hrouter]
      exact Or.inl ⟨rfl, hall, fun hkind hnil => hrouter ⟨hkind, hnil⟩⟩
  · have hmissing : successor ∉ ids := by simpa using List.find?_some hfind
    exact Or.inr ⟨⟨_, rfl⟩, Or.inl ⟨successor, List.mem_of_find?_eq_some hfind, hmissing⟩⟩

/-- The search for the nodes that can be reached does not fail. -/
theorem exists_reach_eq_ok (hids : ∀ node ∈ nodes, ∀ s ∈ node.successors, s ∈ nodes.map NodeSpec.id)
    (hentrypoint : entrypoint ∈ nodes.map NodeSpec.id) :
    ∃ found, (nodeGraph nodes).reach [entrypoint] [] = .ok found := by
  rcases hreach : (nodeGraph nodes).reach [entrypoint] [] with id | found
  · obtain ⟨hnone, a, ha, hpath⟩ := Graph.lookup_of_reach_error hreach
    have hmem : id ∈ nodes.map NodeSpec.id := by
      cases List.mem_singleton.mp ha
      induction hpath with
      | refl => exact hentrypoint
      | tail _ hedge _ =>
        obtain ⟨next, hnext, hid⟩ := hedge
        obtain ⟨node, hnode, heq⟩ := List.mem_map.mp (Graph.mem_of_lookup hnext)
        cases heq
        exact hids node hnode _ hid
    have hsome : ((nodeGraph nodes).lookup id).isSome := by
      rw [Graph.isSome_lookup_iff, nodeGraph, List.map_map]
      exact hmem
    rw [hnone] at hsome
    cases hsome
  · exact ⟨found, rfl⟩

/-- Nodes that do not pass are not valid, and `DefinitionError` is raised. -/
theorem validateNodes_cases (texts : Texts) (hentrypoint : entrypoint ∈ nodes.map NodeSpec.id) :
    validateNodes texts false nodes entrypoint = .ok () ∨
      (∃ message, validateNodes texts false nodes entrypoint = .error (.definition message)) ∧
        ¬ ValidNodes nodes entrypoint := by
  rw [validateNodes]
  by_cases hnodup : (nodes.map NodeSpec.id).Nodup
  · rw [if_pos hnodup]
    rcases hcheck : nodes.forM (validateNode texts false (nodes.map NodeSpec.id)) with e | u
    · obtain ⟨node, hnode, herror⟩ := exists_of_forM_eq_error hcheck
      obtain ⟨hok, -⟩ | ⟨⟨message, hmessage⟩, hwrong⟩ :=
        validateNode_cases texts (nodes.map NodeSpec.id) node
      · cases herror.symm.trans hok
      · obtain rfl := Except.error.inj (herror.symm.trans hmessage)
        refine Or.inr ⟨⟨message, rfl⟩, fun hvalid => ?_⟩
        obtain ⟨s, hs, hmissing⟩ | ⟨hkind, hnil⟩ := hwrong
        · exact hmissing (hvalid.successors_mem node hnode s hs)
        · exact hvalid.router_successors node hnode hkind hnil
    have hids : ∀ node ∈ nodes, ∀ s ∈ node.successors, s ∈ nodes.map NodeSpec.id :=
      fun node hnode => (validateNode_eq_ok (forM_eq_ok_iff.mp hcheck node hnode)).1
    obtain ⟨found, hfound⟩ := exists_reach_eq_ok hids hentrypoint
    rw [hfound]
    dsimp only [Except.mapError, bind, Except.bind]
    set unreachable := ((nodes.map NodeSpec.id).filter fun id => id ∉ found).insertionSort (· ≤ ·)
      with hunreachable
    by_cases hnil : unreachable = []
    · rw [if_pos hnil]
      exact Or.inl rfl
    · rw [if_neg hnil]
      refine Or.inr ⟨⟨_, rfl⟩, fun hvalid => ?_⟩
      obtain ⟨id, hid⟩ := List.exists_mem_of_ne_nil _ hnil
      rw [hunreachable, List.mem_insertionSort, List.mem_filter] at hid
      obtain ⟨node, hnode, rfl⟩ := List.mem_map.mp hid.1
      exact of_decide_eq_true hid.2 ((Graph.mem_reach_iff hfound).mpr (hvalid.path node hnode))
  · rw [if_neg hnodup]
    exact Or.inr ⟨⟨_, rfl⟩, fun hvalid => hnodup hvalid.nodup_ids⟩

/-- **The validation is exact.** Of the nodes and one of their ids, `_validate` raises
`DefinitionError` if and only if ids are repeated, a successor is unknown, a router has no
successors or a node cannot be reached. The loop over the worklist ends on every graph. -/
theorem validateNodes_eq_error_iff (texts : Texts)
    (hentrypoint : entrypoint ∈ nodes.map NodeSpec.id) :
    ((∃ message, validateNodes texts false nodes entrypoint = .error (.definition message)) ↔
      ¬ (nodes.map NodeSpec.id).Nodup ∨
        (∃ node ∈ nodes, ∃ s ∈ node.successors, s ∉ nodes.map NodeSpec.id) ∨
        (∃ node ∈ nodes, node.kind = .router ∧ node.successors = []) ∨
        ∃ node ∈ nodes, ¬ Relation.ReflTransGen (nodeGraph nodes).Edge entrypoint node.id) ∧
      ∀ pending reached : List String,
        ∃ n, ((nodeGraph nodes).iterate n pending reached).isSome := by
  have hinvalid : (¬ (nodes.map NodeSpec.id).Nodup ∨
      (∃ node ∈ nodes, ∃ s ∈ node.successors, s ∉ nodes.map NodeSpec.id) ∨
      (∃ node ∈ nodes, node.kind = .router ∧ node.successors = []) ∨
      ∃ node ∈ nodes, ¬ Relation.ReflTransGen (nodeGraph nodes).Edge entrypoint node.id) ↔
      ¬ ValidNodes nodes entrypoint := by
    constructor
    · rintro (hdup | ⟨node, hnode, s, hs, hmissing⟩ | ⟨node, hnode, hkind, hnil⟩ |
        ⟨node, hnode, hpath⟩) hvalid
      · exact hdup hvalid.nodup_ids
      · exact hmissing (hvalid.successors_mem node hnode s hs)
      · exact hvalid.router_successors node hnode hkind hnil
      · exact hpath (hvalid.path node hnode)
    · intro hinvalid
      by_contra hnone
      simp only [not_or, not_not, not_exists, not_and] at hnone
      obtain ⟨hnodup, hids, hrouters, hpaths⟩ := hnone
      exact hinvalid ⟨hnodup, hids, hrouters, hentrypoint, hpaths⟩
  constructor
  · rw [hinvalid]
    obtain hok | ⟨herror, hwrong⟩ := validateNodes_cases texts hentrypoint
    · refine iff_of_false ?_ fun h => h (.of_validateNodes hok)
      rintro ⟨message, hmessage⟩
      cases hok.symm.trans hmessage
    · exact iff_of_true herror hwrong
  · intro pending reached
    refine ⟨Graph.weight reached (nodeGraph nodes) + pending.length, ?_⟩
    rw [Graph.iterate_of_weight_le (Nat.le_refl _)]
    rfl

end Validation

/-! ### Plans -/

/-- What identifies a plan: digests of its definition and of the revision it is compiled for. -/
structure PlanIdentity where
  id : UUID
  definitionHash : String
  definitionHash_length : definitionHash.length = 64

/-- A compiled plan, and whether its runs can be resumed. -/
structure CompiledPlan where
  plan : ExecutionPlan
  durable : Bool

/-- `WorkflowCompiler.compile`, with the identity of the plan. -/
def compile (texts : Texts) (identity : PlanIdentity) (productionDurable : Bool)
    (stateSchema : JsonObject) (w : Workflow) : Except CompileError CompiledPlan :=
  match compileNodes w with
  | .error e => .error e
  | .ok c =>
    match h : validateNodes texts productionDurable c.nodes c.entrypoint with
    | .error e => .error e
    | .ok () => .ok
      { plan :=
          { id := identity.id
            definitionHash := identity.definitionHash
            entrypoint := c.entrypoint
            nodes := c.nodes
            stateSchema := stateSchema
            definitionHash_length := identity.definitionHash_length
            nodup_ids := (ValidNodes.of_validateNodes h).nodup_ids
            entrypoint_mem := (ValidNodes.of_validateNodes h).entrypoint_mem
            successors_mem := (ValidNodes.of_validateNodes h).successors_mem
            router_successors := (ValidNodes.of_validateNodes h).router_successors }
        durable := c.durable }

section Compile

variable {texts : Texts} {identity : PlanIdentity} {productionDurable : Bool}
  {stateSchema : JsonObject} {w : Workflow} {compiled : CompiledPlan}

/-- A compiled plan consists of the nodes of the workflow, which are valid. -/
theorem compile_eq_ok
    (h : compile texts identity productionDurable stateSchema w = .ok compiled) :
    compileNodes w = .ok ⟨compiled.plan.nodes, compiled.plan.entrypoint, compiled.durable⟩ ∧
      ValidNodes compiled.plan.nodes compiled.plan.entrypoint := by
  rw [compile] at h
  split at h
  · cases h
  · next c hc =>
    split at h
    · cases h
    · next hvalid =>
      cases h
      exact ⟨hc, .of_validateNodes hvalid⟩

theorem NodeSpec.create_eq_ok {name : String} {isAsync : Bool} {m : NodeMetadata}
    {node : NodeSpec} (h : NodeSpec.create name isAsync m = .ok node) :
    node.id = name ∧ node.kind = m.kind ∧ node.successors = m.successors := by
  rw [NodeSpec.create] at h
  split_ifs at h
  cases h
  exact ⟨rfl, rfl, rfl⟩

/-- A node of a durable plan is a marked method of the workflow. -/
theorem exists_discovered_of_compile
    (h : compile texts identity productionDurable stateSchema w = .ok compiled)
    (hdurable : compiled.durable = true) {node : NodeSpec} (hnode : node ∈ compiled.plan.nodes) :
    ∃ d ∈ w.discovered, node.id = d.1.name ∧ node.kind = d.2.kind ∧
      node.successors = d.2.successors := by
  have hnodes := (compile_eq_ok h).1
  rw [compileNodes] at hnodes
  split at hnodes
  · obtain ⟨-, -, hlegacy⟩ := CompiledNodes.mk.inj (Except.ok.inj hnodes)
    exact absurd (hlegacy.trans hdurable) Bool.false_ne_true
  · obtain ⟨nodes, hmap, hentries⟩ := exists_of_bind_eq_ok hnodes
    split at hentries
    · obtain ⟨rfl, -, -⟩ := CompiledNodes.mk.inj (Except.ok.inj hentries)
      obtain ⟨d, hd, hcreate⟩ := exists_mem_of_mapM hmap hnode
      exact ⟨d, hd, NodeSpec.create_eq_ok hcreate⟩
    · cases hentries

end Compile

namespace Sample

theorem draft_not_blank : isBlank "draft" = false := by decide

theorem publish_not_blank : isBlank "publish" = false := by decide

/-- Two nodes that lead to themselves only. -/
def separateNodes : List NodeSpec :=
  [⟨"draft", .step, true, 1, none, true, ["draft"], draft_not_blank, NodeMetadata.one_attempt⟩,
    ⟨"publish", .router, true, 1, none, true, ["publish"], publish_not_blank,
      NodeMetadata.one_attempt⟩]

/-- The second node cannot be reached. -/
theorem exists_separateNodes_error : ∃ message,
    validateNodes ⟨fun _ => "", fun _ => ""⟩ false separateNodes "draft" =
      .error (.definition message) := by
  have hentrypoint : "draft" ∈ separateNodes.map NodeSpec.id := List.mem_cons_self
  refine (validateNodes_eq_error_iff ⟨fun _ => "", fun _ => ""⟩ hentrypoint).1.mpr ?_
  refine Or.inr (Or.inr (Or.inr ⟨_, List.mem_cons_of_mem _ List.mem_cons_self, fun hpath => ?_⟩))
  -- Every path from the first node stays there.
  have hstays : ∀ id, Relation.ReflTransGen (nodeGraph separateNodes).Edge "draft" id →
      id = "draft" := by
    intro id hpath
    induction hpath with
    | refl => rfl
    | tail _ hedge ih =>
      obtain ⟨next, hnext, hid⟩ := hedge
      rw [ih] at hnext
      cases hnext
      exact List.mem_singleton.mp hid
  exact absurd (hstays "publish" hpath) (by decide)

end Sample

end OpenRath
