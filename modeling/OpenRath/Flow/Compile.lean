import OpenRath.Flow.Workflow

/-!
# Resources of workflows

`collect_manifest` and `_reachable_agent_params` (`src/rath/flow/compile.py`) walk over a workflow
and the workflows registered below it, and list the agent parameters that are registered there. They
read the dictionaries of the workflows only, not the attributes; so do `modules` and `to`
(`src/rath/flow/workflow.py`).

A walk is a recursion, which is given a number of frames: it does not end if a workflow is
registered below itself.

## Main definitions

* `collectManifest`, `reachableAgentParams`.
* `MentionsCurrent`: the lists mention what the attributes hold, and nothing else.
* `UpToDate`: all dictionaries agree with the attributes, and the lists are current.

## Main results

* `mentionsCurrent_of_mirrors`.
* `upToDate_along_iff`: the assignments and deletions after which everything is up to date.
-/

namespace OpenRath

open WorkflowObject

/-! ### Manifests -/

/-- `AgentResource`. -/
structure AgentResource (Provider : Type) where
  path : String
  provider : Provider
  hasMemory : Bool
  agentSessionId : String

/-- `DynamicNode`. -/
structure DynamicNode where
  path : String
  kind : String
  reason : String
deriving DecidableEq

/-- `ResourceManifest`. -/
structure ResourceManifest (Provider : Type) where
  agents : List (AgentResource Provider)
  dynamicNodes : List DynamicNode

/-- An entry of a manifest. -/
inductive ManifestEntry (Provider : Type)
  | agent (resource : AgentResource Provider)
  | dynamic (node : DynamicNode)

/-- The workflows. -/
abbrev WorkflowHeap : Type := WorkflowRef → WorkflowObject

/-- A workflow and the path that leads to it. -/
abbrev WorkflowNode : Type := String × WorkflowRef

/-- `_join`. -/
def joinPath (path name : String) : String := if path = "" then name else s!"{path}.{name}"

/-- The entry for an agent parameter. -/
def agentResource {Provider : Type} (path : String) (param : AgentParam Provider) :
    AgentResource Provider :=
  ⟨path, param.provider, param.memory.isSome, param.sessionId.str⟩

/-- The entry for a `Selector`. -/
def selectorNode (path : String) (cls : WorkflowClass) : DynamicNode where
  path := if path = "" then cls.name else path
  kind := "selector"
  reason := "Selector routes to a workflow chosen by the model at " ++
    "runtime; successor set is not statically known"

section Walks

variable (heap : WorkflowHeap) {Provider : Type} (params : ParamRef → AgentParam Provider)

/-- The workflows registered below another one. -/
def registeredBelow (node : WorkflowNode) : List WorkflowNode :=
  (heap node.2).namedChildren.map fun entry => (joinPath node.1 entry.1, entry.2)

/-- The entries of a workflow itself. -/
def manifestEntries (node : WorkflowNode) : List (ManifestEntry Provider) :=
  (if (heap node.2).cls.isSelector then [.dynamic (selectorNode node.1 (heap node.2).cls)]
    else []) ++
  (heap node.2).namedAgents.map fun entry =>
    .agent (agentResource (joinPath node.1 entry.1) (params entry.2))

/-- `collect_manifest`. -/
def collectManifest (frames : ℕ) (w : WorkflowRef) : Option (ResourceManifest Provider) :=
  (ended (Preorder.yields (registeredBelow heap) (manifestEntries heap params) frames ("", w))).map
    fun entries =>
      { agents := entries.filterMap fun
          | .agent resource => some resource
          | .dynamic _ => none
        dynamicNodes := entries.filterMap fun
          | .agent _ => none
          | .dynamic node => some node }

/-- `_reachable_agent_params`: what is yielded, and whether the recursion ends. -/
def reachableAgentParams (frames : ℕ) (w : WorkflowRef) : List (String × ParamRef) × Bool :=
  Preorder.yields (registeredBelow heap)
    (fun node => (heap node.2).namedAgents.map fun entry => (joinPath node.1 entry.1, entry.2))
    frames ("", w)

/-! ### Current components -/

/-- A workflow is the value of an attribute of another one. -/
def HoldsChild (a b : WorkflowRef) : Prop := ∃ name, (name, .workflow b) ∈ (heap a).attributes.rows

/-- The paths follow the names of the attributes. -/
def Descends (node node' : WorkflowNode) : Prop :=
  ∃ name child, (name, .workflow child) ∈ (heap node.2).attributes.rows ∧
    node' = (joinPath node.1 name, child)

/-- An agent parameter is the value of an attribute of a workflow that is found at a path. -/
def HoldsParam (w : WorkflowRef) (path : String) (param : ParamRef) : Prop :=
  ∃ node name, Relation.ReflTransGen (Descends heap) ("", w) node ∧
    (name, .agentParam param) ∈ (heap node.2).attributes.rows ∧ path = joinPath node.1 name

/-- What is listed for a workflow are the current values of attributes of the workflow and of those
below it. -/
structure MentionsCurrent (w : WorkflowRef) : Prop where
  modules : ∀ frames out, modules heap frames w = some out →
    ∀ m, m ∈ out ↔ Relation.ReflTransGen (HoldsChild heap) w m
  rebound : ∀ {Provider E : Type} (rebind : Provider → Except E Provider) params param,
    ((heap w).to rebind params).2 param ≠ params param →
      ∃ name, (name, .agentParam param) ∈ (heap w).attributes.rows
  agents : ∀ {Provider : Type} (params : ParamRef → AgentParam Provider) frames manifest,
    collectManifest heap params frames w = some manifest →
      ∀ r, r ∈ manifest.agents ↔
        ∃ path param, HoldsParam heap w path param ∧ r = agentResource path (params param)
  dynamicNodes : ∀ {Provider : Type} (params : ParamRef → AgentParam Provider) frames manifest,
    collectManifest heap params frames w = some manifest →
      ∀ d, d ∈ manifest.dynamicNodes ↔
        ∃ node, Relation.ReflTransGen (Descends heap) ("", w) node ∧
          (heap node.2).cls.isSelector = true ∧ d = selectorNode node.1 (heap node.2).cls
  reachable : ∀ frames path param, (path, param) ∈ (reachableAgentParams heap frames w).1 →
    HoldsParam heap w path param

/-- The dictionaries agree with the attributes, and what is listed is current. -/
def UpToDate : Prop := (∀ w, (heap w).Mirrors) ∧ ∀ w, MentionsCurrent heap w

end Walks

section Current

variable {heap : WorkflowHeap} (h : ∀ w, (heap w).Mirrors)
include h

theorem edge_namedChildren :
    Preorder.Edge (fun w => (heap w).namedChildren.map Prod.snd) = HoldsChild heap := by
  funext a b
  refine propext (List.mem_map.trans ?_)
  constructor
  · rintro ⟨⟨name, child⟩, hmem, rfl⟩
    exact ⟨name, ((h a).children name child).mp hmem⟩
  · rintro ⟨name, hmem⟩
    exact ⟨(name, b), ((h a).children name b).mpr hmem, rfl⟩

theorem edge_registeredBelow : Preorder.Edge (registeredBelow heap) = Descends heap := by
  funext node node'
  refine propext (List.mem_map.trans ?_)
  constructor
  · rintro ⟨⟨name, child⟩, hmem, rfl⟩
    exact ⟨name, child, ((h node.2).children name child).mp hmem, rfl⟩
  · rintro ⟨name, child, hmem, rfl⟩
    exact ⟨(name, child), ((h node.2).children name child).mpr hmem, rfl⟩

/-- A walk over the registered workflows finds what belongs to those that are held. -/
theorem mem_ended_iff {β : Type} {own : WorkflowNode → List β} {frames : ℕ} {w : WorkflowRef}
    {out : List β} (hout : ended (Preorder.yields (registeredBelow heap) own frames ("", w)) =
      some out) {x : β} :
    x ∈ out ↔ ∃ node, Relation.ReflTransGen (Descends heap) ("", w) node ∧ x ∈ own node := by
  rw [ended] at hout
  split_ifs at hout with hended
  obtain rfl := Option.some.inj hout
  rw [← edge_registeredBelow h]
  constructor
  · exact Preorder.exists_of_mem_yields
  · rintro ⟨node, hpath, hx⟩
    exact Preorder.mem_yields hended hpath hx

theorem mem_modules_iff {frames : ℕ} {w m : WorkflowRef} {out : List WorkflowRef}
    (hout : modules heap frames w = some out) :
    m ∈ out ↔ Relation.ReflTransGen (HoldsChild heap) w m := by
  rw [modules, ended] at hout
  split_ifs at hout with hended
  obtain rfl := Option.some.inj hout
  rw [← edge_namedChildren h]
  constructor
  · intro hm
    obtain ⟨b, hpath, hmb⟩ := Preorder.exists_of_mem_yields hm
    rwa [List.mem_singleton.mp hmb]
  · exact fun hpath => Preorder.mem_yields hended hpath (List.mem_singleton_self m)

theorem mem_manifestEntries_agent {Provider : Type} {params : ParamRef → AgentParam Provider}
    {node : WorkflowNode} {r : AgentResource Provider} :
    .agent r ∈ manifestEntries heap params node ↔
      ∃ name param, (name, .agentParam param) ∈ (heap node.2).attributes.rows ∧
        r = agentResource (joinPath node.1 name) (params param) := by
  have hselector : ManifestEntry.agent r ∉
      (if (heap node.2).cls.isSelector then
        [ManifestEntry.dynamic (selectorNode node.1 (heap node.2).cls)] else []) := by
    split_ifs <;> simp
  rw [manifestEntries, List.mem_append, or_iff_right hselector, List.mem_map]
  constructor
  · rintro ⟨⟨name, param⟩, hmem, heq⟩
    exact ⟨name, param, ((h node.2).agents name param).mp hmem, (ManifestEntry.agent.inj heq).symm⟩
  · rintro ⟨name, param, hmem, rfl⟩
    exact ⟨(name, param), ((h node.2).agents name param).mpr hmem, rfl⟩

omit h in
theorem mem_manifestEntries_dynamic {Provider : Type} {params : ParamRef → AgentParam Provider}
    {node : WorkflowNode} {d : DynamicNode} :
    .dynamic d ∈ manifestEntries heap params node ↔
      (heap node.2).cls.isSelector = true ∧ d = selectorNode node.1 (heap node.2).cls := by
  have hagents : ManifestEntry.dynamic d ∉ (heap node.2).namedAgents.map fun entry =>
      ManifestEntry.agent (agentResource (joinPath node.1 entry.1) (params entry.2)) := by
    rw [List.mem_map]
    rintro ⟨entry, -, heq⟩
    cases heq
  rw [manifestEntries, List.mem_append, or_iff_left hagents]
  by_cases hselector : (heap node.2).cls.isSelector = true
  · rw [if_pos hselector, List.mem_singleton, ManifestEntry.dynamic.injEq, and_iff_right hselector]
  · rw [if_neg hselector]
    exact iff_of_false List.not_mem_nil fun hd => hselector hd.1

theorem mem_manifest_agents_iff {Provider : Type} {params : ParamRef → AgentParam Provider}
    {frames : ℕ} {w : WorkflowRef} {manifest : ResourceManifest Provider}
    (hmanifest : collectManifest heap params frames w = some manifest)
    {r : AgentResource Provider} :
    r ∈ manifest.agents ↔
      ∃ path param, HoldsParam heap w path param ∧ r = agentResource path (params param) := by
  obtain ⟨entries, hentries, rfl⟩ := Option.map_eq_some_iff.mp hmanifest
  rw [List.mem_filterMap]
  constructor
  · rintro ⟨entry, hentry, heq⟩
    rcases entry with r' | d
    · obtain rfl := Option.some.inj heq
      obtain ⟨node, hpath, hr⟩ := (mem_ended_iff h hentries).mp hentry
      obtain ⟨name, param, hmem, rfl⟩ := (mem_manifestEntries_agent h).mp hr
      exact ⟨_, param, ⟨node, name, hpath, hmem, rfl⟩, rfl⟩
    · cases heq
  · rintro ⟨_, param, ⟨node, name, hpath, hmem, rfl⟩, rfl⟩
    refine ⟨.agent _, (mem_ended_iff h hentries).mpr ⟨node, hpath, ?_⟩, rfl⟩
    exact (mem_manifestEntries_agent h).mpr ⟨name, param, hmem, rfl⟩

theorem mem_manifest_dynamicNodes_iff {Provider : Type} {params : ParamRef → AgentParam Provider}
    {frames : ℕ} {w : WorkflowRef} {manifest : ResourceManifest Provider}
    (hmanifest : collectManifest heap params frames w = some manifest) {d : DynamicNode} :
    d ∈ manifest.dynamicNodes ↔
      ∃ node, Relation.ReflTransGen (Descends heap) ("", w) node ∧
        (heap node.2).cls.isSelector = true ∧ d = selectorNode node.1 (heap node.2).cls := by
  obtain ⟨entries, hentries, rfl⟩ := Option.map_eq_some_iff.mp hmanifest
  rw [List.mem_filterMap]
  constructor
  · rintro ⟨entry, hentry, heq⟩
    rcases entry with r | d'
    · cases heq
    · obtain rfl := Option.some.inj heq
      obtain ⟨node, hpath, hd⟩ := (mem_ended_iff h hentries).mp hentry
      exact ⟨node, hpath, mem_manifestEntries_dynamic.mp hd⟩
  · rintro ⟨node, hpath, hd⟩
    refine ⟨.dynamic d, (mem_ended_iff h hentries).mpr ⟨node, hpath, ?_⟩, rfl⟩
    exact mem_manifestEntries_dynamic.mpr hd

/-- If the dictionaries agree with the attributes, what is listed is current. -/
theorem mentionsCurrent_of_mirrors (w : WorkflowRef) : MentionsCurrent heap w where
  modules _ _ hout _ := mem_modules_iff h hout
  rebound rebind params param hne := by
    obtain ⟨⟨name, param'⟩, hmem, rfl⟩ := List.mem_map.mp (mem_of_rebindAll_ne hne)
    exact ⟨name, ((h w).agents name param').mp (mem_namedAgents.mpr hmem)⟩
  agents _ _ _ hmanifest _ := mem_manifest_agents_iff h hmanifest
  dynamicNodes _ _ _ hmanifest _ := mem_manifest_dynamicNodes_iff h hmanifest
  reachable frames path param hmem := by
    obtain ⟨node, hpath, hentry⟩ := Preorder.exists_of_mem_yields hmem
    rw [edge_registeredBelow h] at hpath
    obtain ⟨⟨name, param'⟩, hparam, heq⟩ := List.mem_map.mp hentry
    obtain ⟨rfl, rfl⟩ := Prod.mk.inj heq
    exact ⟨node, name, hpath, ((h node.2).agents name param').mp hparam, rfl⟩

theorem upToDate_of_mirrors : UpToDate heap := ⟨h, mentionsCurrent_of_mirrors h⟩

end Current

/-! ### Runs -/

/-- An operation on the attributes of a workflow. -/
structure WorkflowEvent where
  target : WorkflowRef
  operation : Operation

/-- The workflows after an operation. Nothing is said of a workflow without its dictionaries. -/
def stepWorkflow (heap : WorkflowHeap) (e : WorkflowEvent) : Option WorkflowHeap :=
  if (heap e.target).intact then
    some (Function.update heap e.target ((heap e.target).apply e.operation).2)
  else none

/-- New workflows, by their classes. -/
def newWorkflows (classes : WorkflowRef → WorkflowClass) : WorkflowHeap :=
  fun w => WorkflowObject.init (classes w)

theorem stepWorkflow_of_mirrors {heap : WorkflowHeap} (h : ∀ w, (heap w).Mirrors)
    (e : WorkflowEvent) : stepWorkflow heap e =
      some (Function.update heap e.target ((heap e.target).apply e.operation).2) :=
  if_pos (h e.target).intact

theorem mirrors_step_iff {heap heap' : WorkflowHeap} {e : WorkflowEvent}
    (h : ∀ w, (heap w).Mirrors) (hstep : stepWorkflow heap e = some heap') :
    (∀ w, (heap' w).Mirrors) ↔ (heap e.target).KeepsKind e.operation := by
  rw [stepWorkflow_of_mirrors h] at hstep
  obtain rfl := Option.some.inj hstep
  rw [← mirrors_apply_iff (h e.target)]
  constructor
  · intro h'
    have htarget := h' e.target
    rwa [Function.update_self] at htarget
  · intro htarget w
    by_cases hw : w = e.target
    · rw [hw, Function.update_self]
      exact htarget
    · rw [Function.update_of_ne hw]
      exact h w

/-- **The registry and the attributes.** In every run, the registry is up to date after every step
if and only if no step replaces a component by a value of another kind, assigns a component to a
name that cannot be assigned to, or overwrites a dictionary. -/
theorem upToDate_along_iff (classes : WorkflowRef → WorkflowClass) (events : List WorkflowEvent) :
    Events.Along stepWorkflow (fun _ _ heap' => UpToDate heap') (newWorkflows classes) events ↔
      Events.Along stepWorkflow (fun heap e _ => (heap e.target).KeepsKind e.operation)
        (newWorkflows classes) events := by
  refine Events.along_iff_of_invariant (I := fun heap => ∀ w, (heap w).Mirrors) ?_ ?_ ?_
  · intro heap e heap' h hstep hkeeps
    have h' := (mirrors_step_iff h hstep).mpr hkeeps
    exact ⟨h', upToDate_of_mirrors h'⟩
  · exact fun heap e heap' h hstep hupToDate => (mirrors_step_iff h hstep).mp hupToDate.1
  · exact fun w => mirrors_init (classes w)

namespace Sample

/-- A class with a dictionary of attributes. -/
def openClass : WorkflowClass := ⟨"Pipeline", false, fun _ => true, rfl⟩

/-- An agent parameter is assigned to an attribute. -/
def firstAssignment : WorkflowEvent := ⟨⟨0⟩, .assign "stage" (.agentParam ⟨1⟩)⟩

/-- A workflow is assigned in its place. -/
def replacement : WorkflowEvent := ⟨⟨0⟩, .assign "stage" (.workflow ⟨1⟩)⟩

/-- The agent parameter is still registered after it was replaced. -/
theorem not_upToDate_replacement :
    ¬ Events.Along stepWorkflow (fun _ _ heap' => UpToDate heap')
      (newWorkflows fun _ => openClass) [firstAssignment, replacement] := by
  intro hall
  have hstart : ∀ w, (newWorkflows (fun _ => openClass) w).Mirrors := fun _ =>
    mirrors_init openClass
  obtain ⟨hfirst, hrest⟩ := hall _ (stepWorkflow_of_mirrors hstart firstAssignment)
  have hstep := stepWorkflow_of_mirrors hfirst.1 replacement
  obtain ⟨hsecond, -⟩ := hrest _ hstep
  obtain ⟨-, -, hkeeps⟩ := (mirrors_step_iff hfirst.1 hstep).mp hsecond.1
  obtain hkind | hother := hkeeps rfl (.agentParam ⟨1⟩) (by decide +kernel)
  · cases hkind
  · cases hother

end Sample

end OpenRath
