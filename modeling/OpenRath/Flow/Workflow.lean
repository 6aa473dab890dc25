import OpenRath.Library.Events
import OpenRath.Library.Preorder
import OpenRath.Library.Table
import OpenRath.Library.Values

/-!
# Workflows and their components

A workflow (`src/rath/flow/workflow.py`) is an object to whose attributes agent parameters and other
workflows are assigned. Two dictionaries, kept in the slots `_agents` and `_children`, register them
by the names of the attributes: every assignment writes to at most one of them, according to the
kind of the value, and a deletion removes the name from both.

An object has the attributes that were assigned to it. Its class says which names can be assigned:
those of a class without a dictionary, or of properties without a setter, are refused after the
value was registered. What is done to an object after one of its dictionaries was overwritten is
left out.

## Main definitions

* `WorkflowObject`, `WorkflowObject.setattr`, `WorkflowObject.delattr`.
* `WorkflowObject.namedAgents`, `WorkflowObject.namedChildren`, `modules`, `rebindProviders`.
* `WorkflowObject.Mirrors`: the dictionaries agree with the attributes.
* `WorkflowObject.KeepsKind`: no component is replaced by a value of another kind.

## Main results

* `WorkflowObject.mirrors_apply_iff`: which assignments and deletions keep the agreement.
-/

namespace OpenRath

/-- An agent parameter, by its number. -/
structure ParamRef where
  index : ℕ
deriving DecidableEq

/-- A workflow, by its number. -/
structure WorkflowRef where
  index : ℕ
deriving DecidableEq

/-- `AgentParam`, with the number of its memory store. -/
structure AgentParam (Provider : Type) where
  sessionId : UUID
  provider : Provider
  memory : Option ℕ

/-- The value of an attribute. -/
inductive AttributeValue
  | agentParam (param : ParamRef)
  | workflow (child : WorkflowRef)
  | other
deriving DecidableEq

/-- The kind of a value. -/
inductive ComponentKind
  | agentParam
  | workflow
  | other
deriving DecidableEq

/-- The kind of the value of an attribute. -/
def AttributeValue.kind : AttributeValue → ComponentKind
  | agentParam _ => .agentParam
  | workflow _ => .workflow
  | other => .other

/-- What the class of a workflow says of it: its name, whether it is a `Selector`, and to which
names values can be assigned. -/
structure WorkflowClass where
  name : String
  isSelector : Bool
  settable : String → Bool
  settable_description : settable "description" = true

/-- A dictionary from names. -/
abbrev NameDict (α : Type) : Type := Table fun entry : String × α => entry.1

/-- The slots of the dictionaries. -/
def registrySlots : List String := ["_agents", "_children"]

/-- A workflow. -/
structure WorkflowObject where
  cls : WorkflowClass
  /-- `_agents`. -/
  agents : NameDict ParamRef
  /-- `_children`. -/
  children : NameDict WorkflowRef
  attributes : NameDict AttributeValue
  /-- The two slots hold the dictionaries. -/
  intact : Bool
  settable : ∀ entry ∈ attributes.rows, cls.settable entry.1 = true

namespace WorkflowObject

/-! ### Attributes -/

/-- The value is registered, if it is a component. -/
def register (o : WorkflowObject) (name : String) : AttributeValue → WorkflowObject
  | .agentParam param => { o with agents := o.agents.set (name, param) }
  | .workflow child => { o with children := o.children.set (name, child) }
  | .other => o

/-- The name has been assigned to. -/
def withAttribute (o : WorkflowObject) (name : String) (value : AttributeValue)
    (h : o.cls.settable name = true) : WorkflowObject where
  __ := o
  attributes := o.attributes.set (name, value)
  settable entry hentry := by
    obtain ⟨hmem, -⟩ | rfl := Table.mem_set.mp hentry
    · exact o.settable entry hmem
    · exact h

/-- The attribute has been deleted. -/
def withoutAttribute (o : WorkflowObject) (name : String) : WorkflowObject where
  __ := o
  attributes := o.attributes.erase name
  settable entry hentry := o.settable entry (Table.mem_erase.mp hentry).1

/-- `__setattr__`. The value is registered before the assignment, which may fail. -/
def setattr (o : WorkflowObject) (name : String) (value : AttributeValue) :
    Except Unit Unit × WorkflowObject :=
  if name ∈ registrySlots then (.ok (), { o.register name value with intact := false })
  else if h : (o.register name value).cls.settable name = true then
    (.ok (), (o.register name value).withAttribute name value h)
  else (.error (), o.register name value)

/-- `__delattr__`. -/
def delattr (o : WorkflowObject) (name : String) : Except Unit Unit × WorkflowObject :=
  let popped := { o with agents := o.agents.erase name, children := o.children.erase name }
  if name ∈ registrySlots then (.ok (), { popped with intact := false })
  else if name ∈ o.attributes.rows.map Prod.fst then (.ok (), popped.withoutAttribute name)
  else (.error (), popped)

/-- The slots before `description` is assigned. -/
def blank (cls : WorkflowClass) : WorkflowObject :=
  ⟨cls, .empty, .empty, .empty, true, fun _ h => absurd h List.not_mem_nil⟩

/-- `__init__`. -/
def init (cls : WorkflowClass) : WorkflowObject := ((blank cls).setattr "description" .other).2

/-- `named_agents`. -/
def namedAgents (o : WorkflowObject) : List (String × ParamRef) :=
  o.agents.rows.mergeSort fun x y => x.1 ≤ y.1

/-- `named_children`. -/
def namedChildren (o : WorkflowObject) : List (String × WorkflowRef) :=
  o.children.rows.mergeSort fun x y => x.1 ≤ y.1

theorem mem_namedAgents {o : WorkflowObject} {entry : String × ParamRef} :
    entry ∈ o.namedAgents ↔ entry ∈ o.agents.rows := (List.mergeSort_perm _ _).mem_iff

theorem mem_namedChildren {o : WorkflowObject} {entry : String × WorkflowRef} :
    entry ∈ o.namedChildren ↔ entry ∈ o.children.rows := (List.mergeSort_perm _ _).mem_iff

/-- What is done to the attributes of a workflow. -/
inductive Operation
  | assign (name : String) (value : AttributeValue)
  | delete (name : String)
deriving DecidableEq

/-- An operation on the attributes. -/
def apply (o : WorkflowObject) : Operation → Except Unit Unit × WorkflowObject
  | .assign name value => o.setattr name value
  | .delete name => o.delattr name

/-! ### Agreement -/

/-- The dictionaries are there, and list the attributes whose values are components. After any
assignment to `_agents` or `_children` themselves they do not count as being there, whatever was
assigned. -/
structure Mirrors (o : WorkflowObject) : Prop where
  intact : o.intact = true
  agents : ∀ name param,
    (name, param) ∈ o.namedAgents ↔ (name, .agentParam param) ∈ o.attributes.rows
  children : ∀ name child,
    (name, child) ∈ o.namedChildren ↔ (name, .workflow child) ∈ o.attributes.rows

/-- The dictionaries are left where they are, a component is assigned to a name only if this will
not fail, and no value is assigned in the place of a component of another kind. -/
def KeepsKind (o : WorkflowObject) : Operation → Prop
  | .assign name value => name ∉ registrySlots ∧ (value = .other ∨ o.cls.settable name = true) ∧
      (o.cls.settable name = true → ∀ old, (name, old) ∈ o.attributes.rows →
        old.kind = value.kind ∨ old = .other)
  | .delete name => name ∉ registrySlots

variable {o : WorkflowObject} {name n : String} {value : AttributeValue} {param : ParamRef}
  {child : WorkflowRef}

@[simp] theorem cls_register : (o.register name value).cls = o.cls := by
  cases value <;> rfl

@[simp] theorem attributes_register : (o.register name value).attributes = o.attributes := by
  cases value <;> rfl

@[simp] theorem intact_register : (o.register name value).intact = o.intact := by
  cases value <;> rfl

/-- A name keeps its agent parameter unless another one is assigned to it. -/
theorem mem_agents_register : (n, param) ∈ (o.register name value).agents.rows ↔
    ((n, param) ∈ o.agents.rows ∧ (n = name → value.kind ≠ .agentParam)) ∨
      n = name ∧ value = .agentParam param := by
  rcases value with param' | child' | _
  · simp only [register, Table.mem_set, AttributeValue.kind, Prod.mk.injEq,
      AttributeValue.agentParam.injEq, ne_eq, not_true_eq_false, imp_false]
    rw [eq_comm (a := param) (b := param')]
  · simp [register, AttributeValue.kind]
  · simp [register, AttributeValue.kind]

/-- A name keeps its workflow unless another one is assigned to it. -/
theorem mem_children_register : (n, child) ∈ (o.register name value).children.rows ↔
    ((n, child) ∈ o.children.rows ∧ (n = name → value.kind ≠ .workflow)) ∨
      n = name ∧ value = .workflow child := by
  rcases value with param' | child' | _
  · simp [register, AttributeValue.kind]
  · simp only [register, Table.mem_set, AttributeValue.kind, Prod.mk.injEq,
      AttributeValue.workflow.injEq, ne_eq, not_true_eq_false, imp_false]
    rw [eq_comm (a := child) (b := child')]
  · simp [register, AttributeValue.kind]

theorem mem_attributes_set {v : AttributeValue} :
    (n, v) ∈ (o.attributes.set (name, value)).rows ↔
      ((n, v) ∈ o.attributes.rows ∧ n ≠ name) ∨ n = name ∧ v = value := by
  rw [Table.mem_set, Prod.mk.injEq]

/-- The dictionaries in the order of insertion. -/
theorem mirrors_iff : o.Mirrors ↔ o.intact = true ∧
    (∀ n param, (n, param) ∈ o.agents.rows ↔ (n, .agentParam param) ∈ o.attributes.rows) ∧
    ∀ n child, (n, child) ∈ o.children.rows ↔ (n, .workflow child) ∈ o.attributes.rows := by
  constructor
  · rintro ⟨hintact, hagents, hchildren⟩
    refine ⟨hintact, fun n param => ?_, fun n child => ?_⟩
    · rw [← hagents, mem_namedAgents]
    · rw [← hchildren, mem_namedChildren]
  · rintro ⟨hintact, hagents, hchildren⟩
    refine ⟨hintact, fun n param => ?_, fun n child => ?_⟩
    · rw [← hagents, mem_namedAgents]
    · rw [← hchildren, mem_namedChildren]

/-- An assignment that succeeds. -/
theorem mirrors_withAttribute_iff (h : o.Mirrors)
    (hset : (o.register name value).cls.settable name) :
    ((o.register name value).withAttribute name value hset).Mirrors ↔
      ∀ old, (name, old) ∈ o.attributes.rows → old.kind = value.kind ∨ old = .other := by
  obtain ⟨hintact, hagents, hchildren⟩ := mirrors_iff.mp h
  rw [mirrors_iff]
  have hattributes : ((o.register name value).withAttribute name value hset).attributes =
      o.attributes.set (name, value) :=
    congrArg (fun attributes : NameDict AttributeValue => attributes.set (name, value))
      attributes_register
  constructor
  · rintro ⟨-, hagents', hchildren'⟩ old hold
    by_contra hkind
    obtain ⟨hkind, hother⟩ := not_or.mp hkind
    rcases old with param | child | _
    · have hstale := (hagents' name param).mp
        (mem_agents_register.mpr (Or.inl ⟨(hagents name param).mpr hold, fun _ h => hkind h.symm⟩))
      rw [hattributes, mem_attributes_set] at hstale
      obtain ⟨-, hne⟩ | ⟨-, rfl⟩ := hstale
      · exact hne rfl
      · exact hkind rfl
    · have hstale := (hchildren' name child).mp
        (mem_children_register.mpr
          (Or.inl ⟨(hchildren name child).mpr hold, fun _ h => hkind h.symm⟩))
      rw [hattributes, mem_attributes_set] at hstale
      obtain ⟨-, hne⟩ | ⟨-, rfl⟩ := hstale
      · exact hne rfl
      · exact hkind rfl
    · exact hother rfl
  · intro hkeeps
    refine ⟨intact_register.trans hintact, fun n param => ?_, fun n child => ?_⟩
    · rw [hattributes, mem_attributes_set]
      refine mem_agents_register.trans (or_congr ?_ ?_)
      · rw [hagents]
        refine and_congr_right fun hmem => ?_
        constructor
        · rintro hkind rfl
          obtain h | h := hkeeps _ hmem
          · exact hkind rfl h.symm
          · cases h
        · exact fun hne heq => absurd heq hne
      · rw [eq_comm (a := value)]
    · rw [hattributes, mem_attributes_set]
      refine mem_children_register.trans (or_congr ?_ ?_)
      · rw [hchildren]
        refine and_congr_right fun hmem => ?_
        constructor
        · rintro hkind rfl
          obtain h | h := hkeeps _ hmem
          · exact hkind rfl h.symm
          · cases h
        · exact fun hne heq => absurd heq hne
      · rw [eq_comm (a := value)]

/-- An assignment that fails after the value was registered. -/
theorem mirrors_register_iff (h : o.Mirrors) (hset : o.cls.settable name ≠ true) :
    (o.register name value).Mirrors ↔ value = .other := by
  obtain ⟨hintact, hagents, hchildren⟩ := mirrors_iff.mp h
  constructor
  · intro h'
    obtain ⟨-, hagents', hchildren'⟩ := mirrors_iff.mp h'
    rcases value with param | child | _
    · have hstale := (hagents' name param).mp (mem_agents_register.mpr (Or.inr ⟨rfl, rfl⟩))
      rw [attributes_register] at hstale
      exact absurd (o.settable _ hstale) hset
    · have hstale := (hchildren' name child).mp (mem_children_register.mpr (Or.inr ⟨rfl, rfl⟩))
      rw [attributes_register] at hstale
      exact absurd (o.settable _ hstale) hset
    · rfl
  · rintro rfl
    exact h

/-- A deletion, whether or not there is an attribute to delete. -/
theorem mirrors_delattr (h : o.Mirrors) (hname : name ∉ registrySlots) :
    (o.delattr name).2.Mirrors := by
  obtain ⟨hintact, hagents, hchildren⟩ := mirrors_iff.mp h
  rw [mirrors_iff, delattr, if_neg hname]
  split_ifs with hmem
  · refine ⟨hintact, fun n param => ?_, fun n child => ?_⟩
    · show (n, param) ∈ (o.agents.erase name).rows ↔ (n, _) ∈ (o.attributes.erase name).rows
      rw [Table.mem_erase, Table.mem_erase, hagents]
    · show (n, child) ∈ (o.children.erase name).rows ↔ (n, _) ∈ (o.attributes.erase name).rows
      rw [Table.mem_erase, Table.mem_erase, hchildren]
  · have habsent : ∀ n v, (n, v) ∈ o.attributes.rows → n ≠ name := by
      rintro n v hv rfl
      exact hmem (List.mem_map_of_mem (f := Prod.fst) hv)
    refine ⟨hintact, fun n param => ?_, fun n child => ?_⟩
    · show (n, param) ∈ (o.agents.erase name).rows ↔ (n, _) ∈ o.attributes.rows
      rw [Table.mem_erase, hagents]
      exact and_iff_left_of_imp (habsent n _)
    · show (n, child) ∈ (o.children.erase name).rows ↔ (n, _) ∈ o.attributes.rows
      rw [Table.mem_erase, hchildren]
      exact and_iff_left_of_imp (habsent n _)

theorem mirrors_blank (cls : WorkflowClass) : (blank cls).Mirrors := by
  refine mirrors_iff.mpr ⟨rfl, fun n param => ?_, fun n child => ?_⟩
  · exact iff_of_false List.not_mem_nil List.not_mem_nil
  · exact iff_of_false List.not_mem_nil List.not_mem_nil

/-- **One operation.** The dictionaries agree with the attributes afterwards if and only if no
component is replaced by a value of another kind, or is registered under a name that cannot be
assigned to. -/
theorem mirrors_apply_iff (h : o.Mirrors) (op : Operation) :
    (o.apply op).2.Mirrors ↔ o.KeepsKind op := by
  rcases op with ⟨name, value⟩ | name
  · by_cases hslot : name ∈ registrySlots
    · refine iff_of_false (fun h' => ?_) fun h' => h'.1 hslot
      have hintact := h'.intact
      rw [apply, setattr, if_pos hslot] at hintact
      cases hintact
    rw [KeepsKind, and_iff_right hslot, apply, setattr, if_neg hslot]
    by_cases hset : o.cls.settable name = true
    · rw [dif_pos (by rwa [cls_register]), mirrors_withAttribute_iff h,
        and_iff_right (Or.inr hset), imp_iff_right hset]
    · rw [dif_neg (by rwa [cls_register]), mirrors_register_iff h hset, or_iff_left hset]
      exact (and_iff_left_of_imp fun _ hset' => absurd hset' hset).symm
  · by_cases hslot : name ∈ registrySlots
    · refine iff_of_false (fun h' => ?_) fun h' => h' hslot
      have hintact := h'.intact
      rw [apply, delattr, if_pos hslot] at hintact
      cases hintact
    · exact iff_of_true (mirrors_delattr h hslot) hslot

theorem mirrors_init (cls : WorkflowClass) : (init cls).Mirrors := by
  refine (mirrors_apply_iff (mirrors_blank cls) (.assign "description" .other)).mpr ?_
  refine ⟨by decide, Or.inl rfl, fun _ old hold => absurd hold List.not_mem_nil⟩

end WorkflowObject

/-! ### Walks -/

/-- What a recursion has collected, if it has ended. -/
def ended {β : Type} (out : List β × Bool) : Option (List β) := if out.2 then some out.1 else none

/-- `modules`, with a number of frames for the recursion. -/
def modules (heap : WorkflowRef → WorkflowObject) (frames : ℕ) (w : WorkflowRef) :
    Option (List WorkflowRef) :=
  ended (Preorder.yields (fun w => (heap w).namedChildren.map Prod.snd) (fun w => [w]) frames w)

section Rebind

variable {Provider E : Type} (rebind : Provider → Except E Provider)

/-- `AgentParam.to` for some agent parameters, one after the other. -/
def rebindAll : List ParamRef → (ParamRef → AgentParam Provider) →
    Except E Unit × (ParamRef → AgentParam Provider)
  | [], params => (.ok (), params)
  | param :: rest, params =>
    match rebind (params param).provider with
    | .error e => (.error e, params)
    | .ok provider =>
      rebindAll rest (Function.update params param { params param with provider := provider })

/-- `Workflow.to`. -/
def WorkflowObject.to (o : WorkflowObject) (params : ParamRef → AgentParam Provider) :
    Except E Unit × (ParamRef → AgentParam Provider) :=
  rebindAll rebind (o.agents.rows.map Prod.snd) params

variable {rebind}

/-- Other agent parameters are left alone. -/
theorem mem_of_rebindAll_ne {refs : List ParamRef} {params : ParamRef → AgentParam Provider}
    {param : ParamRef} (h : (rebindAll rebind refs params).2 param ≠ params param) :
    param ∈ refs := by
  induction refs generalizing params with
  | nil => exact absurd rfl h
  | cons ref refs ih =>
    rw [rebindAll] at h
    split at h
    · exact absurd rfl h
    · by_cases heq : param = ref
      · exact heq ▸ List.mem_cons_self
      · refine List.mem_cons_of_mem ref (ih fun hsame => h (hsame.trans ?_))
        rw [Function.update_of_ne heq]

end Rebind

end OpenRath
