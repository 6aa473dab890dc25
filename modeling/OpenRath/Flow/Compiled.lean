import OpenRath.Flow.Compile
import OpenRath.Memory.Handles

/-!
# Compiled workflows

A compiled workflow (`CompiledWorkflow` in `src/rath/flow/compile.py`) is entered to hold the memory
stores of the agent parameters that are registered in its workflow, a reference to each, and left to
release them. The stores that are held are in one list, which entering replaces and leaving empties.

The stores are objects with a count of references, by their numbers. The backend may fail to close a
store whose last reference is given up; the failure is swallowed. Between the calls, the workflow
and the bindings of its agent parameters change, and others do to the stores whatever they like.

## Main definitions

* `CompiledWorkflow`, `CompiledWorkflow.enter`, `CompiledWorkflow.exit`.
* `Watched`: a compiled workflow with the open blocks and the changes that others have made.
* `Watched.Balanced`: the counts are what they were, but for the changes of others.
* `Watched.Releasable`: nothing that is held is forgotten, or closed before it is released.

## Main results

* `Watched.balanced_along`: the runs after which the counts are balanced.
-/

namespace OpenRath

open Counted

/-- A compiled workflow, with the workflows and the stores. -/
structure CompiledWorkflow (O Provider : Type) where
  workflow : WorkflowRef
  heap : WorkflowHeap
  params : ParamRef → AgentParam Provider
  stores : ℕ → O
  /-- `_acquired`. -/
  acquired : List ℕ

section Stores

variable {O Provider : Type} [Counted O]

/-- The loop of `__enter__` over the agent parameters: whether no store is closed, the stores, and
those that were acquired. -/
def acquireAll (params : ParamRef → AgentParam Provider) :
    List ParamRef → (ℕ → O) → List ℕ → Bool × (ℕ → O) × List ℕ
  | [], stores, acquired => (true, stores, acquired)
  | param :: rest, stores, acquired =>
    match (params param).memory with
    | none => acquireAll params rest stores acquired
    | some i =>
      if i ∈ acquired then acquireAll params rest stores acquired
      else match acquire? (stores i) with
        | none => (false, stores, acquired)
        | some store => acquireAll params rest (Function.update stores i store) (acquired ++ [i])

/-- `_safe_release`. The backend closes the store if it can. -/
def safeRelease (closes : ℕ → Bool) (stores : ℕ → O) (i : ℕ) : ℕ → O :=
  Function.update stores i <|
    if (release (stores i)).2 && closes i then close (release (stores i)).1
    else (release (stores i)).1

/-- Some stores are released in the reverse order. -/
def releaseAll (closes : ℕ → Bool) (acquired : List ℕ) (stores : ℕ → O) : ℕ → O :=
  acquired.reverse.foldl (safeRelease closes) stores

namespace CompiledWorkflow

variable (c : CompiledWorkflow O Provider)

/-- `__enter__`: whether it returns, and what becomes of the workflow and the stores. -/
def enter (frames : ℕ) (closes : ℕ → Bool) : Bool × CompiledWorkflow O Provider :=
  let reachable := reachableAgentParams c.heap frames c.workflow
  let tried := acquireAll c.params (reachable.1.map Prod.snd) c.stores []
  if tried.1 && reachable.2 then (true, { c with stores := tried.2.1, acquired := tried.2.2 })
  else (false, { c with stores := releaseAll closes tried.2.2 tried.2.1 })

/-- `__exit__`. -/
def exit (closes : ℕ → Bool) : CompiledWorkflow O Provider :=
  { c with stores := releaseAll closes c.acquired c.stores, acquired := [] }

/-- The stores that `__enter__` would acquire are open, and it comes to an end of its walk. -/
def Enters (frames : ℕ) : Prop :=
  (reachableAgentParams c.heap frames c.workflow).2 = true ∧
    ∀ param ∈ (reachableAgentParams c.heap frames c.workflow).1.map Prod.snd,
      ∀ i, (c.params param).memory = some i → closed (c.stores i) = false

end CompiledWorkflow

/-! ### Stores that are acquired and released -/

/-- What has been acquired: a reference to each of some stores, which are open. -/
structure Holding (start stores : ℕ → O) (acquired : List ℕ) : Prop where
  nodup : acquired.Nodup
  refcount : ∀ i, refcount (stores i) = Counted.refcount (start i) + if i ∈ acquired then 1 else 0
  isOpen : ∀ i ∈ acquired, closed (stores i) = false
  same : ∀ i, i ∉ acquired → stores i = start i

variable {start stores : ℕ → O} {acquired : List ℕ} {closes : ℕ → Bool} {i j : ℕ} {store : O}
  {params : ParamRef → AgentParam Provider} {refs : List ParamRef}

theorem Holding.nil (start : ℕ → O) : Holding start start [] where
  nodup := List.nodup_nil
  refcount i := by rw [if_neg List.not_mem_nil, add_zero]
  isOpen i hi := absurd hi List.not_mem_nil
  same i _ := rfl

/-- A further store is acquired. -/
theorem Holding.acquire (h : Holding start stores acquired) (hi : i ∉ acquired)
    (hstore : acquire? (stores i) = some store) :
    Holding start (Function.update stores i store) (acquired ++ [i]) := by
  have hopen : closed (stores i) = false := by
    by_contra hclosed
    rw [acquire?_of_closed (eq_true_of_ne_false hclosed)] at hstore
    cases hstore
  rw [acquire?_of_open hopen] at hstore
  obtain rfl := Option.some.inj hstore
  constructor
  · exact List.nodup_append.mpr ⟨h.nodup, List.nodup_singleton i, fun a ha b hb hab =>
      hi (List.mem_singleton.mp hb ▸ hab ▸ ha)⟩
  · intro j
    by_cases hj : j = i
    · subst hj
      rw [Function.update_self, refcount_setCount, h.refcount, if_neg hi,
        if_pos (by simp), add_zero]
    · rw [Function.update_of_ne hj, h.refcount]
      simp [hj]
  · intro j hj
    by_cases hji : j = i
    · rw [hji, Function.update_self, closed_setCount]
    · rw [Function.update_of_ne hji]
      refine h.isOpen j ((List.mem_append.mp hj).resolve_right fun h => hji ?_)
      exact List.mem_singleton.mp h
  · intro j hj
    obtain ⟨hj, hji⟩ := not_or.mp (List.mem_append.not.mp hj)
    rw [Function.update_of_ne fun heq => hji (List.mem_singleton.mpr heq), h.same j hj]

theorem holding_acquireAll (params : ParamRef → AgentParam Provider) (refs : List ParamRef)
    (h : Holding start stores acquired) :
    Holding start (acquireAll params refs stores acquired).2.1
      (acquireAll params refs stores acquired).2.2 := by
  fun_induction acquireAll params refs stores acquired with
  | case1 => exact h
  | case2 _ _ _ _ _ ih => exact ih h
  | case3 _ _ _ _ _ _ _ ih => exact ih h
  | case4 => exact h
  | case5 _ _ _ _ i _ hi store hstore ih => exact ih (h.acquire hi hstore)

theorem closed_of_acquire?_eq_none (h : acquire? (stores i) = none) : closed (stores i) = true := by
  by_contra hopen
  rw [acquire?_of_open (eq_false_of_ne_true hopen)] at h
  cases h

theorem open_of_acquire?_eq_some (h : acquire? (stores i) = some store) :
    closed (stores i) = false := by
  by_contra hclosed
  rw [acquire?_of_closed (eq_true_of_ne_false hclosed)] at h
  cases h

/-- All stores are acquired if and only if none of them is closed. -/
theorem acquireAll_eq_true_iff (params : ParamRef → AgentParam Provider) (refs : List ParamRef)
    (h : Holding start stores acquired) :
    (acquireAll params refs stores acquired).1 = true ↔
      ∀ param ∈ refs, ∀ i, (params param).memory = some i → i ∉ acquired →
        closed (start i) = false := by
  fun_induction acquireAll params refs stores acquired with
  | case1 => exact iff_of_true rfl fun param hparam => absurd hparam List.not_mem_nil
  | case2 _ _ _ _ hnone ih =>
    rw [ih h, List.forall_mem_cons]
    exact (and_iff_right fun i hi => by rw [hnone] at hi; cases hi).symm
  | case3 _ _ _ _ i hsome hmem ih =>
    rw [ih h, List.forall_mem_cons]
    refine (and_iff_right fun j hj hnot => ?_).symm
    rw [hsome] at hj
    exact absurd (Option.some.inj hj ▸ hmem) hnot
  | case4 param rest stores acquired i hsome hi hstore =>
    refine iff_of_false Bool.false_ne_true fun hall => ?_
    have hopen := hall param List.mem_cons_self i hsome hi
    rw [← h.same i hi, closed_of_acquire?_eq_none hstore] at hopen
    cases hopen
  | case5 param rest stores acquired i hsome hi store hstore ih =>
    have hopen : closed (start i) = false := h.same i hi ▸ open_of_acquire?_eq_some hstore
    rw [ih (h.acquire hi hstore), List.forall_mem_cons]
    constructor
    · intro hall
      refine ⟨fun j hj _ => ?_, fun param' hparam' j hj hnot => ?_⟩
      · rw [hsome] at hj
        exact Option.some.inj hj ▸ hopen
      · by_cases hji : j = i
        · exact hji ▸ hopen
        · exact hall param' hparam' j hj (by simp [hnot, hji])
    · rintro ⟨-, hall⟩ param' hparam' j hj hnot
      exact hall param' hparam' j hj fun hmem => hnot (List.mem_append_left _ hmem)

/-- A release takes a reference to its store, if the store is not closed. -/
theorem refcount_safeRelease (closes : ℕ → Bool) (stores : ℕ → O) (i j : ℕ) :
    refcount (safeRelease closes stores i j) =
      refcount (stores j) - if j = i ∧ closed (stores j) = false then 1 else 0 := by
  by_cases hj : j = i
  · subst hj
    rw [safeRelease, Function.update_self]
    by_cases hclosed : closed (stores j) = true
    · simp [release_of_closed hclosed, hclosed]
    · have hopen := eq_false_of_ne_true hclosed
      simp only [release_of_open hopen, hopen, and_self, if_true]
      split_ifs
      · rw [close, refcount_setCount, refcount_setCount]
      · rw [refcount_setCount]
  · rw [safeRelease, Function.update_of_ne hj, if_neg fun h => hj h.1, sub_zero]

theorem safeRelease_of_ne (closes : ℕ → Bool) (stores : ℕ → O) (hj : j ≠ i) :
    safeRelease closes stores i j = stores j := Function.update_of_ne hj _ _

theorem refcount_foldl_safeRelease (closes : ℕ → Bool) {released : List ℕ} (hnodup : released.Nodup)
    (stores : ℕ → O) (j : ℕ) :
    refcount (released.foldl (safeRelease closes) stores j) =
      refcount (stores j) - if j ∈ released ∧ closed (stores j) = false then 1 else 0 := by
  induction released generalizing stores with
  | nil => simp
  | cons i released ih =>
    obtain ⟨hi, hnodup⟩ := List.nodup_cons.mp hnodup
    rw [List.foldl_cons, ih hnodup, refcount_safeRelease]
    by_cases hj : j = i
    · subst hj
      simp [hi]
    · rw [safeRelease_of_ne closes stores hj]
      simp [hj]

/-- Every store that is not closed loses a reference. -/
theorem refcount_releaseAll (closes : ℕ → Bool) (hnodup : acquired.Nodup) (stores : ℕ → O)
    (j : ℕ) :
    refcount (releaseAll closes acquired stores j) =
      refcount (stores j) - if j ∈ acquired ∧ closed (stores j) = false then 1 else 0 := by
  rw [releaseAll, refcount_foldl_safeRelease closes (List.nodup_reverse.mpr hnodup)]
  simp only [List.mem_reverse]

/-! ### The calls -/

namespace CompiledWorkflow

variable {c : CompiledWorkflow O Provider} {frames : ℕ}

theorem enter_eq_true_iff (closes : ℕ → Bool) :
    (c.enter frames closes).1 = true ↔ c.Enters frames := by
  have hall := acquireAll_eq_true_iff c.params
    ((reachableAgentParams c.heap frames c.workflow).1.map Prod.snd) (.nil c.stores)
  simp only [List.not_mem_nil, not_false_eq_true, forall_const] at hall
  rw [Enters, ← hall, enter, and_comm]
  rw [← Bool.and_eq_true]
  split_ifs with h
  · exact iff_of_true rfl h
  · exact iff_of_false (fun h' => nomatch h') h

instance : Decidable (c.Enters frames) := decidable_of_iff _ (enter_eq_true_iff fun _ => true)

/-- A call that returns has acquired a reference to each of some stores. -/
theorem holding_enter (closes : ℕ → Bool) (h : c.Enters frames) :
    Holding c.stores (c.enter frames closes).2.stores (c.enter frames closes).2.acquired := by
  have hreturns := (enter_eq_true_iff closes).mpr h
  rw [enter] at hreturns ⊢
  split_ifs at hreturns ⊢ with htried
  · exact holding_acquireAll _ _ (.nil c.stores)

/-- A call that raises leaves the counts as they were, and what is held. -/
theorem refcount_enter_of_not (closes : ℕ → Bool) (h : ¬ c.Enters frames) (i : ℕ) :
    refcount ((c.enter frames closes).2.stores i) = refcount (c.stores i) ∧
      (c.enter frames closes).2.acquired = c.acquired := by
  have hraises := (enter_eq_true_iff closes).not.mpr h
  have hholding := holding_acquireAll c.params
    ((reachableAgentParams c.heap frames c.workflow).1.map Prod.snd) (.nil c.stores)
  rw [enter] at hraises ⊢
  split_ifs at hraises ⊢ with htried
  · exact absurd rfl hraises
  · refine ⟨?_, rfl⟩
    rw [refcount_releaseAll closes hholding.nodup, hholding.refcount]
    by_cases hi : i ∈ (acquireAll c.params
        ((reachableAgentParams c.heap frames c.workflow).1.map Prod.snd) c.stores []).2.2
    · rw [if_pos hi, if_pos ⟨hi, hholding.isOpen i hi⟩]
      omega
    · rw [if_neg hi, if_neg fun h => hi h.1]
      omega

theorem refcount_exit (hnodup : c.acquired.Nodup) (i : ℕ) :
    refcount ((c.exit closes).stores i) =
      refcount (c.stores i) - if i ∈ c.acquired ∧ closed (c.stores i) = false then 1 else 0 :=
  refcount_releaseAll closes hnodup c.stores i

end CompiledWorkflow

end Stores

/-! ### Blocks -/

/-- A compiled workflow, the number of blocks that were entered and not left, the counts when the
outermost of them was entered, and the changes that others have made to the counts since then. -/
structure Watched (O Provider : Type) where
  compiled : CompiledWorkflow O Provider
  depth : ℕ
  before : ℕ → ℤ
  changes : ℕ → ℤ

/-- What happens to a compiled workflow. A call of `__enter__` has a number of frames, and stores
may refuse to be closed. -/
inductive WatchedEvent (O Provider : Type)
  | enter (frames : ℕ) (closes : ℕ → Bool)
  | exit (closes : ℕ → Bool)
  /-- The workflows change, or the bindings of the agent parameters. -/
  | rebind (heap : WorkflowHeap) (params : ParamRef → AgentParam Provider)
  /-- Others acquire, release, open or close stores. -/
  | others (stores : ℕ → O)

namespace Watched

variable {O Provider : Type} [Counted O]

/-- A workflow that has just been compiled. -/
def start (workflow : WorkflowRef) (heap : WorkflowHeap) (params : ParamRef → AgentParam Provider)
    (stores : ℕ → O) : Watched O Provider where
  compiled := ⟨workflow, heap, params, stores, []⟩
  depth := 0
  before i := refcount (stores i)
  changes _ := 0

variable (w : Watched O Provider)

/-- The outermost block is about to be entered. -/
def watch : Watched O Provider :=
  if w.depth = 0 then
    { w with before := fun i => refcount (w.compiled.stores i), changes := fun _ => 0 }
  else w

/-- What happens next. Only a block that was entered is left. -/
def step : WatchedEvent O Provider → Option (Watched O Provider)
  | .enter frames closes => some
    { w.watch with
      compiled := (w.compiled.enter frames closes).2
      depth := if (w.compiled.enter frames closes).1 then w.depth + 1 else w.depth }
  | .exit closes =>
    if w.depth = 0 then none
    else some { w with compiled := w.compiled.exit closes, depth := w.depth - 1 }
  | .rebind heap params => some { w with compiled := { w.compiled with heap, params } }
  | .others stores => some
    { w with
      compiled := { w.compiled with stores }
      changes := fun i => w.changes i + (refcount (stores i) - refcount (w.compiled.stores i)) }

/-- Outside of all blocks, the count of every store is what it was before the last one, but for the
changes that others have made. -/
def Balanced : Prop :=
  w.depth = 0 → ∀ i, refcount (w.compiled.stores i) = w.before i + w.changes i

/-- A block that is entered does not take the place of one that holds stores, and no store is closed
when a block is left that holds it. -/
def Releasable : WatchedEvent O Provider → Prop
  | .enter frames _ => w.compiled.Enters frames → w.compiled.acquired = []
  | .exit _ => ∀ i ∈ w.compiled.acquired, closed (w.compiled.stores i) = false
  | .rebind _ _ | .others _ => True

/-- The references that are neither from before, nor from others, nor held. -/
def excess (i : ℕ) : ℤ :=
  refcount (w.compiled.stores i) - w.before i - w.changes i -
    if i ∈ w.compiled.acquired then 1 else 0

/-- What a run keeps. -/
structure Tracked : Prop where
  nodup : w.compiled.acquired.Nodup
  acquired_eq : w.depth = 0 → w.compiled.acquired = []
  excess_nonneg : ∀ i, 0 ≤ w.excess i

/-- A reference that a step leaves with nobody to release it. -/
def leak (i : ℕ) : WatchedEvent O Provider → ℤ
  | .enter frames _ => if w.compiled.Enters frames ∧ i ∈ w.compiled.acquired then 1 else 0
  | .exit _ => if i ∈ w.compiled.acquired ∧ closed (w.compiled.stores i) = true then 1 else 0
  | .rebind _ _ | .others _ => 0

variable {w w' : Watched O Provider} {e : WatchedEvent O Provider} {frames : ℕ}
  {closes : ℕ → Bool} {i : ℕ}

/-! ### Steps -/

theorem compiled_watch : w.watch.compiled = w.compiled := by
  rw [watch]
  split_ifs <;> rfl

theorem excess_watch (h : w.Tracked) (i : ℕ) :
    w.watch.excess i = if w.depth = 0 then 0 else w.excess i := by
  rw [watch]
  split_ifs with hdepth
  · rw [excess, h.acquired_eq hdepth, if_neg List.not_mem_nil]
    dsimp only
    omega
  · rfl

theorem excess_enter (hstep : w.step (.enter frames closes) = some w') (i : ℕ) :
    w'.excess i = w.watch.excess i + w.leak i (.enter frames closes) := by
  obtain rfl := Option.some.inj hstep
  rw [excess, excess, compiled_watch, leak]
  by_cases henters : w.compiled.Enters frames
  · have hholding := CompiledWorkflow.holding_enter closes henters
    dsimp only
    rw [hholding.refcount i]
    by_cases hi : i ∈ w.compiled.acquired
    · simp only [hi, henters, and_self, if_true]
      omega
    · simp only [hi, and_false, if_false]
      omega
  · obtain ⟨hcount, hacquired⟩ := CompiledWorkflow.refcount_enter_of_not closes henters i
    dsimp only
    simp only [hcount, hacquired, henters, false_and, if_false, add_zero]

theorem excess_exit (h : w.Tracked) (hstep : w.step (.exit closes) = some w') (i : ℕ) :
    w'.excess i = w.excess i + w.leak i (.exit closes) := by
  rw [step] at hstep
  split_ifs at hstep with hdepth
  obtain rfl := Option.some.inj hstep
  rw [excess, excess, leak, CompiledWorkflow.refcount_exit h.nodup]
  have hnil : i ∉ (w.compiled.exit closes).acquired := List.not_mem_nil
  rw [if_neg hnil]
  by_cases hi : i ∈ w.compiled.acquired
  · by_cases hclosed : closed (w.compiled.stores i) = true
    · simp only [hi, hclosed, if_true, true_and, reduceCtorEq, if_false]
      omega
    · have hopen := eq_false_of_ne_true hclosed
      simp only [hi, hopen, if_true, true_and, reduceCtorEq, if_false]
      omega
  · simp only [hi, false_and, if_false]
    omega

theorem excess_others {stores : ℕ → O} (hstep : w.step (.others stores) = some w') (i : ℕ) :
    w'.excess i = w.excess i := by
  obtain rfl := Option.some.inj hstep
  rw [excess, excess]
  dsimp only
  omega

theorem excess_rebind {heap : WorkflowHeap} {params : ParamRef → AgentParam Provider}
    (hstep : w.step (.rebind heap params) = some w') (i : ℕ) : w'.excess i = w.excess i := by
  obtain rfl := Option.some.inj hstep
  rfl

theorem leak_nonneg (w : Watched O Provider) (i : ℕ) (e : WatchedEvent O Provider) :
    0 ≤ w.leak i e := by
  rcases e with ⟨frames, closes⟩ | closes | ⟨heap, params⟩ | stores
  · rw [leak]
    split_ifs <;> omega
  · rw [leak]
    split_ifs <;> omega
  · exact Int.le_refl 0
  · exact Int.le_refl 0

/-- **One step.** The references in excess are those from before, unless the outermost block is
entered, and those that leak. -/
theorem excess_step (h : w.Tracked) (hstep : w.step e = some w') (i : ℕ) :
    w'.excess i = w.leak i e + w.excess i ∨ w.depth = 0 ∧ w'.excess i = w.leak i e := by
  rcases e with ⟨frames, closes⟩ | closes | ⟨heap, params⟩ | stores
  · have hexcess := excess_enter hstep i
    rw [excess_watch h] at hexcess
    split_ifs at hexcess with hdepth
    · exact Or.inr ⟨hdepth, by omega⟩
    · exact Or.inl (by omega)
  · have hexcess := excess_exit h hstep i
    exact Or.inl (by omega)
  · exact Or.inl ((excess_rebind hstep i).trans (zero_add _).symm)
  · exact Or.inl ((excess_others hstep i).trans (zero_add _).symm)

theorem Tracked.step (h : w.Tracked) (hstep : w.step e = some w') : w'.Tracked := by
  have hexcess : ∀ i, 0 ≤ w'.excess i := by
    intro i
    have hleak := w.leak_nonneg i e
    have hold := h.excess_nonneg i
    obtain hi | ⟨-, hi⟩ := excess_step h hstep i <;> omega
  rcases e with ⟨frames, closes⟩ | closes | ⟨heap, params⟩ | stores
  · obtain rfl := Option.some.inj hstep
    by_cases henters : w.compiled.Enters frames
    · refine ⟨(CompiledWorkflow.holding_enter closes henters).nodup, fun hdepth => ?_, hexcess⟩
      rw [(CompiledWorkflow.enter_eq_true_iff closes).mpr henters] at hdepth
      cases hdepth
    · have hacquired := (CompiledWorkflow.refcount_enter_of_not closes henters 0).2
      have hraises : (w.compiled.enter frames closes).1 = false :=
        eq_false_of_ne_true ((CompiledWorkflow.enter_eq_true_iff closes).not.mpr henters)
      refine ⟨hacquired.symm ▸ h.nodup, fun hdepth => ?_, hexcess⟩
      dsimp only at hdepth ⊢
      rw [hraises, if_neg Bool.false_ne_true] at hdepth
      rw [hacquired, h.acquired_eq hdepth]
  · rw [Watched.step] at hstep
    split_ifs at hstep with hdepth
    obtain rfl := Option.some.inj hstep
    exact ⟨List.nodup_nil, fun _ => rfl, hexcess⟩
  · obtain rfl := Option.some.inj hstep
    exact ⟨h.nodup, h.acquired_eq, hexcess⟩
  · obtain rfl := Option.some.inj hstep
    exact ⟨h.nodup, h.acquired_eq, hexcess⟩

/-- A step leaks nothing if and only if what is held can be released. -/
theorem leak_eq_zero_iff (e : WatchedEvent O Provider) :
    (∀ i, w.leak i e = 0) ↔ w.Releasable e := by
  rcases e with ⟨frames, closes⟩ | closes | ⟨heap, params⟩ | stores
  · simp only [leak, Releasable, ite_eq_right_iff, one_ne_zero, imp_false, not_and]
    constructor
    · exact fun h henters => List.eq_nil_iff_forall_not_mem.mpr fun i => h i henters
    · exact fun h i henters => List.eq_nil_iff_forall_not_mem.mp (h henters) i
  · simp only [leak, Releasable, ite_eq_right_iff, one_ne_zero, imp_false, not_and,
      Bool.not_eq_true]
  · exact iff_of_true (fun _ => rfl) trivial
  · exact iff_of_true (fun _ => rfl) trivial

theorem balanced_iff (h : w.Tracked) : w.Balanced ↔ (w.depth = 0 → ∀ i, w.excess i = 0) := by
  refine imp_congr_right fun hdepth => forall_congr' fun i => ?_
  rw [excess, h.acquired_eq hdepth, if_neg List.not_mem_nil]
  omega

/-! ### Runs -/

/-- A reference in excess is there until all blocks are left. -/
theorem not_balanced_of_excess {events : List (WatchedEvent O Provider)} (h : w.Tracked)
    (hdepth : w.depth ≠ 0) (hi : 0 < w.excess i) (hfinal : Events.final? step w events = some w')
    (hleft : w'.depth = 0) : ¬ Events.Along step (fun _ _ w' => w'.Balanced) w events := by
  induction events generalizing w with
  | nil =>
    cases hfinal
    exact absurd hleft hdepth
  | cons e events ih =>
    intro hall
    obtain ⟨t, ht, hrest⟩ := Option.bind_eq_some_iff.mp hfinal
    obtain ⟨hbalanced, hall⟩ := hall t ht
    have htracked := h.step ht
    have hleak := w.leak_nonneg i e
    have hexcess : 0 < t.excess i := by
      obtain heq | ⟨hzero, -⟩ := excess_step h ht i
      · omega
      · exact absurd hzero hdepth
    by_cases htdepth : t.depth = 0
    · have hnone := (balanced_iff htracked).mp hbalanced htdepth i
      omega
    · exact ih htracked htdepth hexcess hrest hall

theorem tracked_start (workflow : WorkflowRef) (heap : WorkflowHeap)
    (params : ParamRef → AgentParam Provider) (stores : ℕ → O) :
    (start workflow heap params stores).Tracked ∧
      ∀ i, (start workflow heap params stores).excess i = 0 := by
  have hexcess : ∀ i, (start workflow heap params stores).excess i = 0 := by
    intro i
    simp [excess, start]
  exact ⟨⟨List.nodup_nil, fun _ => rfl, fun i => (hexcess i).ge⟩, hexcess⟩

/-- A step that can be released keeps the references in balance. -/
theorem excess_eq_zero (h : w.Tracked) (hzero : ∀ i, w.excess i = 0)
    (hstep : w.step e = some w') (hreleasable : w.Releasable e) (i : ℕ) : w'.excess i = 0 := by
  have hleak := (leak_eq_zero_iff e).mpr hreleasable i
  have hi := hzero i
  obtain heq | ⟨-, heq⟩ := excess_step h hstep i <;> omega

/-- A run outside of all blocks at its end, after which the counts have been balanced, has leaked
nothing. -/
theorem releasable_along {events : List (WatchedEvent O Provider)} (h : w.Tracked)
    (hzero : ∀ i, w.excess i = 0) (hfinal : Events.final? step w events = some w')
    (hleft : w'.depth = 0) (hall : Events.Along step (fun _ _ w' => w'.Balanced) w events) :
    Events.Along step (fun w e _ => w.Releasable e) w events := by
  induction events generalizing w with
  | nil => trivial
  | cons e events ih =>
    intro t ht
    obtain ⟨hbalanced, hrest⟩ := hall t ht
    have hfinal' : Events.final? step t events = some w' := by
      obtain ⟨t', ht', hfinal'⟩ := Option.bind_eq_some_iff.mp hfinal
      obtain rfl := Option.some.inj (ht.symm.trans ht')
      exact hfinal'
    have htracked := h.step ht
    have hreleasable : w.Releasable e := by
      by_contra hnot
      obtain ⟨i, hi⟩ := not_forall.mp ((leak_eq_zero_iff e).not.mpr hnot)
      have hleak := w.leak_nonneg i e
      have hexcess : 0 < t.excess i := by
        have hbefore := hzero i
        obtain heq | ⟨-, heq⟩ := excess_step h ht i <;> omega
      by_cases hdepth : t.depth = 0
      · have hnone := (balanced_iff htracked).mp hbalanced hdepth i
        omega
      · exact not_balanced_of_excess htracked hdepth hexcess hfinal' hleft hrest
    exact ⟨hreleasable, ih htracked (excess_eq_zero h hzero ht hreleasable) hfinal' hrest⟩

/-- **What is acquired is released.** A run whose steps can all be released is balanced whenever all
blocks are left; and so are the steps of a balanced run that leaves all blocks. -/
theorem balanced_along (workflow : WorkflowRef) (heap : WorkflowHeap)
    (params : ParamRef → AgentParam Provider) (stores : ℕ → O)
    (events : List (WatchedEvent O Provider)) :
    (Events.Along step (fun w e _ => w.Releasable e) (start workflow heap params stores) events →
      Events.Along step (fun _ _ w' => w'.Balanced) (start workflow heap params stores) events) ∧
    ∀ w', Events.final? step (start workflow heap params stores) events = some w' → w'.depth = 0 →
      Events.Along step (fun _ _ w' => w'.Balanced) (start workflow heap params stores) events →
      Events.Along step (fun w e _ => w.Releasable e) (start workflow heap params stores)
        events := by
  obtain ⟨htracked, hzero⟩ := tracked_start workflow heap params stores
  constructor
  · refine Events.along_of_invariant (I := fun w => w.Tracked ∧ ∀ i, w.excess i = 0) ?_
      ⟨htracked, hzero⟩
    rintro w e w' ⟨h, hzero⟩ hstep hreleasable
    have h' := h.step hstep
    have hzero' := excess_eq_zero h hzero hstep hreleasable
    exact ⟨⟨h', hzero'⟩, (balanced_iff h').mpr fun _ => hzero'⟩
  · exact fun w' hfinal hleft => releasable_along htracked hzero hfinal hleft

end Watched

namespace Sample

/-- A workflow with an agent parameter. -/
def agentHeap : WorkflowHeap := fun _ =>
  ((WorkflowObject.init openClass).apply (.assign "agent" (.agentParam ⟨0⟩))).2

/-- The agent parameter is bound to an open store, to which there is a reference. -/
def boundWorkflow : Watched (MemoryStore Unit) Unit :=
  .start ⟨0⟩ agentHeap (fun _ => ⟨⟨0⟩, (), some 0⟩) fun _ => ⟨"notes", [], false, 1⟩

/-- A block inside of a block. -/
def nestedBlocks : List (WatchedEvent (MemoryStore Unit) Unit) :=
  [.enter 9 fun _ => true, .enter 9 fun _ => true, .exit fun _ => true, .exit fun _ => true]

/-- The depth and the counts of the store, now and before. -/
def observation (w : Watched (MemoryStore Unit) Unit) : ℕ × ℤ × ℤ :=
  (w.depth, refcount (w.compiled.stores 0), w.before 0 + w.changes 0)

/-- The reference that the outer block has acquired is not released. -/
theorem not_balanced_nestedBlocks :
    ¬ Events.Along Watched.step (fun _ _ w' => w'.Balanced) boundWorkflow nestedBlocks := by
  have hend : (Events.final? Watched.step boundWorkflow nestedBlocks).map observation =
      some (0, 2, 1) := by decide +kernel
  obtain ⟨w', hfinal, hobservation⟩ := Option.map_eq_some_iff.mp hend
  intro hall
  have hbalanced := hall.final (List.cons_ne_nil _ _) hfinal
  have hdepth : w'.depth = 0 := congrArg Prod.fst hobservation
  have hcount : refcount (w'.compiled.stores 0) = 2 := congrArg (fun o => o.2.1) hobservation
  have hbefore : w'.before 0 + w'.changes 0 = 1 := congrArg (fun o => o.2.2) hobservation
  have hsame := hbalanced hdepth 0
  omega

end Sample

end OpenRath
