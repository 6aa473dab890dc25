import Mathlib.Data.List.Basic
import Mathlib.Logic.Relation

/-!
# Search of a graph

A graph is given by the successors of its vertices. The vertices that can be reached are found with
a stack of vertices still to visit. The search ends, as every vertex is visited once; it fails with
a vertex that the graph does not have.

## Main definitions

* `Graph.Edge`, `Graph.reach`.
* `Graph.iterate`: the loop of the search, iteration by iteration.

## Main results

* `Graph.exists_of_mem_reach`: whatever the search finds can be reached.
* `Graph.mem_reach_iff`: the search finds whatever can be reached.
* `Graph.iterate_of_weight_le`: the number of iterations of the loop.
-/

namespace OpenRath

/-- The successors of the vertices. -/
abbrev Graph (α : Type) : Type := List (α × List α)

namespace Graph

variable {α : Type} [DecidableEq α]

/-- There is an edge from one vertex to another one. -/
def Edge (graph : Graph α) (a b : α) : Prop := ∃ next ∈ graph.lookup a, b ∈ next

theorem mem_of_lookup {graph : Graph α} {a : α} {next : List α} (h : graph.lookup a = some next) :
    (a, next) ∈ graph := by
  induction graph with
  | nil => cases h
  | cons entry graph ih =>
    obtain ⟨b, other⟩ := entry
    rw [List.lookup_cons] at h
    by_cases hab : a = b
    · subst hab
      rw [beq_self_eq_true] at h
      cases h
      exact List.mem_cons_self
    · rw [beq_false_of_ne hab] at h
      exact List.mem_cons_of_mem _ (ih h)

theorem lookup_of_mem {graph : Graph α} (hnodup : (graph.map Prod.fst).Nodup) {a : α}
    {next : List α} (h : (a, next) ∈ graph) : graph.lookup a = some next := by
  induction graph with
  | nil => cases h
  | cons entry graph ih =>
    obtain ⟨b, other⟩ := entry
    obtain ⟨hb, hnodup⟩ := List.nodup_cons.mp hnodup
    rw [List.lookup_cons]
    by_cases hab : a = b
    · subst hab
      rw [beq_self_eq_true]
      rcases List.mem_cons.mp h with heq | hmem
      · rw [(Prod.mk.inj heq).2]
      · exact absurd (List.mem_map_of_mem (f := Prod.fst) hmem) hb
    · rw [beq_false_of_ne hab]
      refine ih hnodup ((List.mem_cons.mp h).resolve_left fun heq => hab ?_)
      exact (Prod.mk.inj heq).1

theorem isSome_lookup_iff {graph : Graph α} {a : α} :
    (graph.lookup a).isSome ↔ a ∈ graph.map Prod.fst := by
  induction graph with
  | nil => simp
  | cons entry graph ih =>
    obtain ⟨b, other⟩ := entry
    rw [List.lookup_cons, List.map_cons, List.mem_cons]
    by_cases hab : a = b
    · subst hab
      simp
    · rw [beq_false_of_ne hab, or_iff_right hab, ← ih]

/-- The number of the vertices that were not reached and of the edges that start there. -/
def weight (reached : List α) : Graph α → ℕ
  | [] => 0
  | entry :: graph =>
    (if entry.1 ∈ reached then 0 else entry.2.length + 1) + weight reached graph

theorem weight_cons_le (graph : Graph α) (a : α) (reached : List α) :
    weight (a :: reached) graph ≤ weight reached graph := by
  induction graph with
  | nil => exact Nat.le_refl _
  | cons entry graph ih =>
    refine Nat.add_le_add ?_ ih
    by_cases hmem : entry.1 ∈ reached
    · rewrite [if_pos hmem, if_pos (List.mem_cons_of_mem _ hmem)]
      exact Nat.le_refl 0
    · rw [if_neg hmem]
      split_ifs
      · exact Nat.zero_le _
      · exact Nat.le_refl _

/-- A vertex that is reached for the first time no longer counts, nor do its edges. -/
theorem weight_cons_lt {graph : Graph α} {a : α} {next reached : List α}
    (h : graph.lookup a = some next) (ha : a ∉ reached) :
    weight (a :: reached) graph + next.length < weight reached graph := by
  induction graph with
  | nil => cases h
  | cons entry graph ih =>
    obtain ⟨b, other⟩ := entry
    rw [List.lookup_cons] at h
    rw [weight, weight]
    dsimp only
    by_cases hab : a = b
    · subst hab
      rw [beq_self_eq_true] at h
      cases h
      have hle := weight_cons_le graph a reached
      rw [if_pos List.mem_cons_self, if_neg ha]
      omega
    · rw [beq_false_of_ne hab] at h
      have hlt := ih h
      have hsame : b ∈ a :: reached ↔ b ∈ reached := by
        rw [List.mem_cons, or_iff_right fun hba => hab hba.symm]
      rw [if_congr hsame rfl rfl]
      omega

/-- The vertices reached so far, and those reached from the stack. -/
def reach (graph : Graph α) (pending reached : List α) : Except α (List α) :=
  match pending with
  | [] => .ok reached
  | a :: pending =>
    if _ : a ∈ reached then reach graph pending reached
    else match _ : graph.lookup a with
      | none => .error a
      | some next => reach graph (next.reverse ++ pending) (a :: reached)
termination_by weight reached graph + pending.length
decreasing_by
  · rw [List.length_cons]
    omega
  · rename_i ha h
    have hlt := weight_cons_lt h ha
    rw [List.length_append, List.length_reverse, List.length_cons]
    omega

/-- Whatever the search finds was reached before or can be reached from the stack. -/
theorem exists_of_mem_reach {graph : Graph α} {pending reached found : List α}
    (h : graph.reach pending reached = .ok found) {b : α} (hb : b ∈ found) :
    b ∈ reached ∨ ∃ a ∈ pending, Relation.ReflTransGen graph.Edge a b := by
  fun_induction reach graph pending reached with
  | case1 reached =>
    cases h
    exact Or.inl hb
  | case2 reached a pending ha ih =>
    rcases ih h with hold | ⟨a', ha', hreach⟩
    · exact Or.inl hold
    · exact Or.inr ⟨a', List.mem_cons_of_mem _ ha', hreach⟩
  | case3 => cases h
  | case4 reached a pending ha next hnext ih =>
    rcases ih h with hold | ⟨a', ha', hreach⟩
    · rcases List.mem_cons.mp hold with rfl | hold
      · exact Or.inr ⟨b, List.mem_cons_self, .refl⟩
      · exact Or.inl hold
    · rcases List.mem_append.mp ha' with hsuccessor | hpending
      · have hedge : graph.Edge a a' := ⟨next, hnext, List.mem_reverse.mp hsuccessor⟩
        exact Or.inr ⟨a, List.mem_cons_self, .head hedge hreach⟩
      · exact Or.inr ⟨a', List.mem_cons_of_mem _ hpending, hreach⟩

/-- A search that ends has found the vertex it started from. -/
theorem isSome_lookup_of_reach {graph : Graph α} {a : α} {found : List α}
    (h : graph.reach [a] [] = .ok found) : (graph.lookup a).isSome := by
  rw [reach, dif_neg List.not_mem_nil] at h
  split at h
  · cases h
  · next hnext =>
    rw [hnext]
    rfl

theorem reach_eq_error {graph : Graph α} {a : α} {reached : List α} (ha : a ∉ reached)
    (hnone : graph.lookup a = none) (pending : List α) :
    reach graph (a :: pending) reached = .error a := by
  rw [reach, dif_neg ha]
  split
  · rfl
  · next hsome =>
    rw [hnone] at hsome
    cases hsome

theorem reach_eq_reach {graph : Graph α} {a : α} {next reached : List α} (ha : a ∉ reached)
    (hnext : graph.lookup a = some next) (pending : List α) :
    reach graph (a :: pending) reached =
      reach graph (next.reverse ++ pending) (a :: reached) := by
  rw [reach, dif_neg ha]
  split
  · next hnone =>
    rw [hnext] at hnone
    cases hnone
  · next next' hnext' =>
    obtain rfl : next = next' := Option.some.inj (hnext.symm.trans hnext')
    rfl

/-! ### Iterations -/

/-- The loop of the search, for a number of iterations at most. -/
def iterate (graph : Graph α) : ℕ → List α → List α → Option (Except α (List α))
  | _, [], reached => some (.ok reached)
  | 0, _ :: _, _ => none
  | n + 1, a :: pending, reached =>
    if a ∈ reached then iterate graph n pending reached
    else match graph.lookup a with
      | none => some (.error a)
      | some next => iterate graph n (next.reverse ++ pending) (a :: reached)

/-- The loop ends, whatever the graph is, and every vertex and every edge costs one iteration. -/
theorem iterate_of_weight_le {graph : Graph α} {n : ℕ} {pending reached : List α}
    (h : weight reached graph + pending.length ≤ n) :
    iterate graph n pending reached = some (reach graph pending reached) := by
  induction n generalizing pending reached with
  | zero =>
    obtain rfl : pending = [] := List.length_eq_zero_iff.mp (by omega)
    rw [iterate, reach]
  | succ n ih =>
    rcases pending with _ | ⟨a, pending⟩
    · rw [iterate, reach]
    rw [List.length_cons] at h
    rw [iterate]
    by_cases ha : a ∈ reached
    · rw [if_pos ha, reach, dif_pos ha]
      exact ih (by omega)
    rw [if_neg ha]
    split
    · next hnone => rw [reach_eq_error ha hnone]
    · next next hnext =>
      have hlt := weight_cons_lt hnext ha
      rw [reach_eq_reach ha hnext]
      exact ih (by rw [List.length_append, List.length_reverse]; omega)

/-! ### Completeness -/

/-- What the search has reached is still among what it finds. -/
theorem subset_of_reach {graph : Graph α} {pending reached found : List α}
    (h : graph.reach pending reached = .ok found) : reached ⊆ found := by
  fun_induction reach graph pending reached with
  | case1 reached =>
    cases h
    exact List.Subset.refl _
  | case2 reached a pending ha ih => exact ih h
  | case3 => cases h
  | case4 reached a pending ha next hnext ih =>
    exact fun b hb => ih h (List.mem_cons_of_mem a hb)

/-- The stack, and the successors of what has been reached, will be found. -/
theorem closed_of_reach {graph : Graph α} {pending reached found : List α}
    (h : graph.reach pending reached = .ok found)
    (hclosed : ∀ a ∈ reached, ∀ b, graph.Edge a b → b ∈ reached ∨ b ∈ pending) :
    (∀ a ∈ pending, a ∈ found) ∧ ∀ a ∈ found, ∀ b, graph.Edge a b → b ∈ found := by
  fun_induction reach graph pending reached with
  | case1 reached =>
    cases h
    refine ⟨fun a ha => absurd ha List.not_mem_nil, fun a ha b hb => ?_⟩
    exact (hclosed a ha b hb).resolve_right List.not_mem_nil
  | case2 reached a pending ha ih =>
    obtain ⟨hpending, hfound⟩ := ih h fun c hc b hb => by
      rcases hclosed c hc b hb with hreached | hpending
      · exact Or.inl hreached
      · rcases List.mem_cons.mp hpending with rfl | hpending
        · exact Or.inl ha
        · exact Or.inr hpending
    exact ⟨List.forall_mem_cons.mpr ⟨subset_of_reach h ha, hpending⟩, hfound⟩
  | case3 => cases h
  | case4 reached a pending ha next hnext ih =>
    obtain ⟨hpending, hfound⟩ := ih h fun c hc b hb => by
      rcases List.mem_cons.mp hc with rfl | hc
      · obtain ⟨next', hnext', hb⟩ := hb
        obtain rfl : next = next' := Option.some.inj (hnext.symm.trans hnext')
        exact Or.inr (List.mem_append_left _ (List.mem_reverse.mpr hb))
      · rcases hclosed c hc b hb with hreached | hpending
        · exact Or.inl (List.mem_cons_of_mem a hreached)
        · rcases List.mem_cons.mp hpending with rfl | hpending
          · exact Or.inl List.mem_cons_self
          · exact Or.inr (List.mem_append_right _ hpending)
    have ha' : a ∈ found := subset_of_reach h List.mem_cons_self
    exact ⟨List.forall_mem_cons.mpr
      ⟨ha', fun b hb => hpending b (List.mem_append_right _ hb)⟩, hfound⟩

/-- **The search is exact.** It finds what can be reached. -/
theorem mem_reach_iff {graph : Graph α} {a b : α} {found : List α}
    (h : graph.reach [a] [] = .ok found) :
    b ∈ found ↔ Relation.ReflTransGen graph.Edge a b := by
  obtain ⟨hstart, hclosed⟩ := closed_of_reach h fun c hc => absurd hc List.not_mem_nil
  constructor
  · intro hb
    obtain hnil | ⟨a', ha', hpath⟩ := exists_of_mem_reach h hb
    · exact absurd hnil List.not_mem_nil
    · cases List.mem_singleton.mp ha'
      exact hpath
  · intro hpath
    induction hpath with
    | refl => exact hstart a List.mem_cons_self
    | tail hpath hedge ih => exact hclosed _ ih _ hedge

/-- The search fails at a vertex that the graph does not have. -/
theorem lookup_of_reach_error {graph : Graph α} {pending reached : List α} {a : α}
    (h : graph.reach pending reached = .error a) :
    graph.lookup a = none ∧ ∃ b ∈ pending, Relation.ReflTransGen graph.Edge b a := by
  fun_induction reach graph pending reached with
  | case1 => cases h
  | case2 reached b pending hb ih =>
    obtain ⟨hnone, c, hc, hpath⟩ := ih h
    exact ⟨hnone, c, List.mem_cons_of_mem b hc, hpath⟩
  | case3 reached b pending hb hnone =>
    cases h
    exact ⟨hnone, a, List.mem_cons_self, .refl⟩
  | case4 reached b pending hb next hnext ih =>
    obtain ⟨hnone, c, hc, hpath⟩ := ih h
    refine ⟨hnone, ?_⟩
    rcases List.mem_append.mp hc with hc | hc
    · exact ⟨b, List.mem_cons_self, .head ⟨next, hnext, List.mem_reverse.mp hc⟩ hpath⟩
    · exact ⟨c, List.mem_cons_of_mem b hc, hpath⟩

end Graph

end OpenRath
