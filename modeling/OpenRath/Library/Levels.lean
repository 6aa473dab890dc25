import Mathlib.Order.Bounds.Basic
import Mathlib.Order.Lattice.Nat
import OpenRath.Library.Reach

/-!
# Breadth-first search

A graph is searched with a queue of vertices still to visit. Every vertex in the queue and every
vertex that was visited has a level, which is the length of a walk that leads to it: the levels in
the queue are in order and differ by one at most. The vertices that are found are then in the order
of their distance.

The vertex from which the search starts is found only if a walk leads back to it.

## Main definitions

* `Graph.Steps`, `Graph.distance`: walks, and the length of the shortest one.
* `Graph.bfs`: the search, and `Graph.bfsWithin`, its loop.
* `Graph.Levelled`: the invariant of the search.

## Main results

* `Graph.bfs_spec`: what the search finds, and in which order.
* `Graph.lookup_of_bfs_error`: when it fails.
-/

namespace OpenRath.Graph

variable {α : Type} [DecidableEq α] {graph : Graph α}

/-! ### Walks -/

/-- A walk of a number of edges leads from one vertex to another one. -/
def Steps (graph : Graph α) : ℕ → α → α → Prop
  | 0, a, b => a = b
  | n + 1, a, b => ∃ c, graph.Steps n a c ∧ graph.Edge c b

theorem transGen_of_steps {n : ℕ} {a b : α} (hn : 0 < n) (h : graph.Steps n a b) :
    Relation.TransGen graph.Edge a b := by
  induction n generalizing b with
  | zero => exact absurd hn (Nat.lt_irrefl 0)
  | succ n ih =>
    obtain ⟨c, hc, hedge⟩ := h
    rcases Nat.eq_zero_or_pos n with rfl | hn
    · obtain rfl : a = c := hc
      exact .single hedge
    · exact .tail (ih hn hc) hedge

theorem exists_steps_of_transGen {a b : α} (h : Relation.TransGen graph.Edge a b) :
    ∃ n, 0 < n ∧ graph.Steps n a b := by
  induction h with
  | single hedge => exact ⟨1, Nat.one_pos, _, rfl, hedge⟩
  | tail _ hedge ih =>
    obtain ⟨n, -, hn⟩ := ih
    exact ⟨n + 1, Nat.succ_pos n, _, hn, hedge⟩

/-- The length of the shortest walk with an edge. -/
noncomputable def distance (graph : Graph α) (a b : α) : ℕ :=
  sInf {n | 0 < n ∧ graph.Steps n a b}

/-! ### The search -/

theorem weight_congr {reached reached' : List α} (h : ∀ a, a ∈ reached ↔ a ∈ reached')
    (graph : Graph α) : weight reached graph = weight reached' graph := by
  induction graph with
  | nil => rfl
  | cons entry graph ih => rw [weight, weight, ih, if_congr (h entry.1) rfl rfl]

theorem weight_append_singleton (graph : Graph α) (a : α) (visited : List α) :
    weight (visited ++ [a]) graph = weight (a :: visited) graph :=
  weight_congr (fun b => by
    rw [List.mem_append, List.mem_singleton, List.mem_cons, or_comm]) graph

/-- The vertices that were visited, and those that can be reached from the queue, in the order in
which they are visited. -/
def bfs (graph : Graph α) (queue visited : List α) : Except α (List α) :=
  match queue with
  | [] => .ok visited
  | a :: queue =>
    if _ : a ∈ visited then bfs graph queue visited
    else match _ : graph.lookup a with
      | none => .error a
      | some next => bfs graph (queue ++ next) (visited ++ [a])
termination_by weight visited graph + queue.length
decreasing_by
  · rw [List.length_cons]
    omega
  · rename_i ha h
    have hlt := weight_cons_lt h ha
    have hsame := weight_append_singleton graph a visited
    rw [List.length_append, List.length_cons]
    omega

theorem bfs_eq_error {a : α} {visited : List α} (ha : a ∉ visited)
    (hnone : graph.lookup a = none) (queue : List α) :
    bfs graph (a :: queue) visited = .error a := by
  rw [bfs, dif_neg ha]
  split
  · rfl
  · next hsome =>
    rw [hnone] at hsome
    cases hsome

theorem bfs_eq_bfs {a : α} {next visited : List α} (ha : a ∉ visited)
    (hnext : graph.lookup a = some next) (queue : List α) :
    bfs graph (a :: queue) visited = bfs graph (queue ++ next) (visited ++ [a]) := by
  rw [bfs, dif_neg ha]
  split
  · next hnone =>
    rw [hnext] at hnone
    cases hnone
  · next next' hnext' =>
    obtain rfl : next = next' := Option.some.inj (hnext.symm.trans hnext')
    rfl

/-- The loop of the search, for a number of iterations at most. -/
def bfsWithin (graph : Graph α) : ℕ → List α → List α → Option (Except α (List α))
  | _, [], visited => some (.ok visited)
  | 0, _ :: _, _ => none
  | n + 1, a :: queue, visited =>
    if a ∈ visited then bfsWithin graph n queue visited
    else match graph.lookup a with
      | none => some (.error a)
      | some next => bfsWithin graph n (queue ++ next) (visited ++ [a])

/-- The loop ends, whatever the graph is. -/
theorem bfsWithin_of_weight_le {n : ℕ} {queue visited : List α}
    (h : weight visited graph + queue.length ≤ n) :
    bfsWithin graph n queue visited = some (bfs graph queue visited) := by
  induction n generalizing queue visited with
  | zero =>
    obtain rfl : queue = [] := List.length_eq_zero_iff.mp (by omega)
    rw [bfsWithin, bfs]
  | succ n ih =>
    rcases queue with _ | ⟨a, queue⟩
    · rw [bfsWithin, bfs]
    rw [List.length_cons] at h
    rw [bfsWithin]
    by_cases ha : a ∈ visited
    · rw [if_pos ha, bfs, dif_pos ha]
      exact ih (by omega)
    rw [if_neg ha]
    split
    · next hnone => rw [bfs_eq_error ha hnone]
    · next next hnext =>
      have hlt := weight_cons_lt hnext ha
      have hsame := weight_append_singleton graph a visited
      rw [bfs_eq_bfs ha hnext]
      exact ih (by rw [List.length_append]; omega)

/-- The search fails at a vertex that the graph does not have. -/
theorem lookup_of_bfs_error {queue visited : List α} {a : α}
    (h : graph.bfs queue visited = .error a) :
    graph.lookup a = none ∧ ∃ b ∈ queue, Relation.ReflTransGen graph.Edge b a := by
  fun_induction bfs graph queue visited with
  | case1 => cases h
  | case2 visited b queue hb ih =>
    obtain ⟨hnone, c, hc, hpath⟩ := ih h
    exact ⟨hnone, c, List.mem_cons_of_mem b hc, hpath⟩
  | case3 visited b queue hb hnone =>
    cases h
    exact ⟨hnone, a, List.mem_cons_self, .refl⟩
  | case4 visited b queue hb next hnext ih =>
    obtain ⟨hnone, c, hc, hpath⟩ := ih h
    refine ⟨hnone, ?_⟩
    rcases List.mem_append.mp hc with hc | hc
    · exact ⟨c, List.mem_cons_of_mem b hc, hpath⟩
    · exact ⟨b, List.mem_cons_self, .head ⟨next, hnext, hc⟩ hpath⟩

/-! ### Levels -/

/-- The levels of the vertices that were visited and of those in the queue. -/
structure Levelled (graph : Graph α) (start : α) (queue visited : List (α × ℕ)) : Prop where
  nodup : (visited.map Prod.fst).Nodup
  sorted : (visited ++ queue).Pairwise fun x y => x.2 ≤ y.2
  span : queue.Pairwise fun x y => y.2 ≤ x.2 + 1
  walk : ∀ x ∈ visited ++ queue, 0 < x.2 ∧ graph.Steps x.2 start x.1
  first : ∀ b, graph.Edge start b → ∃ k ≤ 1, (b, k) ∈ visited ++ queue
  next : ∀ x ∈ visited, ∀ b, graph.Edge x.1 b → ∃ k ≤ x.2 + 1, (b, k) ∈ visited ++ queue

namespace Levelled

variable {start a : α} {l : ℕ} {queue visited : List (α × ℕ)}

theorem start_next {next : List α} (h : graph.lookup start = some next) :
    Levelled graph start (next.map fun b => (b, 1)) [] where
  nodup := List.nodup_nil
  sorted := by
    rw [List.nil_append, List.pairwise_map]
    exact List.pairwise_of_forall fun _ _ => Nat.le_refl 1
  span := by
    rw [List.pairwise_map]
    exact List.pairwise_of_forall fun _ _ => Nat.le_succ 1
  walk x hx := by
    obtain ⟨b, hb, rfl⟩ := List.mem_map.mp hx
    exact ⟨Nat.one_pos, start, rfl, next, h, hb⟩
  first b hb := by
    obtain ⟨next', hnext', hb⟩ := hb
    obtain rfl : next = next' := Option.some.inj (h.symm.trans hnext')
    exact ⟨1, Nat.le_refl 1, List.mem_map_of_mem hb⟩
  next x hx := absurd hx List.not_mem_nil

/-- A vertex at the front of the queue that was visited before was so at no higher level. -/
theorem exists_of_mem (h : Levelled graph start ((a, l) :: queue) visited)
    (ha : a ∈ visited.map Prod.fst) {b : α} {k : ℕ} (hb : (b, k) ∈ visited ++ (a, l) :: queue) :
    ∃ k' ≤ k, (b, k') ∈ visited ++ queue := by
  rcases List.mem_append.mp hb with hb | hb
  · exact ⟨k, Nat.le_refl k, List.mem_append_left _ hb⟩
  rcases List.mem_cons.mp hb with heq | hb
  · obtain ⟨rfl, rfl⟩ := Prod.mk.inj heq
    obtain ⟨⟨b, k'⟩, hvisited, rfl⟩ := List.mem_map.mp ha
    have hle := (List.pairwise_append.mp h.sorted).2.2 _ hvisited _ List.mem_cons_self
    exact ⟨k', hle, List.mem_append_left _ hvisited⟩
  · exact ⟨k, Nat.le_refl k, List.mem_append_right _ hb⟩

/-- A vertex that was visited before is skipped. -/
theorem skip (h : Levelled graph start ((a, l) :: queue) visited)
    (ha : a ∈ visited.map Prod.fst) : Levelled graph start queue visited where
  nodup := h.nodup
  sorted := h.sorted.sublist ((List.sublist_cons_self _ _).append_left visited)
  span := (List.pairwise_cons.mp h.span).2
  walk x hx := by
    refine h.walk x ?_
    rcases List.mem_append.mp hx with hx | hx
    · exact List.mem_append_left _ hx
    · exact List.mem_append_right _ (List.mem_cons_of_mem _ hx)
  first b hb := by
    obtain ⟨k, hk, hmem⟩ := h.first b hb
    obtain ⟨k', hk', hmem'⟩ := h.exists_of_mem ha hmem
    exact ⟨k', hk'.trans hk, hmem'⟩
  next x hx b hb := by
    obtain ⟨k, hk, hmem⟩ := h.next x hx b hb
    obtain ⟨k', hk', hmem'⟩ := h.exists_of_mem ha hmem
    exact ⟨k', hk'.trans hk, hmem'⟩

/-- A vertex is visited, and its successors are put at the end of the queue. -/
theorem visit (h : Levelled graph start ((a, l) :: queue) visited)
    (ha : a ∉ visited.map Prod.fst) {next : List α} (hnext : graph.lookup a = some next) :
    Levelled graph start (queue ++ next.map fun b => (b, l + 1)) (visited ++ [(a, l)]) := by
  have hqueue := List.pairwise_cons.mp h.span
  have hsorted := List.pairwise_append.mp h.sorted
  have hrest := List.pairwise_cons.mp hsorted.2.1
  have hfront : ∀ x ∈ visited, x.2 ≤ l := fun x hx => hsorted.2.2 x hx _ List.mem_cons_self
  -- The levels in the queue are `l` and `l + 1`.
  have hle : ∀ x ∈ queue, x.2 ≤ l + 1 := hqueue.1
  have hge : ∀ x ∈ queue, l ≤ x.2 := hrest.1
  have hkept : ∀ x ∈ visited ++ (a, l) :: queue,
      x ∈ (visited ++ [(a, l)]) ++ (queue ++ next.map fun b => (b, l + 1)) := by
    intro x hx
    simp only [List.mem_append, List.mem_cons, List.not_mem_nil, or_false] at hx ⊢
    tauto
  constructor
  · rw [List.map_append, List.nodup_append]
    refine ⟨h.nodup, List.nodup_singleton a, ?_⟩
    rintro b hb c hc rfl
    rw [List.map_cons, List.map_nil, List.mem_singleton] at hc
    exact ha ((show b = a from hc) ▸ hb)
  · rw [List.append_assoc, List.singleton_append, List.pairwise_append]
    refine ⟨hsorted.1, ?_, ?_⟩
    · rw [List.pairwise_cons, List.pairwise_append, List.pairwise_map]
      refine ⟨?_, hrest.2, List.pairwise_of_forall fun _ _ => Nat.le_refl _, ?_⟩
      · intro x hx
        rcases List.mem_append.mp hx with hx | hx
        · exact hge x hx
        · obtain ⟨b, -, rfl⟩ := List.mem_map.mp hx
          exact Nat.le_succ l
      · intro x hx y hy
        obtain ⟨b, -, rfl⟩ := List.mem_map.mp hy
        exact hle x hx
    · intro x hx y hy
      have hxl := hfront x hx
      rcases List.mem_cons.mp hy with rfl | hy
      · exact hxl
      rcases List.mem_append.mp hy with hy | hy
      · exact hxl.trans (hge y hy)
      · obtain ⟨b, -, rfl⟩ := List.mem_map.mp hy
        exact Nat.le_succ_of_le hxl
  · rw [List.pairwise_append, List.pairwise_map]
    refine ⟨hqueue.2, List.pairwise_of_forall fun _ _ => Nat.le_succ _, ?_⟩
    intro x hx y hy
    obtain ⟨b, -, rfl⟩ := List.mem_map.mp hy
    exact Nat.succ_le_succ (hge x hx)
  · intro x hx
    have hstart := h.walk (a, l) (List.mem_append_right _ List.mem_cons_self)
    simp only [List.mem_append, List.mem_singleton] at hx
    obtain (hx | rfl) | hx | hx := hx
    · exact h.walk x (List.mem_append_left _ hx)
    · exact hstart
    · exact h.walk x (List.mem_append_right _ (List.mem_cons_of_mem _ hx))
    · obtain ⟨b, hb, rfl⟩ := List.mem_map.mp hx
      exact ⟨Nat.succ_pos l, a, hstart.2, next, hnext, hb⟩
  · intro b hb
    obtain ⟨k, hk, hmem⟩ := h.first b hb
    exact ⟨k, hk, hkept _ hmem⟩
  · intro x hx b hb
    rcases List.mem_append.mp hx with hx | hx
    · obtain ⟨k, hk, hmem⟩ := h.next x hx b hb
      exact ⟨k, hk, hkept _ hmem⟩
    · cases List.mem_singleton.mp hx
      obtain ⟨next', hnext', hb⟩ := hb
      obtain rfl : next = next' := Option.some.inj (hnext.symm.trans hnext')
      exact ⟨l + 1, Nat.le_refl _,
        List.mem_append_right _ (List.mem_append_right _ (List.mem_map_of_mem hb))⟩

/-- When the queue is empty, a vertex to which a walk leads was visited at no higher level. -/
theorem exists_le (h : Levelled graph start [] visited) {n : ℕ} (hn : 0 < n) {b : α}
    (hb : graph.Steps n start b) : ∃ k ≤ n, (b, k) ∈ visited := by
  induction n generalizing b with
  | zero => exact absurd hn (Nat.lt_irrefl 0)
  | succ n ih =>
    obtain ⟨c, hc, hedge⟩ := hb
    rcases Nat.eq_zero_or_pos n with rfl | hn
    · obtain rfl : start = c := hc
      simpa using h.first b hedge
    · obtain ⟨k, hk, hmem⟩ := ih hn hc
      obtain ⟨k', hk', hmem'⟩ := h.next _ hmem b hedge
      exact ⟨k', hk'.trans (Nat.succ_le_succ hk), by simpa using hmem'⟩

/-- The level of a vertex is then its distance. -/
theorem distance_eq (h : Levelled graph start [] visited) {b : α} {k : ℕ}
    (hb : (b, k) ∈ visited) : graph.distance start b = k := by
  have hwalk := h.walk (b, k) (by simpa using hb)
  refine IsLeast.csInf_eq ⟨hwalk, ?_⟩
  rintro n ⟨hn, hsteps⟩
  obtain ⟨k', hk', hmem⟩ := h.exists_le hn hsteps
  -- A vertex is visited once.
  obtain rfl : k = k' := congrArg Prod.snd (List.inj_on_of_nodup_map h.nodup hb hmem rfl)
  exact hk'

end Levelled

/-- The search keeps the levels. -/
theorem exists_levelled_of_bfs {start : α} {queue visited found : List α}
    (h : graph.bfs queue visited = .ok found) {queueLevels visitedLevels : List (α × ℕ)}
    (hqueue : queue = queueLevels.map Prod.fst) (hvisited : visited = visitedLevels.map Prod.fst)
    (hlevels : Levelled graph start queueLevels visitedLevels) :
    ∃ levels : List (α × ℕ), found = levels.map Prod.fst ∧ Levelled graph start [] levels := by
  fun_induction bfs graph queue visited generalizing queueLevels visitedLevels with
  | case1 visited =>
    cases h
    obtain rfl : queueLevels = [] := List.map_eq_nil_iff.mp hqueue.symm
    exact ⟨visitedLevels, hvisited, hlevels⟩
  | case2 visited a queue ha ih =>
    obtain ⟨⟨b, l⟩, rest, rfl, hb, hrest⟩ := List.map_eq_cons_iff.mp hqueue.symm
    obtain rfl : b = a := hb
    exact ih h hrest.symm hvisited (hlevels.skip (hvisited ▸ ha))
  | case3 => cases h
  | case4 visited a queue ha next hnext ih =>
    obtain ⟨⟨b, l⟩, rest, rfl, hb, hrest⟩ := List.map_eq_cons_iff.mp hqueue.symm
    obtain rfl : b = a := hb
    refine ih h ?_ ?_ (hlevels.visit (hvisited ▸ ha) hnext)
    · rw [List.map_append, hrest, List.map_map]
      simp [Function.comp_def]
    · rw [hvisited, List.map_append, List.map_cons, List.map_nil]

/-- **Breadth-first search.** It finds every vertex to which a walk leads, once, in the order of the
distances. -/
theorem bfs_spec {start : α} {next found : List α} (hstart : graph.lookup start = some next)
    (h : graph.bfs next [] = .ok found) :
    found.Nodup ∧ (∀ b, b ∈ found ↔ Relation.TransGen graph.Edge start b) ∧
      found.Pairwise fun b c => graph.distance start b ≤ graph.distance start c := by
  have hqueue : next = (next.map fun b => (b, 1)).map Prod.fst := by
    rw [List.map_map]
    simp [Function.comp_def]
  obtain ⟨levels, rfl, hlevels⟩ :=
    exists_levelled_of_bfs h hqueue List.map_nil.symm (.start_next hstart)
  refine ⟨hlevels.nodup, fun b => ⟨fun hb => ?_, fun hb => ?_⟩, ?_⟩
  · obtain ⟨⟨b, k⟩, hmem, rfl⟩ := List.mem_map.mp hb
    obtain ⟨hk, hsteps⟩ := hlevels.walk (b, k) (by simpa using hmem)
    exact transGen_of_steps hk hsteps
  · obtain ⟨n, hn, hsteps⟩ := exists_steps_of_transGen hb
    obtain ⟨k, -, hmem⟩ := hlevels.exists_le hn hsteps
    exact List.mem_map_of_mem hmem
  · rw [List.pairwise_map]
    have hsorted : levels.Pairwise fun x y => x.2 ≤ y.2 := by simpa using hlevels.sorted
    refine hsorted.imp_of_mem fun hx hy hle => ?_
    rwa [hlevels.distance_eq hx, hlevels.distance_eq hy]

end OpenRath.Graph
