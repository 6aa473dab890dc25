import OpenRath.Library.Colours
import OpenRath.Library.Levels
import OpenRath.Library.Preorder
import OpenRath.Library.Values

/-!
# Walks in the graph of the sessions

The lineage of the sessions is a graph, with an edge from a session to each of its parents. The
functions of `src/rath/session/graph/traverse.py` list the ancestors and the descendants of a
session and look for cycles. Of a session they read its parents only, and a mapping gives them the
sessions by their ids, in an order. The parents are not checked when a session is put there: they
may be missing, be repeated or lead back to the session.

A walk is a loop, which is run for a number of iterations at most. The recursion of the search for
cycles is given a number of frames.

## Main definitions

* `SessionGraph`, `SessionGraph.Ancestor`, `SessionGraph.Acyclic`.
* `SessionGraph.ancestorsBfs`, `SessionGraph.descendantsDfsPreorder`,
  `SessionGraph.validateAcyclic`.
* `SessionGraph.EndsInPreorder`: what the walk to the descendants is for.

## Main results

* `SessionGraph.ancestors_descendants`: the two walks are dual.
* `SessionGraph.endsInPreorder_iff`: when the walk to the descendants ends, in preorder.
* `SessionGraph.validateAcyclic_eq_error_iff`: the search finds the cycles.
-/

namespace OpenRath

/-- What the walks raise. -/
inductive LineageError
  /-- `LineageConsistencyError`. -/
  | consistency (message : String)
  | keyError (id : UUID)
  | recursionError
deriving DecidableEq

/-- The parents of the sessions, by the ids of the sessions. -/
structure SessionGraph where
  byId : Graph UUID
  nodup_ids : (byId.map Prod.fst).Nodup

namespace SessionGraph

variable (graph : SessionGraph)

/-- The ids of the sessions. -/
def ids : List UUID := graph.byId.map Prod.fst

/-- The first session is a strict ancestor of the second one. -/
def Ancestor (a b : UUID) : Prop := Relation.TransGen graph.byId.Edge b a

/-- No session is an ancestor of itself. -/
def Acyclic : Prop := ∀ a, ¬ graph.Ancestor a a

/-- The parents are among the sessions. -/
def HasParents : Prop := ∀ entry ∈ graph.byId, ∀ p ∈ entry.2, p ∈ graph.ids

/-! ### Walks -/

/-- `edge_pairs`. -/
def edgePairs : List (UUID × UUID) :=
  graph.byId.flatMap fun entry => entry.2.map fun p => (p, entry.1)

/-- `adj`: the children of the sessions. -/
def children : UUID → List UUID :=
  graph.edgePairs.foldl (fun adj edge => Function.update adj edge.1 (adj edge.1 ++ [edge.2]))
    fun _ => []

/-- `ancestors_bfs`. -/
def ancestorsBfs (iterations : ℕ) (start : UUID) : Option (Except LineageError (List UUID)) :=
  match graph.byId.lookup start with
  | none => some (.error (.consistency s!"unknown session id in graph: {start.str}"))
  | some parents => (graph.byId.bfsWithin iterations parents []).map fun found =>
    found.mapError fun pid => .consistency
      s!"parent {pid.str} not in registry for descendant chain from {start.str}"

/-- `descendants_dfs_preorder`. The last of the children of the root is on the top of the stack. -/
def descendantsDfsPreorder (iterations : ℕ) (root : UUID) :
    Option (Except LineageError (List UUID)) :=
  if root ∈ graph.ids then
    (Preorder.walk graph.children iterations (graph.children root).reverse []).map fun out =>
      .ok (Preorder.keepFirst [] out)
  else some (.error (.consistency s!"unknown root session id: {root.str}"))

/-- The error at which a visit is given up. -/
def visitError : VisitError UUID → LineageError
  | .cycle cur => .consistency s!"cycle involving session {cur.str}"
  | .missing cur => .keyError cur
  | .frames => .recursionError

/-- The check of the parents of a session. -/
def checkParents (entry : UUID × List UUID) : Except LineageError Unit :=
  match entry.2.find? fun p => p ∉ graph.ids with
  | some p => .error (.consistency s!"{entry.1.str} references missing parent {p.str}")
  | none => .ok ()

/-- The visits of the sessions, with a number of frames for the recursion. -/
def visits (frames : ℕ) : Except (VisitError UUID) (UUID → Colour) :=
  graph.ids.foldlM (fun marks node =>
    if marks node = .white then graph.byId.visit frames node marks else .ok marks) fun _ => .white

/-- `validate_acyclic`, with a number of frames for the recursion. -/
def validateWithin (frames : ℕ) : Except LineageError Unit := do
  graph.byId.forM graph.checkParents
  let _ ← (graph.visits frames).mapError visitError
  .ok ()

/-- `validate_acyclic`. Every session can be visited inside of the visits of the other ones. The
limit that the interpreter puts on the depth of a recursion is not part of the model: a chain of
sessions that is longer than it, listed from its end, raises `RecursionError`. -/
def validateAcyclic : Except LineageError Unit := graph.validateWithin (graph.byId.length + 1)

variable {graph}

/-! ### Children -/

theorem mem_ids_iff {a : UUID} : a ∈ graph.ids ↔ (graph.byId.lookup a).isSome :=
  Graph.isSome_lookup_iff.symm

theorem edge_iff {a p : UUID} :
    graph.byId.Edge a p ↔ ∃ parents, (a, parents) ∈ graph.byId ∧ p ∈ parents := by
  constructor
  · rintro ⟨parents, hlookup, hp⟩
    exact ⟨parents, Graph.mem_of_lookup hlookup, hp⟩
  · rintro ⟨parents, hmem, hp⟩
    exact ⟨parents, Graph.lookup_of_mem graph.nodup_ids hmem, hp⟩

theorem mem_ids_of_edge {a p : UUID} (h : graph.byId.Edge a p) : a ∈ graph.ids := by
  obtain ⟨parents, hmem, -⟩ := edge_iff.mp h
  exact List.mem_map_of_mem hmem

theorem foldl_update_eq (edges : List (UUID × UUID)) (adj : UUID → List UUID) (p : UUID) :
    (edges.foldl (fun (adj : UUID → List UUID) edge =>
      Function.update adj edge.1 (adj edge.1 ++ [edge.2])) adj) p =
      adj p ++ (edges.filter fun edge => edge.1 = p).map Prod.snd := by
  induction edges generalizing adj with
  | nil => simp
  | cons edge edges ih =>
    rw [List.foldl_cons, ih]
    by_cases hp : edge.1 = p
    · subst hp
      rw [Function.update_self, List.filter_cons_of_pos (by simp), List.map_cons, List.append_assoc,
        List.singleton_append]
    · rw [Function.update_of_ne (Ne.symm hp), List.filter_cons_of_neg (by simpa using hp)]

/-- Every session is listed as often as it names its parent. -/
theorem children_eq (p : UUID) :
    graph.children p = graph.byId.flatMap fun entry =>
      (entry.2.filter fun q => q = p).map fun _ => entry.1 := by
  rw [children, foldl_update_eq, List.nil_append, edgePairs, List.filter_flatMap, List.map_flatMap]
  refine congrArg (fun f => graph.byId.flatMap f) (funext fun entry => ?_)
  rw [List.filter_map, List.map_map]
  rfl

theorem mem_children_iff {p c : UUID} : c ∈ graph.children p ↔ graph.byId.Edge c p := by
  rw [children_eq, edge_iff, List.mem_flatMap]
  constructor
  · rintro ⟨⟨a, parents⟩, hmem, hc⟩
    obtain ⟨q, hq, rfl⟩ := List.mem_map.mp hc
    obtain ⟨hq, hqp⟩ := List.mem_filter.mp hq
    exact ⟨parents, hmem, of_decide_eq_true hqp ▸ hq⟩
  · rintro ⟨parents, hmem, hp⟩
    refine ⟨(c, parents), hmem, List.mem_map.mpr ⟨p, ?_, rfl⟩⟩
    exact List.mem_filter.mpr ⟨hp, decide_eq_true rfl⟩

/-- The edges to the children are the edges to the parents, backwards. -/
theorem transGen_children_iff {a b : UUID} :
    Relation.TransGen (Preorder.Edge graph.children) a b ↔ graph.Ancestor a b := by
  have hedge : Preorder.Edge graph.children = Function.swap graph.byId.Edge := by
    funext p c
    exact propext mem_children_iff
  rw [hedge, Relation.transGen_swap]
  rfl

/-- The children are grouped, so that all are the same one if the first and the last are. -/
theorem eq_of_head_eq_last {byId : Graph UUID} (hnodup : (byId.map Prod.fst).Nodup) {p c : UUID}
    {children : List UUID}
    (hchildren : children = byId.flatMap fun entry =>
      (entry.2.filter fun q => q = p).map fun _ => entry.1)
    (hhead : children.head? = some c) (hlast : children.getLast? = some c) :
    ∀ d ∈ children, d = c := by
  induction byId generalizing children with
  | nil =>
    subst hchildren
    cases hhead
  | cons entry byId ih =>
    obtain ⟨hentry, hnodup⟩ := List.nodup_cons.mp hnodup
    rw [List.flatMap_cons] at hchildren
    set own := (entry.2.filter fun q => q = p).map fun _ => entry.1 with hown
    set others := byId.flatMap fun entry =>
      (entry.2.filter fun q => q = p).map fun _ => entry.1 with hothers
    have hmem : ∀ d ∈ own, d = entry.1 := by
      intro d hd
      obtain ⟨-, -, rfl⟩ := List.mem_map.mp hd
      rfl
    by_cases hnil : own = []
    · rw [hnil, List.nil_append] at hchildren
      exact ih hnodup hchildren hhead hlast
    have hc : c = entry.1 := by
      rw [hchildren, List.head?_append_of_ne_nil _ hnil] at hhead
      exact hmem c (List.mem_of_head? hhead)
    by_cases hnone : others = []
    · rw [hchildren, hnone, List.append_nil, hc]
      exact hmem
    · -- The last child would come again after the first session.
      rw [hchildren, List.getLast?_append_of_ne_nil _ hnone] at hlast
      obtain ⟨other, hother, hlast⟩ := List.mem_flatMap.mp (List.mem_of_getLast? hlast)
      obtain ⟨-, -, heq⟩ := List.mem_map.mp hlast
      rw [hc] at heq
      exact absurd (heq ▸ List.mem_map_of_mem hother) hentry

/-- There are no cycles if the parents of every session come before it. -/
theorem acyclic_of_lt (h : ∀ entry ∈ graph.byId, ∀ p ∈ entry.2, p < entry.1) : graph.Acyclic := by
  have hpath : ∀ a b, graph.Ancestor b a → b < a := by
    intro a b hpath
    induction hpath with
    | single hedge =>
      obtain ⟨parents, hmem, hp⟩ := edge_iff.mp hedge
      exact h _ hmem _ hp
    | tail _ hedge ih =>
      obtain ⟨parents, hmem, hp⟩ := edge_iff.mp hedge
      exact (h _ hmem _ hp).trans ih
  exact fun a hcycle => lt_irrefl a (hpath a a hcycle)

/-! ### Ancestors -/

theorem mem_ids_of_path (hparents : graph.HasParents) {a b : UUID} (ha : a ∈ graph.ids)
    (hpath : Relation.ReflTransGen graph.byId.Edge a b) : b ∈ graph.ids := by
  induction hpath with
  | refl => exact ha
  | tail _ hedge _ =>
    obtain ⟨parents, hmem, hp⟩ := edge_iff.mp hedge
    exact hparents _ hmem _ hp

/-- The walk to the ancestors ends, also if there are cycles. -/
theorem exists_isSome_ancestorsBfs (start : UUID) :
    ∃ n, (graph.ancestorsBfs n start).isSome := by
  rcases hlookup : graph.byId.lookup start with _ | parents
  · refine ⟨0, ?_⟩
    rw [ancestorsBfs, hlookup]
    rfl
  · refine ⟨Graph.weight [] graph.byId + parents.length, ?_⟩
    rw [ancestorsBfs, hlookup]
    dsimp only
    rw [Graph.bfsWithin_of_weight_le (Nat.le_refl _)]
    rfl

/-- The ancestors are listed once, the nearest ones first. -/
theorem exists_ancestorsBfs_eq_ok (hparents : graph.HasParents) {b : UUID} (hb : b ∈ graph.ids) :
    ∃ n up, graph.ancestorsBfs n b = some (.ok up) ∧ up.Nodup ∧
      (∀ c, c ∈ up ↔ graph.Ancestor c b) ∧
      up.Pairwise fun c d => graph.byId.distance b c ≤ graph.byId.distance b d := by
  obtain ⟨parents, hlookup⟩ := Option.isSome_iff_exists.mp (mem_ids_iff.mp hb)
  have hwithin : graph.byId.bfsWithin (Graph.weight [] graph.byId + parents.length) parents [] =
      some (graph.byId.bfs parents []) := Graph.bfsWithin_of_weight_le (Nat.le_refl _)
  rcases hbfs : graph.byId.bfs parents [] with pid | up
  · obtain ⟨hnone, c, hc, hpath⟩ := Graph.lookup_of_bfs_error hbfs
    have hmem := mem_ids_of_path hparents hb (.head ⟨parents, hlookup, hc⟩ hpath)
    rw [mem_ids_iff, hnone] at hmem
    cases hmem
  · obtain ⟨hnodup, hmem, hsorted⟩ := Graph.bfs_spec hlookup hbfs
    refine ⟨Graph.weight [] graph.byId + parents.length, up, ?_, hnodup, hmem, hsorted⟩
    rw [ancestorsBfs, hlookup]
    dsimp only
    rw [hwithin, hbfs]
    rfl

/-! ### Descendants -/

theorem exists_unfolds_children_iff (root : UUID) :
    (∃ l, Preorder.Unfolds graph.children (graph.children root).reverse l) ↔
      ∀ c, graph.Ancestor root c → ¬ graph.Ancestor c c := by
  have hdescendant : ∀ c, (∃ a ∈ (graph.children root).reverse,
      Relation.ReflTransGen (Preorder.Edge graph.children) a c) ↔ graph.Ancestor root c := by
    intro c
    rw [← transGen_children_iff, Relation.TransGen.head'_iff]
    simp only [List.mem_reverse]
    rfl
  have hfinite : {c | ∃ a ∈ (graph.children root).reverse,
      Relation.ReflTransGen (Preorder.Edge graph.children) a c}.Finite := by
    refine (List.finite_toSet graph.ids).subset fun c hc => ?_
    obtain ⟨p, -, hedge⟩ := Relation.TransGen.tail'_iff.mp
      (transGen_children_iff.mpr ((hdescendant c).mp hc))
    exact mem_ids_of_edge (mem_children_iff.mp hedge)
  rw [Preorder.exists_unfolds_iff hfinite]
  constructor
  · intro h c hc hcycle
    obtain ⟨a, ha, hpath⟩ := (hdescendant c).mpr hc
    exact h a ha c hpath (transGen_children_iff.mpr hcycle)
  · intro h a ha c hpath hcycle
    exact h c ((hdescendant c).mp ⟨a, ha, hpath⟩) (transGen_children_iff.mp hcycle)

/-- The walk to the descendants ends if and only if none of them lies on a cycle. -/
theorem exists_isSome_descendants_iff {root : UUID} (hroot : root ∈ graph.ids) :
    (∃ n, (graph.descendantsDfsPreorder n root).isSome) ↔
      ∀ c, graph.Ancestor root c → ¬ graph.Ancestor c c := by
  rw [← exists_unfolds_children_iff, ← Preorder.exists_walk_iff]
  refine exists_congr fun n => ?_
  rw [descendantsDfsPreorder, if_pos hroot, Option.isSome_map]

/-- The walk lists the first entries of the trees below the children. -/
theorem descendants_eq_ok {root : UUID} (hroot : root ∈ graph.ids) {l : List UUID}
    (h : Preorder.Unfolds graph.children (graph.children root).reverse l) :
    ∃ n, graph.descendantsDfsPreorder n root = some (.ok (Preorder.keepFirst [] l)) := by
  obtain ⟨n, hn⟩ := Preorder.exists_walk_iff.mpr ⟨l, h⟩
  obtain ⟨out, hout⟩ := Option.isSome_iff_exists.mp hn
  obtain rfl := Preorder.walk_eq_some hout h
  refine ⟨n, ?_⟩
  rw [descendantsDfsPreorder, if_pos hroot, hout]
  rfl

/-- Whatever is listed is so, however many iterations the walk is run for. -/
theorem eq_of_descendants_eq_ok {root : UUID} (hroot : root ∈ graph.ids) {l out : List UUID} {n : ℕ}
    (h : Preorder.Unfolds graph.children (graph.children root).reverse l)
    (hout : graph.descendantsDfsPreorder n root = some (.ok out)) :
    out = Preorder.keepFirst [] l := by
  rw [descendantsDfsPreorder, if_pos hroot] at hout
  obtain ⟨out', hwalk, heq⟩ := Option.map_eq_some_iff.mp hout
  rw [Preorder.walk_eq_some hwalk h] at heq
  exact (Except.ok.inj heq).symm

theorem mem_keepFirst_iff {root : UUID} {l : List UUID}
    (h : Preorder.Unfolds graph.children (graph.children root).reverse l) {c : UUID} :
    c ∈ Preorder.keepFirst [] l ↔ graph.Ancestor root c := by
  rw [Preorder.mem_keepFirst, or_iff_right List.not_mem_nil, h.mem_iff, ← transGen_children_iff,
    Relation.TransGen.head'_iff]
  simp only [List.mem_reverse]
  rfl

/-- **The two walks are dual.** In a graph without cycles that has the parents of its sessions, the
strict ancestors of one session are listed once, in the order of their distances, and so are the
strict descendants of another one; the one is listed if the other one is. -/
theorem ancestors_descendants (hacyclic : graph.Acyclic) (hparents : graph.HasParents) {a b : UUID}
    (ha : a ∈ graph.ids) (hb : b ∈ graph.ids) :
    ∃ up down, (∃ n, graph.ancestorsBfs n b = some (.ok up)) ∧
      (∃ n, graph.descendantsDfsPreorder n a = some (.ok down)) ∧
      up.Nodup ∧ (∀ c, c ∈ up ↔ graph.Ancestor c b) ∧
      (up.Pairwise fun c d => graph.byId.distance b c ≤ graph.byId.distance b d) ∧
      down.Nodup ∧ (∀ c, c ∈ down ↔ graph.Ancestor a c) ∧ (a ∈ up ↔ b ∈ down) := by
  obtain ⟨n, up, hup, hnodup, hmem, hsorted⟩ := exists_ancestorsBfs_eq_ok hparents hb
  obtain ⟨l, hl⟩ := (exists_unfolds_children_iff a).mpr fun c _ => hacyclic c
  refine ⟨up, Preorder.keepFirst [] l, ⟨n, hup⟩, descendants_eq_ok ha hl, hnodup, hmem, hsorted,
    Preorder.nodup_keepFirst List.nodup_nil, fun c => mem_keepFirst_iff hl, ?_⟩
  rw [hmem, mem_keepFirst_iff hl]

/-! ### Preorder -/

/-- The two walks end, and in a graph without cycles the descendants are in the preorder of a
depth-first search that visits the children of a session in the order of the mapping. -/
def EndsInPreorder (graph : SessionGraph) (root : UUID) : Prop :=
  (∃ n, (graph.ancestorsBfs n root).isSome) ∧
    (∃ n, (graph.descendantsDfsPreorder n root).isSome) ∧
    (root ∈ graph.ids → graph.Acyclic → ∃ n out,
      graph.descendantsDfsPreorder n root = some (.ok out) ∧
        Preorder.Dfs graph.children [] (graph.children root) out)

/-- The children of the root are visited in the reverse order. -/
theorem dfs_iff_of_acyclic (hacyclic : graph.Acyclic) {root : UUID} (hroot : root ∈ graph.ids) :
    (∃ n out, graph.descendantsDfsPreorder n root = some (.ok out) ∧
      Preorder.Dfs graph.children [] (graph.children root) out) ↔
      ∀ c ∈ graph.children root, ∀ d ∈ graph.children root, c = d := by
  have hbelow : ∀ a, ∃ l, Preorder.Unfolds graph.children (graph.children a) l := by
    intro a
    obtain ⟨l, hl⟩ := (exists_unfolds_children_iff a).mpr fun c _ => hacyclic c
    refine Preorder.exists_unfolds_of_forall fun c hc => ?_
    obtain ⟨l', hl', -⟩ := hl.exists_below (hl.mem_iff.mpr ⟨c, List.mem_reverse.mpr hc, .refl⟩)
    exact ⟨l', hl'⟩
  obtain ⟨l, hl⟩ := (exists_unfolds_children_iff root).mpr fun c _ => hacyclic c
  obtain ⟨l', hl'⟩ := hbelow root
  have hdfs : Preorder.Dfs graph.children [] (graph.children root) (Preorder.keepFirst [] l') :=
    Preorder.dfs_keepFirst hl' fun a ha => absurd ha List.not_mem_nil
  constructor
  · rintro ⟨n, out, hout, hpreorder⟩
    have hsame : Preorder.keepFirst [] l = Preorder.keepFirst [] l' := by
      rw [← eq_of_descendants_eq_ok hroot hl hout]
      exact hpreorder.unique hdfs
    have hends : (graph.children root).getLast? = (graph.children root).head? := by
      rw [← List.head?_reverse, ← hl.head?_eq, ← Preorder.head?_keepFirst, hsame,
        Preorder.head?_keepFirst, hl'.head?_eq]
    rcases hhead : (graph.children root).head? with _ | c
    · rw [List.head?_eq_none_iff.mp hhead]
      exact fun c hc => absurd hc List.not_mem_nil
    · have hall := eq_of_head_eq_last graph.nodup_ids (children_eq root) hhead (hends.trans hhead)
      exact fun d hd e he => (hall d hd).trans (hall e he).symm
  · intro hone
    have hreverse : (graph.children root).reverse = graph.children root := by
      rcases hchildren : graph.children root with _ | ⟨c, others⟩
      · rfl
      · have hc : c ∈ graph.children root := hchildren ▸ List.mem_cons_self
        rw [← hchildren, List.eq_replicate_iff.mpr ⟨rfl, fun d hd => hone d hd c hc⟩,
          List.reverse_replicate]
    rw [hreverse] at hl
    obtain rfl := hl.unique hl'
    obtain ⟨n, hn⟩ := descendants_eq_ok hroot (hreverse.symm ▸ hl')
    exact ⟨n, _, hn, hdfs⟩

/-- **The walk to the descendants.** It ends if and only if no descendant lies on a cycle, and it is
in preorder if and only if the root has one child at most. -/
theorem endsInPreorder_iff (graph : SessionGraph) (root : UUID) :
    graph.EndsInPreorder root ↔
      (root ∈ graph.ids → (∀ c, graph.Ancestor root c → ¬ graph.Ancestor c c) ∧
        (graph.Acyclic → ∀ c ∈ graph.children root, ∀ d ∈ graph.children root, c = d)) := by
  rw [EndsInPreorder, and_iff_right (exists_isSome_ancestorsBfs root)]
  by_cases hroot : root ∈ graph.ids
  · rw [exists_isSome_descendants_iff hroot, imp_iff_right hroot, imp_iff_right hroot]
    refine and_congr_right fun _ => forall_congr' fun hacyclic => ?_
    exact dfs_iff_of_acyclic hacyclic hroot
  · refine iff_of_true ⟨⟨0, ?_⟩, fun h => absurd h hroot⟩ fun h => absurd h hroot
    rw [descendantsDfsPreorder, if_neg hroot]
    rfl

/-! ### Cycles -/

theorem settled_white : graph.byId.Settled fun _ => .white where
  closed _ ha := nomatch ha
  acyclic _ ha := nomatch ha

theorem whites_le_length (marks : UUID → Colour) : graph.byId.whites marks ≤ graph.byId.length :=
  List.countP_le_length

theorem ends_visits (hparents : graph.HasParents) {frames : ℕ}
    (hframes : graph.byId.length < frames) :
    graph.byId.Ends graph.ids (fun _ => .white) (graph.visits frames) := by
  refine Graph.ends_foldlM settled_white (Nat.lt_of_le_of_lt (whites_le_length _) hframes) ?_
  intro a ha marks hsettled hgray hless
  -- No session is being visited.
  have hnone : ∀ b, marks b ≠ .gray := fun b hb => nomatch (hgray b).mp hb
  by_cases hwhite : marks a = .white
  · rw [if_pos hwhite]
    have hpresent : ∀ a b, graph.byId.Edge a b → (graph.byId.lookup b).isSome := by
      intro a b hedge
      obtain ⟨parents, hmem, hb⟩ := edge_iff.mp hedge
      exact mem_ids_iff.mp (hparents _ hmem _ hb)
    exact Graph.visit_spec hpresent (mem_ids_iff.mp ha) hsettled
      (fun b hb => absurd hb (hnone b)) hless
  · rw [if_neg hwhite]
    have hblack : marks a = .black := by
      rcases hcolour : marks a with _ | _ | _
      · exact absurd hcolour hwhite
      · exact absurd hcolour (hnone a)
      · rfl
    exact Or.inl ⟨marks, rfl, .of_black hsettled hblack⟩

theorem visits_eq_of_le (hparents : graph.HasParents) {frames frames' : ℕ}
    (hframes : graph.byId.length < frames) (hle : frames ≤ frames') :
    graph.visits frames' = graph.visits frames := by
  refine Graph.foldlM_eq_of_eq (e := .frames) (fun marks a h => ?_) ?_
  · by_cases hwhite : marks a = .white
    · rw [if_pos hwhite] at h
      rw [if_pos hwhite, if_pos hwhite]
      exact Graph.visit_eq_of_le hle h
    · rw [if_neg hwhite, if_neg hwhite]
  · intro herror
    obtain ⟨marks', hresult, -⟩ | ⟨b, hresult, -⟩ := ends_visits hparents hframes
    · cases hresult.symm.trans herror
    · cases hresult.symm.trans herror

theorem checkParents_cases (entry : UUID × List UUID) :
    (graph.checkParents entry = .ok () ∧ ∀ p ∈ entry.2, p ∈ graph.ids) ∨
      (∃ message, graph.checkParents entry = .error (.consistency message)) ∧
        ∃ p ∈ entry.2, p ∉ graph.ids := by
  rw [checkParents]
  rcases hfind : entry.2.find? fun p => p ∉ graph.ids with _ | p
  · refine Or.inl ⟨rfl, fun p hp => ?_⟩
    by_contra hnot
    exact List.find?_eq_none.mp hfind p hp (decide_eq_true hnot)
  · refine Or.inr ⟨⟨_, rfl⟩, p, List.mem_of_find?_eq_some hfind, ?_⟩
    simpa using List.find?_some hfind

theorem hasParents_of_forM (h : graph.byId.forM graph.checkParents = .ok ()) :
    graph.HasParents := by
  intro entry hentry
  obtain ⟨-, hall⟩ | ⟨⟨message, hmessage⟩, -⟩ := checkParents_cases entry
  · exact hall
  · cases (forM_eq_ok_iff.mp h entry hentry).symm.trans hmessage

/-- What `validate_acyclic` finds out, with a frame more than there are sessions. -/
theorem validateWithin_spec {frames : ℕ} (hframes : graph.byId.length < frames) :
    (graph.validateWithin frames = .ok () ∧ graph.HasParents ∧ graph.Acyclic) ∨
      (∃ message, graph.validateWithin frames = .error (.consistency message)) ∧
        (¬ graph.HasParents ∨ ¬ graph.Acyclic) := by
  rw [validateWithin]
  rcases hcheck : graph.byId.forM graph.checkParents with e | u
  · obtain ⟨entry, hentry, herror⟩ := exists_of_forM_eq_error hcheck
    obtain ⟨hok, -⟩ | ⟨⟨message, hmessage⟩, p, hp, hmissing⟩ := checkParents_cases entry
    · cases herror.symm.trans hok
    · obtain rfl := Except.error.inj (herror.symm.trans hmessage)
      exact Or.inr ⟨⟨message, rfl⟩, Or.inl fun hparents => hmissing (hparents entry hentry p hp)⟩
  have hparents := hasParents_of_forM hcheck
  obtain ⟨marks, hresult, hvisited⟩ | ⟨b, hresult, hcycle⟩ := ends_visits hparents hframes
  · rw [hresult]
    refine Or.inl ⟨rfl, hparents, fun a hcycle => ?_⟩
    obtain ⟨c, hedge, -⟩ := Relation.TransGen.head'_iff.mp hcycle
    exact hvisited.settled.acyclic a (hvisited.all_black a (mem_ids_of_edge hedge)) hcycle
  · rw [hresult]
    exact Or.inr ⟨⟨_, rfl⟩, Or.inr fun hacyclic => hacyclic b hcycle⟩

/-- **The search decides acyclicity.** It raises `LineageConsistencyError` if and only if a parent
is missing or a session is an ancestor of itself, it raises nothing else, and more frames make no
difference. -/
theorem validateAcyclic_eq_error_iff (graph : SessionGraph) :
    ((∃ message, graph.validateAcyclic = .error (.consistency message)) ↔
      (∃ entry ∈ graph.byId, ∃ p ∈ entry.2, p ∉ graph.ids) ∨ ∃ a, graph.Ancestor a a) ∧
      (graph.validateAcyclic = .ok () ∨
        ∃ message, graph.validateAcyclic = .error (.consistency message)) ∧
      ∀ frames, graph.byId.length < frames →
        graph.validateWithin frames = graph.validateAcyclic := by
  have hmissing : (∃ entry ∈ graph.byId, ∃ p ∈ entry.2, p ∉ graph.ids) ↔ ¬ graph.HasParents := by
    simp only [HasParents, not_forall, exists_prop]
  have hcyclic : (∃ a, graph.Ancestor a a) ↔ ¬ graph.Acyclic := by
    simp only [Acyclic, not_forall, not_not]
  rw [hmissing, hcyclic]
  refine ⟨?_, ?_, fun frames hframes => ?_⟩
  · obtain ⟨hok, hparents, hacyclic⟩ | ⟨herror, hwrong⟩ :=
      validateWithin_spec (Nat.lt_succ_self graph.byId.length)
    · refine iff_of_false ?_ fun h => h.elim (· hparents) (· hacyclic)
      rintro ⟨message, hmessage⟩
      cases hok.symm.trans hmessage
    · exact iff_of_true herror hwrong
  · exact (validateWithin_spec (Nat.lt_succ_self graph.byId.length)).imp And.left And.left
  · rw [validateAcyclic, validateWithin, validateWithin]
    rcases hcheck : graph.byId.forM graph.checkParents with e | u
    · rfl
    · rw [visits_eq_of_le (hasParents_of_forM hcheck) (Nat.lt_succ_self _) hframes]

end SessionGraph

namespace Sample

theorem nodup_forkedIds : ([⟨1⟩, ⟨2⟩, ⟨3⟩, ⟨4⟩] : List UUID).Nodup := by decide

/-- A session, two forks of it, and a session that was merged from them. -/
def merged : SessionGraph where
  byId := [(⟨1⟩, []), (⟨2⟩, [⟨1⟩]), (⟨3⟩, [⟨1⟩]), (⟨4⟩, [⟨2⟩, ⟨3⟩, ⟨2⟩])]
  nodup_ids := nodup_forkedIds

theorem nodup_circularIds : ([⟨1⟩, ⟨2⟩] : List UUID).Nodup := by decide

/-- Two sessions, each of which was made the parent of the other one. -/
def circular : SessionGraph where
  byId := [(⟨1⟩, [⟨2⟩]), (⟨2⟩, [⟨1⟩])]
  nodup_ids := nodup_circularIds

/-- The forks are listed in the reverse order. -/
example : merged.descendantsDfsPreorder 5 ⟨1⟩ = some (.ok [⟨3⟩, ⟨4⟩, ⟨2⟩]) := by decide +kernel

theorem acyclic_merged : merged.Acyclic := SessionGraph.acyclic_of_lt (by decide +kernel)

theorem hasParents_merged : merged.HasParents := by
  show ∀ entry ∈ merged.byId, ∀ p ∈ entry.2, p ∈ merged.ids
  decide +kernel

/-- The first session and the merged one. -/
theorem ancestors_descendants_merged : ∃ up down,
    (∃ n, merged.ancestorsBfs n ⟨4⟩ = some (.ok up)) ∧
      (∃ n, merged.descendantsDfsPreorder n ⟨1⟩ = some (.ok down)) ∧
      (⟨1⟩ ∈ up ↔ ⟨4⟩ ∈ down) := by
  obtain ⟨up, down, hup, hdown, -, -, -, -, -, hdual⟩ :=
    SessionGraph.ancestors_descendants acyclic_merged hasParents_merged (a := ⟨1⟩) (b := ⟨4⟩)
      (by decide +kernel) (by decide +kernel)
  exact ⟨up, down, hup, hdown, hdual⟩

/-- The walk does not end, or is not in the order of the children. -/
theorem not_endsInPreorder : ¬ circular.EndsInPreorder ⟨1⟩ ∧ ¬ merged.EndsInPreorder ⟨1⟩ := by
  constructor
  · rintro ⟨-, hends, -⟩
    have hforth : circular.byId.Edge ⟨2⟩ ⟨1⟩ :=
      SessionGraph.edge_iff.mpr ⟨[⟨1⟩], by decide +kernel, by decide +kernel⟩
    have hback : circular.byId.Edge ⟨1⟩ ⟨2⟩ :=
      SessionGraph.edge_iff.mpr ⟨[⟨2⟩], by decide +kernel, by decide +kernel⟩
    have hroot : ⟨1⟩ ∈ circular.ids := by decide +kernel
    exact (SessionGraph.exists_isSome_descendants_iff hroot).mp hends ⟨2⟩ (.single hforth)
      (.tail (.single hforth) hback)
  · rintro ⟨-, -, hpreorder⟩
    have hroot : ⟨1⟩ ∈ merged.ids := by decide +kernel
    have hone := (SessionGraph.dfs_iff_of_acyclic acyclic_merged hroot).mp
      (hpreorder hroot acyclic_merged)
    have hsame : (⟨2⟩ : UUID) = ⟨3⟩ :=
      hone ⟨2⟩ (by decide +kernel) ⟨3⟩ (by decide +kernel)
    exact absurd hsame (by decide)

end Sample

end OpenRath
