import Mathlib.Data.Fintype.EquivFin
import Mathlib.Logic.Relation
import Mathlib.Order.WellFounded

/-!
# Depth-first walks

The vertices below some vertices of a graph are listed with a stack of vertices still to visit, and
nothing is remembered of those that were visited. The walk ends if and only if no cycle can be
reached. It then lists the tree of all walks in preorder; of a vertex to which several walks lead,
the first entry is kept afterwards.

A depth-first search enters every vertex once (`Preorder.Dfs`). Without cycles, both list the
vertices in the same order, as a vertex that is met again was left before.

## Main definitions

* `Preorder.walk`: the walk.
* `Preorder.keepFirst`: a list without the entries that were there before.
* `Preorder.Unfolds`, `Preorder.Dfs`: the tree of all walks, and the search.

## Main results

* `Preorder.exists_walk_iff`, `Preorder.exists_unfolds_iff`: when the walk ends.
* `Preorder.dfs_keepFirst`: without cycles, the walk is the search.
-/

namespace OpenRath.Preorder

variable {α : Type}

/-! ### First entries -/

section KeepFirst

variable [DecidableEq α]

/-- The entries of a list that are not there yet are put behind those that are. -/
def keepFirst (seen l : List α) : List α :=
  l.foldl (fun seen a => if a ∈ seen then seen else seen ++ [a]) seen

@[simp] theorem keepFirst_nil (seen : List α) : keepFirst seen [] = seen := rfl

theorem keepFirst_cons (seen : List α) (a : α) (l : List α) :
    keepFirst seen (a :: l) = keepFirst (if a ∈ seen then seen else seen ++ [a]) l := rfl

theorem keepFirst_append (seen l l' : List α) :
    keepFirst seen (l ++ l') = keepFirst (keepFirst seen l) l' := List.foldl_append

theorem mem_keepFirst {seen l : List α} {a : α} :
    a ∈ keepFirst seen l ↔ a ∈ seen ∨ a ∈ l := by
  induction l generalizing seen with
  | nil => simp
  | cons b l ih =>
    rw [keepFirst_cons, ih, List.mem_cons]
    by_cases hb : b ∈ seen
    · rw [if_pos hb]
      constructor
      · tauto
      · rintro (ha | rfl | ha)
        · exact Or.inl ha
        · exact Or.inl hb
        · exact Or.inr ha
    · rw [if_neg hb, List.mem_append, List.mem_singleton]
      tauto

theorem nodup_keepFirst {seen l : List α} (h : seen.Nodup) : (keepFirst seen l).Nodup := by
  induction l generalizing seen with
  | nil => exact h
  | cons a l ih =>
    rw [keepFirst_cons]
    by_cases ha : a ∈ seen
    · rw [if_pos ha]
      exact ih h
    · rw [if_neg ha]
      refine ih (List.nodup_append.mpr ⟨h, List.nodup_singleton a, ?_⟩)
      rintro b hb c hc rfl
      exact ha (List.mem_singleton.mp hc ▸ hb)

theorem keepFirst_of_subset {seen l : List α} (h : l ⊆ seen) : keepFirst seen l = seen := by
  induction l with
  | nil => rfl
  | cons a l ih =>
    obtain ⟨ha, hl⟩ := List.cons_subset.mp h
    rw [keepFirst_cons, if_pos ha, ih hl]

theorem prefix_keepFirst (seen l : List α) : seen <+: keepFirst seen l := by
  induction l generalizing seen with
  | nil => exact List.prefix_refl seen
  | cons a l ih =>
    rw [keepFirst_cons]
    refine List.IsPrefix.trans ?_ (ih _)
    split_ifs
    · exact List.prefix_refl seen
    · exact List.prefix_append seen [a]

theorem head?_keepFirst (l : List α) : (keepFirst [] l).head? = l.head? := by
  rcases l with _ | ⟨a, l⟩
  · rfl
  rw [keepFirst_cons, if_neg List.not_mem_nil, List.nil_append]
  obtain ⟨rest, hrest⟩ := prefix_keepFirst [a] l
  rw [← hrest, List.singleton_append, List.head?_cons, List.head?_cons]

end KeepFirst

/-! ### The walk -/

variable (succ : α → List α)

/-- The edges of the graph. -/
def Edge (a b : α) : Prop := b ∈ succ a

/-- The loop over a stack, whose top comes first, for a number of iterations at most. -/
def walk : ℕ → List α → List α → Option (List α)
  | _, [], out => some out
  | 0, _ :: _, _ => none
  | n + 1, a :: stack, out => walk n (succ a ++ stack) (out ++ [a])

/-- The trees of all walks from some vertices, in preorder. -/
inductive Unfolds : List α → List α → Prop
  | nil : Unfolds [] []
  | cons {a : α} {as l l' : List α} (below : Unfolds (succ a) l) (rest : Unfolds as l') :
      Unfolds (a :: as) (a :: (l ++ l'))

variable {succ}

theorem Unfolds.unique {as l l' : List α} (h : Unfolds succ as l) (h' : Unfolds succ as l') :
    l = l' := by
  induction h generalizing l' with
  | nil =>
    cases h'
    rfl
  | cons _ _ ihbelow ihrest =>
    cases h' with
    | cons below' rest' => rw [ihbelow below', ihrest rest']

theorem Unfolds.head?_eq {as l : List α} (h : Unfolds succ as l) : l.head? = as.head? := by
  cases h <;> rfl

theorem Unfolds.exists_of_append {as bs l : List α} (h : Unfolds succ (as ++ bs) l) :
    ∃ l₁ l₂, Unfolds succ as l₁ ∧ Unfolds succ bs l₂ ∧ l = l₁ ++ l₂ := by
  induction as generalizing l with
  | nil => exact ⟨[], l, .nil, h, rfl⟩
  | cons a as ih =>
    cases h with
    | cons below rest =>
      obtain ⟨l₁, l₂, h₁, h₂, rfl⟩ := ih rest
      exact ⟨_, l₂, .cons below h₁, h₂, by rw [List.cons_append, List.append_assoc]⟩

/-- The walk lists the trees of the vertices at the top of the stack first. -/
theorem walk_of_unfolds {as l : List α} (h : Unfolds succ as l) (n : ℕ) (stack out : List α) :
    walk succ (n + l.length) (as ++ stack) out = walk succ n stack (out ++ l) := by
  induction h generalizing n stack out with
  | nil => simp
  | @cons a as l l' below rest ihbelow ihrest =>
    have hlength : n + (a :: (l ++ l')).length = (n + l'.length + l.length) + 1 := by
      rw [List.length_cons, List.length_append]
      omega
    rw [hlength, List.cons_append, walk, ihbelow, ihrest]
    simp

theorem unfolds_of_walk {n : ℕ} {as out out' : List α} (h : walk succ n as out = some out') :
    ∃ l, Unfolds succ as l ∧ out' = out ++ l := by
  induction n generalizing as out with
  | zero =>
    rcases as with _ | ⟨a, as⟩
    · cases h
      exact ⟨[], .nil, (List.append_nil _).symm⟩
    · cases h
  | succ n ih =>
    rcases as with _ | ⟨a, as⟩
    · cases h
      exact ⟨[], .nil, (List.append_nil _).symm⟩
    · obtain ⟨l, hl, rfl⟩ := ih h
      obtain ⟨l₁, l₂, h₁, h₂, rfl⟩ := hl.exists_of_append
      exact ⟨_, .cons h₁ h₂, by simp⟩

/-- The walk ends if the trees are finite. -/
theorem exists_walk_iff {as : List α} :
    (∃ n, (walk succ n as []).isSome) ↔ ∃ l, Unfolds succ as l := by
  constructor
  · rintro ⟨n, hn⟩
    obtain ⟨out, hout⟩ := Option.isSome_iff_exists.mp hn
    obtain ⟨l, hl, -⟩ := unfolds_of_walk hout
    exact ⟨l, hl⟩
  · rintro ⟨l, hl⟩
    refine ⟨0 + l.length, ?_⟩
    have hwalk := walk_of_unfolds hl 0 [] []
    rw [List.append_nil] at hwalk
    rw [hwalk]
    rfl

/-- However long the walk is let run, if it ends it has listed the trees. -/
theorem walk_eq_some {n : ℕ} {as out l : List α} (h : walk succ n as [] = some out)
    (hl : Unfolds succ as l) : out = l := by
  obtain ⟨l', hl', rfl⟩ := unfolds_of_walk h
  exact hl'.unique hl

/-! ### What the walk lists -/

theorem Unfolds.mem_iff {as l : List α} (h : Unfolds succ as l) {b : α} :
    b ∈ l ↔ ∃ a ∈ as, Relation.ReflTransGen (Edge succ) a b := by
  induction h with
  | nil => simp
  | @cons a as l l' below rest ihbelow ihrest =>
    rw [List.mem_cons, List.mem_append, ihbelow, ihrest, List.exists_mem_cons_iff]
    refine or_assoc.symm.trans (or_congr_left ?_)
    constructor
    · rintro (rfl | ⟨c, hc, hpath⟩)
      · exact .refl
      · exact .head hc hpath
    · intro hpath
      rcases hpath.cases_head with rfl | ⟨c, hc, hpath⟩
      · exact Or.inl rfl
      · exact Or.inr ⟨c, hc, hpath⟩

/-- The tree below a vertex that is listed is a smaller one. -/
theorem Unfolds.exists_below {as l : List α} (h : Unfolds succ as l) {b : α} (hb : b ∈ l) :
    ∃ l', Unfolds succ (succ b) l' ∧ l'.length < l.length := by
  induction h with
  | nil => exact absurd hb List.not_mem_nil
  | @cons a as l l' below rest ihbelow ihrest =>
    have hlength : (a :: (l ++ l')).length = l.length + l'.length + 1 := by
      rw [List.length_cons, List.length_append]
    rw [List.mem_cons, List.mem_append] at hb
    obtain rfl | hb | hb := hb
    · exact ⟨l, below, by omega⟩
    · obtain ⟨l₁, h₁, hlt⟩ := ihbelow hb
      exact ⟨l₁, h₁, by omega⟩
    · obtain ⟨l₁, h₁, hlt⟩ := ihrest hb
      exact ⟨l₁, h₁, by omega⟩

theorem Unfolds.exists_of_transGen {a b : α} (hpath : Relation.TransGen (Edge succ) a b)
    {l : List α} (h : Unfolds succ (succ a) l) :
    ∃ l', Unfolds succ (succ b) l' ∧ l'.length < l.length := by
  obtain ⟨c, hc, hpath⟩ := Relation.TransGen.head'_iff.mp hpath
  exact h.exists_below (h.mem_iff.mpr ⟨c, hc, hpath⟩)

/-- A finite tree does not come back to a vertex. -/
theorem Unfolds.not_transGen {as l : List α} (h : Unfolds succ as l) {b : α} (hb : b ∈ l) :
    ¬ Relation.TransGen (Edge succ) b b := by
  intro hcycle
  obtain ⟨l₁, h₁, -⟩ := h.exists_below hb
  obtain ⟨l₂, h₂, hlt⟩ := Unfolds.exists_of_transGen hcycle h₁
  exact absurd hlt (by rw [h₂.unique h₁]; exact Nat.lt_irrefl _)

theorem exists_unfolds_of_forall {as : List α} (h : ∀ a ∈ as, ∃ l, Unfolds succ (succ a) l) :
    ∃ l, Unfolds succ as l := by
  induction as with
  | nil => exact ⟨[], .nil⟩
  | cons a as ih =>
    obtain ⟨⟨l, hl⟩, has⟩ := List.forall_mem_cons.mp h
    obtain ⟨l', hl'⟩ := ih has
    exact ⟨_, .cons hl hl'⟩

/-- The trees are finite if and only if no cycle can be reached. -/
theorem exists_unfolds_iff {as : List α}
    (hfinite : {b | ∃ a ∈ as, Relation.ReflTransGen (Edge succ) a b}.Finite) :
    (∃ l, Unfolds succ as l) ↔
      ∀ a ∈ as, ∀ b, Relation.ReflTransGen (Edge succ) a b →
        ¬ Relation.TransGen (Edge succ) b b := by
  constructor
  · rintro ⟨l, hl⟩ a ha b hpath
    exact hl.not_transGen (hl.mem_iff.mpr ⟨a, ha, hpath⟩)
  intro hacyclic
  set reached := {b | ∃ a ∈ as, Relation.ReflTransGen (Edge succ) a b} with hreached
  have := hfinite.to_subtype
  -- Among finitely many vertices without cycles, one can only go down so often.
  let below : reached → reached → Prop := fun b c => Relation.TransGen (Edge succ) c.1 b.1
  have htrans : IsTrans reached below := ⟨fun b c d hbc hcd => hcd.trans hbc⟩
  have hirrefl : Std.Irrefl below := ⟨fun b => by
    obtain ⟨a, ha, hpath⟩ := b.2
    exact hacyclic a ha b.1 hpath⟩
  have hwf : WellFounded below := Finite.wellFounded_of_trans_of_irrefl below
  have hall : ∀ b : reached, ∃ l, Unfolds succ (succ b.1) l := fun b => by
    induction b using hwf.induction with
    | _ b ih =>
      refine exists_unfolds_of_forall fun c hc => ?_
      obtain ⟨a, ha, hpath⟩ := b.2
      exact ih ⟨c, a, ha, hpath.tail hc⟩ (.single hc)
  exact exists_unfolds_of_forall fun a ha => hall ⟨a, a, ha, .refl⟩

/-! ### Recursion -/

section Yields

variable {β : Type}

/-- What some computations yield one after the other, up to the first one that does not end, and
whether all of them end. -/
def inTurn (below : α → List β × Bool) : List α → List β × Bool
  | [] => ([], true)
  | a :: as =>
    if (below a).2 then ((below a).1 ++ (inTurn below as).1, (inTurn below as).2) else below a

variable (succ) (own : α → List β)

/-- What a recursion over the tree below a vertex yields until it ends or its frames are used up,
and whether it ends. -/
def yields : ℕ → α → List β × Bool
  | 0, _ => ([], false)
  | frames + 1, a =>
    let below := inTurn (fun b => yields frames b) (succ a)
    (own a ++ below.1, below.2)

variable {succ own} {below : α → List β × Bool} {x : β}

theorem exists_of_mem_inTurn {as : List α} (h : x ∈ (inTurn below as).1) :
    ∃ a ∈ as, x ∈ (below a).1 := by
  induction as with
  | nil => exact absurd h List.not_mem_nil
  | cons a as ih =>
    rw [inTurn] at h
    by_cases ha : (below a).2 = true
    · rw [if_pos ha] at h
      obtain h | h := List.mem_append.mp h
      · exact ⟨a, List.mem_cons_self, h⟩
      · obtain ⟨b, hb, hx⟩ := ih h
        exact ⟨b, List.mem_cons_of_mem a hb, hx⟩
    · rw [if_neg ha] at h
      exact ⟨a, List.mem_cons_self, h⟩

theorem mem_inTurn {as : List α} (h : (inTurn below as).2 = true) :
    ∀ a ∈ as, (below a).2 = true ∧ ∀ x ∈ (below a).1, x ∈ (inTurn below as).1 := by
  induction as with
  | nil => exact fun a ha => absurd ha List.not_mem_nil
  | cons a as ih =>
    rw [inTurn] at h ⊢
    by_cases ha : (below a).2 = true
    · rw [if_pos ha] at h ⊢
      refine List.forall_mem_cons.mpr ⟨⟨ha, fun x hx => List.mem_append_left _ hx⟩, ?_⟩
      intro b hb
      obtain ⟨hended, hmem⟩ := ih h b hb
      exact ⟨hended, fun x hx => List.mem_append_right _ (hmem x hx)⟩
    · rw [if_neg ha] at h
      exact absurd h ha

/-- Whatever is yielded belongs to a vertex that can be reached. -/
theorem exists_of_mem_yields {frames : ℕ} {a : α} (h : x ∈ (yields succ own frames a).1) :
    ∃ b, Relation.ReflTransGen (Edge succ) a b ∧ x ∈ own b := by
  induction frames generalizing a with
  | zero => exact absurd h List.not_mem_nil
  | succ frames ih =>
    obtain h | h := List.mem_append.mp h
    · exact ⟨a, .refl, h⟩
    · obtain ⟨b, hb, h⟩ := exists_of_mem_inTurn h
      obtain ⟨c, hpath, hx⟩ := ih h
      exact ⟨c, .head hb hpath, hx⟩

/-- A recursion that ends has yielded what belongs to the vertices that can be reached. -/
theorem mem_yields {frames : ℕ} {a b : α} (h : (yields succ own frames a).2 = true)
    (hpath : Relation.ReflTransGen (Edge succ) a b) (hx : x ∈ own b) :
    x ∈ (yields succ own frames a).1 := by
  induction frames generalizing a with
  | zero => cases h
  | succ frames ih =>
    rcases hpath.cases_head with rfl | ⟨c, hc, hpath⟩
    · exact List.mem_append_left _ hx
    · obtain ⟨hended, hmem⟩ := mem_inTurn h c hc
      exact List.mem_append_right _ (hmem x (ih hended hpath))

end Yields

/-! ### The search -/

/-- A depth-first search of some vertices one after the other: the vertices that were entered
before, and those that were entered afterwards. -/
inductive Dfs (succ : α → List α) : List α → List α → List α → Prop
  | nil {seen : List α} : Dfs succ seen [] seen
  | seen {a : α} {as before after : List α} (mem : a ∈ before) (rest : Dfs succ before as after) :
      Dfs succ before (a :: as) after
  | enter {a : α} {as before between after : List α} (not_mem : a ∉ before)
      (below : Dfs succ (before ++ [a]) (succ a) between) (rest : Dfs succ between as after) :
      Dfs succ before (a :: as) after

theorem Dfs.unique {as before after after' : List α} (h : Dfs succ before as after)
    (h' : Dfs succ before as after') : after = after' := by
  induction h generalizing after' with
  | nil =>
    cases h'
    rfl
  | seen mem _ ih =>
    cases h' with
    | seen _ rest' => exact ih rest'
    | enter not_mem' => exact absurd mem not_mem'
  | enter not_mem _ _ ihbelow ihrest =>
    cases h' with
    | seen mem' => exact absurd mem' not_mem
    | enter _ below' rest' =>
      obtain rfl := ihbelow below'
      exact ihrest rest'

variable [DecidableEq α]

/-- What is below a vertex that was left before was entered before. -/
def Left (succ : α → List α) (seen l : List α) : Prop :=
  ∀ a ∈ seen, a ∈ l → ∀ b, Relation.TransGen (Edge succ) a b → b ∈ seen

/-- **The walk and the search.** The first entries of finite trees are in the order in which the
search enters the vertices. -/
theorem dfs_keepFirst {as l seen : List α} (h : Unfolds succ as l) (hseen : Left succ seen l) :
    Dfs succ seen as (keepFirst seen l) := by
  induction h generalizing seen with
  | nil => exact .nil
  | @cons a as l l' below rest ihbelow ihrest =>
    have hbelow : ∀ b, b ∈ l ↔ Relation.TransGen (Edge succ) a b := fun b => by
      rw [below.mem_iff, Relation.TransGen.head'_iff]
      rfl
    by_cases ha : a ∈ seen
    · -- The vertex was left before, and so was what is below it.
      have hsubset : a :: l ⊆ seen := List.cons_subset.mpr ⟨ha, fun b hb =>
        hseen a ha List.mem_cons_self b ((hbelow b).mp hb)⟩
      have hkeep : keepFirst seen (a :: (l ++ l')) = keepFirst seen l' := by
        rw [← List.cons_append, keepFirst_append, keepFirst_of_subset hsubset]
      rw [hkeep]
      exact .seen ha (ihrest fun b hb hbl => hseen b hb (by simp [hbl]))
    · have hkeep : keepFirst seen (a :: (l ++ l')) = keepFirst (keepFirst (seen ++ [a]) l) l' := by
        rw [keepFirst_cons, if_neg ha, keepFirst_append]
      rw [hkeep]
      refine .enter ha (ihbelow fun b hb hbl c hc => ?_) (ihrest fun b hb hbl c hc => ?_)
      · rcases List.mem_append.mp hb with hb | hb
        · exact List.mem_append_left _ (hseen b hb (by simp [hbl]) c hc)
        · -- The vertex itself is not below it.
          obtain rfl := List.mem_singleton.mp hb
          exact absurd ((hbelow b).mp hbl) (below.not_transGen hbl)
      · rw [mem_keepFirst, List.mem_append, List.mem_singleton] at hb ⊢
        obtain (hb | rfl) | hb := hb
        · exact Or.inl (Or.inl (hseen b hb (by simp [hbl]) c hc))
        · exact Or.inr ((hbelow c).mpr hc)
        · exact Or.inr ((hbelow c).mpr (((hbelow b).mp hb).trans hc))

end OpenRath.Preorder
