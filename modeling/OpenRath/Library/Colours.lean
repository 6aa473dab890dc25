import Mathlib.Data.List.Count
import Mathlib.Logic.Function.Basic
import OpenRath.Library.Reach

/-!
# Search with three colours

A graph is searched depth first, by a recursion. A vertex is white until it is visited, gray as long
as its successors are being visited, and black when it is left. A gray vertex that is visited again
lies on a cycle. What is black never leads back to a gray vertex, so a vertex that is left does not
lie on a cycle.

## Main definitions

* `Colour`, `Graph.visit`, `Graph.visitAll`: the search, with a number of frames for the recursion.
* `Graph.Settled`: what is known of the black vertices.
* `Graph.Visited`: what a visit does.

## Main results

* `Graph.visit_spec`: a visit settles its vertex or finds a cycle.
* `Graph.visit_eq_of_le`: more frames make no difference.
-/

namespace OpenRath

/-- The state of a vertex. -/
inductive Colour
  | white
  | gray
  | black
deriving DecidableEq

/-- Why a search is given up. -/
inductive VisitError (α : Type)
  /-- A vertex is visited while it is gray. -/
  | cycle (a : α)
  /-- A vertex that the graph does not have. -/
  | missing (a : α)
  /-- The recursion is too deep. -/
  | frames

namespace Graph

variable {α : Type} [DecidableEq α]

/-- The visit of a vertex. -/
def visit (graph : Graph α) : ℕ → α → (α → Colour) → Except (VisitError α) (α → Colour)
  | 0, _, _ => .error .frames
  | frames + 1, a, marks =>
    match marks a with
    | .black => .ok marks
    | .gray => .error (.cycle a)
    | .white =>
      match graph.lookup a with
      | none => .error (.missing a)
      | some next => do
        let marks ← next.foldlM (fun marks b => visit graph frames b marks)
          (Function.update marks a .gray)
        .ok (Function.update marks a .black)

/-- The visit of some vertices one after the other. -/
def visitAll (graph : Graph α) (frames : ℕ) (as : List α) (marks : α → Colour) :
    Except (VisitError α) (α → Colour) :=
  as.foldlM (fun marks a => visit graph frames a marks) marks

variable {graph : Graph α} {frames : ℕ} {a : α} {as : List α} {marks marks' : α → Colour}

theorem visit_of_black (h : marks a = .black) : graph.visit (frames + 1) a marks = .ok marks := by
  rw [visit, h]

theorem visit_of_gray (h : marks a = .gray) :
    graph.visit (frames + 1) a marks = .error (.cycle a) := by
  rw [visit, h]

theorem visit_of_missing (h : marks a = .white) (hnone : graph.lookup a = none) :
    graph.visit (frames + 1) a marks = .error (.missing a) := by
  rw [visit, h, hnone]

theorem visit_of_white (h : marks a = .white) {next : List α} (hnext : graph.lookup a = some next) :
    graph.visit (frames + 1) a marks =
      (graph.visitAll frames next (Function.update marks a .gray)).bind fun marks =>
        .ok (Function.update marks a .black) := by
  rw [visit, h, hnext]
  rfl

/-! ### What a visit does -/

/-- What is black does not lead back: only black vertices can be reached from it, and it lies on no
cycle. -/
structure Settled (graph : Graph α) (marks : α → Colour) : Prop where
  closed : ∀ a, marks a = .black → ∀ b, graph.Edge a b → marks b = .black
  acyclic : ∀ a, marks a = .black → ¬ Relation.TransGen graph.Edge a a

theorem Settled.black_of_transGen (h : graph.Settled marks) {b : α} (ha : marks a = .black)
    (hpath : Relation.TransGen graph.Edge a b) : marks b = .black := by
  induction hpath with
  | single hedge => exact h.closed _ ha _ hedge
  | tail _ hedge ih => exact h.closed _ ih _ hedge

/-- A vertex is entered, which was white. -/
theorem Settled.enter (h : graph.Settled marks) (ha : marks a = .white) :
    graph.Settled (Function.update marks a .gray) := by
  have hblack : ∀ b, Function.update marks a .gray b = .black ↔ marks b = .black := by
    intro b
    by_cases hba : b = a
    · rw [hba, Function.update_self, ha]
      decide
    · rw [Function.update_of_ne hba]
  constructor
  · intro b hb c hc
    exact (hblack c).mpr (h.closed b ((hblack b).mp hb) c hc)
  · intro b hb
    exact h.acyclic b ((hblack b).mp hb)

/-- Some vertices were visited: they are black, and the gray ones are the same as before. -/
structure Visited (graph : Graph α) (as : List α) (marks marks' : α → Colour) : Prop where
  settled : graph.Settled marks'
  gray_iff : ∀ b, marks' b = .gray ↔ marks b = .gray
  black : ∀ b, marks b = .black → marks' b = .black
  all_black : ∀ a ∈ as, marks' a = .black

/-- The number of the vertices that were not visited. -/
def whites (graph : Graph α) (marks : α → Colour) : ℕ :=
  graph.countP fun entry => marks entry.1 = .white

omit [DecidableEq α] in
theorem whites_le (h : ∀ b, marks' b = .white → marks b = .white) :
    graph.whites marks' ≤ graph.whites marks :=
  List.countP_mono_left fun entry _ hentry =>
    decide_eq_true (h entry.1 (of_decide_eq_true hentry))

theorem Visited.whites_le (h : graph.Visited as marks marks') :
    graph.whites marks' ≤ graph.whites marks := by
  refine Graph.whites_le fun b hb => ?_
  rcases hcolour : marks b with _ | _ | _
  · rfl
  · rw [(h.gray_iff b).mpr hcolour] at hb
    cases hb
  · rw [h.black b hcolour] at hb
    cases hb

omit [DecidableEq α] in
theorem whites_cons (graph : Graph α) (a : α) (next : List α) (marks : α → Colour) :
    whites ((a, next) :: graph) marks = graph.whites marks + if marks a = .white then 1 else 0 := by
  rw [whites, List.countP_cons, whites]
  simp only [decide_eq_true_eq]

theorem whites_gray_lt {next : List α} (hnext : graph.lookup a = some next)
    (ha : marks a = .white) :
    graph.whites (Function.update marks a .gray) < graph.whites marks := by
  have hperm := List.perm_cons_erase (mem_of_lookup hnext)
  have hsplit : ∀ marks, graph.whites marks =
      whites ((a, next) :: graph.erase (a, next)) marks := fun marks => hperm.countP_eq _
  have hle : whites (graph.erase (a, next)) (Function.update marks a .gray) ≤
      whites (graph.erase (a, next)) marks := by
    refine Graph.whites_le fun b hb => ?_
    by_cases hba : b = a
    · rw [hba]
      exact ha
    · rwa [Function.update_of_ne hba] at hb
  rw [hsplit, hsplit marks, whites_cons, whites_cons, if_pos ha, Function.update_self,
    if_neg (by decide)]
  exact Nat.lt_succ_of_le hle

/-- How the visits of some vertices end: with the vertices black, or at a cycle. -/
def Ends (graph : Graph α) (as : List α) (marks : α → Colour)
    (result : Except (VisitError α) (α → Colour)) : Prop :=
  (∃ marks', result = .ok marks' ∧ graph.Visited as marks marks') ∨
    ∃ b, result = .error (.cycle b) ∧ Relation.TransGen graph.Edge b b

theorem Visited.nil (h : graph.Settled marks) : graph.Visited [] marks marks where
  settled := h
  gray_iff _ := Iff.rfl
  black _ hb := hb
  all_black _ ha := absurd ha List.not_mem_nil

theorem Visited.cons {marks'' : α → Colour} (h : graph.Visited [a] marks marks')
    (h' : graph.Visited as marks' marks'') : graph.Visited (a :: as) marks marks'' where
  settled := h'.settled
  gray_iff b := (h'.gray_iff b).trans (h.gray_iff b)
  black b hb := h'.black b (h.black b hb)
  all_black := List.forall_mem_cons.mpr
    ⟨h'.black a (h.all_black a List.mem_cons_self), h'.all_black⟩

theorem Visited.of_black (h : graph.Settled marks) (ha : marks a = .black) :
    graph.Visited [a] marks marks where
  settled := h
  gray_iff _ := Iff.rfl
  black _ hb := hb
  all_black _ hb := List.mem_singleton.mp hb ▸ ha

/-- A vertex is left after its successors were visited. -/
theorem Visited.leave {next : List α} (hnext : graph.lookup a = some next) (ha : marks a = .white)
    (h : graph.Visited next (Function.update marks a .gray) marks') :
    graph.Visited [a] marks (Function.update marks' a .black) where
  settled := by
    have hkept : ∀ b, marks' b = .black → Function.update marks' a .black b = .black := by
      intro b hb
      by_cases hba : b = a
      · rw [hba, Function.update_self]
      · rwa [Function.update_of_ne hba]
    have hsuccessors : ∀ b, graph.Edge a b → marks' b = .black := by
      rintro b ⟨next', hnext', hb⟩
      obtain rfl : next = next' := Option.some.inj (hnext.symm.trans hnext')
      exact h.all_black b hb
    have hgray : marks' a = .gray := (h.gray_iff a).mpr (Function.update_self _ _ _)
    constructor
    · intro b hb c hc
      by_cases hba : b = a
      · exact hkept c (hsuccessors c (hba ▸ hc))
      · rw [Function.update_of_ne hba] at hb
        exact hkept c (h.settled.closed b hb c hc)
    · intro b hb hcycle
      by_cases hba : b = a
      · -- The successors of the vertex are black, and so is whatever they lead to.
        subst hba
        obtain ⟨c, hc, hpath⟩ := Relation.TransGen.head'_iff.mp hcycle
        have hblack : marks' b = .black := by
          rcases Relation.reflTransGen_iff_eq_or_transGen.mp hpath with rfl | hpath
          · exact hsuccessors _ hc
          · exact h.settled.black_of_transGen (hsuccessors c hc) hpath
        rw [hgray] at hblack
        cases hblack
      · rw [Function.update_of_ne hba] at hb
        exact h.settled.acyclic b hb hcycle
  gray_iff b := by
    by_cases hba : b = a
    · rw [hba, Function.update_self, ha]
      decide
    · rw [Function.update_of_ne hba, h.gray_iff, Function.update_of_ne hba]
  black b hb := by
    by_cases hba : b = a
    · rw [hba, Function.update_self]
    · rw [Function.update_of_ne hba]
      exact h.black b (by rwa [Function.update_of_ne hba])
  all_black b hb := by
    rw [List.mem_singleton.mp hb, Function.update_self]

/-- Every step leaves the gray vertices as they were. -/
theorem ends_foldlM {f : (α → Colour) → α → Except (VisitError α) (α → Colour)}
    (hsettled : graph.Settled marks) (hframes : graph.whites marks < frames)
    (hf : ∀ a ∈ as, ∀ marks', graph.Settled marks' →
      (∀ b, marks' b = .gray ↔ marks b = .gray) → graph.whites marks' < frames →
      graph.Ends [a] marks' (f marks' a)) :
    graph.Ends as marks (as.foldlM f marks) := by
  induction as generalizing marks with
  | nil => exact Or.inl ⟨marks, rfl, .nil hsettled⟩
  | cons a as ih =>
    obtain ⟨hhead, htail⟩ := List.forall_mem_cons.mp hf
    rw [List.foldlM_cons]
    obtain ⟨marks', hresult, hvisited⟩ | ⟨b, hresult, hcycle⟩ :=
      hhead marks hsettled (fun b => Iff.rfl) hframes
    · rw [hresult]
      have hrest : ∀ c ∈ as, ∀ marks'', graph.Settled marks'' →
          (∀ b, marks'' b = .gray ↔ marks' b = .gray) → graph.whites marks'' < frames →
          graph.Ends [c] marks'' (f marks'' c) := fun c hc marks'' hsettled' hgray =>
        htail c hc marks'' hsettled' fun b => (hgray b).trans (hvisited.gray_iff b)
      obtain ⟨marks'', hresult', hvisited'⟩ | hcycle :=
        ih hvisited.settled (Nat.lt_of_le_of_lt hvisited.whites_le hframes) hrest
      · exact Or.inl ⟨marks'', hresult', hvisited.cons hvisited'⟩
      · exact Or.inr hcycle
    · rw [hresult]
      exact Or.inr ⟨b, rfl, hcycle⟩

/-- **A visit.** If the gray vertices lead to the one that is visited, then the visit leaves it
black or finds a cycle. -/
theorem visit_spec (hpresent : ∀ a b, graph.Edge a b → (graph.lookup b).isSome)
    (ha : (graph.lookup a).isSome) (hsettled : graph.Settled marks)
    (hgray : ∀ b, marks b = .gray → Relation.TransGen graph.Edge b a)
    (hframes : graph.whites marks < frames) :
    graph.Ends [a] marks (graph.visit frames a marks) := by
  induction frames generalizing a marks with
  | zero => exact absurd hframes (Nat.not_lt_zero _)
  | succ frames ih =>
    rcases hcolour : marks a with _ | _ | _
    · obtain ⟨next, hnext⟩ := Option.isSome_iff_exists.mp ha
      have hedge : ∀ b ∈ next, graph.Edge a b := fun b hb => ⟨next, hnext, hb⟩
      rw [visit_of_white hcolour hnext]
      have hless : graph.whites (Function.update marks a .gray) < frames :=
        Nat.lt_of_lt_of_le (whites_gray_lt hnext hcolour) (Nat.le_of_lt_succ hframes)
      -- The gray vertices lead to the successors, as does the one that has become gray.
      have hpath : ∀ b ∈ next, ∀ c, Function.update marks a .gray c = .gray →
          Relation.TransGen graph.Edge c b := by
        intro b hb c hc
        by_cases hca : c = a
        · exact hca ▸ .single (hedge b hb)
        · rw [Function.update_of_ne hca] at hc
          exact (hgray c hc).tail (hedge b hb)
      have hends : graph.Ends next (Function.update marks a .gray)
          (graph.visitAll frames next (Function.update marks a .gray)) :=
        ends_foldlM (hsettled.enter hcolour) hless fun b hb marks' hsettled' hsame hframes' =>
            ih (hpresent a b (hedge b hb)) hsettled' (fun c hc => hpath b hb c ((hsame c).mp hc))
              hframes'
      obtain ⟨marks', hresult, hvisited⟩ | ⟨b, hresult, hcycle⟩ := hends
      · rw [hresult]
        exact Or.inl ⟨_, rfl, hvisited.leave hnext hcolour⟩
      · rw [hresult]
        exact Or.inr ⟨b, rfl, hcycle⟩
    · rw [visit_of_gray hcolour]
      exact Or.inr ⟨a, rfl, hgray a hcolour⟩
    · rw [visit_of_black hcolour]
      exact Or.inl ⟨marks, rfl, .of_black hsettled hcolour⟩

/-! ### Frames -/

/-- Steps that agree unless they fail with an error agree as long as they do not. -/
theorem foldlM_eq_of_eq {ε σ β : Type} {f f' : σ → β → Except ε σ} {e : ε}
    (hf : ∀ s b, f s b ≠ .error e → f' s b = f s b) {bs : List β} {s : σ}
    (h : bs.foldlM f s ≠ .error e) : bs.foldlM f' s = bs.foldlM f s := by
  induction bs generalizing s with
  | nil => rfl
  | cons b bs ih =>
    rw [List.foldlM_cons] at h
    have hhead : f s b ≠ .error e := by
      intro herror
      rw [herror] at h
      exact h rfl
    rw [List.foldlM_cons, List.foldlM_cons, hf s b hhead]
    rcases hresult : f s b with e' | s'
    · rfl
    · rw [hresult] at h
      exact ih h

/-- A search that does not run out of frames does not depend on their number. -/
theorem visit_eq_of_le {frames' : ℕ} (hle : frames ≤ frames')
    (h : graph.visit frames a marks ≠ .error .frames) :
    graph.visit frames' a marks = graph.visit frames a marks := by
  induction frames generalizing frames' a marks with
  | zero => exact absurd rfl h
  | succ frames ih =>
    obtain ⟨frames', rfl⟩ : ∃ n, frames' = n + 1 := ⟨frames' - 1, by omega⟩
    rcases hcolour : marks a with _ | _ | _
    · rcases hnext : graph.lookup a with _ | next
      · rw [visit_of_missing hcolour hnext, visit_of_missing hcolour hnext]
      · rw [visit_of_white hcolour hnext] at h ⊢
        have hall : graph.visitAll frames next (Function.update marks a .gray) ≠
            .error .frames := by
          intro herror
          rw [herror] at h
          exact h rfl
        have hsame : graph.visitAll frames' next (Function.update marks a .gray) =
            graph.visitAll frames next (Function.update marks a .gray) :=
          foldlM_eq_of_eq (fun marks b hb => ih (Nat.le_of_succ_le_succ hle) hb) hall
        rw [visit_of_white hcolour hnext, hsame]
    · rw [visit_of_gray hcolour, visit_of_gray hcolour]
    · rw [visit_of_black hcolour, visit_of_black hcolour]

end Graph

end OpenRath
