import Mathlib.Data.List.Forall2
import OpenRath.Library.Transaction

/-!
# Two transaction bodies that end alike

`Tx.Sim E P x y Q` compares two bodies: started in states related by `P`, they both return, with
results and states related by `Q`, or they both raise, with errors related by `E`. It is a
relational triple, with one rule for each statement and a rule for sequences, so that two bodies
that differ in some statements are compared statement by statement, and what is known about the
states in between is carried from one statement to the next.

## Main definitions

* `Tx.Sim`.

## Main results

* `Tx.Sim.bind`: sequential composition.
* `Tx.sim_raise`, `Tx.sim_raiseUnless`, `Tx.sim_query`, `Tx.sim_execute`: the statements.
* `Tx.Sim.forEach`: loops over lists of related elements.
* `Tx.Sim.consequence`, `Tx.Sim.intro`: weakening.
-/

namespace OpenRath

namespace Tx

variable {σ τ ε ε' α β α' β' : Type}

/-- Started in states related by `P`, the bodies `x` and `y` both return, with results and states
related by `Q`, or both raise, with errors related by `E`. -/
structure Sim (E : ε → ε' → Prop) (P : σ → τ → Prop) (x : Tx σ ε α) (y : Tx τ ε' β)
    (Q : α → β → σ → τ → Prop) : Prop where
  ends_alike : ∀ s t, P s t → match x s, y t with
    | (.ok a, s'), (.ok b, t') => Q a b s' t'
    | (.error e, _), (.error e', _) => E e e'
    | _, _ => False

section Rules

variable {E : ε → ε' → Prop} {P P' : σ → τ → Prop} {x : Tx σ ε α} {y : Tx τ ε' β}
  {Q Q' : α → β → σ → τ → Prop}

theorem Sim.intro (h : ∀ s t, P s t → Sim E (fun s' t' => s' = s ∧ t' = t) x y Q) :
    Sim E P x y Q :=
  ⟨fun s t hP => (h s t hP).ends_alike s t ⟨rfl, rfl⟩⟩

theorem Sim.consequence (h : Sim E P x y Q) (hP : ∀ s t, P' s t → P s t)
    (hQ : ∀ a b s t, Q a b s t → Q' a b s t) : Sim E P' x y Q' := by
  refine ⟨fun s t hst => ?_⟩
  have hsim := h.ends_alike s t (hP s t hst)
  rcases hx : x s with ⟨e | a, s'⟩ <;> rcases hy : y t with ⟨e' | b, t'⟩ <;>
    simp only [hx, hy] at hsim ⊢
  · exact hsim
  · exact hQ _ _ _ _ hsim

/-- What is known of the values alone can be taken out of the relation. -/
theorem Sim.pull {c : Prop} (h : c → Sim E P x y Q) : Sim E (fun s t => c ∧ P s t) x y Q :=
  ⟨fun s t hst => (h hst.1).ends_alike s t hst.2⟩

/-- Sequential composition. -/
theorem Sim.bind {f : α → Tx σ ε α'} {g : β → Tx τ ε' β'} {R : α' → β' → σ → τ → Prop}
    (h : Sim E P x y Q) (hfg : ∀ a b, Sim E (Q a b) (f a) (g b) R) :
    Sim E P (x >>= f) (y >>= g) R := by
  refine ⟨fun s t hst => ?_⟩
  have hsim := h.ends_alike s t hst
  rcases hx : x s with ⟨e | a, s'⟩ <;> rcases hy : y t with ⟨e' | b, t'⟩ <;>
    simp only [hx, hy] at hsim
  · rw [bind_of_error hx, bind_of_error hy]
    exact hsim
  · rw [bind_of_ok hx, bind_of_ok hy]
    exact (hfg a b).ends_alike s' t' hsim

theorem sim_raise {e : ε} {e' : ε'} (h : E e e') : Sim E P (raise e) (raise e') Q :=
  ⟨fun _ _ _ => h⟩

theorem sim_raiseUnless {c c' : Prop} [Decidable c] [Decidable c'] {e : ε} {e' : ε'}
    (hc : ∀ s t, P s t → (c ↔ c')) (he : E e e') :
    Sim E P (raiseUnless c e) (raiseUnless c' e') fun _ _ s t => P s t ∧ c := by
  refine ⟨fun s t hst => ?_⟩
  by_cases h : c
  · rw [raiseUnless, raiseUnless, if_pos h, if_pos ((hc s t hst).mp h)]
    exact ⟨hst, h⟩
  · rw [raiseUnless, raiseUnless, if_neg h, if_neg fun h' => h ((hc s t hst).mpr h')]
    exact he

theorem sim_query {f : σ → α} {g : τ → β} :
    Sim E P (query f) (query g) fun a b s t => P s t ∧ a = f s ∧ b = g t :=
  ⟨fun _ _ h => ⟨h, rfl, rfl⟩⟩

/-- A body that begins with a query that the other does not make. -/
theorem Sim.query_right {g : τ → β'} {f : β' → Tx τ ε' β}
    (h : ∀ b, Sim E (fun s t => P s t ∧ b = g t) x (f b) Q) :
    Sim E P x (query g >>= f) Q :=
  ⟨fun s t hst => (h (g t)).ends_alike s t ⟨hst, rfl⟩⟩

/-- A body that begins with a statement whose counterpart in the other does nothing. -/
theorem Sim.bind_right {y : Tx τ ε' β'} {g : β' → Tx τ ε' β} {R : Unit → β' → σ → τ → Prop}
    (h : Sim E P (pure ()) y R) (hfg : ∀ b, Sim E (R () b) x (g b) Q) :
    Sim E P x (y >>= g) Q :=
  Sim.bind (f := fun _ => x) h fun _ b => hfg b

/-- A body that ends where the other goes on. -/
theorem Sim.bind_after {g : β → Tx τ ε' β'} {R : α → β' → σ → τ → Prop} (h : Sim E P x y Q)
    (hg : ∀ a b, Sim E (Q a b) (pure a) (g b) R) : Sim E P x (y >>= g) R := by
  have hsim : Sim E P (x >>= pure) (y >>= g) R := h.bind hg
  rwa [bind_pure] at hsim

/-- A write of the first body that commutes with the statement after it. -/
theorem Sim.execute_left {g : σ → σ} (hg : Commutes g x) (h : Sim E P x y Q) :
    Sim E P (execute g >>= fun _ => x) y fun a b s t => ∃ s', Q a b s' t ∧ s = g s' := by
  refine ⟨fun s t hst => ?_⟩
  have hsim := h.ends_alike s t hst
  rw [bind_of_ok (rfl : execute g s = (.ok (), g s)), hg s]
  rcases hx : x s with ⟨e | a, s'⟩ <;> rcases hy : y t with ⟨e' | b, t'⟩ <;>
    simp only [hx, hy] at hsim ⊢
  · exact hsim
  · exact ⟨s', hsim, rfl⟩

theorem sim_execute {f : σ → σ} {g : τ → τ} {Q : Unit → Unit → σ → τ → Prop}
    (h : ∀ s t, P s t → Q () () (f s) (g t)) : Sim E P (execute f) (execute g) Q :=
  ⟨fun s t hst => h s t hst⟩

/-- Loops over lists of related elements, whose bodies keep a relation of the states. -/
theorem Sim.forEach {V : α → β → Prop} {f : α → Tx σ ε Unit} {g : β → Tx τ ε' Unit}
    (h : ∀ a b, V a b → Sim E P (f a) (g b) fun _ _ s t => P s t) {as : List α} {bs : List β}
    (hV : List.Forall₂ V as bs) :
    Sim E P (forEach f as) (forEach g bs) fun _ _ s t => P s t := by
  induction hV with
  | nil => exact ⟨fun _ _ h => h⟩
  | cons hab _ ih => exact (h _ _ hab).bind fun _ _ => ih

end Rules

/-- Lists with the same images are lists of elements with the same image. -/
theorem map_eq_map_iff_forall₂ {γ : Type} {f : α → γ} {g : β → γ} {as : List α} {bs : List β} :
    as.map f = bs.map g ↔ List.Forall₂ (fun a b => f a = g b) as bs := by
  rw [← List.forall₂_eq_eq_eq, List.forall₂_map_left_iff, List.forall₂_map_right_iff]

/-- Bodies that end alike are transactions that end alike. -/
theorem Sim.of_yields {E : ε → ε' → Prop} {P : σ → τ → Prop} {x : Tx σ ε α} {y : Tx τ ε' β}
    {Q : α → β → σ → τ → Prop} (h : Sim E P x y Q) {s : σ} {t : τ} (hst : P s t) :
    (∃ a s' b t', x.Yields s a s' ∧ y.Yields t b t' ∧ Q a b s' t') ∨
      ∃ e e', x.Raises s e ∧ y.Raises t e' ∧ E e e' := by
  have hsim := h.ends_alike s t hst
  rcases hx : x s with ⟨e | a, s'⟩ <;> rcases hy : y t with ⟨e' | b, t'⟩ <;>
    simp only [hx, hy] at hsim
  · exact Or.inr ⟨e, e', by rw [Raises, hx], by rw [Raises, hy], hsim⟩
  · exact Or.inl ⟨a, s', b, t', hx, hy, hsim⟩

end Tx

end OpenRath
