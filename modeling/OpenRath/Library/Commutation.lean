import Mathlib.Data.List.Basic

/-!
# Steps that commute

Steps with the same key have to be taken in their order, and steps with different keys may overtake
each other. If such steps commute, then every order has the same result.

## Main definitions

* `Overtakes`: an order of steps that keeps the order of those with the same key.

## Main results

* `foldl_eq_of_overtakes`.
-/

namespace OpenRath

variable {ι κ S : Type*} {key : ι → κ} {step : S → ι → S}

/-- The second list has the steps of the first one in an order in which steps overtake those with
other keys. -/
inductive Overtakes (key : ι → κ) : List ι → List ι → Prop
  | nil : Overtakes key [] []
  | cons {before after order : List ι} {i : ι} (hkey : ∀ j ∈ before, key j ≠ key i)
      (h : Overtakes key (before ++ after) order) :
        Overtakes key (before ++ i :: after) (i :: order)

/-- A step that commutes with those before it can be taken first. -/
theorem foldl_move {before : List ι} {i : ι}
    (hcomm : ∀ j ∈ before, ∀ s, step (step s j) i = step (step s i) j) (s : S) :
    step (before.foldl step s) i = before.foldl step (step s i) := by
  induction before generalizing s with
  | nil => rfl
  | cons j before ih =>
    rw [List.foldl_cons, List.foldl_cons, ih fun k hk => hcomm k (List.mem_cons_of_mem _ hk),
      hcomm j List.mem_cons_self]

/-- Steps with different keys that commute may be taken in any order. -/
theorem foldl_eq_of_overtakes {steps order : List ι} (h : Overtakes key steps order)
    (hcomm : ∀ i ∈ steps, ∀ j ∈ steps, key j ≠ key i → ∀ s, step (step s j) i = step (step s i) j)
    (s : S) : order.foldl step s = steps.foldl step s := by
  induction h generalizing s with
  | nil => rfl
  | @cons before after order i hkey _ ih =>
    have hmem : ∀ j ∈ before ++ after, j ∈ before ++ i :: after := by
      intro j hj
      rw [List.mem_append, List.mem_cons]
      exact (List.mem_append.mp hj).imp_right Or.inr
    have hi : i ∈ before ++ i :: after := List.mem_append_right _ List.mem_cons_self
    have hmove : step (before.foldl step s) i = before.foldl step (step s i) :=
      foldl_move (fun j hj => hcomm i hi j (hmem j (List.mem_append_left _ hj)) (hkey j hj)) s
    calc (i :: order).foldl step s
      _ = (before ++ after).foldl step (step s i) :=
        ih (fun j hj k hk => hcomm j (hmem j hj) k (hmem k hk)) (step s i)
      _ = after.foldl step (step (before.foldl step s) i) := by rw [List.foldl_append, hmove]
      _ = (before ++ i :: after).foldl step s := by rw [List.foldl_append, List.foldl_cons]

end OpenRath
