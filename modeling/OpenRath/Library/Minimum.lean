import Mathlib.Data.List.Basic
import Mathlib.Order.Lattice
import Mathlib.Tactic.SplitIfs

/-!
# Minima of values that need not be comparable

Values are compared by their ranks in a linear order. A value without a rank, such as a
floating-point number that is not a number, is neither less than another one nor greater. The
minimum of a list is found from left to right: the first value, replaced by every later one that is
less. So a value without a rank is the minimum if it comes first, and is passed over elsewhere.

## Main definitions

* `less`, `minimum`.

## Main results

* `less_minimum_iff`: the minimum is less than a value exactly when a member of the list is, if the
  first one has a rank.
-/

namespace OpenRath

variable {α L : Type} [LinearOrder L] (rank : α → Option L)

/-- The comparison by the ranks. -/
def less (a b : α) : Bool :=
  match rank a, rank b with
  | some u, some v => u < v
  | _, _ => false

/-- The minimum from left to right, if the list is not empty. -/
def minimum : List α → Option α
  | [] => none
  | a :: as => some (as.foldl (fun m b => if less rank b m then b else m) a)

variable {rank} {a b x : α} {as : List α}

theorem less_eq_true_iff : less rank a b = true ↔ ∃ u ∈ rank a, ∃ v ∈ rank b, u < v := by
  rw [less]
  rcases rank a with _ | u
  · simp
  · rcases rank b with _ | v <;> simp

theorem less_of_rank_none (h : rank a = none) (b : α) : less rank a b = false ∧
    less rank b a = false := by
  constructor
  · simp only [less, h]
  · simp only [less, h]
    split <;> simp_all

/-- If a value is not less than another one that has a rank, then what it is less than the other one
is less than, too. -/
theorem less_of_not_less (ha : (rank a).isSome) (hba : less rank b a = false)
    (hbx : less rank b x = true) : less rank a x = true := by
  obtain ⟨u, hu⟩ := Option.isSome_iff_exists.mp ha
  obtain ⟨v, hv, w, hw, hvw⟩ := less_eq_true_iff.mp hbx
  refine less_eq_true_iff.mpr ⟨u, hu, w, hw, lt_of_le_of_lt (not_lt.mp fun hvu => ?_) hvw⟩
  exact Bool.eq_false_iff.mp hba (less_eq_true_iff.mpr ⟨v, hv, u, hu, hvu⟩)

theorem less_trans (hab : less rank a b = true) (hbx : less rank b x = true) :
    less rank a x = true := by
  obtain ⟨u, hu, v, hv, huv⟩ := less_eq_true_iff.mp hab
  obtain ⟨v', hv', w, hw, hvw⟩ := less_eq_true_iff.mp hbx
  cases hv.symm.trans hv'
  exact less_eq_true_iff.mpr ⟨u, hu, w, hw, lt_trans huv hvw⟩

/-- A first value without a rank remains. -/
theorem minimum_of_rank_none (h : rank a = none) : minimum rank (a :: as) = some a := by
  refine congrArg some ?_
  induction as with
  | nil => rfl
  | cons b as ih =>
    rw [List.foldl_cons, (less_of_rank_none h b).2, if_neg Bool.false_ne_true]
    exact ih

theorem less_foldl_iff (h : (rank a).isSome) :
    less rank (as.foldl (fun m b => if less rank b m then b else m) a) x = true ↔
      ∃ b ∈ a :: as, less rank b x = true := by
  induction as generalizing a with
  | nil => simp only [List.foldl_nil, List.mem_singleton, exists_eq_left]
  | cons b as ih =>
    rw [List.foldl_cons]
    split_ifs with hba
    · -- The second value takes the place of the first one.
      obtain ⟨v, hv, -⟩ := less_eq_true_iff.mp hba
      simp only [ih (Option.isSome_iff_exists.mpr ⟨v, hv⟩), List.exists_mem_cons_iff]
      exact ⟨Or.inr, fun h => h.elim (fun hax => .inl (less_trans hba hax)) id⟩
    · simp only [ih h, List.exists_mem_cons_iff]
      constructor
      · exact fun h => h.imp_right .inr
      · rintro (hax | hbx | hrest)
        · exact .inl hax
        · exact .inl (less_of_not_less h (Bool.eq_false_iff.mpr hba) hbx)
        · exact .inr hrest

/-- **Minimum.** What a value must exceed to exceed the minimum. -/
theorem less_minimum_iff (h : (rank a).isSome) {m : α}
    (hm : minimum rank (a :: as) = some m) :
    less rank m x = true ↔ ∃ b ∈ a :: as, less rank b x = true := by
  cases hm
  exact less_foldl_iff h

theorem foldl_mem : as.foldl (fun m b => if less rank b m then b else m) a ∈ a :: as := by
  induction as generalizing a with
  | nil => exact List.mem_singleton_self a
  | cons b as ih =>
    rw [List.foldl_cons]
    split_ifs
    · exact List.mem_cons_of_mem a ih
    · rcases List.mem_cons.mp (ih (a := a)) with heq | hmem
      · rw [heq]
        exact List.mem_cons_self
      · exact List.mem_cons_of_mem a (List.mem_cons_of_mem b hmem)

/-- The minimum is a member of the list. -/
theorem mem_of_minimum {m : α} (h : minimum rank as = some m) : m ∈ as := by
  cases as with
  | nil => cases h
  | cons a as =>
    cases h
    exact foldl_mem

end OpenRath
