import Mathlib.Data.List.Sort

/-!
# Numbered logs

A log is numbered when its entries, in order of insertion, carry the numbers `1, 2, ..., n`. This
is what a writer achieves that gives each new entry the number after the largest one, and it is
what a reader needs who asks for the entries above the last number it has seen: the entries above
`m` are the log without its first `m` entries.

## Main definitions

* `maxNumber`, `lastNumber`: the largest number of a log and that of its last entry, or `0`.
* `Numbered`.
* `Continues`: the entries of a list carry the numbers after a given one.

## Main results

* `Numbered.maxNumber_eq`, `Numbered.lastNumber_eq`: both are the length of a numbered log.
* `Numbered.concat`: an entry with the next number keeps a log numbered.
* `Numbered.filter_lt`: the entries above a number are a suffix of the log.
* `Numbered.insertionSort_eq`: a numbered log is sorted by its numbers.
* `Numbered.continues_drop`: the entries above a number continue it.
-/

namespace OpenRath

variable {α : Type} {num : α → ℕ}

/-- The largest number of a log, or `0` for the empty one. -/
def maxNumber (num : α → ℕ) (log : List α) : ℕ := (log.map num).max?.getD 0

/-- The number of the last entry of a log, or `0` for the empty one. -/
def lastNumber (num : α → ℕ) (log : List α) : ℕ := (log.getLast?.map num).getD 0

/-- The entries of a log carry the numbers `1, 2, ..., n` in order. -/
def Numbered (num : α → ℕ) (log : List α) : Prop := log.map num = List.range' 1 log.length

theorem numbered_nil : Numbered num [] := rfl

theorem le_maxNumber {log : List α} {a : α} (h : a ∈ log) : num a ≤ maxNumber num log := by
  have hmem : num a ∈ log.map num := List.mem_map_of_mem h
  rw [maxNumber]
  rcases hmax : (log.map num).max? with _ | m
  · rw [List.max?_eq_none_iff.mp hmax] at hmem
    exact absurd hmem List.not_mem_nil
  · exact (List.max?_eq_some_iff.mp hmax).2 _ hmem

/-- The last entry by rising number is the first one by falling number. -/
theorem getLast?_insertionSort_eq_head? {log : List α}
    (hinj : ∀ a ∈ log, ∀ b ∈ log, num a = num b → a = b) :
    (log.insertionSort fun a b => num a ≤ num b).getLast? =
      (log.insertionSort fun a b => num b ≤ num a).head? := by
  have hrise : (log.insertionSort fun a b => num a ≤ num b).Pairwise fun a b => num a ≤ num b :=
    List.pairwise_insertionSort _ log
  have hfall : (log.insertionSort fun a b => num b ≤ num a).Pairwise fun a b => num b ≤ num a :=
    List.pairwise_insertionSort _ log
  have heq : (log.insertionSort fun a b => num a ≤ num b).reverse =
      log.insertionSort fun a b => num b ≤ num a := by
    refine List.Perm.eq_of_pairwise (fun a b ha hb hab hba => ?_)
      (List.pairwise_reverse.mpr hrise) hfall ?_
    · rw [List.mem_reverse, List.mem_insertionSort] at ha
      rw [List.mem_insertionSort] at hb
      exact hinj a ha b hb (Nat.le_antisymm hba hab)
    · exact (List.reverse_perm _).trans ((List.perm_insertionSort _ log).trans
        (List.perm_insertionSort _ log).symm)
  rw [← heq, List.head?_reverse]

/-- Relations that agree on the entries of a list sort it alike. -/
theorem insertionSort_congr {r s : α → α → Prop} [DecidableRel r] [DecidableRel s]
    {log : List α} (h : ∀ a ∈ log, ∀ b ∈ log, (r a b ↔ s a b)) :
    log.insertionSort r = log.insertionSort s := by
  simpa using List.map_insertionSort r s id log h

/-- A list sorted by two columns has its first column sorted. -/
theorem pairwise_map_insertionSort {β γ : Type} [LinearOrder β] [LinearOrder γ] {f : α → β}
    {g : α → γ} {r : α → α → Prop} [DecidableRel r]
    (hr : ∀ a b, r a b ↔ f a < f b ∨ f a = f b ∧ g a ≤ g b) (log : List α) :
    ((log.insertionSort r).map f).Pairwise (· ≤ ·) := by
  have htotal : Std.Total r := ⟨fun a b => by
    rw [hr, hr]
    rcases lt_trichotomy (f a) (f b) with hlt | heq | hlt
    · exact Or.inl (Or.inl hlt)
    · exact (le_total (g a) (g b)).imp (fun h => Or.inr ⟨heq, h⟩) fun h => Or.inr ⟨heq.symm, h⟩
    · exact Or.inr (Or.inl hlt)⟩
  have htrans : IsTrans α r := ⟨fun a b c hab hbc => by
    rw [hr] at hab hbc ⊢
    rcases hab with hab | ⟨hab, hg⟩
    · rcases hbc with hbc | ⟨hbc, -⟩
      · exact Or.inl (hab.trans hbc)
      · exact Or.inl (hbc ▸ hab)
    · rw [hab]
      exact hbc.imp_right fun h => ⟨h.1, hg.trans h.2⟩⟩
  rw [List.pairwise_map]
  refine (List.pairwise_insertionSort r log).imp fun {a b} h => ?_
  exact ((hr a b).mp h).elim le_of_lt fun h => h.1.le

namespace Numbered

variable {log : List α}

theorem num_getElem (h : Numbered num log) {k : ℕ} (hk : k < log.length) :
    num log[k] = k + 1 := by
  have hget : (log.map num)[k]? = (List.range' 1 log.length)[k]? := congrArg (·[k]?) h
  rw [List.getElem?_map, List.getElem?_eq_getElem hk, List.getElem?_range' hk] at hget
  simpa [Nat.add_comm] using hget

theorem num_le (h : Numbered num log) {a : α} (ha : a ∈ log) : num a ≤ log.length := by
  obtain ⟨k, hk, rfl⟩ := List.mem_iff_getElem.mp ha
  rw [h.num_getElem hk]
  exact hk

/-- The largest number of a numbered log is its length. -/
theorem maxNumber_eq (h : Numbered num log) : maxNumber num log = log.length := by
  rcases Nat.eq_zero_or_pos log.length with hzero | hpos
  · rw [List.eq_nil_of_length_eq_zero hzero]
    rfl
  · refine Nat.le_antisymm ?_ ?_
    · rw [maxNumber]
      rcases hmax : (log.map num).max? with _ | m
      · exact Nat.zero_le _
      · obtain ⟨a, ha, rfl⟩ := List.mem_map.mp (List.max?_eq_some_iff.mp hmax).1
        exact h.num_le ha
    · have hlast := h.num_getElem (Nat.sub_lt hpos Nat.one_pos)
      have hle : num log[log.length - 1] ≤ maxNumber num log := le_maxNumber (List.getElem_mem _)
      omega

/-- An entry with the next number keeps a log numbered. -/
theorem concat (h : Numbered num log) {a : α} (ha : num a = maxNumber num log + 1) :
    Numbered num (log ++ [a]) := by
  rw [h.maxNumber_eq] at ha
  rw [Numbered, List.map_append, List.length_append, List.length_singleton,
    List.range'_1_concat, h, List.map_singleton, ha, Nat.add_comm]

/-- A numbered log is sorted by its numbers. -/
theorem pairwise_lt (h : Numbered num log) : log.Pairwise fun a b => num a < num b := by
  rw [← List.pairwise_map (f := num) (R := (· < ·)), h]
  exact List.pairwise_lt_range'

/-- The number of the last entry of a numbered log is its length. -/
theorem lastNumber_eq (h : Numbered num log) : lastNumber num log = log.length := by
  rw [lastNumber, List.getLast?_eq_getElem?]
  rcases Nat.eq_zero_or_pos log.length with hzero | hpos
  · rw [List.eq_nil_of_length_eq_zero hzero]
    rfl
  · have hlt : log.length - 1 < log.length := Nat.sub_lt hpos Nat.one_pos
    rw [List.getElem?_eq_getElem hlt, Option.map_some, Option.getD_some, h.num_getElem hlt]
    omega

theorem of_prefix {l : List α} (h : Numbered num log) (hl : l <+: log) : Numbered num l := by
  obtain ⟨rest, rfl⟩ := hl
  have hmap : l.map num ++ rest.map num = List.range' 1 (l.length + rest.length) := by
    rw [← List.map_append, ← List.length_append]
    exact h
  rw [← List.range'_append_1] at hmap
  exact List.append_inj_left hmap (by simp)

/-- The entries above a number are the log without as many entries at its start. -/
theorem filter_lt (h : Numbered num log) (m : ℕ) :
    log.filter (fun a => m < num a) = log.drop m := by
  have htake : (log.take m).filter (fun a => m < num a) = [] := by
    refine List.filter_eq_nil_iff.mpr fun a ha => ?_
    obtain ⟨k, hk, rfl⟩ := List.mem_iff_getElem.mp ha
    rw [List.length_take] at hk
    rw [List.getElem_take, h.num_getElem (by omega)]
    simp only [decide_eq_true_eq]
    omega
  have hdrop : (log.drop m).filter (fun a => m < num a) = log.drop m := by
    refine List.filter_eq_self.mpr fun a ha => ?_
    obtain ⟨k, hk, rfl⟩ := List.mem_iff_getElem.mp ha
    rw [List.length_drop] at hk
    rw [List.getElem_drop, h.num_getElem (by omega)]
    simp only [decide_eq_true_eq]
    omega
  calc log.filter (fun a => m < num a)
      = (log.take m ++ log.drop m).filter (fun a => m < num a) := by rw [List.take_append_drop]
    _ = log.drop m := by rw [List.filter_append, htake, hdrop, List.nil_append]

end Numbered

/-! ### Continuing a log -/

/-- The entries of a list carry the numbers after `n`, one by one. -/
def Continues (num : α → ℕ) (n : ℤ) (l : List α) : Prop :=
  ∀ k (hk : k < l.length), (num l[k] : ℤ) = n + 1 + k

namespace Continues

variable {n : ℤ} {l l' : List α}

theorem nil : Continues num n [] := fun k hk => absurd hk (Nat.not_lt_zero k)

/-- The first entry carries the number after `n`. -/
theorem head {a : α} (h : Continues num n (a :: l)) : (num a : ℤ) = n + 1 := by
  simpa using h 0 (Nat.succ_pos _)

theorem take (h : Continues num n l) (m : ℕ) : Continues num n (l.take m) := by
  intro k hk
  rw [List.length_take] at hk
  rw [List.getElem_take]
  exact h k (by omega)

theorem append (h : Continues num n l) (h' : Continues num (n + l.length) l') :
    Continues num n (l ++ l') := by
  intro k hk
  by_cases hlt : k < l.length
  · rw [List.getElem_append_left hlt]
    exact h k hlt
  · have hlength : k - l.length < l'.length := by
      rw [List.length_append] at hk
      omega
    rw [List.getElem_append_right (by omega), h' _ hlength]
    omega

theorem of_append (h : Continues num n (l ++ l')) : Continues num n l := by
  intro k hk
  have hget := h k (by rw [List.length_append]; omega)
  rwa [List.getElem_append_left hk] at hget

end Continues

/-- The entries above a number continue it. -/
theorem Numbered.continues_drop {log : List α} (h : Numbered num log) (m : ℕ) :
    Continues num m (log.drop m) := by
  intro k hk
  rw [List.length_drop] at hk
  rw [List.getElem_drop, h.num_getElem (by omega)]
  omega

end OpenRath
