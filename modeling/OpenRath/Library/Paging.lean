import Mathlib.Data.List.Lex
import Mathlib.Data.Set.Basic

/-!
# Pages of a growing table

A table is read page by page, in the order of a key that no two rows share: every page holds the
first rows after a cursor, up to a limit, and the cursor of the next page is the last row of this
one. Between two pages rows may be added anywhere, but none is removed and no key changes. Whoever
follows the cursors to the end has listed every row that was there at the start, once and in order.

A table is given here by the set of its keys.

## Main definitions

* `IsPage`: a page of a table, with the cursor of the next one.
* `Enumerates`: what has been listed so far, for the rows that were there at the start.

## Main results

* `isPage_take`: a sorted list cut at a limit is a page.
* `IsPage.enumerates`, `Enumerates.append`: the first page, and every other one.
-/

namespace OpenRath

variable {κ : Type} [LinearOrder κ]

/-- A page of the keys after a cursor, with the cursor of the next page if there is one. -/
structure IsPage (K : Set κ) (cursor : Option κ) (page : List κ) (next : Option κ) : Prop where
  sorted : page.Pairwise (· < ·)
  mem : ∀ k ∈ page, k ∈ K ∧ ∀ c ∈ cursor, c < k
  last : ∀ n ∈ next, page.getLast? = some n
  complete : ∀ k ∈ K, (∀ c ∈ cursor, c < k) → k ∈ page ∨ ∃ n ∈ next, n < k

/-- What has been listed of the keys `K`, with the cursor of the next page if there is one. -/
structure Enumerates (K : Set κ) (listed : List κ) (next : Option κ) : Prop where
  sorted : listed.Pairwise (· < ·)
  last : ∀ n ∈ next, listed.getLast? = some n
  complete : ∀ k ∈ K, k ∈ listed ∨ ∃ n ∈ next, n < k

/-- The sorted keys after a cursor, cut at a limit, are a page. -/
theorem isPage_take {K : Set κ} {cursor : Option κ} {keys : List κ} {n : ℕ}
    (hsorted : keys.Pairwise (· < ·)) (hkeys : ∀ k, k ∈ keys ↔ k ∈ K ∧ ∀ c ∈ cursor, c < k)
    (hn : 0 < n) :
    IsPage K cursor (keys.take n) (if n < keys.length then (keys.take n).getLast? else none) where
  sorted := hsorted.take
  mem k hk := (hkeys k).mp (List.mem_of_mem_take hk)
  last m hm := by
    by_cases hlt : n < keys.length
    · rwa [if_pos hlt] at hm
    · rw [if_neg hlt] at hm
      cases hm
  complete k hk hcursor := by
    have hmem : k ∈ keys := (hkeys k).mpr ⟨hk, hcursor⟩
    by_cases hlt : n < keys.length
    · rw [← List.take_append_drop n keys, List.mem_append] at hmem
      refine hmem.imp_right fun hdrop => ?_
      have hne : keys.take n ≠ [] := by
        rw [ne_eq, List.take_eq_nil_iff]
        rintro (h | h)
        · omega
        · simp [h] at hlt
      refine ⟨(keys.take n).getLast hne,
        by rw [if_pos hlt]; exact List.getLast?_eq_getLast_of_ne_nil hne, ?_⟩
      have hpair := hsorted
      rw [← List.take_append_drop n keys, List.pairwise_append] at hpair
      exact hpair.2.2 _ (List.getLast_mem hne) k hdrop
    · rw [List.take_of_length_le (not_lt.mp hlt)]
      exact Or.inl hmem

/-- Nothing that was listed comes after the last key. -/
theorem le_getLast {l : List κ} (hl : l.Pairwise (· < ·)) {n : κ} (hn : l.getLast? = some n)
    {k : κ} (hk : k ∈ l) : k ≤ n := by
  obtain ⟨init, rfl⟩ := List.getLast?_eq_some_iff.mp hn
  rcases List.mem_append.mp hk with h | h
  · exact ((List.pairwise_append.mp hl).2.2 k h n (List.mem_singleton_self n)).le
  · exact (List.mem_singleton.mp h).le

/-- What the first page lists. -/
theorem IsPage.enumerates {K : Set κ} {page : List κ} {next : Option κ}
    (h : IsPage K none page next) : Enumerates K page next where
  sorted := h.sorted
  last := h.last
  complete k hk := h.complete k hk fun c hc => by cases hc

/-- What the next page adds: the table may have grown in between. -/
theorem Enumerates.append {K K' : Set κ} {listed page : List κ} {c : κ} {next : Option κ}
    (h : Enumerates K listed (some c)) (hpage : IsPage K' (some c) page next) (hK : K ⊆ K') :
    Enumerates K (listed ++ page) next where
  sorted := by
    refine List.pairwise_append.mpr ⟨h.sorted, hpage.sorted, fun k hk k' hk' => ?_⟩
    have hle := le_getLast h.sorted (h.last c rfl) hk
    exact hle.trans_lt ((hpage.mem k' hk').2 c rfl)
  last n hn := by
    rw [List.getLast?_append, hpage.last n hn]
    rfl
  complete k hk := by
    rcases h.complete k hk with hlisted | ⟨c', hc', hlt⟩
    · exact Or.inl (List.mem_append_left _ hlisted)
    · obtain rfl := Option.some.inj hc'
      refine (hpage.complete k (hK hk) fun c'' hc'' => ?_).imp_left
        (List.mem_append_right listed)
      rwa [← Option.some.inj hc'']

end OpenRath
