import Mathlib.Data.List.DropRight
import Mathlib.Data.List.ModifyLast

/-!
# Texts joined by a separator

A list of texts is joined by a separator that may occur in the texts. What is left of the texts in
the joined one are their pieces between separators.

## Main results

* `splitOn_intercalate_flatMap`: the pieces of a joined text.
* `splitOn_injective`: a text is known by its pieces.
* `splitOn_rdropWhile`: dropping characters at the end of a text drops them from its last piece.
-/

namespace OpenRath

variable {α : Type} [DecidableEq α] {c : α}

omit [DecidableEq α] in
/-- A further text is joined at the end. -/
theorem intercalate_concat {ls : List (List α)} (hls : ls ≠ []) (l : List α) :
    [c].intercalate (ls ++ [l]) = [c].intercalate ls ++ c :: l := by
  induction ls with
  | nil => exact absurd rfl hls
  | cons l' ls ih =>
    rcases ls with _ | ⟨l'', ls⟩
    · simp
    · rw [List.cons_append, List.intercalate_cons_of_ne_nil (by simp), ih (by simp),
        List.intercalate_cons_of_ne_nil (List.cons_ne_nil l'' ls), List.append_assoc,
        List.append_assoc, List.append_assoc]

/-- The pieces of a joined text are those of the texts. -/
theorem splitOn_intercalate_flatMap {ls : List (List α)} (hls : ls ≠ []) :
    ([c].intercalate ls).splitOn c = ls.flatMap fun l => l.splitOn c := by
  induction ls with
  | nil => exact absurd rfl hls
  | cons l ls ih =>
    rcases ls with _ | ⟨l', ls⟩
    · simp
    · rw [List.intercalate_cons_of_ne_nil (by simp), List.append_assoc, List.singleton_append,
        List.splitOn_append_cons_self, ih (by simp)]
      rfl

/-- The pieces of a text have no separators. -/
theorem not_mem_of_mem_splitOn {l piece : List α} (h : piece ∈ l.splitOn c) : c ∉ piece := by
  induction l generalizing piece with
  | nil =>
    rw [List.splitOn_nil, List.mem_singleton] at h
    rw [h]
    exact List.not_mem_nil
  | cons x l ih =>
    rw [List.splitOn_cons_eq_if_modifyHead] at h
    split_ifs at h with hx
    · rcases List.mem_cons.mp h with rfl | h
      · exact List.not_mem_nil
      · exact ih h
    · obtain ⟨first, rest, hpieces⟩ := List.exists_cons_of_ne_nil (List.splitOn_ne_nil c l)
      rw [hpieces, List.modifyHead_cons] at h
      have hfirst : c ∉ first := ih (by rw [hpieces]; exact List.mem_cons_self)
      rcases List.mem_cons.mp h with rfl | h
      · rw [List.mem_cons, not_or]
        exact ⟨fun heq => hx (by simp [heq]), hfirst⟩
      · exact ih (by rw [hpieces]; exact List.mem_cons_of_mem _ h)

/-- The pieces of a text have no characters but those of the text. -/
theorem subset_of_mem_splitOn {l piece : List α} (h : piece ∈ l.splitOn c) : piece ⊆ l := by
  induction l generalizing piece with
  | nil =>
    rw [List.splitOn_nil, List.mem_singleton] at h
    exact h ▸ List.Subset.refl []
  | cons x l ih =>
    rw [List.splitOn_cons_eq_if_modifyHead] at h
    split_ifs at h with hx
    · rcases List.mem_cons.mp h with rfl | h
      · exact List.nil_subset _
      · exact List.subset_cons_of_subset x (ih h)
    · obtain ⟨first, rest, hpieces⟩ := List.exists_cons_of_ne_nil (List.splitOn_ne_nil c l)
      rw [hpieces, List.modifyHead_cons] at h
      rcases List.mem_cons.mp h with rfl | h
      · exact List.cons_subset_cons x (ih (hpieces ▸ List.mem_cons_self))
      · exact List.subset_cons_of_subset x (ih (hpieces ▸ List.mem_cons_of_mem first h))

/-- A text is determined by its pieces. -/
theorem splitOn_injective (c : α) : Function.Injective fun l : List α => l.splitOn c :=
  have hleft : Function.LeftInverse [c].intercalate fun l : List α => l.splitOn c :=
    fun _ => List.intercalate_splitOn c
  hleft.injective

omit [DecidableEq α] in
/-- Dropping characters at the end of a text stops at a separator. -/
theorem rdropWhile_append_cons {p : α → Bool} (hc : p c = false) (s t : List α) :
    (s ++ c :: t).rdropWhile p = s ++ c :: t.rdropWhile p := by
  have hstop : (c :: s.reverse).dropWhile p = c :: s.reverse :=
    List.dropWhile_cons_of_neg (by simp [hc])
  rw [List.rdropWhile, List.rdropWhile, List.reverse_append, List.reverse_cons, List.append_assoc,
    List.singleton_append, List.dropWhile_append]
  split_ifs with hempty
  · rw [hstop, List.isEmpty_iff.mp hempty]
    simp
  · simp

/-- Dropping characters other than the separator at the end of a text drops them from its last
piece. -/
theorem splitOn_rdropWhile {p : α → Bool} (hc : p c = false) (l : List α) :
    (l.rdropWhile p).splitOn c = (l.splitOn c).modifyLast fun piece => piece.rdropWhile p := by
  have hlast : ∀ t : List α, c ∉ t → (t.rdropWhile p).splitOn c = [t.rdropWhile p] := fun t ht =>
    List.splitOn_eq_singleton fun h => ht ((List.rdropWhile_prefix p t).subset h)
  by_cases hmem : c ∈ l
  · -- Only what follows the last separator is changed.
    obtain ⟨t, s, heq, ht⟩ := List.eq_append_cons_of_mem (List.mem_reverse.mpr hmem)
    obtain rfl : l = s.reverse ++ c :: t.reverse := by
      rw [← List.reverse_reverse l, heq]
      simp
    have ht' : c ∉ t.reverse := fun h => ht (List.mem_reverse.mp h)
    rw [rdropWhile_append_cons hc, List.splitOn_append_cons_self, List.splitOn_append_cons_self,
      hlast _ ht', List.splitOn_eq_singleton ht', List.modifyLast_concat]
  · rw [hlast l hmem, List.splitOn_eq_singleton hmem]
    exact (List.modifyLast_concat _ l []).symm

end OpenRath
