import OpenRath.Library.JsonLexical
import OpenRath.Library.JsonSorted
import OpenRath.Library.TextFile
import OpenRath.Library.Values

/-!
# JSON texts as lines

In the text of a value, control characters are escaped. So the text of one value after the other,
each with a line feed behind it, is taken apart at the line feeds, whatever the strings in the
values are, and the values are read from the lines.

## Main definitions

* `writeLines`, `readLines`.

## Main results

* `le_toNat_of_mem_dumps`, `newline_not_mem_dumpsSorted`: there are no control characters in a text.
* `readLines_writeLines`: the lines are read as they were written.
-/

namespace OpenRath

open TextFile

/-! ### Control characters -/

/-- Control characters are escaped. -/
theorem le_toNat_of_mem_escape {c d : Char} (hd : d ∈ escape c) : 0x20 ≤ d.toNat := by
  have hletter : ∀ d ∈ ['\\', '"', 'n', 'r', 't', 'b', 'f', 'u'], 0x20 ≤ d.toNat :=
    forall_mem_of_all (by decide)
  have hdigit : ∀ n < 16, 0x20 ≤ (Nat.digitChar n).toNat := by decide
  rcases of_mem_escape hd with ⟨rfl, hc⟩ | hd | ⟨n, hn, rfl⟩
  · exact hc
  · exact hletter d hd
  · exact hdigit n hn

theorem le_toNat_of_isNumeral {c : Char} (h : isNumeral c = true) : 0x20 ≤ c.toNat := by
  simp only [isNumeral, Bool.or_eq_true, decide_eq_true_eq] at h
  rcases h with ((h | rfl) | rfl) | rfl
  · have hclasses : c.isAlphanum = ((decide (c.val ≥ 'A'.val ∧ c.val ≤ 'Z'.val) ||
        decide (c.val ≥ 'a'.val) && decide (c.val ≤ 'z'.val)) ||
          decide (c.val ≥ '0'.val) && decide (c.val ≤ '9'.val)) := rfl
    simp only [hclasses, Bool.or_eq_true, Bool.and_eq_true, decide_eq_true_eq, ge_iff_le,
      UInt32.le_iff_toNat_le] at h
    have hval : c.toNat = c.val.toNat := rfl
    have hlow : 'A'.val.toNat = 65 ∧ 'a'.val.toNat = 97 ∧ '0'.val.toNat = 48 := ⟨rfl, rfl, rfl⟩
    omega
  · decide
  · decide
  · decide

section Dumps

variable (fl : FloatText)

/-- The text of a value has no control characters below the space. -/
theorem le_toNat_of_mem_dumps (v : Json) : ∀ c ∈ dumps fl v, 0x20 ≤ c.toNat :=
  forall_mem_dumps fl ⟨fun _ h => le_toNat_of_isNumeral h, forall_mem_of_all (by decide)⟩ v
    fun _ _ _ _ _ hd => le_toNat_of_mem_escape hd

variable {space : List Char}

theorem mem_comma {first : Bool} {c : Char} (h : c ∈ if first then [] else ',' :: space) :
    (c ∈ if first then [] else [',', ' ']) ∨ c ∈ space := by
  cases first
  · rcases List.mem_cons.mp h with rfl | h
    · exact Or.inl (by decide)
    · exact Or.inr h
  · cases h

mutual

/-- With other white space behind the separators, a text has no other characters but that. -/
theorem mem_dumpsSpaced {c : Char} : (v : Json) → c ∈ dumpsSpaced fl space v →
    c ∈ dumps fl v ∨ c ∈ space
  | .arr items, h => by
    rw [dumpsSpaced] at h
    rw [dumps]
    simp only [List.mem_cons, List.mem_append] at h ⊢
    rcases h with rfl | h | h
    · exact Or.inl (Or.inl rfl)
    · rcases mem_dumpsSpacedItems true items h with h | h
      · exact Or.inl (Or.inr (Or.inl h))
      · exact Or.inr h
    · exact Or.inl (Or.inr (Or.inr h))
  | .obj fields, h => by
    rw [dumpsSpaced] at h
    rw [dumps]
    simp only [List.mem_cons, List.mem_append] at h ⊢
    rcases h with rfl | h | h
    · exact Or.inl (Or.inl rfl)
    · rcases mem_dumpsSpacedFields true fields h with h | h
      · exact Or.inl (Or.inr (Or.inl h))
      · exact Or.inr h
    · exact Or.inl (Or.inr (Or.inr h))
  | .null, h | .bool _, h | .int _, h | .float _, h | .str _, h => Or.inl h

theorem mem_dumpsSpacedItems {c : Char} (first : Bool) : (items : List Json) →
    c ∈ dumpsSpacedItems fl space first items → c ∈ dumpsItems fl first items ∨ c ∈ space
  | [], h => Or.inl h
  | v :: items, h => by
    rw [dumpsSpacedItems] at h
    rw [dumpsItems]
    simp only [List.mem_append] at h ⊢
    rcases h with (h | h) | h
    · rcases mem_comma h with h | h
      · exact Or.inl (Or.inl (Or.inl h))
      · exact Or.inr h
    · exact (mem_dumpsSpaced v h).imp_left fun h => Or.inl (Or.inr h)
    · exact (mem_dumpsSpacedItems false items h).imp_left Or.inr

theorem mem_dumpsSpacedFields {c : Char} (first : Bool) : (fields : List (String × Json)) →
    c ∈ dumpsSpacedFields fl space first fields → c ∈ dumpsFields fl first fields ∨ c ∈ space
  | [], h => Or.inl h
  | (k, v) :: fields, h => by
    rw [dumpsSpacedFields] at h
    rw [dumpsFields]
    simp only [List.mem_append, List.mem_cons] at h ⊢
    rcases h with (((h | h) | rfl | h) | h) | h
    · rcases mem_comma h with h | h
      · exact Or.inl (Or.inl (Or.inl (Or.inl h)))
      · exact Or.inr h
    · exact Or.inl (Or.inl (Or.inl (Or.inr h)))
    · exact Or.inl (Or.inl (Or.inr (Or.inl rfl)))
    · exact Or.inr h
    · exact (mem_dumpsSpaced v h).imp_left fun h => Or.inl (Or.inr (Or.inr (Or.inr h)))
    · exact (mem_dumpsSpacedFields false fields h).imp_left Or.inr

end

/-- A text with sorted keys has no line feed. -/
theorem newline_not_mem_dumpsSorted (hspace : '\n' ∉ space) {v : Json} {t : List Char}
    (h : dumpsSorted fl space v = some t) : '\n' ∉ t := by
  rw [dumpsSorted] at h
  split_ifs at h
  cases h
  intro hmem
  rcases mem_dumpsSpaced fl _ hmem with hmem | hmem
  · exact absurd (le_toNat_of_mem_dumps fl _ _ hmem) (by decide)
  · exact hspace hmem

end Dumps

/-! ### Lines -/

/-- The texts, with a line feed behind each. -/
def writeLines (texts : List (List Char)) : List Char := texts.flatMap (· ++ ['\n'])

/-- The lines of a text, without the line feeds behind them. -/
def readLines (t : List Char) : List (List Char) :=
  (fileLines t).map fun line => if line.getLast? = some '\n' then line.dropLast else line

@[simp] theorem writeLines_append (ts ts' : List (List Char)) :
    writeLines (ts ++ ts') = writeLines ts ++ writeLines ts' := List.flatMap_append

/-- Texts without line feeds are read as they were written. -/
theorem readLines_writeLines {texts : List (List Char)} (h : ∀ t ∈ texts, '\n' ∉ t) :
    readLines (writeLines texts) = texts := by
  induction texts with
  | nil => rfl
  | cons t texts ih =>
    have hline : ∀ c ∈ t, decide (c = '\n') = false := fun c hc =>
      decide_eq_false fun hnewline => h t List.mem_cons_self (hnewline ▸ hc)
    have hsplit : fileLines (writeLines (t :: texts)) =
        (t ++ ['\n']) :: fileLines (writeLines texts) := by
      rw [writeLines, List.flatMap_cons, List.append_assoc, List.singleton_append, fileLines,
        splitAfter_append_cons _ _ (by decide), splitAfter_append_singleton hline (by decide)]
      rfl
    rw [readLines, hsplit, List.map_cons, ← readLines,
      ih fun t ht => h t (List.mem_cons_of_mem _ ht)]
    simp

end OpenRath
