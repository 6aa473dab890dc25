import Mathlib.Data.Char
import OpenRath.Library.JsonText

/-!
# Where the strings of a JSON text are

A JSON text consists of strings in quotes and of other characters, none of which is a backslash or
outside ASCII. A reader of the text that counts quotes knows at every character whether it is
within a string. It agrees with `dumps` and with `loads`, and from this it follows that what is
left of the text of a value behind a character within one of its strings is not the text of
anything (`loads_suffix_ne_ok`): where the one reader is within a string, a reader that starts in
the middle of the string is not.

## Main definitions

* `Place`, `Place.run`, `Json.texts`.

## Main results

* `run_dumps`, `run_of_loads`: both end outside of a string.
* `forall_mem_dumps`: the characters of the text of a value.
* `loads_suffix_ne_ok`.
-/

namespace OpenRath

/-! ### The reader -/

/-- A character between the strings of a text. -/
def isToken (c : Char) : Bool :=
  isNumeral c || isJsonSpace c || c ∈ ['{', '}', '[', ']', ',', ':']

/-- Where a reader of a text is. -/
inductive Place
  | outside
  | inside
  /-- Behind a backslash within a string. -/
  | escaped
  /-- Behind a character that has no place in a JSON text. -/
  | bad
deriving DecidableEq

namespace Place

/-- The place behind a character. -/
def next : Place → Char → Place
  | outside, c => if c = '"' then inside else if isToken c then outside else bad
  | inside, c => if c = '"' then outside else if c = '\\' then escaped else inside
  | escaped, c => if c = 'u' ∨ (unescape? c).isSome then inside else bad
  | bad, _ => bad

/-- The place behind a text. -/
def run (x : Place) (t : List Char) : Place := t.foldl next x

@[simp] theorem run_nil (x : Place) : x.run [] = x := rfl

@[simp] theorem run_cons (x : Place) (c : Char) (t : List Char) :
    x.run (c :: t) = (x.next c).run t := rfl

@[simp] theorem run_append (x : Place) (s t : List Char) : x.run (s ++ t) = (x.run s).run t :=
  List.foldl_append

theorem run_bad (t : List Char) : bad.run t = bad := by
  induction t with
  | nil => rfl
  | cons c t ih => exact ih

/-- Tokens leave the reader outside. -/
theorem run_tokens {t : List Char} (h : ∀ c ∈ t, isToken c = true) :
    outside.run t = outside := by
  induction t with
  | nil => rfl
  | cons c t ih =>
    have hc : isToken c = true := h c List.mem_cons_self
    have hquote : c ≠ '"' := by
      rintro rfl
      exact absurd hc (by decide)
    rw [run_cons, next, if_neg hquote, if_pos hc]
    exact ih fun d hd => h d (List.mem_cons_of_mem _ hd)

/-- Characters that are neither quotes nor backslashes leave the reader within a string. -/
theorem run_inside {t : List Char} (h : ∀ c ∈ t, c ≠ '"' ∧ c ≠ '\\') :
    inside.run t = inside := by
  induction t with
  | nil => rfl
  | cons c t ih =>
    obtain ⟨hquote, hslash⟩ := h c List.mem_cons_self
    rw [run_cons, next, if_neg hquote, if_neg hslash]
    exact ih fun d hd => h d (List.mem_cons_of_mem _ hd)

/-- Two readers one of which is within a string where the other is outside. One that has gone
wrong stays so. -/
def Opposite (x y : Place) : Prop :=
  x = bad ∨ y = bad ∨ (x = inside ∧ y = outside) ∨ (x = outside ∧ y = inside)

/-- Two readers stay opposite to each other. -/
theorem Opposite.next {x y : Place} (h : Opposite x y) (c : Char) :
    Opposite (x.next c) (y.next c) := by
  rcases h with rfl | rfl | ⟨rfl, rfl⟩ | ⟨rfl, rfl⟩
  · exact .inl rfl
  · exact .inr (.inl rfl)
  · by_cases hquote : c = '"'
    · simp [Opposite, Place.next, hquote]
    · by_cases hslash : c = '\\'
      · have htoken : isToken '\\' = false := by decide
        simp [Opposite, Place.next, hslash, htoken]
      · by_cases htoken : isToken c = true <;> simp [Opposite, Place.next, hquote, hslash, htoken]
  · by_cases hquote : c = '"'
    · simp [Opposite, Place.next, hquote]
    · by_cases hslash : c = '\\'
      · have htoken : isToken '\\' = false := by decide
        simp [Opposite, Place.next, hslash, htoken]
      · by_cases htoken : isToken c = true <;> simp [Opposite, Place.next, hquote, hslash, htoken]

theorem Opposite.run {x y : Place} (h : Opposite x y) (t : List Char) :
    Opposite (x.run t) (y.run t) := by
  induction t generalizing x y with
  | nil => exact h
  | cons c t ih => exact ih (h.next c)

/-- A text that takes the reader out of a string does not take it from outside to outside. -/
theorem run_outside_ne {t : List Char} (h : inside.run t = outside) :
    outside.run t ≠ outside := by
  have hopposite : Opposite (inside.run t) (outside.run t) :=
    Opposite.run (.inr (.inr (.inl ⟨rfl, rfl⟩))) t
  rw [h] at hopposite
  intro hrun
  rw [hrun] at hopposite
  simp [Opposite] at hopposite

/-- The reader of a text that ends outside is within a string before a character that is neither
a token nor a quote, nor has a place behind a backslash. -/
theorem run_eq_inside_of_cons {s t : List Char} {c : Char}
    (h : outside.run (s ++ c :: t) = outside) (hquote : c ≠ '"') (htoken : isToken c = false)
    (hescape : unescape? c = none) (hu : c ≠ 'u') : outside.run s = inside := by
  rw [run_append, run_cons] at h
  cases hs : outside.run s with
  | outside => simp [hs, next, hquote, htoken, run_bad] at h
  | inside => rfl
  | escaped => simp [hs, next, hescape, hu, run_bad] at h
  | bad => simp [hs, next, run_bad] at h

end Place

/-! ### Texts of values -/

open Place

mutual

/-- The strings of a value, the keys of its objects included. -/
def Json.texts : Json → List String
  | .null | .bool _ | .int _ | .float _ => []
  | .str s => [s]
  | .arr items => itemTexts items
  | .obj fields => fieldTexts fields

/-- The strings of the items of an array. -/
def itemTexts : List Json → List String
  | [] => []
  | v :: items => v.texts ++ itemTexts items

/-- The strings of the fields of an object. -/
def fieldTexts : List (String × Json) → List String
  | [] => []
  | (k, v) :: fields => k :: (v.texts ++ fieldTexts fields)

end

theorem isNumeral_of_isDigit {c : Char} (h : c.isDigit = true) : isNumeral c = true := by
  simp [isNumeral, Char.isAlphanum, h]

theorem isToken_of_isNumeral {c : Char} (h : isNumeral c = true) : isToken c = true := by
  simp [isToken, h]

theorem isToken_of_isJsonSpace {c : Char} (h : isJsonSpace c = true) : isToken c = true := by
  simp [isToken, h]

theorem isNumeral_of_mem_dumpsInt (n : ℤ) : ∀ c ∈ dumpsInt n, isNumeral c = true := by
  intro c hc
  cases n with
  | ofNat n => exact isNumeral_of_isDigit (Nat.isDigit_of_mem_toDigits (by decide) (by decide) hc)
  | negSucc n =>
    rcases List.mem_cons.mp hc with rfl | hc
    · decide
    · exact isNumeral_of_isDigit (Nat.isDigit_of_mem_toDigits (by decide) (by decide) hc)

/-- The text of a character does not end its string. -/
theorem run_escape (c : Char) : inside.run (escape c) = inside := by
  have hdigit : ∀ n < 16, inside.next (Nat.digitChar n) = inside := by decide
  unfold escape
  split_ifs with hquote hslash hn hr ht hb hf hcontrol
  · decide
  · decide
  · decide
  · decide
  · decide
  · decide
  · decide
  · have hstart : inside.run ['\\', 'u', '0', '0'] = inside := by decide
    rw [show ['\\', 'u', '0', '0', Nat.digitChar (c.toNat / 16), Nat.digitChar (c.toNat % 16)] =
      ['\\', 'u', '0', '0'] ++ [Nat.digitChar (c.toNat / 16), Nat.digitChar (c.toNat % 16)] from
      rfl, run_append, hstart, run_cons, run_cons, hdigit _ (by omega), hdigit _ (by omega),
      run_nil]
  · exact run_inside (by simp [hquote, hslash])

/-- What a character is written with: itself, if it is not a control character, or an escape
sequence. -/
theorem of_mem_escape {c d : Char} (hd : d ∈ escape c) :
    (d = c ∧ 0x20 ≤ c.toNat) ∨ d ∈ ['\\', '"', 'n', 'r', 't', 'b', 'f', 'u'] ∨
      ∃ n < 16, d = Nat.digitChar n := by
  unfold escape at hd
  split_ifs at hd with h1 h2 h3 h4 h5 h6 h7 hcontrol
  iterate 7
    refine Or.inr (Or.inl ?_)
    simp only [List.mem_cons, List.not_mem_nil, or_false] at hd
    rcases hd with rfl | rfl <;> decide
  · simp only [List.mem_cons, List.not_mem_nil, or_false] at hd
    rcases hd with hd | hd | hd | hd | hd | hd
    · exact Or.inr (Or.inl (by rw [hd]; decide))
    · exact Or.inr (Or.inl (by rw [hd]; decide))
    · exact Or.inr (Or.inr ⟨0, by decide, hd⟩)
    · exact Or.inr (Or.inr ⟨0, by decide, hd⟩)
    · exact Or.inr (Or.inr ⟨_, by omega, hd⟩)
    · exact Or.inr (Or.inr ⟨_, by omega, hd⟩)
  · exact Or.inl ⟨List.mem_singleton.mp hd, by omega⟩

theorem run_flatMap_escape (t : List Char) : inside.run (t.flatMap escape) = inside := by
  induction t with
  | nil => rfl
  | cons c t ih => rw [List.flatMap_cons, run_append, run_escape, ih]

theorem run_dumpsString (s : String) : outside.run (dumpsString s) = outside := by
  have hquote : outside.next '"' = inside := rfl
  rw [dumpsString, run_cons, run_append, hquote, run_flatMap_escape]
  rfl

section Dumps

variable (fl : FloatText)

mutual

/-- The text of a value ends outside of a string. -/
theorem run_dumps : (v : Json) → outside.run (dumps fl v) = outside
  | .null => by rw [dumps]; decide
  | .bool true => by rw [dumps]; decide
  | .bool false => by rw [dumps]; decide
  | .int n => by
    rw [dumps]
    exact run_tokens fun c hc => isToken_of_isNumeral (isNumeral_of_mem_dumpsInt n c hc)
  | .float bits => by
    rw [dumps]
    exact run_tokens fun c hc => isToken_of_isNumeral (fl.isNumeral_text bits c hc)
  | .str s => by rw [dumps, run_dumpsString]
  | .arr items => by
    have hopen : outside.next '[' = outside := by decide
    rw [dumps, run_cons, run_append, hopen, run_dumpsItems true items]
    decide
  | .obj fields => by
    have hopen : outside.next '{' = outside := by decide
    rw [dumps, run_cons, run_append, hopen, run_dumpsFields true fields]
    decide

theorem run_dumpsItems (first : Bool) : (items : List Json) →
    outside.run (dumpsItems fl first items) = outside
  | [] => by rw [dumpsItems, run_nil]
  | v :: items => by
    have hcomma : outside.run (if first then [] else [',', ' ']) = outside := by
      cases first <;> decide
    rw [dumpsItems, run_append, run_append, hcomma, run_dumps v, run_dumpsItems false items]

theorem run_dumpsFields (first : Bool) : (fields : List (String × Json)) →
    outside.run (dumpsFields fl first fields) = outside
  | [] => by rw [dumpsFields, run_nil]
  | (k, v) :: fields => by
    have hcomma : outside.run (if first then [] else [',', ' ']) = outside := by
      cases first <;> decide
    have hcolon : (outside.next ':').next ' ' = outside := by decide
    rw [dumpsFields, run_append, run_append, run_append, hcomma, run_dumpsString, run_cons,
      run_cons, hcolon, run_dumps v, run_dumpsFields false fields]

end

section Characters

theorem mem_marks_of_mem_comma {first : Bool} {c : Char}
    (hc : c ∈ if first then [] else [',', ' ']) :
    c ∈ ['"', '{', '}', '[', ']', ',', ':', ' '] := by
  cases first
  · rcases List.mem_cons.mp hc with rfl | hc
    · decide
    · rw [List.mem_singleton.mp hc]
      decide
  · simp at hc

/-- A property of the characters between the strings of a text and of the quotes. -/
structure OnMarks (P : Char → Prop) : Prop where
  numeral : ∀ c, isNumeral c = true → P c
  mark : ∀ c ∈ ['"', '{', '}', '[', ']', ',', ':', ' '], P c

variable {P : Char → Prop}

theorem forall_mem_dumpsString (hP : OnMarks P) {s : String}
    (h : ∀ c ∈ s.toList, ∀ d ∈ escape c, P d) : ∀ c ∈ dumpsString s, P c := by
  intro c hc
  rcases List.mem_cons.mp hc with rfl | hc
  · exact hP.mark _ (by decide)
  · rcases List.mem_append.mp hc with hc | hc
    · obtain ⟨d, hd, hc⟩ := List.mem_flatMap.mp hc
      exact h d hd c hc
    · exact hP.mark c (by simp_all)

mutual

/-- The characters of the text of a value: those of numbers, marks, and those that the characters
of its strings are written with. -/
theorem forall_mem_dumps (hP : OnMarks P) : (v : Json) →
    (∀ s ∈ v.texts, ∀ c ∈ s.toList, ∀ d ∈ escape c, P d) → ∀ c ∈ dumps fl v, P c
  | .null, _ => by
    rw [dumps]
    exact fun c hc => hP.numeral c (List.all_eq_true.mp (by decide) c hc)
  | .bool true, _ => by
    rw [dumps]
    exact fun c hc => hP.numeral c (List.all_eq_true.mp (by decide) c hc)
  | .bool false, _ => by
    rw [dumps]
    exact fun c hc => hP.numeral c (List.all_eq_true.mp (by decide) c hc)
  | .int n, _ => by
    rw [dumps]
    exact fun c hc => hP.numeral c (isNumeral_of_mem_dumpsInt n c hc)
  | .float bits, _ => by
    rw [dumps]
    exact fun c hc => hP.numeral c (fl.isNumeral_text bits c hc)
  | .str s, h => by
    rw [dumps]
    exact forall_mem_dumpsString hP (h s (by simp [Json.texts]))
  | .arr items, h => by
    intro c hc
    rw [dumps, List.mem_cons, List.mem_append] at hc
    rcases hc with rfl | hc | hc
    · exact hP.mark _ (by decide)
    · exact forall_mem_dumpsItems hP true items (by simpa only [Json.texts] using h) c hc
    · exact hP.mark c (by simp_all)
  | .obj fields, h => by
    intro c hc
    rw [dumps, List.mem_cons, List.mem_append] at hc
    rcases hc with rfl | hc | hc
    · exact hP.mark _ (by decide)
    · exact forall_mem_dumpsFields hP true fields (by simpa only [Json.texts] using h) c hc
    · exact hP.mark c (by simp_all)

theorem forall_mem_dumpsItems (hP : OnMarks P) (first : Bool) : (items : List Json) →
    (∀ s ∈ itemTexts items, ∀ c ∈ s.toList, ∀ d ∈ escape c, P d) →
    ∀ c ∈ dumpsItems fl first items, P c
  | [], _ => by simp [dumpsItems]
  | v :: items, h => by
    intro c hc
    rw [itemTexts, List.forall_mem_append] at h
    rw [dumpsItems, List.mem_append, List.mem_append] at hc
    rcases hc with (hc | hc) | hc
    · exact hP.mark c (mem_marks_of_mem_comma hc)
    · exact forall_mem_dumps hP v h.1 c hc
    · exact forall_mem_dumpsItems hP false items h.2 c hc

theorem forall_mem_dumpsFields (hP : OnMarks P) (first : Bool) : (fields : List (String × Json)) →
    (∀ s ∈ fieldTexts fields, ∀ c ∈ s.toList, ∀ d ∈ escape c, P d) →
    ∀ c ∈ dumpsFields fl first fields, P c
  | [], _ => by simp [dumpsFields]
  | (k, v) :: fields, h => by
    intro c hc
    rw [fieldTexts, List.forall_mem_cons, List.forall_mem_append] at h
    rw [dumpsFields, List.mem_append, List.mem_append, List.mem_append, List.mem_cons,
      List.mem_cons] at hc
    rcases hc with ((hc | hc) | rfl | rfl | hc) | hc
    · exact hP.mark c (mem_marks_of_mem_comma hc)
    · exact forall_mem_dumpsString hP h.1 c hc
    · exact hP.mark _ (by decide)
    · exact hP.mark _ (by decide)
    · exact forall_mem_dumps hP v h.2.1 c hc
    · exact forall_mem_dumpsFields hP false fields h.2.2 c hc

end

end Characters

section Strings

variable {s : String} {c : Char}

theorem mem_dumpsString (hc : c ∈ s.toList) {d : Char} (hd : d ∈ escape c) :
    d ∈ dumpsString s :=
  List.mem_cons_of_mem _ (List.mem_append_left _ (List.mem_flatMap.mpr ⟨c, hc, hd⟩))

variable {d : Char}

mutual

/-- What a character of a string is written with occurs in the text of the value. -/
theorem mem_dumps (hc : c ∈ s.toList) (hd : d ∈ escape c) :
    (v : Json) → s ∈ v.texts → d ∈ dumps fl v
  | .null, h | .bool _, h | .int _, h | .float _, h => by simp [Json.texts] at h
  | .str s', h => by
    rw [Json.texts, List.mem_singleton] at h
    rw [dumps, ← h]
    exact mem_dumpsString hc hd
  | .arr items, h => by
    rw [dumps]
    exact List.mem_cons_of_mem _ (List.mem_append_left _ (mem_dumpsItems hc hd true items h))
  | .obj fields, h => by
    rw [dumps]
    exact List.mem_cons_of_mem _ (List.mem_append_left _ (mem_dumpsFields hc hd true fields h))

theorem mem_dumpsItems (hc : c ∈ s.toList) (hd : d ∈ escape c) (first : Bool) :
    (items : List Json) → s ∈ itemTexts items → d ∈ dumpsItems fl first items
  | [], h => by simp [itemTexts] at h
  | v :: items, h => by
    rw [dumpsItems]
    rcases List.mem_append.mp h with h | h
    · exact List.mem_append_left _ (List.mem_append_right _ (mem_dumps hc hd v h))
    · exact List.mem_append_right _ (mem_dumpsItems hc hd false items h)

theorem mem_dumpsFields (hc : c ∈ s.toList) (hd : d ∈ escape c) (first : Bool) :
    (fields : List (String × Json)) → s ∈ fieldTexts fields → d ∈ dumpsFields fl first fields
  | [], h => by simp [fieldTexts] at h
  | (k, v) :: fields, h => by
    rw [dumpsFields]
    rcases List.mem_cons.mp h with rfl | h
    · exact List.mem_append_left _ (List.mem_append_left _ (List.mem_append_right _
        (mem_dumpsString hc hd)))
    · rcases List.mem_append.mp h with h | h
      · exact List.mem_append_left _ (List.mem_append_right _ (List.mem_cons_of_mem _
          (List.mem_cons_of_mem _ (mem_dumps hc hd v h))))
      · exact List.mem_append_right _ (mem_dumpsFields hc hd false fields h)

end

end Strings

end Dumps

/-! ### Texts that are read -/

/-- The text `t` up to its end `u` takes the reader from one place to another. -/
def Covers (x y : Place) (t u : List Char) : Prop := ∃ s, t = s ++ u ∧ x.run s = y

namespace Covers

variable {x y z : Place} {t u w : List Char}

theorem refl (x : Place) (t : List Char) : Covers x x t t := ⟨[], rfl, rfl⟩

theorem trans (h : Covers x y t u) (h' : Covers y z u w) : Covers x z t w := by
  obtain ⟨s, rfl, rfl⟩ := h
  obtain ⟨s', rfl, rfl⟩ := h'
  exact ⟨s ++ s', by rw [List.append_assoc], by rw [run_append]⟩

theorem cons {c : Char} (hc : x.next c = y) (h : Covers y z t u) : Covers x z (c :: t) u :=
  trans ⟨[c], rfl, hc⟩ h

theorem tokens {s : List Char} (h : ∀ c ∈ s, isToken c = true) :
    Covers .outside .outside (s ++ u) u :=
  ⟨s, rfl, run_tokens h⟩

theorem skipSpace (t : List Char) : Covers .outside .outside t (OpenRath.skipSpace t) := by
  refine ⟨t.takeWhile isJsonSpace, (List.takeWhile_append_dropWhile).symm, run_tokens ?_⟩
  intro c hc
  exact isToken_of_isJsonSpace (List.mem_takeWhile_imp hc)

end Covers

theorem hex4?_covers {t u : List Char} {n : ℕ} (h : hex4? t = some (n, u)) :
    Covers .inside .inside t u := by
  have hdigit : ∀ {c : Char} {m : ℕ}, hexValue? c = some m → c ≠ '"' ∧ c ≠ '\\' := by
    intro c m hc
    constructor
    · rintro rfl
      simp [hexValue?] at hc
    · rintro rfl
      simp [hexValue?] at hc
  unfold hex4? at h
  split at h
  · rename_i a b c d e t
    simp only [Option.bind_eq_bind, Option.bind_eq_some_iff, Option.some.injEq, Prod.mk.injEq] at h
    obtain ⟨_, ha, _, hb, _, hc, _, hd, -, rfl⟩ := h
    refine ⟨[a, b, c, d], rfl, run_inside ?_⟩
    intro x hx
    simp only [List.mem_cons, List.not_mem_nil, or_false] at hx
    rcases hx with rfl | rfl | rfl | rfl
    · exact hdigit ha
    · exact hdigit hb
    · exact hdigit hc
    · exact hdigit hd
  · simp at h

theorem scanUnicode_covers {t u : List Char} {c : Char} (h : scanUnicode t = .ok (c, u)) :
    Covers .inside .inside t u := by
  unfold scanUnicode at h
  split at h
  · cases h
  · rename_i n t' hfirst
    have hcovers := hex4?_covers hfirst
    split at h
    · split at h
      · split at h
        · split at h <;> cases h
        · rename_i hsecond
          split at h
          · simp only [Except.ok.injEq, Prod.mk.injEq] at h
            rw [← h.2]
            exact hcovers.trans (.cons rfl (.cons rfl (hex4?_covers hsecond)))
          · cases h
      · cases h
    · split at h
      · cases h
      · cases h
        exact hcovers

theorem scanChar_covers {start t u : List Char} {c : Char} (hquote : ∀ w, t ≠ '"' :: w)
    (h : scanChar start t = .ok (c, u)) : Covers .inside .inside t u := by
  unfold scanChar at h
  split at h
  · cases h
  · cases h
  · exact .cons rfl (.cons rfl (scanUnicode_covers h))
  · rename_i c' t' hu
    split at h
    · rename_i d hd
      cases h
      exact .cons rfl (.cons (by simp [Place.next, hd]) (.refl _ _))
    · cases h
  · rename_i c' t' hnil hu hslash
    have hc' : c' ≠ '"' := by
      rintro rfl
      exact hquote _ rfl
    have hc'' : c' ≠ '\\' := by
      rintro rfl
      cases t' with
      | nil => exact hnil rfl rfl
      | cons d t' => exact hslash d t' rfl rfl
    split_ifs at h
    cases h
    exact .cons (by simp [Place.next, hc', hc'']) (.refl _ _)

theorem scanString_covers {start : List Char} {n : ℕ} {t u s : List Char}
    (h : scanString start n t = .ok (s, u)) : Covers .inside .outside t u := by
  induction n generalizing t s with
  | zero =>
    unfold scanString at h
    split at h
    · cases h
      exact .cons rfl (.refl _ _)
    · cases h
    · contradiction
  | succ n ih =>
    unfold scanString at h
    split at h
    · cases h
      exact .cons rfl (.refl _ _)
    · contradiction
    · rename_i hn hquote
      cases hn
      simp only [bind, Except.bind] at h
      split at h
      · cases h
      · rename_i r hr
        split at h
        · cases h
        · rename_i r' hr'
          cases h
          exact (scanChar_covers hquote hr).trans (ih hr')

theorem scanDigits_eq (t : List Char) : t = (scanDigits t).1 ++ (scanDigits t).2 :=
  List.takeWhile_append_dropWhile.symm

theorem isNumeral_of_mem_scanDigits {t : List Char} :
    ∀ c ∈ (scanDigits t).1, isNumeral c = true :=
  fun _ hc => isNumeral_of_isDigit (List.mem_takeWhile_imp hc)

theorem scanSign_eq (t : List Char) :
    t = (scanSign t).1 ++ (scanSign t).2 ∧ ∀ c ∈ (scanSign t).1, isNumeral c = true := by
  unfold scanSign
  split
  · refine ⟨rfl, fun c hc => ?_⟩
    rw [List.mem_singleton.mp hc]
    decide
  · exact ⟨rfl, by simp⟩

theorem scanInteger_eq {t s u : List Char} (h : scanInteger t = some (s, u)) :
    t = s ++ u ∧ ∀ c ∈ s, isNumeral c = true := by
  unfold scanInteger at h
  split at h
  · cases h
    exact ⟨rfl, forall_mem_of_all (by decide)⟩
  · rename_i c t hzero
    split_ifs at h with hdigit
    cases h
    refine ⟨congrArg (c :: ·) (scanDigits_eq t), List.forall_mem_cons.mpr ⟨?_, ?_⟩⟩
    · exact isNumeral_of_isDigit hdigit
    · exact isNumeral_of_mem_scanDigits
  · cases h

theorem scanFraction_eq (t : List Char) :
    t = (scanFraction t).1 ++ (scanFraction t).2 ∧
      ∀ c ∈ (scanFraction t).1, isNumeral c = true := by
  unfold scanFraction
  split
  · rename_i c t
    split_ifs with hdigit
    · refine ⟨congrArg ('.' :: c :: ·) (scanDigits_eq t), ?_⟩
      refine List.forall_mem_cons.mpr ⟨by decide, List.forall_mem_cons.mpr ⟨?_, ?_⟩⟩
      · exact isNumeral_of_isDigit hdigit
      · exact isNumeral_of_mem_scanDigits
    · exact ⟨rfl, by simp⟩
  · exact ⟨rfl, by simp⟩

theorem scanExponent_eq (t : List Char) :
    t = (scanExponent t).1 ++ (scanExponent t).2 ∧
      ∀ c ∈ (scanExponent t).1, isNumeral c = true := by
  unfold scanExponent
  split
  · rename_i e t
    dsimp only
    generalize hsign : (t.takeWhile fun c => c = '+' ∨ c = '-').take 1 = sign
    have hstart : sign <+: t := by
      rw [← hsign]
      exact (List.take_prefix _ _).trans (List.takeWhile_prefix _)
    have hsigns : ∀ c ∈ sign, isNumeral c = true := by
      intro c hc
      rw [← hsign] at hc
      have hc' : c = '+' ∨ c = '-' := by
        simpa using List.mem_takeWhile_imp (List.mem_of_mem_take hc)
      rcases hc' with rfl | rfl <;> decide
    split_ifs with hexp
    · refine ⟨?_, List.forall_mem_cons.mpr ⟨?_, List.forall_mem_append.mpr ⟨hsigns, ?_⟩⟩⟩
      · obtain ⟨w, rfl⟩ := hstart
        rw [List.drop_left, List.cons_append, List.append_assoc, ← scanDigits_eq]
      · rcases hexp.1 with rfl | rfl <;> decide
      · exact isNumeral_of_mem_scanDigits
    · exact ⟨rfl, by simp⟩
  · exact ⟨rfl, by simp⟩

/-- A numeral is the beginning of its text. -/
theorem scanNumeral_eq {t s u : List Char} {isFloat : Bool}
    (h : scanNumeral t = some (s, isFloat, u)) :
    t = s ++ u ∧ ∀ c ∈ s, isNumeral c = true := by
  obtain ⟨hsign, hsigns⟩ := scanSign_eq t
  unfold scanNumeral at h
  dsimp only at h
  split at h
  · cases h
  · rename_i digits v hinteger
    cases h
    obtain ⟨hrest, hdigits⟩ := scanInteger_eq hinteger
    obtain ⟨hfraction, hfractions⟩ := scanFraction_eq v
    obtain ⟨hexponent, hexponents⟩ := scanExponent_eq (scanFraction v).2
    constructor
    · conv_lhs => rw [hsign, hrest, hfraction, hexponent]
      simp only [List.append_assoc]
    · simp only [List.forall_mem_append]
      exact ⟨⟨⟨hsigns, hdigits⟩, hfractions⟩, hexponents⟩

section Loads

variable (fl : FloatText)

theorem scanNumber_covers {t u : List Char} {v : Json} (h : scanNumber fl t = .ok (v, u)) :
    Covers .outside .outside t u := by
  have hcovers : ∀ {s : List Char} {isFloat : Bool} {u : List Char},
      scanNumeral t = some (s, isFloat, u) → Covers .outside .outside t u := by
    intro s isFloat u hnumeral
    obtain ⟨rfl, hs⟩ := scanNumeral_eq hnumeral
    exact .tokens fun c hc => isToken_of_isNumeral (hs c hc)
  unfold scanNumber at h
  split at h
  · cases h
  · rename_i numeral w hnumeral
    cases h
    exact hcovers hnumeral
  · rename_i numeral w hnumeral
    dsimp only at h
    split at h
    · cases h
    · cases h
      exact hcovers hnumeral

theorem scanConstant_covers {t u : List Char} {v : Json}
    (h : scanConstant fl t = some (v, u)) : Covers .outside .outside t u := by
  obtain ⟨c, hc, hsome⟩ := List.exists_of_findSome?_eq_some h
  split_ifs at hsome with hstart
  cases hsome
  obtain ⟨w, rfl⟩ := List.isPrefixOf_iff_prefix.mp hstart
  have htokens : ∀ c ∈ constants fl, ∀ d ∈ c.1, isToken d = true := by
    simp only [constants, List.forall_mem_cons, List.not_mem_nil, false_implies, implies_true,
      and_true]
    refine ⟨?_, ?_, ?_, ?_, ?_, ?_⟩ <;> exact forall_mem_of_all (by decide)
  rw [List.drop_left]
  exact .tokens (htokens c hc)

theorem scanScalar_covers {t u : List Char} {v : Json} (h : scanScalar fl t = .ok (v, u)) :
    Covers .outside .outside t u := by
  unfold scanScalar at h
  split at h
  · rename_i hconstant
    cases h
    exact scanConstant_covers fl hconstant
  · exact scanNumber_covers fl h

/-- What a reader takes from a text is made of whole strings and of characters between them. -/
def CoversAll {α : Type} (read : List Char → Except LoadsError (α × List Char)) : Prop :=
  ∀ t x u, read t = .ok (x, u) → Covers .outside .outside t u

section Step

variable {n : ℕ}

theorem scanItems_covers (hvalue : CoversAll (scanValue fl n))
    (hitems : CoversAll (scanItems fl n)) :
    CoversAll (scanItems fl (n + 1)) := by
  intro t items u h
  rw [scanItems.eq_def] at h
  obtain ⟨⟨v, w⟩, hscan, h⟩ := exists_of_bind_eq_ok h
  refine (hvalue _ _ _ hscan).trans ((Covers.skipSpace w).trans ?_)
  dsimp only at h
  split at h
  · rename_i w' hclose
    cases h
    rw [hclose]
    exact .cons (by decide) (.refl _ _)
  · rename_i w' hcomma
    obtain ⟨⟨items', w''⟩, hrest, h⟩ := exists_of_bind_eq_ok h
    cases h
    rw [hcomma]
    exact .cons (by decide) ((Covers.skipSpace w').trans (hitems _ _ _ hrest))
  · cases h

theorem scanFields_covers (hvalue : CoversAll (scanValue fl n))
    (hfields : ∀ o, CoversAll (scanFields fl n o)) (o : JsonObject) :
    CoversAll (scanFields fl (n + 1) o) := by
  intro t fields u h
  rw [scanFields.eq_def] at h
  dsimp only at h
  split at h
  · obtain ⟨⟨k, w⟩, hkey, h⟩ := exists_of_bind_eq_ok h
    refine .cons rfl ((scanString_covers hkey).trans ((Covers.skipSpace w).trans ?_))
    dsimp only at h
    split at h
    · rename_i w' hcolon
      obtain ⟨⟨v, w''⟩, hscan, h⟩ := exists_of_bind_eq_ok h
      rw [hcolon]
      refine .cons (by decide) ((Covers.skipSpace w').trans ((hvalue _ _ _ hscan).trans
        ((Covers.skipSpace w'').trans ?_)))
      dsimp only at h
      split at h
      · rename_i w''' hclose
        cases h
        rw [hclose]
        exact .cons (by decide) (.refl _ _)
      · rename_i w''' hcomma
        rw [hcomma]
        exact .cons (by decide) ((Covers.skipSpace w''').trans (hfields _ _ _ _ h))
      · cases h
    · cases h
  · cases h

theorem scanValue_covers (hitems : CoversAll (scanItems fl n))
    (hfields : ∀ o, CoversAll (scanFields fl n o)) : CoversAll (scanValue fl (n + 1)) := by
  intro t v u h
  rw [scanValue.eq_def] at h
  dsimp only at h
  split at h
  · obtain ⟨⟨s, w⟩, hstring, h⟩ := exists_of_bind_eq_ok h
    cases h
    exact .cons rfl (scanString_covers hstring)
  · rename_i w
    refine .cons (by decide) ((Covers.skipSpace w).trans ?_)
    split at h
    · rename_i w' hclose
      cases h
      rw [hclose]
      exact .cons (by decide) (.refl _ _)
    · obtain ⟨⟨items, w'⟩, hscan, h⟩ := exists_of_bind_eq_ok h
      cases h
      exact hitems _ _ _ hscan
  · rename_i w
    refine .cons (by decide) ((Covers.skipSpace w).trans ?_)
    split at h
    · rename_i w' hclose
      cases h
      rw [hclose]
      exact .cons (by decide) (.refl _ _)
    · obtain ⟨⟨fields, w'⟩, hscan, h⟩ := exists_of_bind_eq_ok h
      cases h
      exact hfields _ _ _ _ hscan
  · exact scanScalar_covers fl h

end Step

theorem scan_covers (n : ℕ) :
    CoversAll (scanValue fl n) ∧ CoversAll (scanItems fl n) ∧
      ∀ o, CoversAll (scanFields fl n o) := by
  induction n with
  | zero =>
    refine ⟨fun t v u h => ?_, fun t items u h => ?_, fun o t fields u h => ?_⟩
    · rw [scanValue] at h
      cases h
    · rw [scanItems] at h
      cases h
    · rw [scanFields] at h
      cases h
  | succ n ih =>
    obtain ⟨hvalue, hitems, hfields⟩ := ih
    exact ⟨scanValue_covers fl hitems hfields, scanItems_covers fl hvalue hitems,
      scanFields_covers fl hvalue hfields⟩

/-- A text that is read ends outside of a string. -/
theorem run_of_loads {t : List Char} {v : Json} (h : loads fl t = .ok v) :
    Place.outside.run t = .outside := by
  unfold loads at h
  split at h
  · cases h
  · obtain ⟨⟨v', w⟩, hscan, h⟩ := exists_of_bind_eq_ok h
    have hcovers : Covers .outside .outside t (skipSpace w) :=
      (Covers.skipSpace t).trans (((scan_covers fl _).1 _ _ _ hscan).trans (Covers.skipSpace w))
    dsimp only at h
    split at h
    · rename_i hend
      rw [hend] at hcovers
      obtain ⟨s, hs, hrun⟩ := hcovers
      rw [hs, List.append_nil]
      exact hrun
    · cases h

/-- What is left of the text of a value behind a character within one of its strings is not the
text of anything. -/
theorem loads_suffix_ne_ok {v : Json} {s t : List Char} {c : Char}
    (hv : dumps fl v = s ++ c :: t) (hquote : c ≠ '"') (hslash : c ≠ '\\')
    (htoken : isToken c = false) (hescape : unescape? c = none) (hu : c ≠ 'u') {t' : List Char}
    (ht' : ∃ w, t = w ++ t' ∧ ∀ d ∈ w, d ≠ '"' ∧ d ≠ '\\') (w : Json) :
    loads fl t' ≠ .ok w := by
  have hrun := run_dumps fl v
  rw [hv] at hrun
  have hinside := run_eq_inside_of_cons hrun hquote htoken hescape hu
  obtain ⟨space, rfl, hspace⟩ := ht'
  rw [run_append, hinside, run_cons, Place.next, if_neg hquote, if_neg hslash, run_append,
    run_inside hspace] at hrun
  exact fun h => run_outside_ne hrun (run_of_loads fl h)

end Loads

end OpenRath
