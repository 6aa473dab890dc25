import OpenRath.Library.JsonLexical

/-!
# Reading what was written as JSON

`json.loads` is the inverse of `json.dumps` on the values that JSON has: no object has a key twice,
no integer has more digits than Python reads, and the text of every floating-point number is read
as that number.

## Main definitions

* `FloatText.Survives`, `Json.Loadable`, `Escaping`.

## Main results

* `loads_dumpsWith`, `loads_dumpsSpaced`, `loads_dumps`.
-/

namespace OpenRath

/-- A text that can follow a value. -/
def Delimited (u : List Char) : Prop := ∀ c ∈ u.head?, c ∈ [',', ']', '}']

theorem delimited_nil : Delimited [] := by simp [Delimited]

theorem delimited_cons {c : Char} (hc : c ∈ [',', ']', '}']) (u : List Char) :
    Delimited (c :: u) := by
  intro d hd
  obtain rfl : c = d := by simpa using hd
  exact hc

/-- The text of a number is read as the number. -/
def FloatText.Survives (fl : FloatText) (bits : BitVec 64) : Prop :=
  ∀ u, Delimited u → scanScalar fl (fl.text bits ++ u) = .ok (.float bits, u)

section Loadable

variable (fl : FloatText)

mutual

/-- A value that is read as it was written. -/
def Json.Loadable : Json → Prop
  | .null | .bool _ | .str _ => True
  | .int n => (dumpsInt n).countP Char.isDigit ≤ 4300
  | .float bits => fl.Survives bits
  | .arr items => LoadableItems items
  | .obj fields => (fields.map Prod.fst).Nodup ∧ LoadableFields fields

/-- Items that are read as they were written. -/
def LoadableItems : List Json → Prop
  | [] => True
  | v :: items => v.Loadable ∧ LoadableItems items

/-- Fields that are read as they were written. -/
def LoadableFields : List (String × Json) → Prop
  | [] => True
  | (_, v) :: fields => v.Loadable ∧ LoadableFields fields

end

end Loadable

/-! ### Strings -/

theorem hexValue?_digitChar : ∀ n < 16, hexValue? (Nat.digitChar n) = some n := by decide

/-- A character is read as it was written. -/
theorem scanChar_escape (start : List Char) (c : Char) {u : List Char} (hu : u ≠ []) :
    scanChar start (escape c ++ u) = .ok (c, u) := by
  unfold escape
  split_ifs with h1 h2 h3 h4 h5 h6 h7 hcontrol
  · rw [h1]
    rfl
  · rw [h2]
    rfl
  · rw [h3]
    rfl
  · rw [h4]
    rfl
  · rw [h5]
    rfl
  · rw [h6]
    rfl
  · rw [h7]
    rfl
  · obtain ⟨d, u, rfl⟩ := List.exists_cons_of_ne_nil hu
    have hhex : hex4? ('0' :: '0' :: Nat.digitChar (c.toNat / 16) ::
        Nat.digitChar (c.toNat % 16) :: d :: u) = some (c.toNat, d :: u) := by
      have hzero : hexValue? '0' = some 0 := by decide
      simp only [hex4?, hzero, hexValue?_digitChar _ (show c.toNat / 16 < 16 by omega),
        hexValue?_digitChar _ (show c.toNat % 16 < 16 by omega), Option.bind_eq_bind,
        Option.bind_some, Option.some.injEq, Prod.mk.injEq, and_true]
      omega
    refine (show _ = scanUnicode ('0' :: '0' :: Nat.digitChar (c.toNat / 16) ::
      Nat.digitChar (c.toNat % 16) :: d :: u) from rfl).trans ?_
    rw [scanUnicode, hhex]
    dsimp only
    rw [if_neg (by omega), if_neg (by omega), Char.ofNat_toNat]
  · have hlow : ¬ c.toNat ≤ 0x1F := by omega
    rw [List.singleton_append, scanChar.eq_def]
    split
    · simp_all
    · simp_all
    · simp_all
    · simp_all
    · rename_i heq
      cases heq
      rw [if_neg hlow]

/-- The text of a character does not begin with a quote. -/
theorem escape_append_ne (c : Char) (u w : List Char) : escape c ++ u ≠ '"' :: w := by
  unfold escape
  split_ifs with h1 <;> simp
  exact fun h => absurd h h1

/-- Every character is read as it was written. -/
structure Escaping (esc : Char → List Char) : Prop where
  scanChar_append : ∀ (start : List Char) (c : Char) {u : List Char}, u ≠ [] →
    scanChar start (esc c ++ u) = .ok (c, u)
  /-- The text of a character does not begin with a quote. -/
  append_ne : ∀ (c : Char) (u w : List Char), esc c ++ u ≠ '"' :: w

theorem escaping_escape : Escaping escape := ⟨scanChar_escape, escape_append_ne⟩

/-- A string is read as it was written. -/
theorem Escaping.scanString_flatMap {esc : Char → List Char} (hesc : Escaping esc)
    (start s u : List Char) (n : ℕ) (hn : s.length ≤ n) :
    scanString start n (s.flatMap esc ++ '"' :: u) = .ok (s, u) := by
  induction s generalizing n with
  | nil => cases n <;> rfl
  | cons c s ih =>
    obtain ⟨n, rfl⟩ : ∃ m, n = m + 1 := ⟨n - 1, by simp at hn; omega⟩
    have hrest : s.flatMap esc ++ '"' :: u ≠ [] := by simp
    have hchar := hesc.scanChar_append start c hrest
    rw [List.flatMap_cons, List.append_assoc, scanString.eq_def]
    split
    · rename_i hquote
      exact absurd hquote (hesc.append_ne c _ _)
    · contradiction
    · rename_i m hm hquote
      cases hm
      rw [hchar]
      simp only [bind, Except.bind]
      rw [ih n (by simpa using hn)]

/-! ### Integers -/

theorem Delimited.head {u : List Char} (h : Delimited u) {c : Char} (hc : c ∈ u.head?) :
    c.isDigit = false ∧ c ≠ '.' ∧ c ≠ 'e' ∧ c ≠ 'E' := by
  have hall : ∀ c ∈ [',', ']', '}'], c.isDigit = false ∧ c ≠ '.' ∧ c ≠ 'e' ∧ c ≠ 'E' :=
    forall_mem_of_all (by decide)
  exact hall c (h c hc)

theorem scanDigits_append {ds u : List Char} (hds : ∀ c ∈ ds, c.isDigit = true)
    (hu : Delimited u) : scanDigits (ds ++ u) = (ds, u) := by
  have hu' : u.takeWhile Char.isDigit = [] ∧ u.dropWhile Char.isDigit = u := by
    cases u with
    | nil => exact ⟨rfl, rfl⟩
    | cons c u =>
      have hc : ¬ c.isDigit = true := by simp [(hu.head rfl).1]
      exact ⟨List.takeWhile_cons_of_neg hc, List.dropWhile_cons_of_neg hc⟩
  rw [scanDigits, List.takeWhile_append_of_pos hds, List.dropWhile_append_of_pos hds, hu'.1,
    hu'.2, List.append_nil]

theorem scanFraction_delimited {u : List Char} (hu : Delimited u) : scanFraction u = ([], u) := by
  unfold scanFraction
  split
  · exact absurd rfl (hu.head rfl).2.1
  · rfl

theorem scanExponent_delimited {u : List Char} (hu : Delimited u) : scanExponent u = ([], u) := by
  cases u with
  | nil => rfl
  | cons c u =>
    obtain ⟨-, -, he, hE⟩ := hu.head rfl
    simp [scanExponent, he, hE]

/-- The digits of a positive number do not begin with zero. -/
theorem toDigits_eq_cons {n : ℕ} (hn : 0 < n) : ∃ c ds, Nat.toDigits 10 n = c :: ds ∧ c ≠ '0' := by
  induction n using Nat.strong_induction_on with
  | _ n ih =>
    rcases Nat.lt_or_ge n 10 with hlt | hge
    · have hdigit : ∀ n < 10, 0 < n → Nat.digitChar n ≠ '0' := by decide
      exact ⟨_, [], Nat.toDigits_of_lt_base hlt, hdigit n hlt hn⟩
    · obtain ⟨c, ds, hds, hc⟩ := ih (n / 10) (by omega) (by omega)
      rw [Nat.toDigits_of_base_le (by decide) hge, hds]
      exact ⟨c, _, rfl, hc⟩

theorem isDigit_of_mem_toDigits {n : ℕ} : ∀ c ∈ Nat.toDigits 10 n, c.isDigit = true :=
  fun _ hc => Nat.isDigit_of_mem_toDigits (by decide) (by decide) hc

theorem scanInteger_toDigits (n : ℕ) {u : List Char} (hu : Delimited u) :
    scanInteger (Nat.toDigits 10 n ++ u) = some (Nat.toDigits 10 n, u) := by
  rcases Nat.eq_zero_or_pos n with rfl | hn
  · rfl
  · obtain ⟨c, ds, hds, hc⟩ := toDigits_eq_cons hn
    have hdigits : ∀ d ∈ c :: ds, d.isDigit = true := hds ▸ isDigit_of_mem_toDigits
    obtain ⟨hdigit, hrest⟩ := List.forall_mem_cons.mp hdigits
    rw [hds, List.cons_append]
    unfold scanInteger
    split
    · rename_i heq
      cases heq
      exact absurd rfl hc
    · rename_i heq
      cases heq
      rw [if_pos hdigit, scanDigits_append hrest hu]
    · rename_i heq
      cases heq

/-- The digits of a number begin with a digit. -/
theorem exists_toDigits (n : ℕ) : ∃ c ds, Nat.toDigits 10 n = c :: ds ∧ c.isDigit = true := by
  obtain ⟨c, ds, hds⟩ := List.exists_cons_of_ne_nil (Nat.toDigits_ne_nil (n := n) (b := 10))
  exact ⟨c, ds, hds, isDigit_of_mem_toDigits c (hds ▸ List.mem_cons_self)⟩

theorem ne_of_isDigit {c d : Char} (hc : c.isDigit = true) (hd : d.isDigit = false) : c ≠ d := by
  rintro rfl
  exact absurd hc (by simp [hd])

theorem scanSign_digits (n : ℕ) (u : List Char) :
    scanSign (Nat.toDigits 10 n ++ u) = ([], Nat.toDigits 10 n ++ u) := by
  obtain ⟨c, ds, hds, hc⟩ := exists_toDigits n
  rw [hds, List.cons_append]
  unfold scanSign
  split
  · rename_i heq
    cases heq
    exact absurd hc (by decide)
  · rfl

theorem scanNumeral_dumpsInt (n : ℤ) {u : List Char} (hu : Delimited u) :
    scanNumeral (dumpsInt n ++ u) = some (dumpsInt n, false, u) := by
  cases n with
  | ofNat n =>
    simp [scanNumeral, dumpsInt, scanSign_digits, scanInteger_toDigits n hu,
      scanFraction_delimited hu, scanExponent_delimited hu]
  | negSucc n =>
    have hsign : scanSign ('-' :: (Nat.toDigits 10 (n + 1) ++ u)) =
        (['-'], Nat.toDigits 10 (n + 1) ++ u) := rfl
    simp [scanNumeral, dumpsInt, hsign, scanInteger_toDigits (n + 1) hu,
      scanFraction_delimited hu, scanExponent_delimited hu]

theorem readInt_dumpsInt (n : ℤ) : readInt (dumpsInt n) = n := by
  cases n with
  | ofNat n =>
    obtain ⟨c, ds, hds, hc⟩ := exists_toDigits n
    have hvalue : (Nat.ofDigitChars 10 (Nat.toDigits 10 n) 0 : ℤ) = n :=
      congrArg _ Nat.ofDigitChars_ten_toDigits
    rw [dumpsInt]
    unfold readInt
    split
    · rename_i heq
      rw [hds] at heq
      cases heq
      exact absurd hc (by decide)
    · exact hvalue
  | negSucc n =>
    refine (show _ = -(Nat.ofDigitChars 10 (Nat.toDigits 10 (n + 1)) 0 : ℤ) from rfl).trans ?_
    rw [Nat.ofDigitChars_ten_toDigits, Int.negSucc_eq]
    rfl

section Loads

variable (fl : FloatText)

theorem scanConstant_dumpsInt (n : ℤ) (u : List Char) :
    scanConstant fl (dumpsInt n ++ u) = none := by
  rw [scanConstant, List.findSome?_eq_none_iff]
  have hletter : ∀ d ∈ ['n', 't', 'f', 'N', 'I', '-'], d.isDigit = false :=
    forall_mem_of_all (by decide)
  have hne : ∀ {c : Char}, c.isDigit = true → ∀ d ∈ ['n', 't', 'f', 'N', 'I', '-'], ¬ d = c :=
    fun hc d hd => (ne_of_isDigit hc (hletter d hd)).symm
  cases n with
  | ofNat n =>
    obtain ⟨c, ds, hds, hc⟩ := exists_toDigits n
    rw [dumpsInt, hds]
    simp [constants, hne hc]
  | negSucc n =>
    obtain ⟨c, ds, hds, hc⟩ := exists_toDigits (n + 1)
    rw [dumpsInt, hds]
    simp [constants, hne hc]

/-- An integer is read as it was written. -/
theorem scanScalar_dumpsInt {n : ℤ} (hn : (dumpsInt n).countP Char.isDigit ≤ 4300)
    {u : List Char} (hu : Delimited u) :
    scanScalar fl (dumpsInt n ++ u) = .ok (.int n, u) := by
  rw [scanScalar, scanConstant_dumpsInt]
  dsimp only
  rw [scanNumber, scanNumeral_dumpsInt n hu]
  dsimp only
  rw [if_neg (by omega), readInt_dumpsInt]

theorem scanScalar_constant {v : Json} (hv : v = .null ∨ ∃ b, v = .bool b) (u : List Char) :
    scanScalar fl (dumps fl v ++ u) = .ok (v, u) := by
  rcases hv with rfl | ⟨b, rfl⟩
  · rw [dumps]
    rfl
  · cases b
    · rw [dumps]
      rfl
    · rw [dumps]
      rfl

/-- A text that does not begin with a quote or a bracket is read as a scalar. -/
theorem scanValue_scalar {t : List Char} (ht : ∀ c ∈ t.head?, c ≠ '"' ∧ c ≠ '[' ∧ c ≠ '{')
    (n : ℕ) : scanValue fl (n + 1) t = scanScalar fl t := by
  rw [scanValue.eq_def]
  dsimp only
  split
  · exact absurd rfl (ht _ rfl).1
  · exact absurd rfl (ht _ rfl).2.1
  · exact absurd rfl (ht _ rfl).2.2
  · rfl

/-! ### Values -/

theorem not_mark_of_isNumeral {c : Char} (h : isNumeral c = true) :
    c ∉ ['"', '[', '{', ']', '}', '\uFEFF'] ∧ isJsonSpace c = false := by
  constructor
  · intro hc
    have hall : ∀ c ∈ ['"', '[', '{', ']', '}', '\uFEFF'], ¬ isNumeral c = true :=
      forall_mem_of_all (by decide)
    exact hall c hc h
  · refine Bool.eq_false_iff.mpr fun hspace => ?_
    simp only [isJsonSpace, Bool.or_eq_true, decide_eq_true_eq] at hspace
    rcases hspace with ((rfl | rfl) | rfl) | rfl <;> exact absurd h (by decide)

theorem dumpsSpaced_scalar (space : List Char) {v : Json}
    (hscalar : v = .null ∨ (∃ b, v = .bool b) ∨ (∃ n, v = .int n) ∨ ∃ bits, v = .float bits) :
    dumpsSpaced fl space v = dumps fl v := by
  rcases hscalar with rfl | ⟨b, rfl⟩ | ⟨n, rfl⟩ | ⟨bits, rfl⟩ <;> simp [dumpsSpaced]

theorem dumpsSpaced_str (space : List Char) (s : String) :
    dumpsSpaced fl space (.str s) = dumpsString s := by
  rw [dumpsSpaced, dumps] <;> simp

mutual

/-- The text of `json.dumps` has a space behind the separators. -/
theorem dumpsSpaced_eq_dumps : (v : Json) → dumpsSpaced fl [' '] v = dumps fl v
  | .null => dumpsSpaced_scalar fl _ (Or.inl rfl)
  | .bool b => dumpsSpaced_scalar fl _ (Or.inr (Or.inl ⟨b, rfl⟩))
  | .int n => dumpsSpaced_scalar fl _ (Or.inr (Or.inr (Or.inl ⟨n, rfl⟩)))
  | .float bits => dumpsSpaced_scalar fl _ (Or.inr (Or.inr (Or.inr ⟨bits, rfl⟩)))
  | .str s => by rw [dumpsSpaced_str, dumps]
  | .arr items => by rw [dumpsSpaced, dumps, dumpsSpacedItems_eq_dumpsItems true items]
  | .obj fields => by rw [dumpsSpaced, dumps, dumpsSpacedFields_eq_dumpsFields true fields]

theorem dumpsSpacedItems_eq_dumpsItems (first : Bool) : (items : List Json) →
    dumpsSpacedItems fl [' '] first items = dumpsItems fl first items
  | [] => rfl
  | v :: items => by
    rw [dumpsSpacedItems, dumpsItems, dumpsSpaced_eq_dumps v,
      dumpsSpacedItems_eq_dumpsItems false items]

theorem dumpsSpacedFields_eq_dumpsFields (first : Bool) : (fields : List (String × Json)) →
    dumpsSpacedFields fl [' '] first fields = dumpsFields fl first fields
  | [] => rfl
  | (k, v) :: fields => by
    rw [dumpsSpacedFields, dumpsFields, dumpsSpaced_eq_dumps v,
      dumpsSpacedFields_eq_dumpsFields false fields]
    simp

end

theorem dumpsWith_scalar (esc : Char → List Char) (space : List Char) {v : Json}
    (hscalar : v = .null ∨ (∃ b, v = .bool b) ∨ (∃ n, v = .int n) ∨ ∃ bits, v = .float bits) :
    dumpsWith fl esc space v = dumps fl v := by
  rcases hscalar with rfl | ⟨b, rfl⟩ | ⟨n, rfl⟩ | ⟨bits, rfl⟩ <;> simp [dumpsWith]

theorem dumpsStringWith_escape (s : String) : dumpsStringWith escape s = dumpsString s := rfl

mutual

theorem dumpsWith_escape (space : List Char) : (v : Json) →
    dumpsWith fl escape space v = dumpsSpaced fl space v
  | .null | .bool _ | .int _ | .float _ => by
    rw [dumpsWith_scalar _ _ _ (by simp), dumpsSpaced_scalar _ _ (by simp)]
  | .str s => by rw [dumpsWith, dumpsStringWith_escape, dumpsSpaced_str]
  | .arr items => by rw [dumpsWith, dumpsSpaced, dumpsItemsWith_escape space true items]
  | .obj fields => by rw [dumpsWith, dumpsSpaced, dumpsFieldsWith_escape space true fields]

theorem dumpsItemsWith_escape (space : List Char) (first : Bool) : (items : List Json) →
    dumpsItemsWith fl escape space first items = dumpsSpacedItems fl space first items
  | [] => rfl
  | v :: items => by
    rw [dumpsItemsWith, dumpsSpacedItems, dumpsWith_escape space v,
      dumpsItemsWith_escape space false items]

theorem dumpsFieldsWith_escape (space : List Char) (first : Bool) :
    (fields : List (String × Json)) →
    dumpsFieldsWith fl escape space first fields = dumpsSpacedFields fl space first fields
  | [] => rfl
  | (k, v) :: fields => by
    rw [dumpsFieldsWith, dumpsSpacedFields, dumpsWith_escape space v, dumpsStringWith_escape,
      dumpsFieldsWith_escape space false fields]

end

/-- The text of a number or a constant begins with a character of numerals. -/
theorem exists_dumps_scalar {v : Json} (hv : v.Loadable fl)
    (hscalar : v = .null ∨ (∃ b, v = .bool b) ∨ (∃ n, v = .int n) ∨ ∃ bits, v = .float bits) :
    ∃ c t, dumps fl v = c :: t ∧ isNumeral c = true := by
  rcases hscalar with rfl | ⟨b, rfl⟩ | ⟨n, rfl⟩ | ⟨bits, rfl⟩
  · exact ⟨'n', _, by rw [dumps]; rfl, by decide⟩
  · cases b
    · exact ⟨'f', _, by rw [dumps]; rfl, by decide⟩
    · exact ⟨'t', _, by rw [dumps]; rfl, by decide⟩
  · have hne : dumpsInt n ≠ [] := by
      cases n with
      | ofNat n => exact Nat.toDigits_ne_nil
      | negSucc n => simp [dumpsInt]
    obtain ⟨c, t, hct⟩ := List.exists_cons_of_ne_nil hne
    refine ⟨c, t, by rw [dumps, hct], isNumeral_of_mem_dumpsInt n c ?_⟩
    rw [hct]
    exact List.mem_cons_self
  · have hne : fl.text bits ≠ [] := by
      intro hnil
      have hread := (show fl.Survives bits from hv) [] delimited_nil
      rw [hnil] at hread
      cases hread
    obtain ⟨c, t, hct⟩ := List.exists_cons_of_ne_nil hne
    refine ⟨c, t, by rw [dumps, hct], fl.isNumeral_text bits c ?_⟩
    rw [hct]
    exact List.mem_cons_self

/-- The text of a value begins neither with white space nor with a closing bracket or a byte order
mark. -/
theorem exists_dumpsWith (esc : Char → List Char) (space : List Char) {v : Json}
    (hv : v.Loadable fl) :
    ∃ c t, dumpsWith fl esc space v = c :: t ∧ c ∉ [']', '}', '\uFEFF'] ∧
      isJsonSpace c = false := by
  have hscalar : (v = .null ∨ (∃ b, v = .bool b) ∨ (∃ n, v = .int n) ∨ ∃ bits, v = .float bits) →
      ∃ c t, dumpsWith fl esc space v = c :: t ∧ c ∉ [']', '}', '\uFEFF'] ∧
        isJsonSpace c = false := by
    intro h
    obtain ⟨c, t, hct, hc⟩ := exists_dumps_scalar fl hv h
    obtain ⟨hmark, hspace⟩ := not_mark_of_isNumeral hc
    refine ⟨c, t, ?_, fun hmem => hmark (by simp_all), hspace⟩
    rw [dumpsWith_scalar fl esc space h, hct]
  cases v with
  | null => exact hscalar (Or.inl rfl)
  | bool b => exact hscalar (Or.inr (Or.inl ⟨b, rfl⟩))
  | int n => exact hscalar (Or.inr (Or.inr (Or.inl ⟨n, rfl⟩)))
  | float bits => exact hscalar (Or.inr (Or.inr (Or.inr ⟨bits, rfl⟩)))
  | str s => exact ⟨'"', _, by rw [dumpsWith, dumpsStringWith], by decide, by decide⟩
  | arr items => exact ⟨'[', _, by rw [dumpsWith], by decide, by decide⟩
  | obj fields => exact ⟨'{', _, by rw [dumpsWith], by decide, by decide⟩

theorem skipSpace_cons {c : Char} (hc : isJsonSpace c = false) (t : List Char) :
    skipSpace (c :: t) = c :: t :=
  List.dropWhile_cons_of_neg (by simp [hc])

/-- White space behind a separator and before a value is skipped. -/
theorem skipSpace_append_of_cons {space : List Char} (hspace : ∀ c ∈ space, isJsonSpace c = true)
    {c : Char} (hc : isJsonSpace c = false) (t : List Char) :
    skipSpace (space ++ c :: t) = c :: t := by
  rw [skipSpace, List.dropWhile_append_of_pos hspace]
  exact skipSpace_cons hc t

/-- A scalar is read as it was written. -/
theorem scanValue_dumpsWith_scalar {esc : Char → List Char} {space : List Char} {v : Json}
    (hv : v.Loadable fl)
    (hscalar : v = .null ∨ (∃ b, v = .bool b) ∨ (∃ n, v = .int n) ∨ ∃ bits, v = .float bits)
    {n : ℕ} (hn : 2 * (dumpsWith fl esc space v).length ≤ n) {u : List Char} (hu : Delimited u) :
    scanValue fl n (dumpsWith fl esc space v ++ u) = .ok (v, u) := by
  rw [dumpsWith_scalar fl esc space hscalar] at hn ⊢
  obtain ⟨c, t, hct, hc⟩ := exists_dumps_scalar fl hv hscalar
  obtain ⟨hmark, -⟩ := not_mark_of_isNumeral hc
  obtain ⟨n, rfl⟩ : ∃ m, n = m + 1 := ⟨n - 1, by rw [hct, List.length_cons] at hn; omega⟩
  rw [scanValue_scalar]
  · rcases hscalar with rfl | ⟨b, rfl⟩ | ⟨m, rfl⟩ | ⟨bits, rfl⟩
    · exact scanScalar_constant fl (Or.inl rfl) u
    · exact scanScalar_constant fl (Or.inr ⟨b, rfl⟩) u
    · rw [dumps]
      exact scanScalar_dumpsInt fl hv hu
    · rw [dumps]
      exact (show fl.Survives bits from hv) u hu
  · rw [hct]
    intro d hd
    obtain rfl : c = d := by simpa using hd
    simp only [List.mem_cons, List.not_mem_nil, or_false, not_or] at hmark
    exact ⟨hmark.1, hmark.2.1, hmark.2.2.1⟩

theorem insert_of_not_mem {o : JsonObject} {k : String} (hk : k ∉ o.map Prod.fst) (v : Json) :
    o.insert k v = o ++ [(k, v)] := if_neg hk

theorem not_mem_of_nodup {o fields : JsonObject} {k : String} {v : Json}
    (h : ((o ++ (k, v) :: fields).map Prod.fst).Nodup) : k ∉ o.map Prod.fst := by
  rw [List.map_append, List.map_cons] at h
  exact fun hk => (List.nodup_append.mp h).2.2 k hk k List.mem_cons_self rfl

theorem dumpsItemsWith_false_cons (esc : Char → List Char) (space : List Char) (v : Json)
    (items : List Json) :
    dumpsItemsWith fl esc space false (v :: items) =
      ',' :: space ++ dumpsItemsWith fl esc space true (v :: items) := by
  simp [dumpsItemsWith]

theorem dumpsFieldsWith_false_cons (esc : Char → List Char) (space : List Char) (k : String)
    (v : Json) (fields : List (String × Json)) :
    dumpsFieldsWith fl esc space false ((k, v) :: fields) =
      ',' :: space ++ dumpsFieldsWith fl esc space true ((k, v) :: fields) := by
  simp [dumpsFieldsWith]

theorem Escaping.length_le_flatMap {esc : Char → List Char} (hesc : Escaping esc) (t : List Char) :
    t.length ≤ (t.flatMap esc).length := by
  induction t with
  | nil => simp
  | cons c t ih =>
    have hc : esc c ≠ [] := fun hnil => hesc.append_ne c ['"'] [] (by rw [hnil, List.nil_append])
    have hlength := List.length_pos_iff.mpr hc
    rw [List.flatMap_cons, List.length_append, List.length_cons]
    omega

/-- The rest of the text of a string is read as the string. -/
theorem Escaping.scanString_dumpsStringWith {esc : Char → List Char} (hesc : Escaping esc)
    (start : List Char) (s : String) (u : List Char) :
    scanString start (s.toList.flatMap esc ++ '"' :: u).length
      (s.toList.flatMap esc ++ '"' :: u) = .ok (s.toList, u) := by
  refine hesc.scanString_flatMap start s.toList u _ ?_
  have hlength := hesc.length_le_flatMap s.toList
  rw [List.length_append]
  omega

theorem dumpsStringWith_append (esc : Char → List Char) (s : String) (u : List Char) :
    dumpsStringWith esc s ++ u = '"' :: (s.toList.flatMap esc ++ '"' :: u) := by
  simp [dumpsStringWith]

section Steps

variable {fl} {n : ℕ} {t u w : List Char} {v : Json}

theorem scanValue_array {items : List Json} (hw : skipSpace t = w) (hne : ∀ w', w ≠ ']' :: w')
    (hitems : scanItems fl n w = .ok (items, u)) :
    scanValue fl (n + 1) ('[' :: t) = .ok (.arr items, u) := by
  rewrite [scanValue, hw]
  split
  · exact absurd rfl (hne _)
  · rewrite [hitems]
    rfl

theorem scanValue_object {fields : JsonObject} (hw : skipSpace t = w)
    (hne : ∀ w', w ≠ '}' :: w') (hfields : scanFields fl n [] w = .ok (fields, u)) :
    scanValue fl (n + 1) ('{' :: t) = .ok (.obj fields, u) := by
  rewrite [scanValue, hw]
  split
  · exact absurd rfl (hne _)
  · rewrite [hfields]
    rfl

theorem scanItems_last (hv : scanValue fl n t = .ok (v, ']' :: u)) :
    scanItems fl (n + 1) t = .ok ([v], u) := by
  rw [scanItems, hv]
  rfl

theorem scanItems_cons {items : List Json} (hv : scanValue fl n t = .ok (v, ',' :: w))
    (hitems : scanItems fl n (skipSpace w) = .ok (items, u)) :
    scanItems fl (n + 1) t = .ok (v :: items, u) := by
  rewrite [scanItems, hv]
  have hcomma : skipSpace (',' :: w) = ',' :: w := rfl
  simp only [Bind.bind, Except.bind, hcomma]
  rw [hitems]

variable {o : JsonObject} {k : List Char}

theorem scanFields_last (hkey : scanString ('"' :: t) t.length t = .ok (k, ':' :: w))
    (hv : scanValue fl n (skipSpace w) = .ok (v, '}' :: u)) :
    scanFields fl (n + 1) o ('"' :: t) = .ok (o.insert (String.ofList k) v, u) := by
  have hcolon : skipSpace (':' :: w) = ':' :: w := rfl
  have hend : skipSpace ('}' :: u) = '}' :: u := rfl
  rw [scanFields]
  simp only [hkey, Bind.bind, Except.bind, hcolon, hv, hend]

theorem scanFields_cons {w' : List Char}
    (hkey : scanString ('"' :: t) t.length t = .ok (k, ':' :: w))
    (hv : scanValue fl n (skipSpace w) = .ok (v, ',' :: w')) :
    scanFields fl (n + 1) o ('"' :: t) =
      scanFields fl n (o.insert (String.ofList k) v) (skipSpace w') := by
  have hcolon : skipSpace (':' :: w) = ':' :: w := rfl
  have hcomma : skipSpace (',' :: w') = ',' :: w' := rfl
  rw [scanFields]
  simp only [hkey, Bind.bind, Except.bind, hcolon, hv, hcomma]

end Steps

section Spaced

variable {esc : Char → List Char} {space : List Char}

/-- The white space before a value is skipped. -/
theorem skipSpace_dumpsWith (hspaces : ∀ c ∈ space, isJsonSpace c = true) {v : Json}
    (hv : v.Loadable fl) (u : List Char) :
    skipSpace (space ++ (dumpsWith fl esc space v ++ u)) = dumpsWith fl esc space v ++ u := by
  obtain ⟨c, t, hct, -, hc⟩ := exists_dumpsWith fl esc space hv
  rw [hct, List.cons_append, skipSpace_append_of_cons hspaces hc]

mutual

/-- A value is read as it was written. -/
theorem scanValue_dumpsWith (hesc : Escaping esc)
    (hspaces : ∀ c ∈ space, isJsonSpace c = true) :
    (v : Json) → v.Loadable fl → (n : ℕ) →
    2 * (dumpsWith fl esc space v).length ≤ n → (u : List Char) → Delimited u →
    scanValue fl n (dumpsWith fl esc space v ++ u) = .ok (v, u)
  | .null, hv, _, hn, _, hu => scanValue_dumpsWith_scalar fl hv (Or.inl rfl) hn hu
  | .bool b, hv, _, hn, _, hu => scanValue_dumpsWith_scalar fl hv (Or.inr (Or.inl ⟨b, rfl⟩)) hn hu
  | .int n, hv, _, hn, _, hu =>
    scanValue_dumpsWith_scalar fl hv (Or.inr (Or.inr (Or.inl ⟨n, rfl⟩))) hn hu
  | .float bits, hv, _, hn, _, hu =>
    scanValue_dumpsWith_scalar fl hv (Or.inr (Or.inr (Or.inr ⟨bits, rfl⟩))) hn hu
  | .str s, _, n, hn, u, _ => by
    rw [dumpsWith] at hn ⊢
    obtain ⟨n, rfl⟩ : ∃ m, n = m + 1 := ⟨n - 1, by rw [dumpsStringWith] at hn; simp at hn; omega⟩
    rw [dumpsStringWith_append, scanValue.eq_def]
    simp only [hesc.scanString_dumpsStringWith, bind, Except.bind, String.ofList_toList]
  | .arr [], _, n, hn, u, _ => by
    obtain ⟨n, rfl⟩ : ∃ m, n = m + 1 := ⟨n - 1, by rw [dumpsWith] at hn; simp at hn; omega⟩
    rw [dumpsWith]
    rfl
  | .arr (v :: items), hv, n, hn, u, _ => by
    rw [dumpsWith, List.length_cons, List.length_append, List.length_singleton] at hn
    obtain ⟨n, rfl⟩ : ∃ m, n = m + 1 := ⟨n - 1, by omega⟩
    have hitems := scanItems_dumpsWith hesc hspaces (v :: items) (by simp) hv n (by omega) u
    obtain ⟨c, t, hct, hmark, hspace⟩ := exists_dumpsWith fl esc space hv.1
    have hfirst : dumpsItemsWith fl esc space true (v :: items) ++ ']' :: u =
        c :: (t ++ dumpsItemsWith fl esc space false items ++ ']' :: u) := by
      simp [dumpsItemsWith, hct]
    rw [dumpsWith, List.cons_append, List.append_assoc, List.singleton_append]
    refine scanValue_array ?_ ?_ hitems
    · rw [hfirst, skipSpace_cons hspace]
    · intro w' hw'
      rw [hfirst] at hw'
      cases hw'
      exact hmark (by decide)
  | .obj fields, hv, n, hn, u, _ => scanValue_dumpsWith_obj hesc hspaces fields hv n hn u

/-- An object is read as it was written, whatever is behind it. -/
theorem scanValue_dumpsWith_obj (hesc : Escaping esc)
    (hspaces : ∀ c ∈ space, isJsonSpace c = true) :
    (fields : List (String × Json)) →
    (Json.obj fields).Loadable fl → (n : ℕ) →
    2 * (dumpsWith fl esc space (.obj fields)).length ≤ n → (u : List Char) →
    scanValue fl n (dumpsWith fl esc space (.obj fields) ++ u) = .ok (.obj fields, u)
  | [], hv, n, hn, u => by
    obtain ⟨n, rfl⟩ : ∃ m, n = m + 1 := ⟨n - 1, by rw [dumpsWith] at hn; simp at hn; omega⟩
    rw [dumpsWith]
    rfl
  | (k, v) :: fields, hv, n, hn, u => by
    rw [dumpsWith, List.length_cons, List.length_append, List.length_singleton] at hn
    obtain ⟨n, rfl⟩ : ∃ m, n = m + 1 := ⟨n - 1, by omega⟩
    have hfields := scanFields_dumpsWith hesc hspaces ((k, v) :: fields) (by simp) hv.2 [] hv.1 n
      (by omega) u
    have hfirst : ∃ t,
        dumpsFieldsWith fl esc space true ((k, v) :: fields) ++ '}' :: u = '"' :: t := by
      rw [dumpsFieldsWith, if_pos rfl, List.nil_append, dumpsStringWith]
      exact ⟨_, rfl⟩
    obtain ⟨t, ht⟩ := hfirst
    rw [dumpsWith, List.cons_append, List.append_assoc, List.singleton_append]
    refine scanValue_object ?_ ?_ hfields
    · rw [ht]
      rfl
    · intro w' hw'
      rw [ht] at hw'
      cases hw'

theorem scanItems_dumpsWith (hesc : Escaping esc)
    (hspaces : ∀ c ∈ space, isJsonSpace c = true) :
    (items : List Json) → items ≠ [] → LoadableItems fl items →
    (n : ℕ) → 2 * (dumpsItemsWith fl esc space true items).length + 1 ≤ n → (u : List Char) →
    scanItems fl n (dumpsItemsWith fl esc space true items ++ ']' :: u) = .ok (items, u)
  | [], hne, _, _, _, _ => absurd rfl hne
  | [v], _, hv, n, hn, u => by
    obtain ⟨n, rfl⟩ : ∃ m, n = m + 1 := ⟨n - 1, by omega⟩
    rw [dumpsItemsWith, dumpsItemsWith, if_pos rfl, List.nil_append, List.append_nil] at hn ⊢
    exact scanItems_last
      (scanValue_dumpsWith hesc hspaces v hv.1 n (by omega) _ (delimited_cons (by decide) u))
  | v :: w :: items, _, hv, n, hn, u => by
    obtain ⟨n, rfl⟩ : ∃ m, n = m + 1 := ⟨n - 1, by omega⟩
    rw [dumpsItemsWith, dumpsItemsWith_false_cons, if_pos rfl, List.nil_append] at hn ⊢
    rw [List.length_append, List.length_append, List.length_cons] at hn
    have hitems := scanItems_dumpsWith hesc hspaces (w :: items) (by simp) hv.2 n (by omega) u
    rw [List.append_assoc, List.cons_append, List.cons_append]
    refine scanItems_cons (scanValue_dumpsWith hesc hspaces v hv.1 n (by omega) _
      (delimited_cons (by decide) _)) ?_
    obtain ⟨c, t, hct, -, hspace⟩ := exists_dumpsWith fl esc space hv.2.1
    have hnext : skipSpace (space ++ dumpsItemsWith fl esc space true (w :: items) ++ ']' :: u) =
        dumpsItemsWith fl esc space true (w :: items) ++ ']' :: u := by
      have hfirst : dumpsItemsWith fl esc space true (w :: items) ++ ']' :: u =
          c :: (t ++ dumpsItemsWith fl esc space false items ++ ']' :: u) := by
        simp [dumpsItemsWith, hct]
      rw [List.append_assoc, hfirst]
      exact skipSpace_append_of_cons hspaces hspace _
    rw [hnext]
    exact hitems

theorem scanFields_dumpsWith (hesc : Escaping esc)
    (hspaces : ∀ c ∈ space, isJsonSpace c = true) :
    (fields : List (String × Json)) → fields ≠ [] →
    LoadableFields fl fields → (o : JsonObject) → ((o ++ fields).map Prod.fst).Nodup → (n : ℕ) →
    2 * (dumpsFieldsWith fl esc space true fields).length + 1 ≤ n → (u : List Char) →
    scanFields fl n o (dumpsFieldsWith fl esc space true fields ++ '}' :: u) = .ok (o ++ fields, u)
  | [], hne, _, _, _, _, _, _ => absurd rfl hne
  | [(k, v)], _, hv, o, ho, n, hn, u => by
    obtain ⟨n, rfl⟩ : ∃ m, n = m + 1 := ⟨n - 1, by omega⟩
    rw [dumpsFieldsWith, dumpsFieldsWith, if_pos rfl, List.nil_append, List.append_nil] at hn ⊢
    simp only [List.length_append, List.length_cons] at hn
    simp only [List.append_assoc, dumpsStringWith_append, List.cons_append]
    have hvalue : scanValue fl n (skipSpace (space ++ (dumpsWith fl esc space v ++ '}' :: u))) =
        .ok (v, '}' :: u) := by
      rw [skipSpace_dumpsWith fl hspaces hv.1]
      exact scanValue_dumpsWith hesc hspaces v hv.1 n (by omega) _ (delimited_cons (by decide) u)
    rw [scanFields_last (hesc.scanString_dumpsStringWith _ k _) hvalue, String.ofList_toList,
      insert_of_not_mem (not_mem_of_nodup ho)]
  | (k, v) :: (l, w) :: fields, _, hv, o, ho, n, hn, u => by
    obtain ⟨n, rfl⟩ : ∃ m, n = m + 1 := ⟨n - 1, by omega⟩
    rw [dumpsFieldsWith, dumpsFieldsWith_false_cons, if_pos rfl, List.nil_append] at hn ⊢
    simp only [List.length_append, List.length_cons] at hn
    have ho' : ((o ++ [(k, v)] ++ (l, w) :: fields).map Prod.fst).Nodup := by
      rwa [List.append_assoc, List.singleton_append]
    have hfields := scanFields_dumpsWith hesc hspaces ((l, w) :: fields) (by simp) hv.2
      (o ++ [(k, v)]) ho' n (by omega) u
    have hnext : skipSpace (space ++
        (dumpsFieldsWith fl esc space true ((l, w) :: fields) ++ '}' :: u)) =
        dumpsFieldsWith fl esc space true ((l, w) :: fields) ++ '}' :: u := by
      rw [dumpsFieldsWith, if_pos rfl, List.nil_append, dumpsStringWith]
      exact skipSpace_append_of_cons hspaces (by decide) _
    simp only [List.append_assoc, dumpsStringWith_append, List.cons_append]
    have hvalue : scanValue fl n (skipSpace (space ++ (dumpsWith fl esc space v ++ ',' :: (space ++
        (dumpsFieldsWith fl esc space true ((l, w) :: fields) ++ '}' :: u))))) =
          .ok (v, ',' :: (space ++
            (dumpsFieldsWith fl esc space true ((l, w) :: fields) ++ '}' :: u))) := by
      rw [skipSpace_dumpsWith fl hspaces hv.1]
      exact scanValue_dumpsWith hesc hspaces v hv.1 n (by omega) _ (delimited_cons (by decide) _)
    rw [scanFields_cons (hesc.scanString_dumpsStringWith _ k _) hvalue, String.ofList_toList,
      insert_of_not_mem (not_mem_of_nodup ho), hnext, hfields, List.append_assoc,
      List.singleton_append]

end

/-- `json.loads` is the inverse of `json.dumps`, with any white space behind the separators and
whatever escapes there are in strings. -/
theorem loads_dumpsWith (hesc : Escaping esc) (hspaces : ∀ c ∈ space, isJsonSpace c = true)
    {v : Json} (hv : v.Loadable fl) :
    loads fl (dumpsWith fl esc space v) = .ok v := by
  obtain ⟨c, t, hct, hmark, hspace⟩ := exists_dumpsWith fl esc space hv
  have hstart : skipSpace (dumpsWith fl esc space v) = dumpsWith fl esc space v := by
    rw [hct, skipSpace_cons hspace]
  have hscan := scanValue_dumpsWith fl hesc hspaces v hv (2 * (dumpsWith fl esc space v).length + 1)
    (by omega) [] delimited_nil
  rw [List.append_nil] at hscan
  have hbom : ∀ t, dumpsWith fl esc space v ≠ '\uFEFF' :: t := by
    intro t' ht'
    rw [hct] at ht'
    exact hmark (by simp [(List.cons.inj ht').1])
  unfold loads
  split
  · rename_i heq
    exact absurd heq (hbom _)
  · simp only [hstart, hscan, bind, Except.bind]
    rfl

end Spaced

/-- `json.loads` is the inverse of `json.dumps` with any white space behind the separators. -/
theorem loads_dumpsSpaced {space : List Char} (hspaces : ∀ c ∈ space, isJsonSpace c = true)
    {v : Json} (hv : v.Loadable fl) : loads fl (dumpsSpaced fl space v) = .ok v := by
  rw [← dumpsWith_escape]
  exact loads_dumpsWith fl escaping_escape hspaces hv

/-- `json.loads` is the inverse of `json.dumps`. -/
theorem loads_dumps {v : Json} (hv : v.Loadable fl) : loads fl (dumps fl v) = .ok v := by
  rw [← dumpsSpaced_eq_dumps]
  exact loads_dumpsSpaced fl (forall_mem_of_all (by decide)) hv

end Loads

end OpenRath
