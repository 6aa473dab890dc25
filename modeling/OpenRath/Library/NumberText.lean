import Mathlib.Data.List.DropRight
import Mathlib.Data.Nat.Digits.Defs
import OpenRath.Library.Values

/-!
# Numbers in texts

`int` of a text, in decimal and in hexadecimal, and `UUID` of a text. The decimal digits are those
of Unicode, whose table depends on the version of the interpreter and agrees with ASCII.

## Main definitions

* `Decimals`: the table of the decimal digits.
* `Decimals.int`, `Decimals.intHex`: `int` of a text.
* `UUID.ofText`: `UUID` of a text.

## Main results

* `UUID.ofText_str`: the canonical text of a UUID is read as the UUID.
-/

namespace OpenRath

/-- The decimal digits of Unicode. -/
structure Decimals where
  /-- `unicodedata.decimal`. -/
  decimal : Char → Option ℕ
  decimal_ascii : ∀ c : Char, c.toNat < 128 →
    decimal c = if 48 ≤ c.toNat ∧ c.toNat ≤ 57 then some (c.toNat - 48) else none

/-- The white space that `int` allows around a number; it is less of ASCII than that of `strip`. -/
def isIntSpace (c : Char) : Bool :=
  if c.toNat < 127 then (9 ≤ c.toNat && c.toNat ≤ 13) || c.toNat = 32 else isSpace c

namespace Decimals

variable (t : Decimals)

/-! ### Digits -/

/-- The value of a character as a digit. -/
def digit (c : Char) : Option ℕ :=
  match t.decimal c with
  | some d => some d
  | none =>
    if 97 ≤ c.toNat ∧ c.toNat ≤ 122 then some (c.toNat - 87)
    else if 65 ≤ c.toNat ∧ c.toNat ≤ 90 then some (c.toNat - 55) else none

/-- The digits of a number in a base, which single underscores may separate. -/
def digits (base : ℕ) (cs : List Char) : Option (List ℕ) :=
  let groups := cs.splitOn '_'
  if groups.any List.isEmpty then none
  else groups.flatten.mapM fun c => (t.digit c).bind fun d => if d < base then some d else none

/-- A number with a sign and white space around it. -/
def signed (read : List Char → Option ℕ) (text : List Char) : Option ℤ :=
  match (text.dropWhile isIntSpace).rdropWhile isIntSpace with
  | '+' :: cs => (read cs).map fun n => (n : ℤ)
  | '-' :: cs => (read cs).map fun n => -(n : ℤ)
  | cs => (read cs).map fun n => (n : ℤ)

/-- A number without sign. The interpreter limits the number of its digits. -/
def nat (cs : List Char) : Option ℕ := do
  let ds ← t.digits 10 cs
  if ds.length ≤ 4300 then some (Nat.ofDigits 10 ds.reverse) else none

/-- A hexadecimal number without the `0x` that may precede it. -/
def withoutBase (cs : List Char) : List Char :=
  if "0x".toList <+: cs ∨ "0X".toList <+: cs then
    match cs.drop 2 with
    | '_' :: rest => rest
    | rest => rest
  else cs

/-- A hexadecimal number without sign. -/
def natHex (cs : List Char) : Option ℕ :=
  (t.digits 16 (withoutBase cs)).map fun ds => Nat.ofDigits 16 ds.reverse

/-- `int` of a text, without its `ValueError`. -/
def int (text : String) : Option ℤ := signed t.nat text.toList

/-- `int` of a text in base 16, without its `ValueError`. -/
def intHex (text : List Char) : Option ℤ := signed t.natHex text

theorem signed_of_no_space {read : List Char → Option ℕ} {text : List Char}
    (hspace : ∀ c ∈ text, isIntSpace c = false) (hsign : ∀ c ∈ text, c ≠ '+' ∧ c ≠ '-') :
    signed read text = (read text).map fun n => (n : ℤ) := by
  have hstart : text.dropWhile isIntSpace = text :=
    List.dropWhile_eq_self_iff.mpr fun h => by simp [hspace]
  have hend : text.rdropWhile isIntSpace = text :=
    List.rdropWhile_eq_self_iff.mpr fun h => by simp [hspace]
  rw [signed, hstart, hend]
  rcases text with _ | ⟨c, cs⟩
  · rfl
  · obtain ⟨hplus, hminus⟩ := hsign c List.mem_cons_self
    split
    · rename_i heq
      exact absurd (List.cons.inj heq).1 hplus
    · rename_i heq
      exact absurd (List.cons.inj heq).1 hminus
    · rfl

@[simp] theorem int_zero : t.int "0" = some 0 := by
  have hgroups : ['0'].splitOn '_' = [['0']] := by decide
  have hdigit : t.digit '0' = some 0 := by
    rw [digit, t.decimal_ascii '0' (by decide)]
    rfl
  have hnat : t.nat ['0'] = some 0 := by
    simp [nat, digits, hgroups, hdigit]
  rw [int, signed_of_no_space (forall_mem_of_all (by decide)) (forall_mem_of_all (by decide))]
  simp [hnat]

/-- There is no number in the empty text. -/
@[simp] theorem int_empty : t.int "" = none := by
  have hgroups : ([] : List Char).splitOn '_' = [[]] := by decide
  have hnat : t.nat [] = none := by
    simp [nat, digits, hgroups]
  rw [int, signed_of_no_space (forall_mem_of_all (by decide)) (forall_mem_of_all (by decide))]
  simp [hnat]

end Decimals

/-! ### Identifiers -/

/-- The text without the occurrences of a pattern, after `k` more characters of one of them. -/
def erasing (p : List Char) : ℕ → List Char → List Char
  | _, [] => []
  | k + 1, _ :: cs => erasing p k cs
  | 0, c :: cs => if p <+: c :: cs then erasing p (p.length - 1) cs else c :: erasing p 0 cs

/-- A text without the first character of a pattern is left alone. -/
theorem erasing_of_notMem {d : Char} {p cs : List Char} (h : d ∉ cs) :
    erasing (d :: p) 0 cs = cs := by
  induction cs with
  | nil => rfl
  | cons c cs ih =>
    have hne : ¬ d :: p <+: c :: cs := by
      rintro ⟨rest, hrest⟩
      exact h ((List.cons.inj hrest).1 ▸ List.mem_cons_self)
    rw [erasing, if_neg hne, ih fun hmem => h (List.mem_cons_of_mem c hmem)]

namespace UUID

variable (t : Decimals)

/-- The hexadecimal digits in a text for a UUID. -/
def hexText (text : List Char) : List Char :=
  let bare := erasing "uuid:".toList 0 (erasing "urn:".toList 0 text)
  ((bare.dropWhile fun c => c = '\x7b' ∨ c = '\x7d').rdropWhile fun c =>
    c = '\x7b' ∨ c = '\x7d').filter fun c => c ≠ '-'

/-- `UUID` of a text, without its `ValueError`. -/
def ofText (text : String) : Option UUID :=
  let hex := hexText text.toList
  if hex.length = 32 then
    (t.intHex hex).bind fun n => if h : n.toNat < 2 ^ 128 then some ⟨⟨n.toNat, h⟩⟩ else none
  else none

/-! ### Reading the canonical text -/

@[simp] theorem length_hexDigits (w n : ℕ) : (hexDigits w n).length = w := by
  induction w generalizing n with
  | zero => rfl
  | succ w ih => rw [hexDigits, List.length_append, ih, List.length_singleton]

/-- The digits of the texts of UUIDs. -/
theorem mem_hexDigits {w n : ℕ} {c : Char} (h : c ∈ hexDigits w n) :
    c ∈ "0123456789abcdef".toList := by
  have hchar : ∀ d < 16, Nat.digitChar d ∈ "0123456789abcdef".toList := by decide
  induction w generalizing n with
  | zero => cases h
  | succ w ih =>
    rw [hexDigits, List.mem_append, List.mem_singleton] at h
    rcases h with h | rfl
    · exact ih h
    · exact hchar _ (Nat.mod_lt n (by omega))

/-- A property that all hexadecimal digits have. -/
theorem of_mem_hexDigits {p : Char → Prop} (hp : ∀ c ∈ "0123456789abcdef".toList, p c) {w n : ℕ}
    {c : Char} (h : c ∈ hexDigits w n) : p c := hp c (mem_hexDigits h)

theorem digit_digitChar {d : ℕ} (hd : d < 16) : t.digit (Nat.digitChar d) = some d := by
  have hascii : ∀ d < 16, (Nat.digitChar d).toNat < 128 := by decide
  have hvalue : ∀ d < 16, (if 48 ≤ (Nat.digitChar d).toNat ∧ (Nat.digitChar d).toNat ≤ 57 then
      some ((Nat.digitChar d).toNat - 48) else
        if 97 ≤ (Nat.digitChar d).toNat ∧ (Nat.digitChar d).toNat ≤ 122 then
          some ((Nat.digitChar d).toNat - 87) else none) = some d := by decide
  have h := hvalue d hd
  rw [Decimals.digit, t.decimal_ascii _ (hascii d hd)]
  split_ifs at h ⊢ <;> simp_all

/-- The digits of the text of a UUID make the number again. -/
theorem mapM_hexDigits (w n : ℕ) : ∃ ds, (hexDigits w n).mapM (fun c =>
    (t.digit c).bind fun d => if d < 16 then some d else none) = some ds ∧
    Nat.ofDigits 16 ds.reverse = n % 16 ^ w := by
  induction w generalizing n with
  | zero => exact ⟨[], rfl, by simp [Nat.mod_one]⟩
  | succ w ih =>
    obtain ⟨ds, hds, hvalue⟩ := ih (n / 16)
    have hlt : n % 16 < 16 := Nat.mod_lt n (by omega)
    refine ⟨ds ++ [n % 16], ?_, ?_⟩
    · rw [hexDigits, List.mapM_append, hds]
      simp [digit_digitChar t hlt, hlt]
    · rw [List.reverse_append, List.reverse_singleton, List.singleton_append, Nat.ofDigits_cons,
        hvalue, Nat.pow_succ', Nat.mod_mul]

theorem natHex_hexDigits {w : ℕ} (hw : 0 < w) (n : ℕ) :
    t.natHex (hexDigits w n) = some (n % 16 ^ w) := by
  have hno : ∀ c ∈ hexDigits w n, c ≠ 'x' ∧ c ≠ 'X' := fun c hc =>
    of_mem_hexDigits (p := fun c => c ≠ 'x' ∧ c ≠ 'X') (forall_mem_of_all (by decide)) hc
  have hgroups : (hexDigits w n).splitOn '_' = [hexDigits w n] := by
    refine List.splitOnP_eq_singleton fun c hc => ?_
    exact of_mem_hexDigits (p := fun c => (c == '_') = false) (forall_mem_of_all (by decide)) hc
  have hempty : (hexDigits w n).isEmpty = false := by
    rw [← Bool.not_eq_true, List.isEmpty_iff_length_eq_zero, length_hexDigits]
    omega
  obtain ⟨ds, hds, hvalue⟩ := mapM_hexDigits t w n
  have hdigits : t.digits 16 (hexDigits w n) = some ds := by
    rw [Decimals.digits, hgroups]
    simpa [hempty] using hds
  have hbody : Decimals.withoutBase (hexDigits w n) = hexDigits w n := by
    refine if_neg fun h => ?_
    rcases h with ⟨rest, hrest⟩ | ⟨rest, hrest⟩
    · exact (hno 'x' (by simp [← hrest])).1 rfl
    · exact (hno 'X' (by simp [← hrest])).2 rfl
  rw [Decimals.natHex, hbody, hdigits, Option.map_some, hvalue]

/-- The digits in the canonical text of a UUID. -/
theorem hexText_str (u : UUID) : hexText u.str.toList = hexDigits 32 u.int := by
  obtain ⟨ds, hds⟩ : ∃ ds, ds = hexDigits 32 u.int := ⟨_, rfl⟩
  have hstr : u.str.toList = ds.take 8 ++ '-' :: (ds.drop 8).take 4 ++ '-' :: (ds.drop 12).take 4 ++
      '-' :: (ds.drop 16).take 4 ++ '-' :: ds.drop 20 := by
    rw [hds, str]
    exact String.toList_ofList
  have hmem : ∀ {c : Char}, c ∈ u.str.toList → c = '-' ∨ c ∈ ds := by
    intro c hc
    rw [hstr] at hc
    simp only [List.mem_append, List.mem_cons] at hc
    rcases hc with (((h | h | h) | h | h) | h | h) | h | h
    all_goals first
      | exact Or.inl h
      | exact Or.inr (List.mem_of_mem_take h)
      | exact Or.inr (List.mem_of_mem_drop h)
      | exact Or.inr (List.mem_of_mem_drop (List.mem_of_mem_take h))
  have hchar : ∀ c ∈ u.str.toList, c ≠ 'u' ∧ c ≠ '\x7b' ∧ c ≠ '\x7d' := by
    intro c hc
    rcases hmem hc with rfl | h
    · decide
    · exact of_mem_hexDigits (p := fun c => c ≠ 'u' ∧ c ≠ '\x7b' ∧ c ≠ '\x7d')
        (forall_mem_of_all (by decide)) (hds ▸ h)
  have hu : 'u' ∉ u.str.toList := fun h => (hchar _ h).1 rfl
  have hdash : ∀ c ∈ ds, c ≠ '-' := fun c hc =>
    of_mem_hexDigits (p := fun c => c ≠ '-') (forall_mem_of_all (by decide)) (hds ▸ hc)
  have hfilter : ∀ l : List Char, (∀ c ∈ l, c ∈ ds) → l.filter (fun c => c ≠ '-') = l :=
    fun l hl => List.filter_eq_self.mpr fun c hc => by simpa using hdash c (hl c hc)
  have herase : erasing "uuid:".toList 0 (erasing "urn:".toList 0 u.str.toList) =
      u.str.toList := by
    rw [show erasing "urn:".toList 0 u.str.toList = u.str.toList from erasing_of_notMem hu]
    exact erasing_of_notMem hu
  have hstart : u.str.toList.dropWhile (fun c => c = '\x7b' ∨ c = '\x7d') = u.str.toList :=
    List.dropWhile_eq_self_iff.mpr fun h => by simp [hchar]
  have hend : u.str.toList.rdropWhile (fun c => c = '\x7b' ∨ c = '\x7d') = u.str.toList :=
    List.rdropWhile_eq_self_iff.mpr fun h => by simp [hchar]
  rw [hexText, herase, hstart, hend, hstr, ← hds]
  simp only [List.filter_append, List.filter_cons]
  rw [hfilter _ fun c hc => List.mem_of_mem_take hc,
    hfilter _ fun c hc => List.mem_of_mem_drop (List.mem_of_mem_take hc),
    hfilter _ fun c hc => List.mem_of_mem_drop (List.mem_of_mem_take hc),
    hfilter _ fun c hc => List.mem_of_mem_drop (List.mem_of_mem_take hc),
    hfilter _ fun c hc => List.mem_of_mem_drop hc]
  have hjoin : ∀ m k, (ds.drop m).take k ++ ds.drop (m + k) = ds.drop m := fun m k => by
    rw [← List.drop_drop, List.take_append_drop]
  simp only [ne_eq, not_true_eq_false, decide_false, Bool.false_eq_true, if_false,
    List.append_assoc]
  rw [hjoin 16 4, hjoin 12 4, hjoin 8 4, List.take_append_drop]

/-- The canonical text of a UUID is read as the UUID. -/
@[simp] theorem ofText_str (u : UUID) : ofText t u.str = some u := by
  have hspace : ∀ c ∈ hexDigits 32 u.int, isIntSpace c = false := fun c hc =>
    of_mem_hexDigits (p := fun c => isIntSpace c = false) (forall_mem_of_all (by decide)) hc
  have hsign : ∀ c ∈ hexDigits 32 u.int, c ≠ '+' ∧ c ≠ '-' := fun c hc =>
    of_mem_hexDigits (p := fun c => c ≠ '+' ∧ c ≠ '-') (forall_mem_of_all (by decide)) hc
  have hmod : (u.int : ℕ) % 16 ^ 32 = u.int := by
    rw [show (16 : ℕ) ^ 32 = 2 ^ 128 from by norm_num]
    exact Nat.mod_eq_of_lt u.int.isLt
  have hint : t.intHex (hexDigits 32 u.int) = some ((u.int : ℕ) : ℤ) := by
    rw [Decimals.intHex, Decimals.signed_of_no_space hspace hsign,
      natHex_hexDigits t (Nat.succ_pos 31), hmod]
    rfl
  rw [ofText, hexText_str, hint]
  simp only [length_hexDigits, if_true, Option.bind_some, Int.toNat_natCast]
  rw [dif_pos u.int.isLt]

theorem str_ne_empty (u : UUID) : u.str ≠ "" := by
  intro h
  have hlength := congrArg List.length (hexText_str u)
  rw [h, length_hexDigits] at hlength
  exact absurd hlength (by decide)

end UUID

namespace Sample

/-- The digits of ASCII. -/
def decimals : Decimals where
  decimal c := if 48 ≤ c.toNat ∧ c.toNat ≤ 57 then some (c.toNat - 48) else none
  decimal_ascii _ _ := rfl

end Sample

end OpenRath
