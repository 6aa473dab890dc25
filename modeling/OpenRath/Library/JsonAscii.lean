import OpenRath.Library.JsonSorted

/-!
# JSON texts of ASCII

The text that `json.dumps` writes without `ensure_ascii=False`: a character outside of ASCII is
written by its number, as one escape sequence or as two for a pair of surrogates.

## Main definitions

* `escapeAscii`, `dumpsAscii`, `dumpsAsciiSorted`.

## Main results

* `loads_dumpsAscii`, `loads_dumpsAsciiSorted`: the text is read as the value.
-/

namespace OpenRath

/-- The escape sequence of a code unit. -/
def unicodeEscape (n : ℕ) : List Char :=
  '\\' :: 'u' :: [Nat.digitChar (n / 4096), Nat.digitChar (n / 256 % 16),
    Nat.digitChar (n / 16 % 16), Nat.digitChar (n % 16)]

/-- The text of a character within a string of ASCII. -/
def escapeAscii (c : Char) : List Char :=
  if c.toNat < 0x7F then escape c
  else if c.toNat < 0x10000 then unicodeEscape c.toNat
  else unicodeEscape (0xD800 + (c.toNat - 0x10000) / 0x400) ++
    unicodeEscape (0xDC00 + (c.toNat - 0x10000) % 0x400)

section Dumps

variable (fl : FloatText) (space : List Char)

/-- `json.dumps(value, separators=("," + space, ":" + space))`. -/
def dumpsAscii (v : Json) : List Char := dumpsWith fl escapeAscii space v

/-- `json.dumps(value, sort_keys=True, separators=("," + space, ":" + space))`, without its
`ValueError`. -/
def dumpsAsciiSorted (v : Json) : Option (List Char) :=
  if v.isWritable then some (dumpsAscii fl space v.sortKeys) else none

end Dumps

theorem hex4?_unicodeEscape {n : ℕ} (hn : n < 0x10000) {u : List Char} (hu : u ≠ []) :
    hex4? ((unicodeEscape n).drop 2 ++ u) = some (n, u) := by
  obtain ⟨d, u, rfl⟩ := List.exists_cons_of_ne_nil hu
  show hex4? (Nat.digitChar (n / 4096) :: Nat.digitChar (n / 256 % 16) ::
    Nat.digitChar (n / 16 % 16) :: Nat.digitChar (n % 16) :: d :: u) = _
  simp only [hex4?, hexValue?_digitChar _ (show n / 4096 < 16 by omega),
    hexValue?_digitChar _ (show n / 256 % 16 < 16 by omega),
    hexValue?_digitChar _ (show n / 16 % 16 < 16 by omega),
    hexValue?_digitChar _ (show n % 16 < 16 by omega), Option.bind_eq_bind, Option.bind_some,
    Option.some.injEq, Prod.mk.injEq, and_true]
  omega

/-- A code unit that is no surrogate is read as the character. -/
theorem scanChar_unicodeEscape (start : List Char) {c : Char} (hc : c.toNat < 0x10000)
    {u : List Char} (hu : u ≠ []) : scanChar start (unicodeEscape c.toNat ++ u) = .ok (c, u) := by
  have hvalid : ¬ (0xD800 ≤ c.toNat ∧ c.toNat ≤ 0xDFFF) := by
    have hscalar := c.valid
    rw [UInt32.isValidChar, Nat.isValidChar] at hscalar
    rw [Char.toNat]
    omega
  refine (show _ = scanUnicode ((unicodeEscape c.toNat).drop 2 ++ u) from rfl).trans ?_
  rw [scanUnicode, hex4?_unicodeEscape hc hu]
  dsimp only
  rw [if_neg (by omega), if_neg (by omega), Char.ofNat_toNat]

theorem scanUnicode_pair {t v u : List Char} {high low : ℕ}
    (hhigh : hex4? t = some (high, '\\' :: 'u' :: v)) (hrange : 0xD800 ≤ high ∧ high ≤ 0xDBFF)
    (hlow : hex4? v = some (low, u)) (hrange' : 0xDC00 ≤ low ∧ low ≤ 0xDFFF) :
    scanUnicode t =
      .ok (Char.ofNat (0x10000 + (high - 0xD800) * 0x400 + (low - 0xDC00)), u) := by
  rw [scanUnicode, hhigh]
  simp [hrange, hlow, hrange']

/-- A pair of surrogates is read as one character. -/
theorem scanChar_pair (start : List Char) {high low : ℕ} (hrange : 0xD800 ≤ high ∧ high ≤ 0xDBFF)
    (hrange' : 0xDC00 ≤ low ∧ low ≤ 0xDFFF) {u : List Char} (hu : u ≠ []) :
    scanChar start (unicodeEscape high ++ (unicodeEscape low ++ u)) =
      .ok (Char.ofNat (0x10000 + (high - 0xD800) * 0x400 + (low - 0xDC00)), u) := by
  have hrest : hex4? ((unicodeEscape high).drop 2 ++ (unicodeEscape low ++ u)) =
      some (high, '\\' :: 'u' :: ((unicodeEscape low).drop 2 ++ u)) :=
    hex4?_unicodeEscape (by omega) (by simp [unicodeEscape])
  refine (show _ = scanUnicode ((unicodeEscape high).drop 2 ++ (unicodeEscape low ++ u))
    from rfl).trans ?_
  exact scanUnicode_pair hrest hrange (hex4?_unicodeEscape (by omega) hu) hrange'

theorem char_toNat_lt (c : Char) : c.toNat < 0x110000 := by
  have hscalar := c.valid
  rw [UInt32.isValidChar, Nat.isValidChar] at hscalar
  rw [Char.toNat]
  omega

/-- The surrogates of a character are read as the character. -/
theorem scanChar_surrogates (start : List Char) {c : Char} (hc : 0x10000 ≤ c.toNat)
    {u : List Char} (hu : u ≠ []) :
    scanChar start (unicodeEscape (0xD800 + (c.toNat - 0x10000) / 0x400) ++
      (unicodeEscape (0xDC00 + (c.toNat - 0x10000) % 0x400) ++ u)) = .ok (c, u) := by
  have hbound := char_toNat_lt c
  have hnat : 0x10000 + (0xD800 + (c.toNat - 0x10000) / 0x400 - 0xD800) * 0x400 +
      (0xDC00 + (c.toNat - 0x10000) % 0x400 - 0xDC00) = c.toNat := by omega
  rw [scanChar_pair start (by omega) (by omega) hu, hnat, Char.ofNat_toNat]

theorem escaping_escapeAscii : Escaping escapeAscii where
  scanChar_append start c u hu := by
    rw [escapeAscii]
    split_ifs with hascii hunit
    · exact scanChar_escape start c hu
    · exact scanChar_unicodeEscape start hunit hu
    · rw [List.append_assoc]
      exact scanChar_surrogates start (by omega) hu
  append_ne c u w := by
    rw [escapeAscii]
    split_ifs
    · exact escape_append_ne c u w
    · simp [unicodeEscape]
    · simp [unicodeEscape]

theorem writableFields_iff {fields : List (String × Json)} :
    writableFields fields = true ↔ ∀ f ∈ fields, f.2.isWritable = true := by
  induction fields with
  | nil => exact iff_of_true rfl fun _ h => absurd h List.not_mem_nil
  | cons field fields ih => rw [writableFields, Bool.and_eq_true, List.forall_mem_cons, ih]

mutual

/-- The order of keys does not matter to whether a value can be written. -/
theorem Json.isWritable_sortKeys : (v : Json) → v.isWritable = true → v.sortKeys.isWritable = true
  | .arr items, h => writableItems_sortItems items h
  | .obj fields, h => writableFields_iff.mpr (isWritable_of_mem_sortFields fields h)
  | .null, h | .bool _, h | .int _, h | .float _, h | .str _, h => h

theorem writableItems_sortItems : (items : List Json) → writableItems items = true →
    writableItems (sortItems items) = true
  | [], h => h
  | v :: items, h => by
    rw [writableItems, Bool.and_eq_true] at h
    rw [sortItems, writableItems, Json.isWritable_sortKeys v h.1, writableItems_sortItems items h.2,
      Bool.and_self]

theorem isWritable_of_mem_sortFields : (fields : List (String × Json)) →
    writableFields fields = true → ∀ f ∈ sortFields fields, f.2.isWritable = true
  | [], _, _, h => absurd h List.not_mem_nil
  | (k, v) :: fields, hv, f, h => by
    rw [writableFields, Bool.and_eq_true] at hv
    rcases (List.mem_orderedInsert fieldLe).mp h with rfl | h
    · exact Json.isWritable_sortKeys v hv.1
    · exact isWritable_of_mem_sortFields fields hv.2 f h

end

section Loads

variable (fl : FloatText) {space : List Char}

/-- `json.loads` is the inverse of `json.dumps` for texts of ASCII. -/
theorem loads_dumpsAscii (hspaces : ∀ c ∈ space, isJsonSpace c = true) {v : Json}
    (hv : v.Loadable fl) : loads fl (dumpsAscii fl space v) = .ok v :=
  loads_dumpsWith fl escaping_escapeAscii hspaces hv

/-- What is written with sorted keys is read with them in order. -/
theorem loads_dumpsAsciiSorted (hspaces : ∀ c ∈ space, isJsonSpace c = true)
    (hfl : ∀ bits, (doubleValue bits).isSome = true → fl.Survives bits) {v : Json}
    (hv : v.Finite) {t : List Char} (h : dumpsAsciiSorted fl space v = some t) :
    loads fl t = .ok v.sortKeys := by
  rw [dumpsAsciiSorted] at h
  split_ifs at h with hw
  cases h
  exact loads_dumpsAscii fl hspaces (Json.Loadable.sortKeys fl v (Json.Finite.loadable hfl v hv hw))

end Loads

end OpenRath
