import Mathlib.Data.Fin.Basic
import Mathlib.Data.List.DropRight
import Mathlib.Data.Rat.Floor
import Mathlib.Order.Fin.Basic

/-!
# Values of the host language

The values that programs exchange with a store: JSON documents, UUIDs, texts and durations.

JSON objects are taken up to the order of their keys, which is how mappings are compared and
what a dump with sorted keys makes of them: an object is the list of its fields in key order. A
dump followed by a load is then the identity and is not written out.

UUIDs are ordered by their number. Their canonical text has a fixed width and lower-case
hexadecimal digits, so this is also the order of the texts.

Durations in seconds are floating-point numbers, of which only the sign and the conversion to
whole microseconds are used; they are rationals together with the values that are not finite.

## Main definitions

* `Json`, `JsonObject`, `JsonObject.get?`, `JsonObject.set`, `Json.number?`, `Json.eqValue`.
* `UUID`, `UUID.str`.
* `strip`, `isBlank`: texts without the white space at their ends.
* `Seconds`, `Seconds.timedelta`: conversion to microseconds, rounding half to even.
-/

namespace OpenRath

/-- What can be decided of one element after the other holds of all. -/
theorem forall_mem_of_all {α : Type} {p : α → Prop} [DecidablePred p] {l : List α}
    (h : l.all (fun a => decide (p a)) = true) : ∀ a ∈ l, p a :=
  fun a ha => of_decide_eq_true (List.all_eq_true.mp h a ha)

/-- What a sequence of two computations has gone through. -/
theorem exists_of_bind_eq_ok {ε α β : Type} {x : Except ε α} {f : α → Except ε β} {b : β}
    (h : (x >>= f) = .ok b) : ∃ a, x = .ok a ∧ f a = .ok b := by
  cases x with
  | error e => cases h
  | ok a => exact ⟨a, rfl, h⟩

theorem mapError_eq_ok_iff {ε ε' α : Type} {f : ε → ε'} {r : Except ε α} {a : α} :
    r.mapError f = .ok a ↔ r = .ok a := by
  cases r <;> simp [Except.mapError]

theorem bind_eq_ok_iff {ε α β : Type} {r : Except ε α} {f : α → Except ε β} {b : β} :
    (r >>= f) = .ok b ↔ ∃ a, r = .ok a ∧ f a = .ok b := by
  constructor
  · exact exists_of_bind_eq_ok
  · rintro ⟨a, rfl, h⟩
    exact h

theorem ite_error_bind_eq_ok_iff {ε α β : Type} {c : Prop} [Decidable c] {e : ε}
    {f : α → Except ε β} {r : Except ε β} {b : β} :
    (if c then Except.error e >>= f else r) = .ok b ↔ ¬ c ∧ r = .ok b := by
  split_ifs with hc
  · simp only [hc, not_true_eq_false, false_and, iff_false]
    exact fun h => by cases h
  · simp only [hc, not_false_eq_true, true_and]

/-! ### Lists of computations -/

section MapM

variable {ε α β : Type} {f : α → Except ε β} {as : List α}

/-- What comes out of a list of computations comes out of one of them. -/
theorem exists_mem_of_mapM {bs : List β} (h : as.mapM f = .ok bs) {b : β} (hb : b ∈ bs) :
    ∃ a ∈ as, f a = .ok b := by
  induction as generalizing bs with
  | nil =>
    cases h
    exact absurd hb List.not_mem_nil
  | cons a as ih =>
    rw [List.mapM_cons] at h
    obtain ⟨c, hc, h⟩ := exists_of_bind_eq_ok h
    obtain ⟨cs, hcs, h⟩ := exists_of_bind_eq_ok h
    cases h
    rcases List.mem_cons.mp hb with rfl | hb
    · exact ⟨a, List.mem_cons_self, hc⟩
    · obtain ⟨a', ha', hfa'⟩ := ih hcs hb
      exact ⟨a', List.mem_cons_of_mem _ ha', hfa'⟩

/-- What comes out of one of them comes out of the list. -/
theorem mem_of_mapM {bs : List β} (h : as.mapM f = .ok bs) {a : α} (ha : a ∈ as) {b : β}
    (hb : f a = .ok b) : b ∈ bs := by
  induction as generalizing bs with
  | nil => exact absurd ha List.not_mem_nil
  | cons a' as ih =>
    rw [List.mapM_cons] at h
    obtain ⟨c, hc, h⟩ := exists_of_bind_eq_ok h
    obtain ⟨cs, hcs, h⟩ := exists_of_bind_eq_ok h
    cases h
    rcases List.mem_cons.mp ha with rfl | ha
    · rw [Except.ok.inj (hb.symm.trans hc)]
      exact List.mem_cons_self
    · exact List.mem_cons_of_mem _ (ih hcs ha)

theorem exists_mapM_iff : (∃ bs, as.mapM f = .ok bs) ↔ ∀ a ∈ as, ∃ b, f a = .ok b := by
  induction as with
  | nil => simp [pure, Except.pure]
  | cons a as ih =>
    rw [List.forall_mem_cons, ← ih]
    simp only [List.mapM_cons]
    constructor
    · rintro ⟨bs, h⟩
      obtain ⟨b, hb, h⟩ := exists_of_bind_eq_ok h
      obtain ⟨bs', hbs, -⟩ := exists_of_bind_eq_ok h
      exact ⟨⟨b, hb⟩, bs', hbs⟩
    · rintro ⟨⟨b, hb⟩, bs, hbs⟩
      exact ⟨b :: bs, by rw [hb, hbs]; rfl⟩

end MapM

/-! ### Lists of checks -/

section ForM

variable {ε α : Type} {f : α → Except ε Unit} {as : List α}

theorem forM_eq_ok_iff : as.forM f = .ok () ↔ ∀ a ∈ as, f a = .ok () := by
  induction as with
  | nil => exact iff_of_true rfl fun a ha => absurd ha List.not_mem_nil
  | cons a as ih =>
    rw [List.forall_mem_cons, ← ih]
    constructor
    · intro h
      obtain ⟨u, hu, hrest⟩ := exists_of_bind_eq_ok h
      exact ⟨hu, hrest⟩
    · rintro ⟨ha, hrest⟩
      show (f a >>= fun _ => as.forM f) = .ok ()
      rw [ha]
      exact hrest

/-- The checks fail where one of them does. -/
theorem exists_of_forM_eq_error {e : ε} (h : as.forM f = .error e) : ∃ a ∈ as, f a = .error e := by
  induction as with
  | nil => cases h
  | cons a as ih =>
    rcases ha : f a with e' | u
    · have hbind : (f a >>= fun _ => as.forM f) = .error e := h
      rw [ha] at hbind
      cases hbind
      exact ⟨a, List.mem_cons_self, ha⟩
    · have hbind : (f a >>= fun _ => as.forM f) = .error e := h
      rw [ha] at hbind
      obtain ⟨b, hb, hfb⟩ := ih hbind
      exact ⟨b, List.mem_cons_of_mem a hb, hfb⟩

end ForM

/-! ### JSON -/

/-- A JSON value. Floating-point numbers are kept by their bits. -/
inductive Json
  | null
  | bool (b : Bool)
  | int (n : ℤ)
  | float (bits : BitVec 64)
  | str (s : String)
  | arr (items : List Json)
  | obj (fields : List (String × Json))

/-- The fields of a JSON object. -/
abbrev JsonObject : Type := List (String × Json)

namespace Json

mutual

/-- Equality of JSON values is decided along their structure. -/
def decEq : (a b : Json) → Decidable (a = b)
  | null, null => isTrue rfl
  | bool a, bool b => decidable_of_iff (a = b) (by simp)
  | int a, int b => decidable_of_iff (a = b) (by simp)
  | float a, float b => decidable_of_iff (a = b) (by simp)
  | str a, str b => decidable_of_iff (a = b) (by simp)
  | arr a, arr b => match decEqItems a b with
    | isTrue h => isTrue (by rw [h])
    | isFalse h => isFalse (by simpa using h)
  | obj a, obj b => match decEqFields a b with
    | isTrue h => isTrue (by rw [h])
    | isFalse h => isFalse (by simpa using h)
  | null, bool _ | null, int _ | null, float _ | null, str _ | null, arr _ | null, obj _
  | bool _, null | bool _, int _ | bool _, float _ | bool _, str _ | bool _, arr _
  | bool _, obj _ | int _, null | int _, bool _ | int _, float _ | int _, str _ | int _, arr _
  | int _, obj _ | float _, null | float _, bool _ | float _, int _ | float _, str _
  | float _, arr _ | float _, obj _ | str _, null | str _, bool _ | str _, int _
  | str _, float _ | str _, arr _ | str _, obj _ | arr _, null | arr _, bool _ | arr _, int _
  | arr _, float _ | arr _, str _ | arr _, obj _ | obj _, null | obj _, bool _ | obj _, int _
  | obj _, float _ | obj _, str _ | obj _, arr _ => isFalse (by simp)

/-- Equality of arrays. -/
def decEqItems : (a b : List Json) → Decidable (a = b)
  | [], [] => isTrue rfl
  | [], _ :: _ => isFalse (by simp)
  | _ :: _, [] => isFalse (by simp)
  | a :: as, b :: bs => match decEq a b, decEqItems as bs with
    | isTrue h, isTrue h' => isTrue (by rw [h, h'])
    | isFalse h, _ => isFalse (by simp [h])
    | _, isFalse h => isFalse (by simp [h])

/-- Equality of objects. -/
def decEqFields : (a b : List (String × Json)) → Decidable (a = b)
  | [], [] => isTrue rfl
  | [], _ :: _ => isFalse (by simp)
  | _ :: _, [] => isFalse (by simp)
  | (k, a) :: as, (l, b) :: bs => match decEq a b, decEqFields as bs with
    | isTrue h, isTrue h' => decidable_of_iff (k = l) (by simp [h, h'])
    | isFalse h, _ => isFalse (by simp [h])
    | _, isFalse h => isFalse (by simp [h])

end

instance : DecidableEq Json := decEq

end Json

/-- The value of a field of an object. -/
def JsonObject.get? (o : JsonObject) (k : String) : Option Json :=
  (o.find? fun f => f.1 = k).map Prod.snd

/-- The object with a field set, in key order. -/
def JsonObject.set : JsonObject → String → Json → JsonObject
  | [], k, v => [(k, v)]
  | f :: fs, k, v =>
    if f.1 = k then (k, v) :: fs
    else if k < f.1 then (k, v) :: f :: fs
    else f :: JsonObject.set fs k v

/-- The value of a double-precision number, unless it is infinite or not a number. -/
def doubleValue (bits : BitVec 64) : Option ℚ :=
  let sign : ℚ := if bits.msb then -1 else 1
  let exponent := (bits.extractLsb' 52 11).toNat
  let mantissa := (bits.extractLsb' 0 52).toNat
  if exponent = 2047 then none
  else if exponent = 0 then some (sign * mantissa / 2 ^ 1074)
  else some (sign * (2 ^ 52 + mantissa) * 2 ^ exponent / 2 ^ 1075)

namespace Json

/-- Whether a value counts as true in a condition. -/
def truthy : Json → Bool
  | null => false
  | bool b => b
  | int n => n ≠ 0
  | float bits => doubleValue bits ≠ some 0
  | str s => s ≠ ""
  | arr items => !items.isEmpty
  | obj fields => !fields.isEmpty

/-- The number that a value is in a comparison, where truth values count as `0` and `1`. -/
def number? : Json → Option ℚ
  | bool b => some (if b then 1 else 0)
  | int n => some n
  | float bits => doubleValue bits
  | null | str _ | arr _ | obj _ => none

mutual

/-- The comparison `v == w` of two values. If the second has been frozen, its arrays are tuples,
which are never equal to the lists of the first. -/
def eqValue (frozen : Bool) : (v w : Json) → Bool
  | null, null => true
  | str a, str b => a = b
  | arr a, arr b => !frozen && eqItems frozen a b
  | obj a, obj b => eqFields frozen a b
  | float a, float b =>
    match doubleValue a, doubleValue b with
    | some x, some y => x = y
    -- Of the exceptional values, the infinities are equal to themselves.
    | _, _ => a = b ∧ (a = 0x7FF0000000000000 ∨ a = 0xFFF0000000000000)
  | v, w =>
    match v.number?, w.number? with
    | some x, some y => x = y
    | _, _ => false

/-- The comparison of arrays. -/
def eqItems (frozen : Bool) : (v w : List Json) → Bool
  | [], [] => true
  | a :: v, b :: w => eqValue frozen a b && eqItems frozen v w
  | _, _ => false

/-- The comparison of objects. -/
def eqFields (frozen : Bool) : (v w : List (String × Json)) → Bool
  | [], [] => true
  | (k, a) :: v, (l, b) :: w => k = l && eqValue frozen a b && eqFields frozen v w
  | _, _ => false

end

end Json

/-! ### UUIDs -/

instance instLawfulBEqText : LawfulBEq (List Char) := inferInstance

instance instNeZeroUUIDs : NeZero (2 ^ 128) := ⟨by decide⟩

/-- A UUID. -/
@[ext]
structure UUID where
  /-- The number of the UUID. -/
  int : Fin (2 ^ 128)
deriving DecidableEq

namespace UUID

instance : LinearOrder UUID :=
  LinearOrder.lift' int fun _ _ h => UUID.ext h

/-- The last `w` hexadecimal digits of `n`, with leading zeros. -/
def hexDigits : ℕ → ℕ → List Char
  | 0, _ => []
  | w + 1, n => hexDigits w (n / 16) ++ [Nat.digitChar (n % 16)]

/-- The canonical text of a UUID. -/
def str (u : UUID) : String :=
  let ds := hexDigits 32 u.int
  String.ofList (ds.take 8 ++ '-' :: (ds.drop 8).take 4 ++ '-' :: (ds.drop 12).take 4 ++
    '-' :: (ds.drop 16).take 4 ++ '-' :: ds.drop 20)

end UUID

/-! ### Texts -/

/-- The characters that stripping a text removes from its ends. -/
def isSpace (c : Char) : Bool :=
  let n := c.toNat
  (9 ≤ n && n ≤ 13) || (28 ≤ n && n ≤ 32) || n = 0x85 || n = 0xA0 || n = 0x1680 ||
    (0x2000 ≤ n && n ≤ 0x200A) || n = 0x2028 || n = 0x2029 || n = 0x202F || n = 0x205F ||
    n = 0x3000

/-- A text of which stripping leaves nothing. -/
def isBlank (s : String) : Bool := s.toList.all isSpace

/-- `strip` of a text. -/
def strip (s : String) : String :=
  String.ofList ((s.toList.dropWhile isSpace).rdropWhile isSpace)

theorem strip_eq_empty_iff {s : String} : strip s = "" ↔ isBlank s = true := by
  rw [strip, String.ofList_eq_empty_iff, List.rdropWhile_eq_nil_iff, ← List.dropWhile_eq_nil_iff,
    List.dropWhile_idempotent, List.dropWhile_eq_nil_iff, isBlank, List.all_eq_true]

/-- A text that was stripped is left alone by stripping. -/
theorem strip_strip (s : String) : strip (strip s) = strip s := by
  have hstart : ((s.toList.dropWhile isSpace).rdropWhile isSpace).dropWhile isSpace =
      (s.toList.dropWhile isSpace).rdropWhile isSpace := by
    refine List.dropWhile_eq_self_iff.mpr fun h => ?_
    have hinitial := List.rdropWhile_prefix isSpace (s.toList.dropWhile isSpace)
    rw [hinitial.getElem h]
    exact List.dropWhile_eq_self_iff.mp (List.dropWhile_idempotent isSpace s.toList) _
  rw [strip, strip, String.toList_ofList, hstart, List.rdropWhile_idempotent]

theorem toLower_toLower (c : Char) : c.toLower.toLower = c.toLower := by
  unfold Char.toLower
  grind

/-- A text in lower case is left alone by lower case. -/
theorem map_toLower_map_toLower (s : String) :
    String.ofList ((String.ofList (s.toList.map Char.toLower)).toList.map Char.toLower) =
      String.ofList (s.toList.map Char.toLower) := by
  have hchar : Char.toLower ∘ Char.toLower = Char.toLower := funext toLower_toLower
  rw [String.toList_ofList, List.map_map, hchar]

/-! ### Durations -/

/-- A number of seconds given as a floating-point number. -/
inductive Seconds
  | finite (q : ℚ)
  | inf
  | negInf
  | nan
deriving DecidableEq

namespace Seconds

/-- The comparison `x <= 0`, false when `x` is not a number. -/
def nonpos : Seconds → Bool
  | finite q => q ≤ 0
  | inf => false
  | negInf => true
  | nan => false

/-- The nearest integer, the even one when there are two. -/
def roundHalfEven (q : ℚ) : ℤ :=
  let n := q.floor
  let r := q - n
  if r < 1 / 2 then n else if 1 / 2 < r then n + 1 else if n % 2 = 0 then n else n + 1

/-- Why a number of seconds has no timedelta. -/
inductive TimedeltaError
  | notANumber
  | overflow
deriving DecidableEq

/-- The timedelta of a number of seconds, in whole microseconds; it is limited to 999999999
days in either direction. -/
def timedelta : Seconds → Except TimedeltaError ℤ
  | finite q =>
    let us := roundHalfEven (q * 1000000)
    if -999999999 * 86400000000 ≤ us ∧ us < 1000000000 * 86400000000 then .ok us
    else .error .overflow
  | inf => .error .overflow
  | negInf => .error .overflow
  | nan => .error .notANumber

end Seconds

end OpenRath
