import Mathlib.Data.Char
import Mathlib.Data.List.Lex
import Mathlib.Data.Nat.Digits.Lemmas

/-!
# Datetimes and their ISO 8601 text

A datetime is a wall-clock reading in the proleptic Gregorian calendar, from year 1 to year
9999 and in whole microseconds, together with a UTC offset, or without one when it is naive.
Datetimes are compared in two ways that need not agree: as instants, and as the texts
`Datetime.isoformat` writes for them, compared character by character. A store that keeps
timestamps in text columns uses the second order where the program means the first.

The text of the date is computed from the day number by the 400-, 100-, 4- and 1-year cycles of
the calendar. Since all fields of the date and the time are written with a fixed number of
digits, the text order of two readings with the same offset is the order of the readings
(`Datetime.isoformat_utc_lt_iff`); the fraction, written only when it is not zero, does not
disturb it because `+` precedes `.`.

## Main definitions

* `Datetime`, `Datetime.Aware`, `Datetime.instant`, `Datetime.add?`, `Datetime.utc`.
* `Datetime.isoformat`: the text of a datetime.

## Main results

* `Calendar.dateText_lt`: the text of a date is strictly increasing in the day number.
* `Datetime.isoformat_utc_lt_iff`, `Datetime.isoformat_utc_le_iff`: on UTC datetimes the text
  order is the order of instants.
* `Datetime.isoformat_le_iff_instant_le_iff`: when it is so on two aware datetimes.
-/

namespace OpenRath

/-! ### Fixed-width decimal text -/

namespace FixedWidth

/-- Texts of the same length followed by anything are compared by the texts first. -/
theorem append_lt_append {a b s t : List Char} (hlen : a.length = b.length) (h : a < b) :
    a ++ s < b ++ t := by
  induction a generalizing b with
  | nil =>
    rw [List.length_nil, eq_comm, List.length_eq_zero_iff] at hlen
    exact absurd h (hlen ▸ lt_irrefl _)
  | cons x a ih =>
    cases b with
    | nil => simp at hlen
    | cons y b =>
      rw [List.cons_append, List.cons_append, List.cons_lt_cons_iff]
      rcases List.cons_lt_cons_iff.mp h with hxy | ⟨hxy, hab⟩
      · exact Or.inl hxy
      · exact Or.inr ⟨hxy, ih (by simpa using hlen) hab⟩

theorem append_lt_append_left {s t : List Char} (a : List Char) (h : s < t) :
    a ++ s < a ++ t :=
  List.Lex.append_left _ h a

theorem append_lt_append_left_iff {s t : List Char} (a : List Char) :
    a ++ s < a ++ t ↔ s < t := by
  induction a with
  | nil => exact Iff.rfl
  | cons x a ih =>
    rw [List.cons_append, List.cons_append, List.cons_lt_cons_iff, ih,
      or_iff_right (lt_irrefl x), and_iff_right rfl]

/-- The decimal digit of a number below ten. -/
def digit (n : ℕ) : Char := Char.ofNat (48 + n)

theorem digit_lt_digit {m n : ℕ} (hn : n < 10) (h : m < n) : digit m < digit n := by
  have hall : ∀ n < 10, ∀ m < n, digit m < digit n := by decide
  exact hall n hn m h

/-- The last `w` decimal digits of `n`, with leading zeros. -/
def digits : ℕ → ℕ → List Char
  | 0, _ => []
  | w + 1, n => digits w (n / 10) ++ [digit (n % 10)]

@[simp] theorem length_digits (w n : ℕ) : (digits w n).length = w := by
  induction w generalizing n with
  | zero => rfl
  | succ w ih => simp [digits, ih]

/-- Numbers that fit in `w` digits are ordered like their `w`-digit texts. -/
theorem digits_lt_digits {w m n : ℕ} (hn : n < 10 ^ w) (h : m < n) :
    digits w m < digits w n := by
  induction w generalizing m n with
  | zero => omega
  | succ w ih =>
    rw [digits, digits]
    rcases Nat.lt_or_ge (m / 10) (n / 10) with hdiv | hdiv
    · have hbound : n / 10 < 10 ^ w := by
        rw [pow_succ] at hn
        omega
      exact append_lt_append (by simp) (ih hbound hdiv)
    · have heq : m / 10 = n / 10 := by omega
      rw [heq]
      refine append_lt_append_left _ ?_
      rw [List.cons_lt_cons_iff]
      exact Or.inl (digit_lt_digit (by omega) (by omega))

/-- The order of digit texts behind a common separator. -/
theorem cons_digits_lt (c : Char) {w m n : ℕ} (hn : n < 10 ^ w) (h : m < n) :
    c :: digits w m < c :: digits w n :=
  List.Lex.cons (digits_lt_digits hn h)

end FixedWidth

/-! ### The calendar -/

namespace Calendar

open FixedWidth

/-- Leap years of the Gregorian calendar. -/
def isLeap (y : ℕ) : Bool := y % 4 = 0 ∧ (y % 100 ≠ 0 ∨ y % 400 = 0)

/-- The number of days before January 1st of the year `y + 1`. -/
def daysBefore (y : ℕ) : ℕ := y * 365 + y / 4 - y / 100 + y / 400

/-- The year of the day with number `n`, counted from 0 for the year 1. The day number is
divided by the lengths of the cycles of 400, 100, 4 and 1 years; the last day of the last
century of a 400-year cycle, and of the last year of a 4-year cycle, belongs to that century
and that year. -/
def yearIndex (n : ℕ) : ℕ :=
  let r := n % 146097
  let c := min 3 (r / 36524)
  let r := r - c * 36524
  let q := r / 1461
  let r := r - q * 1461
  400 * (n / 146097) + 100 * c + 4 * q + min 3 (r / 365)

/-- The day of the year of the day with number `n`, counted from 0. -/
def yearDay (n : ℕ) : ℕ := n - daysBefore (yearIndex n)

/-- The days before a year, by the cycles the year completes. -/
theorem daysBefore_cycles (a : ℕ) {c q k : ℕ} (hc : c ≤ 3) (hq : q ≤ 24) (hk : k ≤ 3) :
    daysBefore (400 * a + 100 * c + 4 * q + k) =
      146097 * a + 36524 * c + 1461 * q + 365 * k := by
  have h4 : (400 * a + 100 * c + 4 * q + k) / 4 = 100 * a + 25 * c + q := by omega
  have h100 : (400 * a + 100 * c + 4 * q + k) / 100 = 4 * a + c := by omega
  have h400 : (400 * a + 100 * c + 4 * q + k) / 400 = a := by omega
  rw [daysBefore, h4, h100, h400]
  omega

/-- The year of a day contains it. -/
theorem daysBefore_yearIndex_le (n : ℕ) :
    daysBefore (yearIndex n) ≤ n ∧ n < daysBefore (yearIndex n + 1) := by
  have hn : n = 146097 * (n / 146097) + n % 146097 := (Nat.div_add_mod n 146097).symm
  have hr : n % 146097 < 146097 := Nat.mod_lt n (by norm_num)
  simp only [yearIndex]
  generalize n / 146097 = a at *
  generalize n % 146097 = r at *
  obtain ⟨c, hc⟩ : ∃ c, c = min 3 (r / 36524) := ⟨_, rfl⟩
  rw [← hc]
  obtain ⟨s, hs⟩ : ∃ s, s = r - c * 36524 := ⟨_, rfl⟩
  have hc3 : c ≤ 3 := by omega
  have hsr : r = 36524 * c + s := by omega
  have hs1 : s ≤ 36524 := by omega
  have hs2 : c < 3 → s < 36524 := by omega
  rw [← hs]
  obtain ⟨q, hq⟩ : ∃ q, q = s / 1461 := ⟨_, rfl⟩
  obtain ⟨t, ht⟩ : ∃ t, t = s - q * 1461 := ⟨_, rfl⟩
  have hq24 : q ≤ 24 := by omega
  have hst : s = 1461 * q + t := by omega
  have ht1 : t < 1461 := by omega
  rw [← hq, ← ht]
  obtain ⟨k, hk⟩ : ∃ k, k = min 3 (t / 365) := ⟨_, rfl⟩
  have hk3 : k ≤ 3 := by omega
  rw [← hk]
  refine ⟨by rw [daysBefore_cycles a hc3 hq24 hk3]; omega, ?_⟩
  -- The next year ends the 4-year cycle, the century or the 400-year cycle it closes.
  rcases Nat.lt_or_ge k 3 with hk' | hk'
  · rw [Nat.add_assoc, daysBefore_cycles a hc3 hq24 (k := k + 1) (by omega)]
    omega
  rcases Nat.lt_or_ge q 24 with hq' | hq'
  · have hnext := daysBefore_cycles a hc3 (q := q + 1) (k := 0) (by omega) (by omega)
    rw [show 400 * a + 100 * c + 4 * q + k + 1 = 400 * a + 100 * c + 4 * (q + 1) + 0 by omega,
      hnext]
    omega
  rcases Nat.lt_or_ge c 3 with hc' | hc'
  · have hnext := daysBefore_cycles a (c := c + 1) (q := 0) (k := 0) (by omega) (by omega)
      (by omega)
    rw [show 400 * a + 100 * c + 4 * q + k + 1 = 400 * a + 100 * (c + 1) + 4 * 0 + 0 by omega,
      hnext]
    omega
  · have hnext := daysBefore_cycles (a + 1) (c := 0) (q := 0) (k := 0) (by omega) (by omega)
      (by omega)
    rw [show 400 * a + 100 * c + 4 * q + k + 1 = 400 * (a + 1) + 100 * 0 + 4 * 0 + 0 by omega,
      hnext]
    omega

/-- The length of a year. -/
theorem daysBefore_succ (y : ℕ) :
    daysBefore (y + 1) = daysBefore y + if isLeap (y + 1) then 366 else 365 := by
  have hle : y / 100 ≤ y / 4 := Nat.div_le_div_left (by norm_num) (by norm_num)
  have h100 : (y + 1) % 100 = 0 → (y + 1) % 4 = 0 := by omega
  have h400 : (y + 1) % 400 = 0 → (y + 1) % 100 = 0 := by omega
  simp only [daysBefore, isLeap, decide_eq_true_eq, Nat.succ_div, Nat.dvd_iff_mod_eq_zero]
  generalize y / 4 = a at *
  generalize y / 100 = b at *
  generalize y / 400 = c at *
  by_cases h4 : (y + 1) % 4 = 0
  · by_cases h1 : (y + 1) % 100 = 0
    · by_cases h0 : (y + 1) % 400 = 0 <;> simp only [h4, h1, h0] <;> simp <;> omega
    · have h0 : ¬ (y + 1) % 400 = 0 := fun h => h1 (h400 h)
      simp [h4, h1, h0]
      omega
  · have h1 : ¬ (y + 1) % 100 = 0 := fun h => h4 (h100 h)
    have h0 : ¬ (y + 1) % 400 = 0 := fun h => h1 (h400 h)
    simp [h4, h1, h0]
    omega

theorem daysBefore_mono : Monotone daysBefore := by
  refine monotone_nat_of_le_succ fun y => ?_
  simp only [daysBefore]
  omega

theorem yearIndex_mono {m n : ℕ} (h : m ≤ n) : yearIndex m ≤ yearIndex n := by
  by_contra hlt
  have hm := daysBefore_yearIndex_le m
  have hn := daysBefore_yearIndex_le n
  have hmono := daysBefore_mono (show yearIndex n + 1 ≤ yearIndex m by omega)
  omega

/-- The lengths of the months. -/
def monthLengths (leap : Bool) : List ℕ :=
  [31, if leap then 29 else 28, 31, 30, 31, 30, 31, 31, 30, 31, 30, 31]

/-- The month, counted from `m`, and the day of the month of the day `d`, counted from 0, of a
period with the given month lengths. -/
def monthDay (m : ℕ) : List ℕ → ℕ → ℕ × ℕ
  | [], d => (m, d + 1)
  | l :: ls, d => if d < l then (m, d + 1) else monthDay (m + 1) ls (d - l)

theorem le_monthDay_fst (m : ℕ) (ls : List ℕ) (d : ℕ) : m ≤ (monthDay m ls d).1 := by
  induction ls generalizing m d with
  | nil => exact le_rfl
  | cons l ls ih =>
    rw [monthDay]
    split_ifs
    · exact le_rfl
    · exact (Nat.le_succ m).trans (ih (m + 1) (d - l))

/-- Later days have a later month, or a later day of the same month. -/
theorem monthDay_lt (m : ℕ) (ls : List ℕ) {d e : ℕ} (h : d < e) :
    (monthDay m ls d).1 < (monthDay m ls e).1 ∨
      (monthDay m ls d).1 = (monthDay m ls e).1 ∧ (monthDay m ls d).2 < (monthDay m ls e).2 := by
  induction ls generalizing m d e with
  | nil => exact Or.inr ⟨rfl, Nat.succ_lt_succ h⟩
  | cons l ls ih =>
    simp only [monthDay]
    by_cases hd : d < l
    · by_cases he : e < l
      · simp only [hd, he, ↓reduceIte, true_and]
        exact Or.inr (Nat.succ_lt_succ h)
      · simp only [hd, he, ↓reduceIte]
        exact Or.inl (le_monthDay_fst (m + 1) ls (e - l))
    · have he : ¬ e < l := by omega
      simp only [hd, he, ↓reduceIte]
      exact ih (m + 1) (by omega)

/-- Months and days of the month within a list of months of at most 31 days. -/
theorem monthDay_bounds (m : ℕ) (ls : List ℕ) (hls : ∀ l ∈ ls, l ≤ 31) {d : ℕ}
    (hd : d < ls.sum) : (monthDay m ls d).1 < m + ls.length ∧ (monthDay m ls d).2 ≤ 31 := by
  induction ls generalizing m d with
  | nil => simp at hd
  | cons l ls ih =>
    rw [monthDay]
    split_ifs with h
    · exact ⟨by simp, (Nat.succ_le_of_lt h).trans (hls l List.mem_cons_self)⟩
    · rw [List.sum_cons] at hd
      have := ih (m + 1) (fun x hx => hls x (List.mem_cons_of_mem l hx)) (d := d - l) (by omega)
      rw [List.length_cons]
      omega

/-- A year has as many days as its months. -/
theorem yearDay_lt (n : ℕ) : yearDay n < (monthLengths (isLeap (yearIndex n + 1))).sum := by
  have h := daysBefore_yearIndex_le n
  rw [yearDay]
  generalize yearIndex n = y at h
  have hlen := daysBefore_succ y
  have hsum : (monthLengths (isLeap (y + 1))).sum = if isLeap (y + 1) then 366 else 365 := by
    cases isLeap (y + 1) <;> rfl
  rw [hsum]
  omega

/-- The number of days from 0001-01-01 to 9999-12-31. -/
def maxDays : ℕ := 3652059

theorem yearIndex_lt {n : ℕ} (h : n < maxDays) : yearIndex n < 9999 := by
  have hlast := yearIndex_mono (show n ≤ 3652058 from Nat.le_of_lt_succ h)
  exact lt_of_le_of_lt hlast (by decide)

/-- The text `YYYY-MM-DD` of the day with number `n`. -/
def dateText (n : ℕ) : List Char :=
  let md := monthDay 1 (monthLengths (isLeap (yearIndex n + 1))) (yearDay n)
  digits 4 (yearIndex n + 1) ++ ('-' :: digits 2 md.1 ++ ('-' :: digits 2 md.2))

@[simp] theorem length_dateText (n : ℕ) : (dateText n).length = 10 := by simp [dateText]

/-- Later days have later texts. -/
theorem dateText_lt {m n : ℕ} (hn : n < maxDays) (h : m < n) : dateText m < dateText n := by
  have hyear := yearIndex_lt hn
  simp only [dateText]
  rcases (yearIndex_mono h.le).lt_or_eq with hlt | heq
  · exact append_lt_append (by simp) (digits_lt_digits (by omega) (by omega))
  · have hday : yearDay m < yearDay n := by
      have := daysBefore_yearIndex_le m
      rw [yearDay, yearDay, heq] at *
      omega
    have hbound := monthDay_bounds 1 (monthLengths (isLeap (yearIndex n + 1)))
      (by cases isLeap (yearIndex n + 1) <;> decide) (yearDay_lt n)
    rw [heq]
    refine append_lt_append_left _ ?_
    rcases monthDay_lt 1 (monthLengths (isLeap (yearIndex n + 1))) hday with hm | ⟨hm, hd⟩
    · have hlen : (monthLengths (isLeap (yearIndex n + 1))).length = 12 := rfl
      exact append_lt_append (by simp) (cons_digits_lt '-' (by omega) hm)
    · rw [hm]
      exact append_lt_append_left _ (cons_digits_lt '-' (by omega) hd)

/-- The text `HH:MM:SS` of a second of the day. -/
def timeText (s : ℕ) : List Char :=
  digits 2 (s / 3600) ++ (':' :: digits 2 (s / 60 % 60) ++ (':' :: digits 2 (s % 60)))

@[simp] theorem length_timeText (s : ℕ) : (timeText s).length = 8 := by simp [timeText]

/-- Later seconds of a day have later texts. -/
theorem timeText_lt {s t : ℕ} (ht : t < 86400) (h : s < t) : timeText s < timeText t := by
  simp only [timeText]
  rcases (Nat.div_le_div_right h.le : s / 3600 ≤ t / 3600).lt_or_eq with hlt | heq
  · exact append_lt_append (by simp) (digits_lt_digits (by omega) hlt)
  rw [heq]
  refine append_lt_append_left _ ?_
  rcases Nat.lt_or_ge (s / 60 % 60) (t / 60 % 60) with hmin | hmin
  · exact append_lt_append (by simp) (cons_digits_lt ':' (by omega) hmin)
  have hmin' : s / 60 % 60 = t / 60 % 60 := by omega
  rw [hmin']
  exact append_lt_append_left _ (cons_digits_lt ':' (by omega) (by omega))

/-- The fraction of a second, written only when it is not zero. -/
def fractionText (us : ℕ) : List Char := if us = 0 then [] else '.' :: digits 6 us

/-- Larger fractions have later texts. -/
theorem fractionText_lt {m n : ℕ} (hn : n < 10 ^ 6) (h : m < n) :
    fractionText m < fractionText n := by
  rw [fractionText, fractionText, if_neg (by omega : n ≠ 0)]
  split_ifs
  · exact List.nil_lt_cons _ _
  · exact cons_digits_lt '.' hn h

end Calendar

/-! ### Datetimes -/

/-- Microseconds in a second. -/
def usPerSecond : ℕ := 1000000

/-- Microseconds in a day. -/
def usPerDay : ℕ := 86400 * usPerSecond

/-- A UTC offset in microseconds, of less than a day in either direction. -/
structure Offset where
  /-- The offset in microseconds, positive east of Greenwich. -/
  us : ℤ
  lower : -(usPerDay : ℤ) < us
  upper : us < usPerDay
deriving DecidableEq

/-- The offset of UTC. -/
def Offset.zero : Offset := ⟨0, by decide, by decide⟩

/-- The text `±HH:MM[:SS[.ffffff]]` of an offset. -/
def Offset.text (o : Offset) : List Char :=
  let n := o.us.natAbs
  let s := n / usPerSecond
  (if o.us < 0 then '-' else '+') ::
    (FixedWidth.digits 2 (s / 3600) ++ ':' :: FixedWidth.digits 2 (s / 60 % 60)) ++
      (if s % 60 = 0 ∧ n % usPerSecond = 0 then []
       else ':' :: FixedWidth.digits 2 (s % 60) ++ Calendar.fractionText (n % usPerSecond))

namespace Offset

open FixedWidth Calendar

/-- The seconds and the fraction of a second in the text of an offset. -/
def secondsText (s us : ℕ) : List Char :=
  if s = 0 ∧ us = 0 then [] else ':' :: digits 2 s ++ fractionText us

/-- The part of the text of an offset that follows its sign, for a number of microseconds. -/
def magnitude (n : ℕ) : List Char :=
  digits 2 (n / usPerSecond / 3600) ++ ':' :: digits 2 (n / usPerSecond / 60 % 60) ++
    secondsText (n / usPerSecond % 60) (n % usPerSecond)

theorem text_eq (o : Offset) :
    o.text = (if o.us < 0 then '-' else '+') :: magnitude o.us.natAbs := by
  simp only [text, magnitude, secondsText, List.cons_append, List.append_assoc]

theorem secondsText_lt {s us t us' : ℕ} (ht : t < 60) (hus : us' < 1000000)
    (h : s < t ∨ s = t ∧ us < us') : secondsText s us < secondsText t us' := by
  rw [secondsText, secondsText, if_neg (by omega : ¬ (t = 0 ∧ us' = 0))]
  split_ifs
  · exact List.nil_lt_cons _ _
  rw [List.cons_append, List.cons_append]
  refine List.Lex.cons ?_
  rcases h with hlt | ⟨rfl, hlt⟩
  · exact append_lt_append (by simp) (digits_lt_digits (by omega) hlt)
  · exact append_lt_append_left _ (fractionText_lt (by omega) hlt)

/-- Larger offsets have later texts behind the sign. -/
theorem magnitude_lt {m n : ℕ} (hn : n < usPerDay) (h : m < n) : magnitude m < magnitude n := by
  simp only [magnitude, usPerDay, usPerSecond, List.append_assoc, List.cons_append] at *
  rcases Nat.lt_or_ge (m / 1000000 / 3600) (n / 1000000 / 3600) with hhour | hhour
  · exact append_lt_append (by simp) (digits_lt_digits (by omega) hhour)
  have hhour' : m / 1000000 / 3600 = n / 1000000 / 3600 := by omega
  rw [hhour']
  refine append_lt_append_left _ (List.Lex.cons ?_)
  rcases Nat.lt_or_ge (m / 1000000 / 60 % 60) (n / 1000000 / 60 % 60) with hmin | hmin
  · exact append_lt_append (by simp) (digits_lt_digits (by omega) hmin)
  have hmin' : m / 1000000 / 60 % 60 = n / 1000000 / 60 % 60 := by omega
  rw [hmin']
  exact append_lt_append_left _ (secondsText_lt (by omega) (by omega) (by omega))

theorem magnitude_lt_iff {m n : ℕ} (hm : m < usPerDay) (hn : n < usPerDay) :
    magnitude m < magnitude n ↔ m < n := by
  refine ⟨fun h => ?_, magnitude_lt hn⟩
  by_contra hle
  rcases (not_lt.mp hle).lt_or_eq with hlt | rfl
  · exact lt_asymm h (magnitude_lt hm hlt)
  · exact lt_irrefl _ h

/-- **The order of the texts of offsets.** Offsets to the east come before those to the west, and
among each of them the smaller ones first. -/
theorem text_le_iff {a b : Offset} : a.text ≤ b.text ↔
    (0 ≤ a.us ∧ b.us < 0) ∨ (0 ≤ a.us ∧ a.us ≤ b.us) ∨ (b.us < 0 ∧ b.us ≤ a.us) := by
  have ha := a.lower
  have ha' := a.upper
  have hb := b.lower
  have hb' := b.upper
  have hmagnitude : magnitude b.us.natAbs < magnitude a.us.natAbs ↔ b.us.natAbs < a.us.natAbs :=
    magnitude_lt_iff (by omega) (by omega)
  have hplus : '+' < '-' := by decide
  rw [← not_lt, text_eq, text_eq, List.cons_lt_cons_iff, hmagnitude]
  split_ifs with hneg hneg' hneg' <;> simp [hplus, hplus.not_gt] <;> omega

end Offset

theorem wall_pos : 0 < Calendar.maxDays * usPerDay := by decide

/-- A datetime: a wall-clock reading in microseconds since 0001-01-01T00:00:00, and the UTC
offset it is given in; a datetime without offset is naive. -/
structure Datetime where
  wall : Fin (Calendar.maxDays * usPerDay)
  offset : Option Offset
deriving DecidableEq

namespace Datetime

open Calendar FixedWidth

/-- A datetime with a UTC offset. -/
def Aware (d : Datetime) : Prop := d.offset.isSome = true

instance (d : Datetime) : Decidable d.Aware := inferInstanceAs (Decidable (_ = true))

/-- No datetime is naive if there is none. -/
theorem aware_none : ∀ d ∈ (none : Option Datetime), d.Aware := by simp

/-- A datetime in UTC. -/
def IsUtc (d : Datetime) : Prop := d.offset = some Offset.zero

instance (d : Datetime) : Decidable d.IsUtc := inferInstanceAs (Decidable (_ = _))

theorem IsUtc.offset_eq {d : Datetime} (h : d.IsUtc) : d.offset = some Offset.zero := h

theorem IsUtc.aware {d : Datetime} (h : d.IsUtc) : d.Aware := by
  simp [Aware, h.offset_eq]

/-- The UTC datetime with a given reading. -/
def utc (w : Fin (maxDays * usPerDay)) : Datetime := ⟨w, some Offset.zero⟩

@[simp] theorem isUtc_utc (w : Fin (maxDays * usPerDay)) : (utc w).IsUtc := rfl

/-- The instant of an aware datetime, in microseconds since 0001-01-01T00:00:00 UTC. -/
def instant (d : Datetime) : ℤ := (d.wall : ℤ) - (d.offset.map Offset.us).getD 0

theorem IsUtc.instant_eq {d : Datetime} (h : d.IsUtc) : d.instant = (d.wall : ℤ) := by
  simp [instant, h.offset_eq, Offset.zero]

/-- The datetime a number of microseconds later, if it is still in the supported range. -/
def add? (d : Datetime) (us : ℤ) : Option Datetime :=
  if h : 0 ≤ (d.wall : ℤ) + us ∧ (d.wall : ℤ) + us < (maxDays * usPerDay : ℕ) then
    some ⟨⟨((d.wall : ℤ) + us).toNat, by omega⟩, d.offset⟩
  else none

theorem add?_offset {d d' : Datetime} {us : ℤ} (h : d.add? us = some d') :
    d'.offset = d.offset := by
  unfold add? at h
  split_ifs at h
  cases h
  rfl

/-- The text `YYYY-MM-DDTHH:MM:SS[.ffffff]` of the reading, followed by the offset. -/
def isoformat (d : Datetime) : List Char :=
  dateText (d.wall / usPerDay) ++ ('T' :: timeText (d.wall % usPerDay / usPerSecond) ++
    (fractionText (d.wall % usPerSecond) ++ (d.offset.map Offset.text).getD []))

/-- Among aware datetimes, later readings have later texts. -/
theorem isoformat_lt_of_wall_lt {d e : Datetime} (hd : d.Aware) (h : d.wall < e.wall) :
    d.isoformat < e.isoformat := by
  have hlt : (d.wall : ℕ) < e.wall := h
  have hmax := e.wall.isLt
  have hday : (e.wall : ℕ) / usPerDay < maxDays :=
    Nat.div_lt_of_lt_mul (hmax.trans_eq (Nat.mul_comm _ _))
  obtain ⟨o, ho⟩ := Option.isSome_iff_exists.mp hd
  simp only [isoformat, ho, Option.map_some, Option.getD_some]
  rcases (Nat.div_le_div_right hlt.le : (d.wall : ℕ) / usPerDay ≤ e.wall / usPerDay).lt_or_eq
    with hdate | hdate
  · exact append_lt_append (by simp) (dateText_lt hday hdate)
  rw [hdate]
  refine append_lt_append_left _ ?_
  simp only [usPerDay, usPerSecond] at *
  rcases Nat.lt_or_ge ((d.wall : ℕ) % (86400 * 1000000) / 1000000)
    ((e.wall : ℕ) % (86400 * 1000000) / 1000000) with hsec | hsec
  · exact append_lt_append (by simp) (List.Lex.cons (timeText_lt (by omega) hsec))
  have hsec' : (d.wall : ℕ) % (86400 * 1000000) / 1000000 =
      (e.wall : ℕ) % (86400 * 1000000) / 1000000 := by omega
  have hus : (d.wall : ℕ) % 1000000 < (e.wall : ℕ) % 1000000 := by omega
  rw [hsec']
  refine append_lt_append_left _ ?_
  -- A zero fraction is not written; its place is taken by the sign of the offset.
  have he0 : (e.wall : ℕ) % 1000000 ≠ 0 := by omega
  simp only [fractionText, he0, ↓reduceIte]
  by_cases hd0 : (d.wall : ℕ) % 1000000 = 0
  · simp only [hd0, ↓reduceIte, List.nil_append, Offset.text_eq, List.cons_append]
    refine List.cons_lt_cons_iff.mpr (Or.inl ?_)
    split_ifs <;> decide
  · simp only [hd0, ↓reduceIte]
    exact append_lt_append (by simp) (cons_digits_lt '.' (by omega) hus)

/-- The datetime of the same instant in UTC; a datetime whose instant is out of the range of UTC
datetimes is left as it is. -/
def toUtc (d : Datetime) : Datetime :=
  if h : 0 ≤ d.instant ∧ d.instant < (maxDays * usPerDay : ℕ) then
    utc ⟨d.instant.toNat, by omega⟩
  else d

theorem toUtc_of_isUtc {d : Datetime} (h : d.IsUtc) : d.toUtc = d := by
  have hinstant := h.instant_eq
  have hlt := d.wall.isLt
  have hrange : 0 ≤ d.instant ∧ d.instant < (maxDays * usPerDay : ℕ) := by omega
  have hwall : (⟨d.instant.toNat, by omega⟩ : Fin (maxDays * usPerDay)) = d.wall :=
    Fin.ext ((congrArg Int.toNat hinstant).trans (Int.toNat_natCast _))
  rw [toUtc, dif_pos hrange, hwall, utc, ← h.offset_eq]

@[simp] theorem instant_toUtc (d : Datetime) : d.toUtc.instant = d.instant := by
  rw [toUtc]
  split_ifs with h
  · rw [(isUtc_utc _).instant_eq]
    exact Int.toNat_of_nonneg h.1
  · rfl

theorem Aware.toUtc {d : Datetime} (h : d.Aware) : d.toUtc.Aware := by
  rw [Datetime.toUtc]
  split_ifs
  · exact (isUtc_utc _).aware
  · exact h

/-- **The text order of UTC datetimes is the order of instants.** -/
theorem isoformat_utc_lt_iff {d e : Datetime} (hd : d.IsUtc) (he : e.IsUtc) :
    d.isoformat < e.isoformat ↔ d.instant < e.instant := by
  rw [hd.instant_eq, he.instant_eq, Nat.cast_lt, Fin.val_fin_lt]
  constructor
  · intro h
    by_contra hle
    rcases (not_lt.mp hle).lt_or_eq with hlt | heq
    · exact lt_asymm h (isoformat_lt_of_wall_lt he.aware hlt)
    · have : d = e := by
        cases d
        cases e
        simp_all [IsUtc]
      exact lt_irrefl _ (this ▸ h)
  · exact isoformat_lt_of_wall_lt hd.aware

theorem isoformat_utc_le_iff {d e : Datetime} (hd : d.IsUtc) (he : e.IsUtc) :
    d.isoformat ≤ e.isoformat ↔ d.instant ≤ e.instant := by
  rw [← not_lt, ← not_lt, isoformat_utc_lt_iff he hd]

theorem isoformat_utc_eq_iff {d e : Datetime} (hd : d.IsUtc) (he : e.IsUtc) :
    d.isoformat = e.isoformat ↔ d.instant = e.instant := by
  rw [le_antisymm_iff, le_antisymm_iff, isoformat_utc_le_iff hd he, isoformat_utc_le_iff he hd]

/-! ### Readings in different offsets -/

/-- The UTC offset in microseconds. -/
def offsetUs (d : Datetime) : ℤ := (d.offset.map Offset.us).getD 0

theorem instant_eq_sub (d : Datetime) : d.instant = (d.wall : ℤ) - d.offsetUs := rfl

/-- The text order of aware datetimes is the order of the readings and, of equal readings, of the
texts of the offsets. -/
theorem isoformat_le_iff {d e : Datetime} {a b : Offset} (hd : d.offset = some a)
    (he : e.offset = some b) : d.isoformat ≤ e.isoformat ↔
      d.wall < e.wall ∨ d.wall = e.wall ∧ a.text ≤ b.text := by
  have hdaware : d.Aware := by rw [Aware, hd]; rfl
  have heaware : e.Aware := by rw [Aware, he]; rfl
  rcases lt_trichotomy d.wall e.wall with hlt | heq | hgt
  · exact iff_of_true (isoformat_lt_of_wall_lt hdaware hlt).le (.inl hlt)
  · have hcommon : d.isoformat ≤ e.isoformat ↔ a.text ≤ b.text := by
      rw [isoformat, isoformat, heq, hd, he, ← not_lt, ← not_lt]
      simp only [Option.map_some, Option.getD_some, ← List.append_assoc, append_lt_append_left_iff]
    rw [hcommon, or_iff_right heq.not_lt, and_iff_right heq]
  · refine iff_of_false (isoformat_lt_of_wall_lt heaware hgt).not_ge ?_
    rintro (hlt | ⟨heq, -⟩)
    · exact lt_asymm hlt hgt
    · exact hgt.ne' heq

/-- One of two readings in different offsets is passed by the clock before the other one, but not in
time: a reading lies in between, or the two are the same, in offsets none of which is to
the west. -/
def Misread (d e : Datetime) : Prop :=
  let ahead : ℤ := (d.wall : ℤ) - e.wall
  let shift := d.offsetUs - e.offsetUs
  (0 < ahead ∧ ahead ≤ shift) ∨ (shift < ahead ∧ ahead < 0) ∨
    (ahead = 0 ∧ shift ≠ 0 ∧ 0 ≤ d.offsetUs ∧ 0 ≤ e.offsetUs)

instance (d e : Datetime) : Decidable (Misread d e) :=
  inferInstanceAs (Decidable (_ ∨ _ ∨ _))

/-- **The text order of aware datetimes is the order of instants**, unless one of them
is misread. -/
theorem isoformat_le_iff_instant_le_iff {d e : Datetime} (hd : d.Aware) (he : e.Aware) :
    (d.isoformat ≤ e.isoformat ↔ d.instant ≤ e.instant) ↔ ¬ Misread d e := by
  obtain ⟨a, ha⟩ := Option.isSome_iff_exists.mp hd
  obtain ⟨b, hb⟩ := Option.isSome_iff_exists.mp he
  have hda : d.offsetUs = a.us := by rw [offsetUs, ha]; rfl
  have heb : e.offsetUs = b.us := by rw [offsetUs, hb]; rfl
  have hwall : d.wall < e.wall ↔ (d.wall : ℕ) < e.wall := Iff.rfl
  have heq : d.wall = e.wall ↔ (d.wall : ℕ) = e.wall := Fin.ext_iff
  rw [isoformat_le_iff ha hb, Offset.text_le_iff, instant_eq_sub, instant_eq_sub, Misread, hda, heb,
    hwall, heq]
  omega

end Datetime

end OpenRath
