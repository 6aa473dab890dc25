import OpenRath.Library.Datetime

/-!
# Reading datetimes

`datetime.fromisoformat` on the texts in the form that `isoformat` writes, where it is the inverse.
Texts in other forms, some of which Python reads as well, are refused here.

## Main definitions

* `FixedWidth.readDigits`: the number in the digits at the beginning of a text.
* `Calendar.dayNumber?`: the number of the day with a date.
* `Datetime.ofIsoformat`: the datetime with a text.

## Main results

* `Datetime.ofIsoformat_isoformat`: the text of a datetime is read as the datetime.
-/

namespace OpenRath

/-! ### Decimal digits -/

namespace FixedWidth

/-- The number in a number of digits, behind those that have been read, and the rest of the text. -/
def readDigits : ℕ → ℕ → List Char → Option (ℕ × List Char)
  | 0, n, t => some (n, t)
  | w + 1, n, c :: t => if c.isDigit then readDigits w (10 * n + (c.toNat - 48)) t else none
  | _ + 1, _, [] => none

/-- The rest of a text that begins with a character. -/
def readChar (c : Char) : List Char → Option (List Char)
  | [] => none
  | d :: t => if d = c then some t else none

theorem readChar_cons (c : Char) (t : List Char) : readChar c (c :: t) = some t := if_pos rfl

/-- The digits are read in two parts. -/
theorem readDigits_add (v w n : ℕ) (t : List Char) : readDigits (v + w) n t =
    (readDigits v n t).bind fun r => readDigits w r.1 r.2 := by
  induction v generalizing n t with
  | zero => rw [Nat.zero_add, readDigits, Option.bind_some]
  | succ v ih =>
    rw [Nat.succ_add]
    cases t with
    | nil => rfl
    | cons c t =>
      rw [readDigits, readDigits]
      split_ifs
      · exact ih _ t
      · rfl

theorem readDigits_digits_add (w m n : ℕ) (t : List Char) :
    readDigits w m (digits w n ++ t) = some (m * 10 ^ w + n % 10 ^ w, t) := by
  induction w generalizing m n t with
  | zero => simp [readDigits, digits, Nat.mod_one]
  | succ w ih =>
    have hdigit : ∀ k < 10, (digit k).isDigit = true ∧ (digit k).toNat - 48 = k := by decide
    obtain ⟨hisDigit, hvalue⟩ := hdigit (n % 10) (Nat.mod_lt n (by norm_num))
    rw [readDigits_add, digits, List.append_assoc, ih, Option.bind_some, List.singleton_append,
      readDigits, if_pos hisDigit, hvalue, readDigits]
    have hmod : n % 10 ^ (w + 1) = 10 * (n / 10 % 10 ^ w) + n % 10 := by
      rw [pow_succ, Nat.mul_comm, Nat.mod_mul, Nat.add_comm]
    rw [hmod, pow_succ]
    congr 2
    ring

/-- A number that fits is read as it was written. -/
theorem readDigits_digits {w n : ℕ} (h : n < 10 ^ w) (t : List Char) :
    readDigits w 0 (digits w n ++ t) = some (n, t) := by
  rw [readDigits_digits_add, Nat.mod_eq_of_lt h, Nat.zero_mul, Nat.zero_add]

end FixedWidth

/-! ### Dates and times -/

namespace Calendar

open FixedWidth

/-- The number of the day with a date, if there is one. -/
def dayNumber? (year month day : ℕ) : Option ℕ :=
  let lengths := monthLengths (isLeap year)
  if 1 ≤ year ∧ 1 ≤ month ∧ 1 ≤ day ∧ day ≤ lengths.getD (month - 1) 0 then
    some (daysBefore (year - 1) + (lengths.take (month - 1)).sum + (day - 1))
  else none

/-- The day with a text. -/
def readDate (t : List Char) : Option (ℕ × List Char) := do
  let (year, t) ← readDigits 4 0 t
  let t ← readChar '-' t
  let (month, t) ← readDigits 2 0 t
  let t ← readChar '-' t
  let (day, t) ← readDigits 2 0 t
  let n ← dayNumber? year month day
  some (n, t)

/-- The second of the day with a text. -/
def readTime (t : List Char) : Option (ℕ × List Char) := do
  let (hour, t) ← readDigits 2 0 t
  let t ← readChar ':' t
  let (minute, t) ← readDigits 2 0 t
  let t ← readChar ':' t
  let (second, t) ← readDigits 2 0 t
  if hour < 24 ∧ minute < 60 ∧ second < 60 then some (3600 * hour + 60 * minute + second, t)
  else none

/-- The microseconds in a fraction, if there is one. -/
def readFraction (t : List Char) : Option (ℕ × List Char) :=
  match readChar '.' t with
  | some t => readDigits 6 0 t
  | none => some (0, t)

/-- The month and the day of the month, counted back to the day of a period. -/
theorem monthDay_spec (m : ℕ) (ls : List ℕ) {d : ℕ} (hd : d < ls.sum) :
    ∃ i, (monthDay m ls d).1 = m + i ∧ 1 ≤ (monthDay m ls d).2 ∧
      (monthDay m ls d).2 ≤ ls.getD i 0 ∧ (ls.take i).sum + ((monthDay m ls d).2 - 1) = d := by
  induction ls generalizing m d with
  | nil => simp at hd
  | cons l ls ih =>
    rw [monthDay]
    split_ifs with h
    · exact ⟨0, by simp, by simp, by simpa using h, by simp⟩
    · rw [List.sum_cons] at hd
      obtain ⟨i, hmonth, hpos, hle, hsum⟩ := ih (m + 1) (d := d - l) (by omega)
      refine ⟨i + 1, by omega, hpos, by simpa using hle, ?_⟩
      rw [List.take_succ_cons, List.sum_cons]
      omega

/-- The date of a day leads back to its number. -/
theorem dayNumber?_monthDay (n : ℕ) :
    let md := monthDay 1 (monthLengths (isLeap (yearIndex n + 1))) (yearDay n)
    dayNumber? (yearIndex n + 1) md.1 md.2 = some n := by
  obtain ⟨i, hmonth, hpos, hle, hsum⟩ := monthDay_spec 1
    (monthLengths (isLeap (yearIndex n + 1))) (yearDay_lt n)
  dsimp only
  have hday := (daysBefore_yearIndex_le n).1
  rw [dayNumber?, hmonth, Nat.add_sub_cancel_left, Nat.add_sub_cancel]
  rw [if_pos ⟨by omega, by omega, hpos, hle⟩, Nat.add_assoc, hsum, yearDay]
  congr 1
  omega

theorem readDate_dateText {n : ℕ} (h : n < maxDays) (t : List Char) :
    readDate (dateText n ++ t) = some (n, t) := by
  have hyear := yearIndex_lt h
  obtain ⟨hmonth, hday⟩ := monthDay_bounds 1 (monthLengths (isLeap (yearIndex n + 1)))
    (by cases isLeap (yearIndex n + 1) <;> decide) (yearDay_lt n)
  have hlength : (monthLengths (isLeap (yearIndex n + 1))).length = 12 := rfl
  rw [dateText, readDate]
  simp only [List.append_assoc, List.cons_append, bind, Option.bind]
  rw [readDigits_digits (by omega)]
  simp only [readChar_cons]
  rw [readDigits_digits (by omega)]
  simp only [readChar_cons]
  rw [readDigits_digits (by omega)]
  simp only [dayNumber?_monthDay]

theorem readTime_timeText {s : ℕ} (h : s < 86400) (t : List Char) :
    readTime (timeText s ++ t) = some (s, t) := by
  rw [timeText, readTime]
  simp only [List.append_assoc, List.cons_append, bind, Option.bind]
  rw [readDigits_digits (by omega)]
  simp only [readChar_cons]
  rw [readDigits_digits (by omega)]
  simp only [readChar_cons]
  rw [readDigits_digits (by omega)]
  dsimp only
  rw [if_pos (by omega)]
  congr 2
  omega

/-- A fraction is read as it was written, unless there is a point behind it. -/
theorem readFraction_fractionText {us : ℕ} (h : us < 10 ^ 6) {t : List Char}
    (ht : readChar '.' t = none) : readFraction (fractionText us ++ t) = some (us, t) := by
  rw [fractionText, readFraction]
  split_ifs with hzero
  · rw [List.nil_append, ht, hzero]
  · rw [List.cons_append, readChar_cons]
    exact readDigits_digits h t

end Calendar

/-! ### Datetimes -/

open FixedWidth Calendar

namespace Offset

/-- The offset with a number of microseconds, if it is less than a day. -/
def ofUs? (us : ℤ) : Option Offset :=
  if h : -(usPerDay : ℤ) < us ∧ us < usPerDay then some ⟨us, h.1, h.2⟩ else none

theorem ofUs?_us (o : Offset) : ofUs? o.us = some o := dif_pos ⟨o.lower, o.upper⟩

/-- The seconds and the fraction of an offset, in microseconds, if they are there. -/
def readSeconds (t : List Char) : Option ℕ :=
  if t = [] then some 0
  else do
    let t ← readChar ':' t
    let (second, t) ← readDigits 2 0 t
    let (us, t) ← readFraction t
    if second < 60 ∧ t = [] then some (second * usPerSecond + us) else none

/-- The microseconds in the text of an offset behind its sign. -/
def readMagnitude (t : List Char) : Option ℕ := do
  let (hour, t) ← readDigits 2 0 t
  let t ← readChar ':' t
  let (minute, t) ← readDigits 2 0 t
  let seconds ← readSeconds t
  if minute < 60 then some ((3600 * hour + 60 * minute) * usPerSecond + seconds) else none

/-- The offset with a text, if there is one. -/
def read : List Char → Option (Option Offset)
  | [] => some none
  | c :: t =>
    if c = '+' then (readMagnitude t).bind fun n => (ofUs? n).map some
    else if c = '-' then (readMagnitude t).bind fun n => (ofUs? (-n)).map some
    else none

theorem readSeconds_secondsText {s us : ℕ} (hs : s < 60) (hus : us < usPerSecond) :
    readSeconds (secondsText s us) = some (s * usPerSecond + us) := by
  rw [secondsText]
  by_cases hzero : s = 0 ∧ us = 0
  · rw [if_pos hzero, readSeconds, if_pos rfl, hzero.1, hzero.2, Nat.zero_mul]
  · rw [if_neg hzero, readSeconds, if_neg (by simp)]
    simp only [List.cons_append, bind, Option.bind, readChar_cons]
    rw [readDigits_digits (by omega)]
    have hfraction : readFraction (fractionText us ++ []) = some (us, []) :=
      readFraction_fractionText hus rfl
    rw [List.append_nil] at hfraction
    simp only [hfraction]
    exact if_pos ⟨hs, trivial⟩

theorem readMagnitude_magnitude {n : ℕ} (h : n < usPerDay) :
    readMagnitude (magnitude n) = some n := by
  have hpos : 0 < usPerSecond := by decide
  have hseconds : n / usPerSecond < 86400 := Nat.div_lt_of_lt_mul (h.trans_eq (Nat.mul_comm _ _))
  rw [magnitude, readMagnitude]
  simp only [List.append_assoc, List.cons_append, bind, Option.bind]
  rw [readDigits_digits (by omega)]
  simp only [readChar_cons]
  rw [readDigits_digits (by omega)]
  simp only [readSeconds_secondsText (Nat.mod_lt _ (by norm_num : 0 < 60)) (Nat.mod_lt n hpos)]
  rw [if_pos (Nat.mod_lt _ (by norm_num))]
  have hsplit := Nat.div_add_mod n usPerSecond
  congr 1
  simp only [usPerSecond] at *
  omega

theorem read_text (o : Offset) : read o.text = some (some o) := by
  have hlower := o.lower
  have hupper := o.upper
  have hmagnitude : readMagnitude (magnitude o.us.natAbs) = some o.us.natAbs :=
    readMagnitude_magnitude (by omega)
  rw [text_eq]
  by_cases hneg : o.us < 0
  · have hus : -((o.us.natAbs : ℕ) : ℤ) = o.us := by omega
    rw [if_pos hneg, read, if_neg (by decide), if_pos rfl, hmagnitude, Option.bind_some, hus,
      ofUs?_us, Option.map_some]
  · have hus : ((o.us.natAbs : ℕ) : ℤ) = o.us := by omega
    rw [if_neg hneg, read, if_pos rfl, hmagnitude, Option.bind_some, hus, ofUs?_us, Option.map_some]

end Offset

namespace Datetime

/-- `datetime.fromisoformat`, of a text in the form that `isoformat` writes. -/
def ofIsoformat (t : List Char) : Option Datetime := do
  let (day, t) ← readDate t
  let t ← readChar 'T' t
  let (second, t) ← readTime t
  let (us, t) ← readFraction t
  let offset ← Offset.read t
  let wall := day * usPerDay + second * usPerSecond + us
  if h : wall < maxDays * usPerDay then some ⟨⟨wall, h⟩, offset⟩ else none

/-- **Datetimes.** The text of a datetime is read as the datetime. -/
theorem ofIsoformat_isoformat (d : Datetime) : ofIsoformat d.isoformat = some d := by
  obtain ⟨⟨wall, hwall⟩, offset⟩ := d
  have hday : wall / usPerDay < maxDays := Nat.div_lt_of_lt_mul (hwall.trans_eq (Nat.mul_comm _ _))
  have hsecond : wall % usPerDay / usPerSecond < 86400 :=
    Nat.div_lt_of_lt_mul ((Nat.mod_lt _ (by decide)).trans_eq (Nat.mul_comm _ _))
  have hus : wall % usPerSecond < 10 ^ 6 := Nat.mod_lt _ (by decide)
  have hpoint : readChar '.' ((offset.map Offset.text).getD []) = none := by
    rcases offset with _ | o
    · rfl
    · rw [Option.map_some, Option.getD_some, Offset.text_eq]
      split_ifs <;> rfl
  have hoffset : Offset.read ((offset.map Offset.text).getD []) = some offset := by
    rcases offset with _ | o
    · rfl
    · exact Offset.read_text o
  have hsum : wall / usPerDay * usPerDay + wall % usPerDay / usPerSecond * usPerSecond +
      wall % usPerSecond = wall := by
    have hsplit := Nat.div_add_mod wall usPerDay
    simp only [usPerDay, usPerSecond] at *
    omega
  rw [isoformat, ofIsoformat]
  simp only [List.cons_append, bind, Option.bind]
  rw [readDate_dateText hday]
  simp only [readChar_cons]
  rw [readTime_timeText hsecond]
  simp only [readFraction_fractionText hus hpoint, hoffset, hsum, dif_pos hwall]

end Datetime

end OpenRath
