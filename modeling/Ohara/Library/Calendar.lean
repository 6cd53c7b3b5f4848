import Mathlib.Data.Char
import Ohara.Library.Numerals

/-!
# The Gregorian calendar of unix times

Years, months, days and times of day of a number of seconds, in the calendar extended to all
years, and their text in RFC 3339. A later time has later fields; the text has four year digits
from year 0 to year 9999, where texts compare as the times do, and a sign outside.
-/

namespace Calendar

open Numerals

/-- Days before a year, counted from the first day of the year one. -/
def daysBeforeYear (year : Int) : Int :=
    365 * (year - 1) + (year - 1) / 4 - (year - 1) / 100 + (year - 1) / 400

/-- The year of a day, by cycles of 400, 100, 4 and single years. -/
def yearOf (day : Int) : Int :=
    let inCycle := day % 146097
    let century := min (inCycle / 36524) 3
    let inCentury := inCycle - 36524 * century
    let fourth := inCentury / 1461
    let single := min (inCentury % 1461 / 365) 3
    400 * (day / 146097) + 100 * century + 4 * fourth + single + 1

/-- The Gregorian rule. -/
def isLeap (year : Int) : Bool :=
    year % 4 == 0 && (year % 100 != 0 || year % 400 == 0)

theorem daysBeforeYear_le {a b : Int} (before : a ≤ b) : daysBeforeYear a ≤ daysBeforeYear b := by
  simp only [daysBeforeYear]
  omega

theorem daysBeforeYear_cycles (cycle century fourth single : Int)
    (centuries : 0 ≤ century ∧ century ≤ 3) (fourths : 0 ≤ fourth ∧ fourth ≤ 24)
    (singles : 0 ≤ single ∧ single ≤ 3) :
    daysBeforeYear (400 * cycle + 100 * century + 4 * fourth + single + 1) =
      146097 * cycle + 36524 * century + 1461 * fourth + 365 * single := by
  have by_four : (400 * cycle + 100 * century + 4 * fourth + single) / 4 =
      100 * cycle + 25 * century + fourth := by omega
  have by_hundred : (400 * cycle + 100 * century + 4 * fourth + single) / 100 =
      4 * cycle + century := by omega
  have by_four_hundred : (400 * cycle + 100 * century + 4 * fourth + single) / 400 = cycle := by
    omega
  rw [daysBeforeYear, Int.add_sub_cancel, by_four, by_hundred, by_four_hundred]
  omega

/-- The year after one, where the smaller cycles may be full. -/
theorem daysBeforeYear_next (cycle century fourth single : Int)
    (centuries : 0 ≤ century ∧ century ≤ 3) (fourths : 0 ≤ fourth ∧ fourth ≤ 24)
    (singles : 0 ≤ single ∧ single ≤ 3) :
    daysBeforeYear (400 * cycle + 100 * century + 4 * fourth + single + 1 + 1) =
      if single < 3 then 146097 * cycle + 36524 * century + 1461 * fourth + 365 * (single + 1)
      else if fourth < 24 then 146097 * cycle + 36524 * century + 1461 * (fourth + 1)
      else if century < 3 then 146097 * cycle + 36524 * (century + 1)
      else 146097 * (cycle + 1) := by
  split_ifs with more_singles more_fourths more_centuries
  · rw [← daysBeforeYear_cycles cycle century fourth (single + 1) centuries fourths (by omega)]
    congr 1
    omega
  · have next := daysBeforeYear_cycles cycle century (fourth + 1) 0 centuries (by omega) (by omega)
    rw [show 400 * cycle + 100 * century + 4 * fourth + single + 1 + 1 =
      400 * cycle + 100 * century + 4 * (fourth + 1) + 0 + 1 by omega, next]
    omega
  · have next := daysBeforeYear_cycles cycle (century + 1) 0 0 (by omega) (by omega) (by omega)
    rw [show 400 * cycle + 100 * century + 4 * fourth + single + 1 + 1 =
      400 * cycle + 100 * (century + 1) + 4 * 0 + 0 + 1 by omega, next]
    omega
  · have next := daysBeforeYear_cycles (cycle + 1) 0 0 0 (by omega) (by omega) (by omega)
    rw [show 400 * cycle + 100 * century + 4 * fourth + single + 1 + 1 =
      400 * (cycle + 1) + 100 * 0 + 4 * 0 + 0 + 1 by omega, next]
    omega

theorem yearOf_spec (day : Int) :
    daysBeforeYear (yearOf day) ≤ day ∧ day < daysBeforeYear (yearOf day + 1) := by
  simp only [yearOf]
  generalize cycle_eq : day / 146097 = cycle
  generalize inCycle_eq : day % 146097 = inCycle
  generalize century_eq : min (inCycle / 36524) 3 = century
  generalize fourth_eq : (inCycle - 36524 * century) / 1461 = fourth
  generalize single_eq : min ((inCycle - 36524 * century) % 1461 / 365) 3 = single
  have centuries : 0 ≤ century ∧ century ≤ 3 := by omega
  have fourths : 0 ≤ fourth ∧ fourth ≤ 24 := by omega
  have singles : 0 ≤ single ∧ single ≤ 3 := by omega
  rw [daysBeforeYear_cycles cycle century fourth single centuries fourths singles,
    daysBeforeYear_next cycle century fourth single centuries fourths singles]
  split_ifs <;> omega

theorem yearOf_le {a b : Int} (before : a ≤ b) : yearOf a ≤ yearOf b := by
  by_contra later
  have gap := daysBeforeYear_le (show yearOf b + 1 ≤ yearOf a by omega)
  have a_spec := yearOf_spec a
  have b_spec := yearOf_spec b
  omega

/-! ## Months -/

/-- The days of the year before each month. -/
def monthStarts (leap : Bool) : List Nat :=
    if leap then [0, 31, 60, 91, 121, 152, 182, 213, 244, 274, 305, 335]
    else [0, 31, 59, 90, 120, 151, 181, 212, 243, 273, 304, 334]

/-- The month of a day of the year, from one on. -/
def monthOf (leap : Bool) (dayOfYear : Nat) : Nat :=
    (monthStarts leap).countP (· ≤ dayOfYear)

/-- The day within the month, from one on. -/
def dayOfMonth (leap : Bool) (dayOfYear : Nat) : Nat :=
    dayOfYear - (monthStarts leap).getD (monthOf leap dayOfYear - 1) 0 + 1

theorem month_spec : ∀ (leap : Bool) (dayOfYear : Fin 366),
    monthOf leap dayOfYear ≤ 12 ∧ dayOfMonth leap dayOfYear ≤ 32 ∧
      (monthStarts leap).getD (monthOf leap dayOfYear - 1) 0 ≤ dayOfYear := by
  decide +kernel

theorem monthOf_le (leap : Bool) {a b : Nat} (before : a ≤ b) : monthOf leap a ≤ monthOf leap b := by
  apply List.countP_mono_left
  intro start _ started
  have bound : start ≤ a := by simpa using started
  simpa using bound.trans before

/-- A later day of a year has a later month, or the same month and a later day of it. -/
theorem month_lt (leap : Bool) {a b : Nat} (before : a < b) (in_year : b < 366) :
    monthOf leap a < monthOf leap b ∨
      monthOf leap a = monthOf leap b ∧ dayOfMonth leap a < dayOfMonth leap b := by
  rcases Nat.lt_or_ge (monthOf leap a) (monthOf leap b) with earlier | not_earlier
  · exact Or.inl earlier
  · have same := Nat.le_antisymm (monthOf_le leap before.le) not_earlier
    have started := (month_spec leap ⟨a, by omega⟩).2.2
    simp only at started
    refine Or.inr ⟨same, ?_⟩
    rw [dayOfMonth, dayOfMonth, ← same]
    omega

/-! ## Date and time -/

/-- Date and time of day. -/
structure DateTime where
  year : Int
  month : Nat
  day : Nat
  hour : Nat
  minute : Nat
  second : Nat
deriving DecidableEq, Repr

/-- The day of a number of seconds since 1970, counted from the first day of the year one. -/
def dayOf (seconds : Int) : Int :=
    seconds / 86400 + 719162

/-- The date of the seconds since 1970. -/
def ofUnix (seconds : Int) : DateTime :=
    let day := dayOf seconds
    let year := yearOf day
    let dayOfYear := (day - daysBeforeYear year).toNat
    let secondOfDay := (seconds % 86400).toNat
    { year := year
      month := monthOf (isLeap year) dayOfYear
      day := dayOfMonth (isLeap year) dayOfYear
      hour := secondOfDay / 3600
      minute := secondOfDay / 60 % 60
      second := secondOfDay % 60 }

/-- The first field that differs is smaller. -/
def DateTime.Before (a b : DateTime) : Prop :=
    a.year < b.year ∨ a.year = b.year ∧ (a.month < b.month ∨ a.month = b.month ∧
      (a.day < b.day ∨ a.day = b.day ∧ (a.hour < b.hour ∨ a.hour = b.hour ∧
        (a.minute < b.minute ∨ a.minute = b.minute ∧ a.second < b.second))))

theorem ofUnix_before {a b : Int} (before : a < b) : (ofUnix a).Before (ofUnix b) := by
  have days : dayOf a ≤ dayOf b := by
    rw [dayOf, dayOf]
    omega
  have a_spec := yearOf_spec (dayOf a)
  have b_spec := yearOf_spec (dayOf b)
  rcases Int.lt_or_eq_of_le (yearOf_le days) with earlier | same_year
  · exact Or.inl earlier
  · refine Or.inr ⟨same_year, ?_⟩
    rw [same_year] at a_spec
    rcases Int.lt_or_eq_of_le days with earlier | same_day
    · have in_year : (dayOf b - daysBeforeYear (yearOf (dayOf b))).toNat < 366 := by
        simp only [daysBeforeYear] at b_spec ⊢
        omega
      have months := month_lt (isLeap (yearOf (dayOf b)))
        (a := (dayOf a - daysBeforeYear (yearOf (dayOf b))).toNat)
        (b := (dayOf b - daysBeforeYear (yearOf (dayOf b))).toNat) (by omega) in_year
      simp only [ofUnix, same_year]
      tauto
    · simp only [ofUnix, same_day, true_and, lt_self_iff_false, false_or]
      rw [dayOf, dayOf] at same_day
      omega

/-! ## Text -/

/-- The character of a digit. -/
def decimalDigit (digit : Nat) : Char :=
    "0123456789".toList.getD digit '0'

/-- A number in decimals, with zeros in front up to the width. -/
def decimal (width n : Nat) : List Char :=
    numeral decimalDigit 10 width n

theorem decimalDigit_strictMonoOn : StrictMonoOn decimalDigit (Set.Iio 10) := by
  have pairs : ∀ m < 10, ∀ n < 10, m < n → decimalDigit m < decimalDigit n := by decide
  intro m m_digit n n_digit less
  exact pairs m m_digit n n_digit less

theorem decimal_append_lt_iff {width m n : Nat} (m_short : m < 10 ^ width)
    (n_short : n < 10 ^ width) (xs ys : List Char) :
    decimal width m ++ xs < decimal width n ++ ys ↔ m < n ∨ m = n ∧ xs < ys :=
  numeral_append_lt_iff decimalDigit_strictMonoOn (by decide) m_short n_short xs ys

/-- The digits of a year outside the years 0 to 9999, four at least. -/
def yearWidth (year : Nat) : Nat :=
    if year < 10000 then 4 else if year < 100000 then 5 else 6

/-- Four digits, or a sign and as many as it takes. -/
def yearText (year : Int) : List Char :=
    if 0 ≤ year ∧ year ≤ 9999 then decimal 4 year.toNat
    else (if year < 0 then '-' else '+') :: decimal (yearWidth year.natAbs) year.natAbs

/-- RFC 3339 in UTC, to the second. -/
def DateTime.text (d : DateTime) : List Char :=
    yearText d.year ++ '-' :: (decimal 2 d.month ++ '-' :: (decimal 2 d.day ++ 'T' ::
      (decimal 2 d.hour ++ ':' :: (decimal 2 d.minute ++ ':' :: (decimal 2 d.second ++
        "+00:00".toList)))))

/-- Every field but the year fits its two digits. -/
def DateTime.Short (d : DateTime) : Prop :=
    d.month < 100 ∧ d.day < 100 ∧ d.hour < 100 ∧ d.minute < 100 ∧ d.second < 100

theorem ofUnix_short (seconds : Int) : (ofUnix seconds).Short := by
  have spec := yearOf_spec (dayOf seconds)
  have in_year : (dayOf seconds - daysBeforeYear (yearOf (dayOf seconds))).toNat < 366 := by
    simp only [daysBeforeYear] at spec ⊢
    omega
  have fits := month_spec (isLeap (yearOf (dayOf seconds))) ⟨_, in_year⟩
  simp only at fits
  simp only [DateTime.Short, ofUnix]
  omega

/-! ## The order of the texts -/

/-- The text after the year. -/
def DateTime.afterYear (d : DateTime) : List Char :=
    '-' :: (decimal 2 d.month ++ '-' :: (decimal 2 d.day ++ 'T' ::
      (decimal 2 d.hour ++ ':' :: (decimal 2 d.minute ++ ':' :: (decimal 2 d.second ++
        "+00:00".toList)))))

theorem before_iff {a b : DateTime} (a_short : a.Short) (b_short : b.Short) :
    a.Before b ↔ a.year < b.year ∨ a.year = b.year ∧ a.afterYear < b.afterYear := by
  rcases a_short with ⟨a_month, a_day, a_hour, a_minute, a_second⟩
  rcases b_short with ⟨b_month, b_day, b_hour, b_minute, b_second⟩
  rw [DateTime.afterYear, DateTime.afterYear, List.cons_lt_cons_iff,
    decimal_append_lt_iff a_month b_month, List.cons_lt_cons_iff,
    decimal_append_lt_iff a_day b_day, List.cons_lt_cons_iff,
    decimal_append_lt_iff a_hour b_hour, List.cons_lt_cons_iff,
    decimal_append_lt_iff a_minute b_minute, List.cons_lt_cons_iff,
    decimal_append_lt_iff a_second b_second]
  simp [DateTime.Before]

/-- The digits of a year at six places, filled up at the end. -/
def leading (year : Nat) : Nat :=
    year * 10 ^ (6 - yearWidth year)

theorem yearWidth_short {year : Nat} (small : year < 1000000) : year < 10 ^ yearWidth year := by
  rw [yearWidth]
  split_ifs <;> omega

theorem leading_of_shorter {m n : Nat} (m_small : m < 1000000) (n_small : n < 1000000)
    (shorter : yearWidth m < yearWidth n) :
    (m * 10 ^ (yearWidth n - yearWidth m) ≤ n ↔ leading m ≤ leading n) ∧ m < n := by
  simp only [leading, yearWidth] at shorter ⊢
  split_ifs at shorter ⊢ <;> omega

theorem leading_lt_of_width {m n : Nat} (same : yearWidth m = yearWidth n) :
    (leading m < leading n ↔ m < n) ∧ (leading m = leading n ↔ m = n) := by
  have power : 0 < 10 ^ (6 - yearWidth n) := Nat.pow_pos (by decide)
  rw [leading, leading, same]
  exact ⟨Nat.mul_lt_mul_right power, Nat.mul_left_inj power.ne'⟩

/-- Years of different lengths compare by their leading digits, and then the shorter is less. -/
theorem decimal_year_lt_iff {m n : Nat} (m_small : m < 1000000) (n_small : n < 1000000)
    (xs ys : List Char) :
    decimal (yearWidth m) m ++ '-' :: xs < decimal (yearWidth n) n ++ '-' :: ys ↔
      leading m < leading n ∨ leading m = leading n ∧ (m < n ∨ m = n ∧ xs < ys) := by
  have m_short := yearWidth_short m_small
  have n_short := yearWidth_short n_small
  have signs : ∀ d < 10, '-' < decimalDigit d := by decide
  rcases Nat.lt_trichotomy (yearWidth m) (yearWidth n) with shorter | same | longer
  · rcases leading_of_shorter m_small n_small shorter with ⟨below, less⟩
    have width : yearWidth n = yearWidth m + (yearWidth n - yearWidth m) := by omega
    rw [width] at n_short
    rw [decimal, decimal, width, shorter_numeral_lt_iff decimalDigit_strictMonoOn (by decide)
      (Nat.sub_pos_of_lt shorter) m_short n_short signs, below]
    omega
  · rcases leading_lt_of_width same with ⟨lt_iff, eq_iff⟩
    rw [same] at m_short ⊢
    rw [decimal_append_lt_iff m_short n_short, List.cons_lt_cons_iff, lt_iff, eq_iff]
    simp only [lt_self_iff_false, true_and, false_or]
    tauto
  · rcases leading_of_shorter n_small m_small longer with ⟨below, less⟩
    have width : yearWidth m = yearWidth n + (yearWidth m - yearWidth n) := by omega
    rw [width] at m_short
    rw [decimal, decimal, width, longer_numeral_lt_iff decimalDigit_strictMonoOn (by decide)
      (Nat.sub_pos_of_lt longer) n_short m_short signs, ← not_le, below]
    omega

/-- Where the sign of a year stands among the signs: a plus, a minus, none. -/
def signOrder (year : Int) : Nat :=
    if 9999 < year then 0 else if year < 0 then 1 else 2

theorem signOrder_cases (year : Int) :
    9999 < year ∧ signOrder year = 0 ∨ year < 0 ∧ signOrder year = 1 ∨
      0 ≤ year ∧ year ≤ 9999 ∧ signOrder year = 2 := by
  rw [signOrder]
  split_ifs <;> omega

/-- The sign in front of a year outside of four digits. -/
def signText (year : Int) : List Char :=
    if 9999 < year then ['+'] else if year < 0 then ['-'] else []

theorem text_eq (d : DateTime) :
    d.text = signText d.year ++
      (decimal (yearWidth d.year.natAbs) d.year.natAbs ++ d.afterYear) := by
  rw [DateTime.text, yearText, signText, ← DateTime.afterYear]
  split_ifs with in_range
  · omega
  · omega
  · have width : yearWidth d.year.natAbs = 4 := by
      rw [yearWidth, if_pos (by omega)]
    have digits : d.year.natAbs = d.year.toNat := by omega
    rw [width, digits]
    rfl
  · omega
  · rfl
  · rfl
  · omega

theorem text_plus {d : DateTime} (after : 9999 < d.year) : ∃ rest, d.text = '+' :: rest := by
  rw [text_eq, signText, if_pos after]
  exact ⟨_, rfl⟩

theorem text_minus {d : DateTime} (negative : d.year < 0) : ∃ rest, d.text = '-' :: rest := by
  rw [text_eq, signText, if_neg (by omega), if_pos negative]
  exact ⟨_, rfl⟩

theorem text_digit {d : DateTime} (in_range : 0 ≤ d.year ∧ d.year ≤ 9999) :
    ∃ digit < 10, ∃ rest, d.text = decimalDigit digit :: rest := by
  rw [DateTime.text, yearText, if_pos in_range]
  exact ⟨_, Nat.mod_lt _ (by decide), _, rfl⟩

theorem text_lt_of_signOrder {a b : DateTime} (signs : signOrder a.year < signOrder b.year) :
    a.text < b.text := by
  have digits : ∀ d < 10, '+' < decimalDigit d ∧ '-' < decimalDigit d := by decide
  simp only [signOrder] at signs
  split_ifs at signs with a_after b_after b_negative a_negative <;> try omega
  · rcases text_plus a_after with ⟨xs, a_text⟩
    rcases text_minus b_negative with ⟨ys, b_text⟩
    rw [a_text, b_text, List.cons_lt_cons_iff]
    exact Or.inl (by decide)
  · rcases text_plus a_after with ⟨xs, a_text⟩
    rcases text_digit (d := b) (by omega) with ⟨digit, digit_lt, ys, b_text⟩
    rw [a_text, b_text, List.cons_lt_cons_iff]
    exact Or.inl (digits digit digit_lt).1
  · rcases text_minus a_negative with ⟨xs, a_text⟩
    rcases text_digit (d := b) (by omega) with ⟨digit, digit_lt, ys, b_text⟩
    rw [a_text, b_text, List.cons_lt_cons_iff]
    exact Or.inl (digits digit digit_lt).2

/-- Texts compare by the signs of their years, then by the digits. -/
theorem text_lt_iff {a b : DateTime} (a_small : a.year.natAbs < 1000000)
    (b_small : b.year.natAbs < 1000000) :
    a.text < b.text ↔ signOrder a.year < signOrder b.year ∨ signOrder a.year = signOrder b.year ∧
      (leading a.year.natAbs < leading b.year.natAbs ∨
        leading a.year.natAbs = leading b.year.natAbs ∧
          (a.year.natAbs < b.year.natAbs ∨
            a.year.natAbs = b.year.natAbs ∧ a.afterYear < b.afterYear)) := by
  rcases Nat.lt_trichotomy (signOrder a.year) (signOrder b.year) with less | same | more
  · simp [less, text_lt_of_signOrder less]
  · have signs : signText a.year = signText b.year := by
      simp only [signOrder] at same
      simp only [signText]
      split_ifs at same ⊢ <;> first | rfl | omega
    rw [text_eq, text_eq, signs, append_lt_append_iff rfl, DateTime.afterYear, DateTime.afterYear,
      decimal_year_lt_iff a_small b_small, List.cons_lt_cons_iff]
    simp [same]
  · have not_less := (text_lt_of_signOrder more).not_gt
    simp only [not_less, false_iff]
    omega

/-- When the later of two years does not come first in the texts. -/
def YearsInOrder (earlier later : Int) : Prop :=
    earlier = later ∨ 0 ≤ later ∧ later ≤ 9999 ∨
      later < 0 ∧ leading earlier.natAbs < leading later.natAbs ∨
      9999 < earlier ∧ leading earlier.natAbs ≤ leading later.natAbs

instance (earlier later : Int) : Decidable (YearsInOrder earlier later) :=
  inferInstanceAs (Decidable (_ ∨ _))

section Before

variable {a b : DateTime} (a_short : a.Short) (b_short : b.Short)
  (a_small : a.year.natAbs < 1000000) (b_small : b.year.natAbs < 1000000) (before : a.Before b)

include a_short b_short a_small b_small before

theorem text_lt_iff_of_before : a.text < b.text ↔ YearsInOrder a.year b.year := by
  rw [text_lt_iff a_small b_small]
  rcases (before_iff a_short b_short).1 before with earlier | ⟨same, rest⟩
  · have a_sign := signOrder_cases a.year
    have b_sign := signOrder_cases b.year
    have negative : b.year < 0 → b.year.natAbs < a.year.natAbs := by omega
    have positive : 0 ≤ a.year → a.year.natAbs < b.year.natAbs := by omega
    have four_digits : 0 ≤ a.year → b.year ≤ 9999 →
        leading a.year.natAbs < leading b.year.natAbs := by
      intro a_positive b_four
      have a_width : yearWidth a.year.natAbs = 4 := if_pos (by omega)
      have b_width : yearWidth b.year.natAbs = 4 := if_pos (by omega)
      exact (leading_lt_of_width (a_width.trans b_width.symm)).1.2 (positive a_positive)
    rw [YearsInOrder]
    by_cases rest : a.afterYear < b.afterYear <;>
      simp only [rest, and_true, and_false, or_false] <;> omega
  · rw [same]
    simp [rest, YearsInOrder]

theorem text_ne_of_before : a.text ≠ b.text := by
  intro same
  have not_below : ¬a.text < b.text := by simp [same]
  have not_above : ¬b.text < a.text := by simp [same]
  rw [text_lt_iff a_small b_small] at not_below
  rw [text_lt_iff b_small a_small] at not_above
  have signs : signOrder a.year = signOrder b.year := by omega
  have digits : a.year.natAbs = b.year.natAbs := by omega
  have years : a.year = b.year := by
    have a_sign := signOrder_cases a.year
    have b_sign := signOrder_cases b.year
    omega
  rcases (before_iff a_short b_short).1 before with earlier | ⟨_, rest⟩
  · omega
  · simp [signs, digits, rest] at not_below

end Before

end Calendar
