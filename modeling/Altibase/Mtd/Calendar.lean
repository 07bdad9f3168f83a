/-
  Altibase.Mtd.Calendar
  ─────────────────────
  **THE CALENDAR OF THE DATE TYPE** (`mtdDateInterface`, `mtc`).

  Dates are Julian up to 1582-10-04; the next day is the Gregorian 1582-10-15.
  The year before year 1 is year 0.  The code numbers the days by closed
  formulas, with 0001-01-01 as day 0.

    * `dayNumber` — the days counted one by one, month by month and year by year;
    * `dayOfCommonEra_eq_dayNumber` — the closed formulas count the same;
    * `dayNumber_bounds`, `dayNumber_lt` — years do not overlap, and later dates
      have greater numbers.
-/
import Altibase.Lib.IntSum
import Mathlib.Tactic.IntervalCases
import Mathlib.Tactic.SplitIfs

namespace Altibase.Mtd

open Altibase.Lib

/-! ## §1. What the code computes. -/

/-- `isLeapYear`. -/
def isLeapYear (aYear : Int) : Bool :=
  aYear.tmod 4 = 0 && (aYear < 1583 || aYear.tmod 100 ≠ 0 || aYear.tmod 400 = 0)

/-- `mDaysOfMonth`. -/
def mDaysOfMonth : Bool → List Int
  | false => [0, 31, 28, 31, 30, 31, 30, 31, 31, 30, 31, 30, 31]
  | true => [0, 31, 29, 31, 30, 31, 30, 31, 31, 30, 31, 30, 31]

/-- `sDays` of `dayOfYear`: the days before each month. -/
def daysBeforeMonth : Bool → List Int
  | false => [0, 0, 31, 59, 90, 120, 151, 181, 212, 243, 273, 304, 334, 365]
  | true => [0, 0, 31, 60, 91, 121, 152, 182, 213, 244, 274, 305, 335, 366]

/-- `dayOfYear`. -/
def dayOfYear (aYear : Int) (aMonth aDay : Nat) : Int :=
  (daysBeforeMonth (isLeapYear aYear)).getD aMonth 0 + aDay

/-- **`dayOfCommonEra`**. -/
def dayOfCommonEra (aYear : Int) (aMonth aDay : Nat) : Int :=
  let sDays :=
    if aYear < 1582 then
      if aYear ≤ 0 then
        -- year 0 is 1 BC, a leap year
        aYear * 365 + aYear.tdiv 4 + dayOfYear aYear aMonth aDay - 366
      else
        (aYear - 1) * 365 + (aYear - 1).tdiv 4 + dayOfYear aYear aMonth aDay
    else if aYear = 1582 then
      -- 4 October is followed by 15 October
      if aMonth < 10 ∨ (aMonth = 10 ∧ aDay < 15) then
        (aYear - 1) * 365 + (aYear - 1).tdiv 4 + dayOfYear aYear aMonth aDay
      else
        (aYear - 1) * 365 + (aYear - 1).tdiv 4 + dayOfYear aYear aMonth aDay - 10
    else
      -- up to 1600 both calendars have the same leap years
      if aYear ≤ 1600 then
        (aYear - 1) * 365 + (aYear - 1).tdiv 4 + dayOfYear aYear aMonth aDay - 10
      else
        (aYear - 1) * 365 + (aYear - 1).tdiv 4 - (aYear - 1 - 1600).tdiv 100 +
          (aYear - 1 - 1600).tdiv 400 + dayOfYear aYear aMonth aDay - 10
  sDays - 1

/-- `dayOfWeek`: 0 is Sunday. -/
def dayOfWeek (aYear : Int) (aMonth aDay : Nat) : Int :=
  ((dayOfCommonEra aYear aMonth aDay).tmod 7 + 6).tmod 7

/-- `weekOfYear`; the quotient is a `double`, which `ceil` rounds up. -/
def weekOfYear (aYear : Int) (aMonth aDay : Nat) : Int :=
  (dayOfWeek aYear 1 1 + dayOfYear aYear aMonth aDay + 6) / 7

/-! ## §2. The time line. -/

/-- Years of 366 days: every fourth, and from 1583 on no centuries but every fourth. -/
def IsLeap (y : Int) : Prop := 4 ∣ y ∧ (y ≤ 1582 ∨ ¬ 100 ∣ y ∨ 400 ∣ y)

instance (y : Int) : Decidable (IsLeap y) := inferInstanceAs (Decidable (_ ∧ _))

/-- How many days a month has; ten of October 1582 were left out. -/
def monthDays (y : Int) (m : Nat) : Int :=
  if y = 1582 ∧ m = 10 then 21 else (mDaysOfMonth (decide (IsLeap y))).getD m 0

/-- How many days a year has. -/
def yearDays (y : Int) : Int := ∑ m ∈ Finset.range 12, monthDays y (m + 1)

/-- The place of a day in its month. -/
def placeInMonth (y : Int) (m d : Nat) : Int :=
  if y = 1582 ∧ m = 10 ∧ 15 ≤ d then (d : Int) - 10 else d

/-- **The number of a day**, counted from 0001-01-01 on. -/
def dayNumber (y : Int) (m d : Nat) : Int :=
  sumFrom yearDays 1 y + ∑ k ∈ Finset.range (m - 1), monthDays y (k + 1) +
    placeInMonth y m d - 1

/-- **A day of the calendar.** -/
structure ValidDay (y : Int) (m d : Nat) : Prop where
  month : 1 ≤ m ∧ m ≤ 12
  day : 1 ≤ d ∧ (d : Int) ≤ (mDaysOfMonth (isLeapYear y)).getD m 0
  gap : ¬ (y = 1582 ∧ m = 10 ∧ 4 < d ∧ d < 15)

/-! ## §3. The closed formulas. -/

theorem tmod_eq_zero_iff (a b : Int) : a.tmod b = 0 ↔ a % b = 0 := by
  rw [← Int.dvd_iff_tmod_eq_zero, ← Int.dvd_iff_emod_eq_zero]

theorem isLeapYear_iff (y : Int) :
    isLeapYear y = true ↔ y % 4 = 0 ∧ (y < 1583 ∨ y % 100 ≠ 0 ∨ y % 400 = 0) := by
  unfold isLeapYear
  simp only [Bool.and_eq_true, Bool.or_eq_true, decide_eq_true_eq, tmod_eq_zero_iff, ne_eq,
    or_assoc]

theorem isLeapYear_eq (y : Int) : isLeapYear y = decide (IsLeap y) := by
  rw [Bool.eq_iff_iff, isLeapYear_iff, decide_eq_true_eq]
  unfold IsLeap
  omega

/-- The days before year `y`, if the ten days are not left out. -/
def yearBase (y : Int) : Int :=
  365 * (y - 1) + (y - 1) / 4 - (if y ≤ 1600 then 0 else (y - 1601) / 100 - (y - 1601) / 400)

/-- The ten days that a day is after. -/
def gapBefore (y : Int) (m d : Nat) : Int :=
  if y < 1582 ∨ (y = 1582 ∧ (m < 10 ∨ (m = 10 ∧ d < 15))) then 0 else 10

/-- **One formula** for all years. -/
theorem dayOfCommonEra_eq (y : Int) (m d : Nat) :
    dayOfCommonEra y m d = yearBase y + dayOfYear y m d - gapBefore y m d - 1 := by
  obtain ⟨h1, h2, h3, h4, h5⟩ := tdiv_spec y (show (0 : Int) < 4 by decide)
  obtain ⟨h6, h7, h8, h9, h10⟩ := tdiv_spec (y - 1) (show (0 : Int) < 4 by decide)
  obtain ⟨h11, h12, h13, h14, h15⟩ := tdiv_spec (y - 1 - 1600) (show (0 : Int) < 100 by decide)
  obtain ⟨h16, h17, h18, h19, h20⟩ := tdiv_spec (y - 1 - 1600) (show (0 : Int) < 400 by decide)
  unfold dayOfCommonEra yearBase gapBefore
  generalize dayOfYear y m d = n
  dsimp only
  split_ifs <;> omega

theorem dayOfYear_first (y : Int) : dayOfYear y 1 1 = 1 := by
  unfold dayOfYear
  cases isLeapYear y <;> rfl

/-- The days before a month, without those that were left out. -/
theorem sum_monthDays (y : Int) {m : Nat} (h1 : 1 ≤ m) (hm : m ≤ 13) :
    ∑ k ∈ Finset.range (m - 1), monthDays y (k + 1) =
      (daysBeforeMonth (isLeapYear y)).getD m 0 - if y = 1582 ∧ 10 < m then 10 else 0 := by
  by_cases hy : y = 1582
  · subst hy
    interval_cases m <;> decide
  · have hmonth : ∀ k, monthDays y k = (mDaysOfMonth (isLeapYear y)).getD k 0 := by
      intro k
      unfold monthDays
      rw [if_neg (fun h => hy h.1), isLeapYear_eq]
    rw [if_neg (fun h => hy h.1)]
    simp only [hmonth]
    cases isLeapYear y <;> interval_cases m <;> decide

theorem yearDays_eq (y : Int) :
    yearDays y = if y = 1582 then 355 else if isLeapYear y then 366 else 365 := by
  have h := sum_monthDays y (m := 13) (by omega) (Nat.le_refl _)
  unfold yearDays
  rw [h]
  by_cases hy : y = 1582
  · subst hy
    decide
  · rw [if_neg hy, if_neg (fun h => hy h.1)]
    cases isLeapYear y <;> rfl

/-- The first day of a year. -/
def yearStart (y : Int) : Int := dayOfCommonEra y 1 1

theorem yearStart_eq (y : Int) : yearStart y = yearBase y - if y ≤ 1582 then 0 else 10 := by
  unfold yearStart
  rw [dayOfCommonEra_eq, dayOfYear_first]
  unfold gapBefore
  split_ifs <;> omega

/-- One more year. -/
theorem yearBase_succ (y : Int) :
    yearBase (y + 1) = yearBase y + if isLeapYear y then 366 else 365 := by
  have hleap := isLeapYear_iff y
  unfold yearBase
  by_cases h : isLeapYear y = true
  · have hl := hleap.mp h
    rw [if_pos h]
    split_ifs <;> omega
  · have hl := mt hleap.mpr h
    rw [if_neg h]
    split_ifs <;> omega

/-- **Years follow each other.** -/
theorem yearStart_succ (y : Int) : yearStart (y + 1) = yearStart y + yearDays y := by
  have hbase := yearBase_succ y
  rw [yearStart_eq, yearStart_eq, yearDays_eq, hbase]
  by_cases hy : y = 1582
  · rw [hy]
    decide
  · rw [if_neg hy]
    split_ifs <;> omega

theorem sumFrom_yearDays (y : Int) : sumFrom yearDays 1 y = yearStart y := by
  have h := sumFrom_telescope yearStart_succ 1 y
  have hfirst : yearStart 1 = 0 := by decide
  omega

/-- **The closed formulas count the days.** -/
theorem dayOfCommonEra_eq_dayNumber {y : Int} {m d : Nat} (h : ValidDay y m d) :
    dayOfCommonEra y m d = dayNumber y m d := by
  obtain ⟨h1, hm⟩ := h.month
  have hgap := h.gap
  unfold dayNumber placeInMonth
  rw [sumFrom_yearDays, sum_monthDays y h1 (by omega), yearStart_eq, dayOfCommonEra_eq]
  unfold dayOfYear gapBefore
  split_ifs <;> omega

/-! ## §4. Order. -/

theorem yearDays_pos (y : Int) : 0 < yearDays y := by
  rw [yearDays_eq]
  split_ifs <;> decide

theorem yearStart_le {y z : Int} (h : y ≤ z) : yearStart y ≤ yearStart z := by
  obtain ⟨n, rfl⟩ := Int.le.dest h
  induction n with
  | zero => simp
  | succ n ih =>
    have hpos := yearDays_pos (y + n)
    have hnext := yearStart_succ (y + n)
    have ih := ih (by omega)
    rw [show y + ((n + 1 : Nat) : Int) = y + n + 1 by omega]
    omega

/-- The days before the next month. -/
theorem daysBeforeMonth_succ (leap : Bool) {m : Nat} (h1 : 1 ≤ m) (hm : m ≤ 12) :
    (daysBeforeMonth leap).getD (m + 1) 0 =
      (daysBeforeMonth leap).getD m 0 + (mDaysOfMonth leap).getD m 0 := by
  cases leap <;> interval_cases m <;> decide

theorem daysBeforeMonth_le (leap : Bool) {m n : Nat} (h1 : 1 ≤ m) (hmn : m ≤ n) (hn : n ≤ 13) :
    (daysBeforeMonth leap).getD m 0 ≤ (daysBeforeMonth leap).getD n 0 := by
  cases leap <;> interval_cases n <;> interval_cases m <;> decide

/-- A day lies in its month. -/
theorem dayOfYear_bounds {y : Int} {m d : Nat} (h : ValidDay y m d) :
    (daysBeforeMonth (isLeapYear y)).getD m 0 < dayOfYear y m d ∧
      dayOfYear y m d ≤ (daysBeforeMonth (isLeapYear y)).getD (m + 1) 0 := by
  have hday := h.day
  rw [daysBeforeMonth_succ _ h.month.1 h.month.2]
  unfold dayOfYear
  omega

/-- **The gap** is between the days 277 and 288 of its year. -/
theorem gapBefore_cases {y : Int} {m d : Nat} (h : ValidDay y m d) :
    (y < 1582 ∧ gapBefore y m d = 0) ∨
      (y = 1582 ∧ gapBefore y m d = 0 ∧ dayOfYear y m d ≤ 277) ∨
      (y = 1582 ∧ gapBefore y m d = 10 ∧ 288 ≤ dayOfYear y m d) ∨
      (1582 < y ∧ gapBefore y m d = 10) := by
  obtain ⟨h1, hm⟩ := h.month
  have hgap := h.gap
  unfold gapBefore
  rcases Int.lt_trichotomy y 1582 with hlt | rfl | hgt
  · exact .inl ⟨hlt, if_pos (.inl hlt)⟩
  · obtain ⟨hlo, hhi⟩ := dayOfYear_bounds h
    right
    rcases Nat.lt_trichotomy m 10 with hm10 | rfl | hm10
    · have hle := daysBeforeMonth_le (isLeapYear 1582) (show 1 ≤ m + 1 by omega)
        (show m + 1 ≤ 10 by omega) (by omega)
      have hoct : (daysBeforeMonth (isLeapYear 1582)).getD 10 0 = 273 := by decide
      exact .inl ⟨rfl, if_pos (.inr ⟨rfl, .inl hm10⟩), by omega⟩
    · have hday : dayOfYear 1582 10 d = 273 + d := rfl
      by_cases hd : d < 15
      · exact .inl ⟨rfl, if_pos (.inr ⟨rfl, .inr ⟨rfl, hd⟩⟩), by omega⟩
      · exact .inr (.inl ⟨rfl, if_neg (by omega), by omega⟩)
    · have hle := daysBeforeMonth_le (isLeapYear 1582) (show 1 ≤ 11 by omega)
        (show 11 ≤ m by omega) (by omega)
      have hnov : (daysBeforeMonth (isLeapYear 1582)).getD 11 0 = 304 := by decide
      exact .inr (.inl ⟨rfl, if_neg (by omega), by omega⟩)
  · exact .inr (.inr (.inr ⟨hgt, if_neg (by omega)⟩))

/-- **A day lies in its year.** -/
theorem dayOfCommonEra_bounds {y : Int} {m d : Nat} (h : ValidDay y m d) :
    yearStart y ≤ dayOfCommonEra y m d ∧ dayOfCommonEra y m d < yearStart (y + 1) := by
  have hm := h.month
  obtain ⟨hlo, hhi⟩ := dayOfYear_bounds h
  have hfirst := daysBeforeMonth_le (isLeapYear y) (Nat.le_refl 1) hm.1 (by omega)
  have hlast := daysBeforeMonth_le (isLeapYear y) (show 1 ≤ m + 1 by omega)
    (show m + 1 ≤ 13 by omega) (Nat.le_refl 13)
  have hone : (daysBeforeMonth (isLeapYear y)).getD 1 0 = 0 := by
    cases isLeapYear y <;> rfl
  have hall : (daysBeforeMonth (isLeapYear y)).getD 13 0 = if isLeapYear y then 366 else 365 := by
    cases isLeapYear y <;> rfl
  rw [yearStart_succ, yearStart_eq, yearDays_eq, dayOfCommonEra_eq]
  have hreform : (daysBeforeMonth (isLeapYear 1582)).getD 13 0 = 365 := by decide
  rcases gapBefore_cases h with ⟨hy, hg⟩ | ⟨rfl, hg, hd⟩ | ⟨rfl, hg, hd⟩ | ⟨hy, hg⟩
  · rw [if_pos (by omega), if_neg (by omega), ← hall]
    omega
  · rw [if_pos (by omega), if_pos rfl]
    omega
  · rw [if_pos (by omega), if_pos rfl]
    omega
  · rw [if_neg (by omega), if_neg (by omega), ← hall]
    omega

/-- The order of the calendar. -/
def DayLt (y : Int) (m d : Nat) (y' : Int) (m' d' : Nat) : Prop :=
  y < y' ∨ y = y' ∧ (m < m' ∨ m = m' ∧ d < d')

/-- **Later days have greater numbers.** -/
theorem dayOfCommonEra_lt {y y' : Int} {m d m' d' : Nat} (h : ValidDay y m d)
    (h' : ValidDay y' m' d') (hlt : DayLt y m d y' m' d') :
    dayOfCommonEra y m d < dayOfCommonEra y' m' d' := by
  rcases hlt with hlt | ⟨rfl, hlt⟩
  · have h1 := (dayOfCommonEra_bounds h).2
    have h2 := (dayOfCommonEra_bounds h').1
    have h3 := yearStart_le (show y + 1 ≤ y' by omega)
    omega
  · have hyear : dayOfYear y m d < dayOfYear y m' d' := by
      rcases hlt with hlt | ⟨rfl, hlt⟩
      · have hm' := h'.month
        have h1 := (dayOfYear_bounds h).2
        have h2 := (dayOfYear_bounds h').1
        have h3 := daysBeforeMonth_le (isLeapYear y) (show 1 ≤ m + 1 by omega)
          (show m + 1 ≤ m' by omega) (by omega)
        omega
      · unfold dayOfYear
        omega
    have hgap := gapBefore_cases h
    have hgap' := gapBefore_cases h'
    rw [dayOfCommonEra_eq, dayOfCommonEra_eq]
    omega

end Altibase.Mtd
