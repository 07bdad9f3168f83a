/-
  Altibase.Mtd.DateDiff
  ─────────────────────
  **THE DIFFERENCE OF TWO DATES** (`mtdDateInterface::dateDiff`).

  Days and weeks are summed year by year, with one loop for each direction, and
  the ten days of 1582 are corrected afterwards.

    * `fieldNumber` — the number of a date in a unit, counted on one scale;
    * `dateDiff_eq` — the difference is the one of the two numbers, or an error
      beyond a limit;
    * `dateDiff_consistent` — the differences agree with the instants, change sign
      with the order of the dates, and add up.
-/
import Altibase.Mtd.Date

namespace Altibase.Mtd

open Altibase.Lib

/-! ## §1. The function. -/

/-- `mtdDateField`. -/
inductive DateField where
  | century | year | quarter | month | week | day | hour | minute | second | microsec
  deriving DecidableEq, Repr

/-- The loop for an end in an earlier year, from the year `i` on. -/
def backwardYears (sDiffDay sDiffWeek i : Int) : Nat → Int × Int
  | 0 => (sDiffDay, sDiffWeek)
  | rounds + 1 =>
    let sDiffDay := sDiffDay - dayOfYear i 12 31
    let sDiffWeek := sDiffWeek - weekOfYear i 12 31
    let sDiffWeek := if dayOfWeek (i + 1) 1 1 ≠ 0 then sDiffWeek + 1 else sDiffWeek
    backwardYears sDiffDay sDiffWeek (i + 1) rounds

/-- The loop for an end in a later year, from the year `i` on. -/
def forwardYears (sDiffDay sDiffWeek i : Int) : Nat → Int × Int
  | 0 => (sDiffDay, sDiffWeek)
  | rounds + 1 =>
    let sDiffDay := sDiffDay + dayOfYear i 12 31
    let sDiffWeek := sDiffWeek + weekOfYear i 12 31
    let sDiffWeek := if dayOfWeek i 12 31 ≠ 6 then sDiffWeek - 1 else sDiffWeek
    forwardYears sDiffDay sDiffWeek (i + 1) rounds

/-- The day is not after 1582-10-04. -/
def beforeGap (y : Int) (m d : Nat) : Bool :=
  y < 1582 || (y = 1582 && (m < 10 || (m = 10 && d ≤ 4)))

/-- The day is not before 1582-10-15. -/
def afterGap (y : Int) (m d : Nat) : Bool :=
  y > 1582 || (y = 1582 && (m > 10 || (m = 10 && d ≥ 15)))

/-- `dateDiff`, the days and the weeks. -/
def diffDayWeek (aStartDate aEndDate : MtdDate) : Int × Int :=
  let sStartYear := aStartDate.year
  let sStartMonth := aStartDate.month
  let sStartDay := aStartDate.day
  let sEndYear := aEndDate.year
  let sEndMonth := aEndDate.month
  let sEndDay := aEndDate.day
  let sDiffWeek := weekOfYear sEndYear sEndMonth sEndDay -
    weekOfYear sStartYear sStartMonth sStartDay
  let sDiffDay := dayOfYear sEndYear sEndMonth sEndDay -
    dayOfYear sStartYear sStartMonth sStartDay
  -- the years from the one to the other
  let (sDiffDay, sDiffWeek) :=
    if sStartYear = sEndYear then (sDiffDay, sDiffWeek)
    else if sStartYear > sEndYear then
      backwardYears sDiffDay sDiffWeek sEndYear (sStartYear - sEndYear).toNat
    else forwardYears sDiffDay sDiffWeek sStartYear (sEndYear - sStartYear).toNat
  -- the ten days that October 1582 does not have
  let sDiffDay :=
    if beforeGap sStartYear sStartMonth sStartDay && afterGap sEndYear sEndMonth sEndDay then
      sDiffDay - 10
    else if beforeGap sEndYear sEndMonth sEndDay && afterGap sStartYear sStartMonth sStartDay then
      sDiffDay + 10
    else sDiffDay
  (sDiffDay, sDiffWeek)

/-- **`dateDiff`**. -/
def dateDiff (aStartDate aEndDate : MtdDate) (sExtractSet : DateField) : Except DateError Int :=
  let sStartYear := aStartDate.year
  let sEndYear := aEndDate.year
  let sDiffYear := sEndYear - sStartYear
  let sDiffMonth := (aEndDate.month : Int) - aStartDate.month + 12 * sDiffYear
  let (sDiffDay, sDiffWeek) := diffDayWeek aStartDate aEndDate
  let sDiffHour := (aEndDate.hour : Int) - aStartDate.hour + sDiffDay * 24
  let sDiffMinute := (aEndDate.minute : Int) - aStartDate.minute + sDiffHour * 60
  let sDiffSecond := (aEndDate.second : Int) - aStartDate.second + sDiffMinute * 60
  let sDiffMicroSecond := (aEndDate.microSecond : Int) - aStartDate.microSecond +
    sDiffSecond * 1000000
  match sExtractSet with
  | .century =>
    if sEndYear ≤ 0 then
      if sStartYear ≤ 0 then pure (sEndYear.tdiv 100 - sStartYear.tdiv 100)
      else pure (sEndYear.tdiv 100 - (sStartYear + 99).tdiv 100)
    else
      if sStartYear ≤ 0 then pure ((sEndYear + 99).tdiv 100 - sStartYear.tdiv 100)
      else pure ((sEndYear + 99).tdiv 100 - (sStartYear + 99).tdiv 100)
  | .year => pure sDiffYear
  | .quarter =>
    pure ((((aEndDate.month + 2) / 3 : Nat) : Int) - ((aStartDate.month + 2) / 3 : Nat) +
      sDiffYear * 4)
  | .month => pure sDiffMonth
  | .week => pure sDiffWeek
  | .day => pure sDiffDay
  | .hour => pure sDiffHour
  | .minute => pure sDiffMinute
  | .second =>
    if sDiffSecond > 2144448000 ∨ sDiffSecond < -2144448000 then
      throw .dateDiffOutOfRangeInSecond
    else pure sDiffSecond
  | .microsec =>
    if sDiffMicroSecond > 2592000000000 ∨ sDiffMicroSecond < -2592000000000 then
      throw .dateDiffOutOfRangeInMicroSecond
    else pure sDiffMicroSecond

/-! ## §2. The loops. -/

theorem dayOfYear_last (y : Int) : dayOfYear y 12 31 = if isLeapYear y then 366 else 365 := by
  unfold dayOfYear
  cases isLeapYear y <;> rfl

/-- The next day is the first of the next year. -/
theorem dayOfCommonEra_newYear (y : Int) :
    dayOfCommonEra (y + 1) 1 1 = dayOfCommonEra y 12 31 + 1 := by
  rw [dayOfCommonEra_eq, dayOfCommonEra_eq, dayOfYear_first, dayOfYear_last, yearBase_succ]
  unfold gapBefore
  split_ifs <;> omega

theorem dayOfWeek_eq (y : Int) (m d : Nat) :
    dayOfWeek y m d = (dayOfCommonEra y m d + 6) % 7 := by
  obtain ⟨h1, h2, h3, h4, h5⟩ := tdiv_spec (dayOfCommonEra y m d) (show (0 : Int) < 7 by decide)
  obtain ⟨h6, h7, h8, h9, h10⟩ :=
    tdiv_spec ((dayOfCommonEra y m d).tmod 7 + 6) (show (0 : Int) < 7 by decide)
  unfold dayOfWeek
  omega

/-- **The two tests for a week that goes on** agree. -/
theorem dayOfWeek_newYear (y : Int) : dayOfWeek (y + 1) 1 1 ≠ 0 ↔ dayOfWeek y 12 31 ≠ 6 := by
  rw [dayOfWeek_eq, dayOfWeek_eq, dayOfCommonEra_newYear]
  omega

/-- The weeks of a year; the last one may go on in the next year. -/
def yearWeeks (y : Int) : Int :=
  weekOfYear y 12 31 - if dayOfWeek y 12 31 ≠ 6 then 1 else 0

/-- **The weeks before a year**, counted from year 1 on. -/
def weekBase (y : Int) : Int := sumFrom yearWeeks 1 y

theorem weekBase_succ (y : Int) : weekBase (y + 1) = weekBase y + yearWeeks y :=
  sumFrom_succ yearWeeks 1 y

theorem forwardYears_eq (rounds : Nat) (sDiffDay sDiffWeek i : Int) :
    forwardYears sDiffDay sDiffWeek i rounds =
      (sDiffDay + (yearBase (i + rounds) - yearBase i),
        sDiffWeek + (weekBase (i + rounds) - weekBase i)) := by
  induction rounds generalizing sDiffDay sDiffWeek i with
  | zero =>
    simp [forwardYears]
  | succ rounds ih =>
    have hday := yearBase_succ i
    have hweek := weekBase_succ i
    unfold yearWeeks at hweek
    have hend : i + ((rounds + 1 : Nat) : Int) = i + 1 + rounds := by omega
    unfold forwardYears
    rw [hend, ih, dayOfYear_last]
    refine Prod.ext ?_ ?_
    · dsimp only
      omega
    · dsimp only
      split_ifs at hweek ⊢ <;> omega

theorem backwardYears_eq (rounds : Nat) (sDiffDay sDiffWeek i : Int) :
    backwardYears sDiffDay sDiffWeek i rounds =
      (sDiffDay - (yearBase (i + rounds) - yearBase i),
        sDiffWeek - (weekBase (i + rounds) - weekBase i)) := by
  induction rounds generalizing sDiffDay sDiffWeek i with
  | zero =>
    simp [backwardYears]
  | succ rounds ih =>
    have hday := yearBase_succ i
    have hweek := weekBase_succ i
    unfold yearWeeks at hweek
    have hend : i + ((rounds + 1 : Nat) : Int) = i + 1 + rounds := by omega
    unfold backwardYears
    rw [hend, ih, dayOfYear_last]
    refine Prod.ext ?_ ?_
    · dsimp only
      omega
    · simp only [dayOfWeek_newYear]
      split_ifs at hweek ⊢ <;> omega

/-! ## §3. One scale for each unit. -/

theorem beforeGap_iff {y : Int} {m d : Nat} (h : ValidDay y m d) :
    beforeGap y m d = true ↔ gapBefore y m d = 0 := by
  have hgap := h.gap
  unfold beforeGap gapBefore
  simp only [Bool.or_eq_true, Bool.and_eq_true, decide_eq_true_eq]
  split_ifs <;> omega

theorem afterGap_iff {y : Int} {m d : Nat} (h : ValidDay y m d) :
    afterGap y m d = true ↔ gapBefore y m d = 10 := by
  have hgap := h.gap
  unfold afterGap gapBefore
  simp only [Bool.or_eq_true, Bool.and_eq_true, decide_eq_true_eq]
  split_ifs <;> omega

/-- **The number of the week** of a date, on one scale. -/
def weekNumber (d : MtdDate) : Int := weekBase d.year + weekOfYear d.year d.month d.day

/-- **Days and weeks** are differences on one scale. -/
theorem diffDayWeek_eq {a b : MtdDate} (ha : a.Valid) (hb : b.Valid) :
    diffDayWeek a b = (dayNumber b.year b.month b.day - dayNumber a.year a.month a.day,
      weekNumber b - weekNumber a) := by
  have hga : gapBefore a.year a.month a.day = 0 ∨ gapBefore a.year a.month a.day = 10 := by
    unfold gapBefore
    split_ifs
    · exact .inl rfl
    · exact .inr rfl
  have hgb : gapBefore b.year b.month b.day = 0 ∨ gapBefore b.year b.month b.day = 10 := by
    unfold gapBefore
    split_ifs
    · exact .inl rfl
    · exact .inr rfl
  -- the loop over the years, in either direction, adds up to the year bases
  have hloops : (if a.year = b.year then
        (dayOfYear b.year b.month b.day - dayOfYear a.year a.month a.day,
          weekOfYear b.year b.month b.day - weekOfYear a.year a.month a.day)
      else if a.year > b.year then
        backwardYears (dayOfYear b.year b.month b.day - dayOfYear a.year a.month a.day)
          (weekOfYear b.year b.month b.day - weekOfYear a.year a.month a.day) b.year
          (a.year - b.year).toNat
      else
        forwardYears (dayOfYear b.year b.month b.day - dayOfYear a.year a.month a.day)
          (weekOfYear b.year b.month b.day - weekOfYear a.year a.month a.day) a.year
          (b.year - a.year).toNat) =
      (yearBase b.year + dayOfYear b.year b.month b.day -
        (yearBase a.year + dayOfYear a.year a.month a.day), weekNumber b - weekNumber a) := by
    unfold weekNumber
    split_ifs with heq hgt
    · rw [heq]
      refine Prod.ext ?_ ?_ <;> dsimp only <;> omega
    · have hend : b.year + ((a.year - b.year).toNat : Int) = a.year := by omega
      rw [backwardYears_eq, hend]
      refine Prod.ext ?_ ?_ <;> dsimp only <;> omega
    · have hend : a.year + ((b.year - a.year).toNat : Int) = b.year := by omega
      rw [forwardYears_eq, hend]
      refine Prod.ext ?_ ?_ <;> dsimp only <;> omega
  -- the correction by ten days is that of the time line
  rw [← dayOfCommonEra_eq_dayNumber ha.day, ← dayOfCommonEra_eq_dayNumber hb.day,
    dayOfCommonEra_eq, dayOfCommonEra_eq]
  unfold diffDayWeek
  simp only [hloops, Bool.and_eq_true, beforeGap_iff ha.day, beforeGap_iff hb.day,
    afterGap_iff ha.day, afterGap_iff hb.day]
  refine Prod.ext ?_ rfl
  dsimp only
  split_ifs <;> omega

/-- The century of a year: 1 is the one from year 1 on, 0 the one before it. -/
def centuryOf (y : Int) : Int := if y ≤ 0 then y.tdiv 100 else (y + 99).tdiv 100

/-- **The number of a date** in a unit; for the smaller units its instant, cut off. -/
def fieldNumber : DateField → MtdDate → Int
  | .century, d => centuryOf d.year
  | .year, d => d.year
  | .quarter, d => d.year * 4 + ((d.month + 2) / 3 : Nat)
  | .month, d => d.year * 12 + d.month
  | .week, d => weekNumber d
  | .day, d => dayNumber d.year d.month d.day
  | .hour, d => instant d / 3600000000
  | .minute, d => instant d / 60000000
  | .second, d => instant d / 1000000
  | .microsec, d => instant d

/-- The error beyond the limit of a unit. -/
def fieldError : DateField → Int → Option DateError
  | .second, n =>
    if n > 2144448000 ∨ n < -2144448000 then some .dateDiffOutOfRangeInSecond else none
  | .microsec, n =>
    if n > 2592000000000 ∨ n < -2592000000000 then some .dateDiffOutOfRangeInMicroSecond
    else none
  | _, _ => none

/-- The parts of an instant. -/
theorem instant_parts {d : MtdDate} (h : d.Valid) :
    instant d / 3600000000 = dayNumber d.year d.month d.day * 24 + d.hour ∧
      instant d / 60000000 = (dayNumber d.year d.month d.day * 24 + d.hour) * 60 + d.minute ∧
      instant d / 1000000 =
        ((dayNumber d.year d.month d.day * 24 + d.hour) * 60 + d.minute) * 60 + d.second := by
  have h1 := h.minute
  have h2 := h.second
  have h3 := h.microSecond
  unfold instant timeOfDay
  omega

/-- **A difference of two numbers**, or the error beyond the limit. -/
theorem dateDiff_eq {a b : MtdDate} (ha : a.Valid) (hb : b.Valid) (f : DateField) :
    dateDiff a b f = match fieldError f (fieldNumber f b - fieldNumber f a) with
      | some e => .error e
      | none => .ok (fieldNumber f b - fieldNumber f a) := by
  obtain ⟨ha1, ha2, ha3⟩ := instant_parts ha
  obtain ⟨hb1, hb2, hb3⟩ := instant_parts hb
  unfold dateDiff
  simp only [diffDayWeek_eq ha hb]
  cases f with
  | century =>
    -- the code has one branch for each pair of signs of the years
    show (if b.year ≤ 0 then
        if a.year ≤ 0 then pure (b.year.tdiv 100 - a.year.tdiv 100)
        else pure (b.year.tdiv 100 - (a.year + 99).tdiv 100)
      else
        if a.year ≤ 0 then pure ((b.year + 99).tdiv 100 - a.year.tdiv 100)
        else pure ((b.year + 99).tdiv 100 - (a.year + 99).tdiv 100)) =
      Except.ok (centuryOf b.year - centuryOf a.year)
    unfold centuryOf
    split_ifs <;> rfl
  | year => rfl
  | quarter =>
    refine congrArg Except.ok ?_
    simp only [fieldNumber]
    omega
  | month =>
    refine congrArg Except.ok ?_
    simp only [fieldNumber]
    omega
  | week => rfl
  | day => rfl
  | hour =>
    refine congrArg Except.ok ?_
    simp only [fieldNumber]
    omega
  | minute =>
    refine congrArg Except.ok ?_
    simp only [fieldNumber]
    omega
  | second =>
    -- the code nests the units: days, hours, minutes, seconds
    have hdiff : (b.second : Int) - a.second + ((b.minute : Int) - a.minute +
        ((b.hour : Int) - a.hour + (dayNumber b.year b.month b.day -
          dayNumber a.year a.month a.day) * 24) * 60) * 60 =
        fieldNumber .second b - fieldNumber .second a := by
      simp only [fieldNumber]
      omega
    simp only [hdiff, fieldError]
    split_ifs <;> rfl
  | microsec =>
    have hdiff : (b.microSecond : Int) - a.microSecond + ((b.second : Int) - a.second +
        ((b.minute : Int) - a.minute + ((b.hour : Int) - a.hour +
          (dayNumber b.year b.month b.day - dayNumber a.year a.month a.day) * 24) * 60) * 60) *
            1000000 =
        fieldNumber .microsec b - fieldNumber .microsec a := by
      simp only [fieldNumber, instant, timeOfDay]
      omega
    simp only [hdiff, fieldError]
    split_ifs <;> rfl

theorem fieldError_second (n : Int) : fieldError .second n =
    if |n| ≤ 2144448000 then none else some .dateDiffOutOfRangeInSecond := by
  have habs : |n| ≤ 2144448000 ↔ -2144448000 ≤ n ∧ n ≤ 2144448000 := abs_le
  show (if n > 2144448000 ∨ n < -2144448000 then _ else _) = _
  split_ifs <;> first | rfl | omega

theorem fieldError_microsec (n : Int) : fieldError .microsec n =
    if |n| ≤ 2592000000000 then none else some .dateDiffOutOfRangeInMicroSecond := by
  have habs : |n| ≤ 2592000000000 ↔ -2592000000000 ≤ n ∧ n ≤ 2592000000000 := abs_le
  show (if n > 2592000000000 ∨ n < -2592000000000 then _ else _) = _
  split_ifs <;> first | rfl | omega

/-- The limits are the same on both sides. -/
theorem fieldError_neg (f : DateField) (n : Int) : fieldError f (-n) = fieldError f n := by
  unfold fieldError
  cases f <;> dsimp only <;> split_ifs <;> first | rfl | omega

/-- The sign of a difference. -/
def negDiff : Except DateError Int → Except DateError Int
  | .ok n => .ok (-n)
  | .error e => .error e

theorem dateDiff_ok {a b : MtdDate} (ha : a.Valid) (hb : b.Valid) {f : DateField} {x : Int}
    (h : dateDiff a b f = .ok x) : x = fieldNumber f b - fieldNumber f a := by
  rw [dateDiff_eq ha hb] at h
  cases herr : fieldError f (fieldNumber f b - fieldNumber f a) with
  | some e =>
    rw [herr] at h
    cases h
  | none =>
    rw [herr, Except.ok.injEq] at h
    exact h.symm

/-- **`dateDiff` agrees with date arithmetic**: by the day it is the difference of the
    numbers that dates are converted with, by the smaller units that of the instants cut
    off to the unit, or the error beyond the limit; for every unit it changes its sign with
    the order of the dates, and differences add up. -/
theorem dateDiff_consistent {a b c : MtdDate} (ha : a.Valid) (hb : b.Valid) (hc : c.Valid) :
    dateDiff a b .day = .ok (dayOfCommonEra b.year b.month b.day -
      dayOfCommonEra a.year a.month a.day) ∧
    (∀ i j, convertDate2Interval a = .ok i → convertDate2Interval b = .ok j →
      dateDiff a b .day = .ok (j.value / 86400000000 - i.value / 86400000000)) ∧
    dateDiff a b .hour = .ok (instant b / 3600000000 - instant a / 3600000000) ∧
    dateDiff a b .minute = .ok (instant b / 60000000 - instant a / 60000000) ∧
    dateDiff a b .second =
      (if |instant b / 1000000 - instant a / 1000000| ≤ 2144448000 then
        .ok (instant b / 1000000 - instant a / 1000000)
      else .error .dateDiffOutOfRangeInSecond) ∧
    dateDiff a b .microsec =
      (if |instant b - instant a| ≤ 2592000000000 then .ok (instant b - instant a)
      else .error .dateDiffOutOfRangeInMicroSecond) ∧
    (∀ f, dateDiff a b f = negDiff (dateDiff b a f)) ∧
    (∀ f x y z, dateDiff a b f = .ok x → dateDiff b c f = .ok y → dateDiff a c f = .ok z →
      z = x + y) := by
  -- only two fields have a limit
  have hno : ∀ f, f ≠ .second → f ≠ .microsec → ∀ n, fieldError f n = none := by
    intro f hs hm n
    cases f <;> first | rfl | exact absurd rfl hs | exact absurd rfl hm
  have hplain : ∀ f, f ≠ .second → f ≠ .microsec →
      dateDiff a b f = .ok (fieldNumber f b - fieldNumber f a) := by
    intro f hs hm
    rw [dateDiff_eq ha hb, hno f hs hm]
  refine ⟨?_, fun i j hi hj => ?_, ?_, ?_, ?_, ?_, fun f => ?_, fun f x y z hx hy hz => ?_⟩
  · rw [dayOfCommonEra_eq_dayNumber ha.day, dayOfCommonEra_eq_dayNumber hb.day]
    exact hplain .day (by decide) (by decide)
  · rw [convertDate2Interval_eq ha] at hi
    rw [convertDate2Interval_eq hb] at hj
    split_ifs at hi hj with h1 h2
    rw [Except.ok.injEq] at hi hj
    -- the time of day is less than a day
    have hat := timeOfDay_bounds ha
    have hbt := timeOfDay_bounds hb
    rw [← hi, ← hj, (intervalOf_spec _).1, (intervalOf_spec _).1,
      hplain .day (by decide) (by decide)]
    refine congrArg Except.ok ?_
    simp only [fieldNumber, instant]
    omega
  · exact hplain .hour (by decide) (by decide)
  · exact hplain .minute (by decide) (by decide)
  · have hnumber : fieldNumber .second b - fieldNumber .second a =
        instant b / 1000000 - instant a / 1000000 := rfl
    rw [dateDiff_eq ha hb, hnumber, fieldError_second]
    split_ifs <;> rfl
  · have hnumber : fieldNumber .microsec b - fieldNumber .microsec a =
        instant b - instant a := rfl
    rw [dateDiff_eq ha hb, hnumber, fieldError_microsec]
    split_ifs <;> rfl
  · have hneg : fieldNumber f a - fieldNumber f b = -(fieldNumber f b - fieldNumber f a) := by
      omega
    rw [dateDiff_eq ha hb, dateDiff_eq hb ha, hneg, fieldError_neg]
    cases fieldError f (fieldNumber f b - fieldNumber f a) with
    | some e => rfl
    | none =>
      show _ = Except.ok (- -_)
      rw [Int.neg_neg]
  · -- each is a difference of numbers, so they add up
    have h1 := dateDiff_ok ha hb hx
    have h2 := dateDiff_ok hb hc hy
    have h3 := dateDiff_ok ha hc hz
    omega

/-- The theorem for a day of each side of the gap and one before year 1. -/
theorem dateDiff_consistent_reform :
    (∀ f, dateDiff ⟨1582, 10 * 1024 + 4 * 32, 0⟩ ⟨1582, 10 * 1024 + 15 * 32, 0⟩ f =
      negDiff (dateDiff ⟨1582, 10 * 1024 + 15 * 32, 0⟩ ⟨1582, 10 * 1024 + 4 * 32, 0⟩ f)) ∧
    (∀ f x y z, dateDiff ⟨1582, 10 * 1024 + 4 * 32, 0⟩ ⟨1582, 10 * 1024 + 15 * 32, 0⟩ f = .ok x →
      dateDiff ⟨1582, 10 * 1024 + 15 * 32, 0⟩ ⟨-44, 3 * 1024 + 15 * 32, 0⟩ f = .ok y →
      dateDiff ⟨1582, 10 * 1024 + 4 * 32, 0⟩ ⟨-44, 3 * 1024 + 15 * 32, 0⟩ f = .ok z →
      z = x + y) :=
  (dateDiff_consistent
    ⟨⟨by decide, by decide, by decide⟩, by decide, by decide, by decide, by decide, by decide,
      by decide⟩
    ⟨⟨by decide, by decide, by decide⟩, by decide, by decide, by decide, by decide, by decide,
      by decide⟩
    ⟨⟨by decide, by decide, by decide⟩, by decide, by decide, by decide, by decide, by decide,
      by decide⟩).2.2.2.2.2.2

end Altibase.Mtd
