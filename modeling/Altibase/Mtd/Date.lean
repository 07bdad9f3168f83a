/-
  Altibase.Mtd.Date
  ─────────────────
  **DATES AND INTERVALS** (`mtdDateInterface`).

  A date is packed into three words; an interval counts seconds and
  microseconds, both of one sign, from 0001-01-01 on.

    * `instant` — the microseconds from 0001-01-01 to a date, by `dayNumber`;
    * `convertDate2Interval_eq`, `convertInterval2Date_eq` — both conversions
      keep the instant;
    * `instant_lt_of_compare` — the order of dates is the one of their instants;
    * `date_interval_equiv` — dates and intervals are two encodings of one time
      line.
-/
import Altibase.Mtd.Calendar

namespace Altibase.Mtd

open Altibase.Lib

/-! ## §1. Dates. -/

/-- The errors of the functions below. -/
inductive DateError where
  | validateInvalidValue | invalidYear | invalidMonth | invalidDay | invalidHour24
  | invalidMinute | invalidSecond | invalidMicroSecond
  | dateDiffOutOfRangeInSecond | dateDiffOutOfRangeInMicroSecond
  deriving DecidableEq, Repr

/-- **`mtdDateType`**. -/
structure MtdDate where
  year : Int
  monDayHour : Nat
  minSecMic : Nat
  deriving DecidableEq, Repr

/-- `mtdDateNull`. -/
def mtdDateNull : MtdDate := ⟨-32768, 0, 0⟩

/-- The bits of a word that a mask and a shift select. -/
def bitsOf (word lo width : Nat) : Nat := word / 2 ^ lo % 2 ^ width

/-- A word with these bits cleared and `v` put in their place. -/
def setBits (word lo width v : Nat) : Nat := word - bitsOf word lo width * 2 ^ lo + v * 2 ^ lo

namespace MtdDate

/-- `mtdDateInterface::month`: the four bits above the day. -/
def month (d : MtdDate) : Nat := bitsOf d.monDayHour 10 4

/-- `mtdDateInterface::day`: the five bits above the hour. -/
def day (d : MtdDate) : Nat := bitsOf d.monDayHour 5 5

/-- `mtdDateInterface::hour`: the low five bits. -/
def hour (d : MtdDate) : Nat := bitsOf d.monDayHour 0 5

/-- `mtdDateInterface::minute`: the top six bits. -/
def minute (d : MtdDate) : Nat := bitsOf d.minSecMic 26 6

/-- `mtdDateInterface::second`: the six bits above the microsecond. -/
def second (d : MtdDate) : Nat := bitsOf d.minSecMic 20 6

/-- `mtdDateInterface::microSecond`: the low twenty bits. -/
def microSecond (d : MtdDate) : Nat := bitsOf d.minSecMic 0 20

/-- `compare`. -/
def compare (aDate1 aDate2 : MtdDate) : Int :=
  if aDate1.year > aDate2.year then 1
  else if aDate1.year < aDate2.year then -1
  else if aDate1.monDayHour > aDate2.monDayHour then 1
  else if aDate1.monDayHour < aDate2.monDayHour then -1
  else if aDate1.minSecMic > aDate2.minSecMic then 1
  else if aDate1.minSecMic < aDate2.minSecMic then -1
  else 0

/-- `setYear`, which checks nothing. -/
def setYear (d : MtdDate) (aYear : Int) : MtdDate := { d with year := aYear }

/-- `setMonth`: 1 to 12. -/
def setMonth (d : MtdDate) (aMonth : Nat) : Except DateError MtdDate :=
  if aMonth < 1 ∨ aMonth > 12 then throw .invalidMonth
  else pure { d with monDayHour := setBits d.monDayHour 10 4 aMonth }

/-- `setDay`: 1 to 31, whatever the month. -/
def setDay (d : MtdDate) (aDay : Nat) : Except DateError MtdDate :=
  if aDay < 1 ∨ aDay > 31 then throw .invalidDay
  else pure { d with monDayHour := setBits d.monDayHour 5 5 aDay }

/-- `setHour`: 0 to 23. -/
def setHour (d : MtdDate) (aHour : Nat) : Except DateError MtdDate :=
  if aHour > 23 then throw .invalidHour24
  else pure { d with monDayHour := setBits d.monDayHour 0 5 aHour }

/-- `setMinute`: 0 to 59. -/
def setMinute (d : MtdDate) (aMinute : Nat) : Except DateError MtdDate :=
  if aMinute > 59 then throw .invalidMinute
  else pure { d with minSecMic := setBits d.minSecMic 26 6 aMinute }

/-- `setSecond`: 0 to 59. -/
def setSecond (d : MtdDate) (aSec : Nat) : Except DateError MtdDate :=
  if aSec > 59 then throw .invalidSecond
  else pure { d with minSecMic := setBits d.minSecMic 20 6 aSec }

/-- `setMicroSecond`: 0 to 999999. -/
def setMicroSecond (d : MtdDate) (aMicroSec : Nat) : Except DateError MtdDate :=
  if aMicroSec > 999999 then throw .invalidMicroSecond
  else pure { d with minSecMic := setBits d.minSecMic 0 20 aMicroSec }

end MtdDate

/-- `checkYearMonthDayAndSetDateValue`: the days of the gap become its end. -/
def checkYearMonthDayAndSetDateValue (aDate : MtdDate) (aYear : Int) (aMonth aDay : Nat) :
    Except DateError MtdDate := do
  let d ← (aDate.setYear aYear).setMonth aMonth
  if aYear = 1582 ∧ aMonth = 10 ∧ 4 < aDay ∧ aDay < 15 then d.setDay 15
  else
    let d ← d.setDay aDay
    if (aDay : Int) > (mDaysOfMonth (isLeapYear aYear)).getD aMonth 0 then throw .invalidDay
    else pure d

/-- **`makeDate`**. -/
def makeDate (aYear : Int) (aMonth aDay aHour aMinute aSec aMicroSec : Nat) :
    Except DateError MtdDate := do
  let d ← checkYearMonthDayAndSetDateValue ⟨0, 0, 0⟩ aYear aMonth aDay
  let d ← d.setHour aHour
  let d ← d.setMinute aMinute
  let d ← d.setSecond aSec
  d.setMicroSecond aMicroSec

/-! ## §2. Intervals. -/

/-- **`mtdIntervalType`**. -/
structure MtdInterval where
  second : Int
  microsecond : Int
  deriving DecidableEq, Repr

/-- `MTD_DATE_MAX_YEAR_PER_SECOND`: 9999-12-31 23:59:59. -/
def maxYearPerSecond : Int := 315538070399

/-- `MTD_DATE_MIN_YEAR_PER_SECOND`: -9999-01-01 00:00:00. -/
def minYearPerSecond : Int := -315576000000

/-- The test for `ERR_INVALID_YEAR`. -/
def invalidYear (aInterval : MtdInterval) : Bool :=
  aInterval.second > maxYearPerSecond || aInterval.second < minYearPerSecond ||
    (aInterval.second = minYearPerSecond && aInterval.microsecond < 0)

/-- **`convertDate2Interval`**. -/
def convertDate2Interval (aDate : MtdDate) : Except DateError MtdInterval :=
  if aDate = mtdDateNull then throw .validateInvalidValue
  else
    let second := dayOfCommonEra aDate.year aDate.month aDate.day * 86400 +
      (aDate.hour * 3600 + aDate.minute * 60 + aDate.second : Nat)
    let microsecond : Int := aDate.microSecond
    let aInterval : MtdInterval :=
      if second < 0 ∧ microsecond > 0 then ⟨second + 1, microsecond - 1000000⟩
      else ⟨second, microsecond⟩
    if invalidYear aInterval then throw .invalidYear else pure aInterval

/-- `sStartDayOfMonth`: the days before the end of each month. -/
def sStartDayOfMonth : Bool → List Int
  | false => [0, 31, 59, 90, 120, 151, 181, 212, 243, 273, 304, 334, 365]
  | true => [0, 31, 60, 91, 121, 152, 182, 213, 244, 274, 305, 335, 366]

/-- The year and the day in it, counted from 0 on, for a negative number of days. -/
def yearOfBC (sDays : Int) : Int × Int :=
  let (s4Years, sDays) :=
    if sDays.tdiv 1461 < 0 ∧ sDays.tmod 1461 = 0 then (sDays.tdiv 1461 + 1, -1461)
    else (sDays.tdiv 1461, sDays.tmod 1461)
  let (s1Years, sDays) :=
    if sDays < -1096 then (-3, sDays + 1461)
    else if sDays < -731 then (-2, sDays + 1096)
    else if sDays < -366 then (-1, sDays + 731)
    else (0, sDays + 366)
  (s4Years * 4 + s1Years, sDays)

/-- The last step for the other numbers: the year in a cycle of four. -/
def yearInFour (s400Years s100Years s4Years sDays : Int) : Int × Int :=
  let (s1Years, sDays) :=
    if sDays ≥ 1095 then (3, sDays - 1095)
    else if sDays ≥ 730 then (2, sDays - 730)
    else if sDays ≥ 365 then (1, sDays - 365)
    else (0, sDays)
  (s400Years * 400 + s100Years * 100 + s4Years * 4 + s1Years + 1, sDays)

/-- The year and the day in it, counted from 0 on, for the other numbers of days. -/
def yearOfAD (sDays : Int) : Int × Int :=
  if sDays < 577737 then yearInFour 0 0 (sDays.tdiv 1461) (sDays.tmod 1461)
  else
    let sDays := sDays + 10
    if sDays ≤ 400 * 1461 then yearInFour 0 0 (sDays.tdiv 1461) (sDays.tmod 1461)
    else
      let sDays := sDays - 400 * 1461
      let s400Years := sDays.tdiv 146097
      let sDays := sDays.tmod 146097
      -- 400 years are longer than four times 100 years
      let (s100Years, sDays) :=
        if sDays.tdiv 36524 = 4 then (3, sDays.tmod 36524 + 36524)
        else (sDays.tdiv 36524, sDays.tmod 36524)
      yearInFour s400Years s100Years (400 + sDays.tdiv 1461) (sDays.tmod 1461)

/-- The loop for the month, with the rounds that are left. -/
def monthLoop (leap : Bool) (sDays : Int) : Nat → Nat → Nat
  | 0, sMonth => sMonth
  | rounds + 1, sMonth =>
    if (sStartDayOfMonth leap).getD sMonth 0 ≥ sDays then sMonth
    else monthLoop leap sDays rounds (sMonth + 1)

/-- The month that a day of the year lies in. -/
def monthOf (leap : Bool) (sDays : Int) : Nat := monthLoop leap sDays 12 1

/-- A `UChar`. -/
def toUChar (x : Int) : Nat := (x % 2 ^ 8).toNat

/-- `convertInterval2Date`, from where days, seconds and microseconds are not negative. -/
def dateOfYear (sYear sDays sSeconds sMicroSecond : Int) : Except DateError MtdDate :=
  let sDays := sDays + 1
  let sLeap := isLeapYear sYear
  let sMonth := monthOf sLeap sDays
  let sDay := sDays - (sStartDayOfMonth sLeap).getD (sMonth - 1) 0
  let sHour := sSeconds.tdiv 3600
  let sSeconds := sSeconds.tmod 3600
  makeDate sYear sMonth (toUChar sDay) (toUChar sHour) (toUChar (sSeconds.tdiv 60))
    (toUChar (sSeconds.tmod 60)) (sMicroSecond % 2 ^ 32).toNat

/-- **`convertInterval2Date`**. -/
def convertInterval2Date (aInterval : MtdInterval) : Except DateError MtdDate :=
  if invalidYear aInterval then throw .invalidYear
  else
    let sDays := aInterval.second.tdiv 86400
    let sSeconds := aInterval.second.tmod 86400
    let sMicroSecond := Int.bmod aInterval.microsecond (2 ^ 32)
    if sDays < 0 ∨ sSeconds < 0 ∨ sMicroSecond < 0 then
      -- only the year may be negative
      let (sSeconds, sMicroSecond) :=
        if sMicroSecond < 0 then (sSeconds - 1, sMicroSecond + 1000000)
        else (sSeconds, sMicroSecond)
      let (sDays, sSeconds) :=
        if sSeconds < 0 then (sDays - 1, sSeconds + 86400) else (sDays, sSeconds)
      let (sYear, sDays) := yearOfBC sDays
      dateOfYear sYear sDays sSeconds sMicroSecond
    else
      let (sYear, sDays) := yearOfAD sDays
      dateOfYear sYear sDays sSeconds sMicroSecond

/-! ## §3. The time line. -/

/-- **A date that is not null**, with every bit in its place. -/
structure MtdDate.Valid (d : MtdDate) : Prop where
  day : ValidDay d.year d.month d.day
  hour : d.hour ≤ 23
  minute : d.minute ≤ 59
  second : d.second ≤ 59
  microSecond : d.microSecond ≤ 999999
  year : -32768 ≤ d.year ∧ d.year ≤ 32767
  packed : d.monDayHour < 2 ^ 14 ∧ d.minSecMic < 2 ^ 32

/-- The microseconds of a day. -/
def timeOfDay (d : MtdDate) : Int :=
  ((d.hour * 60 + d.minute) * 60 + d.second) * 1000000 + d.microSecond

/-- **The instant of a date** in microseconds from 0001-01-01 on. -/
def instant (d : MtdDate) : Int := dayNumber d.year d.month d.day * 86400000000 + timeOfDay d

/-- The instant of an interval. -/
def MtdInterval.value (i : MtdInterval) : Int := i.second * 1000000 + i.microsecond

/-- The instants from -9999-01-01 to 9999-12-31. -/
def InLimits (t : Int) : Prop :=
  minYearPerSecond * 1000000 ≤ t ∧ t < (maxYearPerSecond + 1) * 1000000

instance (t : Int) : Decidable (InLimits t) := inferInstanceAs (Decidable (_ ∧ _))

/-- The interval of an instant. -/
def intervalOf (t : Int) : MtdInterval := ⟨t.tdiv 1000000, t.tmod 1000000⟩

/-! ## §4. From dates to intervals. -/

/-- A time of day is less than a day. -/
theorem timeOfDay_bounds {d : MtdDate} (h : d.Valid) :
    0 ≤ timeOfDay d ∧ timeOfDay d < 86400000000 := by
  have h1 := h.hour
  have h2 := h.minute
  have h3 := h.second
  have h4 := h.microSecond
  unfold timeOfDay
  omega

/-- The test for the year is about the instant. -/
theorem invalidYear_iff {i : MtdInterval} (hlo : -1000000 < i.microsecond)
    (hhi : i.microsecond < 1000000) (hpos : 0 < i.second → 0 ≤ i.microsecond) :
    invalidYear i = true ↔ ¬ InLimits i.value := by
  unfold invalidYear InLimits MtdInterval.value maxYearPerSecond minYearPerSecond
  simp only [Bool.or_eq_true, Bool.and_eq_true, decide_eq_true_eq]
  omega

/-- An interval whose two parts have one sign is the interval of its instant. -/
theorem intervalOf_value {i : MtdInterval} (hlo : -1000000 < i.microsecond)
    (hhi : i.microsecond < 1000000) (hneg : i.second < 0 → i.microsecond ≤ 0)
    (hpos : 0 < i.second → 0 ≤ i.microsecond) : intervalOf i.value = i := by
  obtain ⟨h1, h2, h3, h4, h5⟩ := tdiv_spec i.value (show (0 : Int) < 1000000 by decide)
  have hvalue : i.value = i.second * 1000000 + i.microsecond := rfl
  have hsec : i.value.tdiv 1000000 = i.second := by omega
  have hmic : i.value.tmod 1000000 = i.microsecond := by omega
  unfold intervalOf
  rw [hsec, hmic]

/-- The interval of an amount, with both parts of one sign. -/
theorem intervalOf_spec (t : Int) :
    (intervalOf t).value = t ∧ (0 ≤ t → 0 ≤ (intervalOf t).second ∧ 0 ≤ (intervalOf t).microsecond) ∧
      (t ≤ 0 → (intervalOf t).second ≤ 0 ∧ (intervalOf t).microsecond ≤ 0) ∧
      -1000000 < (intervalOf t).microsecond ∧ (intervalOf t).microsecond < 1000000 := by
  obtain ⟨h1, h2, h3, h4, h5⟩ := tdiv_spec t (show (0 : Int) < 1000000 by decide)
  unfold intervalOf MtdInterval.value
  dsimp only
  omega

/-- The check of the year looks at the amount. -/
theorem invalidYear_intervalOf (t : Int) :
    invalidYear (intervalOf t) = true ↔ ¬ InLimits t := by
  obtain ⟨hvalue, hpos, hneg, hlo, hhi⟩ := intervalOf_spec t
  have hzero : (intervalOf t).value =
      (intervalOf t).second * 1000000 + (intervalOf t).microsecond := rfl
  rw [invalidYear_iff hlo hhi (fun h => by omega), hvalue]

/-- **A date becomes the interval of its instant**, if that is within the limits. -/
theorem convertDate2Interval_eq {d : MtdDate} (h : d.Valid) :
    convertDate2Interval d =
      if InLimits (instant d) then .ok (intervalOf (instant d)) else .error .invalidYear := by
  have hnull : d ≠ mtdDateNull := by
    rintro rfl
    exact absurd h.day.month.1 (by decide)
  have hday := dayOfCommonEra_eq_dayNumber h.day
  obtain ⟨hlo, hhi⟩ := timeOfDay_bounds h
  have hmic := h.microSecond
  obtain ⟨n, hn⟩ : ∃ n, n = dayOfCommonEra d.year d.month d.day * 86400 +
    (d.hour * 3600 + d.minute * 60 + d.second : Nat) := ⟨_, rfl⟩
  have hinstant : instant d = n * 1000000 + d.microSecond := by
    unfold instant timeOfDay
    rw [hn, hday]
    push_cast
    omega
  obtain ⟨i, hi⟩ : ∃ i : MtdInterval, i = if n < 0 ∧ (d.microSecond : Int) > 0 then
    ⟨n + 1, d.microSecond - 1000000⟩ else ⟨n, d.microSecond⟩ := ⟨_, rfl⟩
  have hinterval : i = intervalOf (instant d) := by
    rw [hi]
    split_ifs with hneg
    · have hvalue : instant d = (⟨n + 1, d.microSecond - 1000000⟩ : MtdInterval).value := by
        unfold MtdInterval.value
        dsimp only
        omega
      rw [hvalue, intervalOf_value] <;> dsimp only <;> omega
    · have hvalue : instant d = (⟨n, d.microSecond⟩ : MtdInterval).value := hinstant
      rw [hvalue, intervalOf_value] <;> dsimp only <;> omega
  unfold convertDate2Interval
  rw [if_neg hnull]
  simp only [← hn, ← hi, hinterval]
  by_cases hlim : InLimits (instant d)
  · rw [if_neg (fun e => (invalidYear_intervalOf _).mp e hlim), if_pos hlim]
    rfl
  · rw [if_pos ((invalidYear_intervalOf _).mpr hlim), if_neg hlim]
    rfl

/-! ## §5. From intervals to dates. -/

/-- No month has more than 31 days. -/
theorem mDaysOfMonth_le (leap : Bool) (m : Nat) : (mDaysOfMonth leap).getD m 0 ≤ 31 := by
  by_cases hm : m < 13
  · cases leap <;> interval_cases m <;> decide
  · have hlen : (mDaysOfMonth leap).length ≤ m := by
      cases leap <;> exact Nat.le_of_not_lt hm
    rw [List.getD_eq_getElem?_getD, List.getElem?_eq_none hlen]
    decide

/-- **`makeDate`** accepts the fields of a date. -/
theorem makeDate_eq {y : Int} {m d hour minute sec mic : Nat} (h : ValidDay y m d)
    (hhour : hour ≤ 23) (hminute : minute ≤ 59) (hsec : sec ≤ 59) (hmic : mic ≤ 999999) :
    makeDate y m d hour minute sec mic =
      .ok ⟨y, m * 1024 + d * 32 + hour, minute * 67108864 + sec * 1048576 + mic⟩ := by
  obtain ⟨h1, hm⟩ := h.month
  obtain ⟨hd, hlast⟩ := h.day
  have h31 := mDaysOfMonth_le (isLeapYear y) m
  -- the year, month and day pass their check
  have hcheck : checkYearMonthDayAndSetDateValue ⟨0, 0, 0⟩ y m d =
      .ok ⟨y, m * 1024 + d * 32, 0⟩ := by
    have hday : setBits (setBits 0 10 4 m) 5 5 d = m * 1024 + d * 32 := by
      unfold setBits bitsOf
      omega
    unfold checkYearMonthDayAndSetDateValue MtdDate.setYear MtdDate.setMonth MtdDate.setDay
    rw [if_neg (by omega)]
    simp only [pure_bind]
    rw [if_neg h.gap, if_neg (by omega)]
    simp only [pure_bind]
    rw [if_neg (by omega), hday]
    rfl
  -- the time is put into bits that are empty
  have hhour' : setBits (m * 1024 + d * 32) 0 5 hour = m * 1024 + d * 32 + hour := by
    unfold setBits bitsOf
    omega
  have hmic' : setBits (setBits (setBits 0 26 6 minute) 20 6 sec) 0 20 mic =
      minute * 67108864 + sec * 1048576 + mic := by
    unfold setBits bitsOf
    omega
  unfold makeDate
  rw [hcheck]
  show (do
    let d ← MtdDate.setHour ⟨y, m * 1024 + d * 32, 0⟩ hour
    let d ← d.setMinute minute
    let d ← d.setSecond sec
    d.setMicroSecond mic) = _
  unfold MtdDate.setHour MtdDate.setMinute MtdDate.setSecond MtdDate.setMicroSecond
  rw [if_neg (by omega)]
  simp only [pure_bind]
  rw [if_neg (by omega)]
  simp only [pure_bind]
  rw [if_neg (by omega)]
  simp only [pure_bind]
  rw [if_neg (by omega), hhour', hmic']
  rfl

/-- A date that is put together from its fields. -/
theorem valid_of_fields {y : Int} {m d hour minute sec mic : Nat} (h : ValidDay y m d)
    (hhour : hour ≤ 23) (hminute : minute ≤ 59) (hsec : sec ≤ 59) (hmic : mic ≤ 999999)
    (hy : -32768 ≤ y ∧ y ≤ 32767) {x : MtdDate}
    (hx : x = ⟨y, m * 1024 + d * 32 + hour, minute * 67108864 + sec * 1048576 + mic⟩) :
    x.Valid ∧ x.month = m ∧ x.day = d ∧
      timeOfDay x = ((hour * 60 + minute) * 60 + sec) * 1000000 + mic := by
  obtain ⟨h1, hm⟩ := h.month
  have hd := h.day
  have h31 := mDaysOfMonth_le (isLeapYear y) m
  -- each field is read from its bits: what lies below is smaller than its weight
  have hmonth : x.month = m := by
    rw [hx]
    unfold MtdDate.month bitsOf
    dsimp only
    omega
  have hday : x.day = d := by
    rw [hx]
    unfold MtdDate.day bitsOf
    dsimp only
    omega
  have hhour' : x.hour = hour := by
    rw [hx]
    unfold MtdDate.hour bitsOf
    dsimp only
    omega
  have hminute' : x.minute = minute := by
    rw [hx]
    unfold MtdDate.minute bitsOf
    dsimp only
    omega
  have hsec' : x.second = sec := by
    rw [hx]
    unfold MtdDate.second bitsOf
    dsimp only
    omega
  have hmic' : x.microSecond = mic := by
    rw [hx]
    unfold MtdDate.microSecond bitsOf
    dsimp only
    omega
  have hyear : x.year = y := by rw [hx]
  refine ⟨⟨?_, ?_, ?_, ?_, ?_, ?_, ?_⟩, hmonth, hday, ?_⟩
  · rw [hyear, hmonth, hday]
    exact h
  · omega
  · omega
  · omega
  · omega
  · omega
  · rw [hx]
    dsimp only
    omega
  · unfold timeOfDay
    rw [hhour', hminute', hsec', hmic']

/-- The table of first days is the sum of the months before. -/
theorem sStartDayOfMonth_eq (leap : Bool) {m : Nat} (hm : m ≤ 12) :
    (sStartDayOfMonth leap).getD m 0 = (daysBeforeMonth leap).getD (m + 1) 0 := by
  cases leap <;> interval_cases m <;> rfl

/-- **The loop** ends at the month that the day lies in. -/
theorem monthLoop_spec (leap : Bool) (n : Int) (rounds m : Nat) (h1 : 1 ≤ m)
    (hlo : (sStartDayOfMonth leap).getD (m - 1) 0 < n)
    (hhi : n ≤ (sStartDayOfMonth leap).getD (m + rounds - 1) 0) :
    m ≤ monthLoop leap n rounds m ∧ monthLoop leap n rounds m < m + rounds ∧
      (sStartDayOfMonth leap).getD (monthLoop leap n rounds m - 1) 0 < n ∧
      n ≤ (sStartDayOfMonth leap).getD (monthLoop leap n rounds m) 0 := by
  induction rounds generalizing m with
  | zero =>
    rw [Nat.add_zero] at hhi
    omega
  | succ rounds ih =>
    unfold monthLoop
    by_cases hstop : (sStartDayOfMonth leap).getD m 0 ≥ n
    · rw [if_pos hstop]
      exact ⟨Nat.le_refl m, by omega, hlo, hstop⟩
    · rw [if_neg hstop]
      have hnext := ih (m + 1) (by omega) (Int.lt_of_not_ge hstop)
        (by rw [show m + 1 + rounds - 1 = m + (rounds + 1) - 1 by omega]; exact hhi)
      exact ⟨by omega, by omega, hnext.2.2⟩

/-- The month of a day of the year. -/
theorem monthOf_spec (leap : Bool) {n : Int} (h1 : 1 ≤ n)
    (hn : n ≤ (daysBeforeMonth leap).getD 13 0) :
    (1 ≤ monthOf leap n ∧ monthOf leap n ≤ 12) ∧
      (sStartDayOfMonth leap).getD (monthOf leap n - 1) 0 < n ∧
      n ≤ (sStartDayOfMonth leap).getD (monthOf leap n) 0 := by
  have hzero : (sStartDayOfMonth leap).getD 0 0 = 0 := by cases leap <;> rfl
  have hlast : (sStartDayOfMonth leap).getD 12 0 = (daysBeforeMonth leap).getD 13 0 :=
    sStartDayOfMonth_eq leap (Nat.le_refl 12)
  have hspec := monthLoop_spec leap n 12 1 (Nat.le_refl 1) (by rw [hzero]; omega)
    (by rw [hlast]; exact hn)
  unfold monthOf
  exact ⟨⟨hspec.1, by omega⟩, hspec.2.2⟩

/-- A `UChar` of a small number. -/
theorem toUChar_spec {x : Int} (h0 : 0 ≤ x) (hx : x < 256) : (toUChar x : Int) = x := by
  unfold toUChar
  omega

/-- **A day of a year and a time** make a date. -/
theorem dateOfYear_spec {y r sec mic : Int} (hr : 0 ≤ r)
    (hlen : r < if isLeapYear y then 366 else 365) (hsec : 0 ≤ sec ∧ sec < 86400)
    (hmic : 0 ≤ mic ∧ mic < 1000000) (hy : -32768 ≤ y ∧ y ≤ 32767)
    (hgap : y = 1582 → r < 277 ∨ 287 ≤ r) :
    ∃ d, dateOfYear y r sec mic = .ok d ∧ d.Valid ∧ d.year = y ∧
      dayOfYear y d.month d.day = r + 1 ∧ timeOfDay d = sec * 1000000 + mic := by
  have hall : (daysBeforeMonth (isLeapYear y)).getD 13 0 = if isLeapYear y then 366 else 365 := by
    cases isLeapYear y <;> rfl
  obtain ⟨m, hm⟩ : ∃ m, m = monthOf (isLeapYear y) (r + 1) := ⟨_, rfl⟩
  -- the month whose first day is the last one before the day
  obtain ⟨hrange, hlo, hhi⟩ := monthOf_spec (isLeapYear y) (n := r + 1) (by omega) (by omega)
  rw [← hm] at hrange hlo hhi
  have hstart : (sStartDayOfMonth (isLeapYear y)).getD (m - 1) 0 =
      (daysBeforeMonth (isLeapYear y)).getD m 0 := by
    rw [sStartDayOfMonth_eq _ (by omega), Nat.sub_add_cancel hrange.1]
  have hend : (sStartDayOfMonth (isLeapYear y)).getD m 0 =
      (daysBeforeMonth (isLeapYear y)).getD m 0 + (mDaysOfMonth (isLeapYear y)).getD m 0 := by
    rw [sStartDayOfMonth_eq _ hrange.2, daysBeforeMonth_succ _ hrange.1 hrange.2]
  have h31 := mDaysOfMonth_le (isLeapYear y) m
  obtain ⟨d, hd⟩ : ∃ d : Nat, (d : Int) = r + 1 - (daysBeforeMonth (isLeapYear y)).getD m 0 :=
    ⟨_, Int.toNat_of_nonneg (by omega)⟩
  have hdoy : dayOfYear y m d = r + 1 := by
    unfold dayOfYear
    omega
  have hvalid : ValidDay y m d := by
    refine ⟨hrange, ⟨by omega, by omega⟩, ?_⟩
    -- October 1582 begins on the 274th day, the days of the gap are 278 to 287
    rintro ⟨rfl, rfl, h4, h15⟩
    have hoct : (daysBeforeMonth (isLeapYear 1582)).getD 10 0 = 273 := by decide
    have := hgap rfl
    omega
  obtain ⟨hq1, hq2, -, -, hq3⟩ := tdiv_spec sec (show (0 : Int) < 3600 by decide)
  obtain ⟨hm1, hm2, -, -, hm3⟩ := tdiv_spec (sec.tmod 3600) (show (0 : Int) < 60 by decide)
  -- no field is cut by its type
  have hday : toUChar (r + 1 - (daysBeforeMonth (isLeapYear y)).getD m 0) = d := by
    have := toUChar_spec (x := r + 1 - (daysBeforeMonth (isLeapYear y)).getD m 0) (by omega)
      (by omega)
    omega
  obtain ⟨hour, hhour⟩ : ∃ n, n = toUChar (sec.tdiv 3600) := ⟨_, rfl⟩
  obtain ⟨minute, hminute⟩ : ∃ n, n = toUChar ((sec.tmod 3600).tdiv 60) := ⟨_, rfl⟩
  obtain ⟨second, hsecond⟩ : ∃ n, n = toUChar ((sec.tmod 3600).tmod 60) := ⟨_, rfl⟩
  obtain ⟨micro, hmicro⟩ : ∃ n, n = (mic % 2 ^ 32).toNat := ⟨_, rfl⟩
  have hhour' : (hour : Int) = sec.tdiv 3600 := hhour ▸ toUChar_spec (by omega) (by omega)
  have hminute' : (minute : Int) = (sec.tmod 3600).tdiv 60 :=
    hminute ▸ toUChar_spec (by omega) (by omega)
  have hsecond' : (second : Int) = (sec.tmod 3600).tmod 60 :=
    hsecond ▸ toUChar_spec (by omega) (by omega)
  have hmicro' : (micro : Int) = mic := by omega
  have h1 : hour ≤ 23 := by omega
  have h2 : minute ≤ 59 := by omega
  have h3 : second ≤ 59 := by omega
  have h4 : micro ≤ 999999 := by omega
  -- the two words of the date
  obtain ⟨x, hx⟩ : ∃ x : MtdDate, x =
    ⟨y, m * 1024 + d * 32 + hour, minute * 67108864 + second * 1048576 + micro⟩ := ⟨_, rfl⟩
  obtain ⟨hxvalid, hxm, hxd, hxt⟩ := valid_of_fields hvalid h1 h2 h3 h4 hy hx
  refine ⟨x, ?_, hxvalid, by rw [hx], by rw [hxm, hxd, hdoy], by omega⟩
  unfold dateOfYear
  simp only [← hm, hstart, hday, ← hhour, ← hminute, ← hsecond, ← hmicro]
  rw [makeDate_eq hvalid h1 h2 h3 h4, hx]

/-- The length of a year by arithmetic. -/
theorem yearLength_cases (y : Int) :
    (y % 4 = 0 ∧ (y < 1583 ∨ y % 100 ≠ 0 ∨ y % 400 = 0) ∧
        (if isLeapYear y then (366 : Int) else 365) = 366) ∨
      (¬ (y % 4 = 0 ∧ (y < 1583 ∨ y % 100 ≠ 0 ∨ y % 400 = 0)) ∧
        (if isLeapYear y then (366 : Int) else 365) = 365) := by
  have h := isLeapYear_iff y
  by_cases hleap : isLeapYear y = true
  · have hy := h.mp hleap
    exact .inl ⟨hy.1, hy.2, if_pos hleap⟩
  · exact .inr ⟨mt h.mpr hleap, if_neg hleap⟩

/-- **The years before year 1.** -/
theorem yearOfBC_spec {n : Int} (hn : n < 0) :
    0 ≤ (yearOfBC n).2 ∧
      (yearOfBC n).2 < (if isLeapYear (yearOfBC n).1 then 366 else 365) ∧
      (yearOfBC n).1 ≤ 0 ∧ yearBase (yearOfBC n).1 + (yearOfBC n).2 = n := by
  obtain ⟨h1, h2, h3, h4, h5⟩ := tdiv_spec n (show (0 : Int) < 1461 by decide)
  have hlen := yearLength_cases (yearOfBC n).1
  revert hlen
  unfold yearOfBC yearBase
  dsimp only
  split_ifs <;> intro hlen <;> dsimp only at hlen ⊢ <;> omega

/-- The year in a cycle of four. -/
theorem yearInFour_spec (a b c : Int) {r : Int} (h0 : 0 ≤ r) (hr : r < 1461) :
    ∃ k, 0 ≤ k ∧ k ≤ 3 ∧ (yearInFour a b c r).1 = a * 400 + b * 100 + c * 4 + k + 1 ∧
      (yearInFour a b c r).2 = r - 365 * k ∧ 0 ≤ r - 365 * k ∧
      (r - 365 * k < 365 ∨ k = 3 ∧ r = 1460) := by
  unfold yearInFour
  dsimp only
  split_ifs
  · exact ⟨3, by omega⟩
  · exact ⟨2, by omega⟩
  · exact ⟨1, by omega⟩
  · exact ⟨0, by omega⟩

/-- A year after 1600 by its place in the cycles of 400, 100 and 4 years. -/
theorem yearBase_of_cycles {q c e k y : Int} (hq : 0 ≤ q) (hc : 0 ≤ c ∧ c ≤ 3)
    (he : 0 ≤ e ∧ e ≤ 24) (hk : 0 ≤ k ∧ k ≤ 3)
    (hy : y = q * 400 + c * 100 + (400 + e) * 4 + k + 1) :
    yearBase y = 584400 + 146097 * q + 36524 * c + 1461 * e + 365 * k := by
  have hfours : (y - 1) / 4 = 100 * q + 25 * c + 400 + e := by omega
  have hcenturies : (y - 1601) / 100 = 4 * q + c := by omega
  have hlong : (y - 1601) / 400 = q := by omega
  unfold yearBase
  rw [if_neg (by omega), hfours, hcenturies, hlong, hy]
  ring

/-- The last year of four is a leap year, but for three centuries of four. -/
theorem leap_of_cycles {q c e y : Int} (he : 0 ≤ e ∧ e ≤ 24) (hc : 0 ≤ c ∧ c ≤ 3)
    (hlast : e < 24 ∨ c = 3) (hy : y = q * 400 + c * 100 + (400 + e) * 4 + 3 + 1) :
    y % 4 = 0 ∧ (y < 1583 ∨ y % 100 ≠ 0 ∨ y % 400 = 0) := by
  refine ⟨by omega, .inr ?_⟩
  rcases hlast with hlt | rfl
  · left
    omega
  · by_cases h24 : e = 24
    · right
      omega
    · left
      omega

/-- **The other years.** -/
theorem yearOfAD_spec {n : Int} (hn : 0 ≤ n) :
    0 ≤ (yearOfAD n).2 ∧
      (yearOfAD n).2 < (if isLeapYear (yearOfAD n).1 then 366 else 365) ∧
      1 ≤ (yearOfAD n).1 ∧
      yearBase (yearOfAD n).1 + (yearOfAD n).2 = n + (if n < 577737 then 0 else 10) := by
  have hlen := yearLength_cases (yearOfAD n).1
  revert hlen
  unfold yearOfAD
  by_cases hjul : n < 577737
  · obtain ⟨h1, h2, -, -, h5⟩ := tdiv_spec n (show (0 : Int) < 1461 by decide)
    obtain ⟨k, hk0, hk3, hy, hd, hd0, hd1⟩ :=
      yearInFour_spec 0 0 (n.tdiv 1461) (h2 hn) h5
    simp only [if_pos hjul, hy, hd]
    unfold yearBase
    split_ifs <;> intro hlen <;> omega
  · by_cases hold : n + 10 ≤ 400 * 1461
    · obtain ⟨h1, h2, -, -, h5⟩ := tdiv_spec (n + 10) (show (0 : Int) < 1461 by decide)
      obtain ⟨k, hk0, hk3, hy, hd, hd0, hd1⟩ :=
        yearInFour_spec 0 0 ((n + 10).tdiv 1461) (h2 (by omega)) h5
      simp only [if_neg hjul, if_pos hold, hy, hd]
      unfold yearBase
      split_ifs <;> intro hlen <;> omega
    · -- after 1600: cycles of 400, 100 and 4 years
      obtain ⟨r, hr⟩ : ∃ r, r = n + 10 - 400 * 1461 := ⟨_, rfl⟩
      obtain ⟨h1, h2, -, -, h5⟩ := tdiv_spec r (show (0 : Int) < 146097 by decide)
      obtain ⟨h6, h7, -, -, h10⟩ := tdiv_spec (r.tmod 146097) (show (0 : Int) < 36524 by decide)
      obtain ⟨c, t, hct, ht0, htc⟩ : ∃ c t, (if (r.tmod 146097).tdiv 36524 = 4 then
          (3, (r.tmod 146097).tmod 36524 + 36524)
        else ((r.tmod 146097).tdiv 36524, (r.tmod 146097).tmod 36524)) = (c, t) ∧ 0 ≤ t ∧
          (r.tmod 146097 = 36524 * c + t ∧ 0 ≤ c ∧ (c ≤ 2 ∧ t < 36524 ∨ c = 3 ∧ t ≤ 36524)) := by
        split_ifs with h4
        · exact ⟨_, _, rfl, by omega, by omega⟩
        · exact ⟨_, _, rfl, by omega, by omega⟩
      obtain ⟨h11, h12, -, -, h15⟩ := tdiv_spec t (show (0 : Int) < 1461 by decide)
      obtain ⟨k, hk0, hk3, hy, hd, hd0, hd1⟩ :=
        yearInFour_spec (r.tdiv 146097) c (400 + t.tdiv 1461) (h12 ht0) h15
      simp only [if_neg hjul, if_neg hold, ← hr, hct, hy, hd]
      obtain ⟨e, he⟩ : ∃ e, e = t.tdiv 1461 := ⟨_, rfl⟩
      obtain ⟨q, hq⟩ : ∃ q, q = r.tdiv 146097 := ⟨_, rfl⟩
      obtain ⟨y, hyear⟩ : ∃ y, y = q * 400 + c * 100 + (400 + e) * 4 + k + 1 := ⟨_, rfl⟩
      rw [← hq, ← he, ← hyear]
      rw [← he] at h11
      rw [← hq] at h1
      have he24 : 0 ≤ e ∧ e ≤ 24 := by omega
      have hq0 : 0 ≤ q := by omega
      have hc3 : 0 ≤ c ∧ c ≤ 3 := by omega
      have hmain : yearBase y + (t.tmod 1461 - 365 * k) = n + 10 := by
        rw [yearBase_of_cycles hq0 hc3 he24 ⟨hk0, hk3⟩ hyear]
        omega
      rintro (⟨-, -, hlen⟩ | ⟨hno, hlen⟩)
      · rw [hlen]
        refine ⟨hd0, ?_, by omega, hmain⟩
        rcases hd1 with hd1 | ⟨rfl, ht⟩
        · exact Int.lt_trans hd1 (by decide)
        · rw [ht]
          decide
      · rw [hlen]
        refine ⟨hd0, ?_, by omega, hmain⟩
        rcases hd1 with hd1 | ⟨rfl, ht⟩
        · exact hd1
        · exact absurd (leap_of_cycles he24 hc3 (by omega) hyear) hno

/-- The instant of a date whose year and day of the year are known. -/
theorem instant_of_yearBase {d : MtdDate} (h : d.Valid) {r : Int}
    (hday : dayOfYear d.year d.month d.day = r + 1) :
    instant d = (yearBase d.year + r - gapBefore d.year d.month d.day) * 86400000000 +
      timeOfDay d := by
  unfold instant
  rw [← dayOfCommonEra_eq_dayNumber h.day, dayOfCommonEra_eq, hday]
  omega

/-- A day before year 1, with its time. -/
theorem dateOfBC_spec (n sec mic : Int) (hn : n < 0) (hlo : -3652500 ≤ n)
    (hsec : 0 ≤ sec ∧ sec < 86400) (hmic : 0 ≤ mic ∧ mic < 1000000) :
    ∃ d, dateOfYear (yearOfBC n).1 (yearOfBC n).2 sec mic = .ok d ∧ d.Valid ∧
      instant d = n * 86400000000 + (sec * 1000000 + mic) := by
  obtain ⟨hr, hlen, hy, hbase⟩ := yearOfBC_spec hn
  generalize (yearOfBC n).1 = y at hlen hy hbase ⊢
  generalize (yearOfBC n).2 = r at hr hlen hbase ⊢
  have hlow : -32768 ≤ y := by
    have hcases := yearLength_cases y
    have hunfold : yearBase y = 365 * (y - 1) + (y - 1) / 4 - 0 := by
      unfold yearBase
      rw [if_pos (by omega)]
    omega
  obtain ⟨d, hmake, hvalid, hyear, hday, htime⟩ :=
    dateOfYear_spec hr hlen hsec hmic ⟨hlow, by omega⟩ (fun e => by omega)
  have hgap : gapBefore y d.month d.day = 0 := if_pos (.inl (by omega))
  rw [← hyear] at hday hgap hbase
  refine ⟨d, hmake, hvalid, ?_⟩
  rw [instant_of_yearBase hvalid hday, hgap, htime]
  omega

/-- Another day, with its time. -/
theorem dateOfAD_spec (n sec mic : Int) (hn : 0 ≤ n) (hhi : n ≤ 3652060)
    (hsec : 0 ≤ sec ∧ sec < 86400) (hmic : 0 ≤ mic ∧ mic < 1000000) :
    ∃ d, dateOfYear (yearOfAD n).1 (yearOfAD n).2 sec mic = .ok d ∧ d.Valid ∧
      instant d = n * 86400000000 + (sec * 1000000 + mic) := by
  obtain ⟨hr, hlen, hy, hbase⟩ := yearOfAD_spec hn
  generalize (yearOfAD n).1 = y at hlen hy hbase ⊢
  generalize (yearOfAD n).2 = r at hr hlen hbase ⊢
  have hreform : yearBase 1582 = 577460 := by decide
  have hhigh : y ≤ 32767 := by
    have hcases := yearLength_cases y
    unfold yearBase at hbase
    split_ifs at hbase <;> omega
  have hcross : (n < 577737 → y ≤ 1582) ∧ (577737 ≤ n → 1582 ≤ y) := by
    have hcases := yearLength_cases y
    unfold yearBase at hbase
    split_ifs at hbase <;> omega
  obtain ⟨d, hmake, hvalid, hyear, hday, htime⟩ :=
    dateOfYear_spec hr hlen hsec hmic ⟨by omega, hhigh⟩ (fun e => by
      rw [e, hreform] at hbase
      split_ifs at hbase <;> omega)
  have hgap := gapBefore_cases hvalid.day
  rw [← hyear] at hday hbase hcross
  refine ⟨d, hmake, hvalid, ?_⟩
  rw [instant_of_yearBase hvalid hday, htime]
  have hdays : yearBase d.year + r - gapBefore d.year d.month d.day = n := by
    rcases hgap with ⟨h1, h2⟩ | ⟨h1, h2, h3⟩ | ⟨h1, h2, h3⟩ | ⟨h1, h2⟩
    · rw [h2]
      split_ifs at hbase <;> omega
    · rw [h1, hreform] at hbase
      rw [h2, h1, hreform]
      split_ifs at hbase <;> omega
    · rw [h1, hreform] at hbase
      rw [h2, h1, hreform]
      split_ifs at hbase <;> omega
    · rw [h2]
      split_ifs at hbase <;> omega
  omega

/-- **An interval becomes the date of its instant**, if that is within the limits. -/
theorem convertInterval2Date_eq {t : Int} (h : InLimits t) :
    ∃ d, convertInterval2Date (intervalOf t) = .ok d ∧ d.Valid ∧ instant d = t := by
  obtain ⟨i, hi⟩ : ∃ i, i = intervalOf t := ⟨_, rfl⟩
  obtain ⟨hvalue, hpos, hneg, hlo, hhi⟩ := intervalOf_spec t
  rw [← hi] at hvalue hpos hneg hlo hhi ⊢
  have hsum : i.value = i.second * 1000000 + i.microsecond := rfl
  have hlim : minYearPerSecond * 1000000 ≤ t ∧ t < (maxYearPerSecond + 1) * 1000000 := h
  unfold minYearPerSecond maxYearPerSecond at hlim
  obtain ⟨h1, h2, h3, h4, h5⟩ := tdiv_spec i.second (show (0 : Int) < 86400 by decide)
  have hmic : Int.bmod i.microsecond (2 ^ 32) = i.microsecond := by
    apply Int.bmod_eq_of_le <;> omega
  unfold convertInterval2Date
  rw [if_neg (fun e => by rw [hi, invalidYear_intervalOf] at e; exact e h)]
  simp only [hmic]
  by_cases hsign : t < 0
  · rw [if_pos (by omega)]
    split_ifs with hm hs hs
    · obtain ⟨d, hmake, hvalid, hd⟩ := dateOfBC_spec (i.second.tdiv 86400 - 1)
        (i.second.tmod 86400 - 1 + 86400) (i.microsecond + 1000000) (by omega) (by omega)
        (by omega) (by omega)
      exact ⟨d, hmake, hvalid, by omega⟩
    · exact absurd h3 (by omega)
    · obtain ⟨d, hmake, hvalid, hd⟩ := dateOfBC_spec (i.second.tdiv 86400 - 1)
        (i.second.tmod 86400 + 86400) i.microsecond (by omega) (by omega) (by omega) (by omega)
      exact ⟨d, hmake, hvalid, by omega⟩
    · obtain ⟨d, hmake, hvalid, hd⟩ := dateOfBC_spec (i.second.tdiv 86400)
        (i.second.tmod 86400) i.microsecond (by omega) (by omega) (by omega) (by omega)
      exact ⟨d, hmake, hvalid, by omega⟩
  · rw [if_neg (by omega)]
    obtain ⟨d, hmake, hvalid, hd⟩ := dateOfAD_spec (i.second.tdiv 86400)
      (i.second.tmod 86400) i.microsecond (by omega) (by omega) (by omega) (by omega)
    exact ⟨d, hmake, hvalid, by omega⟩

/-! ## §6. One time line. -/

/-- A word is put together from its fields. -/
theorem monDayHour_eq {d : MtdDate} (h : d.monDayHour < 2 ^ 14) :
    d.monDayHour = d.month * 1024 + d.day * 32 + d.hour := by
  unfold MtdDate.month MtdDate.day MtdDate.hour bitsOf
  omega

/-- The word of the time, from its three fields. -/
theorem minSecMic_eq {d : MtdDate} (h : d.minSecMic < 2 ^ 32) :
    d.minSecMic = d.minute * 67108864 + d.second * 1048576 + d.microSecond := by
  unfold MtdDate.minute MtdDate.second MtdDate.microSecond bitsOf
  omega

/-- The fields of a date are within their bits. -/
theorem fields_lt (d : MtdDate) :
    d.day < 32 ∧ d.hour < 32 ∧ d.second < 64 ∧ d.microSecond < 1048576 := by
  unfold MtdDate.day MtdDate.hour MtdDate.second MtdDate.microSecond bitsOf
  omega

/-- **A date that compares less** is earlier. -/
theorem instant_lt_of_compare {d e : MtdDate} (hd : d.Valid) (he : e.Valid)
    (h : d.compare e < 0) : instant d < instant e := by
  have hdt := timeOfDay_bounds hd
  have het := timeOfDay_bounds he
  have hdw := monDayHour_eq hd.packed.1
  have hew := monDayHour_eq he.packed.1
  have hdm := minSecMic_eq hd.packed.2
  have hem := minSecMic_eq he.packed.2
  have hdf := fields_lt d
  have hef := fields_lt e
  have hcases : DayLt d.year d.month d.day e.year e.month e.day ∨
      (d.year = e.year ∧ d.month = e.month ∧ d.day = e.day ∧ timeOfDay d < timeOfDay e) := by
    have hcmp : d.year < e.year ∨ d.year = e.year ∧ (d.monDayHour < e.monDayHour ∨
        d.monDayHour = e.monDayHour ∧ d.minSecMic < e.minSecMic) := by
      unfold MtdDate.compare at h
      split_ifs at h <;> omega
    have h1 := hd.minute
    have h2 := hd.second
    have h3 := hd.microSecond
    unfold DayLt timeOfDay
    rcases hcmp with hlt | ⟨hy, hlt | ⟨hword, hlt⟩⟩
    · exact .inl (.inl hlt)
    · by_cases hday : d.month = e.month ∧ d.day = e.day
      · exact .inr ⟨hy, hday.1, hday.2, by omega⟩
      · exact .inl (.inr ⟨hy, by omega⟩)
    · exact .inr ⟨hy, by omega, by omega, by omega⟩
  unfold instant
  rcases hcases with hday | ⟨hy, hm, hday, htime⟩
  · have hlt := dayOfCommonEra_lt hd.day he.day hday
    rw [dayOfCommonEra_eq_dayNumber hd.day, dayOfCommonEra_eq_dayNumber he.day] at hlt
    omega
  · rw [hy, hm, hday]
    omega

/-- Dates that compare equal are equal. -/
theorem eq_of_compare {d e : MtdDate} (h1 : ¬ d.compare e < 0) (h2 : ¬ e.compare d < 0) :
    d = e := by
  have hwords : d.year = e.year ∧ d.monDayHour = e.monDayHour ∧ d.minSecMic = e.minSecMic := by
    unfold MtdDate.compare at h1 h2
    split_ifs at h1 h2 <;> omega
  obtain ⟨hy, hm, hs⟩ := hwords
  cases d
  cases e
  dsimp only at hy hm hs
  rw [hy, hm, hs]

/-- **A date is known by its instant.** -/
theorem instant_injective {d e : MtdDate} (hd : d.Valid) (he : e.Valid)
    (h : instant d = instant e) : d = e := by
  apply eq_of_compare
  · intro hlt
    have := instant_lt_of_compare hd he hlt
    omega
  · intro hlt
    have := instant_lt_of_compare he hd hlt
    omega

/-- The supported years. -/
theorem inLimits_of_year {d : MtdDate} (hd : d.Valid) :
    InLimits (instant d) ↔ -9999 ≤ d.year ∧ d.year ≤ 9999 := by
  have htime := timeOfDay_bounds hd
  have hbounds := dayOfCommonEra_bounds hd.day
  rw [dayOfCommonEra_eq_dayNumber hd.day] at hbounds
  have hfirst : yearStart (-9999) = -3652500 := by decide
  have hlast : yearStart 10000 = 3652061 := by decide
  unfold InLimits minYearPerSecond maxYearPerSecond instant
  constructor
  · intro h
    constructor
    · by_contra hlt
      have := yearStart_le (show d.year + 1 ≤ -9999 by omega)
      omega
    · by_contra hlt
      have := yearStart_le (show 10000 ≤ d.year by omega)
      omega
  · intro h
    have h1 := yearStart_le h.1
    have h2 := yearStart_le (show d.year + 1 ≤ 10000 by omega)
    omega

/-- **Dates and intervals are two encodings of one time line.**  A date of the supported
    years becomes an interval that becomes the date again; an interval within the limits
    whose parts have one sign becomes a date that becomes the interval again; and later
    dates become greater intervals. -/
theorem date_interval_equiv :
    (∀ d : MtdDate, d.Valid → -9999 ≤ d.year ∧ d.year ≤ 9999 →
      ∃ i, convertDate2Interval d = .ok i ∧ i.value = instant d ∧
        convertInterval2Date i = .ok d) ∧
    (∀ i : MtdInterval, invalidYear i = false → -1000000 < i.microsecond →
      i.microsecond < 1000000 → (i.second < 0 → i.microsecond ≤ 0) →
      (0 < i.second → 0 ≤ i.microsecond) →
      ∃ d, convertInterval2Date i = .ok d ∧ d.Valid ∧ convertDate2Interval d = .ok i) ∧
    (∀ d e : MtdDate, d.Valid → e.Valid → -9999 ≤ d.year ∧ d.year ≤ 9999 →
      -9999 ≤ e.year ∧ e.year ≤ 9999 → d.compare e < 0 →
      ∃ i j, convertDate2Interval d = .ok i ∧ convertDate2Interval e = .ok j ∧
        i.value < j.value) := by
  have hback : ∀ t, InLimits t → ∃ d, convertInterval2Date (intervalOf t) = .ok d ∧ d.Valid ∧
      instant d = t ∧ convertDate2Interval d = .ok (intervalOf t) := by
    intro t ht
    obtain ⟨d, hconv, hvalid, hinst⟩ := convertInterval2Date_eq ht
    refine ⟨d, hconv, hvalid, hinst, ?_⟩
    rw [convertDate2Interval_eq hvalid, hinst, if_pos ht]
  have hforth : ∀ d : MtdDate, d.Valid → -9999 ≤ d.year ∧ d.year ≤ 9999 →
      convertDate2Interval d = .ok (intervalOf (instant d)) := by
    intro d hd hyear
    rw [convertDate2Interval_eq hd, if_pos ((inLimits_of_year hd).mpr hyear)]
  refine ⟨fun d hd hyear => ?_, fun i hyear hlo hhi hneg hpos => ?_,
    fun d e hd he hdy hey hlt => ?_⟩
  · obtain ⟨e, hconv, hvalid, hinst, -⟩ := hback _ ((inLimits_of_year hd).mpr hyear)
    refine ⟨_, hforth d hd hyear, (intervalOf_spec _).1, ?_⟩
    rw [hconv, instant_injective hvalid hd hinst]
  · have hlim : InLimits i.value := by
      by_contra hout
      rw [(invalidYear_iff hlo hhi hpos).mpr hout] at hyear
      cases hyear
    obtain ⟨d, hconv, hvalid, -, hagain⟩ := hback _ hlim
    rw [intervalOf_value hlo hhi hneg hpos] at hconv hagain
    exact ⟨d, hconv, hvalid, hagain⟩
  · refine ⟨_, _, hforth d hd hdy, hforth e he hey, ?_⟩
    rw [(intervalOf_spec _).1, (intervalOf_spec _).1]
    exact instant_lt_of_compare hd he hlt

/-- The last day before the gap, one second before midnight. -/
def lastJulianDay : MtdDate := ⟨1582, 10 * 1024 + 4 * 32 + 23, 59 * 67108864 + 59 * 1048576⟩

theorem lastJulianDay_valid : lastJulianDay.Valid :=
  ⟨⟨by decide, by decide, by decide⟩, by decide, by decide, by decide, by decide, by decide,
    by decide⟩

/-- The first day after it, and the last moment before year 1. -/
theorem date_interval_equiv_reform :
    (∃ i, convertDate2Interval lastJulianDay = .ok i ∧ i.value = instant lastJulianDay ∧
      convertInterval2Date i = .ok lastJulianDay) ∧
    (∃ d, convertInterval2Date ⟨0, -1⟩ = .ok d ∧ d.Valid ∧
      convertDate2Interval d = .ok ⟨0, -1⟩) ∧
    (∃ i j, convertDate2Interval lastJulianDay = .ok i ∧
      convertDate2Interval ⟨1582, 10 * 1024 + 15 * 32, 0⟩ = .ok j ∧ i.value < j.value) :=
  ⟨date_interval_equiv.1 lastJulianDay lastJulianDay_valid (by decide),
    date_interval_equiv.2.1 ⟨0, -1⟩ (by decide) (by decide) (by decide) (by decide) (by decide),
    date_interval_equiv.2.2 lastJulianDay ⟨1582, 10 * 1024 + 15 * 32, 0⟩ lastJulianDay_valid
      ⟨⟨by decide, by decide, by decide⟩, by decide, by decide, by decide, by decide, by decide,
        by decide⟩ (by decide) (by decide) (by decide)⟩

end Altibase.Mtd
