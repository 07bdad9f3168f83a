/-
  Altibase.Mtd.DateAdd
  ────────────────────
  **ADDING TO DATES** (`mtdDateInterface::addDay`, `addSecond`, `addMicroSecond`).

  The date becomes an interval, the amount is added in 64-bit arithmetic, and the
  sum becomes a date again.  The limits are checked once, after the last
  multiplication.

    * `shiftDate`, `addDay_eq`, `addSecond_eq`, `addMicroSecond_eq` — the three
      functions shift the instant by a number of microseconds modulo `2 ^ 64`;
    * `shiftDate_right_iff` — when that is the exact shift;
    * `addDate_right_iff` — the three functions: a sum that has wrapped around
      into the limits is taken for a date;
    * `addDay_wraps` — 2 ^ 57 days later is the same day.
-/
import Altibase.Mtd.Date

namespace Altibase.Mtd

/-! ## §1. The functions. -/

/-- An `SLong`, which wraps around. -/
def toSLong (x : Int) : Int := (x + 2 ^ 63) % 2 ^ 64 - 2 ^ 63

/-- The common end: the sum is made an interval again, checked and converted. -/
def convertSum (second microsecond : Int) : Except DateError MtdDate :=
  let microsecond := toSLong (microsecond + toSLong (second * 1000000))
  let sInterval : MtdInterval := ⟨microsecond.tdiv 1000000, microsecond.tmod 1000000⟩
  if invalidYear sInterval then throw .invalidYear else convertInterval2Date sInterval

/-- **`addDay`**. -/
def addDay (aDate : MtdDate) (aNumber : Int) : Except DateError MtdDate := do
  let sInterval ← convertDate2Interval aDate
  convertSum (toSLong (sInterval.second + toSLong (aNumber * 86400))) sInterval.microsecond

/-- **`addSecond`**. -/
def addSecond (aDate : MtdDate) (aSecond aMicroSecond : Int) : Except DateError MtdDate := do
  let sInterval ← convertDate2Interval aDate
  convertSum (toSLong (sInterval.second + aSecond)) (toSLong (sInterval.microsecond + aMicroSecond))

/-- **`addMicroSecond`**. -/
def addMicroSecond (aDate : MtdDate) (aNumber : Int) : Except DateError MtdDate := do
  let sInterval ← convertDate2Interval aDate
  convertSum sInterval.second (toSLong (sInterval.microsecond + aNumber))

/-! ## §2. What they have in common. -/

/-- **The date whose instant is `x` microseconds later**, modulo `2 ^ 64`. -/
def shiftDate (d : MtdDate) (x : Int) : Except DateError MtdDate :=
  if InLimits (instant d) then
    if InLimits (toSLong (instant d + x)) then
      convertInterval2Date (intervalOf (toSLong (instant d + x)))
    else .error .invalidYear
  else .error .invalidYear

/-- Only the last wrap counts. -/
theorem convertSum_eq (second microsecond : Int) :
    convertSum second microsecond =
      if InLimits (toSLong (second * 1000000 + microsecond)) then
        convertInterval2Date (intervalOf (toSLong (second * 1000000 + microsecond)))
      else .error .invalidYear := by
  have hsum : toSLong (microsecond + toSLong (second * 1000000)) =
      toSLong (second * 1000000 + microsecond) := by
    unfold toSLong
    omega
  unfold convertSum
  simp only [hsum]
  show (if invalidYear (intervalOf (toSLong (second * 1000000 + microsecond))) then
    throw .invalidYear
    else convertInterval2Date (intervalOf (toSLong (second * 1000000 + microsecond)))) = _
  by_cases hlim : InLimits (toSLong (second * 1000000 + microsecond))
  · rw [if_pos hlim, if_neg (fun e => (invalidYear_intervalOf _).mp e hlim)]
  · rw [if_neg hlim, if_pos ((invalidYear_intervalOf _).mpr hlim)]
    rfl

section Add

variable {d : MtdDate} (hd : d.Valid)

include hd in
/-- The common shape of the three functions. -/
theorem addSum_eq {f g : MtdInterval → Int} {x : Int}
    (h : ∀ i : MtdInterval, toSLong (f i * 1000000 + g i) = toSLong (i.value + x)) :
    (do
      let sInterval ← convertDate2Interval d
      convertSum (f sInterval) (g sInterval)) = shiftDate d x := by
  unfold shiftDate
  rw [convertDate2Interval_eq hd]
  by_cases hlim : InLimits (instant d)
  · rw [if_pos hlim, if_pos hlim]
    show convertSum (f (intervalOf (instant d))) (g (intervalOf (instant d))) = _
    rw [convertSum_eq, h, (intervalOf_spec (instant d)).1]
  · rw [if_neg hlim, if_neg hlim]
    rfl

include hd in
theorem addDay_eq (n : Int) : addDay d n = shiftDate d (n * 86400000000) :=
  addSum_eq hd fun i => by
    unfold toSLong MtdInterval.value
    omega

include hd in
theorem addSecond_eq (n m : Int) : addSecond d n m = shiftDate d (n * 1000000 + m) :=
  addSum_eq hd fun i => by
    unfold toSLong MtdInterval.value
    omega

include hd in
theorem addMicroSecond_eq (n : Int) : addMicroSecond d n = shiftDate d n :=
  addSum_eq hd fun i => by
    unfold toSLong MtdInterval.value
    omega

end Add

/-! ## §3. When the sum is exact. -/

/-- **What an addition should do**: give the date at the instant `t`, or report an
    invalid year exactly if `t` is outside the limits; and taking the amount off again
    leads back. -/
structure AddedRight (r : Except DateError MtdDate) (back : MtdDate → Except DateError MtdDate)
    (d : MtdDate) (t : Int) : Prop where
  exact : ∀ d', r = .ok d' → d'.Valid ∧ instant d' = t
  error : ∀ e, r = .error e → e = .invalidYear
  limits : r = .error .invalidYear ↔ ¬ InLimits t
  back : ∀ d', r = .ok d' → back d' = .ok d

/-- **No other instant within the limits is `t` modulo `2 ^ 64`**; and if the date itself
    is outside the limits, so is `t`. -/
def SumFits (d : MtdDate) (t : Int) : Prop :=
  if InLimits (instant d) then ∀ k : Int, InLimits (t - k * 2 ^ 64) → k = 0 else ¬ InLimits t

/-- A reported error is right if the instant is outside. -/
theorem addedRight_error {r : Except DateError MtdDate}
    {back : MtdDate → Except DateError MtdDate} {d : MtdDate} {t : Int}
    (herr : r = .error .invalidYear) (hout : ¬ InLimits t) : AddedRight r back d t := by
  refine ⟨?_, ?_, iff_of_true herr hout, ?_⟩
  · intro e he
    rw [herr] at he
    cases he
  · intro e he
    rw [herr, Except.error.injEq] at he
    exact he.symm
  · intro e he
    rw [herr] at he
    cases he

/-- The way back counts for dates only. -/
theorem AddedRight.congr_back {r : Except DateError MtdDate}
    {b₁ b₂ : MtdDate → Except DateError MtdDate} {d : MtdDate} {t : Int}
    (h : AddedRight r b₁ d t) (hback : ∀ d', d'.Valid → b₂ d' = b₁ d') : AddedRight r b₂ d t :=
  ⟨h.exact, h.error, h.limits, fun d' hr => (hback d' (h.exact d' hr).1).trans (h.back d' hr)⟩

/-- Instants within the limits do not wrap around. -/
theorem toSLong_of_inLimits {t : Int} (h : InLimits t) : toSLong t = t := by
  unfold InLimits minYearPerSecond maxYearPerSecond at h
  unfold toSLong
  omega

theorem exists_toSLong (t : Int) : ∃ k, toSLong t = t - k * 2 ^ 64 := by
  refine ⟨(t + 2 ^ 63) / 2 ^ 64, ?_⟩
  unfold toSLong
  omega

/-- An instant within the limits is what its class wraps to. -/
theorem toSLong_of_sub {t k : Int} (h : InLimits (t - k * 2 ^ 64)) :
    toSLong t = t - k * 2 ^ 64 := by
  unfold InLimits minYearPerSecond maxYearPerSecond at h
  unfold toSLong
  omega

section Shift

variable {d : MtdDate} (hd : d.Valid)

include hd in
/-- A shift that succeeds. -/
theorem shiftDate_ok (hlim : InLimits (instant d)) {x : Int}
    (hsum : InLimits (toSLong (instant d + x))) :
    ∃ d', shiftDate d x = .ok d' ∧ d'.Valid ∧ instant d' = toSLong (instant d + x) ∧
      shiftDate d' (-x) = .ok d := by
  obtain ⟨d', hconv, hvalid, hinst⟩ := convertInterval2Date_eq hsum
  have hback : toSLong (instant d' + -x) = instant d := by
    rw [hinst]
    unfold InLimits minYearPerSecond maxYearPerSecond at hlim
    unfold toSLong
    omega
  obtain ⟨d'', hconv', hvalid', hinst'⟩ := convertInterval2Date_eq hlim
  refine ⟨d', ?_, hvalid, hinst, ?_⟩
  · unfold shiftDate
    rw [if_pos hlim, if_pos hsum, hconv]
  · unfold shiftDate
    rw [hinst, if_pos hsum, ← hinst, hback, if_pos hlim, hconv',
      instant_injective hvalid' hd hinst']

include hd in
/-- **A shift is right** exactly if the sum fits. -/
theorem shiftDate_right_iff (x : Int) :
    AddedRight (shiftDate d x) (fun d' => shiftDate d' (-x)) d (instant d + x) ↔
      SumFits d (instant d + x) := by
  unfold SumFits
  by_cases hlim : InLimits (instant d)
  · rw [if_pos hlim]
    by_cases hsum : InLimits (toSLong (instant d + x))
    · obtain ⟨d', hok, hvalid, hinst, hback⟩ := shiftDate_ok hd hlim hsum
      constructor
      · intro h k hk
        have hexact := (h.exact d' hok).2
        have hwrap := toSLong_of_sub hk
        omega
      · intro h
        -- a sum that wrapped into the limits would be wrong, and the condition excludes it
        obtain ⟨k, hk⟩ := exists_toSLong (instant d + x)
        have hzero : k = 0 := h k (hk ▸ hsum)
        have hexact : toSLong (instant d + x) = instant d + x := by
          rw [hk, hzero]
          omega
        rw [hexact] at hsum hinst
        refine ⟨?_, ?_, ?_, ?_⟩
        · intro e he
          rw [hok, Except.ok.injEq] at he
          exact ⟨he ▸ hvalid, he ▸ hinst⟩
        · intro e he
          rw [hok] at he
          cases he
        · rw [hok]
          exact iff_of_false (fun e => by cases e) (not_not.mpr hsum)
        · intro e he
          rw [hok, Except.ok.injEq] at he
          exact he ▸ hback
    · -- the sum is outside, as the code says
      have herr : shiftDate d x = .error .invalidYear := by
        unfold shiftDate
        rw [if_pos hlim, if_neg hsum]
      have hout : ¬ InLimits (instant d + x) :=
        fun h => hsum ((toSLong_of_inLimits h).symm ▸ h)
      refine iff_of_true (addedRight_error herr hout) ?_
      · intro k hk
        exact absurd ((toSLong_of_sub hk).symm ▸ hk) hsum
  · rw [if_neg hlim]
    -- the date itself is outside
    have herr : shiftDate d x = .error .invalidYear := by
      unfold shiftDate
      rw [if_neg hlim]
    exact ⟨fun h => h.limits.mp herr, addedRight_error herr⟩

include hd in
/-- **The three additions are right** exactly if the sum fits; microseconds always do. -/
theorem addDate_right_iff :
    (∀ n, AddedRight (addDay d n) (fun d' => addDay d' (-n)) d (instant d + n * 86400000000) ↔
      SumFits d (instant d + n * 86400000000)) ∧
    (∀ n m, AddedRight (addSecond d n m) (fun d' => addSecond d' (-n) (-m)) d
        (instant d + (n * 1000000 + m)) ↔ SumFits d (instant d + (n * 1000000 + m))) ∧
    (∀ n, AddedRight (addMicroSecond d n) (fun d' => addMicroSecond d' (-n)) d (instant d + n) ↔
      SumFits d (instant d + n)) ∧
    ∀ n, -2 ^ 63 ≤ n → n < 2 ^ 63 → InLimits (instant d) → SumFits d (instant d + n) := by
  refine ⟨fun n => ?_, fun n m => ?_, fun n => ?_, fun n hlo hhi hlim => ?_⟩
  · have hback : ∀ d' : MtdDate, d'.Valid →
        addDay d' (-n) = shiftDate d' (-(n * 86400000000)) := fun d' hd' => by
      rw [addDay_eq hd', Int.neg_mul]
    rw [addDay_eq hd, ← shiftDate_right_iff hd]
    exact ⟨fun h => h.congr_back fun d' hd' => (hback d' hd').symm,
      fun h => h.congr_back hback⟩
  · have hback : ∀ d' : MtdDate, d'.Valid →
        addSecond d' (-n) (-m) = shiftDate d' (-(n * 1000000 + m)) := fun d' hd' => by
      rw [addSecond_eq hd', Int.neg_mul, Int.neg_add]
    rw [addSecond_eq hd, ← shiftDate_right_iff hd]
    exact ⟨fun h => h.congr_back fun d' hd' => (hback d' hd').symm,
      fun h => h.congr_back hback⟩
  · have hback : ∀ d' : MtdDate, d'.Valid → addMicroSecond d' (-n) = shiftDate d' (-n) :=
      fun d' hd' => addMicroSecond_eq hd' (-n)
    rw [addMicroSecond_eq hd, ← shiftDate_right_iff hd]
    exact ⟨fun h => h.congr_back fun d' hd' => (hback d' hd').symm,
      fun h => h.congr_back hback⟩
  · unfold SumFits
    rw [if_pos hlim]
    intro k hk
    unfold InLimits minYearPerSecond maxYearPerSecond at hlim hk
    omega

end Shift

/-- The theorem at the first day of the time line. -/
theorem addDate_right_iff_newEra :
    AddedRight (addDay ⟨1, 1056, 0⟩ 1) (fun d' => addDay d' (-1)) ⟨1, 1056, 0⟩
        (instant ⟨1, 1056, 0⟩ + 1 * 86400000000) ↔
      SumFits ⟨1, 1056, 0⟩ (instant ⟨1, 1056, 0⟩ + 1 * 86400000000) :=
  (addDate_right_iff ⟨⟨by decide, by decide, by decide⟩, by decide, by decide, by decide,
    by decide, by decide, by decide⟩).1 1

/-- **A sum that has wrapped around is taken for a date**: 2 ^ 57 days after the first day
    of the time line is that day itself. -/
theorem addDay_wraps :
    addDay ⟨1, 1056, 0⟩ (2 ^ 57) = .ok ⟨1, 1056, 0⟩ ∧
      ¬ InLimits (instant ⟨1, 1056, 0⟩ + 2 ^ 57 * 86400000000) ∧
      ¬ AddedRight (addDay ⟨1, 1056, 0⟩ (2 ^ 57)) (fun d' => addDay d' (-(2 ^ 57)))
        ⟨1, 1056, 0⟩ (instant ⟨1, 1056, 0⟩ + 2 ^ 57 * 86400000000) := by
  have hwrap : addDay ⟨1, 1056, 0⟩ (2 ^ 57) = .ok ⟨1, 1056, 0⟩ := by decide
  refine ⟨hwrap, by decide, fun h => ?_⟩
  have hinst := (h.exact _ hwrap).2
  revert hinst
  decide

end Altibase.Mtd
