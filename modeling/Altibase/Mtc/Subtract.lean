/-
  Altibase.Mtc.Subtract
  ─────────────────────
  **SUBTRACTION.**

  `subtractFloat` should be `addFloat` with the second operand negated.  Three
  things come in between: a byte of a hundred that the loop leaves at the last
  place, the exponent that is checked before it is raised, and the end that is
  trimmed by the sign of a byte that the exponent has overrun.

    * `subSettle_same`, `subSettle_positive`, `subSettle_negative` — what the
      bytes after the loop mean;
    * `subtractFloat_closed` — the result, from the two magnitudes;
    * `subtractFloat_iff` — exactly where `a - b` is `a + (-b)`.
-/

import Altibase.Mtc.SubtractLoop

namespace Altibase.Mtc

open Altibase.Lib.Digits

/-! ## §1. What is stored. -/

theorem predStep_spec {d c : Nat} (hc : c ≤ 1) :
    (predStep d c).1 ≤ 1 ∧ (predStep d c).2 + c = d + (predStep d c).1 * 100 := by
  unfold predStep
  split_ifs with h0 h1
  · exact ⟨by norm_num, by simp only; omega⟩
  · exact ⟨le_rfl, by simp only; omega⟩
  · exact ⟨by norm_num, by simp only; omega⟩

/-- The loop takes one away. -/
theorem val_pred (ds : List Nat) {c : Nat} (hc : c ≤ 1) :
    (carry predStep ds c).1 ≤ 1 ∧
      val 100 (carry predStep ds c).2 + c =
        val 100 ds + (carry predStep ds c).1 * 100 ^ ds.length := by
  induction ds with
  | nil =>
    refine ⟨hc, ?_⟩
    show 0 + c = 0 + c * 1
    omega
  | cons d ds ih =>
    obtain ⟨hc', heq⟩ := ih
    obtain ⟨hc2, hstep⟩ := predStep_spec (d := d) hc'
    rw [carry_cons]
    refine ⟨hc2, ?_⟩
    rw [val_cons, val_cons, carry_length, List.length_cons, pow_succ]
    show (predStep d (carry predStep ds c).1).2 * 100 ^ ds.length +
      val 100 (carry predStep ds c).2 + c = _
    calc (predStep d (carry predStep ds c).1).2 * 100 ^ ds.length +
          val 100 (carry predStep ds c).2 + c
        = (predStep d (carry predStep ds c).1).2 * 100 ^ ds.length +
          (val 100 ds + (carry predStep ds c).1 * 100 ^ ds.length) := by rw [add_assoc, heq]
      _ = ((predStep d (carry predStep ds c).1).2 + (carry predStep ds c).1) * 100 ^ ds.length +
          val 100 ds := by ring
      _ = _ := by
        rw [hstep]
        ring

theorem predStep_lt {d c : Nat} (hd : d < 100) : (predStep d c).2 < 100 := by
  unfold predStep
  split_ifs <;> simp only <;> omega

/-- The bytes less one; the last of them may have been a hundred. -/
theorem pred_spec {m : List Nat} {d : Nat} (hm : Below 100 m) (hd : d ≤ 100) :
    let r := carry predStep (m ++ [d]) 1
    r.1 ≤ 1 ∧ Below 100 r.2 ∧ r.2.length = m.length + 1 ∧
      val 100 r.2 + 1 = val 100 (m ++ [d]) + r.1 * 100 ^ (m.length + 1) := by
  intro r
  have hval := val_pred (m ++ [d]) le_rfl
  rw [List.length_append] at hval
  refine ⟨hval.1, ?_, ?_, hval.2⟩
  · have hlast : (predStep d 1).2 < 100 := by
      have hstep := (predStep_spec (d := d) le_rfl).2
      by_cases h0 : d = 0
      · rw [h0]
        decide
      · have hnone : (predStep d 1).1 = 0 := by
          unfold predStep
          rw [if_neg one_ne_zero, if_neg h0]
        omega
    have hrest : Below 100 (carry predStep m (predStep d 1).1).2 :=
      (carry_spec (C := fun _ => True) (P := (· < 100))
        (fun d _ (hd : d < 100) _ => ⟨trivial, predStep_lt hd⟩) m hm trivial).2
    show Below 100 (carry predStep (m ++ [d]) 1).2
    rw [carry_append]
    apply Below.append hrest
    exact Below.cons_iff.mpr ⟨hlast, fun d hd => absurd hd List.not_mem_nil⟩
  · show (carry predStep (m ++ [d]) 1).2.length = _
    rw [carry_length, List.length_append]
    rfl

/-- The number `k` in `n` places as `subtractFloat` stores it: what is trimmed at
    the end depends on the byte for the exponent. -/
def subFinish (neg : Bool) (e : Int) (n k : Nat) : MtdNumericType :=
  if k = 0 then zero
  else
    let ds := numeral 100 n k
    let e' := e - (ds.takeWhile (· = 0)).length
    subStore (if neg then uchar (64 - e') else uchar (e' + 192)) (bytes neg (ds.dropWhile (· = 0)))

section Settle

variable {e : Int} {n c : Nat}

/-- A numeral that needs all its places has no zeros in front. -/
theorem numeral_full {j k : Nat} (hlow : 100 ^ j ≤ k) (hhigh : k < 100 ^ (j + 1)) :
    (numeral 100 (j + 1) k).takeWhile (· = 0) = [] ∧
      (numeral 100 (j + 1) k).dropWhile (· = 0) = numeral 100 (j + 1) k := by
  have hval := val_numeral (b := 100) (j + 1) k hhigh
  have hb := numeral_below (b := 100) (by norm_num) (j + 1) k
  have hlen := numeral_length (b := 100) (j + 1) k
  cases hd : numeral 100 (j + 1) k with
  | nil =>
    rw [hd] at hlen
    exact absurd hlen (by simp)
  | cons d ds =>
    rw [hd] at hval hb hlen
    have hd0 : d ≠ 0 := by
      rintro rfl
      have hlt := val_lt (Below.cons_iff.mp hb).2
      rw [List.length_cons] at hlen
      rw [val_cons, zero_mul, zero_add] at hval
      rw [show ds.length = j by omega] at hlt
      omega
    rw [List.takeWhile_cons_of_neg (by simpa using hd0),
      List.dropWhile_cons_of_neg (by simpa using hd0)]
    exact ⟨rfl, rfl⟩

theorem takeWhile_numeral {k : Nat} (hk : k < 100 ^ n) :
    ((numeral 100 n k).takeWhile (· = 0)).length = n ↔ k = 0 := by
  have hval := val_numeral (b := 100) n k hk
  constructor
  · intro h
    have hall : (numeral 100 n k).takeWhile (· = 0) = numeral 100 n k :=
      (List.takeWhile_prefix _).eq_of_length (h.trans (numeral_length n k).symm)
    rw [← hval, val_eq_zero_iff (by norm_num)]
    intro d hd
    rw [← hall] at hd
    simpa using List.mem_takeWhile_imp hd
  · rintro rfl
    rw [val_eq_zero_iff (by norm_num)] at hval
    rw [List.takeWhile_eq_self_iff.mpr (fun d hd => by simpa using hval d hd), numeral_length]

/-- Operands of the same sign.  The difference of the bytes is not negative if no
    borrow is left. -/
theorem subSettle_same (positive : Bool) (hc : c ≤ 1) {m : List Nat} {d : Nat} (hm : Below 100 m)
    (hd : d < 100) (hl : m.length + 1 = n) {x y : Nat} (hy : y < 100 ^ n)
    (hval : x + c * 100 ^ n = y + val 100 (m ++ [d])) :
    let v := subSettle positive positive e c (m ++ [d])
    subStore v.1 v.2 =
      if y ≤ x then subFinish false e n (x - y) else subFinish true e n (y - x) := by
  intro v
  have hb : Below 100 (m ++ [d]) :=
    hm.append (Below.cons_iff.mpr ⟨hd, fun d hd => absurd hd List.not_mem_nil⟩)
  have hlen : (m ++ [d]).length = n := by
    rw [List.length_append]
    exact hl
  have hlt := val_lt hb
  rw [hlen] at hlt
  have hv : v = subSettle positive positive e c (m ++ [d]) := rfl
  unfold subSettle at hv
  rw [if_pos rfl] at hv
  rcases Nat.le_one_iff_eq_zero_or_eq_one.mp hc with rfl | rfl
  · -- no borrow is left: the digits are those of `x - y`
    have hnum := eq_numeral (k := x - y) hb hlen (by omega) (by norm_num)
    simp only [ne_eq, not_true_eq_false, if_false] at hv
    rw [hnum, numeral_length, drop_takeWhile] at hv
    rw [if_pos (show y ≤ x by omega)]
    unfold subFinish
    by_cases h0 : x - y = 0
    · rw [if_pos ((takeWhile_numeral (by omega)).mpr h0)] at hv
      rw [if_pos h0, hv]
      rfl
    · rw [if_neg (fun h => h0 ((takeWhile_numeral (by omega)).mp h))] at hv
      rw [if_neg h0, hv]
      rfl
  · -- a borrow is left: one is taken off, and the digits are the complement of `y - x`
    obtain ⟨hc', hb', hl', hv'⟩ := pred_spec hm hd.le
    have hlt' := val_lt hb'
    rw [hl', hl] at hlt'
    rw [hl] at hv'
    have hnone : (carry predStep (m ++ [d]) 1).1 = 0 := by
      by_contra hne
      have h1 : (carry predStep (m ++ [d]) 1).1 = 1 := by omega
      rw [h1] at hv'
      omega
    rw [hnone] at hv'
    have hnum := eq_compl_numeral (k := y - x) hb' (hl'.trans hl) (by omega) (by norm_num)
    obtain ⟨htake, hrest⟩ := takeWhile_compl (numeral_below (b := 100) (by norm_num) n (y - x))
    have hdrop := drop_takeWhile (fun x : Nat => decide (x = 99))
      (Lib.Digits.compl 100 (numeral 100 n (y - x)))
    simp only [ne_eq, one_ne_zero, not_false_eq_true, if_true] at hv
    rw [hv, if_neg (by omega), hnum]
    simp only
    rw [hdrop, show (99 : Nat) = 100 - 1 from rfl, htake, hrest, Lib.Digits.compl_length]
    unfold subFinish
    rw [if_neg (by omega)]
    rfl

/-- The magnitudes of operands of opposite signs add up. -/
def subSum (neg : Bool) (e : Int) (n k : Nat) : MtdNumericType :=
  if k < 100 ^ n then subFinish neg e n k else subFinish neg (e + 1) (n + 1) k

theorem subFinish_full (neg : Bool) (e : Int) {j k : Nat} (hlow : 100 ^ j ≤ k)
    (hhigh : k < 100 ^ (j + 1)) :
    subFinish neg e (j + 1) k =
      subStore (if neg then uchar (64 - e) else uchar (e + 192))
        (bytes neg (numeral 100 (j + 1) k)) := by
  obtain ⟨htake, hdrop⟩ := numeral_full hlow hhigh
  have hpow : 0 < 100 ^ j := by positivity
  unfold subFinish
  rw [if_neg (by omega)]
  simp only
  rw [htake, hdrop, List.length_nil, Nat.cast_zero, sub_zero]

/-- A positive first operand and a negative second one. -/
theorem subSettle_positive (hc : c ≤ 1) {m : List Nat} {d : Nat} (hm : Below 100 m) (hd : d ≤ 100)
    {x y : Nat} (hx : x < 100 ^ (m.length + 1)) (hy : y < 100 ^ (m.length + 1))
    (hlow : 100 ^ m.length ≤ x + y)
    (hval : val 100 (m ++ [d]) + 100 ^ (m.length + 1) = x + y + 1 + c * 100 ^ (m.length + 1)) :
    let v := subSettle true false e c (m ++ [d])
    subStore v.1 v.2 = subSum false e (m.length + 1) (x + y) := by
  intro v
  obtain ⟨hc', hb', hl', hv'⟩ := pred_spec hm hd
  have hlt' := val_lt hb'
  rw [hl'] at hlt'
  have hpow : (100 : Nat) ^ (m.length + 1 + 1) = 100 ^ (m.length + 1) * 100 := pow_succ 100 _
  have hv : v = subSettle true false e c (m ++ [d]) := rfl
  unfold subSettle at hv
  simp only [Bool.true_eq_false, if_false, if_true] at hv
  unfold subSum
  -- a carry is missing where the sum has one digit more: a one is put in front
  by_cases hnone : c = 0 ∧ (carry predStep (m ++ [d]) 1).1 = 0
  · obtain ⟨rfl, h1⟩ := hnone
    rw [h1] at hv'
    have hcons : 1 :: (carry predStep (m ++ [d]) 1).2 = numeral 100 (m.length + 1 + 1) (x + y) := by
      apply eq_numeral (Below.cons_iff.mpr ⟨by norm_num, hb'⟩) (by rw [List.length_cons, hl']) _
        (by norm_num)
      rw [val_cons, hl']
      omega
    rw [hv, if_pos ⟨rfl, h1⟩, if_neg (by omega), subFinish_full false _ (by omega) (by omega), hcons]
    rfl
  · -- otherwise the carry came from the loop or from the last step, not from both
    have hone : c + (carry predStep (m ++ [d]) 1).1 = 1 := by
      rcases Nat.le_one_iff_eq_zero_or_eq_one.mp hc with rfl | rfl
      · omega
      · by_contra hne
        have h1 : (carry predStep (m ++ [d]) 1).1 = 1 := by omega
        rw [h1] at hv'
        omega
    have hsum : val 100 (carry predStep (m ++ [d]) 1).2 = x + y := by
      rcases Nat.le_one_iff_eq_zero_or_eq_one.mp hc with rfl | rfl
      · rw [show (carry predStep (m ++ [d]) 1).1 = 1 by omega] at hv'
        omega
      · rw [show (carry predStep (m ++ [d]) 1).1 = 0 by omega] at hv'
        omega
    rw [hv, if_neg hnone, if_pos (by omega), subFinish_full false _ hlow (by omega),
      eq_numeral hb' hl' hsum (by norm_num)]
    rfl

/-- A negative first operand and a positive second one. -/
theorem subSettle_negative (hc : c ≤ 1) {m : List Nat} (hm : Below 100 m) {j : Nat}
    (hl : m.length = j + 1) {x y : Nat} (hx : x < 100 ^ (j + 1)) (hy : y < 100 ^ (j + 1))
    (hlow : 100 ^ j ≤ x + y) (hval : val 100 m + x + y + 1 = 100 ^ (j + 1) + c * 100 ^ (j + 1)) :
    let v := subSettle false true e c m
    subStore v.1 v.2 = subSum true e (j + 1) (x + y) := by
  intro v
  have hlt := val_lt hm
  rw [hl] at hlt
  have hpow : (100 : Nat) ^ (j + 1 + 1) = 100 ^ (j + 1) * 100 := pow_succ 100 _
  have hv : v = subSettle false true e c m := rfl
  unfold subSettle at hv
  simp only [Bool.false_eq_true, if_false] at hv
  unfold subSum
  rcases Nat.le_one_iff_eq_zero_or_eq_one.mp hc with rfl | rfl
  · have hnum := eq_compl_numeral (k := x + y) hm hl (by omega) (by norm_num)
    simp only [ne_eq, not_true_eq_false, if_false] at hv
    rw [hv, if_pos (by omega), subFinish_full true _ hlow (by omega), hnum]
    rfl
  · have hcons : 98 :: m = Lib.Digits.compl 100 (numeral 100 (j + 1 + 1) (x + y)) := by
      apply eq_compl_numeral (Below.cons_iff.mpr ⟨by norm_num, hm⟩) (by rw [List.length_cons, hl]) _
        (by norm_num)
      rw [val_cons, hl]
      omega
    simp only [ne_eq, one_ne_zero, not_false_eq_true, if_true] at hv
    rw [hv, if_neg (by omega), subFinish_full true _ (by omega) (by omega), hcons]
    rfl

end Settle

/-! ## §2. The result from the two magnitudes. -/

section Start

variable {a b : MtdNumericType}

/-- The shape of two operands. -/
def shapeOf (a b : MtdNumericType) : Shape :=
  ⟨offset (exponentOf a) (exponentOf b), offset (exponentOf b) (exponentOf a), a.mantissa.length,
    b.mantissa.length⟩

/-- What is known of an operand with digits. -/
structure HasDigits (v : MtdNumericType) : Prop where
  length : v.length = v.mantissa.length + 1
  pos : 0 < v.mantissa.length
  le : v.mantissa.length ≤ 20
  below : Below 100 v.mantissa

/-- The last digit of the long operand that counts is at the last place. -/
theorem IndexAt.long {o len n : Nat} (h : n ≤ o + len) : IndexAt o len n ((n : Int) - 1 - o) :=
  ⟨fun _ => by omega, fun _ _ => rfl, fun _ => by omega⟩

/-- The short operand ends within the places. -/
theorem IndexAt.short {o len n : Nat} (hpos : 0 < len) (h : o + len ≤ n) :
    IndexAt o len n ((len : Int) - 1) :=
  ⟨fun _ => by omega, fun _ _ => by omega, fun _ => rfl⟩

/-- The places end between the ends of the operands. -/
theorem places_between {p q m k : Nat} (hfirst : p = 0 ∨ q = 0) (hm : m ≤ 20) (hk : k ≤ 20)
    (hle : q + k ≤ p + m) :
    q + k ≤ min 20 (max (p + m) (q + k)) ∧ min 20 (max (p + m) (q + k)) ≤ p + m := by
  omega

theorem subLoop_start (ha : HasDigits a) (hb : HasDigits b) :
    SubLoop a b (shapeOf a b) (placesOf a b) (operands a b).sDiffExp ∧
      (operands a b).subState.At (shapeOf a b) (placesOf a b) (isPositive a.signExponent)
        (isPositive b.signExponent) (placesOf a b) ∧
      (operands a b).cutLength.2 - 1 = placesOf a b ∧
      (operands a b).sExponent1 = max (exponentOf a) (exponentOf b) ∧
      ((operands a b).longLength - (operands a b).longArg.length > lengthMaximum ↔
        near (exponentOf a) (exponentOf b) = false) := by
  obtain ⟨p, q, hlay⟩ := operands_layout ha.length hb.length
  have hfirst := hlay.first
  have hdiff := hlay.diff
  have hll := hlay.longLength
  have hsl := hlay.shortLength
  have hle := hlay.le
  have hend1 : (shapeOf a b).end1 = offset (exponentOf a) (exponentOf b) + a.mantissa.length := rfl
  have hend2 : (shapeOf a b).end2 = offset (exponentOf b) (exponentOf a) + b.mantissa.length := rfl
  -- either operand may be the long one; the loop starts at the last place of both
  rcases operands_args a b with ⟨hord, hlong, hshort⟩ | ⟨hord, hlong, hshort⟩
  · have heq := hlay.eq (by rw [hlong]; exact ha.length) (by rw [hlong]; exact ha.le)
    obtain ⟨hindex, hcut, -⟩ := hlay.cutLength (by rw [hlong]; exact ha.length)
    rw [hlong, hshort] at heq
    obtain ⟨hmax, hp, hq, hplaces, hnear⟩ := heq
    rw [hlong] at hll
    rw [hshort] at hsl
    have hp' : p = offset (exponentOf a) (exponentOf b) := hp
    have hq' : q = offset (exponentOf b) (exponentOf a) := hq
    have hplaces' : (operands a b).places = placesOf a b := hplaces
    rw [hplaces', hp'] at hindex
    rw [hplaces'] at hcut
    obtain ⟨hlow, hhigh⟩ := places_between hfirst ha.le hb.le (by omega)
    rw [hp', hq'] at hlow hhigh hfirst
    refine ⟨⟨hfirst, hdiff.trans (by rw [hp', hq']; rfl), rfl, rfl, min_le_right _ _, ha.below,
      hb.below⟩, ?_, hplaces, hmax, by rw [hlong]; exact hnear⟩
    unfold Operands.subState
    rw [if_pos hord, hshort, hindex, hcut, hb.length]
    refine ⟨.long hhigh, ?_, .inl ⟨by omega, by simp only; omega, ?_⟩, Nat.zero_le _,
      fun _ _ _ => rfl, fun _ _ _ => rfl, fun _ _ _ h => absurd h (lt_irrefl _)⟩
    · have hshift : ((b.mantissa.length + 1 : Nat) : Int) - 2 = (b.mantissa.length : Int) - 1 := by
        omega
      rw [hshift]
      exact .short hb.pos hlow
    · have hn : (shapeOf a b).end2 ≤ placesOf a b := hlow
      simp only
      omega
  · have heq := hlay.eq (by rw [hlong]; exact hb.length) (by rw [hlong]; exact hb.le)
    obtain ⟨hindex, hcut, -⟩ := hlay.cutLength (by rw [hlong]; exact hb.length)
    rw [hlong, hshort] at heq
    obtain ⟨hmax, hp, hq, hplaces, hnear⟩ := heq
    rw [placeCount_comm] at hplaces
    rw [hlong] at hll
    rw [hshort] at hsl
    have hp' : p = offset (exponentOf b) (exponentOf a) := hp
    have hq' : q = offset (exponentOf a) (exponentOf b) := hq
    have hplaces' : (operands a b).places = placesOf a b := hplaces
    rw [hplaces', hp'] at hindex
    rw [hplaces'] at hcut
    obtain ⟨hlow, hhigh⟩ := places_between hfirst hb.le ha.le (by omega)
    rw [hp', hq', max_comm] at hlow hhigh
    rw [hp', hq'] at hfirst
    refine ⟨⟨hfirst.symm, hdiff.trans (by rw [hp', hq', add_comm]; rfl), rfl, rfl,
      min_le_right _ _, ha.below, hb.below⟩, ?_, hplaces, hmax.trans (max_comm _ _),
      by rw [hlong, near_comm]; exact hnear⟩
    unfold Operands.subState
    rw [if_neg (by rw [hord]; exact Bool.false_ne_true), hshort, hindex, hcut, ha.length]
    refine ⟨?_, .long hhigh, .inr ⟨by omega, by simp only; omega, ?_⟩, Nat.zero_le _,
      fun _ _ _ => rfl, fun _ _ _ => rfl, fun _ _ _ h => absurd h (lt_irrefl _)⟩
    · have hshift : ((a.mantissa.length + 1 : Nat) : Int) - 2 = (a.mantissa.length : Int) - 1 := by
        omega
      rw [hshift]
      exact .short ha.pos hlow
    · have hn : (shapeOf a b).end1 ≤ placesOf a b := hlow
      simp only
      omega

/-- Where the loop leaves a byte of a hundred: both operands are positive, the first
    one ends before the last place, and the second one has a zero there. -/
def LastHundred (a b : MtdNumericType) : Prop :=
  isPositive a.signExponent = true ∧ isPositive b.signExponent = true ∧
    (shapeOf a b).end1 < placesOf a b ∧ (shapeOf a b).o2 < placesOf a b ∧
    b.digit ((placesOf a b : Int) - 1 - (shapeOf a b).o2) = 0

theorem placesOf_pos (ha : HasDigits a) : 0 < placesOf a b := by
  have := ha.pos
  unfold placesOf placeCount
  omega

/-- **What the subtraction stores**, unless the first operand is too small to matter. -/
theorem subOperands_run (ha : HasDigits a) (hb : HasDigits b)
    (hmax : max (exponentOf a) (exponentOf b) ≤ 63)
    (hgo : near (exponentOf a) (exponentOf b) = false → (operands a b).longIsFirst = true) :
    ∃ k c m d, k + 1 = placesOf a b ∧ Difference a b (shapeOf a b) k (c, m ++ [d]) m d ∧
      subOperands (operands a b) a b =
        let v := subSettle (isPositive a.signExponent) (isPositive b.signExponent)
          (max (exponentOf a) (exponentOf b)) c (m ++ [d])
        .ok (subStore v.1 v.2) := by
  obtain ⟨hloop, hstart, hplaces, hexp, hgap⟩ := subLoop_start ha hb
  have hpos := placesOf_pos (b := b) ha
  obtain ⟨k, hk⟩ : ∃ k, placesOf a b = k + 1 := ⟨placesOf a b - 1, by omega⟩
  have hzero : (operands a b).subState.sBorrow = 0 := by
    unfold Operands.subState
    split_ifs <;> rfl
  rw [hk] at hloop hstart
  obtain ⟨m, d, hdiff⟩ := subPlaces_difference hloop hstart hzero
  have hbytes := hdiff.bytes
  refine ⟨k, (subPlaces a b (operands a b).sDiffExp (k + 1) (operands a b).subState []).1, m, d,
    hk.symm, by rw [← hbytes]; exact hdiff, ?_⟩
  unfold subOperands
  rw [if_neg, hplaces, hk, hexp, if_neg (not_lt.mpr hmax), hbytes]
  rintro ⟨hfar, hsecond⟩
  rw [hgo (hgap.mp hfar)] at hsecond
  cases hsecond

end Start

section Encode

variable {s t : Bool} {e₁ e₂ : Int} {xs ys : List Nat}

theorem hasDigits_encode (neg : Bool) (e : Int) {ds : List Nat} (h : Mantissa ds) :
    HasDigits (encode neg e ds) := by
  have hlen := encode_mantissa_length neg e ds
  refine ⟨encode_length neg e ds, ?_, ?_, ?_⟩
  · rw [hlen]
    exact List.length_pos_of_ne_nil h.ne
  · rw [hlen]
    exact h.length_le
  · cases neg with
    | false => exact h.below
    | true => exact compl_below (by norm_num) ds

theorem isPositive_encode (neg : Bool) {e : Int} (he : InRange e) (ds : List Nat) :
    isPositive (encode neg e ds).signExponent = !neg := (encode_exponent neg he ds).2

theorem placesOf_encode (s t : Bool) (he₁ : InRange e₁) (he₂ : InRange e₂) (xs ys : List Nat) :
    placesOf (encode s e₁ xs) (encode t e₂ ys) = placeCount e₁ e₂ xs.length ys.length := by
  unfold placesOf
  rw [exponentOf_encode s he₁, exponentOf_encode t he₂, encode_mantissa_length,
    encode_mantissa_length]

theorem shapeOf_encode (s t : Bool) (he₁ : InRange e₁) (he₂ : InRange e₂) (xs ys : List Nat) :
    shapeOf (encode s e₁ xs) (encode t e₂ ys) =
      ⟨offset e₁ e₂, offset e₂ e₁, xs.length, ys.length⟩ := by
  unfold shapeOf
  rw [exponentOf_encode s he₁, exponentOf_encode t he₂, encode_mantissa_length,
    encode_mantissa_length]

/-- The bytes that the loop subtracts are those of the aligned magnitudes. -/
theorem bytes_encode (s t : Bool) (he₁ : InRange e₁) (he₂ : InRange e₂) (xs ys : List Nat)
    (n : Nat) :
    (shapeOf (encode s e₁ xs) (encode t e₂ ys)).bytes1 (encode s e₁ xs) n =
        bytes s (spread 0 (offset e₁ e₂) xs n) ∧
      (shapeOf (encode s e₁ xs) (encode t e₂ ys)).bytes2 (encode t e₂ ys) n =
        bytes t (spread 0 (offset e₂ e₁) ys n) := by
  rw [shapeOf_encode s t he₁ he₂]
  exact ⟨spread_encode s he₁ xs (offset e₁ e₂) n, spread_encode t he₂ ys (offset e₂ e₁) n⟩

/-- What `subtractFloat` makes of the two magnitudes. -/
def subResult (s t : Bool) (e : Int) (n x y : Nat) : MtdNumericType :=
  if s = t then
    if y ≤ x then subFinish s e n (x - y) else subFinish (!s) e n (y - x)
  else subSum s e n (x + y)

/-- The byte at the last place is a hundred exactly in the case of `LastHundred`, as
    far as the signs agree. -/
theorem hundred_iff (he₁ : InRange e₁) (he₂ : InRange e₂) {k c d : Nat} {m : List Nat}
    (hk : k + 1 = placesOf (encode s e₁ xs) (encode t e₂ ys))
    (h : Difference (encode s e₁ xs) (encode t e₂ ys)
      (shapeOf (encode s e₁ xs) (encode t e₂ ys)) k (c, m ++ [d]) m d) :
    (d = 100 ∧ t = false) ↔ LastHundred (encode s e₁ xs) (encode t e₂ ys) := by
  have hs := isPositive_encode s he₁ xs
  have ht := isPositive_encode t he₂ ys
  have hz := shapeOf_encode s t he₁ he₂ xs ys
  have hn := placesOf_encode s t he₁ he₂ xs ys
  have hcast : (placesOf (encode s e₁ xs) (encode t e₂ ys) : Int) - 1 = k := by
    rw [← hk]
    push_cast
    ring
  -- the last place of the second operand, by its index and by its layout
  have hplace : (shapeOf (encode s e₁ xs) (encode t e₂ ys)).end1 ≤ k →
      (shapeOf (encode s e₁ xs) (encode t e₂ ys)).o2 ≤ k →
      (encode t e₂ ys).digit ((k : Int) - (shapeOf (encode s e₁ xs) (encode t e₂ ys)).o2) =
        place (encode t e₂ ys).fill (shapeOf (encode s e₁ xs) (encode t e₂ ys)).o2
          (encode t e₂ ys).mantissa k := by
    intro h1 h2
    refine digit_eq_place rfl (by omega) ?_
    rw [hz] at h1 h2 ⊢
    rw [hn] at hk
    unfold Shape.end1 at h1
    unfold placeCount at hk
    rw [encode_mantissa_length]
    simp only at h1 h2 ⊢
    omega
  rw [h.hundred]
  unfold LastHundred
  rw [hcast]
  constructor
  · rintro ⟨⟨hp, hout, hin, hzero⟩, rfl⟩
    exact ⟨hp, ht, by omega, by omega, (hplace hout hin).trans hzero⟩
  · rintro ⟨hp, hq, hout, hin, hzero⟩
    have hout' : (shapeOf (encode s e₁ xs) (encode t e₂ ys)).end1 ≤ k := by omega
    have hin' : (shapeOf (encode s e₁ xs) (encode t e₂ ys)).o2 ≤ k := by omega
    refine ⟨⟨hp, hout', hin', (hplace hout' hin').symm.trans hzero⟩, ?_⟩
    rw [ht] at hq
    simpa using hq

/-- Where the byte for the exponent keeps the sign, the end is trimmed as it should. -/
theorem trimEnd_bytes (neg : Bool) {d : Nat} {ds : List Nat} (hd : d ≠ 0) (h : Below 100 (d :: ds)) :
    trimEnd (fillOf (!neg)) (bytes neg (d :: ds)) = bytes neg ((d :: ds).rdropWhile (· = 0)) := by
  cases neg with
  | false => exact trimEnd_eq hd ds
  | true =>
    exact trimEnd_compl hd h

theorem bytes_take (neg : Bool) (ds : List Nat) (n : Nat) :
    (bytes neg ds).take n = bytes neg (ds.take n) := by
  cases neg with
  | false => rfl
  | true => exact compl_take ds n

/-- The byte for an exponent. -/
def exponentByte (neg : Bool) (e : Int) : Nat := if neg then uchar (64 - e) else uchar (e + 192)

theorem encode_bytes (neg : Bool) (e : Int) (ds : List Nat) :
    encode neg e ds = .num (exponentByte neg e) (bytes neg ds) := by
  cases neg <;> rfl

/-- `finish`, with the end trimmed before the bytes are complemented or after. -/
theorem finish_bytes (neg : Bool) (e : Int) {n k : Nat} (hk : k ≠ 0) (hlt : k < 100 ^ n) :
    finish neg e n k =
      .num (exponentByte neg (e - ((numeral 100 n k).takeWhile (· = 0)).length))
        ((trimEnd (fillOf (!neg)) (bytes neg ((numeral 100 n k).dropWhile (· = 0)))).take 20) := by
  obtain ⟨d, ds, heq, hd, hb⟩ := numeral_strip hk hlt
  unfold finish
  rw [if_neg hk]
  simp only
  rw [heq, trimEnd_bytes neg hd hb, bytes_take, encode_bytes]
  rfl

theorem subFinish_bytes (neg : Bool) (e : Int) {n k : Nat} (hk : k ≠ 0) :
    subFinish neg e n k =
      let se := exponentByte neg (e - ((numeral 100 n k).takeWhile (· = 0)).length)
      .num se ((trimEnd (fillOf (isPositive se))
        (bytes neg ((numeral 100 n k).dropWhile (· = 0)))).take 20) := by
  unfold subFinish
  rw [if_neg hk]
  rfl

theorem isPositive_exponentByte (neg : Bool) {e : Int} (he : InRange e) :
    isPositive (exponentByte neg e) = !neg := by
  cases neg with
  | false => exact (positive_byte he).1
  | true => exact (negative_byte he).1

/-- **Both functions store alike** where the exponent is in range. -/
theorem subFinish_eq (neg : Bool) {e : Int} {n k : Nat} (hlt : k < 100 ^ n)
    (he : InRange (e - ((numeral 100 n k).takeWhile (· = 0)).length)) :
    subFinish neg e n k = finish neg e n k := by
  by_cases hk : k = 0
  · subst hk
    rfl
  · rw [subFinish_bytes neg e hk, finish_bytes neg e hk hlt]
    simp only
    rw [isPositive_exponentByte neg he]

/-- The operands, neither of them too small to matter. -/
theorem subOperands_closed (he₁ : InRange e₁) (he₂ : InRange e₂) (hxs : Mantissa xs)
    (hys : Mantissa ys) (hmiss : ¬ LastHundred (encode s e₁ xs) (encode t e₂ ys))
    (hgo : near e₁ e₂ = false →
      (operands (encode s e₁ xs) (encode t e₂ ys)).longIsFirst = true) :
    let n := placeCount e₁ e₂ xs.length ys.length
    subOperands (operands (encode s e₁ xs) (encode t e₂ ys)) (encode s e₁ xs) (encode t e₂ ys) =
      .ok (subResult s t (max e₁ e₂) n (aligned e₁ e₂ xs n) (aligned e₂ e₁ ys n)) := by
  intro n
  have hmax := max_le he₁.2 he₂.2
  have hx1 := exponentOf_encode s he₁ xs
  have hy1 := exponentOf_encode t he₂ ys
  obtain ⟨k, c, m, d, hk, hdiff, hrun⟩ := subOperands_run (hasDigits_encode s e₁ hxs)
    (hasDigits_encode t e₂ hys) (by rw [hx1, hy1]; exact hmax) (by rw [hx1, hy1]; exact hgo)
  have hhundred := hundred_iff he₁ he₂ hk hdiff
  have hn : n = k + 1 := by
    rw [hk, placesOf_encode s t he₁ he₂]
  obtain ⟨hb1, hb2⟩ := bytes_encode s t he₁ he₂ xs ys (k + 1)
  have hval := hdiff.val_eq
  have hc := hdiff.borrow
  have hd := hdiff.le
  have hlen := hdiff.length
  rw [hb1, hb2] at hval
  obtain ⟨hx0, hx1'⟩ := val_bytes s (spread_below (b := 100) (by norm_num) (offset e₁ e₂)
    hxs.below (k + 1))
  obtain ⟨hy0, hy1'⟩ := val_bytes t (spread_below (b := 100) (by norm_num) (offset e₂ e₁)
    hys.below (k + 1))
  rw [spread_length] at hx1' hy1'
  have hxlt := aligned_lt e₁ e₂ hxs.below (k + 1)
  have hylt := aligned_lt e₂ e₁ hys.below (k + 1)
  -- the operand of the greater exponent has a first digit that is not zero
  have hlow : 100 ^ k ≤ aligned e₁ e₂ xs (k + 1) + aligned e₂ e₁ ys (k + 1) := by
    rcases le_total e₁ e₂ with h | h
    · exact (le_aligned hys h k).trans (Nat.le_add_left _ _)
    · exact (le_aligned hxs h k).trans (Nat.le_add_right _ _)
  rw [hrun, hx1, hy1, isPositive_encode s he₁, isPositive_encode t he₂, hn]
  simp only
  congr 1
  unfold aligned at *
  generalize val 100 (spread 0 (offset e₁ e₂) xs (k + 1)) = x at *
  generalize val 100 (spread 0 (offset e₂ e₁) ys (k + 1)) = y at *
  generalize max e₁ e₂ = e at *
  cases s with
  | false =>
    rw [hx0 rfl] at hval
    cases t with
    | false =>
      -- two positive operands: a last place of a hundred is excluded
      have hd100 : d ≠ 100 := fun h => hmiss (hhundred.mp ⟨h, rfl⟩)
      rw [hy0 rfl] at hval
      exact subSettle_same true hc hdiff.below (by omega) (by omega) hylt hval
    | true =>
      have hy1'' := hy1' rfl
      subst hlen
      exact subSettle_positive hc hdiff.below hd hxlt hylt hlow (by omega)
  | true =>
    have hx1'' := hx1' rfl
    -- a negative first operand: its last place is never a hundred
    have hd100 : d ≠ 100 := by
      intro h
      have hp := (hdiff.hundred.mp h).1
      rw [isPositive_encode true he₁] at hp
      cases hp
    cases t with
    | false =>
      rw [hy0 rfl] at hval
      have hb : Below 100 (m ++ [d]) := hdiff.below.append
        (Below.cons_iff.mpr ⟨by omega, fun d hd => absurd hd List.not_mem_nil⟩)
      exact subSettle_negative hc hb (by rw [List.length_append, hlen]; rfl) hxlt hylt hlow
        (by omega)
    | true =>
      have hy1'' := hy1' rfl
      have hsame := subSettle_same (e := e) (n := k + 1) (d := d) (x := y) (y := x) false hc
        hdiff.below (by omega) (by omega) hxlt (by omega)
      refine hsame.trans ?_
      unfold subResult
      rw [if_pos rfl]
      rcases lt_trichotomy x y with h | rfl | h
      · rw [if_pos h.le, if_neg (by omega)]
        rfl
      · rw [if_pos le_rfl, if_pos le_rfl, Nat.sub_self]
        rfl
      · rw [if_neg (by omega), if_pos h.le]

theorem subtractFloat_run (s t : Bool) (he₁ : InRange e₁) (he₂ : InRange e₂) (hxs : Mantissa xs)
    (hys : Mantissa ys) :
    subtractFloat (encode s e₁ xs) (encode t e₂ ys) =
      subOperands (operands (encode s e₁ xs) (encode t e₂ ys)) (encode s e₁ xs)
        (encode t e₂ ys) := by
  obtain ⟨se₁, a₁, m₁, heq₁, -⟩ := encode_cons s he₁ hxs
  obtain ⟨se₂, a₂, m₂, heq₂, -⟩ := encode_cons t he₂ hys
  rw [heq₁, heq₂]
  rfl

/-- The second operand is too small to matter. -/
theorem subResult_far (s t : Bool) (he₁ : InRange e₁) (hxs : Mantissa xs) :
    subResult s t e₁ 20 (val 100 (spread 0 0 xs 20)) 0 = encode s e₁ xs := by
  have hlen : xs.length ≤ 20 := hxs.length_le
  have hlow : 100 ^ 19 ≤ val 100 (spread 0 0 xs 20) := by
    have := le_aligned hxs (le_refl e₁) 19
    unfold aligned offset at this
    rwa [max_self, sub_self] at this
  have hlt := val_lt (spread_below (b := 100) (by norm_num) 0 hxs.below 20)
  rw [spread_length] at hlt
  have hfull := (numeral_full hlow hlt).1
  have hsub : subFinish s e₁ 20 (val 100 (spread 0 0 xs 20)) = encode s e₁ xs := by
    rw [subFinish_eq s hlt (by rw [hfull, List.length_nil, Nat.cast_zero, sub_zero]; exact he₁),
      finish_encode s e₁ hxs hlen]
  unfold subResult subSum
  by_cases hst : s = t
  · rw [if_pos hst, if_pos (Nat.zero_le _)]
    exact hsub
  · rw [if_neg hst, Nat.add_zero, if_pos hlt]
    exact hsub

/-- **`subtractFloat` from the two magnitudes**, unless the last byte is a hundred. -/
theorem subtractFloat_closed (he₁ : InRange e₁) (he₂ : InRange e₂) (hxs : Mantissa xs)
    (hys : Mantissa ys) (hmiss : ¬ LastHundred (encode s e₁ xs) (encode t e₂ ys)) :
    let n := placeCount e₁ e₂ xs.length ys.length
    subtractFloat (encode s e₁ xs) (encode t e₂ ys) =
      .ok (subResult s t (max e₁ e₂) n (aligned e₁ e₂ xs n) (aligned e₂ e₁ ys n)) := by
  intro n
  rw [subtractFloat_run s t he₁ he₂ hxs hys]
  by_cases hgo : near e₁ e₂ = false →
      (operands (encode s e₁ xs) (encode t e₂ ys)).longIsFirst = true
  · exact subOperands_closed he₁ he₂ hxs hys hmiss hgo
  · -- The first operand is returned as it is.
    rw [Classical.not_imp, Bool.not_eq_true] at hgo
    obtain ⟨hfar, hsecond⟩ := hgo
    have ha := hasDigits_encode s e₁ hxs
    have hb := hasDigits_encode t e₂ hys
    obtain ⟨p, q, hlay⟩ := operands_layout ha.length hb.length
    have hle := hlay.le
    have hll := hlay.longLength
    have hsl := hlay.shortLength
    rcases operands_args (encode s e₁ xs) (encode t e₂ ys) with ⟨hord, -, -⟩ | ⟨-, hlong, hshort⟩
    · rw [hsecond] at hord
      cases hord
    have heq := hlay.eq (by rw [hlong]; exact hb.length) (by rw [hlong]; exact hb.le)
    rw [hlong, hshort] at heq
    have hx1 := exponentOf_encode s he₁ xs
    have hy1 := exponentOf_encode t he₂ ys
    unfold exponentOf at hx1 hy1
    rw [hx1, hy1] at heq
    obtain ⟨-, hp, hq, -, hgap⟩ := heq
    rw [hlong, encode_mantissa_length] at hll
    rw [hshort, encode_mantissa_length] at hsl
    have hylen : ys.length ≤ 20 := hys.length_le
    have hxpos := List.length_pos_of_ne_nil hxs.ne
    have hfar' : ¬ |e₁ - e₂| ≤ 21 := of_decide_eq_false hfar
    rw [abs_le] at hfar'
    have hlt : e₂ < e₁ ∧ 22 ≤ offset e₂ e₁ ∧ offset e₁ e₂ = 0 := by
      unfold offset at hp hq ⊢
      omega
    have hn : n = 20 := by
      show placeCount e₁ e₂ xs.length ys.length = 20
      unfold placeCount
      omega
    have hy0 : aligned e₂ e₁ ys n = 0 := aligned_zero ys (by omega)
    unfold subOperands
    rw [if_pos ⟨by rw [hlong]; exact hgap.mpr (by rw [near_comm]; exact hfar),
      hsecond⟩, hshort, hy0, max_eq_left hlt.1.le, hn]
    unfold aligned
    rw [hlt.2.2, subResult_far s t he₁ hxs]

end Encode

/-! ## §3. Where something goes wrong. -/

theorem trimEnd_concat (fill x : Nat) (ds : List Nat) :
    trimEnd fill (ds ++ [x]) = if ds ≠ [] ∧ x = fill then trimEnd fill ds else ds ++ [x] := by
  cases ds with
  | nil => rfl
  | cons d ds =>
    show d :: (ds ++ [x]).rdropWhile (· = fill) = _
    by_cases hx : x = fill
    · rw [if_pos ⟨List.cons_ne_nil d ds, hx⟩,
        List.rdropWhile_concat_pos _ _ _ (by simpa using hx)]
      rfl
    · rw [if_neg (fun h => hx h.2), List.rdropWhile_concat_neg _ _ _ (by simpa using hx)]
      rfl

theorem trimEnd_length_le (fill : Nat) (ds : List Nat) : (trimEnd fill ds).length ≤ ds.length := by
  cases ds with
  | nil => exact le_rfl
  | cons d ds => exact Nat.succ_le_succ (List.rdropWhile_prefix _ ds).length_le

/-- The digits that are left end with the last digit of the number. -/
theorem strip_last {n k : Nat} (hk : k ≠ 0) (hlt : k < 100 ^ n) :
    ∃ ds, (numeral 100 n k).dropWhile (· = 0) = ds ++ [k % 100] ∧ (ds = [] ↔ k < 100) ∧
      ds.length < n := by
  cases n with
  | zero =>
    rw [pow_zero] at hlt
    omega
  | succ n =>
    rw [pow_succ, Nat.mul_comm] at hlt
    have hdiv : k / 100 < 100 ^ n := Nat.div_lt_of_lt_mul hlt
    rw [numeral, List.dropWhile_append]
    by_cases h0 : k / 100 = 0
    · have hall := (takeWhile_numeral hdiv).mpr h0
      have hnil : (numeral 100 n (k / 100)).dropWhile (· = 0) = [] := by
        rw [← drop_takeWhile, hall, List.drop_of_length_le (numeral_length n _).le]
      refine ⟨[], ?_, ⟨fun _ => by omega, fun _ => rfl⟩, Nat.succ_pos n⟩
      rw [hnil, List.dropWhile_cons_of_neg (by simp only [decide_eq_true_eq]; omega)]
      rfl
    · obtain ⟨d, ds, heq, -, -⟩ := numeral_strip h0 hdiv
      have hlen := (List.dropWhile_suffix (fun x : Nat => decide (x = 0))
        (l := numeral 100 n (k / 100))).length_le
      rw [heq, numeral_length] at hlen
      refine ⟨d :: ds, ?_, ⟨fun h => absurd h (List.cons_ne_nil d ds), fun h => by omega⟩, by omega⟩
      rw [heq]
      rfl

/-- The byte of a negative number whose exponent is too small has the sign of a
    positive one. -/
theorem isPositive_overrun {e : Int} (h0 : -191 ≤ e) (h1 : e ≤ -64) :
    isPositive (exponentByte true e) = true := by
  have hn := uchar_of_range (i := 64 - e) (by omega) (by omega)
  show isPositive (uchar (64 - e)) = true
  unfold isPositive
  rw [decide_eq_true_iff, and_high _ (by omega)]
  omega

theorem bytes_concat (neg : Bool) (ds : List Nat) (x : Nat) :
    bytes neg (ds ++ [x]) = bytes neg ds ++ [if neg then 99 - x else x] := by
  cases neg with
  | false => rfl
  | true => exact List.map_append

/-- **Both functions store alike, whatever the sign, exactly where** the exponent is
    in range, or only one digit is left, or the last digit is neither trimmed as a
    zero nor as a 99. -/
theorem subFinish_iff {e : Int} (he : InRange e) {n k : Nat} (hn : n ≤ 20) (hlt : k < 100 ^ n) :
    (∀ neg, subFinish neg e n k = finish neg e n k) ↔
      k < 100 ∨ (k % 100 ≠ 0 ∧ k % 100 ≠ 99) ∨
        -63 ≤ e - ((numeral 100 n k).takeWhile (· = 0)).length := by
  by_cases hk : k = 0
  · subst hk
    exact ⟨fun _ => .inl (by norm_num), fun _ _ => rfl⟩
  have hz := (List.takeWhile_prefix (fun x : Nat => decide (x = 0)) (l := numeral 100 n k)).length_le
  rw [numeral_length] at hz
  obtain ⟨h0, h1⟩ := he
  obtain ⟨ds, heq, hone, hlen⟩ := strip_last hk hlt
  constructor
  · intro h
    by_contra hnot
    have hbyte := isPositive_overrun
      (e := e - ((numeral 100 n k).takeWhile (fun x : Nat => decide (x = 0))).length)
      (by omega) (by omega)
    have hneg := h true
    rw [subFinish_bytes true e hk, finish_bytes true e hk hlt, heq, bytes_concat] at hneg
    simp only [hbyte, if_true, MtdNumericType.num.injEq, true_and] at hneg
    have hne : bytes true ds ≠ [] := by
      intro hnil
      have := hone.mp (List.map_eq_nil_iff.mp hnil)
      omega
    have hblen := bytes_length true ds
    rw [show fillOf true = 0 from rfl, show fillOf (!true) = 99 from rfl, trimEnd_concat,
      trimEnd_concat] at hneg
    -- One of the two ends is trimmed, the other is not.
    have hcut := congrArg List.length hneg
    have hle0 := trimEnd_length_le 0 (bytes true ds)
    have hle99 := trimEnd_length_le 99 (bytes true ds)
    by_cases hlast : k % 100 = 0
    · rw [if_neg (by omega), if_pos ⟨hne, by omega⟩, List.length_take, List.length_take,
        List.length_append] at hcut
      simp only [List.length_singleton] at hcut
      omega
    · rw [if_pos ⟨hne, by omega⟩, if_neg (by omega), List.length_take, List.length_take,
        List.length_append] at hcut
      simp only [List.length_singleton] at hcut
      omega
  · intro h neg
    by_cases hrange : -63 ≤ e - ((numeral 100 n k).takeWhile (fun x : Nat => decide (x = 0))).length
    · exact subFinish_eq neg hlt ⟨hrange, by omega⟩
    · have hkeep : ∀ positive : Bool, trimEnd (fillOf positive) (bytes neg (ds ++ [k % 100])) =
          bytes neg (ds ++ [k % 100]) := by
        intro positive
        rw [bytes_concat, trimEnd_concat, if_neg]
        rintro ⟨hne, hlast⟩
        have hds : ds ≠ [] := by
          rintro rfl
          apply hne
          cases neg <;> rfl
        have h100 : ¬ k < 100 := fun hlt => hds (hone.mpr hlt)
        have hmod : k % 100 < 100 := Nat.mod_lt _ (by norm_num)
        cases neg <;> cases positive <;>
          simp only [fillOf, if_true, if_false, Bool.false_eq_true] at hlast <;> omega
      rw [subFinish_bytes neg e hk, finish_bytes neg e hk hlt, heq]
      simp only
      rw [hkeep, hkeep]

/-- What `addFloat` stores are digits. -/
theorem finish_below (neg : Bool) (e : Int) (n k : Nat) : Below 100 (finish neg e n k).mantissa := by
  have hbelow := numeral_below (b := 100) (by norm_num) n k
  unfold finish
  split_ifs with h0
  · exact fun d hd => absurd hd List.not_mem_nil
  · simp only
    rw [encode_bytes]
    exact bytes_below neg (trimCut_below (below_dropWhile hbelow))

section Encode

variable {s t : Bool} {e₁ e₂ : Int} {xs ys : List Nat}

/-- In the case of `LastHundred` the second operand has the smaller exponent. -/
theorem lastHundred_lt (he₁ : InRange e₁) (he₂ : InRange e₂) (hxs : Mantissa xs) (hys : Mantissa ys)
    (h : LastHundred (encode s e₁ xs) (encode t e₂ ys)) :
    s = false ∧ t = false ∧ e₂ < e₁ ∧ offset e₂ e₁ ≤ 19 := by
  obtain ⟨hp, hq, hout, hin, hzero⟩ := h
  rw [isPositive_encode s he₁] at hp
  rw [isPositive_encode t he₂] at hq
  rw [shapeOf_encode s t he₁ he₂] at hout hin hzero
  rw [placesOf_encode s t he₁ he₂] at hout hin hzero
  have ht : t = false := by simpa using hq
  subst ht
  have hxpos := List.length_pos_of_ne_nil hxs.ne
  have hylen : ys.length ≤ 20 := hys.length_le
  have hxlen : xs.length ≤ 20 := hxs.length_le
  have hle : placeCount e₁ e₂ xs.length ys.length ≤ 20 := min_le_left _ _
  simp only [Shape.end1] at hout hin hzero
  refine ⟨by simpa using hp, rfl, ?_, by omega⟩
  by_contra hge
  -- Otherwise the last place holds the last digit, which is not zero.
  have hoff : offset e₂ e₁ = 0 := by
    unfold offset
    omega
  have hn : placeCount e₁ e₂ xs.length ys.length = ys.length := by
    unfold placeCount at hout ⊢
    omega
  rw [hoff, hn, Nat.cast_zero, sub_zero] at hzero
  apply hys.last
  have hlen : ys.length - 1 < ys.length := by omega
  have hindex : ((ys.length : Int) - 1).toNat = ys.length - 1 := by omega
  show ys.getLast? = some 0
  rw [List.getLast?_eq_getElem?, List.getElem?_eq_getElem hlen]
  congr 1
  unfold MtdNumericType.digit at hzero
  rw [hindex] at hzero
  rw [← hzero]
  exact (List.getD_eq_getElem ys 0 hlen).symm

/-- The operand with the smaller exponent leaves the first place empty. -/
theorem aligned_lt_of_lt {n : Nat} (h : e₂ < e₁) (hys : Below 100 ys) :
    aligned e₂ e₁ ys (n + 1) < 100 ^ n := by
  have hoff : 0 < offset e₂ e₁ := by
    unfold offset
    omega
  have hb := spread_below (b := 100) (by norm_num) (offset e₂ e₁) hys (n + 1)
  have hfirst : spread 0 (offset e₂ e₁) ys (n + 1) =
      0 :: (List.range n).map (fun k => place 0 (offset e₂ e₁) ys (k + 1)) := by
    unfold spread
    rw [List.range_succ_eq_map, List.map_cons, place_outside (.inl hoff), List.map_map]
    rfl
  unfold aligned
  rw [hfirst] at hb ⊢
  have hlt := val_lt (Below.cons_iff.mp hb).2
  rw [List.length_map, List.length_range] at hlt
  rw [val_cons, zero_mul, zero_add]
  exact hlt

/-- **The byte of a hundred is stored.** -/
theorem subtractFloat_hundred (he₁ : InRange e₁) (he₂ : InRange e₂) (hxs : Mantissa xs)
    (hys : Mantissa ys) (h : LastHundred (encode s e₁ xs) (encode t e₂ ys)) :
    ∃ se m, subtractFloat (encode s e₁ xs) (encode t e₂ ys) = .ok (.num se (m ++ [100])) := by
  obtain ⟨rfl, rfl, hlt, hoff⟩ := lastHundred_lt he₁ he₂ hxs hys h
  have hmax := max_le he₁.2 he₂.2
  have hx1 := exponentOf_encode false he₁ xs
  have hy1 := exponentOf_encode false he₂ ys
  have hnear : near e₁ e₂ = true := by
    unfold near
    unfold offset at hoff
    rw [decide_eq_true_iff, abs_le]
    omega
  obtain ⟨k, c, m, d, hk, hdiff, hrun⟩ := subOperands_run (hasDigits_encode false e₁ hxs)
    (hasDigits_encode false e₂ hys) (by rw [hx1, hy1]; exact hmax)
    (by rw [hx1, hy1, hnear]; exact fun h => absurd h (by decide))
  obtain ⟨rfl, -⟩ := (hundred_iff he₁ he₂ hk hdiff).mpr h
  obtain ⟨hb1, hb2⟩ := bytes_encode false false he₁ he₂ xs ys (k + 1)
  have hval := hdiff.val_eq
  have hlow := le_aligned hxs hlt.le k
  have hhigh := aligned_lt_of_lt (n := k) hlt hys.below
  have hm := val_lt hdiff.below
  have hlen := hdiff.length
  rw [hlen] at hm
  -- the minuend is the greater one, so no borrow leaves the first place
  have hc : c = 0 := by
    rw [hb1, hb2, val_concat] at hval
    have hpow : (100 : Nat) ^ (k + 1) = 100 ^ k * 100 := pow_succ 100 k
    by_contra hne
    have hc1 : c = 1 := by
      have := hdiff.borrow
      simp only at this
      omega
    rw [hc1] at hval
    unfold aligned at hlow hhigh
    simp only [bytes, Bool.false_eq_true, if_false] at hval
    omega
  have hn : k + 1 ≤ 20 := by
    rw [hk, placesOf_encode false false he₁ he₂]
    exact min_le_left _ _
  obtain ⟨m', hm', hlen'⟩ : ∃ m', (m ++ [100]).dropWhile (· = 0) = m' ++ [100] ∧
      m'.length ≤ m.length := by
    rw [List.dropWhile_append]
    split_ifs with hnil
    · exact ⟨[], rfl, Nat.zero_le _⟩
    · exact ⟨_, rfl, (List.dropWhile_suffix _).length_le⟩
  -- the digits are not all zero: the last one is the hundred
  have hsome : ((m ++ [100]).takeWhile (· = 0)).length ≠ (m ++ [100]).length := by
    intro hall
    have hdrop := drop_takeWhile (fun x : Nat => decide (x = 0)) (m ++ [100])
    rw [hall, List.drop_of_length_le le_rfl, hm'] at hdrop
    exact absurd hdrop.symm (by simp)
  refine ⟨exponentByte false (max e₁ e₂ - ((m ++ [100]).takeWhile (· = 0)).length), m', ?_⟩
  rw [subtractFloat_run false false he₁ he₂ hxs hys, hrun, isPositive_encode false he₁,
    isPositive_encode false he₂, hc, hx1, hy1]
  unfold subSettle
  rw [if_pos rfl, if_neg (not_not.mpr rfl)]
  simp only [if_neg hsome]
  unfold subStore
  rw [drop_takeWhile, hm', trimEnd_concat, if_neg, List.take_of_length_le]
  · rfl
  · rw [List.length_append, List.length_singleton]
    omega
  · rintro ⟨-, h100⟩
    split_ifs at h100
    omega

end Encode

/-! ## §4. Subtraction and addition. -/

/-- **What subtraction should be**: the sum with the operand negated, for either
    order, zero for equal operands, and the negative of the reverse difference. -/
structure SubtractsRight (a b : MtdNumericType) : Prop where
  same : subtractFloat a b = addFloat a (negate b)
  back : subtractFloat b a = addFloat b (negate a)
  self : subtractFloat a a = .ok zero
  swap : subtractFloat a b = (subtractFloat b a).map negate

/-- The magnitude of the first operand, in units of the last place. -/
def unitsOf (a b : MtdNumericType) : Nat :=
  aligned (exponentOf a) (exponentOf b) (digits a.signExponent a.mantissa) (placesOf a b)

/-- The difference of the magnitudes, in units of the last place. -/
def differenceOf (a b : MtdNumericType) : Nat :=
  (unitsOf a b - unitsOf b a) + (unitsOf b a - unitsOf a b)

/-- For operands of the same sign: no byte of a hundred arises, and the difference
    has one digit, or a last digit that is neither 0 nor 99, or an exponent that is
    not too small. -/
structure SameSignFits (a b : MtdNumericType) : Prop where
  first : ¬ LastHundred a b
  second : ¬ LastHundred b a
  last : differenceOf a b < 100 ∨ (differenceOf a b % 100 ≠ 0 ∧ differenceOf a b % 100 ≠ 99) ∨
    -63 ≤ expo 100 ((differenceOf a b : ℚ) *
      (100 : ℚ) ^ (max (exponentOf a) (exponentOf b) - (placesOf a b : Int)))

/-- For operands of opposite signs: the sum of the magnitudes does not overrun the
    greatest exponent, and is not all nines there. -/
def OppositeSignFits (a b : MtdNumericType) : Prop :=
  max (exponentOf a) (exponentOf b) < 63 ∨
    unitsOf a b + unitsOf b a + 1 < 100 ^ placesOf a b ∨
    (unitsOf a b + unitsOf b a + 1 = 100 ^ placesOf a b ∧
      near (exponentOf a) (exponentOf b) = false)

/-- **Where subtraction is right.** -/
def SubtractFits (a b : MtdNumericType) : Prop :=
  a = zero ∨ b = zero ∨
    (isPositive a.signExponent = isPositive b.signExponent ∧ SameSignFits a b) ∨
    (isPositive a.signExponent ≠ isPositive b.signExponent ∧ OppositeSignFits a b)

section Encode

variable {s t : Bool} {e₁ e₂ : Int} {xs ys : List Nat}

theorem unitsOf_encode (s t : Bool) (he₁ : InRange e₁) (he₂ : InRange e₂) (hxs : Below 100 xs)
    (ys : List Nat) :
    unitsOf (encode s e₁ xs) (encode t e₂ ys) =
      aligned e₁ e₂ xs (placeCount e₁ e₂ xs.length ys.length) := by
  obtain ⟨se, m, heq, -, -, -, hd⟩ := encode_read s he₁ hxs
  have hdigits : digits (encode s e₁ xs).signExponent (encode s e₁ xs).mantissa = xs := by
    rw [heq]
    exact hd
  unfold unitsOf
  rw [hdigits, exponentOf_encode s he₁, exponentOf_encode t he₂, placesOf_encode s t he₁ he₂]

/-- The exponent of a number in `n` places. -/
theorem expo_numeral {e : Int} {n k : Nat} (hk : k ≠ 0) (hlt : k < 100 ^ n) :
    expo 100 ((k : ℚ) * (100 : ℚ) ^ (e - (n : Int))) =
      e - ((numeral 100 n k).takeWhile (· = 0)).length := by
  obtain ⟨d, ds, heq, hd, hb⟩ := numeral_strip hk hlt
  have hmag : mag 100 e (numeral 100 n k) = (k : ℚ) * (100 : ℚ) ^ (e - (n : Int)) := by
    unfold mag
    rw [val_numeral n k hlt, numeral_length]
    rfl
  have hdrop := mag_dropWhile (b := 100) (by norm_num) e (numeral 100 n k)
  rw [heq] at hdrop
  rw [← hmag, ← hdrop, expo_mag (by norm_num) _ hd hb]

/-- Negation of what is stored. -/
theorem negate_finish (neg : Bool) (e : Int) {n k : Nat} (hlt : k < 100 ^ n) :
    negate (finish neg e n k) = finish (!neg) e n k := by
  by_cases hk : k = 0
  · subst hk
    rfl
  obtain ⟨d, ds, heq, hd, hb⟩ := numeral_strip hk hlt
  have hne : trimCut (d :: ds) ≠ [] := trimCut_ne hd
  have hbelow := trimCut_below hb
  unfold finish
  rw [if_neg hk, if_neg hk]
  simp only [heq]
  generalize e - ((numeral 100 n k).takeWhile (fun x => decide (x = 0))).length = e' at *
  obtain ⟨x, rest, hcons⟩ := List.exists_cons_of_ne_nil hne
  rw [hcons] at hbelow ⊢
  cases neg with
  | false =>
    show MtdNumericType.num (uchar (256 - (uchar (e' + 192) : Int))) _ = .num (uchar (64 - e')) _
    congr 1
    unfold uchar
    omega
  | true =>
    show MtdNumericType.num (uchar (256 - (uchar (64 - e') : Int)))
      (((x :: rest).map (99 - ·)).map (99 - ·)) = .num (uchar (e' + 192)) (x :: rest)
    rw [map_compl_compl hbelow]
    congr 1
    unfold uchar
    omega

/-- `addFloat` for two magnitudes that are to be subtracted. -/
theorem sumOf_difference (added s : Bool) (e : Int) (n x y : Nat) :
    sumOf added s (!s) e n x y =
      .ok (if y ≤ x then finish s e n (x - y) else finish (!s) e n (y - x)) := by
  have hs : ¬ s = !s := by cases s <;> decide
  unfold sumOf
  rw [if_neg hs]
  split_ifs <;> rfl

/-- The sum with a negated operand of the same sign. -/
theorem add_difference (s : Bool) (he₁ : InRange e₁) (he₂ : InRange e₂) (hxs : Mantissa xs)
    (hys : Mantissa ys) :
    let n := placeCount e₁ e₂ xs.length ys.length
    let x := aligned e₁ e₂ xs n
    let y := aligned e₂ e₁ ys n
    addFloat (encode s e₁ xs) (negate (encode s e₂ ys)) =
      .ok (if y ≤ x then finish s (max e₁ e₂) n (x - y)
        else finish (!s) (max e₁ e₂) n (y - x)) := by
  intro n x y
  rw [negate_encode s he₂ hys, addFloat_closed s (!s) he₁ he₂ hxs hys, sumOf_difference]

/-- The difference of operands of the same sign. -/
theorem sub_difference (he₁ : InRange e₁) (he₂ : InRange e₂) (hxs : Mantissa xs)
    (hys : Mantissa ys) (hmiss : ¬ LastHundred (encode s e₁ xs) (encode s e₂ ys)) :
    let n := placeCount e₁ e₂ xs.length ys.length
    let x := aligned e₁ e₂ xs n
    let y := aligned e₂ e₁ ys n
    subtractFloat (encode s e₁ xs) (encode s e₂ ys) =
      .ok (if y ≤ x then subFinish s (max e₁ e₂) n (x - y)
        else subFinish (!s) (max e₁ e₂) n (y - x)) := by
  intro n x y
  rw [subtractFloat_closed he₁ he₂ hxs hys hmiss]
  unfold subResult
  rw [if_pos rfl]

/-- A byte of a hundred is no sum. -/
theorem not_lastHundred (he₁ : InRange e₁) (he₂ : InRange e₂) (hxs : Mantissa xs)
    (hys : Mantissa ys) (h : subtractFloat (encode s e₁ xs) (encode s e₂ ys) =
      addFloat (encode s e₁ xs) (negate (encode s e₂ ys))) :
    ¬ LastHundred (encode s e₁ xs) (encode s e₂ ys) := by
  intro hmiss
  obtain ⟨se, m, hrun⟩ := subtractFloat_hundred he₁ he₂ hxs hys hmiss
  rw [hrun, add_difference s he₁ he₂ hxs hys] at h
  have hstored := Except.ok.inj h
  have hlt : ∀ v : MtdNumericType, MtdNumericType.num se (m ++ [100]) = v →
      ¬ Below 100 v.mantissa := by
    rintro v rfl hbelow
    exact absurd (hbelow 100 (List.mem_append_right m List.mem_cons_self)) (lt_irrefl _)
  split_ifs at hstored
  · exact hlt _ hstored (finish_below _ _ _ _)
  · exact hlt _ hstored (finish_below _ _ _ _)

/-- Nothing is left of equal operands. -/
theorem subtractFloat_self {a : MtdNumericType} (ha : Canonical a) :
    subtractFloat a a = .ok zero := by
  cases ha with
  | zero => rfl
  | encode s e xs hxs he =>
    have hmiss : ¬ LastHundred (encode s e xs) (encode s e xs) := by
      intro h
      exact absurd (lastHundred_lt he he hxs hxs h).2.2.1 (lt_irrefl _)
    rw [sub_difference he he hxs hxs hmiss, if_pos le_rfl, Nat.sub_self]
    rfl

/-- `subFinish_iff`, for the exponent of the number. -/
theorem subFinish_expo {e : Int} (he : InRange e) {n k : Nat} (hn : n ≤ 20) (hlt : k < 100 ^ n) :
    (∀ neg, subFinish neg e n k = finish neg e n k) ↔
      k < 100 ∨ (k % 100 ≠ 0 ∧ k % 100 ≠ 99) ∨
        -63 ≤ expo 100 ((k : ℚ) * (100 : ℚ) ^ (e - (n : Int))) := by
  by_cases hk : k = 0
  · subst hk
    exact ⟨fun _ => .inl (by norm_num), fun _ _ => rfl⟩
  · rw [expo_numeral hk hlt]
    exact subFinish_iff he hn hlt

/-- Differences that are stored alike for either order are stored alike for either
    sign. -/
theorem stored_alike (s : Bool) {e : Int} {n x y : Nat}
    (hsame : (if y ≤ x then subFinish s e n (x - y) else subFinish (!s) e n (y - x)) =
      if y ≤ x then finish s e n (x - y) else finish (!s) e n (y - x))
    (hback : (if x ≤ y then subFinish s e n (y - x) else subFinish (!s) e n (x - y)) =
      if x ≤ y then finish s e n (y - x) else finish (!s) e n (x - y)) (neg : Bool) :
    subFinish neg e n (x - y + (y - x)) = finish neg e n (x - y + (y - x)) := by
  have hboth : ∀ {f g : Bool → MtdNumericType}, f s = g s → f (!s) = g (!s) → f neg = g neg := by
    intro f g h1 h2
    cases s <;> cases neg
    · exact h1
    · exact h2
    · exact h2
    · exact h1
  rcases lt_trichotomy x y with hlt | rfl | hlt
  · rw [if_neg (by omega), if_neg (by omega)] at hsame
    rw [if_pos hlt.le, if_pos hlt.le] at hback
    rw [Nat.sub_eq_zero_of_le hlt.le, Nat.zero_add]
    exact hboth (f := fun neg => subFinish neg e n (y - x)) (g := fun neg => finish neg e n (y - x))
      hback hsame
  · rw [Nat.sub_self]
    rfl
  · rw [if_pos hlt.le, if_pos hlt.le] at hsame
    rw [if_neg (by omega), if_neg (by omega)] at hback
    rw [Nat.sub_eq_zero_of_le hlt.le, Nat.add_zero]
    exact hboth (f := fun neg => subFinish neg e n (x - y)) (g := fun neg => finish neg e n (x - y))
      hsame hback

/-- What is stored alike for either sign makes the differences alike. -/
theorem differences_alike (s : Bool) {e : Int} {n x y : Nat}
    (h : ∀ neg, subFinish neg e n (x - y + (y - x)) = finish neg e n (x - y + (y - x))) :
    (if y ≤ x then subFinish s e n (x - y) else subFinish (!s) e n (y - x)) =
      if y ≤ x then finish s e n (x - y) else finish (!s) e n (y - x) := by
  by_cases hle : y ≤ x
  · rw [Nat.sub_eq_zero_of_le hle, Nat.add_zero] at h
    rw [if_pos hle, if_pos hle, h s]
  · rw [Nat.sub_eq_zero_of_le (not_le.mp hle).le, Nat.zero_add] at h
    rw [if_neg hle, if_neg hle, h (!s)]

theorem sameSign_iff (s : Bool) (he₁ : InRange e₁) (he₂ : InRange e₂) (hxs : Mantissa xs)
    (hys : Mantissa ys) :
    SubtractsRight (encode s e₁ xs) (encode s e₂ ys) ↔
      SameSignFits (encode s e₁ xs) (encode s e₂ ys) := by
  have hadd := add_difference s he₁ he₂ hxs hys
  have haddBack := add_difference s he₂ he₁ hys hxs
  have hplaces := placesOf_encode s s he₁ he₂ xs ys
  have hx := unitsOf_encode s s he₁ he₂ hxs.below ys
  have hy := unitsOf_encode s s he₂ he₁ hys.below xs
  have hxlt := aligned_lt e₁ e₂ hxs.below (placeCount e₁ e₂ xs.length ys.length)
  have hylt := aligned_lt e₂ e₁ hys.below (placeCount e₁ e₂ xs.length ys.length)
  have hn : placeCount e₁ e₂ xs.length ys.length ≤ 20 := min_le_left _ _
  have hrange : InRange (max e₁ e₂) := ⟨he₁.1.trans (le_max_left _ _), max_le he₁.2 he₂.2⟩
  rw [placeCount_comm] at hy haddBack
  rw [max_comm e₂ e₁] at haddBack
  have hdiff : differenceOf (encode s e₁ xs) (encode s e₂ ys) = _ :=
    congrArg₂ (fun x y => (x - y) + (y - x)) hx hy
  have hsub := fun h => sub_difference (s := s) he₁ he₂ hxs hys h
  have hsubBack := fun h => sub_difference (s := s) he₂ he₁ hys hxs h
  rw [placeCount_comm e₂ e₁, max_comm e₂ e₁] at hsubBack
  simp only at hadd haddBack hsub hsubBack hdiff
  generalize placeCount e₁ e₂ xs.length ys.length = n at *
  generalize aligned e₁ e₂ xs n = x at *
  generalize aligned e₂ e₁ ys n = y at *
  have hfits := subFinish_expo hrange (n := n) (k := (x - y) + (y - x)) hn (by omega)
  constructor
  · intro h
    have hfirst := not_lastHundred he₁ he₂ hxs hys h.same
    have hsecond := not_lastHundred he₂ he₁ hys hxs h.back
    refine ⟨hfirst, hsecond, ?_⟩
    rw [hdiff, exponentOf_encode s he₁, exponentOf_encode s he₂, hplaces]
    -- both orders store the difference, so it fits
    have hsame := h.same
    have hback := h.back
    rw [hsub hfirst, hadd] at hsame
    rw [hsubBack hsecond, haddBack] at hback
    exact hfits.mp (stored_alike s (Except.ok.inj hsame) (Except.ok.inj hback))
  · intro h
    obtain ⟨hfirst, hsecond, hlast⟩ := h
    rw [hdiff, exponentOf_encode s he₁, exponentOf_encode s he₂, hplaces] at hlast
    have hall := hfits.mpr hlast
    have hrun := (hsub hfirst).trans (congrArg Except.ok (differences_alike s hall))
    rw [Nat.add_comm] at hall
    have hrunBack := (hsubBack hsecond).trans (congrArg Except.ok (differences_alike s hall))
    refine ⟨hrun.trans hadd.symm, hrunBack.trans haddBack.symm,
      subtractFloat_self (.encode s e₁ xs hxs he₁), ?_⟩
    rw [hrun, hrunBack]
    show Except.ok _ = Except.ok (negate _)
    congr 1
    -- the two orders differ in the sign alone
    rcases lt_trichotomy x y with hlt | rfl | hlt
    · rw [if_neg (by omega), if_pos hlt.le, negate_finish s _ (by omega)]
    · rw [if_pos le_rfl, Nat.sub_self]
      rfl
    · rw [if_pos hlt.le, if_neg (by omega), negate_finish (!s) _ (by omega), Bool.not_not]

/-- The difference of operands of opposite signs. -/
theorem sub_sum (he₁ : InRange e₁) (he₂ : InRange e₂) (hxs : Mantissa xs) (hys : Mantissa ys) :
    let n := placeCount e₁ e₂ xs.length ys.length
    subtractFloat (encode s e₁ xs) (encode (!s) e₂ ys) =
      .ok (subSum s (max e₁ e₂) n (aligned e₁ e₂ xs n + aligned e₂ e₁ ys n)) := by
  intro n
  have hmiss : ¬ LastHundred (encode s e₁ xs) (encode (!s) e₂ ys) := by
    intro h
    obtain ⟨rfl, hs, -⟩ := lastHundred_lt he₁ he₂ hxs hys h
    cases hs
  have hs : ¬ s = !s := by cases s <;> decide
  rw [subtractFloat_closed he₁ he₂ hxs hys hmiss]
  unfold subResult
  rw [if_neg hs]

/-- The sum with a negated operand of the opposite sign. -/
theorem add_sum (s : Bool) (he₁ : InRange e₁) (he₂ : InRange e₂) (hxs : Mantissa xs)
    (hys : Mantissa ys) :
    let n := placeCount e₁ e₂ xs.length ys.length
    addFloat (encode s e₁ xs) (negate (encode (!s) e₂ ys)) =
      sumOf (near e₁ e₂) s s (max e₁ e₂) n (aligned e₁ e₂ xs n) (aligned e₂ e₁ ys n) := by
  intro n
  rw [negate_encode (!s) he₂ hys, Bool.not_not, addFloat_closed s s he₁ he₂ hxs hys]

/-- A sum that needs all its places is stored alike. -/
theorem subSum_eq (neg : Bool) {e : Int} (he : InRange e) {j k : Nat} (hlow : 100 ^ j ≤ k)
    (hhigh : k < 100 ^ (j + 1) + 100 ^ (j + 1)) (hfit : e < 63 ∨ k < 100 ^ (j + 1)) :
    subSum neg e (j + 1) k =
      if k < 100 ^ (j + 1) then finish neg e (j + 1) k else finish neg (e + 1) (j + 1 + 1) k := by
  have hpow : (100 : Nat) ^ (j + 1 + 1) = 100 ^ (j + 1) * 100 := pow_succ 100 _
  obtain ⟨h0, h1⟩ := he
  unfold subSum
  by_cases hlt : k < 100 ^ (j + 1)
  · have hfull := (numeral_full hlow hlt).1
    rw [if_pos hlt, if_pos hlt, subFinish_eq neg hlt]
    rw [hfull, List.length_nil, Nat.cast_zero, sub_zero]
    exact ⟨h0, h1⟩
  · have hlt' : k < 100 ^ (j + 1 + 1) := by omega
    have hfull := (numeral_full (not_lt.mp hlt) hlt').1
    rw [if_neg hlt, if_neg hlt, subFinish_eq neg hlt']
    rw [hfull, List.length_nil, Nat.cast_zero, sub_zero]
    exact ⟨by omega, by omega⟩

/-- **A sum of magnitudes, as both functions store it**, exactly where neither
    overruns the greatest exponent. -/
theorem subSum_iff (added s : Bool) {e : Int} (he : InRange e) {j x y : Nat}
    (hx : x < 100 ^ (j + 1)) (hy : y < 100 ^ (j + 1)) (hlow : 100 ^ j ≤ x + y) :
    .ok (subSum s e (j + 1) (x + y)) = sumOf added s s e (j + 1) x y ↔
      (e < 63 ∨ x + y < 100 ^ (j + 1)) ∧
        ¬ (added = true ∧ s = true ∧ e = 63 ∧ x + y + 1 = 100 ^ (j + 1)) := by
  have h63 := he.2
  unfold sumOf
  rw [if_pos rfl]
  constructor
  · intro h
    by_cases hlt : x + y < 100 ^ (j + 1)
    · rw [if_pos hlt] at h
      refine ⟨.inr hlt, fun hnines => ?_⟩
      rw [if_pos hnines] at h
      cases h
    · rw [if_neg hlt] at h
      by_cases htop : e = 63
      · rw [if_pos htop] at h
        cases h
      · exact ⟨.inl (by omega), fun hnines => htop hnines.2.2.1⟩
  · rintro ⟨hfit, hnines⟩
    rw [subSum_eq s he hlow (by omega) hfit, if_neg hnines]
    by_cases hlt : x + y < 100 ^ (j + 1)
    · rw [if_pos hlt, if_pos hlt]
    · rw [if_neg hlt, if_neg hlt, if_neg (by omega)]

theorem oppositeSign_iff (s : Bool) (he₁ : InRange e₁) (he₂ : InRange e₂) (hxs : Mantissa xs)
    (hys : Mantissa ys) :
    SubtractsRight (encode s e₁ xs) (encode (!s) e₂ ys) ↔
      OppositeSignFits (encode s e₁ xs) (encode (!s) e₂ ys) := by
  have hadd := add_sum s he₁ he₂ hxs hys
  have haddBack := add_sum (!s) he₂ he₁ hys hxs
  have hsub := sub_sum (s := s) he₁ he₂ hxs hys
  have hsubBack := sub_sum (s := !s) he₂ he₁ hys hxs
  have hplaces := placesOf_encode s (!s) he₁ he₂ xs ys
  have hx := unitsOf_encode s (!s) he₁ he₂ hxs.below ys
  have hy := unitsOf_encode (!s) s he₂ he₁ hys.below xs
  have hxlt := aligned_lt e₁ e₂ hxs.below (placeCount e₁ e₂ xs.length ys.length)
  have hylt := aligned_lt e₂ e₁ hys.below (placeCount e₁ e₂ xs.length ys.length)
  have hrange : InRange (max e₁ e₂) := ⟨he₁.1.trans (le_max_left _ _), max_le he₁.2 he₂.2⟩
  have hpos : 0 < placeCount e₁ e₂ xs.length ys.length := by
    have := List.length_pos_of_ne_nil hxs.ne
    unfold placeCount
    omega
  obtain ⟨j, hj⟩ : ∃ j, placeCount e₁ e₂ xs.length ys.length = j + 1 :=
    ⟨placeCount e₁ e₂ xs.length ys.length - 1, by omega⟩
  -- the operand of the greater exponent fills the first place
  have hlow : 100 ^ j ≤ aligned e₁ e₂ xs (j + 1) + aligned e₂ e₁ ys (j + 1) := by
    rcases le_total e₁ e₂ with h | h
    · exact (le_aligned hys h j).trans (Nat.le_add_left _ _)
    · exact (le_aligned hxs h j).trans (Nat.le_add_right _ _)
  rw [Bool.not_not] at haddBack hsubBack
  rw [placeCount_comm e₂ e₁, max_comm e₂ e₁] at haddBack hsubBack
  rw [placeCount_comm e₂ e₁] at hy
  rw [near_comm e₂ e₁] at haddBack
  rw [hj] at hadd haddBack hsub hsubBack hplaces hx hy hxlt hylt
  unfold OppositeSignFits
  rw [exponentOf_encode s he₁, exponentOf_encode (!s) he₂, hplaces, hx, hy]
  simp only at hadd haddBack hsub hsubBack
  generalize aligned e₁ e₂ xs (j + 1) = x at *
  generalize aligned e₂ e₁ ys (j + 1) = y at *
  have hiff := subSum_iff (near e₁ e₂) s hrange hxlt hylt hlow
  have hiffBack := subSum_iff (near e₁ e₂) (!s) hrange hylt hxlt (by omega)
  have h63 := hrange.2
  generalize max e₁ e₂ = e at *
  generalize near e₁ e₂ = added at *
  constructor
  · intro h
    have hsame := h.same
    have hback := h.back
    rw [hsub, hadd, hiff] at hsame
    rw [hsubBack, haddBack, hiffBack] at hback
    -- only at the greatest exponent can the sum be too great
    by_cases htop : e = 63
    · by_cases hnines : x + y + 1 = 100 ^ (j + 1)
      · -- a sum of nines is stored by one order and carried by the other, unless the operands
        -- are far apart
        have hfar : added = false := by
          cases added with
          | false => rfl
          | true =>
            cases s with
            | false => exact absurd ⟨rfl, rfl, htop, by omega⟩ hback.2
            | true => exact absurd ⟨rfl, rfl, htop, hnines⟩ hsame.2
        exact .inr (.inr ⟨hnines, hfar⟩)
      · exact .inr (.inl (by omega))
    · exact .inl (by omega)
  · intro h
    have hfit : e < 63 ∨ x + y < 100 ^ (j + 1) := by omega
    have hnines : ∀ neg : Bool,
        ¬ (added = true ∧ neg = true ∧ e = 63 ∧ x + y + 1 = 100 ^ (j + 1)) := by
      rintro neg ⟨rfl, -, htop, hsum⟩
      rcases h with h | h | ⟨-, h⟩
      · omega
      · omega
      · cases h
    have hback : (e < 63 ∨ y + x < 100 ^ (j + 1)) ∧
        ¬ (added = true ∧ (!s) = true ∧ e = 63 ∧ y + x + 1 = 100 ^ (j + 1)) := by
      rw [Nat.add_comm y x]
      exact ⟨hfit, hnines (!s)⟩
    refine ⟨?_, ?_, subtractFloat_self (.encode s e₁ xs hxs he₁), ?_⟩
    · rw [hsub, hadd, hiff]
      exact ⟨hfit, hnines s⟩
    · rw [hsubBack, haddBack, hiffBack]
      exact hback
    · have hpow : (100 : Nat) ^ (j + 1 + 1) = 100 ^ (j + 1) * 100 := pow_succ 100 _
      rw [hsub, hsubBack, Nat.add_comm y x, subSum_eq s hrange hlow (by omega) hfit,
        subSum_eq (!s) hrange hlow (by omega) hfit]
      show Except.ok _ = Except.ok (negate _)
      congr 1
      by_cases hlt : x + y < 100 ^ (j + 1)
      · rw [if_pos hlt, if_pos hlt, negate_finish (!s) _ hlt, Bool.not_not]
      · rw [if_neg hlt, if_neg hlt, negate_finish (!s) _ (by omega), Bool.not_not]

end Encode

theorem negate_negate {v : MtdNumericType} (hv : Canonical v) : negate (negate v) = v := by
  cases hv with
  | zero => rfl
  | encode s e xs hxs he => rw [negate_encode s he hxs, negate_encode (!s) he hxs, Bool.not_not]

theorem subtractFloat_zero_left {v : MtdNumericType} (hv : Canonical v) :
    subtractFloat zero v = .ok (negate v) := by
  cases hv with
  | zero => rfl
  | encode neg e ds hds he =>
    obtain ⟨se, d, m, heq, -⟩ := encode_cons neg he hds
    rw [heq]
    rfl

theorem subtractFloat_zero_right {v : MtdNumericType} (hv : Canonical v) :
    subtractFloat v zero = .ok v := by
  cases hv with
  | zero => rfl
  | encode neg e ds hds he =>
    obtain ⟨se, d, m, heq, -⟩ := encode_cons neg he hds
    rw [heq]
    rfl

theorem subtractsRight_zero_left {v : MtdNumericType} (hv : Canonical v) :
    SubtractsRight zero v := by
  have hneg := canonical_negate hv
  refine ⟨?_, ?_, rfl, ?_⟩
  · rw [subtractFloat_zero_left hv, addFloat_zero_left hneg]
  · rw [subtractFloat_zero_right hv]
    exact (addFloat_zero_right hv).symm
  · rw [subtractFloat_zero_left hv, subtractFloat_zero_right hv]
    rfl

theorem subtractsRight_zero_right {v : MtdNumericType} (hv : Canonical v) :
    SubtractsRight v zero := by
  obtain ⟨hsame, hback, -, -⟩ := subtractsRight_zero_left hv
  refine ⟨hback, hsame, subtractFloat_self hv, ?_⟩
  rw [subtractFloat_zero_left hv, subtractFloat_zero_right hv]
  show Except.ok v = Except.ok (negate (negate v))
  rw [negate_negate hv]

/-- **Exactly where subtraction is addition with the operand negated.** -/
theorem subtractFloat_iff {a b : MtdNumericType} (ha : Canonical a) (hb : Canonical b) :
    SubtractsRight a b ↔ SubtractFits a b := by
  unfold SubtractFits
  cases ha with
  | zero => exact ⟨fun _ => .inl rfl, fun _ => subtractsRight_zero_left hb⟩
  | encode s e₁ xs hxs he₁ =>
    cases hb with
    | zero =>
      exact ⟨fun _ => .inr (.inl rfl),
        fun _ => subtractsRight_zero_right (.encode s e₁ xs hxs he₁)⟩
    | encode t e₂ ys hys he₂ =>
      have hx0 : encode s e₁ xs ≠ zero := by
        intro h
        exact value_encode_ne_zero s he₁ hxs (h ▸ value_zero)
      have hy0 : encode t e₂ ys ≠ zero := by
        intro h
        exact value_encode_ne_zero t he₂ hys (h ▸ value_zero)
      rw [or_iff_right hx0, or_iff_right hy0, isPositive_encode s he₁, isPositive_encode t he₂]
      by_cases hst : s = t
      · subst hst
        rw [sameSign_iff s he₁ he₂ hxs hys]
        exact ⟨fun h => .inl ⟨rfl, h⟩, fun h => (h.resolve_right fun h => h.1 rfl).2⟩
      · obtain rfl : t = !s := by
          cases s <;> cases t <;> simp_all
        have hne : ¬ (!s) = !!s := by cases s <;> decide
        rw [oppositeSign_iff s he₁ he₂ hxs hys]
        exact ⟨fun h => .inr ⟨hne, h⟩, fun h => (h.resolve_left fun h => hne h.1).2⟩

/-- `503.4 - 7.65`: a borrow from each of the first two digits. -/
theorem subtractFloat_iff_borrow :
    SubtractsRight (encode false 2 [5, 3, 40]) (encode false 1 [7, 65]) ↔
      SubtractFits (encode false 2 [5, 3, 40]) (encode false 1 [7, 65]) :=
  subtractFloat_iff (.encode false 2 [5, 3, 40] (by decide) (by decide))
    (.encode false 1 [7, 65] (by decide) (by decide))

/-- Twenty digits, the last but one of them a zero. -/
def zeroBeforeLast : List Nat := List.replicate 18 1 ++ [0, 1]

/-- **`1 - 0.0101…0001` is stored with a byte of a hundred.** -/
theorem subtract_wrong :
    subtractFloat (encode false 1 [1]) (encode false 0 zeroBeforeLast) =
      .ok (.num 192 (List.replicate 18 98 ++ [100])) ∧
    addFloat (encode false 1 [1]) (negate (encode false 0 zeroBeforeLast)) =
      .ok (.num 192 (List.replicate 17 98 ++ [99])) ∧
    ¬ ∀ a b, Canonical a → Canonical b → SubtractsRight a b := by
  have hsub : subtractFloat (encode false 1 [1]) (encode false 0 zeroBeforeLast) =
      .ok (.num 192 (List.replicate 18 98 ++ [100])) := by decide
  have hadd : addFloat (encode false 1 [1]) (negate (encode false 0 zeroBeforeLast)) =
      .ok (.num 192 (List.replicate 17 98 ++ [99])) := by decide
  refine ⟨hsub, hadd, ?_⟩
  intro h
  have hsame := (h _ _ (.encode false 1 [1] (by decide) (by decide))
    (.encode false 0 zeroBeforeLast (by decide) (by decide))).same
  rw [hsub, hadd] at hsame
  exact absurd (Except.ok.inj hsame) (by decide)

end Altibase.Mtc
