/-
  Altibase.Mtc.Align
  ──────────────────
  **TWO OPERANDS, PLACE BY PLACE.**

  `addFloat` and `subtractFloat` begin alike.  The operand whose last digit lies
  further to the right is the long one; the places are counted from the first
  digit of the operand with the greater exponent, and no more than twenty of
  them are used.  Outside its digits an operand continues with zeros or, as a
  complement, with 99s.

    * `operands` — which operand is long, and the lengths;
    * `Layout` — where the digits lie;
    * `val_places` — the places hold the operand, cut off after the twentieth.
-/

import Altibase.Mtc.Result
import Altibase.Mtc.Slong

namespace Altibase.Mtc

open Altibase.Lib.Digits

/-! ## §1. The operands. -/

/-- The byte `signExponent`. -/
def MtdNumericType.signExponent : MtdNumericType → Nat
  | .null => 0
  | .num se _ => se

/-- The bytes of `mantissa` that count. -/
def MtdNumericType.mantissa : MtdNumericType → List Nat
  | .null => []
  | .num _ m => m

/-- `mantissa[i]`. -/
def MtdNumericType.digit (a : MtdNumericType) (i : Int) : Nat := a.mantissa.getD i.toNat 0

/-- What stands outside the digits: zeros, or 99s for a negative number. -/
def MtdNumericType.fill (a : MtdNumericType) : Nat :=
  if isPositive a.signExponent then 0 else 99

/-- The variables that the first part of `addFloat` and `subtractFloat` sets. -/
structure Operands where
  sExponent1 : Int
  sDiffExp : Nat
  longArg : MtdNumericType
  shortArg : MtdNumericType
  longLength : Nat
  shortLength : Nat
  longIsFirst : Bool

/-- Which operand is the long one. -/
def operands (aArgument1 aArgument2 : MtdNumericType) : Operands :=
  let sExponent1 := exponent aArgument1.signExponent
  let sExponent2 := exponent aArgument2.signExponent
  if sExponent1 < sExponent2 then
    let sDiffExp := (sExponent2 - sExponent1).toNat
    let tempLength := aArgument1.length + sDiffExp
    if tempLength > aArgument2.length then
      ⟨sExponent2, sDiffExp, aArgument1, aArgument2, tempLength, aArgument2.length, true⟩
    else
      ⟨sExponent2, sDiffExp, aArgument2, aArgument1, aArgument2.length, tempLength, false⟩
  else
    let sDiffExp := (sExponent1 - sExponent2).toNat
    let tempLength := aArgument2.length + sDiffExp
    if tempLength > aArgument1.length then
      ⟨sExponent1, sDiffExp, aArgument2, aArgument1, tempLength, aArgument1.length, false⟩
    else
      ⟨sExponent1, sDiffExp, aArgument1, aArgument2, aArgument1.length, tempLength, true⟩

/-- `aPrecisionMaximum / 2 + 2`, for the precision 38 of a NUMERIC. -/
def lengthMaximum : Nat := 38 / 2 + 2

/-- `lIndex` and `longLength`, after the length is cut to 21. -/
def Operands.cutLength (o : Operands) : Int × Nat :=
  if o.longLength > lengthMaximum then
    ((o.longArg.length : Int) - 2 - ((o.longLength : Int) - 21), 21)
  else ((o.longArg.length : Int) - 2, o.longLength)

/-- The loop that trims the end, down to the second digit. -/
def trimEnd (fill : Nat) : List Nat → List Nat
  | [] => []
  | d :: ds => d :: ds.rdropWhile (· = fill)

theorem trimEnd_eq {fill d : Nat} (hd : d ≠ fill) (ds : List Nat) :
    trimEnd fill (d :: ds) = (d :: ds).rdropWhile (· = fill) := by
  show d :: ds.rdropWhile (· = fill) = _
  induction ds using List.reverseRecOn with
  | nil =>
    rw [← List.nil_append [d], List.rdropWhile_concat_neg _ _ _ (by simpa using hd)]
    rfl
  | append_singleton ds x ih =>
    rw [← List.cons_append]
    by_cases hx : x = fill
    · rw [List.rdropWhile_concat_pos _ _ _ (by simpa using hx),
        List.rdropWhile_concat_pos _ _ _ (by simpa using hx), ih]
    · rw [List.rdropWhile_concat_neg _ _ _ (by simpa using hx),
        List.rdropWhile_concat_neg _ _ _ (by simpa using hx)]
      rfl

/-! ## §2. Where the digits lie. -/

/-- **The layout of two operands**: the long one starts at place `p`, the short
    one at place `q`, and one of them at the first place. -/
structure Layout (o : Operands) (p q : Nat) : Prop where
  first : p = 0 ∨ q = 0
  diff : o.sDiffExp = p + q
  longExponent : o.sExponent1 = exponent o.longArg.signExponent + p
  shortExponent : o.sExponent1 = exponent o.shortArg.signExponent + q
  longLength : o.longLength = p + o.longArg.mantissa.length + 1
  shortLength : o.shortLength = q + o.shortArg.mantissa.length + 1
  le : o.shortLength ≤ o.longLength

theorem operands_layout {a b : MtdNumericType} (ha : a.length = a.mantissa.length + 1)
    (hb : b.length = b.mantissa.length + 1) : ∃ p q, Layout (operands a b) p q := by
  unfold operands
  by_cases hlt : exponent a.signExponent < exponent b.signExponent
  · by_cases hlong : a.length + (exponent b.signExponent - exponent a.signExponent).toNat > b.length
    · simp only [if_pos hlt, if_pos hlong]
      refine ⟨(exponent b.signExponent - exponent a.signExponent).toNat, 0, .inr rfl,
        ?_, ?_, ?_, ?_, ?_, ?_⟩ <;> simp only <;> omega
    · simp only [if_pos hlt, if_neg hlong]
      refine ⟨0, (exponent b.signExponent - exponent a.signExponent).toNat, .inl rfl,
        ?_, ?_, ?_, ?_, ?_, ?_⟩ <;> simp only <;> omega
  · by_cases hlong : b.length + (exponent a.signExponent - exponent b.signExponent).toNat > a.length
    · simp only [if_neg hlt, if_pos hlong]
      refine ⟨(exponent a.signExponent - exponent b.signExponent).toNat, 0, .inr rfl,
        ?_, ?_, ?_, ?_, ?_, ?_⟩ <;> simp only <;> omega
    · simp only [if_neg hlt, if_neg hlong]
      refine ⟨0, (exponent a.signExponent - exponent b.signExponent).toNat, .inl rfl,
        ?_, ?_, ?_, ?_, ?_, ?_⟩ <;> simp only <;> omega

/-- The long operand is one of the two, the short one the other. -/
theorem operands_args (a b : MtdNumericType) :
    ((operands a b).longIsFirst = true ∧ (operands a b).longArg = a ∧
      (operands a b).shortArg = b) ∨
    ((operands a b).longIsFirst = false ∧ (operands a b).longArg = b ∧
      (operands a b).shortArg = a) := by
  unfold operands
  simp only
  split_ifs
  · exact .inl ⟨rfl, rfl, rfl⟩
  · exact .inr ⟨rfl, rfl, rfl⟩
  · exact .inr ⟨rfl, rfl, rfl⟩
  · exact .inl ⟨rfl, rfl, rfl⟩

/-- The number of places. -/
def Operands.places (o : Operands) : Nat := o.cutLength.2 - 1

/-- After the cut the last digit of the long operand that counts lies at the last
    place. -/
theorem Layout.cutLength {o : Operands} {p q : Nat} (h : Layout o p q)
    (hnum : o.longArg.length = o.longArg.mantissa.length + 1) :
    o.cutLength.1 = (o.places : Int) - 1 - p ∧ o.cutLength.2 = o.places + 1 ∧
      o.places = min 20 (o.longLength - 1) := by
  have hl := h.longLength
  unfold Operands.places Operands.cutLength lengthMaximum
  rw [hnum]
  split_ifs with hcut
  · refine ⟨?_, rfl, ?_⟩ <;> simp only <;> omega
  · refine ⟨?_, ?_, ?_⟩ <;> simp only <;> omega

/-! ## §3. The places. -/

theorem place_inside {fill o k : Nat} {ds : List Nat} (h : o ≤ k) :
    place fill o ds k = ds.getD (k - o) fill := by
  unfold place
  rw [if_neg (not_lt.mpr h)]

theorem place_outside {fill o k : Nat} {ds : List Nat} (h : k < o ∨ o + ds.length ≤ k) :
    place fill o ds k = fill := by
  unfold place
  split_ifs with hk
  · rfl
  · rw [List.getD_eq_default]
    omega

/-- A digit that an index of the loops points to. -/
theorem digit_eq_place {a : MtdNumericType} {fill o k : Nat} {i : Int} (hi : i = (k : Int) - o)
    (h0 : 0 ≤ i) (hlt : k < o + a.mantissa.length) :
    a.digit i = place fill o a.mantissa k := by
  have hk : i.toNat = k - o := by omega
  have hlen : k - o < a.mantissa.length := by omega
  unfold MtdNumericType.digit
  rw [place_inside (by omega), hk, List.getD_eq_getElem _ _ hlen, List.getD_eq_getElem _ _ hlen]

/-- What the places of an operand hold: its digits, or their complement. -/
theorem spread_encode (neg : Bool) {e : Int} (he : InRange e) (ds : List Nat) (o n : Nat) :
    spread (encode neg e ds).fill o (encode neg e ds).mantissa n =
      if neg then compl 100 (spread 0 o ds n) else spread 0 o ds n := by
  cases neg with
  | false =>
    have hf : (encode false e ds).fill = 0 := by
      show (if isPositive (uchar (e + 192)) then 0 else 99) = 0
      rw [if_pos (positive_byte he).1]
    rw [hf]
    rfl
  | true =>
    have hf : (encode true e ds).fill = 99 := by
      show (if isPositive (uchar (64 - e)) then 0 else 99) = 99
      rw [(negative_byte he).1]
      rfl
    rw [hf]
    exact spread_compl (b := 100) o ds n

theorem encode_mantissa_length (neg : Bool) (e : Int) (ds : List Nat) :
    (encode neg e ds).mantissa.length = ds.length := by
  cases neg with
  | false => rfl
  | true => exact List.length_map ..

theorem encode_length (neg : Bool) (e : Int) (ds : List Nat) :
    (encode neg e ds).length = (encode neg e ds).mantissa.length + 1 := by
  cases neg <;> rfl

theorem encode_exponent (neg : Bool) {e : Int} (he : InRange e) (ds : List Nat) :
    exponent (encode neg e ds).signExponent = e ∧
      isPositive (encode neg e ds).signExponent = !neg := by
  cases neg with
  | false => exact ⟨(positive_byte he).2, (positive_byte he).1⟩
  | true => exact ⟨(negative_byte he).2, (negative_byte he).1⟩

/-- The first place of an operand with exponent `e₁` beside one with exponent `e₂`. -/
def offset (e₁ e₂ : Int) : Nat := (max e₁ e₂ - e₁).toNat

/-- The number of places that two operands take, at most twenty. -/
def placeCount (e₁ e₂ : Int) (n₁ n₂ : Nat) : Nat :=
  min 20 (max (offset e₁ e₂ + n₁) (offset e₂ e₁ + n₂))

/-- The exponents are not more than 21 apart. -/
def near (e₁ e₂ : Int) : Bool := decide (|e₁ - e₂| ≤ 21)

theorem placeCount_comm (e₁ e₂ : Int) (n₁ n₂ : Nat) :
    placeCount e₁ e₂ n₁ n₂ = placeCount e₂ e₁ n₂ n₁ := by
  unfold placeCount
  rw [max_comm]

theorem near_comm (e₁ e₂ : Int) : near e₁ e₂ = near e₂ e₁ := by
  unfold near
  rw [abs_sub_comm]

/-- An operand ends within the places, unless there are twenty. -/
theorem within_places (e₁ e₂ : Int) (n₁ n₂ : Nat) :
    placeCount e₁ e₂ n₁ n₂ = 20 ∨
      (placeCount e₁ e₂ n₁ n₂ ≤ 20 ∧ offset e₁ e₂ + n₁ ≤ placeCount e₁ e₂ n₁ n₂) := by
  unfold placeCount
  omega

/-- **The layout in terms of the exponents and the numbers of digits.** -/
theorem Layout.eq {o : Operands} {p q : Nat} (h : Layout o p q)
    (hnum : o.longArg.length = o.longArg.mantissa.length + 1)
    (hlong : o.longArg.mantissa.length ≤ 20) :
    let e₁ := exponent o.longArg.signExponent
    let e₂ := exponent o.shortArg.signExponent
    o.sExponent1 = max e₁ e₂ ∧ p = offset e₁ e₂ ∧ q = offset e₂ e₁ ∧
      o.places = placeCount e₁ e₂ o.longArg.mantissa.length o.shortArg.mantissa.length ∧
      (o.longLength - o.longArg.length > lengthMaximum ↔ near e₁ e₂ = false) := by
  intro e₁ e₂
  have h1 := h.longExponent
  have h2 := h.shortExponent
  have h3 := h.first
  have h4 := h.longLength
  have h5 := h.shortLength
  have h6 := h.le
  have hmax : o.sExponent1 = max e₁ e₂ := by omega
  have hp : p = offset e₁ e₂ := by
    unfold offset
    omega
  have hq : q = offset e₂ e₁ := by
    unfold offset
    omega
  refine ⟨hmax, hp, hq, ?_, ?_⟩
  · rw [(h.cutLength hnum).2.2, h4]
    unfold placeCount
    omega
  · unfold near lengthMaximum
    rw [decide_eq_false_iff_not, abs_le, hnum]
    omega

/-! ## §4. Cutting at a place. -/

/-- **A number cut off towards zero below the weight `100ᵖ`.** -/
def cutAt (p : Int) (q : ℚ) : ℚ := trunc (q * (100 : ℚ) ^ (-p)) * (100 : ℚ) ^ p

theorem cutAt_zero (p : Int) : cutAt p 0 = 0 := by
  unfold cutAt
  rw [zero_mul, show trunc 0 = 0 from trunc_intCast 0, Int.cast_zero, zero_mul]

theorem cutAt_sgn (neg : Bool) (p : Int) {q : ℚ} (hq : 0 < q) :
    cutAt p (sgn neg * q) = sgn neg * (⌊q * (100 : ℚ) ^ (-p)⌋ * (100 : ℚ) ^ p) := by
  have hpos : 0 < q * (100 : ℚ) ^ (-p) := by positivity
  unfold cutAt
  rw [mul_assoc, trunc_sgn neg hpos]
  cases neg with
  | false => simp [sgn]
  | true => simp [sgn]

/-- **The places hold the operand**, cut off after the twentieth place. -/
theorem val_places (neg : Bool) {e : Int} {o n : Nat} {ds : List Nat} (h : Mantissa ds)
    (hn : n = 20 ∨ (n ≤ 20 ∧ o + ds.length ≤ n)) :
    cutAt (e + o - 20) (sgn neg * mag 100 e ds) =
      sgn neg * mag 100 (e + o) (spread 0 o ds n) := by
  have hfloor := floor_spread (b := 100) (by norm_num) o h.below 20
  have hmul := mag_mul_zpow (b := 100) (by norm_num) e (20 - (e + o)) ds
  have hexp : e + (20 - (e + o)) = ((20 : Nat) : Int) - o := by
    push_cast
    ring
  have hcut : cutAt (e + o - 20) (sgn neg * mag 100 e ds) =
      sgn neg * mag 100 (e + o) (spread 0 o ds 20) := by
    rw [hexp] at hmul
    push_cast at hmul hfloor
    rw [cutAt_sgn neg _ (h.mag_pos e), show -(e + o - 20) = 20 - (e + o) by ring, hmul, hfloor]
    unfold mag
    rw [spread_length]
    rfl
  rw [hcut]
  rcases hn with rfl | ⟨hle, hfit⟩
  · rfl
  · rw [mag_spread (by norm_num) _ _ (hfit.trans hle), mag_spread (by norm_num) _ _ hfit]

/-- Cutting costs less than one unit of the last place. -/
theorem cutAt_error (neg : Bool) (p : Int) {q : ℚ} (hq : 0 < q) :
    |cutAt p (sgn neg * q) - sgn neg * q| < (100 : ℚ) ^ p := by
  have hp : (0 : ℚ) < (100 : ℚ) ^ p := by positivity
  have hone : (100 : ℚ) ^ (-p) * (100 : ℚ) ^ p = 1 := by
    rw [← zpow_add₀ (by norm_num), neg_add_cancel, zpow_zero]
  have h1 := mul_le_mul_of_nonneg_right (Int.floor_le (q * (100 : ℚ) ^ (-p))) hp.le
  have h2 := mul_lt_mul_of_pos_right (Int.lt_floor_add_one (q * (100 : ℚ) ^ (-p))) hp
  rw [mul_assoc, hone, mul_one] at h1 h2
  rw [cutAt_sgn neg p hq, ← mul_sub, abs_mul,
    show |sgn neg| = 1 by cases neg <;> simp [sgn], one_mul, abs_lt]
  constructor
  · linarith
  · linarith

/-- Nothing is cut off a number that ends within twenty places. -/
theorem cutAt_exact (neg : Bool) {e : Int} {o : Nat} {ds : List Nat} (h : Mantissa ds)
    (hn : o + ds.length ≤ 20) :
    cutAt (e + o - 20) (sgn neg * mag 100 e ds) = sgn neg * mag 100 e ds := by
  have hfit : mag 100 (e + o) (spread 0 o ds 20) = mag 100 (e + o - o) ds :=
    mag_spread (by norm_num) _ _ hn
  rw [val_places neg h (.inl rfl), hfit, add_sub_cancel_right]

/-- The exponent of a value. -/
def exponentOf (v : MtdNumericType) : Int := exponent v.signExponent

/-- **What `addFloat` adds up**: both operands, cut off after the twentieth place. -/
def addendSum (a b : MtdNumericType) : ℚ :=
  cutAt (max (exponentOf a) (exponentOf b) - 20) (value a) +
    cutAt (max (exponentOf a) (exponentOf b) - 20) (value b)

theorem exponentOf_encode (neg : Bool) {e : Int} (he : InRange e) (ds : List Nat) :
    exponentOf (encode neg e ds) = e := (encode_exponent neg he ds).1

theorem exponentOf_zero : exponentOf zero = -64 := by decide

theorem add_offset (e₁ e₂ : Int) : e₁ + (offset e₁ e₂ : Int) = max e₁ e₂ := by
  unfold offset
  omega

end Altibase.Mtc
