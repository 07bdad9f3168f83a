/-
  Altibase.Mtc.Mod
  ────────────────
  **THE REMAINDER.**

  `modFloat` divides digit by digit in an array that has one place in front of
  the twenty digits.  A multiple of the divisor is subtracted as long as the
  first digits say that it fits; the multiple is never too large, so nothing is
  ever added back (`modInner_spec`).  Then the array moves one place to the
  left, until the exponents agree (`modOuter_spec`).

  The array holds the exact remainder in the end.  The loop that looks for its
  last digit, however, stops one place early: a remainder with twenty digits
  loses the last one (`modFloat_spec`).

    * `modFloat_spec` — the result is the remainder cut off after nineteen
      digits;
    * `modFloat_iff` — where it is the remainder.
-/

import Altibase.Mtc.Result
import Altibase.Mtc.Slong

namespace Altibase.Mtc

open Altibase.Lib.Digits

/-! ## §1. The function. -/

/-- The loop that multiplies: `sMantissa3` before its carries.  `cur` is what the
    place has received from the digit to its left. -/
def timesLoop (sMininum : Nat) : Nat → List Nat → List Nat
  | cur, [] => [cur]
  | cur, d :: ds =>
    (cur + d * sMininum / 100) % 256 :: timesLoop sMininum (d * sMininum % 100) ds

/-- The body of the carry loop. -/
def normStep (d c : Nat) : Nat × Nat :=
  if (d + c) % 256 ≥ 100 then (1, (d + c) % 256 - 100) else (0, (d + c) % 256)

/-- `sMantissa3`: the multiple of the divisor. -/
def multiple (sMininum : Nat) (sMantissa2 : List Nat) : List Nat :=
  settle normStep (timesLoop sMininum 0 sMantissa2.tail)

/-- The body of the loop that subtracts. -/
def borrowStep (p : Nat × Nat) (sBorrow : Nat) : Nat × Nat :=
  let m := (p.2 + sBorrow) % 256
  if p.1 < m then (1, uchar (p.1 + 100 - m)) else (0, p.1 - m)

/-- `sMantissa1` less `sMantissa3`. -/
def subtract (sMantissa1 sMantissa3 : List Nat) : List Nat :=
  (carry borrowStep (sMantissa1.zip sMantissa3) 0).2

/-- The inner loop, with `fuel` rounds. -/
def modInner (sMantissa2 : List Nat) : Nat → List Nat → Option (List Nat)
  | 0, _ => none
  | fuel + 1, sMantissa1 =>
    if sMantissa1.getD 0 0 ≠ 0 ∨ sMantissa1.getD 1 0 ≥ sMantissa2.getD 1 0 then
      let sMininum := (sMantissa1.getD 0 0 * 100 + sMantissa1.getD 1 0) /
        (sMantissa2.getD 1 0 + 1)
      if sMininum ≠ 0 then
        modInner sMantissa2 fuel (subtract sMantissa1 (multiple sMininum sMantissa2))
      else if ¬ sMantissa1 < sMantissa2 then some (subtract sMantissa1 sMantissa2)
      else some sMantissa1
    else some sMantissa1

/-- The outer loop, when the dividend's exponent is `gap` above the divisor's. -/
def modOuter (sMantissa2 : List Nat) : Nat → List Nat → Option (List Nat)
  | 0, sMantissa1 => modInner sMantissa2 100 sMantissa1
  | gap + 1, sMantissa1 =>
    (modInner sMantissa2 100 sMantissa1).bind fun m => modOuter sMantissa2 gap (m.tail ++ [0])

/-- What is stored: `sExponent1` is the exponent of the digits after the first
    place of `sMantissa1`. -/
def modStore (neg : Bool) (sExponent1 : Int) (sMantissa1 : List Nat) :
    Except MathError MtdNumericType :=
  let sMantissaStart := 1 + (sMantissa1.tail.takeWhile (· = 0)).length
  let sExponent1 := sExponent1 - ((sMantissaStart : Int) - 1)
  if 63 < sExponent1 then .error .valueOverflow
  else if sExponent1 < -63 ∨ sMantissaStart = sMantissa1.length then .ok zero
  else
    let sMantissa4 := buffer (sMantissa1.drop sMantissaStart)
    .ok (encode neg sExponent1 (sMantissa4.take (usedLength sMantissa4 19 - 1)))

/-- **`modFloat`.**  `none` stands for more than a hundred rounds of a loop. -/
def modFloat : MtdNumericType → MtdNumericType → Option (Except MathError MtdNumericType)
  | .null, _ => some (.ok .null)
  | _, .null => some (.ok .null)
  | _, .num _ [] => some (.error .divideByZero)
  | .num _ [], _ => some (.ok zero)
  | .num se₁ (d₁ :: m₁), .num se₂ (d₂ :: m₂) =>
    let sMantissa1 := 0 :: buffer (digits se₁ (d₁ :: m₁))
    let sMantissa2 := 0 :: buffer (digits se₂ (d₂ :: m₂))
    if exponent se₁ < exponent se₂ then
      some (modStore (!isPositive se₁) (exponent se₁) sMantissa1)
    else
      (modOuter sMantissa2 (exponent se₁ - exponent se₂).toNat sMantissa1).map
        (modStore (!isPositive se₁) (exponent se₂))

/-! ## §2. Multiples and differences. -/

theorem timesLoop_spec {k : Nat} (hk : k < 100) (ds : List Nat) :
    ∀ cur < 100, Below 100 ds →
      (timesLoop k cur ds).length = ds.length + 1 ∧ (∀ d ∈ timesLoop k cur ds, d ≤ 197) ∧
      val 100 (timesLoop k cur ds) = cur * 100 ^ ds.length + val 100 ds * k := by
  induction ds with
  | nil =>
    intro cur hcur _
    refine ⟨rfl, ?_, ?_⟩
    · intro d hd
      rw [timesLoop, List.mem_singleton] at hd
      omega
    · rw [timesLoop, val_singleton, val_nil]
      simp
  | cons d ds ih =>
    intro cur hcur h
    obtain ⟨hd, hds⟩ := Below.cons_iff.mp h
    obtain ⟨hlen, hle, hval⟩ := ih (d * k % 100) (Nat.mod_lt _ (by norm_num)) hds
    have hprod : d * k ≤ 9801 := by
      have := Nat.mul_le_mul (show d ≤ 99 by omega) (show k ≤ 99 by omega)
      omega
    -- a place holds at most 99 and the upper part of a product, so the byte does not wrap
    have hbyte : (cur + d * k / 100) % 256 = cur + d * k / 100 := by
      apply Nat.mod_eq_of_lt
      omega
    unfold timesLoop
    rw [hbyte]
    refine ⟨by rw [List.length_cons, hlen, List.length_cons], ?_, ?_⟩
    · intro x hx
      rcases List.mem_cons.mp hx with rfl | hx
      · omega
      · exact hle x hx
    · have hdiv : d * k = d * k / 100 * 100 + d * k % 100 := by omega
      rw [val_cons, hval, hlen, val_cons, List.length_cons, pow_succ]
      calc (cur + d * k / 100) * (100 ^ ds.length * 100) +
            (d * k % 100 * 100 ^ ds.length + val 100 ds * k)
          = cur * (100 ^ ds.length * 100) +
            ((d * k / 100 * 100 + d * k % 100) * 100 ^ ds.length + val 100 ds * k) := by ring
        _ = cur * (100 ^ ds.length * 100) + (d * 100 ^ ds.length + val 100 ds) * k := by
          rw [← hdiv]
          ring

theorem normStep_spec (d c : Nat) (hd : d ≤ 197) (hc : c ≤ 1) :
    (normStep d c).1 ≤ 1 ∧ (normStep d c).1 * 100 + (normStep d c).2 = d + c := by
  have hbyte : (d + c) % 256 = d + c := Nat.mod_eq_of_lt (by omega)
  unfold normStep
  rw [hbyte]
  split_ifs with h
  · exact ⟨le_rfl, by omega⟩
  · exact ⟨Nat.zero_le _, by omega⟩

theorem normStep_lt (d c : Nat) (hd : d ≤ 197) (hc : c ≤ 1) : (normStep d c).2 < 100 := by
  have hbyte : (d + c) % 256 = d + c := Nat.mod_eq_of_lt (by omega)
  unfold normStep
  rw [hbyte]
  split_ifs with h
  · show d + c - 100 < 100
    omega
  · show d + c < 100
    omega

/-- **The multiple of the divisor.** -/
theorem multiple_spec {k : Nat} (hk : k < 100) {ds : List Nat} (h : Below 100 ds) :
    Below 100 (multiple k (0 :: ds)) ∧ (multiple k (0 :: ds)).length = ds.length + 1 ∧
      val 100 (multiple k (0 :: ds)) = val 100 (0 :: ds) * k := by
  obtain ⟨hlen, hle, hval⟩ := timesLoop_spec hk ds 0 (by norm_num) h
  have hkeep : val 100 (multiple k (0 :: ds)) = val 100 (timesLoop k 0 ds) :=
    val_settle 100 (C := (· ≤ 1)) normStep_spec hle (Nat.zero_le _)
  have hprod : val 100 (multiple k (0 :: ds)) = val 100 (0 :: ds) * k := by
    rw [hkeep, hval, val_cons]
    ring
  have hfit : val 100 (multiple k (0 :: ds)) < 100 ^ (timesLoop k 0 ds).length := by
    rw [hprod, hlen, val_cons, zero_mul, zero_add, pow_succ]
    exact Nat.mul_lt_mul'' (val_lt h) hk
  have htail : ∀ d ∈ (timesLoop k 0 ds).tail, d ≤ 197 :=
    fun d hd => hle d (List.mem_of_mem_tail hd)
  have hrest := (carry_spec (C := (· ≤ 1)) (P := (· < 100))
    (fun d c hd hc => ⟨(normStep_spec d c hd hc).1, normStep_lt d c hd hc⟩)
    _ htail (Nat.zero_le _)).2
  exact ⟨settle_below hrest hfit, (settle_length _).trans hlen, hprod⟩

theorem borrowStep_spec (p : Nat × Nat) (c : Nat) (hp : p.1 < 100 ∧ p.2 < 100) (hc : c ≤ 1) :
    (borrowStep p c).1 ≤ 1 ∧ -((borrowStep p c).1 : Int) * 100 + ((borrowStep p c).2 : Int) =
      ((p.1 : Int) - p.2) + -(c : Int) := by
  have hbyte : (p.2 + c) % 256 = p.2 + c := Nat.mod_eq_of_lt (by omega)
  unfold borrowStep
  simp only [hbyte]
  split_ifs with h
  · have hu := uchar_of_range (i := (p.1 : Int) + 100 - ((p.2 + c : Nat) : Int))
      (by omega) (by omega)
    refine ⟨le_rfl, ?_⟩
    show -((1 : Nat) : Int) * 100 + (uchar _ : Int) = _
    rw [hu]
    push_cast
    ring
  · refine ⟨Nat.zero_le _, ?_⟩
    show -((0 : Nat) : Int) * 100 + ((p.1 - (p.2 + c) : Nat) : Int) = _
    push_cast [Nat.cast_sub (not_lt.mp h)]
    ring

theorem borrowStep_lt (p : Nat × Nat) (c : Nat) (hp : p.1 < 100 ∧ p.2 < 100) (hc : c ≤ 1) :
    (borrowStep p c).2 < 100 := by
  have h := (borrowStep_spec p c hp hc).2
  have h1 := (borrowStep_spec p c hp hc).1
  by_contra hge
  have hbyte : (p.2 + c) % 256 = p.2 + c := Nat.mod_eq_of_lt (by omega)
  unfold borrowStep at h hge
  simp only [hbyte] at h hge
  split_ifs at h hge with hlt
  · simp only at h hge
    omega
  · simp only at h hge
    omega

/-- **The difference**, where it is not negative. -/
theorem subtract_spec {xs ys : List Nat} (hx : Below 100 xs) (hy : Below 100 ys)
    (hlen : xs.length = ys.length) (hle : val 100 ys ≤ val 100 xs) :
    Below 100 (subtract xs ys) ∧ (subtract xs ys).length = xs.length ∧
      val 100 (subtract xs ys) + val 100 ys = val 100 xs := by
  have hpairs : ∀ p ∈ xs.zip ys, p.1 < 100 ∧ p.2 < 100 := by
    intro p hp
    have hmem := List.of_mem_zip hp
    exact ⟨hx _ hmem.1, hy _ hmem.2⟩
  obtain ⟨hb, hdig⟩ := carry_spec (C := (· ≤ 1)) (P := (· < 100))
    (fun p c hp hc => ⟨(borrowStep_spec p c hp hc).1, borrowStep_lt p c hp hc⟩)
    (xs.zip ys) hpairs (Nat.zero_le 1)
  have hval := val_carry_map (100 : Int) (C := (· ≤ 1)) (k := fun c : Nat => -(c : Int))
    (r := fun d : Nat => (d : Int)) (w := fun p : Nat × Nat => (p.1 : Int) - p.2)
    borrowStep_spec (xs.zip ys) hpairs (Nat.zero_le 1)
  have hl : (subtract xs ys).length = xs.length := by
    unfold subtract
    rw [carry_length, List.length_zip, hlen, min_self]
  have hcast : ((val 100 (subtract xs ys) : Nat) : Int) =
      val 100 ((subtract xs ys).map Nat.cast) := val_cast 100 _
  have hsub := val_zip_sub (100 : Int) (fun d : Nat => (d : Int)) (fun d : Nat => (d : Int)) hlen
  have hx' : ((val 100 xs : Nat) : Int) = val 100 (xs.map Nat.cast) := val_cast 100 _
  have hy' : ((val 100 ys : Nat) : Int) = val 100 (ys.map Nat.cast) := val_cast 100 _
  rw [hsub, ← hx', ← hy', List.length_zip, hlen, min_self] at hval
  have hlt := val_lt hdig
  rw [carry_length, List.length_zip, hlen, min_self] at hlt
  unfold subtract at hcast ⊢
  rw [← hcast] at hval
  refine ⟨hdig, hl, ?_⟩
  -- A borrow that is left would make the difference negative.
  generalize (carry borrowStep (xs.zip ys) 0).1 = borrow at hb hval
  have hpow : ((100 ^ ys.length : Nat) : Int) = 100 ^ ys.length := by push_cast; rfl
  rw [← hpow] at hval
  rcases Nat.le_one_iff_eq_zero_or_eq_one.mp hb with rfl | rfl
  · omega
  · omega

/-! ## §3. The loops. -/

section Loops

variable {y : Nat} {ys : List Nat}

/-- **One round**: the first digits never promise too much, and they promise
    something unless the dividend is less than twice the divisor. -/
theorem mininum_spec {x₀ x₁ : Nat} {xs : List Nat}
    (hy : Below 100 (y :: ys)) (hlen : xs.length = ys.length)
    (hlt : val 100 (x₀ :: x₁ :: xs) < 100 * val 100 (y :: ys)) :
    (x₀ * 100 + x₁) / (y + 1) < 100 ∧
    val 100 (y :: ys) * ((x₀ * 100 + x₁) / (y + 1)) ≤ val 100 (x₀ :: x₁ :: xs) ∧
    ((x₀ * 100 + x₁) / (y + 1) = 0 → x₀ = 0 ∧ x₁ ≤ y) := by
  obtain ⟨hy0, hys⟩ := Below.cons_iff.mp hy
  have hv := val_lt hys
  have hx' : val 100 (x₀ :: x₁ :: xs) = (x₀ * 100 + x₁) * 100 ^ ys.length + val 100 xs := by
    rw [val_cons, val_cons, List.length_cons, hlen, pow_succ]
    ring
  have hy' : val 100 (y :: ys) = y * 100 ^ ys.length + val 100 ys := val_cons ..
  have hdiv := Nat.div_mul_le_self (x₀ * 100 + x₁) (y + 1)
  have hle : val 100 (y :: ys) ≤ (y + 1) * 100 ^ ys.length := by
    rw [hy', Nat.succ_mul]
    omega
  refine ⟨?_, ?_, ?_⟩
  · apply Nat.div_lt_of_lt_mul
    have hbound : (x₀ * 100 + x₁) * 100 ^ ys.length < ((y + 1) * 100) * 100 ^ ys.length := by
      calc (x₀ * 100 + x₁) * 100 ^ ys.length ≤ val 100 (x₀ :: x₁ :: xs) := by omega
        _ < 100 * val 100 (y :: ys) := hlt
        _ ≤ 100 * ((y + 1) * 100 ^ ys.length) := Nat.mul_le_mul_left _ hle
        _ = ((y + 1) * 100) * 100 ^ ys.length := by ring
    exact Nat.lt_of_mul_lt_mul_right hbound
  · calc val 100 (y :: ys) * ((x₀ * 100 + x₁) / (y + 1))
        ≤ (y + 1) * 100 ^ ys.length * ((x₀ * 100 + x₁) / (y + 1)) := Nat.mul_le_mul_right _ hle
      _ = (x₀ * 100 + x₁) / (y + 1) * (y + 1) * 100 ^ ys.length := by ring
      _ ≤ (x₀ * 100 + x₁) * 100 ^ ys.length := Nat.mul_le_mul_right _ hdiv
      _ ≤ val 100 (x₀ :: x₁ :: xs) := by omega
  · intro h0
    have hlt' : x₀ * 100 + x₁ < y + 1 :=
      (Nat.div_eq_zero_iff_lt (Nat.succ_pos y)).mp h0
    omega

/-- **The inner loop computes a remainder**, in no more rounds than the quotient
    counts. -/
theorem modInner_spec (hy0 : y ≠ 0) (hy : Below 100 (y :: ys)) (fuel : Nat) :
    ∀ m, Below 100 m → m.length = ys.length + 2 → val 100 m < fuel * val 100 (y :: ys) →
      val 100 m < 100 * val 100 (y :: ys) →
      ∃ r, modInner (0 :: y :: ys) fuel m = some r ∧ Below 100 r ∧ r.length = ys.length + 2 ∧
        val 100 r = val 100 m % val 100 (y :: ys) := by
  have hm2 : val 100 (0 :: y :: ys) = val 100 (y :: ys) := by
    rw [val_cons, zero_mul, zero_add]
  have hbelow2 : Below 100 (0 :: y :: ys) := Below.cons_iff.mpr ⟨by norm_num, hy⟩
  have hfirst := le_val (b := 100) ys hy0
  have hpos : 0 < val 100 (y :: ys) := lt_of_lt_of_le (Nat.pow_pos (by norm_num)) hfirst
  induction fuel with
  | zero =>
    intro m _ _ hlt _
    omega
  | succ fuel ih =>
    intro m hm hlen hfuel hlt
    obtain ⟨x₀, m, rfl⟩ := List.exists_cons_of_length_eq_add_one hlen
    obtain ⟨x₁, xs, rfl⟩ := List.exists_cons_of_length_eq_add_one
      (show m.length = ys.length + 1 by simpa using hlen)
    have hl : xs.length = ys.length := by simpa using hlen
    obtain ⟨hest, hfits, hsmall⟩ := mininum_spec hy hl hlt
    have hxv := val_lt ((Below.cons_iff.mp (Below.cons_iff.mp hm).2).2)
    rw [hl] at hxv
    have hy' : val 100 (y :: ys) = y * 100 ^ ys.length + val 100 ys := val_cons ..
    have hx' : val 100 (x₀ :: x₁ :: xs) = (x₀ * 100 + x₁) * 100 ^ ys.length + val 100 xs := by
      rw [val_cons, val_cons, List.length_cons, hl, pow_succ]
      ring
    unfold modInner
    simp only [List.getD_cons_zero, List.getD_cons_succ]
    split_ifs with hcond hnz hge
    · -- A multiple of the divisor is taken off.
      obtain ⟨hmb, hml, hmv⟩ := multiple_spec hest hy
      rw [hm2] at hmv
      have hk : 1 ≤ (x₀ * 100 + x₁) / (y + 1) := Nat.one_le_iff_ne_zero.mpr hnz
      generalize (x₀ * 100 + x₁) / (y + 1) = k at *
      obtain ⟨hsb, hsl, hsv⟩ := subtract_spec hm hmb (by rw [hml, hlen, List.length_cons])
        (by rw [hmv]; exact hfits)
      rw [hmv] at hsv
      have hstep : val 100 (y :: ys) * 1 ≤ val 100 (y :: ys) * k := Nat.mul_le_mul_left _ hk
      rw [Nat.succ_mul] at hfuel
      obtain ⟨r, hrun, hrb, hrl, hrv⟩ := ih _ hsb (hsl.trans hlen) (by omega) (by omega)
      refine ⟨r, hrun, hrb, hrl, ?_⟩
      rw [hrv, ← hsv, Nat.add_mul_mod_self_left]
    · -- The first digits agree, and the divisor does not fit.
      rw [lt_iff_val_lt hm hbelow2 (by simp [hl]), hm2] at hge
      exact ⟨_, rfl, hm, hlen, (Nat.mod_eq_of_lt hge).symm⟩
    · -- The first digits agree, and the divisor fits once.
      rw [not_not] at hnz
      obtain ⟨rfl, h1⟩ := hsmall hnz
      obtain rfl : x₁ = y := by omega
      rw [lt_iff_val_lt hm hbelow2 (by simp [hl]), hm2, not_lt] at hge
      obtain ⟨hsb, hsl, hsv⟩ := subtract_spec hm hbelow2 (by simp [hl]) (by rw [hm2]; exact hge)
      rw [hm2] at hsv
      refine ⟨_, rfl, hsb, hsl.trans hlen, ?_⟩
      rw [Nat.mod_eq_sub_mod hge, Nat.mod_eq_of_lt]
      · omega
      · rw [zero_mul, zero_add] at hx'
        omega
    · -- The first digit is less than that of the divisor.
      rw [not_or, not_not, not_le] at hcond
      obtain ⟨rfl, h1⟩ := hcond
      refine ⟨_, rfl, hm, hlen, (Nat.mod_eq_of_lt ?_).symm⟩
      have := Nat.mul_le_mul_right (100 ^ ys.length) (Nat.succ_le_of_lt h1)
      rw [Nat.succ_mul] at this
      rw [zero_mul, zero_add] at hx'
      omega

/-- A remainder leaves the first place free. -/
theorem first_free {r₀ : Nat} {t : List Nat} (hlen : t.length = (y :: ys).length)
    (hy : Below 100 (y :: ys)) (hlt : val 100 (r₀ :: t) < val 100 (y :: ys)) : r₀ = 0 := by
  by_contra h0
  have h1 := le_val (b := 100) t h0
  have h2 := val_lt hy
  rw [hlen] at h1
  omega

/-- **Both loops.** -/
theorem modOuter_spec (hy0 : y ≠ 0) (hy : Below 100 (y :: ys)) (gap : Nat) :
    ∀ m, Below 100 m → m.length = ys.length + 2 → val 100 m < 100 * val 100 (y :: ys) →
      ∃ r, modOuter (0 :: y :: ys) gap m = some r ∧ Below 100 r ∧ r.length = ys.length + 2 ∧
        val 100 r = val 100 m * 100 ^ gap % val 100 (y :: ys) := by
  have hpos : 0 < val 100 (y :: ys) :=
    lt_of_lt_of_le (Nat.pow_pos (by norm_num)) (le_val (b := 100) ys hy0)
  induction gap with
  | zero =>
    intro m hm hlen hlt
    obtain ⟨r, hrun, hrb, hrl, hrv⟩ := modInner_spec hy0 hy 100 m hm hlen hlt hlt
    exact ⟨r, hrun, hrb, hrl, by rw [hrv, pow_zero, mul_one]⟩
  | succ gap ih =>
    intro m hm hlen hlt
    obtain ⟨r, hrun, hrb, hrl, hrv⟩ := modInner_spec hy0 hy 100 m hm hlen hlt hlt
    have hrlt : val 100 r < val 100 (y :: ys) := by
      rw [hrv]
      exact Nat.mod_lt _ hpos
    obtain ⟨r₀, t, rfl⟩ := List.exists_cons_of_length_eq_add_one hrl
    obtain ⟨-, htb⟩ := Below.cons_iff.mp hrb
    have htl : t.length = ys.length + 1 := by simpa using hrl
    obtain rfl : r₀ = 0 := first_free htl hy hrlt
    have hval : val 100 (t ++ [0]) = val 100 (0 :: t) * 100 := by
      rw [val_concat, val_cons, zero_mul, zero_add, add_zero]
    obtain ⟨r', hrun', hrb', hrl', hrv'⟩ := ih (t ++ [0])
      (htb.append (Below.zeros (by norm_num) 1)) (by simp [htl]) (by rw [hval]; omega)
    refine ⟨r', ?_, hrb', hrl', ?_⟩
    · unfold modOuter
      rw [hrun]
      exact hrun'
    · rw [hrv', hval, hrv, mul_assoc, ← pow_succ', Nat.mod_mul_mod]

end Loops

/-! ## §4. What is stored. -/

/-- **A remainder that is stored**: zero where it is zero or too small, and
    otherwise its first nineteen digits. -/
def IsCutRemainder (w : MtdNumericType) (neg : Bool) (q : ℚ) : Prop :=
  if q = 0 ∨ expo 100 q < -63 then w = zero
  else Canonical w ∧ value w = sgn neg * cut 100 19 q

theorem modStore_spec (neg : Bool) {e : Int} (he : e ≤ 63) {t : List Nat} (ht : Below 100 t)
    (hlen : t.length = 20) :
    ∃ w, modStore neg e (0 :: t) = .ok w ∧ IsCutRemainder w neg (mag 100 e t) := by
  have hsplit := List.takeWhile_append_dropWhile (p := fun x : Nat => decide (x = 0)) (l := t)
  have hlens := congrArg List.length hsplit
  rw [List.length_append, hlen] at hlens
  have hmag := mag_dropWhile (b := 100) (by norm_num) e t
  have hdrop := drop_takeWhile (fun x : Nat => decide (x = 0)) t
  have hbelow := below_dropWhile ht
  have hhead := dropWhile_head t
  unfold modStore IsCutRemainder
  simp only [List.tail_cons, List.length_cons, hlen, Nat.add_comm 1, List.drop_succ_cons]
  generalize (t.takeWhile (fun x : Nat => decide (x = 0))).length = k at *
  rw [hdrop, ← hmag]
  cases hd : t.dropWhile (fun x : Nat => decide (x = 0)) with
  | nil =>
    rw [hd, List.length_nil] at hlens
    rw [mag_nil, if_neg (by omega), if_pos (.inr (by omega))]
    refine ⟨_, rfl, ?_⟩
    rw [if_pos (.inl rfl)]
  | cons d ds =>
    rw [hd] at hhead hbelow hlens
    rw [List.length_cons] at hlens
    have hd0 : d ≠ 0 := by simpa using hhead
    have hexpo : expo 100 (mag 100 (e - k) (d :: ds)) = e - k :=
      expo_mag (by norm_num) _ hd0 hbelow
    have hpos : mag 100 (e - k) (d :: ds) ≠ 0 := by
      have h1 := le_mag (b := 100) (by norm_num) (e - k) ds hd0
      have h2 : (0 : ℚ) < ((100 : Nat) : ℚ) ^ (e - k - 1) := by positivity
      linarith
    have hexp : e - (((k + 1 : Nat) : Int) - 1) = e - k := by
      push_cast
      ring
    rw [hexp, if_neg (by omega), hexpo]
    rcases lt_or_ge (e - k) (-63) with hlow | hlow
    · rw [if_pos (.inl hlow)]
      refine ⟨_, rfl, ?_⟩
      rw [if_pos (.inr hlow)]
    · have hstart : ¬ (e - k < -63 ∨ k + 1 = 20 + 1) := by omega
      have hzero : ¬ (mag 100 (e - k) (d :: ds) = 0 ∨ e - k < -63) := by
        rintro (h | h)
        · exact hpos h
        · omega
      rw [if_neg hstart]
      -- The digits that the last loop finds.
      have hkept : (buffer (d :: ds)).take (usedLength (buffer (d :: ds)) 19 - 1) =
          ((d :: ds).take 19).rdropWhile (· = 0) := by
        rw [take_usedLength]
        unfold buffer
        rw [List.take_append, List.take_replicate, rdropWhile_append_zeros]
      have hcut : cut 100 19 (mag 100 (e - k) (d :: ds)) =
          mag 100 (e - k) (((d :: ds).take 19).rdropWhile (· = 0)) := by
        rw [cut_mag (by norm_num) _ _ hd0 hbelow, mag_rdropWhile (by norm_num)]
      have hm : Mantissa (((d :: ds).take 19).rdropWhile (· = 0)) := by
        have hb19 : Below 100 ((d :: ds).take 19) := hbelow.take 19
        refine ⟨stripped_rdropWhile (by norm_num : 0 < 100) (by simpa using hd0) ?_,
          below_rdropWhile hb19, ?_⟩
        · rw [List.take_succ_cons, val_cons]
          have : 0 < d * 100 ^ (ds.take 18).length := by positivity
          omega
        · have h1 := (List.rdropWhile_prefix (fun x : Nat => decide (x = 0))
            ((d :: ds).take 19)).length_le
          rw [List.length_take] at h1
          unfold mantissaMaximum
          omega
      refine ⟨_, rfl, ?_⟩
      rw [if_neg hzero, hkept, hcut]
      exact ⟨.encode neg _ _ hm ⟨hlow, by omega⟩, value_encode neg ⟨hlow, by omega⟩ hm.below⟩

/-! ## §5. The remainder. -/

/-- What is left of `x` after as many `y` as fit are taken off, towards zero. -/
def remainder (x y : ℚ) : ℚ := x - trunc (x / y) * y

/-- The remainder has the sign of the dividend. -/
theorem remainder_sgn (s t : Bool) {x y : ℚ} (hx : 0 < x) (hy : 0 < y) :
    remainder (sgn s * x) (sgn t * y) = sgn s * (x - ⌊x / y⌋ * y) := by
  have hst : sgn s * x / (sgn t * y) = sgn (s != t) * (x / y) := by
    have ht : sgn t ≠ 0 := by cases t <;> norm_num [sgn]
    rw [sgn_xor]
    have h1 := sgn_mul_self t
    field_simp
    rw [pow_two, h1]
    ring
  have htrunc : (trunc (sgn (s != t) * (x / y)) : ℚ) = sgn (s != t) * ⌊x / y⌋ := by
    rw [trunc_sgn _ (div_pos hx hy)]
    cases (s != t) <;> simp [sgn]
  unfold remainder
  rw [hst, htrunc, sgn_xor]
  calc sgn s * x - sgn s * sgn t * ⌊x / y⌋ * (sgn t * y)
      = sgn s * x - sgn s * (sgn t * sgn t) * ⌊x / y⌋ * y := by ring
    _ = sgn s * (x - ⌊x / y⌋ * y) := by
      rw [sgn_mul_self]
      ring

theorem remainder_bounds {x y : ℚ} (hy : 0 < y) :
    0 ≤ x - ⌊x / y⌋ * y ∧ x - ⌊x / y⌋ * y < y := by
  have h1 := Int.floor_le (x / y)
  have h2 := Int.lt_floor_add_one (x / y)
  rw [le_div_iff₀ hy] at h1
  rw [div_lt_iff₀ hy] at h2
  constructor
  · linarith
  · linarith

/-- In units of one place the remainder is that of two natural numbers. -/
theorem remainder_nat (n m : Nat) {u : ℚ} (hu : 0 < u) :
    (n : ℚ) * u - ⌊(n : ℚ) * u / (m * u)⌋ * (m * u) = ((n % m : Nat) : ℚ) * u := by
  have hdiv : (n : ℚ) * u / (m * u) = (n : ℚ) / m := mul_div_mul_right _ _ hu.ne'
  have hmod : (m : ℚ) * ((n / m : Nat) : ℚ) + ((n % m : Nat) : ℚ) = n := by
    exact_mod_cast Nat.div_add_mod n m
  have hfloor : ((⌊(n : ℚ) / m⌋ : Int) : ℚ) = ((n / m : Nat) : ℚ) := by
    rw [Rat.floor_natCast_div_natCast]
    norm_cast
  rw [hdiv, hfloor, ← hmod]
  ring

/-- Numbers with twenty digits, in units of the last one. -/
theorem mag_eq_unit {ds : List Nat} (e e' : Int) (h : ds.length = 20) (n : Nat)
    (hn : (n : Int) = e - e') :
    mag 100 e ds = ((val 100 ds * 100 ^ n : Nat) : ℚ) * (100 : ℚ) ^ (e' - 20) := by
  unfold mag
  rw [h]
  push_cast
  rw [mul_assoc, ← zpow_natCast (100 : ℚ) n, ← zpow_add₀ (by norm_num)]
  congr 2
  omega

/-- A dividend with the smaller exponent is its own remainder. -/
theorem remainder_small {e₁ e₂ : Int} {xs ys : List Nat} (hxs : Mantissa xs) (hys : Mantissa ys)
    (hlt : e₁ < e₂) : ⌊mag 100 e₁ xs / mag 100 e₂ ys⌋ = 0 := by
  have hy := hys.mag_pos e₂
  have h1 := mag_lt (b := 100) (by norm_num) e₁ hxs.below
  have h2 := (hys.toStripped.bounds (b := 100) (by norm_num) e₂ hys.below).1
  have h3 : ((100 : Nat) : ℚ) ^ e₁ ≤ ((100 : Nat) : ℚ) ^ (e₂ - 1) :=
    zpow_le_zpow_right₀ (by norm_num) (by omega)
  rw [Int.floor_eq_zero_iff]
  exact ⟨div_nonneg (mag_nonneg _ _) hy.le, (div_lt_one hy).mpr (by linarith)⟩

/-- **The loops leave the remainder of the two numbers.** -/
theorem modOuter_remainder {e₁ e₂ : Int} {xs ys : List Nat} (hxs : Mantissa xs)
    (hys : Mantissa ys) (hle : e₂ ≤ e₁) :
    ∃ r, modOuter (0 :: buffer ys) (e₁ - e₂).toNat (0 :: buffer xs) = some (0 :: r) ∧
      Below 100 r ∧ r.length = 20 ∧
      mag 100 e₂ r =
        mag 100 e₁ xs - ⌊mag 100 e₁ xs / mag 100 e₂ ys⌋ * mag 100 e₂ ys := by
  obtain ⟨gap, hgap⟩ := Int.eq_ofNat_of_zero_le (show 0 ≤ e₁ - e₂ by omega)
  have hlx : (buffer xs).length = 20 := buffer_length hxs.length_le
  have hly : (buffer ys).length = 20 := buffer_length hys.length_le
  have hbelx := buffer_below hxs.below
  have hbely := buffer_below hys.below
  -- both numbers in units of the last place of the divisor
  have hx := mag_eq_unit e₁ e₂ hlx gap hgap.symm
  have hy := mag_eq_unit e₂ e₂ hly 0 (by simp)
  rw [mag_buffer] at hx hy
  rw [pow_zero, mul_one] at hy
  rw [hx, hy, hgap, Int.toNat_natCast]
  obtain ⟨y, ys', hcons⟩ : ∃ y ys', buffer ys = y :: ys' :=
    List.exists_cons_of_length_eq_add_one hly
  have hy0 : y ≠ 0 := by
    obtain ⟨d, ds, rfl⟩ := List.exists_cons_of_ne_nil hys.ne
    obtain ⟨rfl, -⟩ := List.cons.inj hcons
    exact hys.head_ne
  rw [hcons] at hbely hly ⊢
  have hl' : ys'.length = 19 := Nat.succ.inj hly
  have hxlt := val_lt hbelx
  have hyge := le_val (b := 100) ys' hy0
  rw [hlx] at hxlt
  rw [hl'] at hyge
  have hzero : val 100 (0 :: buffer xs) = val 100 (buffer xs) := by
    rw [val_cons, zero_mul, zero_add]
  obtain ⟨r, hrun, hrb, hrl, hrv⟩ := modOuter_spec hy0 hbely gap (0 :: buffer xs)
    (Below.cons_iff.mpr ⟨by norm_num, hbelx⟩) (by simp [hlx, hl']) (by omega)
  rw [hzero] at hrv
  -- the remainder is below the divisor, so its extra place is empty
  have hrlt : val 100 r < val 100 (y :: ys') := by
    rw [hrv]
    exact Nat.mod_lt _ (by omega)
  obtain ⟨r₀, r, rfl⟩ := List.exists_cons_of_length_eq_add_one hrl
  obtain ⟨-, hrb'⟩ := Below.cons_iff.mp hrb
  have hrl' : r.length = 20 := by
    rw [List.length_cons, hl'] at hrl
    omega
  obtain rfl : r₀ = 0 := first_free (hrl'.trans hly.symm) hbely hrlt
  refine ⟨r, hrun, hrb', hrl', ?_⟩
  rw [val_cons, zero_mul, zero_add] at hrv
  have hr := mag_eq_unit e₂ e₂ hrl' 0 (by simp)
  rw [pow_zero, mul_one, hrv] at hr
  rw [hr]
  exact (remainder_nat _ _ (by positivity)).symm

/-- **`modFloat` computes the remainder and keeps nineteen digits of it.** -/
theorem modFloat_spec (s t : Bool) {e₁ e₂ : Int} {xs ys : List Nat} (he₁ : InRange e₁)
    (he₂ : InRange e₂) (hxs : Mantissa xs) (hys : Mantissa ys) :
    ∃ q w, 0 ≤ q ∧ q < mag 100 e₂ ys ∧
      remainder (value (encode s e₁ xs)) (value (encode t e₂ ys)) = sgn s * q ∧
      modFloat (encode s e₁ xs) (encode t e₂ ys) = some (.ok w) ∧ IsCutRemainder w s q := by
  have hy := hys.mag_pos e₂
  have hrem := remainder_sgn s t (hxs.mag_pos e₁) hy
  obtain ⟨hnonneg, hless⟩ := remainder_bounds (x := mag 100 e₁ xs) hy
  rw [← value_encode s he₁ hxs.below, ← value_encode t he₂ hys.below] at hrem
  obtain ⟨se₁, a₁, m₁, heq₁, hp₁, hx₁, hd₁⟩ := encode_cons s he₁ hxs
  obtain ⟨se₂, a₂, m₂, heq₂, hp₂, hx₂, hd₂⟩ := encode_cons t he₂ hys
  rw [heq₁, heq₂] at hrem ⊢
  unfold modFloat
  simp only [hd₁, hd₂, hx₁, hx₂, hp₁, Bool.not_not]
  rcases lt_or_ge e₁ e₂ with hlt | hge
  · obtain ⟨w, hw, hcut⟩ := modStore_spec s he₁.2 (buffer_below hxs.below)
      (buffer_length hxs.length_le)
    rw [if_pos hlt, hw]
    refine ⟨_, w, hnonneg, hless, hrem, rfl, ?_⟩
    rw [remainder_small hxs hys hlt, Int.cast_zero, zero_mul, sub_zero]
    rwa [mag_buffer] at hcut
  · obtain ⟨r, hrun, hrb, hrl, hrv⟩ := modOuter_remainder hxs hys hge
    obtain ⟨w, hw, hcut⟩ := modStore_spec s he₂.2 hrb hrl
    rw [if_neg (not_lt.mpr hge), hrun, Option.map_some, hw]
    refine ⟨_, w, hnonneg, hless, hrem, rfl, ?_⟩
    rwa [hrv] at hcut

/-- **The result of `modFloat` on `a` and `b`**: the exact remainder, less than the
    divisor and with the sign of the dividend. -/
structure IsRemainder (w a b : MtdNumericType) : Prop where
  canonical : Canonical w
  exact : value w = value a - trunc (value a / value b) * value b
  small : |value w| < |value b|
  sign : value w = 0 ∨ 0 < value w * value a

/-- **Where it is**: the remainder is zero, or it has no more than nineteen digits
    and an exponent that can be stored. -/
def RemainderFits (r : ℚ) : Prop := r = 0 ∨ -63 ≤ expo 100 |r| ∧ cut 100 19 |r| = |r|

theorem sgn_mul_eq_zero (neg : Bool) {q : ℚ} : sgn neg * q = 0 ↔ q = 0 := by
  cases neg <;> simp [sgn]

theorem sgn_mul_inj (neg : Bool) {p q : ℚ} : sgn neg * p = sgn neg * q ↔ p = q := by
  cases neg <;> simp [sgn]

/-- A remainder that is stored exactly is all that was asked for. -/
theorem isRemainder_of_exact {s t : Bool} {e₁ e₂ : Int} {xs ys : List Nat} (he₁ : InRange e₁)
    (he₂ : InRange e₂) (hxs : Mantissa xs) (hys : Mantissa ys) {w : MtdNumericType} {q : ℚ}
    (hq : 0 ≤ q) (hlt : q < mag 100 e₂ ys) (hw : Canonical w) (hvalue : value w = sgn s * q)
    (hrem : remainder (value (encode s e₁ xs)) (value (encode t e₂ ys)) = sgn s * q) :
    IsRemainder w (encode s e₁ xs) (encode t e₂ ys) := by
  have hx := hxs.mag_pos e₁
  have hy := hys.mag_pos e₂
  constructor
  · exact hw
  · rw [hvalue, ← hrem]
    rfl
  · rw [hvalue, value_encode t he₂ hys.below, abs_sgn t hy]
    rcases hq.eq_or_lt with rfl | hpos
    · rwa [mul_zero, abs_zero]
    · rwa [abs_sgn s hpos]
  · rw [hvalue, value_encode s he₁ hxs.below]
    rcases hq.eq_or_lt with rfl | hpos
    · left
      exact mul_zero _
    · right
      calc (0 : ℚ) < q * mag 100 e₁ xs := mul_pos hpos hx
        _ = (sgn s * sgn s) * (q * mag 100 e₁ xs) := by rw [sgn_mul_self, one_mul]
        _ = sgn s * q * (sgn s * mag 100 e₁ xs) := by ring

/-- **The remainder is right exactly where it is zero, or has at most nineteen
    digits and no exponent below -63.** -/
theorem modFloat_iff {a b : MtdNumericType} (ha : Canonical a) (hb : Canonical b)
    (hne : value b ≠ 0) :
    (∃ w, modFloat a b = some (.ok w) ∧ IsRemainder w a b) ↔
      RemainderFits (value a - trunc (value a / value b) * value b) := by
  cases hb with
  | zero => exact absurd value_zero hne
  | encode t e₂ ys hys he₂ =>
    cases ha with
    | zero =>
      have htrunc : trunc (value zero / value (encode t e₂ ys)) = 0 := by
        rw [value_zero, zero_div]
        exact trunc_intCast 0
      rw [htrunc, value_zero, Int.cast_zero, zero_mul, sub_zero]
      refine ⟨fun _ => .inl rfl, fun _ => ⟨zero, ?_, ?_⟩⟩
      · obtain ⟨se, d, m, heq, -⟩ := encode_cons t he₂ hys
        rw [heq]
        rfl
      · constructor
        · exact .zero
        · rw [htrunc, value_zero, Int.cast_zero, zero_mul, sub_zero]
        · rw [value_zero, abs_zero]
          exact abs_pos.mpr hne
        · exact .inl value_zero
    | encode s e₁ xs hxs he₁ =>
      obtain ⟨q, w, hq0, hqlt, hrem, hrun, hcut⟩ := modFloat_spec s t he₁ he₂ hxs hys
      have hdef : value (encode s e₁ xs) -
          trunc (value (encode s e₁ xs) / value (encode t e₂ ys)) * value (encode t e₂ ys) =
          sgn s * q := hrem
      unfold IsCutRemainder at hcut
      rw [hdef]
      constructor
      · rintro ⟨w', hw', hright⟩
        rw [hrun] at hw'
        obtain rfl := Except.ok.inj (Option.some.inj hw')
        -- the result is exact, so the remainder was stored uncut
        have hexact := hright.exact
        rw [hdef] at hexact
        rcases hq0.eq_or_lt with rfl | hpos
        · exact .inl (mul_zero _)
        · right
          rw [abs_sgn s hpos]
          rcases lt_or_ge (expo 100 q) (-63) with hlow | hlow
          · rw [if_pos (.inr hlow)] at hcut
            rw [hcut, value_zero] at hexact
            exact absurd ((sgn_mul_eq_zero s).mp hexact.symm) hpos.ne'
          · rw [if_neg (by rintro (h | h) <;> [exact hpos.ne' h; omega])] at hcut
            rw [hcut.2, sgn_mul_inj] at hexact
            exact ⟨hlow, hexact⟩
      · -- a remainder that fits is stored as it is
        intro hfits
        refine ⟨w, hrun, ?_⟩
        rcases hq0.eq_or_lt with rfl | hpos
        · rw [if_pos (.inl rfl)] at hcut
          subst hcut
          exact isRemainder_of_exact he₁ he₂ hxs hys le_rfl hqlt .zero
            (value_zero.trans (mul_zero _).symm) hrem
        · obtain ⟨hlow, hexact⟩ := hfits.resolve_left fun h =>
            hpos.ne' ((sgn_mul_eq_zero s).mp h)
          rw [abs_sgn s hpos] at hlow hexact
          rw [if_neg (by rintro (h | h) <;> [exact hpos.ne' h; omega]), hexact] at hcut
          exact isRemainder_of_exact he₁ he₂ hxs hys hq0 hqlt hcut.1 hcut.2 hrem

/-- `12345.67 mod (-98.76)`: two digits of the quotient. -/
theorem modFloat_iff_digits :
    (∃ w, modFloat (encode false 3 [1, 23, 45, 67]) (encode true 1 [98, 76]) = some (.ok w) ∧
      IsRemainder w (encode false 3 [1, 23, 45, 67]) (encode true 1 [98, 76])) ↔
      RemainderFits (value (encode false 3 [1, 23, 45, 67]) -
        trunc (value (encode false 3 [1, 23, 45, 67]) / value (encode true 1 [98, 76])) *
          value (encode true 1 [98, 76])) :=
  modFloat_iff (.encode false 3 [1, 23, 45, 67] (by decide) (by decide))
    (.encode true 1 [98, 76] (by decide) (by decide))
    (value_encode_ne_zero true (by decide) (by decide))

/-- Twenty ones. -/
def ones : List Nat := List.replicate 20 1

/-- **A number with twenty digits that is less than the divisor loses its last
    digit.** -/
theorem mod_wrong :
    modFloat (encode false 1 ones) (encode false 2 [1]) =
      some (.ok (encode false 1 (List.replicate 19 1))) ∧
    ¬ ∀ a b, Canonical a → Canonical b → value b ≠ 0 →
      ∃ w, modFloat a b = some (.ok w) ∧ IsRemainder w a b := by
  have hrun : modFloat (encode false 1 ones) (encode false 2 [1]) =
      some (.ok (encode false 1 (List.replicate 19 1))) := by decide
  refine ⟨hrun, ?_⟩
  intro h
  have he : InRange 1 := by decide
  have hones : Mantissa ones := by decide
  have hone : Mantissa [1] := by decide
  obtain ⟨w, hw, hright⟩ := h _ _ (.encode false 1 ones hones he)
    (.encode false 2 [1] hone (by decide)) (value_encode_ne_zero false (by decide) hone)
  rw [hrun] at hw
  obtain rfl := Except.ok.inj (Option.some.inj hw)
  have hrem := remainder_sgn false false (hones.mag_pos 1) (hone.mag_pos 2)
  rw [remainder_small hones hone (by norm_num), Int.cast_zero, zero_mul, sub_zero] at hrem
  have hexact : value (encode false 1 (List.replicate 19 1)) =
      remainder (value (encode false 1 ones)) (value (encode false 2 [1])) := hright.exact
  have hshort : Mantissa (List.replicate 19 1) := by decide
  rw [value_encode false he hones.below, value_encode false (by decide) hone.below, hrem,
    value_encode false he hshort.below, sgn_mul_inj] at hexact
  have hsame := (mag_inj (by norm_num) hshort.below hones.below hshort.toStripped
    hones.toStripped hexact).2
  exact absurd hsame (by decide)

end Altibase.Mtc
