/-
  Altibase.Mtc.RoundFloat
  ───────────────────────
  **ROUNDING TO DECIMALS.**

  `roundFloat` rounds a NUMERIC half away from zero to `n` decimals, to tens,
  hundreds and so on for negative `n`.  The digits are in base 100, so an even
  position looks at one digit and adds to the digit before it, an odd one rounds
  the two decimals of one digit, and a carry may then run through all digits and
  make the number one digit longer.

  Two slips remain.  The loop that sets the length stops before the twentieth
  digit, so a twentieth digit that the rounding keeps is lost; and the count `n`
  is negated as an `SLong`, where the least one has no negation.

    * `roundFloat_encode` — what the function stores, as a function of the
      integer that the twenty digits make;
    * `roundTo_scaled` — that integer and the rounding of the number;
    * `roundFloat_iff` — the result is right exactly where `RoundFits` holds.
-/

import Altibase.Lib.IntSum
import Altibase.Mtc.Slong

namespace Altibase.Mtc

open Altibase.Lib.Digits

/-! ## §1. The function. -/

/-- Why `roundFloat` fails.  An index outside the array is a failure of its
    own, so that it can be ruled out. -/
inductive RoundError where
  | convert (e : ConvertError)
  | valueOverflow
  | outside (i : Int)
  deriving DecidableEq, Repr

/-- `sMantissa[i]`, read. -/
def readDigit (sMantissa : List Nat) (i : Int) : Except RoundError Nat :=
  if 0 ≤ i ∧ i < mantissaMaximum then .ok (sMantissa.getD i.toNat 0) else .error (.outside i)

/-- `sMantissa[i] = d`. -/
def writeDigit (sMantissa : List Nat) (i : Int) (d : Nat) : Except RoundError (List Nat) :=
  if 0 ≤ i ∧ i < mantissaMaximum then .ok (sMantissa.set i.toNat d) else .error (.outside i)

/-- The loop that sets the digits from `i` on to zero. -/
def clearFrom (sMantissa : List Nat) (i : Int) : Except RoundError (List Nat) :=
  if 0 ≤ i then
    .ok (sMantissa.take i.toNat ++ List.replicate (sMantissa.length - i.toNat) 0)
  else .error (.outside i)

/-- An odd position: the digit at `i` is rounded to tens. -/
def roundTens (sMantissa : List Nat) (i : Int) : Except RoundError (List Nat) :=
  if i < mantissaMaximum then do
    let d ← readDigit sMantissa i
    let sMantissa ← writeDigit sMantissa i (if 5 ≤ d % 10 then d - d % 10 + 10 else d - d % 10)
    clearFrom sMantissa (i + 1)
  else .ok sMantissa

/-- An even position: the digit at `i` decides about the one before it. -/
def roundHundreds (sMantissa : List Nat) (i : Int) : Except RoundError (List Nat) :=
  if i < mantissaMaximum then do
    let d ← readDigit sMantissa i
    let sMantissa ←
      if 50 ≤ d then do
        let c ← readDigit sMantissa (i - 1)
        writeDigit sMantissa (i - 1) (c + 1)
      else pure sMantissa
    clearFrom sMantissa i
  else .ok sMantissa

/-- The three cases of `sRound % 2`. -/
def roundDigits (sMantissa : List Nat) (sExponent sRound : Int) :
    Except RoundError (List Nat) :=
  if sRound.tmod 2 = 1 then roundTens sMantissa (sExponent - sRound.tdiv 2 - 1)
  else if sRound.tmod 2 = -1 then roundTens sMantissa (sExponent - sRound.tdiv 2)
  else roundHundreds sMantissa (sExponent - sRound.tdiv 2)

/-- The byte for a sign and an exponent. -/
def signByte (positive : Bool) (sExponent : Int) : Nat :=
  if positive then uchar (sExponent + 192) else uchar (64 - sExponent)

/-- The end: the length is set, which leaves the twentieth digit out, and the
    digits are stored. -/
def storeRounded (positive : Bool) (se : Nat) (sMantissa : List Nat) : MtdNumericType :=
  let length := usedLength sMantissa (mantissaMaximum - 1)
  if sMantissa.getD 0 0 = 0 then zero
  else if positive then .num se (sMantissa.take (length - 1))
  else .num se ((sMantissa.take (length - 1)).map (99 - ·))

/-- `-sRound` in an `SLong`: the least one is its own negation. -/
def negateSlong (sRound : Int) : Int := if sRound = -2 ^ 63 then sRound else -sRound

/-- **`roundFloat`.** -/
def roundFloat : MtdNumericType → MtdNumericType → Except RoundError MtdNumericType
  | .null, _ => .ok .null
  | .num _ [], _ => .ok zero
  | .num se (d :: ds), aArgument2 => do
    let sRound ← (numeric2Slong aArgument2).mapError .convert
    let sRound := negateSlong sRound
    let sExponent := exponent se
    let sMantissa := buffer (digits se (d :: ds))
    -- every digit is cut off; only at the first one can the number be rounded up
    if sExponent * 2 ≤ sRound then
      if sExponent * 2 = sRound ∧ 50 ≤ sMantissa.getD 0 0 then
        let sExponent := sExponent + 1
        if 63 < sExponent then .error .valueOverflow
        else .ok (.num (signByte (isPositive se) sExponent) [if isPositive se then 1 else 98])
      else .ok zero
    else do
      let sMantissa ← roundDigits sMantissa sExponent sRound
      -- a carry out of the first digit goes in front, and the last digit is dropped
      let r := carry addStep sMantissa 0
      if r.1 ≠ 0 then
        let sExponent := sExponent + 1
        if 63 < sExponent then .error .valueOverflow
        else
          .ok (storeRounded (isPositive se) (signByte (isPositive se) sExponent)
            (1 :: r.2.dropLast))
      else .ok (storeRounded (isPositive se) se r.2)

/-! ## §2. What it should do. -/

/-- Rounded half away from zero. -/
def halfAway (q : ℚ) : Int := if 0 ≤ q then ⌊q + 1 / 2⌋ else ⌈q - 1 / 2⌉

/-- **Rounded half away from zero to `n` decimals.** -/
def roundTo (n : Int) (q : ℚ) : ℚ := halfAway (q * 10 ^ n) * 10 ^ (-n)

/-- The canonical form of `q`, or an overflow if `q` needs an exponent above 63. -/
def IsRounded (r : Except RoundError MtdNumericType) (q : ℚ) : Prop :=
  if (100 : ℚ) ^ 63 ≤ |q| then r = .error .valueOverflow
  else ∃ w, r = .ok w ∧ Canonical w ∧ value w = q

/-- The twentieth digit, zero if there is none. -/
def twentieth (se : Nat) (m : List Nat) : Nat := (digits se m).getD 19 0

/-- **Where `roundFloat` is right**: the value is zero; or the count has a
    negation, and there is no twentieth digit, or the rounding takes it off, or
    it is rounded to tens and that makes it zero. -/
def RoundFits : MtdNumericType → Int → Prop
  | .null, _ => False
  | .num se m, n => m = [] ∨ (n ≠ -2 ^ 63 ∧
      (twentieth se m = 0 ∨ 2 * (exponent se - 20) + 1 < -n ∨
        (2 * (exponent se - 20) + 1 = -n ∧ (twentieth se m < 5 ∨ 95 ≤ twentieth se m))))

/-- **`roundFloat` is right at `v` for the count `n`, given as `c`.** -/
structure RoundsTo (v c : MtdNumericType) (n : Int) : Prop where
  result : IsRounded (roundFloat v c) (roundTo n (value v))
  unchanged : (∃ z : Int, value v = z * 10 ^ (-n)) → roundFloat v c = .ok v
  odd : roundFloat (negate v) c = (roundFloat v c).map negate
  idem : ∀ w, roundFloat v c = .ok w → roundFloat w c = .ok w
  inside : ∀ i, roundFloat v c ≠ .error (.outside i)

/-! ## §3. Rounding a natural number. -/

/-- `N` rounded at its last `p` decimals. -/
def roundNat (p N : Nat) : Nat := (N + 10 ^ p / 2) / 10 ^ p * 10 ^ p

theorem roundNat_zero (N : Nat) : roundNat 0 N = N := by
  simp [roundNat]

theorem dvd_roundNat (p N : Nat) : 10 ^ p ∣ roundNat p N := Dvd.intro_left _ rfl

/-- Rounding does not go past a multiple of the unit above. -/
theorem roundNat_le {p N M : Nat} (hM : 10 ^ p ∣ M) (h : N ≤ M) : roundNat p N ≤ M := by
  obtain ⟨k, rfl⟩ := hM
  have hpos : 0 < 10 ^ p := by positivity
  have hlt : (N + 10 ^ p / 2) / 10 ^ p < k + 1 := by
    rw [Nat.div_lt_iff_lt_mul hpos, Nat.add_mul, Nat.mul_comm k]
    omega
  unfold roundNat
  rw [Nat.mul_comm (10 ^ p) k]
  exact Nat.mul_le_mul_right _ (by omega)

/-- Nor past one below. -/
theorem le_roundNat {p N M : Nat} (hM : 10 ^ p ∣ M) (h : M ≤ N) : M ≤ roundNat p N := by
  obtain ⟨k, rfl⟩ := hM
  have hpos : 0 < 10 ^ p := by positivity
  have hle : k ≤ (N + 10 ^ p / 2) / 10 ^ p := by
    rw [Nat.le_div_iff_mul_le hpos, Nat.mul_comm]
    omega
  unfold roundNat
  rw [Nat.mul_comm (10 ^ p) k]
  exact Nat.mul_le_mul_right _ hle

/-- A number below half a unit is rounded to zero. -/
theorem roundNat_small {p N : Nat} (h : 2 * N < 10 ^ p) : roundNat p N = 0 := by
  unfold roundNat
  rw [Nat.div_eq_of_lt (by omega), Nat.zero_mul]

/-- Rounding with the unit `10 * w` or `100 * w`: the digits below `w` do not count. -/
theorem div_unit {w B : Nat} (hB : B < w) (A u : Nat) : (A * w + B) / (u * w) = A / u := by
  have hpos : 0 < w := by omega
  rw [Nat.mul_comm u w, ← Nat.div_div_eq_div_mul, Nat.mul_comm A w, Nat.mul_add_div hpos,
    Nat.div_eq_of_lt hB, Nat.add_zero]

/-- The last decimals after rounding. -/
theorem roundNat_mod (p N : Nat) :
    roundNat p N % 100 = 0 ↔ N % 100 = 0 ∧ p = 0 ∨ 1 < p ∨ p = 1 ∧ (N % 100 < 5 ∨ 95 ≤ N % 100) := by
  rcases p with _ | _ | p
  · rw [roundNat_zero]
    simp
  · unfold roundNat
    norm_num
    omega
  · have h : 100 ∣ roundNat (p + 2) N := by
      refine Dvd.dvd.trans ?_ (dvd_roundNat (p + 2) N)
      rw [pow_add]
      exact Dvd.intro_left _ rfl
    simp [Nat.mod_eq_zero_of_dvd h]

/-! ## §4. The digits. -/

section Digits

variable {s : List Nat}

theorem bind_ok {α β : Type} (a : α) (f : α → Except RoundError β) :
    ((.ok a : Except RoundError α) >>= f) = f a := rfl

theorem readDigit_nat (s : List Nat) {j : Nat} (hj : j < 20) :
    readDigit s j = .ok (s.getD j 0) := by
  unfold readDigit mantissaMaximum
  rw [if_pos (by omega), Int.toNat_natCast]

theorem writeDigit_nat (s : List Nat) {j : Nat} (hj : j < 20) (d : Nat) :
    writeDigit s j d = .ok (s.set j d) := by
  unfold writeDigit mantissaMaximum
  rw [if_pos (by omega), Int.toNat_natCast]

theorem clearFrom_nat (s : List Nat) (j : Nat) :
    clearFrom s j = .ok (s.take j ++ List.replicate (s.length - j) 0) := by
  unfold clearFrom
  rw [if_pos (by omega), Int.toNat_natCast]

/-- The digits behind one digit are cleared. -/
theorem clear_tail (a : List Nat) (x : Nat) (b : List Nat) :
    (a ++ x :: b).take (a.length + 1) ++
      List.replicate ((a ++ x :: b).length - (a.length + 1)) 0 =
    a ++ x :: List.replicate b.length 0 := by
  have hl : (a ++ x :: b).length - (a.length + 1) = b.length := by
    simp
    omega
  rw [hl, List.take_append]
  simp

/-- **An odd position rounds the integer of the digits.** -/
theorem roundTens_spec (hlen : s.length = 20) (hb : Below 100 s) {j : Nat} (hj : j < 20) :
    ∃ s', roundTens s j = .ok s' ∧ s'.length = 20 ∧ (∀ d ∈ s', d ≤ 100) ∧
      val 100 s' = roundNat (39 - 2 * j) (val 100 s) := by
  obtain ⟨a, d, b, rfl, rfl⟩ : ∃ a d b, s = a ++ d :: b ∧ a.length = j :=
    ⟨s.take j, s[j], s.drop (j + 1), by simp, by simp; omega⟩
  have hd : d < 100 := hb d (by simp)
  have hblow : Below 100 b := fun x hx => hb x (by simp [hx])
  have halow : Below 100 a := fun x hx => hb x (by simp [hx])
  have hlen' : b.length = 19 - a.length := by
    simp at hlen
    omega
  have hread : (a ++ d :: b).getD a.length 0 = d := by simp
  have hset : ∀ x, (a ++ d :: b).set a.length x = a ++ x :: b := by
    intro x
    simp
  -- the digit is rounded to tens, the ones behind it are cleared
  generalize hr : (if 5 ≤ d % 10 then d - d % 10 + 10 else d - d % 10) = r
  have hr' : r = (d + 5) / 10 * 10 := by
    rw [← hr]
    split_ifs <;> omega
  refine ⟨a ++ r :: List.replicate b.length 0, ?_, ?_, ?_, ?_⟩
  · unfold roundTens
    rw [if_pos (by unfold mantissaMaximum; omega), readDigit_nat _ hj]
    simp only [bind_ok, hread, hr]
    rw [writeDigit_nat _ hj, hset]
    have hcast : ((a.length : Nat) : Int) + 1 = ((a.length + 1 : Nat) : Int) := by omega
    simp only [bind_ok]
    rw [hcast, clearFrom_nat, clear_tail]
  · simp
    omega
  · intro x hx
    rw [List.mem_append, List.mem_cons, List.mem_replicate] at hx
    rcases hx with hx | rfl | ⟨-, rfl⟩
    · exact (halow x hx).le
    · omega
    · omega
  · -- in units of the digits behind, half a unit is added and the rest is cut off
    have hw : 10 ^ (39 - 2 * a.length) = 10 * 100 ^ b.length := by
      rw [hlen', show (100 : Nat) = 10 ^ 2 by norm_num, ← pow_mul, ← pow_succ']
      congr 1
      omega
    have hB := val_lt hblow
    rw [val_append, val_append, val_cons, val_cons, val_replicate_zero]
    unfold roundNat
    rw [hw]
    simp only [List.length_cons, List.length_replicate]
    generalize val 100 b = B at hB ⊢
    generalize val 100 a = A
    have hpow : 100 ^ (b.length + 1) = 100 * 100 ^ b.length := pow_succ' _ _
    rw [hpow]
    generalize 100 ^ b.length = w at hB ⊢
    have hsum : A * (100 * w) + (d * w + B) + 10 * w / 2 = (100 * A + d + 5) * w + B := by
      have : 10 * w / 2 = 5 * w := by omega
      rw [this]
      ring
    rw [hsum, div_unit hB, hr']
    have hdiv : (100 * A + d + 5) / 10 = 10 * A + (d + 5) / 10 := by omega
    rw [hdiv]
    ring

/-- **An even position does so too.** -/
theorem roundHundreds_spec (hlen : s.length = 20) (hb : Below 100 s) {j : Nat} (hj : j + 1 < 20) :
    ∃ s', roundHundreds s (j + 1 : Nat) = .ok s' ∧ s'.length = 20 ∧ (∀ d ∈ s', d ≤ 100) ∧
      val 100 s' = roundNat (38 - 2 * j) (val 100 s) := by
  obtain ⟨a, c, d, b, rfl, rfl⟩ : ∃ a c d b, s = a ++ c :: d :: b ∧ a.length = j :=
    ⟨s.take j, s[j], s[j + 1], s.drop (j + 2), by simp, by simp; omega⟩
  have hc : c < 100 := hb c (by simp)
  have hd : d < 100 := hb d (by simp)
  have hblow : Below 100 b := fun x hx => hb x (by simp [hx])
  have halow : Below 100 a := fun x hx => hb x (by simp [hx])
  have hlen' : b.length = 18 - a.length := by
    simp at hlen
    omega
  have hread : (a ++ c :: d :: b).getD (a.length + 1) 0 = d := by simp
  have hread' : (a ++ c :: d :: b).getD a.length 0 = c := by simp
  have hset : ∀ x, (a ++ c :: d :: b).set a.length x = a ++ x :: d :: b := by
    intro x
    simp
  -- the digit goes up by its neighbour, which is cleared with those behind it
  refine ⟨a ++ (if 50 ≤ d then c + 1 else c) :: List.replicate (b.length + 1) 0, ?_, ?_, ?_, ?_⟩
  · have hprev : ((a.length + 1 : Nat) : Int) - 1 = (a.length : Nat) := by omega
    unfold roundHundreds
    rw [if_pos (by unfold mantissaMaximum; omega), readDigit_nat _ hj]
    simp only [bind_ok, hread, hprev]
    split_ifs with h50
    · rw [readDigit_nat _ (by omega)]
      simp only [bind_ok, hread']
      rw [writeDigit_nat _ (by omega), hset]
      simp only [bind_ok]
      rw [clearFrom_nat, clear_tail, List.length_cons]
    · show clearFrom (a ++ c :: d :: b) ((a.length + 1 : Nat) : Int) = _
      rw [clearFrom_nat, clear_tail, List.length_cons]
  · simp
    omega
  · intro x hx
    rw [List.mem_append, List.mem_cons, List.mem_replicate] at hx
    rcases hx with hx | rfl | ⟨-, rfl⟩
    · exact (halow x hx).le
    · split_ifs <;> omega
    · omega
  · -- in units of the digits behind, half a unit is added and the rest is cut off
    have hw : 10 ^ (38 - 2 * a.length) = 100 * 100 ^ b.length := by
      rw [hlen', ← pow_succ', show (100 : Nat) = 10 ^ 2 by norm_num, ← pow_mul]
      congr 1
      omega
    have hB := val_lt hblow
    rw [val_append, val_append, val_cons, val_cons, val_cons, val_replicate_zero]
    unfold roundNat
    rw [hw]
    simp only [List.length_cons, List.length_replicate]
    generalize val 100 b = B at hB ⊢
    generalize val 100 a = A
    have hpow : 100 ^ (b.length + 1) = 100 * 100 ^ b.length := pow_succ' _ _
    have hpow' : 100 ^ (b.length + 1 + 1) = 10000 * 100 ^ b.length := by
      rw [pow_succ', hpow]
      ring
    rw [hpow, hpow']
    generalize 100 ^ b.length = w at hB ⊢
    have hsum : A * (10000 * w) + (c * (100 * w) + (d * w + B)) + 100 * w / 2 =
        (10000 * A + 100 * c + d + 50) * w + B := by
      have : 100 * w / 2 = 50 * w := by omega
      rw [this]
      ring
    rw [hsum, div_unit hB]
    have hdiv : (10000 * A + 100 * c + d + 50) / 100 = 100 * A + if 50 ≤ d then c + 1 else c := by
      split_ifs <;> omega
    rw [hdiv]
    ring

end Digits

/-! ### The whole switch. -/

/-- **The switch rounds the integer of the digits**, to as many decimals as lie
    behind the position; a position behind the last digit leaves it alone. -/
theorem roundDigits_spec {s : List Nat} (hlen : s.length = 20) (hb : Below 100 s) {e R : Int}
    (h : R < e * 2) :
    ∃ s', roundDigits s e R = .ok s' ∧ s'.length = 20 ∧ (∀ d ∈ s', d ≤ 100) ∧
      val 100 s' = roundNat (R - 2 * e + 40).toNat (val 100 s) := by
  obtain ⟨hR, h1, h2, h3, h4⟩ := Lib.tdiv_spec R (by norm_num : (0 : Int) < 2)
  -- Behind the last digit there is nothing to round.
  have hbehind : R - 2 * e + 40 ≤ 0 → (∀ d ∈ s, d ≤ 100) ∧
      val 100 s = roundNat (R - 2 * e + 40).toNat (val 100 s) := by
    intro hp
    rw [Int.toNat_of_nonpos hp, roundNat_zero]
    exact ⟨fun d hd => (hb d hd).le, rfl⟩
  have htens : ∀ i : Int, 0 ≤ i → R - 2 * e + 40 = 39 - 2 * i →
      ∃ s', roundTens s i = .ok s' ∧ s'.length = 20 ∧ (∀ d ∈ s', d ≤ 100) ∧
        val 100 s' = roundNat (R - 2 * e + 40).toNat (val 100 s) := by
    intro i hi hp
    rcases lt_or_ge i 20 with hlt | hge
    · obtain ⟨j, rfl⟩ : ∃ j : Nat, i = j := ⟨i.toNat, by omega⟩
      have hj : (R - 2 * e + 40).toNat = 39 - 2 * j := by omega
      rw [hj]
      exact roundTens_spec hlen hb (by omega)
    · refine ⟨s, ?_, hlen, hbehind (by omega)⟩
      unfold roundTens
      rw [if_neg (by unfold mantissaMaximum; omega)]
  unfold roundDigits
  split_ifs with hodd hneg
  · exact htens _ (by omega) (by omega)
  · exact htens _ (by omega) (by omega)
  · have heven : R = 2 * R.tdiv 2 := by omega
    generalize R.tdiv 2 = q at heven
    rcases lt_or_ge (e - q) 20 with hlt | hge
    · obtain ⟨j, hj⟩ : ∃ j : Nat, e - q = (j + 1 : Nat) := ⟨(e - q - 1).toNat, by omega⟩
      have hp : (R - 2 * e + 40).toNat = 38 - 2 * j := by omega
      rw [hj, hp]
      exact roundHundreds_spec hlen hb (by omega)
    · refine ⟨s, ?_, hlen, hbehind (by omega)⟩
      unfold roundHundreds
      rw [if_neg (by unfold mantissaMaximum; omega)]

/-- The integer of the twenty digits. -/
theorem val_buffer_bounds {ds : List Nat} (h : Mantissa ds) :
    100 ^ 19 ≤ val 100 (buffer ds) ∧ val 100 (buffer ds) < 100 ^ 20 := by
  have hlen := buffer_length h.length_le
  have hlt := val_lt (buffer_below h.below)
  rw [hlen] at hlt
  refine ⟨?_, hlt⟩
  obtain ⟨d, t, rfl⟩ := List.exists_cons_of_ne_nil h.ne
  have hle := le_val (b := 100) (t ++ List.replicate (20 - (d :: t).length) 0) h.toStripped.head_ne
  have ht : (t ++ List.replicate (20 - (d :: t).length) 0).length = 19 := by
    have h20 : (d :: t).length ≤ 20 := h.length_le
    rw [List.length_append, List.length_replicate]
    simp only [List.length_cons] at h20 ⊢
    omega
  rw [ht] at hle
  exact hle

/-- The last of the twenty digits. -/
theorem val_buffer_mod {ds : List Nat} (h : Mantissa ds) :
    val 100 (buffer ds) % 100 = ds.getD 19 0 := by
  have h19 : 19 < (buffer ds).length := by
    rw [buffer_length h.length_le]
    decide
  have hget : (buffer ds)[19] = ds.getD 19 0 := by
    rw [← buffer_getD, List.getD_eq_getElem _ _ h19]
  have hs : buffer ds = (buffer ds).take 19 ++ [ds.getD 19 0] := by
    rw [← hget, ← List.take_succ_eq_append_getElem h19, List.take_of_length_le]
    rw [buffer_length h.length_le]
    decide
  have hd : ds.getD 19 0 < 100 := by
    apply buffer_below h.below
    rw [hs]
    simp
  rw [hs, val_concat]
  omega

/-! ## §5. What is stored. -/

/-- **The result for the rounded integer `M`** of the twenty digits; the last
    of them is left out. -/
def roundedForm (neg : Bool) (e : Int) (M : Nat) : Except RoundError MtdNumericType :=
  if M = 100 ^ 20 then
    if 63 < e + 1 then .error .valueOverflow else .ok (encode neg (e + 1) [1])
  else if M = 0 then .ok zero
  else .ok (encode neg e ((numeral 100 19 (M / 100)).rdropWhile (· = 0)))

/-- The integers that a rounding of twenty digits with a first digit can give. -/
def Roundable (M : Nat) : Prop := (M = 0 ∨ 100 ^ 19 ≤ M) ∧ M ≤ 100 ^ 20

/-- Beyond forty decimals everything is rounded to zero. -/
theorem roundNat_forty {p N : Nat} (h1 : N < 100 ^ 20) (hp : 40 < p) : roundNat p N = 0 := by
  apply roundNat_small
  have : 10 ^ 41 ≤ 10 ^ p := Nat.pow_le_pow_right (by norm_num) hp
  omega

/-- Twenty digits round to one of the integers that can be stored. -/
theorem roundable {N : Nat} (h0 : 100 ^ 19 ≤ N) (h1 : N < 100 ^ 20) (p : Nat) :
    Roundable (roundNat p N) := by
  rcases lt_or_ge 40 p with hbig | hp
  · rw [roundNat_forty h1 hbig]
    exact ⟨.inl rfl, Nat.zero_le _⟩
  have h20 : (100 : Nat) ^ 20 = 10 ^ 40 := by norm_num
  have h19 : (100 : Nat) ^ 19 = 10 ^ 38 := by norm_num
  refine ⟨?_, ?_⟩
  · rcases le_or_gt p 38 with hle | hgt
    · right
      apply le_roundNat _ h0
      rw [h19]
      exact pow_dvd_pow 10 hle
    · by_cases hz : roundNat p N = 0
      · exact .inl hz
      · right
        have := Nat.le_of_dvd (Nat.pos_of_ne_zero hz) (dvd_roundNat p N)
        have h39 : 10 ^ 38 ≤ 10 ^ p := Nat.pow_le_pow_right (by norm_num) (by omega)
        omega
  · apply roundNat_le _ h1.le
    rw [h20]
    exact pow_dvd_pow 10 hp

/-- The carry loop on digits that may be a hundred. -/
theorem carry_settle {s : List Nat} (h : ∀ d ∈ s, d ≤ 100) :
    (carry addStep s 0).1 ≤ 1 ∧ Below 100 (carry addStep s 0).2 ∧
      (carry addStep s 0).1 * 100 ^ s.length + val 100 (carry addStep s 0).2 = val 100 s := by
  have hstep : ∀ d c, d ≤ 100 → c ≤ 1 → (addStep d c).1 ≤ 1 ∧ (addStep d c).2 < 100 :=
    fun d c hd hc => ⟨(addStep_spec d c).1, addStep_lt (by omega) hc⟩
  have hspec := carry_spec (C := (· ≤ 1)) (P := (· < 100)) hstep s h (Nat.zero_le 1)
  have hval := val_carry 100 (C := (· ≤ 1)) (D := (· ≤ 100))
    (fun d c _ _ => addStep_spec d c) s h (c := 0) (Nat.zero_le 1)
  exact ⟨hspec.1, hspec.2, hval⟩

/-- The byte of an encoding goes with any digits. -/
theorem encode_byte {neg : Bool} {e : Int} {ds m : List Nat} {se : Nat}
    (heq : encode neg e ds = .num se m) (ds' : List Nat) :
    encode neg e ds' = .num se (if neg then ds'.map (99 - ·) else ds') := by
  cases neg with
  | false =>
    injection heq with hse
    rw [← hse]
    rfl
  | true =>
    injection heq with hse
    rw [← hse]
    rfl

theorem encode_one (neg : Bool) (e : Int) :
    MtdNumericType.num (signByte (!neg) e) [if !neg then 1 else 98] = encode neg e [1] := by
  cases neg <;> rfl

/-- The end of the function, on digits below a hundred. -/
theorem storeRounded_eq (neg : Bool) {se : Nat} {e : Int}
    (hse : ∀ ds, encode neg e ds = .num se (if neg then ds.map (99 - ·) else ds))
    {s : List Nat} {M : Nat} (hlen : s.length = 20) (hb : Below 100 s) (hval : val 100 s = M)
    (hM : Roundable M) :
    (.ok (storeRounded (!neg) se s) : Except RoundError MtdNumericType) =
      if M = 0 then .ok zero
      else .ok (encode neg e ((numeral 100 19 (M / 100)).rdropWhile (· = 0))) := by
  have hs : s = numeral 100 19 (M / 100) ++ [M % 100] :=
    eq_numeral (n := 20) hb hlen hval (by norm_num)
  obtain ⟨d, t, rfl⟩ : ∃ d t, s = d :: t := List.exists_cons_of_ne_nil (by rintro rfl; simp at hlen)
  -- The first digit is zero exactly if the integer is.
  have hd : d = 0 ↔ M = 0 := by
    have ht := val_lt (Below.cons_iff.mp hb).2
    rw [val_cons] at hval
    rw [List.length_cons] at hlen
    rw [show t.length = 19 by omega] at ht hval
    constructor
    · rintro rfl
      rcases hM.1 with h | h
      · exact h
      · omega
    · rintro rfl
      by_contra h
      have : 1 * 100 ^ 19 ≤ d * 100 ^ 19 := Nat.mul_le_mul_right _ (by omega)
      omega
  have htake : (d :: t).take (usedLength (d :: t) (mantissaMaximum - 1) - 1) =
      (numeral 100 19 (M / 100)).rdropWhile (· = 0) := by
    rw [take_usedLength, hs, show mantissaMaximum - 1 = 19 from rfl,
      List.take_left' (numeral_length 19 _)]
  unfold storeRounded
  simp only [List.getD_cons_zero, hd, htake, hse]
  generalize (numeral 100 19 (M / 100)).rdropWhile (· = 0) = D
  by_cases h0 : M = 0
  · rw [if_pos h0, if_pos h0]
  · rw [if_neg h0, if_neg h0]
    cases neg <;> rfl

/-- **What the function stores.** -/
theorem roundFloat_encode (neg : Bool) {e : Int} {ds : List Nat} (h : Mantissa ds)
    (he : InRange e) {c : MtdNumericType} {n : Int} (hc : numeric2Slong c = .ok n) :
    roundFloat (encode neg e ds) c =
      roundedForm neg e (roundNat (negateSlong n - 2 * e + 40).toNat (val 100 (buffer ds))) := by
  obtain ⟨se, d, m, heq, hp, hx, hd⟩ := encode_cons neg he h
  have hlen := buffer_length h.length_le
  have hb := buffer_below h.below
  obtain ⟨hN0, hN1⟩ := val_buffer_bounds h
  generalize hR : negateSlong n = R
  have hstep : roundFloat (encode neg e ds) c =
      if e * 2 ≤ R then
        if e * 2 = R ∧ 50 ≤ (buffer ds).getD 0 0 then
          if 63 < e + 1 then .error .valueOverflow else .ok (encode neg (e + 1) [1])
        else .ok zero
      else (roundDigits (buffer ds) e R).bind fun s =>
        if (carry addStep s 0).1 ≠ 0 then
          if 63 < e + 1 then .error .valueOverflow
          else .ok (storeRounded (!neg) (signByte (!neg) (e + 1))
            (1 :: (carry addStep s 0).2.dropLast))
        else .ok (storeRounded (!neg) se (carry addStep s 0).2) := by
    rw [heq]
    show (do
      let sRound ← (numeric2Slong c).mapError RoundError.convert
      _ : Except RoundError MtdNumericType) = _
    rw [hc, hp, hx, hd, ← encode_one, ← hR]
    rfl
  rw [hstep]
  rcases le_or_gt (e * 2) R with hle | hgt
  · rw [if_pos hle]
    by_cases hR' : e * 2 = R
    · -- The position before the first digit: one is left over, or nothing.
      have hp : (R - 2 * e + 40).toNat = 40 := by omega
      have hhead : 50 ≤ (buffer ds).getD 0 0 ↔ 5 * 10 ^ 39 ≤ val 100 (buffer ds) := by
        obtain ⟨d', t, ht⟩ : ∃ d' t, buffer ds = d' :: t :=
          List.exists_cons_of_ne_nil (by intro hnil; rw [hnil] at hlen; cases hlen)
        rw [ht] at hb hlen ⊢
        have hlt := val_lt (Below.cons_iff.mp hb).2
        have hl : t.length = 19 := by
          rw [List.length_cons] at hlen
          exact Nat.succ.inj hlen
        rw [hl] at hlt
        rw [val_cons, hl, List.getD_cons_zero]
        norm_num at hlt ⊢
        omega
      have hround : roundNat 40 (val 100 (buffer ds)) =
          if 5 * 10 ^ 39 ≤ val 100 (buffer ds) then 100 ^ 20 else 0 := by
        unfold roundNat
        norm_num at hN1 ⊢
        split_ifs <;> omega
      rw [hp, hround]
      by_cases h50 : 50 ≤ (buffer ds).getD 0 0
      · rw [if_pos ⟨hR', h50⟩, if_pos (hhead.mp h50)]
        unfold roundedForm
        rw [if_pos rfl]
      · rw [if_neg (by tauto), if_neg (fun h5 => h50 (hhead.mpr h5))]
        rfl
    · have hzero : roundNat (R - 2 * e + 40).toNat (val 100 (buffer ds)) = 0 := by
        apply roundNat_small
        have hpow : 10 ^ 41 ≤ 10 ^ (R - 2 * e + 40).toNat :=
          Nat.pow_le_pow_right (by norm_num) (by omega)
        omega
      rw [if_neg (by tauto), hzero]
      rfl
  · obtain ⟨s, hs, hslen, hsb, hsval⟩ := roundDigits_spec hlen hb hgt
    have hM := roundable hN0 hN1 (R - 2 * e + 40).toNat
    rw [if_neg (not_le.mpr hgt), hs]
    generalize roundNat (R - 2 * e + 40).toNat (val 100 (buffer ds)) = M at hsval hM ⊢
    obtain ⟨hcarry, hbelow, hval⟩ := carry_settle hsb
    rw [hslen, hsval] at hval
    have hclen : (carry addStep s 0).2.length = 20 := by rw [carry_length, hslen]
    show (if (carry addStep s 0).1 ≠ 0 then _ else _) = _
    generalize carry addStep s 0 = r at hcarry hbelow hval hclen ⊢
    by_cases hr : r.1 ≠ 0
    · -- A carry is left: all digits are zero.
      rw [if_pos hr]
      have hr1 : r.1 = 1 := by omega
      have hzero : val 100 r.2 = 0 ∧ M = 100 ^ 20 := by
        have hle := hM.2
        rw [hr1] at hval
        omega
      have hdigits : r.2 = List.replicate 20 0 :=
        List.eq_replicate_iff.mpr ⟨hclen, (val_eq_zero_iff (by norm_num)).mp hzero.1⟩
      have hone : storeRounded (!neg) (signByte (!neg) (e + 1)) (1 :: r.2.dropLast) =
          encode neg (e + 1) [1] := by
        rw [hdigits]
        cases neg <;> rfl
      unfold roundedForm
      rw [if_pos hzero.2, hone]
    · rw [if_neg hr]
      rw [not_not] at hr
      rw [hr, Nat.zero_mul, Nat.zero_add] at hval
      have hlt := val_lt hbelow
      rw [hclen, hval] at hlt
      unfold roundedForm
      rw [if_neg hlt.ne]
      refine storeRounded_eq neg (fun ds' => ?_) hclen hbelow hval hM
      exact encode_byte heq ds'

/-! ## §6. The rounded number. -/

/-- **Rounding a scaled integer** is rounding the integer. -/
theorem roundTo_scaled (N : Nat) (k n : Int) :
    roundTo n ((N : ℚ) * 10 ^ k) = (roundNat (-(n + k)).toNat N : Nat) * (10 : ℚ) ^ k := by
  have hten : (10 : ℚ) ≠ 0 := by norm_num
  have hpos : (0 : ℚ) ≤ (N : ℚ) * 10 ^ k * 10 ^ n := by positivity
  unfold roundTo halfAway
  rw [if_pos hpos]
  rcases lt_or_ge (n + k) 0 with hneg | hge
  · -- digits are cut off: the half that is added is an integer, since the unit is even
    obtain ⟨p, hp⟩ : ∃ p : Nat, n + k = -((p + 1 : Nat) : Int) :=
      ⟨(-(n + k)).toNat - 1, by omega⟩
    have hfloor : ⌊(N : ℚ) * 10 ^ k * 10 ^ n + 1 / 2⌋ =
        ((N + 10 ^ (p + 1) / 2) / 10 ^ (p + 1) : Nat) := by
      have heven : 10 ^ (p + 1) / 2 * 2 = 10 ^ (p + 1) := by
        rw [pow_succ]
        omega
      have hq : (N : ℚ) * 10 ^ k * 10 ^ n + 1 / 2 =
          ((N + 10 ^ (p + 1) / 2 : Nat) : ℚ) / ((10 ^ (p + 1) : Nat) : ℚ) := by
        have hcast : (((10 ^ (p + 1) / 2 : Nat) : ℚ)) * 2 = ((10 ^ (p + 1) : Nat) : ℚ) := by
          exact_mod_cast heven
        have hne : ((10 ^ (p + 1) : Nat) : ℚ) ≠ 0 := by positivity
        have hz : (10 : ℚ) ^ k * 10 ^ n = (((10 ^ (p + 1) : Nat) : ℚ))⁻¹ := by
          rw [← zpow_add₀ hten, add_comm k n, hp, zpow_neg, zpow_natCast]
          push_cast
          rfl
        rw [mul_assoc, hz, eq_div_iff hne, add_mul, mul_assoc, inv_mul_cancel₀ hne, ← hcast]
        push_cast
        ring
      rw [hq, Rat.floor_natCast_div_natCast]
      push_cast
      rfl
    have htoNat : (-(n + k)).toNat = p + 1 := by omega
    rw [hfloor, htoNat]
    unfold roundNat
    have hz : (10 : ℚ) ^ (-n) = ((10 ^ (p + 1) : Nat) : ℚ) * 10 ^ k := by
      push_cast
      rw [← zpow_natCast, ← zpow_add₀ hten]
      congr 1
      omega
    rw [hz]
    generalize (N + 10 ^ (p + 1) / 2) / 10 ^ (p + 1) = x
    push_cast
    ring
  · -- no digit is cut off
    obtain ⟨t, ht⟩ : ∃ t : Nat, n + k = t := ⟨(n + k).toNat, by omega⟩
    have hz : (N : ℚ) * 10 ^ k * 10 ^ n = ((N * 10 ^ t : Nat) : ℚ) := by
      rw [mul_assoc, ← zpow_add₀ hten, add_comm k n, ht, zpow_natCast]
      push_cast
      rfl
    have hfloor : ⌊(N : ℚ) * 10 ^ k * 10 ^ n + 1 / 2⌋ = ((N * 10 ^ t : Nat) : Int) := by
      rw [hz, Int.floor_eq_iff]
      push_cast
      constructor <;> linarith
    have htoNat : (-(n + k)).toNat = 0 := by omega
    rw [hfloor, htoNat, roundNat_zero]
    have hback : (10 : ℚ) ^ k = 10 ^ t * 10 ^ (-n) := by
      rw [← zpow_natCast, ← zpow_add₀ hten]
      congr 1
      omega
    rw [hback]
    push_cast
    ring

/-- Rounding half away from zero is odd. -/
theorem roundTo_sgn (neg : Bool) (n : Int) {q : ℚ} (hq : 0 < q) :
    roundTo n (sgn neg * q) = sgn neg * roundTo n q := by
  have hpos : 0 < q * 10 ^ n := by positivity
  cases neg with
  | false => simp
  | true =>
    have hneg : ¬ 0 ≤ sgn true * q * 10 ^ n := by
      rw [sgn_true]
      linarith
    unfold roundTo halfAway
    rw [if_pos hpos.le, if_neg hneg, sgn_true]
    have hceil : -1 * q * 10 ^ n - 1 / 2 = -(q * 10 ^ n + 1 / 2) := by ring
    rw [hceil, Int.ceil_neg]
    push_cast
    ring

/-- **A number without a digit beyond the `n`-th decimal is not changed.** -/
theorem roundTo_of_multiple {n : Int} {q : ℚ} (h : ∃ z : Int, q = z * 10 ^ (-n)) :
    roundTo n q = q := by
  obtain ⟨z, rfl⟩ := h
  have hz : (z : ℚ) * 10 ^ (-n) * 10 ^ n = z := by
    rw [mul_assoc, ← zpow_add₀ (by norm_num : (10 : ℚ) ≠ 0), neg_add_cancel, zpow_zero, mul_one]
  have hhalf : halfAway (z : ℚ) = z := by
    unfold halfAway
    split_ifs
    · rw [Int.floor_eq_iff]
      constructor <;> linarith
    · rw [Int.ceil_eq_iff]
      constructor <;> linarith
  unfold roundTo
  rw [hz, hhalf]

/-- The number, as a scaled integer of forty decimals. -/
theorem mag_scaled {ds : List Nat} (h : Mantissa ds) (e : Int) :
    mag 100 e ds = (val 100 (buffer ds) : Nat) * (10 : ℚ) ^ (2 * e - 40) := by
  rw [← mag_buffer]
  unfold mag
  rw [buffer_length h.length_le]
  have h100 : ((100 : Nat) : ℚ) = 10 ^ (2 : Int) := by norm_num
  rw [h100, ← zpow_mul]
  congr 2
  unfold mantissaMaximum
  push_cast
  ring

/-! ## §7. Where the stored form is right. -/

/-- A canonical value needs no exponent above 63. -/
theorem abs_value_lt {w : MtdNumericType} (hw : Canonical w) : |value w| < 100 ^ 63 := by
  cases hw with
  | zero =>
    rw [value_zero]
    norm_num
  | encode neg e ds h he =>
    rw [value_encode neg he h.below, abs_sgn neg (h.mag_pos e)]
    have h1 := (h.toStripped.bounds (by norm_num : 0 < 100) e h.below).2
    have h2 : ((100 : Nat) : ℚ) ^ e ≤ ((100 : Nat) : ℚ) ^ (63 : Int) :=
      zpow_le_zpow_right₀ (by norm_num) he.2
    have h3 : ((100 : Nat) : ℚ) ^ (63 : Int) = 100 ^ 63 := by norm_num
    linarith

/-- The digits that are kept are those of a canonical value. -/
theorem mantissa_kept {M : Nat} (hM : Roundable M) (htop : M ≠ 100 ^ 20) (hzero : M ≠ 0) :
    Mantissa ((numeral 100 19 (M / 100)).rdropWhile (· = 0)) := by
  have hlow : 100 ^ 19 ≤ M := hM.1.resolve_left hzero
  have hhigh : M < 100 ^ 20 := lt_of_le_of_ne hM.2 htop
  have hb : Below 100 (numeral 100 19 (M / 100)) := numeral_below (by norm_num) 19 _
  have hval := val_numeral (b := 100) 19 (M / 100) (by omega)
  have hlen : (numeral 100 19 (M / 100)).length = 19 := numeral_length 19 _
  generalize numeral 100 19 (M / 100) = D at hb hval hlen ⊢
  obtain ⟨d, t, ht⟩ : ∃ d t, D = d :: t :=
    List.exists_cons_of_ne_nil (by intro hnil; rw [hnil] at hlen; cases hlen)
  have hd : d ≠ 0 := by
    rintro rfl
    rw [ht] at hval hb hlen
    have hlt := val_lt (Below.cons_iff.mp hb).2
    rw [List.length_cons] at hlen
    rw [val_cons, show t.length = 18 by omega] at hval
    rw [show t.length = 18 by omega] at hlt
    omega
  have hstrip : Stripped (D.rdropWhile (· = 0)) := by
    apply stripped_rdropWhile (by norm_num : 0 < 100)
    · rw [ht]
      simpa using hd
    · rw [hval]
      omega
  have hle := (List.rdropWhile_prefix (fun d : Nat => decide (d = 0)) D).length_le
  rw [hlen] at hle
  exact ⟨hstrip, below_rdropWhile hb, hle.trans (by decide)⟩

/-- **A stored form is canonical, has at most nineteen digits, and denotes the
    integer without its last digit**; only ten to the fortieth at the highest
    exponent is an overflow. -/
theorem roundedForm_spec (neg : Bool) {e : Int} (he : InRange e) {M : Nat} (hM : Roundable M) :
    M = 100 ^ 20 ∧ e = 63 ∧ roundedForm neg e M = .error .valueOverflow ∨
    ∃ w, roundedForm neg e M = .ok w ∧ Canonical w ∧
      value w = sgn neg * ((M / 100 * 100 : Nat) * (10 : ℚ) ^ (2 * e - 40)) ∧
      w.length ≤ 20 := by
  obtain ⟨he0, he1⟩ := he
  unfold roundedForm
  -- a carry out of the first digit leaves a one, an exponent further
  by_cases htop : M = 100 ^ 20
  · rw [if_pos htop]
    by_cases hover : 63 < e + 1
    · exact .inl ⟨htop, by omega, if_pos hover⟩
    · right
      have he' : InRange (e + 1) := ⟨by omega, by omega⟩
      have hm : Mantissa [1] := by decide
      rw [if_neg hover]
      refine ⟨_, rfl, .encode neg _ _ hm he', ?_, by cases neg <;> show 2 ≤ 20 <;> omega⟩
      rw [value_encode neg he' hm.below, htop]
      congr 1
      have hdiv : 100 ^ 20 / 100 * 100 = 10 ^ 40 := by norm_num
      have hten : (((10 : Nat) ^ 40 : Nat) : ℚ) = 10 ^ (40 : Int) := by norm_num
      have h100 : ((100 : Nat) : ℚ) = 10 ^ (2 : Int) := by norm_num
      rw [hdiv, hten, ← zpow_add₀ (by norm_num)]
      unfold mag
      rw [h100, ← zpow_mul, val_singleton]
      push_cast
      rw [one_mul]
      congr 1
      rw [List.length_singleton]
      push_cast
      ring
  · rw [if_neg htop]
    right
    by_cases hzero : M = 0
    · rw [if_pos hzero]
      refine ⟨_, rfl, .zero, ?_, by decide⟩
      rw [value_zero, hzero]
      simp
    · -- otherwise the exponent stays, and the zeros at the end are taken off
      have hlow : 100 ^ 19 ≤ M := hM.1.resolve_left hzero
      have hhigh : M < 100 ^ 20 := lt_of_le_of_ne hM.2 htop
      have hmant := mantissa_kept hM htop hzero
      have hlen : (numeral 100 19 (M / 100)).length = 19 := numeral_length 19 _
      have hval := val_numeral (b := 100) 19 (M / 100) (by omega)
      have hshort : ((numeral 100 19 (M / 100)).rdropWhile (· = 0)).length ≤ 19 := by
        have hle := (List.rdropWhile_prefix (fun d : Nat => decide (d = 0))
          (numeral 100 19 (M / 100))).length_le
        rwa [hlen] at hle
      rw [if_neg hzero]
      generalize numeral 100 19 (M / 100) = D at hmant hval hlen hshort ⊢
      have he' : InRange e := ⟨he0, he1⟩
      refine ⟨_, rfl, .encode neg e _ hmant he', ?_, ?_⟩
      · rw [value_encode neg he' hmant.below, mag_rdropWhile (by norm_num)]
        congr 1
        unfold mag
        rw [hval, hlen]
        have h100 : ((100 : Nat) : ℚ) = 10 ^ (2 : Int) := by norm_num
        rw [h100, ← zpow_mul, Nat.cast_mul, h100, mul_assoc, ← zpow_add₀ (by norm_num)]
        congr 2
        push_cast
        ring
      · obtain ⟨se, m, heq, hl, -, -, -⟩ := encode_read neg he' hmant.below
        rw [heq]
        show m.length + 1 ≤ 20
        omega

/-- **The stored form is right exactly if leaving out the last digit gives the
    rounded integer.** -/
theorem isRounded_form (neg : Bool) {e : Int} (he : InRange e) {M M' : Nat} (hM : Roundable M)
    (hM' : M' ≤ 100 ^ 20) :
    IsRounded (roundedForm neg e M) (sgn neg * (M' * (10 : ℚ) ^ (2 * e - 40))) ↔
      M / 100 * 100 = M' := by
  have hz : (0 : ℚ) < 10 ^ (2 * e - 40) := by positivity
  have hsgn : sgn neg ≠ 0 := by cases neg <;> norm_num [sgn]
  have habs : |sgn neg * (M' * (10 : ℚ) ^ (2 * e - 40))| = M' * (10 : ℚ) ^ (2 * e - 40) := by
    have h1 : |sgn neg| = 1 := by cases neg <;> norm_num [sgn]
    rw [abs_mul, h1, one_mul, abs_of_nonneg (by positivity)]
  unfold IsRounded
  rcases roundedForm_spec neg he hM with ⟨htop, hexp, herr⟩ | ⟨w, hw, hcanon, hval, -⟩
  · -- The highest exponent: an overflow unless the number is smaller.
    have hscale : (100 : ℚ) ^ 63 = (10 : Nat) ^ 40 * 10 ^ (2 * e - 40) := by
      rw [hexp]
      norm_num
    have hiff : (100 : ℚ) ^ 63 ≤ M' * (10 : ℚ) ^ (2 * e - 40) ↔ 10 ^ 40 ≤ M' := by
      rw [hscale, mul_le_mul_iff_left₀ hz]
      exact_mod_cast Iff.rfl
    rw [habs, herr]
    constructor
    · intro h
      split_ifs at h with hov
      · have := hiff.mp hov
        omega
      · obtain ⟨w, hw, -⟩ := h
        cases hw
    · intro h
      rw [if_pos (hiff.mpr (by omega))]
  · rw [hw]
    constructor
    · intro h
      split_ifs at h with hov
      obtain ⟨w', hw', -, hv⟩ := h
      cases hw'
      rw [hval] at hv
      have := mul_right_cancel₀ hz.ne' (mul_left_cancel₀ hsgn hv)
      exact_mod_cast this
    · intro h
      rw [h] at hval
      have hlt := abs_value_lt hcanon
      rw [hval] at hlt
      rw [if_neg (not_le.mpr hlt)]
      exact ⟨w, rfl, hcanon, hval⟩

/-! ## §8. Where the function is right. -/

/-- The count is read from the second argument. -/
theorem read_count {c : MtdNumericType} {n : Int} (hc : Canonical c) (hn : IsSlong n)
    (h : value c = n) : numeric2Slong c = .ok n := by
  have hread := (numeric2Slong_iff hc).mpr (h.symm ▸ slongFits_of_isSlong hn)
  rw [hread, h]
  unfold slongOf
  rw [trunc_intCast, if_pos hn]

theorem roundFits_encode (neg : Bool) {e : Int} {ds : List Nat} (h : Mantissa ds)
    (he : InRange e) (n : Int) :
    RoundFits (encode neg e ds) n ↔ n ≠ -2 ^ 63 ∧
      roundNat (-n - 2 * e + 40).toNat (val 100 (buffer ds)) % 100 = 0 := by
  obtain ⟨se, d, m, heq, -, hx, hd⟩ := encode_cons neg he h
  rw [heq, roundNat_mod, val_buffer_mod h]
  show (_ = [] ∨ (n ≠ -2 ^ 63 ∧ ((digits se (d :: m)).getD 19 0 = 0 ∨ _ ∨
    _ ∧ ((digits se (d :: m)).getD 19 0 < 5 ∨ 95 ≤ (digits se (d :: m)).getD 19 0)))) ↔ _
  rw [hd, hx]
  generalize ds.getD 19 0 = t
  simp only [reduceCtorEq, false_or]
  refine and_congr_right fun _ => ?_
  omega

/-- **The result for a number that is not zero is right exactly where
    `RoundFits` holds.** -/
theorem isRounded_iff {v c : MtdNumericType} {n : Int} (hv : Canonical v)
    (hc : numeric2Slong c = .ok n) :
    IsRounded (roundFloat v c) (roundTo n (value v)) ↔ RoundFits v n := by
  cases hv with
  | zero =>
    refine ⟨fun _ => .inl rfl, fun _ => ?_⟩
    have hround : roundTo n (value zero) = 0 := by
      rw [value_zero]
      exact roundTo_of_multiple ⟨0, by simp⟩
    rw [hround]
    unfold IsRounded
    rw [if_neg (by norm_num)]
    exact ⟨zero, rfl, .zero, value_zero⟩
  | encode neg e ds h he =>
    obtain ⟨hN0, hN1⟩ := val_buffer_bounds h
    have hpos := h.mag_pos e
    rw [roundFloat_encode neg h he hc, roundFits_encode neg h he, value_encode neg he h.below,
      roundTo_sgn neg n hpos, mag_scaled h, roundTo_scaled,
      show -(n + (2 * e - 40)) = -n - 2 * e + 40 by ring]
    unfold negateSlong
    generalize val 100 (buffer ds) = N at hN0 hN1
    obtain ⟨he0, he1⟩ := id he
    by_cases hmin : n = -2 ^ 63
    · -- The least count is its own negation: nothing is rounded.
      rw [if_pos hmin, hmin]
      have hp : ((-2 ^ 63 : Int) - 2 * e + 40).toNat = 0 := by omega
      have hzero : roundNat (-(-2 ^ 63 : Int) - 2 * e + 40).toNat N = 0 :=
        roundNat_forty hN1 (by omega)
      rw [hp, hzero, isRounded_form neg he (roundable hN0 hN1 0) (by omega),
        roundNat_zero]
      constructor
      · omega
      · exact fun h => absurd rfl h.1
    · rw [if_neg hmin]
      have hM := roundable hN0 hN1 (-n - 2 * e + 40).toNat
      rw [isRounded_form neg he hM hM.2]
      constructor
      · intro h
        exact ⟨hmin, by omega⟩
      · rintro ⟨-, h⟩
        omega

/-! ## §9. Unchanged values, negation, and rounding twice. -/

/-- Where the rounding is right, a value with no digit beyond the position is
    returned as it is. -/
theorem roundFloat_unchanged {v c : MtdNumericType} {n : Int} (hv : Canonical v)
    (hc : numeric2Slong c = .ok n) (hfits : RoundFits v n)
    (h : ∃ z : Int, value v = z * 10 ^ (-n)) : roundFloat v c = .ok v := by
  have hr := (isRounded_iff hv hc).mpr hfits
  rw [roundTo_of_multiple h] at hr
  unfold IsRounded at hr
  rw [if_neg (not_le.mpr (abs_value_lt hv))] at hr
  obtain ⟨w, hw, hcanon, hval⟩ := hr
  rw [hw, canonical_unique hcanon hv hval]

/-- The stored form of the negated number. -/
theorem roundedForm_not (neg : Bool) {e : Int} (he : InRange e) {M : Nat} (hM : Roundable M) :
    roundedForm (!neg) e M = (roundedForm neg e M).map negate := by
  obtain ⟨he0, he1⟩ := id he
  unfold roundedForm
  split_ifs with htop hover hzero
  · rfl
  · show _ = Except.ok (negate (encode neg (e + 1) [1]))
    rw [negate_encode neg ⟨by omega, by omega⟩ (by decide)]
  · rfl
  · show _ = Except.ok (negate (encode neg e _))
    rw [negate_encode neg he (mantissa_kept hM htop hzero)]

/-- **Rounding is odd**, whatever the value. -/
theorem roundFloat_negate {v c : MtdNumericType} {n : Int} (hv : Canonical v)
    (hc : numeric2Slong c = .ok n) :
    roundFloat (negate v) c = (roundFloat v c).map negate := by
  cases hv with
  | zero => rfl
  | encode neg e ds h he =>
    obtain ⟨hN0, hN1⟩ := val_buffer_bounds h
    rw [negate_encode neg he h, roundFloat_encode _ h he hc, roundFloat_encode _ h he hc]
    exact roundedForm_not neg he (roundable hN0 hN1 _)

/-- A result fits for the same count. -/
theorem roundFits_result {v c w : MtdNumericType} {n : Int} (hv : Canonical v)
    (hc : numeric2Slong c = .ok n) (hfits : RoundFits v n) (hw : roundFloat v c = .ok w) :
    RoundFits w n := by
  cases hv with
  | zero =>
    cases hw
    exact .inl rfl
  | encode neg e ds h he =>
    obtain ⟨hN0, hN1⟩ := val_buffer_bounds h
    have hmin := ((roundFits_encode neg h he n).mp hfits).1
    rw [roundFloat_encode neg h he hc] at hw
    rcases roundedForm_spec neg he (roundable hN0 hN1 _) with ⟨-, -, herr⟩ | ⟨w', hw', hcanon, -, hlen⟩
    · rw [herr] at hw
      cases hw
    · rw [hw'] at hw
      cases hw
      -- It has no twentieth digit.
      cases hcanon with
      | zero => exact .inl rfl
      | encode neg' e' ds' h' he' =>
        obtain ⟨se, m, heq, hl, -, -, hd⟩ := encode_read neg' he' h'.below
        rw [heq] at hlen ⊢
        refine .inr ⟨hmin, .inl ?_⟩
        unfold twentieth
        rw [hd, List.getD_eq_getElem?_getD, List.getElem?_eq_none]
        · rfl
        · have : m.length + 1 ≤ 20 := hlen
          omega

/-- No index is outside the array, and the count is read. -/
theorem roundFloat_inside {v c : MtdNumericType} {n : Int} (hv : Canonical v)
    (hc : numeric2Slong c = .ok n) (i : Int) : roundFloat v c ≠ .error (.outside i) := by
  cases hv with
  | zero => exact fun h => nomatch h
  | encode neg e ds h he =>
    rw [roundFloat_encode neg h he hc]
    unfold roundedForm
    split_ifs <;> exact fun h => nomatch h

/-- **`roundFloat` is right exactly where the twentieth digit does not stay and
    the count has a negation.** -/
theorem roundFloat_iff {v c : MtdNumericType} {n : Int} (hv : Canonical v) (hn : IsSlong n)
    (hc : Canonical c) (hcn : value c = n) : RoundsTo v c n ↔ RoundFits v n := by
  have hread := read_count hc hn hcn
  constructor
  · intro h
    exact (isRounded_iff hv hread).mp h.result
  · intro hfits
    have hresult := (isRounded_iff hv hread).mpr hfits
    refine ⟨hresult, roundFloat_unchanged hv hread hfits, roundFloat_negate hv hread, ?_,
      roundFloat_inside hv hread⟩
    intro w hw
    have hform := hresult
    unfold IsRounded at hform
    split_ifs at hform with hov
    · rw [hform] at hw
      cases hw
    · obtain ⟨w', hw', hcanon, hval⟩ := hform
      rw [hw'] at hw
      cases hw
      exact roundFloat_unchanged hcanon hread (roundFits_result hv hread hfits hw') ⟨_, hval⟩

/-- 2.5 is rounded to 3. -/
theorem roundFloat_iff_twoAndHalf :
    RoundsTo (encode false 1 [2, 50]) zero 0 ↔ RoundFits (encode false 1 [2, 50]) 0 :=
  roundFloat_iff (.encode false 1 [2, 50] (by decide) (by decide)) (by decide) .zero
    (by rw [value_zero, Int.cast_zero])

/-- **A twentieth digit is lost although nothing is to be rounded**, and with
    the least count, one is not rounded to zero. -/
theorem roundFloat_drops :
    roundFloat (encode false 1 (List.replicate 20 11)) (makeNumeric 38) =
      .ok (encode false 1 (List.replicate 19 11)) ∧
    roundFloat (encode false 1 [1]) (makeNumeric (-2 ^ 63)) = .ok (encode false 1 [1]) ∧
    ¬ ∀ v c n, Canonical v → IsSlong n → Canonical c → value c = n → RoundsTo v c n := by
  have hdrop : roundFloat (encode false 1 (List.replicate 20 11)) (makeNumeric 38) =
      .ok (encode false 1 (List.replicate 19 11)) := by decide
  refine ⟨hdrop, by decide, ?_⟩
  intro h
  have hm : Mantissa (List.replicate 20 11) := by decide
  have hn : IsSlong 38 := by decide
  have hright := (h _ _ 38 (.encode false 1 _ hm (by decide)) hn (makeNumeric_form hn).1
    (makeNumeric_form hn).2).unchanged
  rw [hdrop] at hright
  have hsame := hright ⟨(val 100 (buffer (List.replicate 20 11)) : Nat), by
    rw [value_encode false (by decide) hm.below, mag_scaled hm]
    simp⟩
  exact absurd hsame (by decide)

end Altibase.Mtc
