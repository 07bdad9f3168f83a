/-
  Altibase.Mtc.Slong
  ──────────────────
  **NUMERIC AND SIGNED 64-BIT INTEGERS.**

  `makeNumeric` writes an integer as a NUMERIC.  It takes ten digits in base
  100 off an unsigned word, which is enough for every `SLong`; the least one
  has no negation and is a case of its own.

  `numeric2Slong` reads the whole part back.  It adds up the digits before the
  point in an unsigned 64-bit word and compares the sum with the limits
  afterwards.  Ten digits do not always fit in the word: from `2⁶⁴` on the sum
  wraps around, and where the remainder happens to lie within the limits it is
  returned.

    * `makeNumeric_form` — the NUMERIC of an integer;
    * `numeric2Slong_iff` — where the whole part is read right.
-/

import Altibase.Mtc.Numeric

namespace Altibase.Mtc

open Altibase.Lib.Digits

/-! ## §1. The two functions. -/

/-- Why a conversion fails. -/
inductive ConvertError where
  | nullValue
  | valueOverflow
  deriving DecidableEq, Repr

/-- `sPower`: the weights of the digits before the point. -/
def sPower : List Nat :=
  [1, 100, 10000, 1000000, 100000000, 10000000000, 1000000000000, 100000000000000,
    10000000000000000, 1000000000000000000]

/-- The sum of the first `n` digits with their weights, in an unsigned word of
    64 bits. -/
def sumDigits (sMantissa : List Nat) (n : Nat) : Nat :=
  (List.range n).foldl
    (fun sULongValue i =>
      (sULongValue + sMantissa.getD i 0 * sPower.getD (n - i - 1) 0) % 2 ^ 64) 0

/-- **`numeric2Slong`.** -/
def numeric2Slong : MtdNumericType → Except ConvertError Int
  | .null => .error .nullValue
  | .num _ [] => .ok 0
  | .num se (d :: ds) =>
    let sExponent := exponent se
    if 0 < sExponent ∧ sPower.length < sExponent then .error .valueOverflow
    else
      let sULongValue :=
        if 0 < sExponent then sumDigits (buffer (digits se (d :: ds))) sExponent.toNat else 0
      if isPositive se then
        if 9223372036854775807 < sULongValue then .error .valueOverflow else .ok sULongValue
      else if 9223372036854775808 < sULongValue then .error .valueOverflow
      else if sULongValue = 9223372036854775808 then .ok (-9223372036854775807 - 1)
      else .ok (-sULongValue)

/-- The digits that are taken off an unsigned word, `count` of them, before
    those that are already there. -/
def takeDigits : Nat → Nat → List Nat → List Nat
  | 0, _, sMantissa => sMantissa
  | count + 1, sULongValue, sMantissa =>
    takeDigits count (sULongValue / 100) (sULongValue % 100 :: sMantissa)

/-- Sign, exponent and digits of an unsigned word that is not zero. -/
def makeDigits (neg : Bool) (sULongValue : Nat) : MtdNumericType :=
  let ten := takeDigits 10 sULongValue []
  let lead := (ten.takeWhile (· = 0)).length
  let sMantissa := buffer (ten.drop lead)
  let length := usedLength sMantissa (mantissaMaximum - 1)
  let sExponent : Int := 10 - lead
  if neg then
    .num (uchar (64 - sExponent)) ((sMantissa.take (length - 1)).map (99 - ·))
  else .num (uchar (sExponent + 192)) (sMantissa.take (length - 1))

/-- **`makeNumeric` of an `SLong`.** -/
def makeNumeric (aNumber : Int) : MtdNumericType :=
  if aNumber = 0 then zero
  else if 0 < aNumber then makeDigits false aNumber.toNat
  else if aNumber = -9223372036854775807 - 1 then
    makeDigits true (9223372036854775807 + 1)
  else makeDigits true (-aNumber).toNat

/-! ## §2. What they should do. -/

/-- The signed 64-bit integers. -/
def IsSlong (n : Int) : Prop := -2 ^ 63 ≤ n ∧ n < 2 ^ 63

instance (n : Int) : Decidable (IsSlong n) := inferInstanceAs (Decidable (_ ∧ _))

/-- A number cut off towards zero. -/
def trunc (q : ℚ) : Int := if 0 ≤ q then ⌊q⌋ else ⌈q⌉

/-- The whole part if it is an `SLong`, an overflow otherwise. -/
def slongOf (q : ℚ) : Except ConvertError Int :=
  if IsSlong (trunc q) then .ok (trunc q) else .error .valueOverflow

/-- **Where `numeric2Slong` is right**: the whole part of the magnitude fits in
    the word, or needs more than ten digits, or what is left of it modulo `2⁶⁴`
    is beyond the limit as well. -/
def SlongFits (q : ℚ) : Prop :=
  ⌊|q|⌋ < 2 ^ 64 ∨ 100 ^ 10 ≤ ⌊|q|⌋ ∨
    if 0 ≤ q then 2 ^ 63 ≤ ⌊|q|⌋ % 2 ^ 64 else 2 ^ 63 < ⌊|q|⌋ % 2 ^ 64

/-! ## §3. From integers. -/

/-- The digits that are taken off are the low digits of the word. -/
theorem takeDigits_spec (count : Nat) : ∀ (u : Nat) (acc : List Nat), Below 100 acc →
    Below 100 (takeDigits count u acc) ∧
    (takeDigits count u acc).length = count + acc.length ∧
    val 100 (takeDigits count u acc) = u % 100 ^ count * 100 ^ acc.length + val 100 acc := by
  induction count with
  | zero =>
    intro u acc hacc
    exact ⟨hacc, (Nat.zero_add _).symm, by simp [takeDigits, Nat.mod_one]⟩
  | succ count ih =>
    intro u acc hacc
    have hlt : u % 100 < 100 := Nat.mod_lt _ (by norm_num)
    obtain ⟨hb, hl, hv⟩ := ih (u / 100) (u % 100 :: acc) (Below.cons_iff.mpr ⟨hlt, hacc⟩)
    unfold takeDigits
    refine ⟨hb, ?_, ?_⟩
    · rw [hl, List.length_cons]
      omega
    · have hsplit : u % 100 ^ (count + 1) = u / 100 % 100 ^ count * 100 + u % 100 := by
        rw [pow_succ', Nat.mod_mul]
        ring
      rw [hv, hsplit, val_cons, List.length_cons]
      ring

/-- **The digits of a positive word that ten digits hold.** -/
theorem makeDigits_form (neg : Bool) {u : Nat} (h0 : 0 < u) (h1 : u < 100 ^ 10) :
    Canonical (makeDigits neg u) ∧ value (makeDigits neg u) = sgn neg * u := by
  obtain ⟨hb, hl, hv⟩ := takeDigits_spec 10 u [] (fun d hd => absurd hd List.not_mem_nil)
  rw [Nat.mod_eq_of_lt h1] at hv
  simp only [List.length_nil, add_zero, pow_zero, mul_one, val_nil] at hl hv
  generalize hten : takeDigits 10 u [] = ten at hb hl hv
  have hdrop := drop_takeWhile (fun d : Nat => decide (d = 0)) ten
  have hval : val 100 ten ≠ 0 := by omega
  have hstrip := stripped_rdropWhile (by norm_num : 0 < 100) (dropWhile_head ten)
    (val_dropWhile_ne_zero (by norm_num) hval)
  have hmag : mag 100 (10 - (ten.takeWhile (· = 0)).length)
      ((ten.dropWhile (· = 0)).rdropWhile (· = 0)) = u := by
    rw [mag_rdropWhile (by norm_num), mag_dropWhile (by norm_num)]
    unfold mag
    rw [hl, hv]
    simp
  have hsum : (ten.takeWhile (· = 0)).length + (ten.dropWhile (· = 0)).length = 10 := by
    rw [← List.length_append, List.takeWhile_append_dropWhile, hl]
  -- The digits that are kept: no zeros in front, none at the end.
  have hkept : (buffer (ten.drop (ten.takeWhile (· = 0)).length)).take
      (usedLength (buffer (ten.drop (ten.takeWhile (· = 0)).length)) (mantissaMaximum - 1) - 1) =
      (ten.dropWhile (· = 0)).rdropWhile (· = 0) := by
    rw [take_usedLength, hdrop]
    unfold buffer mantissaMaximum
    rw [List.take_append, List.take_of_length_le (by omega), List.take_replicate,
      rdropWhile_append_zeros]
  have hlen : ((ten.dropWhile (· = 0)).rdropWhile (· = 0)).length ≤ 10 := by
    have := (List.rdropWhile_prefix (fun d : Nat => decide (d = 0))
      (ten.dropWhile (· = 0))).length_le
    omega
  have hmant : Mantissa ((ten.dropWhile (· = 0)).rdropWhile (· = 0)) :=
    ⟨hstrip, below_rdropWhile (below_dropWhile hb), by unfold mantissaMaximum; omega⟩
  have hpos : 0 < ((ten.dropWhile (· = 0)).rdropWhile (· = 0)).length :=
    List.length_pos_iff.mpr hstrip.ne
  have hrange : InRange (10 - (ten.takeWhile (· = 0)).length) := by
    unfold InRange
    omega
  have hform : makeDigits neg u = encode neg (10 - (ten.takeWhile (· = 0)).length)
      ((ten.dropWhile (· = 0)).rdropWhile (· = 0)) := by
    unfold makeDigits encode
    simp only [hten, hkept]
  rw [hform, value_encode neg hrange hmant.below, hmag]
  exact ⟨.encode neg _ _ hmant hrange, rfl⟩

/-- **The NUMERIC of an integer.** -/
theorem makeNumeric_form {n : Int} (hn : IsSlong n) :
    Canonical (makeNumeric n) ∧ value (makeNumeric n) = n := by
  obtain ⟨h0, h1⟩ := hn
  unfold makeNumeric
  split_ifs with hz hp hmin
  · subst hz
    exact ⟨.zero, by rw [value_zero, Int.cast_zero]⟩
  · obtain ⟨hc, hv⟩ := makeDigits_form false (u := n.toNat) (by omega) (by omega)
    refine ⟨hc, ?_⟩
    have hcast : ((n.toNat : Nat) : ℚ) = n := by
      exact_mod_cast congrArg (Int.cast : Int → ℚ) (Int.toNat_of_nonneg hp.le)
    rw [hv, hcast]
    exact one_mul _
  · obtain ⟨hc, hv⟩ := makeDigits_form true (u := 9223372036854775807 + 1) (by omega) (by omega)
    refine ⟨hc, ?_⟩
    rw [hv, hmin]
    norm_num [sgn]
  · obtain ⟨hc, hv⟩ := makeDigits_form true (u := (-n).toNat) (by omega) (by omega)
    refine ⟨hc, ?_⟩
    have hcast : (((-n).toNat : Nat) : ℚ) = -n := by
      exact_mod_cast congrArg (Int.cast : Int → ℚ) (Int.toNat_of_nonneg (by omega : 0 ≤ -n))
    rw [hv, hcast]
    simp [sgn]

/-! ## §4. To integers. -/

theorem sPower_getD : ∀ k < 10, sPower.getD k 0 = 100 ^ k := by decide

/-- **The sum is the whole part modulo the word.** -/
theorem sumDigits_eq (s : List Nat) {n : Nat} (hn : n ≤ 10) (hlen : n ≤ s.length) :
    sumDigits s n = val 100 (s.take n) % 2 ^ 64 := by
  have hpart : ∀ j ≤ n, (List.range j).foldl
      (fun u i => (u + s.getD i 0 * sPower.getD (n - i - 1) 0) % 2 ^ 64) 0 =
      val 100 (s.take j) * 100 ^ (n - j) % 2 ^ 64 := by
    intro j
    induction j with
    | zero =>
      intro _
      simp
    | succ j ih =>
      intro hj
      have hget : s.getD j 0 = s[j] := by simp [show j < s.length by omega]
      have hpow : n - j = n - (j + 1) + 1 := by omega
      have hidx : n - j - 1 = n - (j + 1) := by omega
      rw [List.range_succ, List.foldl_append, ih (by omega), List.foldl_cons, List.foldl_nil,
        hget, hidx, sPower_getD _ (by omega), List.take_succ_eq_append_getElem (by omega),
        val_concat, hpow, pow_succ, Nat.mod_add_mod]
      congr 1
      ring
  have h := hpart n le_rfl
  rw [Nat.sub_self, pow_zero, mul_one] at h
  exact h

/-- `numeric2Slong` on an encoding. -/
theorem numeric2Slong_encode (neg : Bool) {e : Int} {ds : List Nat} (h : Mantissa ds)
    (he : InRange e) :
    numeric2Slong (encode neg e ds) =
      if 10 < e then .error .valueOverflow
      else
        let u := if 0 < e then sumDigits (buffer ds) e.toNat else 0
        if neg then
          if 9223372036854775808 < u then .error .valueOverflow else .ok (-u)
        else if 9223372036854775807 < u then .error .valueOverflow else .ok u := by
  obtain ⟨se, m, heq, hl, hp, hx, hd⟩ := encode_read neg he h.below
  obtain ⟨d, rest, rfl⟩ : ∃ d rest, m = d :: rest := by
    apply List.exists_cons_of_length_pos
    rw [hl]
    exact List.length_pos_iff.mpr h.ne
  have hten : (0 < e ∧ ((sPower.length : Nat) : Int) < e) ↔ 10 < e := by
    have : sPower.length = 10 := rfl
    omega
  rw [heq]
  unfold numeric2Slong
  simp only [hp, hx, hd, hten]
  generalize (if 0 < e then sumDigits (buffer ds) e.toNat else 0) = u
  cases neg with
  | false => rfl
  | true =>
    simp only [Bool.not_true, Bool.false_eq_true, if_false, if_true]
    by_cases hmin : u = 9223372036854775808
    · rw [if_pos hmin, hmin]
      rfl
    · rw [if_neg hmin]

theorem trunc_sgn (neg : Bool) {q : ℚ} (hq : 0 < q) :
    trunc (sgn neg * q) = if neg then -⌊q⌋ else ⌊q⌋ := by
  cases neg with
  | false => simp [sgn, trunc, hq.le]
  | true =>
    have hlt : ¬ (0 ≤ -q) := by linarith
    simp [sgn, trunc, hlt, Int.ceil_neg]

theorem sgn_nonneg_iff (neg : Bool) {q : ℚ} (hq : 0 < q) : 0 ≤ sgn neg * q ↔ neg = false := by
  cases neg with
  | false => simp [sgn, hq.le]
  | true =>
    simp only [sgn, if_true, Bool.true_eq_false, iff_false]
    linarith

/-- The digits before the point, as the code reads them. -/
theorem floor_buffer {ds : List Nat} (h : Mantissa ds) {k : Nat} (hk : k ≤ mantissaMaximum) :
    ⌊mag 100 k ds⌋ = (val 100 ((buffer ds).take k) : Nat) := by
  rw [← mag_buffer]
  exact floor_mag (by norm_num) (buffer_below h.below) (by rw [buffer_length h.length_le]; exact hk)

/-- The comparison with the limits, on the wrapped sum. -/
theorem limits_iff (neg : Bool) (w : Nat) :
    ((if neg then
        if 9223372036854775808 < w % 2 ^ 64 then
          (.error .valueOverflow : Except ConvertError Int)
        else .ok (-((w % 2 ^ 64 : Nat) : Int))
      else if 9223372036854775807 < w % 2 ^ 64 then .error .valueOverflow
      else .ok ((w % 2 ^ 64 : Nat) : Int)) =
      if IsSlong (if neg then -(w : Int) else w) then .ok (if neg then -(w : Int) else w)
      else .error .valueOverflow) ↔
    w < 2 ^ 64 ∨ if neg then 2 ^ 63 < w % 2 ^ 64 else 2 ^ 63 ≤ w % 2 ^ 64 := by
  unfold IsSlong
  cases neg
  all_goals
    simp only [if_true, Bool.false_eq_true, if_false]
    split_ifs
    all_goals
      simp only [Except.ok.injEq, true_iff, false_iff]
      omega

/-- **Where `numeric2Slong` reads the whole part right.** -/
theorem numeric2Slong_iff {v : MtdNumericType} (hv : Canonical v) :
    numeric2Slong v = slongOf (value v) ↔ SlongFits (value v) := by
  cases hv with
  | zero =>
    rw [value_zero]
    have h0 : slongOf 0 = .ok 0 := by
      unfold slongOf trunc
      simp [IsSlong]
    rw [h0]
    refine ⟨fun _ => .inl (by simp), fun _ => rfl⟩
  | encode neg e ds h he =>
    have hpos := h.mag_pos e
    rw [value_encode neg he h.below, numeric2Slong_encode neg h he]
    unfold slongOf SlongFits
    rw [trunc_sgn neg hpos, abs_sgn neg hpos, if_congr (sgn_nonneg_iff neg hpos) rfl rfl]
    rcases lt_or_ge (10 : Int) e with hten | hten
    · -- More than ten digits before the point.
      have hbig : (100 : Int) ^ 10 ≤ ⌊mag 100 e ds⌋ := by
        rw [Int.le_floor]
        have h1 := (h.toStripped.bounds (by norm_num : 0 < 100) e h.below).1
        have h2 : ((100 : Nat) : ℚ) ^ (10 : Int) ≤ ((100 : Nat) : ℚ) ^ (e - 1) :=
          zpow_le_zpow_right₀ (by norm_num) (by omega)
        calc (((100 : Int) ^ 10 : Int) : ℚ) = ((100 : Nat) : ℚ) ^ (10 : Int) := by norm_num
          _ ≤ mag 100 e ds := h2.trans h1
      rw [if_pos hten, if_neg]
      · exact ⟨fun _ => .inr (.inl hbig), fun _ => rfl⟩
      · unfold IsSlong
        cases neg <;> simp only [if_true, Bool.false_eq_true, if_false] <;> omega
    · rw [if_neg (by omega)]
      rcases lt_or_ge 0 e with h0 | h0
      · obtain ⟨k, rfl⟩ : ∃ k : Nat, e = k := ⟨e.toNat, by omega⟩
        have hk : k ≤ mantissaMaximum := by unfold mantissaMaximum; omega
        have hlen : k ≤ (buffer ds).length := by rw [buffer_length h.length_le]; exact hk
        have hfloor := floor_buffer h hk
        have hsum := sumDigits_eq (buffer ds) (by omega : k ≤ 10) hlen
        have hsmall : val 100 ((buffer ds).take k) < 100 ^ 10 := by
          have h1 := val_lt ((buffer_below h.below).take k)
          rw [List.length_take, min_eq_left hlen] at h1
          exact lt_of_lt_of_le h1 (Nat.pow_le_pow_right (by norm_num) (by omega))
        simp only [if_pos h0, Int.toNat_natCast, hsum, hfloor]
        refine (limits_iff neg _).trans ?_
        cases neg
        all_goals
          simp only [if_true, Bool.false_eq_true, if_false, Bool.true_eq_false]
          omega
      · have hfloor : ⌊mag 100 e ds⌋ = 0 := by
          rw [Int.floor_eq_zero_iff]
          have h1 := (h.toStripped.bounds (by norm_num : 0 < 100) e h.below).2
          have h2 : ((100 : Nat) : ℚ) ^ e ≤ 1 := zpow_le_one_of_nonpos₀ (by norm_num) h0
          exact ⟨hpos.le, by linarith⟩
        simp only [if_neg (not_lt.mpr h0), hfloor]
        refine ⟨fun _ => .inl (by norm_num), fun _ => ?_⟩
        cases neg <;> simp [IsSlong]

/-! ## §5. Both ways. -/

/-- A whole number within the limits is read right. -/
theorem slongFits_of_isSlong {n : Int} (hn : IsSlong n) : SlongFits n := by
  obtain ⟨h0, h1⟩ := hn
  left
  have habs : ⌊|(n : ℚ)|⌋ = |n| := by
    rw [← Int.cast_abs, Int.floor_intCast]
  rw [habs, abs_lt]
  omega

theorem trunc_intCast (n : Int) : trunc n = n := by
  unfold trunc
  split_ifs
  · exact Int.floor_intCast n
  · exact Int.ceil_intCast n

/-- **The conversions are right at `v` and `n`**: reading `v` gives its whole
    part or an overflow; writing `n` gives its canonical form, from which `n` is
    read back. -/
structure ConvertsRight (v : MtdNumericType) (n : Int) : Prop where
  read : numeric2Slong v = slongOf (value v)
  write : Canonical (makeNumeric n) ∧ value (makeNumeric n) = n
  roundTrip : numeric2Slong (makeNumeric n) = .ok n

/-- **The conversions are right exactly where the sum of the digits cannot
    deceive the limits.** -/
theorem convertsRight_iff {v : MtdNumericType} (hv : Canonical v) {n : Int} (hn : IsSlong n) :
    ConvertsRight v n ↔ SlongFits (value v) := by
  constructor
  · intro h
    exact (numeric2Slong_iff hv).mp h.read
  · intro h
    have hform := makeNumeric_form hn
    constructor
    · exact (numeric2Slong_iff hv).mpr h
    · exact hform
    · have hback := (numeric2Slong_iff hform.1).mpr (hform.2.symm ▸ slongFits_of_isSlong hn)
      rw [hback, hform.2]
      unfold slongOf
      rw [trunc_intCast, if_pos hn]

/-- `-123456.78` is read and `9876543` is stored. -/
theorem convertsRight_iff_digits :
    ConvertsRight (encode true 3 [12, 34, 56, 78]) 9876543 ↔
      SlongFits (value (encode true 3 [12, 34, 56, 78])) :=
  convertsRight_iff (.encode true 3 [12, 34, 56, 78] (by decide) (by decide)) (by decide)

/-- **19 · 10¹⁸ is read as 553255926290448384.** -/
theorem wraps :
    numeric2Slong (encode false 10 [19]) = .ok 553255926290448384 ∧
    ¬ ∀ v n, Canonical v → IsSlong n → ConvertsRight v n := by
  have hread : numeric2Slong (encode false 10 [19]) = .ok 553255926290448384 := by decide
  refine ⟨hread, ?_⟩
  intro h
  have hm : Mantissa [19] := ⟨⟨by simp, by simp, by simp⟩, by simp [Below], by decide⟩
  have hr : InRange 10 := by unfold InRange; omega
  have hright := (h _ 0 (.encode false 10 [19] hm hr) (by decide)).read
  rw [hread, value_encode false hr hm.below] at hright
  have hval : sgn false * mag 100 10 [19] = ((19 * 100 ^ 9 : Int) : ℚ) := by
    simp [sgn, mag, val_singleton]
    norm_num
  rw [hval] at hright
  unfold slongOf at hright
  rw [trunc_intCast, if_neg (by decide)] at hright
  cases hright

end Altibase.Mtc
