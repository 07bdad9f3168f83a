/-
  Altibase.Mtc.Numeric
  ────────────────────
  **THE NUMERIC FORMAT.**

  A NUMERIC is a length byte, one byte for sign and exponent, and up to twenty
  digits in base 100.  The digits stand for `0.d₁d₂… × 100ᵉ`.  A positive
  number stores its digits and `e + 192`, a negative one the 99's complements
  of its digits and `64 - e`, so that the bytes compare like the numbers; the
  length is one more than the number of digits, and zero is the length alone
  with the byte `0x80`.

  Equality, hashing and index keys compare the bytes, so every number must
  have one encoding: no leading and no trailing zero digit (`Canonical`).

    * `value` — the number that the bytes denote;
    * `encode` — the bytes of a sign, an exponent and digits;
    * `canonical_unique` — canonical values with the same number have the same
      bytes.
-/

import Altibase.Lib.Digits
import Mathlib.Tactic.IntervalCases

namespace Altibase.Mtc

open Altibase.Lib.Digits

/-! ## §1. The bytes. -/

/-- `MTD_FLOAT_MANTISSA_MAXIMUM`. -/
def mantissaMaximum : Nat := 20

/-- **`mtdNumericType`.**  `length` is zero for a null value; otherwise
    `length - 1` bytes of `mantissa` count. -/
inductive MtdNumericType where
  | null
  | num (signExponent : Nat) (mantissa : List Nat)
  deriving DecidableEq, Repr

/-- The byte `length`. -/
def MtdNumericType.length : MtdNumericType → Nat
  | .null => 0
  | .num _ mantissa => mantissa.length + 1

/-- The encoding of zero. -/
def zero : MtdNumericType := .num 0x80 []

/-- The conversion of an `SInt` to `UChar`. -/
def uchar (i : Int) : Nat := (i % 256).toNat

/-- `signExponent & 0x80`, as a truth value. -/
def isPositive (signExponent : Nat) : Bool := signExponent &&& 0x80 = 0x80

/-- The exponent that both signs store in seven bits. -/
def exponent (signExponent : Nat) : Int :=
  if isPositive signExponent then ((signExponent &&& 0x7F : Nat) : Int) - 64
  else 64 - ((signExponent &&& 0x7F : Nat) : Int)

/-- The digits, whatever the sign. -/
def digits (signExponent : Nat) (mantissa : List Nat) : List Nat :=
  if isPositive signExponent then mantissa else mantissa.map (99 - ·)

/-- The bytes of a number with sign, exponent and digits. -/
def encode (neg : Bool) (e : Int) (ds : List Nat) : MtdNumericType :=
  if neg then .num (uchar (64 - e)) (ds.map (99 - ·)) else .num (uchar (e + 192)) ds

/-- The sign as a factor. -/
def sgn (neg : Bool) : ℚ := if neg then -1 else 1

@[simp] theorem sgn_false : sgn false = 1 := rfl

@[simp] theorem sgn_true : sgn true = -1 := rfl

/-- **The number that the bytes denote.** -/
def value : MtdNumericType → ℚ
  | .null => 0
  | .num se m => sgn (!isPositive se) * mag 100 (exponent se) (digits se m)

/-- The bytes of `-v`. -/
def negate : MtdNumericType → MtdNumericType
  | .null => .null
  | .num se [] => .num se []
  | .num se m => .num (uchar (256 - se)) (m.map (99 - ·))

/-- The array `sMantissa`: the digits, filled up with zeros. -/
def buffer (ds : List Nat) : List Nat := ds ++ List.replicate (mantissaMaximum - ds.length) 0

/-- The loop that sets the byte `length`: past the last nonzero digit among the
    first `fence`. -/
def usedLength (sMantissa : List Nat) : Nat → Nat
  | 0 => 1
  | fence + 1 =>
    if sMantissa.getD fence 0 ≠ 0 then fence + 2 else usedLength sMantissa fence

/-! ## §2. Canonical values. -/

/-- The digits of a canonical value. -/
structure Mantissa (ds : List Nat) : Prop extends Stripped ds where
  below : Below 100 ds
  length_le : ds.length ≤ mantissaMaximum

instance (ds : List Nat) : Decidable (Mantissa ds) :=
  decidable_of_iff (Stripped ds ∧ Below 100 ds ∧ ds.length ≤ mantissaMaximum)
    ⟨fun h => ⟨h.1, h.2.1, h.2.2⟩, fun h => ⟨h.toStripped, h.below, h.length_le⟩⟩

/-- An exponent that the format stores. -/
def InRange (e : Int) : Prop := -63 ≤ e ∧ e ≤ 63

instance (e : Int) : Decidable (InRange e) := inferInstanceAs (Decidable (_ ∧ _))

/-- **Canonical non-null values**: zero, and the encodings without a leading or
    trailing zero digit. -/
inductive Canonical : MtdNumericType → Prop
  | zero : Canonical zero
  | encode (neg : Bool) (e : Int) (ds : List Nat) (hds : Mantissa ds) (he : InRange e) :
    Canonical (encode neg e ds)

/-! ## §3. Reading back what was stored. -/

/-- The mask of the exponent. -/
theorem and_low (n : Nat) : n &&& 0x7F = n % 128 := Nat.and_two_pow_sub_one_eq_mod n 7

/-- The mask of the sign. -/
theorem and_high : ∀ n < 256, (n &&& 0x80 = 0x80 ↔ 128 ≤ n) := by decide +kernel

/-- A number that is a byte is stored as it is. -/
theorem uchar_of_range {i : Int} (h0 : 0 ≤ i) (h1 : i < 256) : (uchar i : Int) = i := by
  unfold uchar
  omega

/-- The byte of a positive number. -/
theorem positive_byte {e : Int} (he : InRange e) :
    isPositive (uchar (e + 192)) = true ∧ exponent (uchar (e + 192)) = e := by
  obtain ⟨h0, h1⟩ := he
  have hn := uchar_of_range (i := e + 192) (by omega) (by omega)
  have hlt : uchar (e + 192) < 256 := by omega
  have hpos : isPositive (uchar (e + 192)) = true := by
    unfold isPositive
    rw [decide_eq_true_iff, and_high _ hlt]
    omega
  refine ⟨hpos, ?_⟩
  unfold exponent
  rw [if_pos hpos, and_low]
  omega

/-- The byte of a negative number. -/
theorem negative_byte {e : Int} (he : InRange e) :
    isPositive (uchar (64 - e)) = false ∧ exponent (uchar (64 - e)) = e := by
  obtain ⟨h0, h1⟩ := he
  have hn := uchar_of_range (i := 64 - e) (by omega) (by omega)
  have hlt : uchar (64 - e) < 256 := by omega
  have hneg : isPositive (uchar (64 - e)) = false := by
    unfold isPositive
    rw [decide_eq_false_iff_not, and_high _ hlt]
    omega
  refine ⟨hneg, ?_⟩
  unfold exponent
  rw [if_neg (by simp [hneg]), and_low]
  omega

/-- Complementing twice gives the digits back. -/
theorem map_compl_compl {ds : List Nat} (h : Below 100 ds) :
    (ds.map (99 - ·)).map (99 - ·) = ds := compl_compl h

/-- **What is read from an encoding.** -/
theorem encode_read (neg : Bool) {e : Int} (he : InRange e) {ds : List Nat} (h : Below 100 ds) :
    ∃ se m, encode neg e ds = .num se m ∧ m.length = ds.length ∧ isPositive se = !neg ∧
      exponent se = e ∧ digits se m = ds := by
  cases neg with
  | false =>
    obtain ⟨hp, hx⟩ := positive_byte he
    refine ⟨_, _, rfl, rfl, hp, hx, ?_⟩
    unfold digits
    rw [if_pos hp]
  | true =>
    obtain ⟨hp, hx⟩ := negative_byte he
    refine ⟨_, _, rfl, List.length_map .., hp, hx, ?_⟩
    unfold digits
    rw [if_neg (by simp [hp])]
    exact map_compl_compl h

/-- A nonzero number has a first digit to be matched on. -/
theorem encode_cons (neg : Bool) {e : Int} (he : InRange e) {ds : List Nat} (h : Mantissa ds) :
    ∃ se d m, encode neg e ds = .num se (d :: m) ∧ isPositive se = !neg ∧ exponent se = e ∧
      digits se (d :: m) = ds := by
  obtain ⟨se, m, heq, hlen, hp, hx, hd⟩ := encode_read neg he h.below
  cases m with
  | nil => exact absurd (List.length_eq_zero_iff.mp hlen.symm) h.ne
  | cons d m => exact ⟨se, d, m, heq, hp, hx, hd⟩

/-- The value of a stored number. -/
theorem value_encode (neg : Bool) {e : Int} (he : InRange e) {ds : List Nat}
    (h : Below 100 ds) : value (encode neg e ds) = sgn neg * mag 100 e ds := by
  obtain ⟨se, m, heq, -, hp, hx, hd⟩ := encode_read neg he h
  rw [heq]
  show sgn (!isPositive se) * mag 100 (exponent se) (digits se m) = _
  rw [hp, hx, hd, Bool.not_not]

theorem value_zero : value zero = 0 := by
  show sgn _ * mag 100 _ (digits 0x80 []) = 0
  have : digits 0x80 [] = [] := by decide
  rw [this, mag_nil, mul_zero]

/-! ## §4. One encoding for every number. -/

/-- A sign is its own inverse. -/
theorem sgn_mul_self (neg : Bool) : sgn neg * sgn neg = 1 := by
  cases neg <;> norm_num [sgn]

/-- A sign does not count for the amount. -/
theorem abs_sgn (neg : Bool) {q : ℚ} (hq : 0 < q) : |sgn neg * q| = q := by
  cases neg <;> simp [sgn, abs_of_pos hq]

theorem sgn_not (neg : Bool) : sgn (!neg) = -sgn neg := by
  cases neg <;> norm_num [sgn]

/-- A mantissa has a positive amount. -/
theorem Mantissa.mag_pos {ds : List Nat} (h : Mantissa ds) (e : Int) : 0 < mag 100 e ds := by
  have hb := (h.toStripped.bounds (by norm_num : 0 < 100) e h.below).1
  have : (0 : ℚ) < (100 : Nat) ^ (e - 1) := by positivity
  linarith

/-- The sign of a nonzero number is determined by the number. -/
theorem sgn_inj {neg neg' : Bool} {p q : ℚ} (hp : 0 < p) (hq : 0 < q)
    (h : sgn neg * p = sgn neg' * q) : neg = neg' ∧ p = q := by
  cases neg <;> cases neg' <;> simp only [sgn, if_true, if_false, Bool.false_eq_true] at h
  · exact ⟨rfl, by linarith⟩
  · exfalso
    linarith
  · exfalso
    linarith
  · exact ⟨rfl, by linarith⟩

/-- A number with a mantissa is not zero. -/
theorem value_encode_ne_zero (neg : Bool) {e : Int} (he : InRange e) {ds : List Nat}
    (h : Mantissa ds) : value (encode neg e ds) ≠ 0 := by
  rw [value_encode neg he h.below]
  have := h.mag_pos e
  cases neg <;> simp [sgn] <;> linarith

/-- **Canonical values that denote the same number have the same bytes.** -/
theorem canonical_unique {v w : MtdNumericType} (hv : Canonical v) (hw : Canonical w)
    (h : value v = value w) : v = w := by
  cases hv with
  | zero =>
    cases hw with
    | zero => rfl
    | encode neg e ds hds he =>
      rw [value_zero] at h
      exact absurd h.symm (value_encode_ne_zero neg he hds)
  | encode neg e ds hds he =>
    cases hw with
    | zero =>
      rw [value_zero] at h
      exact absurd h (value_encode_ne_zero neg he hds)
    | encode neg' e' ds' hds' he' =>
      rw [value_encode neg he hds.below, value_encode neg' he' hds'.below] at h
      obtain ⟨rfl, hm⟩ := sgn_inj (hds.mag_pos e) (hds'.mag_pos e') h
      obtain ⟨rfl, rfl⟩ := mag_inj (by norm_num) hds.below hds'.below hds.toStripped
        hds'.toStripped hm
      rfl

/-- Bytes with digits are canonical exactly if the digits are stripped. -/
theorem canonical_encode_iff (neg : Bool) {e : Int} {ds : List Nat} (he : InRange e) (hne : ds ≠ [])
    (hb : Below 100 ds) (hlen : ds.length ≤ mantissaMaximum) :
    Canonical (encode neg e ds) ↔ Stripped ds := by
  constructor
  · intro h
    obtain ⟨se, m, heq, hl, -, -, hd⟩ := encode_read neg he hb
    generalize hv : encode neg e ds = v at h
    cases h with
    | zero =>
      exfalso
      rw [hv] at heq
      cases heq
      exact hne (List.length_eq_zero_iff.mp hl.symm)
    | encode neg' e' ds' hds' he' =>
      obtain ⟨se', m', heq', -, -, -, hd'⟩ := encode_read neg' he' hds'.below
      rw [← hv, heq] at heq'
      cases heq'
      rw [← hd, hd']
      exact hds'.toStripped
  · intro h
    exact .encode neg e ds ⟨h, hb, hlen⟩ he

/-! ## §5. Negation. -/

/-- A number is negated by complementing its bytes. -/
theorem negate_encode (neg : Bool) {e : Int} (he : InRange e) {ds : List Nat}
    (h : Mantissa ds) : negate (encode neg e ds) = encode (!neg) e ds := by
  obtain ⟨h0, h1⟩ := he
  obtain ⟨d, rest, rfl⟩ : ∃ d rest, ds = d :: rest := List.exists_cons_of_ne_nil h.ne
  cases neg with
  | false =>
    have hn := uchar_of_range (i := e + 192) (by omega) (by omega)
    show MtdNumericType.num (uchar (256 - (uchar (e + 192) : Int))) _ = _
    rw [hn]
    show _ = MtdNumericType.num (uchar (64 - e)) _
    congr 2
    ring
  | true =>
    have hn := uchar_of_range (i := 64 - e) (by omega) (by omega)
    show MtdNumericType.num (uchar (256 - (uchar (64 - e) : Int)))
      (((d :: rest).map (99 - ·)).map (99 - ·)) = _
    rw [hn, map_compl_compl h.below]
    show _ = MtdNumericType.num (uchar (e + 192)) _
    congr 2
    ring

/-- The result is canonical. -/
theorem canonical_negate {v : MtdNumericType} (h : Canonical v) : Canonical (negate v) := by
  cases h with
  | zero => exact .zero
  | encode neg e ds hds he =>
    rw [negate_encode neg he hds]
    exact .encode _ e ds hds he

/-- It has the opposite value. -/
theorem value_negate {v : MtdNumericType} (h : Canonical v) : value (negate v) = -value v := by
  cases h with
  | zero =>
    rw [show negate zero = zero from rfl, value_zero, neg_zero]
  | encode neg e ds hds he =>
    rw [negate_encode neg he hds, value_encode _ he hds.below, value_encode _ he hds.below,
      sgn_not, neg_mul]

/-! ## §6. Arrays of digits. -/

/-- The buffer begins with the digits, -/
theorem buffer_take {ds : List Nat} {k : Nat} (hk : k ≤ ds.length) :
    (buffer ds).take k = ds.take k :=
  List.take_append_of_le_length hk

/-- is as long as a mantissa can be, -/
theorem buffer_length {ds : List Nat} (h : ds.length ≤ mantissaMaximum) :
    (buffer ds).length = mantissaMaximum := by
  unfold buffer
  rw [List.length_append, List.length_replicate]
  omega

/-- has digits only, -/
theorem buffer_below {ds : List Nat} (h : Below 100 ds) : Below 100 (buffer ds) :=
  h.append (Below.zeros (by norm_num) _)

/-- with zeros behind them, -/
theorem buffer_getD (ds : List Nat) (k : Nat) : (buffer ds).getD k 0 = ds.getD k 0 := by
  unfold buffer
  by_cases hk : k < ds.length
  · simp [List.getElem?_append_left hk]
  · have hnone : ds[k]? = none := List.getElem?_eq_none (by omega)
    rw [List.getD_eq_getElem?_getD, List.getD_eq_getElem?_getD, hnone,
      List.getElem?_append_right (by omega), List.getElem?_replicate]
    split_ifs <;> rfl

/-- and the same amount. -/
theorem mag_buffer (e : Int) (ds : List Nat) : mag 100 e (buffer ds) = mag 100 e ds :=
  mag_append_zeros (by norm_num) e ds _

/-- **The digits that `usedLength` keeps** are those before the trailing zeros. -/
theorem take_usedLength (s : List Nat) (fence : Nat) :
    s.take (usedLength s fence - 1) = (s.take fence).rdropWhile (· = 0) := by
  induction fence with
  | zero => rfl
  | succ k ih =>
    unfold usedLength
    by_cases hk : k < s.length
    · have hget : s.getD k 0 = s[k] := by simp [hk]
      rw [hget, List.take_succ_eq_append_getElem hk]
      split_ifs with h0
      · rw [List.rdropWhile_concat_neg _ _ _ (by simpa using h0)]
        show s.take (k + 1) = _
        rw [List.take_succ_eq_append_getElem hk]
      · rw [not_not] at h0
        rw [List.rdropWhile_concat_pos _ _ _ (by simpa using h0)]
        exact ih
    · have hget : s.getD k 0 = 0 := by
        rw [List.getD_eq_getElem?_getD, List.getElem?_eq_none (by omega)]
        rfl
      rw [if_neg (not_not.mpr hget), ih, List.take_of_length_le (by omega),
        List.take_of_length_le (by omega)]

/-! ## §7. Adding one. -/

/-- The body of a carry loop: add, and move a hundred to the next digit. -/
def addStep (d c : Nat) : Nat × Nat :=
  if 100 ≤ d + c then (1, d + c - 100) else (0, d + c)

/-- A digit of the sum, and its carry. -/
theorem addStep_spec (d c : Nat) :
    (addStep d c).1 ≤ 1 ∧ (addStep d c).1 * 100 + (addStep d c).2 = d + c := by
  unfold addStep
  split_ifs <;> omega

/-- It is a digit. -/
theorem addStep_lt {d c : Nat} (hd : d ≤ 198) (hc : c ≤ 1) : (addStep d c).2 < 100 := by
  unfold addStep
  split_ifs <;> omega

/-- The carry loop adds one. -/
theorem carry_add {ds : List Nat} (h : Below 100 ds) :
    (carry addStep ds 1).1 ≤ 1 ∧ Below 100 (carry addStep ds 1).2 ∧
      (carry addStep ds 1).1 * 100 ^ ds.length + val 100 (carry addStep ds 1).2 =
        val 100 ds + 1 := by
  have hstep : ∀ d c, d < 100 → c ≤ 1 → (addStep d c).1 ≤ 1 ∧ (addStep d c).2 < 100 :=
    fun d c hd hc => ⟨(addStep_spec d c).1, addStep_lt (by omega) hc⟩
  have hspec := carry_spec (C := (· ≤ 1)) (P := (· < 100)) hstep ds h le_rfl
  have hval := val_carry 100 (C := (· ≤ 1)) (D := (· < 100))
    (fun d c _ _ => addStep_spec d c) ds h (c := 1) le_rfl
  exact ⟨hspec.1, hspec.2, hval⟩

end Altibase.Mtc
