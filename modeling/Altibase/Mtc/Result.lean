/-
  Altibase.Mtc.Result
  ───────────────────
  **HOW A PRODUCT OR A QUOTIENT IS STORED.**

  `multiplyFloat` and `divideFloat` end alike: the zeros at the end of the
  digits are trimmed, at most twenty digits are kept, and the exponent decides
  between an overflow, zero and the digits themselves.

  The digits are cut after they are trimmed.  If the last digit that is kept
  happens to be a zero, the stored value is not canonical; `store_iff` says
  that this is all that can go wrong.
-/

import Altibase.Mtc.Numeric

namespace Altibase.Mtc

open Altibase.Lib.Digits

/-- Why an arithmetic function fails. -/
inductive MathError where
  | valueOverflow
  | divideByZero
  deriving DecidableEq, Repr

/-! ## §1. The end of the two functions. -/

/-- Trims the zeros at the end, then keeps twenty digits. -/
def trimCut (ds : List Nat) : List Nat := (ds.rdropWhile (· = 0)).take 20

/-- Stores sign, exponent and digits. -/
def store (neg : Bool) (sResultExponent : Int) (ds : List Nat) :
    Except MathError MtdNumericType :=
  if 63 < sResultExponent then .error .valueOverflow
  else if sResultExponent < -63 then .ok zero
  else .ok (encode neg sResultExponent ds)

/-! ## §2. What should be stored. -/

/-- **The canonical form of `±q`, cut off towards zero after twenty digits**; an
    overflow if the exponent is too large, zero if it is too small. -/
def IsCut (r : Except MathError MtdNumericType) (neg : Bool) (q : ℚ) : Prop :=
  if 63 < expo 100 q then r = .error .valueOverflow
  else if expo 100 q < -63 then r = .ok zero
  else ∃ w, r = .ok w ∧ Canonical w ∧ value w = sgn neg * cut 100 20 q

/-- **Where it is stored so**: the exponent is out of range, or the twentieth
    digit is not zero, or no more than twenty digits are there. -/
def CutFits (q : ℚ) : Prop :=
  63 < expo 100 q ∨ expo 100 q < -63 ∨
    ⌊q * (100 : ℚ) ^ (20 - expo 100 q)⌋ % 100 ≠ 0 ∨ cut 100 20 q = q

/-- **The result of an operation whose exact value is `q`.** -/
def IsResult (r : Except MathError MtdNumericType) (q : ℚ) : Prop :=
  if q = 0 then r = .ok zero else IsCut r (q < 0) |q|

/-- The exact value of an operation on two numbers with signs and magnitudes. -/
theorem isResult_sgn {r : Except MathError MtdNumericType} {neg : Bool} {q : ℚ} (hq : 0 < q) :
    IsResult r (sgn neg * q) ↔ IsCut r neg q := by
  unfold IsResult
  cases neg with
  | false =>
    rw [show sgn false * q = q from one_mul q, if_neg hq.ne', abs_of_pos hq,
      decide_eq_false (not_lt.mpr hq.le)]
  | true =>
    have hneg : sgn true * q = -q := by simp [sgn]
    rw [hneg, if_neg (by linarith), abs_neg, abs_of_pos hq, decide_eq_true (by linarith)]

/-- The sign of a product. -/
theorem sgn_xor (s t : Bool) : sgn (s != t) = sgn s * sgn t := by
  cases s <;> cases t <;> norm_num [sgn]

/-! ## §3. Trimmed and cut. -/

section Store

variable {d : Nat} {ds : List Nat} {e : Int}

/-- To cut a value is to cut its digits. -/
theorem cut_mag20 (hd : d ≠ 0) (h : Below 100 (d :: ds)) :
    cut 100 20 (mag 100 e (d :: ds)) = mag 100 e ((d :: ds).take 20) :=
  cut_mag (by norm_num) e 20 hd h

/-- Trimming moves no digit: the cut keeps the same digits. -/
theorem trim_split (ds : List Nat) :
    ∃ k, ds = ds.rdropWhile (· = 0) ++ List.replicate k 0 := by
  induction ds using List.reverseRecOn with
  | nil => exact ⟨0, rfl⟩
  | append_singleton ds d ih =>
    by_cases hd : d = 0
    · obtain ⟨k, hk⟩ := ih
      refine ⟨k + 1, ?_⟩
      rw [List.rdropWhile_concat_pos _ _ _ (by simpa using hd), List.replicate_succ',
        ← List.append_assoc, ← hk, hd]
    · refine ⟨0, ?_⟩
      rw [List.rdropWhile_concat_neg _ _ _ (by simpa using hd)]
      simp

/-- The zeros at the end count for nothing. -/
theorem mag_trimCut (e : Int) (ds : List Nat) :
    mag 100 e (trimCut ds) = mag 100 e (ds.take 20) := by
  obtain ⟨k, hk⟩ := trim_split ds
  unfold trimCut
  conv_rhs => rw [hk, List.take_append, List.take_replicate, mag_append_zeros (by norm_num)]

/-- What is stored are digits. -/
theorem trimCut_below (h : Below 100 ds) : Below 100 (trimCut ds) :=
  (below_rdropWhile h).take 20

/-- They fit the mantissa. -/
theorem trimCut_length (ds : List Nat) : (trimCut ds).length ≤ mantissaMaximum := by
  unfold trimCut mantissaMaximum
  rw [List.length_take]
  exact min_le_left _ _

/-- No zero is left at the end, and the first digit is none. -/
theorem stripped_trim (ds : List Nat) (hd : d ≠ 0) : Stripped ((d :: ds).rdropWhile (· = 0)) := by
  apply stripped_rdropWhile (by norm_num : 0 < 100)
  · simpa using hd
  · rw [val_cons]
    have : 0 < d * 100 ^ ds.length := by positivity
    omega

/-- There is a digit to store. -/
theorem trimCut_ne (hd : d ≠ 0) : trimCut (d :: ds) ≠ [] := by
  have := (stripped_trim ds hd).ne
  unfold trimCut
  simp [this]

/-- The stored digits are stripped exactly if nothing was cut off or the last
    digit that was kept is not zero. -/
theorem stripped_trimCut (hd : d ≠ 0) :
    Stripped (trimCut (d :: ds)) ↔
      ((d :: ds).rdropWhile (· = 0)).length ≤ 20 ∨ (d :: ds).getD 19 0 ≠ 0 := by
  have hs := stripped_trim ds hd
  obtain ⟨k, hk⟩ := trim_split (d :: ds)
  unfold trimCut
  rcases le_or_gt ((d :: ds).rdropWhile (· = 0)).length 20 with hle | hgt
  · rw [List.take_of_length_le hle]
    exact ⟨fun _ => .inl hle, fun _ => hs⟩
  · have hget : (d :: ds).getD 19 0 = ((d :: ds).rdropWhile (· = 0)).getD 19 0 := by
      conv_lhs => rw [hk]
      rw [List.getD_eq_getElem?_getD, List.getD_eq_getElem?_getD,
        List.getElem?_append_left (by omega)]
    have hlast : (((d :: ds).rdropWhile (· = 0)).take 20).getLast? =
        some (((d :: ds).rdropWhile (· = 0)).getD 19 0) := by
      have h19 : 19 < ((d :: ds).rdropWhile (· = 0)).length := by omega
      rw [List.getLast?_take, if_neg (by omega), List.getD_eq_getElem _ _ h19,
        List.getElem?_eq_getElem h19]
      rfl
    rw [hget]
    constructor
    · intro h
      right
      intro h0
      apply h.last
      rw [hlast, h0]
    · rintro (h | h)
      · omega
      · obtain ⟨a, rest, hcons⟩ := List.exists_cons_of_ne_nil hs.ne
        constructor
        · rw [hcons]
          simp
        · have hhead := hs.head
          rw [hcons] at hhead ⊢
          simpa using hhead
        · rw [hlast]
          simpa using h

/-- The cut loses nothing exactly when the digits fit. -/
theorem cut_eq_self_iff (hd : d ≠ 0) (h : Below 100 (d :: ds)) :
    cut 100 20 (mag 100 e (d :: ds)) = mag 100 e (d :: ds) ↔
      ((d :: ds).rdropWhile (· = 0)).length ≤ 20 := by
  rw [cut_mag20 hd h, ← mag_trimCut]
  have htrim := mag_rdropWhile (b := 100) (by norm_num) e (d :: ds)
  rw [← htrim]
  constructor
  · intro heq
    have hs := stripped_trim ds hd
    have hlen : (trimCut (d :: ds)).length ≤ ((d :: ds).rdropWhile (· = 0)).length := by
      unfold trimCut
      rw [List.length_take]
      exact min_le_right _ _
    have := eq_of_mag_eq (by norm_num) (trimCut_below h) (below_rdropWhile h) hs hlen heq
    rw [← this]
    unfold trimCut
    rw [List.length_take]
    exact min_le_left _ _
  · intro hle
    unfold trimCut
    rw [List.take_of_length_le hle]

/-- The twentieth digit, read off the number. -/
theorem floor_mod (hd : d ≠ 0) (h : Below 100 (d :: ds)) (hlen : 20 ≤ (d :: ds).length) :
    ⌊mag 100 e (d :: ds) * (100 : ℚ) ^ (20 - expo 100 (mag 100 e (d :: ds)))⌋ % 100 =
      (d :: ds).getD 19 0 := by
  have hexpo : expo 100 (mag 100 e (d :: ds)) = e := expo_mag (by norm_num) e hd h
  have hmul := mag_mul_zpow (b := 100) (by norm_num) e (20 - e) (d :: ds)
  have hfloor := floor_mag (b := 100) (by norm_num) h hlen
  push_cast at hmul hfloor
  rw [hexpo, hmul, show e + (20 - e) = 20 by ring, hfloor]
  have h19 : 19 < (d :: ds).length := by omega
  have htake : (d :: ds).take 20 = (d :: ds).take 19 ++ [(d :: ds).getD 19 0] := by
    rw [show 20 = 19 + 1 by rfl, List.take_succ_eq_append_getElem h19,
      List.getD_eq_getElem _ _ h19]
  have hdig : (d :: ds).getD 19 0 < 100 := by
    rw [List.getD_eq_getElem _ _ h19]
    exact h _ (List.getElem_mem h19)
  rw [htake, val_concat]
  omega

/-- **Storing is right exactly where nothing is cut off or the last digit that
    is kept is not zero.** -/
theorem store_iff (neg : Bool) (hd : d ≠ 0) (h : Below 100 (d :: ds)) :
    IsCut (store neg e (trimCut (d :: ds))) neg (mag 100 e (d :: ds)) ↔
      CutFits (mag 100 e (d :: ds)) := by
  have hexpo : expo 100 (mag 100 e (d :: ds)) = e := expo_mag (by norm_num) e hd h
  unfold IsCut CutFits store
  rw [hexpo]
  -- the exponent decides first: too high is an error
  rcases lt_or_ge 63 e with hhigh | hhigh
  · rw [if_pos hhigh, if_pos hhigh]
    exact ⟨fun _ => .inl hhigh, fun _ => rfl⟩
  · rw [if_neg (not_lt.mpr hhigh), if_neg (not_lt.mpr hhigh)]
    -- too low is zero
    rcases lt_or_ge e (-63) with hlow | hlow
    · rw [if_pos hlow, if_pos hlow]
      exact ⟨fun _ => .inr (.inl hlow), fun _ => rfl⟩
    · rw [if_neg (not_lt.mpr hlow), if_neg (not_lt.mpr hlow)]
      have he : InRange e := ⟨hlow, hhigh⟩
      have hvalue : value (encode neg e (trimCut (d :: ds))) =
          sgn neg * cut 100 20 (mag 100 e (d :: ds)) := by
        rw [value_encode neg he (trimCut_below h), mag_trimCut, cut_mag20 hd h]
      have hcanon : Canonical (encode neg e (trimCut (d :: ds))) ↔
          Stripped (trimCut (d :: ds)) :=
        canonical_encode_iff neg he (trimCut_ne hd) (trimCut_below h) (trimCut_length _)
      -- the form is right if the last digit kept is no zero, or nothing was cut
      have hfits : Canonical (encode neg e (trimCut (d :: ds))) ↔
          ⌊mag 100 e (d :: ds) * (100 : ℚ) ^ (20 - e)⌋ % 100 ≠ 0 ∨
            cut 100 20 (mag 100 e (d :: ds)) = mag 100 e (d :: ds) := by
        rw [hcanon, stripped_trimCut hd, cut_eq_self_iff hd h, or_comm]
        rcases le_or_gt ((d :: ds).rdropWhile (· = 0)).length 20 with hle | hgt
        · exact ⟨fun _ => .inr hle, fun _ => .inr hle⟩
        · have hlen := ((List.rdropWhile_prefix (fun x : Nat => decide (x = 0))
            (d :: ds))).length_le
          have hmod := floor_mod (e := e) hd h (by omega)
          rw [hexpo] at hmod
          rw [hmod]
          simp
      constructor
      · rintro ⟨w, hw, hc, -⟩
        obtain rfl := Except.ok.inj hw
        exact .inr (.inr (hfits.mp hc))
      · rintro (hx | hx | hx)
        · omega
        · omega
        · exact ⟨_, rfl, hfits.mpr hx, hvalue⟩

end Store

end Altibase.Mtc
