/-
  Altibase.Mtc.Round
  ──────────────────
  **FLOOR AND CEILING.**

  `ceilFloat` and `floorFloat` cut a NUMERIC at its point.  Cutting a magnitude
  is right where the result moves towards zero; where it moves away from zero
  one must be added to the whole digits as soon as some fraction digit is not
  zero, and the carry may run through a row of 99s and make the number one
  digit longer.

  Neither function trims the zeros that the cut or the carry leaves at the end,
  and `floorFloat` looks at the first fraction digit only.  So the results are
  right exactly on the values that `CeilFits` and `FloorFits` describe:

    * `ceil_iff`, `floor_iff` — where each result is the canonical form of the
      integer it should be;
    * `roundsRight_iff` — both at once, with what follows for the two functions
      together.
-/

import Altibase.Mtc.Numeric

namespace Altibase.Mtc

open Altibase.Lib.Digits

/-! ## §1. The two functions. -/

/-- Adds one to the first `k` digits; a carry that is left makes the number one
    digit longer. -/
def roundUp (sMantissa : List Nat) (k : Nat) : Nat × List Nat :=
  let r := carry addStep (sMantissa.take k) 1
  if r.1 ≠ 0 then (k + 1, 1 :: r.2) else (k, r.2)

/-- **`ceilFloat`.** -/
def ceilFloat : MtdNumericType → MtdNumericType
  | .null => .null
  | .num _ [] => zero
  | .num se (d :: ds) =>
    let m := d :: ds
    let sMantissa := buffer m
    let sExponent := exponent se
    if isPositive se then
      -- less than a hundredth
      if sExponent < 0 then .num (uchar (1 + 192)) [1]
      else if sExponent < mantissaMaximum then
        let k := sExponent.toNat
        let sHasFraction := (sMantissa.drop k).any (0 < ·)
        let r := if sHasFraction then roundUp sMantissa k else (k, sMantissa.take k)
        if r.1 < m.length + 1 then .num (uchar (r.1 + 192)) r.2 else .num se m
      else .num se m
    else if sExponent ≤ 0 then zero
    else if sExponent < m.length + 1 then
      .num (uchar (64 - sExponent)) (sMantissa.take sExponent.toNat)
    else .num se m

/-- **`floorFloat`.** -/
def floorFloat : MtdNumericType → MtdNumericType
  | .null => .null
  | .num _ [] => zero
  | .num se (d :: ds) =>
    let m := d :: ds
    let sMantissa := buffer (digits se m)
    let sExponent := exponent se
    if isPositive se then
      if sExponent ≤ 0 then zero
      else if sExponent < m.length + 1 then
        .num (uchar (sExponent + 192)) (sMantissa.take sExponent.toNat)
      else .num se m
    -- less than a hundredth below zero
    else if sExponent < 0 then .num (uchar (64 - 1)) [98]
    else if sExponent < mantissaMaximum then
      let k := sExponent.toNat
      -- Only the first fraction digit is looked at.
      let r := if 0 < sMantissa.getD k 0 then roundUp sMantissa k else (k, sMantissa.take k)
      if r.1 < m.length + 1 then .num (uchar (64 - r.1)) (r.2.map (99 - ·)) else .num se m
    else .num se m

/-! ## §2. Where they are right. -/

/-- The digit before the point. -/
def lastWhole (se : Nat) (m : List Nat) : Nat := (digits se m).getD ((exponent se).toNat - 1) 0

/-- The digit after the point. -/
def firstFraction (se : Nat) (m : List Nat) : Nat := (digits se m).getD (exponent se).toNat 0

/-- **Where `ceilFloat` is right**: nothing is cut off, or nothing is left
    before the point, or the last whole digit of the result is not zero. -/
def CeilFits : MtdNumericType → Prop
  | .null => False
  | .num se m => exponent se ≤ 0 ∨ (m.length : Int) ≤ exponent se ∨
    lastWhole se m ≠ if isPositive se then 99 else 0

/-- **Where `floorFloat` is right**: for a negative number that is cut, the
    first fraction digit must not be zero either. -/
def FloorFits : MtdNumericType → Prop
  | .null => False
  | .num se m => exponent se ≤ 0 ∨ (m.length : Int) ≤ exponent se ∨
    if isPositive se then lastWhole se m ≠ 0 else lastWhole se m ≠ 99 ∧ firstFraction se m ≠ 0

/-- `w` is the canonical form of the integer `z`. -/
def IsForm (w : MtdNumericType) (z : Int) : Prop := Canonical w ∧ value w = z

/-! ## §3. Whole and fraction digits. -/

section Split

variable {ds : List Nat}

/-- With no digit before the point the magnitude is below one. -/
theorem mag_lt_one (h : Mantissa ds) {e : Int} (he : e ≤ 0) : mag 100 e ds < 1 := by
  have h1 := (h.toStripped.bounds (by norm_num : 0 < 100) e h.below).2
  have h2 : ((100 : Nat) : ℚ) ^ e ≤ 1 := zpow_le_one_of_nonpos₀ (by norm_num) he
  linarith

/-- With no digit after the point it is an integer. -/
theorem mag_int {k : Nat} (hk : ds.length ≤ k) :
    mag 100 k ds = ((val 100 ds * 100 ^ (k - ds.length) : Nat) : Int) := by
  unfold mag
  have he : ((k : Int) - ds.length) = ((k - ds.length : Nat) : Int) := by omega
  rw [he, zpow_natCast]
  push_cast
  rfl

/-- Cut at the point, the magnitude is a whole number and a proper fraction. -/
theorem mag_cut (h : Mantissa ds) {k : Nat} (hk : k < ds.length) :
    ∃ f : ℚ, 0 < f ∧ f < 1 ∧ mag 100 k ds = val 100 (ds.take k) + f := by
  refine ⟨mag 100 0 (ds.drop k), ?_, ?_, ?_⟩
  · -- The last digit is not zero.
    have hne : val 100 (ds.drop k) ≠ 0 := by
      intro h0
      rw [val_eq_zero_iff (by norm_num)] at h0
      have hlast := h.last
      rw [← List.take_append_drop k ds, List.getLast?_append_of_ne_nil] at hlast
      · apply hlast
        rw [List.getLast?_eq_some_getLast (by simpa using hk)]
        exact congrArg some (h0 _ (List.getLast_mem _))
      · simpa using hk
    unfold mag
    have : (0 : ℚ) < (val 100 (ds.drop k) : Nat) := by exact_mod_cast Nat.pos_of_ne_zero hne
    positivity
  · have := mag_lt (by norm_num : 0 < 100) 0 (h.below.drop k)
    simpa using this
  · rw [mag_split (by norm_num) k k hk.le, sub_self]
    congr 1
    unfold mag
    rw [List.length_take, min_eq_left hk.le, sub_self, zpow_zero, mul_one]

theorem mag_take {k : Nat} (hk : k ≤ ds.length) :
    mag 100 k (ds.take k) = (val 100 (ds.take k) : Nat) := by
  unfold mag
  rw [List.length_take, min_eq_left hk, sub_self, zpow_zero, mul_one]

/-- The cut itself is a stripped string exactly if its last digit is not zero. -/
theorem stripped_take (h : Mantissa ds) {k : Nat} (hk : k < ds.length) (hpos : 0 < k) :
    Stripped (ds.take k) ↔ ds.getD (k - 1) 0 ≠ 0 := by
  have hlast : (ds.take k).getLast? = some (ds.getD (k - 1) 0) := by
    rw [List.getLast?_take, if_neg (by omega)]
    have hk' : k - 1 < ds.length := by omega
    simp [List.getElem?_eq_getElem hk']
  constructor
  · intro hs h0
    apply hs.last
    rw [hlast, h0]
  · intro h0
    obtain ⟨d, rest, rfl⟩ := List.exists_cons_of_ne_nil h.ne
    obtain ⟨j, rfl⟩ : ∃ j, k = j + 1 := ⟨k - 1, by omega⟩
    constructor
    · simp
    · rw [List.take_succ_cons]
      exact h.head
    · rw [hlast]
      simpa using h0

end Split

/-! ## §4. Adding one to the whole digits. -/

section RoundUp

variable {ds : List Nat} {k : Nat}

theorem roundUp_length (hk : k ≤ ds.length) :
    (roundUp (buffer ds) k).2.length = (roundUp (buffer ds) k).1 ∧
    k ≤ (roundUp (buffer ds) k).1 ∧ (roundUp (buffer ds) k).1 ≤ k + 1 := by
  have hl : (carry addStep (ds.take k) 1).2.length = k := by
    rw [carry_length, List.length_take, min_eq_left hk]
  unfold roundUp
  rw [buffer_take hk]
  dsimp only
  split_ifs
  · exact ⟨by rw [List.length_cons, hl], Nat.le_succ k, le_rfl⟩
  · exact ⟨hl, le_rfl, Nat.le_succ k⟩

theorem roundUp_val (h : Below 100 ds) (hk : k ≤ ds.length) :
    Below 100 (roundUp (buffer ds) k).2 ∧
    val 100 (roundUp (buffer ds) k).2 = val 100 (ds.take k) + 1 := by
  obtain ⟨hc, hb, hv⟩ := carry_add (h.take k)
  have hl : (ds.take k).length = k := by rw [List.length_take, min_eq_left hk]
  unfold roundUp
  rw [buffer_take hk]
  dsimp only
  split_ifs with hr
  · have h1 : (carry addStep (ds.take k) 1).1 = 1 := by omega
    refine ⟨Below.cons_iff.mpr ⟨by norm_num, hb⟩, ?_⟩
    rw [val_cons, carry_length, ← hv, h1]
  · have h0 : (carry addStep (ds.take k) 1).1 = 0 := by omega
    refine ⟨hb, ?_⟩
    rw [← hv, h0, zero_mul, zero_add]

theorem roundUp_head (h : Mantissa ds) (hk : k ≤ ds.length) :
    (roundUp (buffer ds) k).2.head? ≠ some 0 := by
  unfold roundUp
  rw [buffer_take hk]
  dsimp only
  split_ifs with hr
  · simp
  · obtain ⟨d, rest, rfl⟩ := List.exists_cons_of_ne_nil h.ne
    have hd := h.toStripped.head_ne
    cases k with
    | zero => simp
    | succ j =>
      rw [List.take_succ_cons, carry_cons] at hr ⊢
      simp only [addStep] at hr ⊢
      split_ifs at hr ⊢ with hge
      · simp at hr
      · simp only [List.head?_cons, ne_eq, Option.some.injEq]
        omega

/-- The last digit is one more, or zero after a carry. -/
theorem roundUp_last (hk : k ≤ ds.length) (hpos : 0 < k) (h : Below 100 ds) :
    (roundUp (buffer ds) k).2.getLast? ≠ some 0 ↔ ds.getD (k - 1) 0 ≠ 99 := by
  obtain ⟨j, rfl⟩ : ∃ j, k = j + 1 := ⟨k - 1, by omega⟩
  have hj : j < ds.length := by omega
  have hd : ds[j] < 100 := h _ (List.getElem_mem hj)
  have htake : ds.take (j + 1) = ds.take j ++ [ds[j]] := by
    rw [List.take_succ_eq_append_getElem hj]
  have hlast : (roundUp (buffer ds) (j + 1)).2.getLast? = some (addStep ds[j] 1).2 := by
    unfold roundUp
    rw [buffer_take hk, htake, carry_append]
    dsimp only
    split_ifs
    · rw [← List.cons_append, List.getLast?_append_of_ne_nil _ (by simp [carry_cons])]
      rfl
    · rw [List.getLast?_append_of_ne_nil _ (by simp [carry_cons])]
      rfl
  have hget : ds.getD (j + 1 - 1) 0 = ds[j] := by simp [hj]
  rw [hlast, hget]
  unfold addStep
  split_ifs <;> simp <;> omega

theorem stripped_roundUp (h : Mantissa ds) (hk : k ≤ ds.length) :
    Stripped (roundUp (buffer ds) k).2 ↔ k = 0 ∨ ds.getD (k - 1) 0 ≠ 99 := by
  rcases Nat.eq_zero_or_pos k with rfl | hpos
  · have h1 : (roundUp (buffer ds) 0).2 = [1] := rfl
    rw [h1]
    simp only [true_or, iff_true]
    exact ⟨by simp, by simp, by simp⟩
  · rw [← roundUp_last hk hpos h.below]
    have hne : k ≠ 0 := by omega
    simp only [hne, false_or]
    constructor
    · exact fun hs => hs.last
    · intro hl
      refine ⟨?_, roundUp_head h hk, hl⟩
      intro hnil
      have := roundUp_length hk
      rw [hnil] at this
      simp only [List.length_nil] at this
      omega

/-- **One more than the whole digits.** -/
theorem mag_roundUp (h : Mantissa ds) (hk : k ≤ ds.length) :
    mag 100 (roundUp (buffer ds) k).1 (roundUp (buffer ds) k).2 =
      (val 100 (ds.take k) : Nat) + 1 := by
  unfold mag
  rw [(roundUp_length hk).1, sub_self, zpow_zero, mul_one, (roundUp_val h.below hk).2]
  push_cast
  rfl

end RoundUp

/-! ## §5. What the functions compute. -/

section Compute

variable {ds : List Nat} {e : Int}

/-- The positive number with digits `[1]` at the point. -/
theorem one_form (neg : Bool) :
    Canonical (encode neg 1 [1]) ∧ value (encode neg 1 [1]) = sgn neg := by
  have hm : Mantissa [1] := ⟨⟨by simp, by simp, by simp⟩, by simp [Below], by decide⟩
  have hr : InRange 1 := by unfold InRange; omega
  refine ⟨.encode neg 1 [1] hm hr, ?_⟩
  rw [value_encode neg hr hm.below]
  simp [mag, val_singleton]

/-- The two functions on an encoding, read through its sign, exponent and digits. -/
theorem ceilFloat_encode_pos (h : Mantissa ds) (he : InRange e) :
    ceilFloat (encode false e ds) =
      if e < 0 then encode false 1 [1]
      else if e < mantissaMaximum then
        let k := e.toNat
        let r := if ((buffer ds).drop k).any (0 < ·) then roundUp (buffer ds) k
          else (k, (buffer ds).take k)
        if r.1 < ds.length + 1 then encode false r.1 r.2 else encode false e ds
      else encode false e ds := by
  obtain ⟨d, rest, rfl⟩ := List.exists_cons_of_ne_nil h.ne
  obtain ⟨hp, hx⟩ := positive_byte he
  show ceilFloat (.num (uchar (e + 192)) (d :: rest)) = _
  unfold ceilFloat
  simp only [hp, hx, if_true]
  rfl

theorem ceilFloat_encode_neg (h : Mantissa ds) (he : InRange e) :
    ceilFloat (encode true e ds) =
      if e ≤ 0 then zero
      else if e < ds.length + 1 then encode true e (ds.take e.toNat)
      else encode true e ds := by
  obtain ⟨d, rest, rfl⟩ := List.exists_cons_of_ne_nil h.ne
  obtain ⟨hp, hx⟩ := negative_byte he
  show ceilFloat (.num (uchar (64 - e)) ((99 - d) :: rest.map (99 - ·))) = _
  unfold ceilFloat
  simp only [hp, hx, Bool.false_eq_true, if_false, List.length_cons, List.length_map]
  split_ifs with h0 h1
  · rfl
  · have hk : e.toNat ≤ (d :: rest).length := by
      rw [List.length_cons]
      omega
    have htake : (buffer ((99 - d) :: rest.map (99 - ·))).take e.toNat =
        ((d :: rest).take e.toNat).map (99 - ·) := by
      rw [← List.map_cons (f := (99 - ·)), buffer_take (by simpa using hk), List.map_take]
    rw [htake]
    rfl
  · rfl

theorem floorFloat_encode_pos (h : Mantissa ds) (he : InRange e) :
    floorFloat (encode false e ds) =
      if e ≤ 0 then zero
      else if e < ds.length + 1 then encode false e ((buffer ds).take e.toNat)
      else encode false e ds := by
  obtain ⟨d, rest, rfl⟩ := List.exists_cons_of_ne_nil h.ne
  obtain ⟨hp, hx⟩ := positive_byte he
  show floorFloat (.num (uchar (e + 192)) (d :: rest)) = _
  unfold floorFloat digits
  simp only [hp, hx, if_true]
  rfl

theorem floorFloat_encode_neg (h : Mantissa ds) (he : InRange e) :
    floorFloat (encode true e ds) =
      if e < 0 then encode true 1 [1]
      else if e < mantissaMaximum then
        let k := e.toNat
        let r := if 0 < (buffer ds).getD k 0 then roundUp (buffer ds) k
          else (k, (buffer ds).take k)
        if r.1 < ds.length + 1 then encode true r.1 r.2 else encode true e ds
      else encode true e ds := by
  obtain ⟨d, rest, rfl⟩ := List.exists_cons_of_ne_nil h.ne
  obtain ⟨hp, hx⟩ := negative_byte he
  have hback : (99 - (99 - d)) :: (rest.map (99 - ·)).map (99 - ·) = d :: rest := by
    rw [← map_compl_compl h.below]
    rfl
  show floorFloat (.num (uchar (64 - e)) ((99 - d) :: rest.map (99 - ·))) = _
  unfold floorFloat digits
  simp only [hp, hx, Bool.false_eq_true, if_false, List.map_cons, hback, List.length_cons,
    List.length_map]
  rfl

/-! ### Towards zero. -/

/-- Cutting at the point. -/
def cutResult (neg : Bool) (e : Int) (ds : List Nat) : MtdNumericType :=
  if e ≤ 0 then zero
  else if e < ds.length + 1 then encode neg e ((buffer ds).take e.toNat)
  else encode neg e ds

/-- **What the cut denotes**: the whole part. -/
theorem value_cutResult (neg : Bool) (h : Mantissa ds) (he : InRange e) :
    value (cutResult neg e ds) = sgn neg * ⌊mag 100 e ds⌋ := by
  unfold cutResult
  split_ifs with h0 h1
  · have hfloor : ⌊mag 100 e ds⌋ = 0 := by
      rw [Int.floor_eq_zero_iff]
      exact ⟨mag_nonneg e ds, mag_lt_one h h0⟩
    rw [value_zero, hfloor, Int.cast_zero, mul_zero]
  · obtain ⟨k, rfl⟩ : ∃ k : Nat, e = k := ⟨e.toNat, by omega⟩
    have hk : k ≤ ds.length := by omega
    rw [Int.toNat_natCast, buffer_take hk, value_encode neg he (h.below.take k), mag_take hk]
    rcases hk.lt_or_eq with hlt | heq
    · obtain ⟨f, hf0, hf1, hmag⟩ := mag_cut h hlt
      have hfloor : ⌊mag 100 k ds⌋ = (val 100 (ds.take k) : Nat) := by
        rw [hmag, Int.floor_eq_iff]
        push_cast
        constructor <;> linarith
      rw [hfloor]
      rfl
    · have hmag := mag_take hk
      rw [List.take_of_length_le heq.ge] at hmag ⊢
      rw [hmag, Int.floor_natCast]
      rfl
  · obtain ⟨k, rfl⟩ : ∃ k : Nat, e = k := ⟨e.toNat, by omega⟩
    rw [value_encode neg he h.below, mag_int (by omega), Int.floor_intCast]

theorem canonical_cutResult (neg : Bool) (h : Mantissa ds) (he : InRange e) :
    Canonical (cutResult neg e ds) ↔
      e ≤ 0 ∨ (ds.length : Int) ≤ e ∨ ds.getD (e.toNat - 1) 0 ≠ 0 := by
  unfold cutResult
  split_ifs with h0 h1
  · exact ⟨fun _ => .inl h0, fun _ => .zero⟩
  · obtain ⟨k, rfl⟩ : ∃ k : Nat, e = k := ⟨e.toNat, by omega⟩
    have hk : k ≤ ds.length := by omega
    rw [Int.toNat_natCast, buffer_take hk]
    rcases hk.lt_or_eq with hlt | heq
    · have hpos : 0 < k := by omega
      rw [canonical_encode_iff neg he (by simp [h.ne]; omega) (h.below.take k)
        (by rw [List.length_take]; have := h.length_le; omega), stripped_take h hlt hpos]
      constructor
      · exact fun hd => .inr (.inr hd)
      · rintro (hk0 | hn | hd)
        · omega
        · omega
        · exact hd
    · rw [List.take_of_length_le heq.ge]
      exact ⟨fun _ => .inr (.inl (by omega)), fun _ => .encode neg k ds h he⟩
  · exact ⟨fun _ => .inr (.inl (by omega)), fun _ => .encode neg e ds h he⟩

/-! ### Away from zero. -/

/-- Cutting at the point and adding one if `sHasFraction`. -/
def awayResult (sHasFraction neg : Bool) (e : Int) (ds : List Nat) : MtdNumericType :=
  if e < 0 then encode neg 1 [1]
  else if e < mantissaMaximum then
    let k := e.toNat
    let r := if sHasFraction then roundUp (buffer ds) k else (k, (buffer ds).take k)
    if r.1 < ds.length + 1 then encode neg r.1 r.2 else encode neg e ds
  else encode neg e ds

theorem awayResult_of_neg (frac neg : Bool) (h0 : e < 0) :
    awayResult frac neg e ds = encode neg 1 [1] := if_pos h0

/-- With nothing to cut the value is returned as it is. -/
theorem awayResult_of_whole (neg : Bool) (hn : (ds.length : Int) ≤ e) :
    awayResult false neg e ds = encode neg e ds := by
  obtain ⟨k, rfl⟩ : ∃ k : Nat, e = k := ⟨e.toNat, by omega⟩
  unfold awayResult
  rw [if_neg (by omega)]
  by_cases h1 : (k : Int) < mantissaMaximum
  · rw [if_pos h1]
    simp only [Bool.false_eq_true, if_false, Int.toNat_natCast]
    by_cases h2 : k < ds.length + 1
    · have hk : k = ds.length := by omega
      rw [if_pos h2, buffer_take hk.le, List.take_of_length_le hk.ge]
    · rw [if_neg h2]
  · rw [if_neg h1]

/-- With a fraction that is noticed one is added. -/
theorem awayResult_of_cut (neg : Bool) (h : Mantissa ds) (h0 : 0 ≤ e) (hn : e < ds.length) :
    awayResult true neg e ds =
      encode neg (roundUp (buffer ds) e.toNat).1 (roundUp (buffer ds) e.toNat).2 := by
  have hle := h.length_le
  have hk : e.toNat ≤ ds.length := by omega
  have hl := roundUp_length hk
  unfold awayResult
  rw [if_neg (by omega), if_pos (by omega)]
  simp only [if_true]
  rw [if_pos (by omega)]

/-- **What `awayResult` denotes** where the fraction is noticed. -/
theorem value_awayResult (neg : Bool) (h : Mantissa ds) (h0 : 0 ≤ e) (hn : e < ds.length) :
    value (awayResult true neg e ds) = sgn neg * ⌈mag 100 e ds⌉ := by
  obtain ⟨k, rfl⟩ : ∃ k : Nat, e = k := ⟨e.toNat, by omega⟩
  have hk : k < ds.length := by omega
  have hle := h.length_le
  unfold mantissaMaximum at hle
  have hl := roundUp_length hk.le
  have hrange : InRange (roundUp (buffer ds) k).1 := by
    unfold InRange
    omega
  rw [awayResult_of_cut neg h h0 hn, Int.toNat_natCast,
    value_encode neg hrange (roundUp_val h.below hk.le).1, mag_roundUp h hk.le]
  obtain ⟨f, hf0, hf1, hmag⟩ := mag_cut h hk
  have hceil : ⌈mag 100 k ds⌉ = (val 100 (ds.take k) : Nat) + 1 := by
    rw [hmag, Int.ceil_eq_iff]
    push_cast
    constructor <;> linarith
  rw [hceil]
  push_cast
  rfl

theorem canonical_awayResult (neg : Bool) (h : Mantissa ds) (h0 : 0 ≤ e) (hn : e < ds.length) :
    Canonical (awayResult true neg e ds) ↔ e ≤ 0 ∨ ds.getD (e.toNat - 1) 0 ≠ 99 := by
  obtain ⟨k, rfl⟩ : ∃ k : Nat, e = k := ⟨e.toNat, by omega⟩
  have hk : k < ds.length := by omega
  have hle := h.length_le
  unfold mantissaMaximum at hle
  have hl := roundUp_length hk.le
  have hrange : InRange (roundUp (buffer ds) k).1 := by
    unfold InRange
    omega
  rw [awayResult_of_cut neg h h0 hn, Int.toNat_natCast,
    canonical_encode_iff neg hrange _ (roundUp_val h.below hk.le).1, stripped_roundUp h hk.le]
  · constructor
    · rintro (hk0 | hd)
      · left
        omega
      · exact .inr hd
    · rintro (hk0 | hd)
      · left
        omega
      · exact .inr hd
  · unfold mantissaMaximum
    omega
  · intro hnil
    have hval := (roundUp_val h.below hk.le).2
    rw [hnil] at hval
    simp at hval

/-- A fraction that goes unnoticed is cut off. -/
theorem value_awayResult_false (neg : Bool) (h : Mantissa ds) (he : InRange e) (h0 : 0 ≤ e)
    (hn : e < ds.length) :
    value (awayResult false neg e ds) = sgn neg * (⌈mag 100 e ds⌉ - 1) := by
  obtain ⟨k, rfl⟩ : ∃ k : Nat, e = k := ⟨e.toNat, by omega⟩
  have hk : k < ds.length := by omega
  have hle := h.length_le
  have hres : awayResult false neg k ds = encode neg k (ds.take k) := by
    unfold awayResult
    rw [if_neg (by omega), if_pos (by omega)]
    simp only [Bool.false_eq_true, if_false, Int.toNat_natCast]
    rw [if_pos (by omega), buffer_take hk.le]
  rw [hres, value_encode neg he (h.below.take k), mag_take hk.le]
  obtain ⟨f, hf0, hf1, hmag⟩ := mag_cut h hk
  have hceil : ⌈mag 100 k ds⌉ = (val 100 (ds.take k) : Nat) + 1 := by
    rw [hmag, Int.ceil_eq_iff]
    push_cast
    constructor <;> linarith
  rw [hceil]
  push_cast
  ring

/-! ### The fraction. -/

/-- Some digit after the point is not zero exactly if there is a digit there. -/
theorem hasFraction_iff (h : Mantissa ds) (k : Nat) :
    ((buffer ds).drop k).any (0 < ·) = true ↔ k < ds.length := by
  unfold buffer
  rw [List.any_eq_true]
  constructor
  · rintro ⟨d, hd, hpos⟩
    by_contra hk
    rw [List.drop_append, List.drop_eq_nil_of_le (by omega), List.nil_append] at hd
    have h0 := List.eq_of_mem_replicate (List.mem_of_mem_drop hd)
    simp [h0] at hpos
  · intro hk
    obtain ⟨init, d, rfl⟩ : ∃ init d, ds = init ++ [d] := by
      refine ⟨ds.dropLast, ds.getLast h.ne, ?_⟩
      rw [List.dropLast_append_getLast]
    have hd : d ≠ 0 := by
      intro h0
      apply h.last
      rw [h0]
      simp
    refine ⟨d, ?_, by simpa using Nat.pos_of_ne_zero hd⟩
    rw [List.length_append, List.length_singleton] at hk
    rw [List.append_assoc, List.drop_append_of_le_length (by omega)]
    simp

theorem ceil_sgn_pos (e : Int) (ds : List Nat) :
    ⌈sgn false * mag 100 e ds⌉ = ⌈mag 100 e ds⌉ ∧ ⌊sgn false * mag 100 e ds⌋ = ⌊mag 100 e ds⌋ := by
  simp [sgn]

theorem ceil_sgn_neg (e : Int) (ds : List Nat) :
    ⌈sgn true * mag 100 e ds⌉ = -⌊mag 100 e ds⌋ ∧
    ⌊sgn true * mag 100 e ds⌋ = -⌈mag 100 e ds⌉ := by
  simp [sgn, Int.ceil_neg, Int.floor_neg]

/-- Rounding away from zero is right exactly where the fraction is noticed and
    the last digit of the result is not zero. -/
theorem isForm_awayResult (frac neg : Bool) (h : Mantissa ds) (he : InRange e)
    (hzero : e = 0 → frac = true) (hwhole : (ds.length : Int) ≤ e → frac = false) :
    (Canonical (awayResult frac neg e ds) ∧
      value (awayResult frac neg e ds) = sgn neg * ⌈mag 100 e ds⌉) ↔
    e ≤ 0 ∨ (ds.length : Int) ≤ e ∨ (frac = true ∧ ds.getD (e.toNat - 1) 0 ≠ 99) := by
  rcases lt_or_ge e 0 with h0 | h0
  · -- an amount below 0.01 is rounded to one
    rw [awayResult_of_neg frac neg h0]
    have hceil : ⌈mag 100 e ds⌉ = 1 := by
      rw [Int.ceil_eq_iff]
      have := h.mag_pos e
      have := mag_lt_one h h0.le
      constructor <;> push_cast <;> linarith
    rw [hceil, Int.cast_one, mul_one]
    exact ⟨fun _ => .inl h0.le, fun _ => one_form neg⟩
  · -- a part behind the point, or none
    rcases lt_or_ge e (ds.length : Int) with hn | hn
    · cases hf : frac with
      | true =>
        rw [canonical_awayResult neg h h0 hn, value_awayResult neg h h0 hn]
        constructor
        · rintro ⟨hz | hd, -⟩
          · exact .inl hz
          · exact .inr (.inr ⟨rfl, hd⟩)
        · rintro (hz | hn' | ⟨-, hd⟩)
          · exact ⟨.inl hz, rfl⟩
          · omega
          · exact ⟨.inr hd, rfl⟩
      -- a fraction that was not seen is cut off, which is not the ceiling
      | false =>
        have hpos : e ≠ 0 := by
          intro hz
          rw [hzero hz] at hf
          cases hf
        rw [value_awayResult_false neg h he h0 hn]
        constructor
        · rintro ⟨-, hv⟩
          exfalso
          cases neg <;> simp [sgn] at hv
        · rintro (hz | hn' | ⟨ht, -⟩)
          · omega
          · omega
          · cases ht
    · rw [hwhole hn, awayResult_of_whole neg hn]
      obtain ⟨k, rfl⟩ : ∃ k : Nat, e = k := ⟨e.toNat, by omega⟩
      rw [value_encode neg he h.below, mag_int (by omega), Int.ceil_intCast]
      exact ⟨fun _ => .inr (.inl hn), fun _ => ⟨.encode neg k ds h he, rfl⟩⟩

theorem isForm_cutResult (neg : Bool) (h : Mantissa ds) (he : InRange e) :
    (Canonical (cutResult neg e ds) ∧
      value (cutResult neg e ds) = sgn neg * ⌊mag 100 e ds⌋) ↔
    e ≤ 0 ∨ (ds.length : Int) ≤ e ∨ ds.getD (e.toNat - 1) 0 ≠ 0 := by
  rw [canonical_cutResult neg h he]
  exact and_iff_left (value_cutResult neg h he)

end Compute

/-! ## §6. Where the two functions are right. -/

theorem ceilFits_encode (neg : Bool) {e : Int} {ds : List Nat} (h : Mantissa ds)
    (he : InRange e) :
    CeilFits (encode neg e ds) ↔
      e ≤ 0 ∨ (ds.length : Int) ≤ e ∨ ds.getD (e.toNat - 1) 0 ≠ if neg then 0 else 99 := by
  obtain ⟨se, m, heq, hl, hp, hx, hd⟩ := encode_read neg he h.below
  rw [heq]
  show exponent se ≤ 0 ∨ (m.length : Int) ≤ exponent se ∨
    lastWhole se m ≠ (if isPositive se then 99 else 0) ↔ _
  unfold lastWhole
  rw [hl, hp, hx, hd]
  cases neg <;> simp

theorem floorFits_encode (neg : Bool) {e : Int} {ds : List Nat} (h : Mantissa ds)
    (he : InRange e) :
    FloorFits (encode neg e ds) ↔
      e ≤ 0 ∨ (ds.length : Int) ≤ e ∨
        if neg then ds.getD (e.toNat - 1) 0 ≠ 99 ∧ ds.getD e.toNat 0 ≠ 0
        else ds.getD (e.toNat - 1) 0 ≠ 0 := by
  obtain ⟨se, m, heq, hl, hp, hx, hd⟩ := encode_read neg he h.below
  rw [heq]
  show (exponent se ≤ 0 ∨ (m.length : Int) ≤ exponent se ∨
    if isPositive se then lastWhole se m ≠ 0
    else lastWhole se m ≠ 99 ∧ firstFraction se m ≠ 0) ↔ _
  unfold lastWhole firstFraction
  rw [hl, hp, hx, hd]
  cases neg <;> simp

theorem isForm_zero : IsForm zero 0 := ⟨.zero, by rw [value_zero, Int.cast_zero]⟩

/-- **Where `ceilFloat` gives the canonical form of the least integer that is
    not below the value.** -/
theorem ceil_iff {v : MtdNumericType} (hv : Canonical v) :
    IsForm (ceilFloat v) ⌈value v⌉ ↔ CeilFits v := by
  cases hv with
  | zero =>
    rw [value_zero, Int.ceil_zero]
    exact ⟨fun _ => .inl (by decide), fun _ => isForm_zero⟩
  | encode neg e ds h he =>
    rw [value_encode neg he h.below, ceilFits_encode neg h he]
    unfold IsForm
    cases neg with
    | false =>
      -- a positive number is rounded away from zero
      have hfrac := hasFraction_iff h e.toNat
      rw [(ceil_sgn_pos e ds).1, ceilFloat_encode_pos h he]
      have hform := isForm_awayResult (((buffer ds).drop e.toNat).any (0 < ·)) false h he
        (fun hz => hfrac.mpr (by have := List.length_pos_iff.mpr h.ne; omega))
        (fun hn => by rw [Bool.eq_false_iff]; exact fun ht => by have := hfrac.mp ht; omega)
      refine Iff.trans ?_ (hform.trans ?_)
      · simp only [sgn, Bool.false_eq_true, if_false, one_mul]
        rfl
      · simp only [Bool.false_eq_true, if_false]
        constructor
        · rintro (hz | hn | ⟨-, hd⟩)
          · exact .inl hz
          · exact .inr (.inl hn)
          · exact .inr (.inr hd)
        · rintro (hz | hn | hd)
          · exact .inl hz
          · exact .inr (.inl hn)
          · by_cases hlt : e.toNat < ds.length
            · exact .inr (.inr ⟨hfrac.mpr hlt, hd⟩)
            · by_cases hz : e ≤ 0
              · exact .inl hz
              · exact .inr (.inl (by omega))
    | true =>
      -- a negative number is cut
      rw [(ceil_sgn_neg e ds).1, ceilFloat_encode_neg h he]
      have htake : (if e ≤ 0 then zero
          else if e < ds.length + 1 then encode true e (ds.take e.toNat)
          else encode true e ds) = cutResult true e ds := by
        unfold cutResult
        split_ifs with h0 h1
        · rfl
        · rw [buffer_take (by omega)]
        · rfl
      rw [htake]
      refine Iff.trans ?_ (isForm_cutResult true h he)
      simp [sgn]

/-- **Where `floorFloat` gives the canonical form of the greatest integer that
    is not above the value.** -/
theorem floor_iff {v : MtdNumericType} (hv : Canonical v) :
    IsForm (floorFloat v) ⌊value v⌋ ↔ FloorFits v := by
  cases hv with
  | zero =>
    rw [value_zero, Int.floor_zero]
    exact ⟨fun _ => .inl (by decide), fun _ => isForm_zero⟩
  | encode neg e ds h he =>
    rw [value_encode neg he h.below, floorFits_encode neg h he]
    unfold IsForm
    cases neg with
    | false =>
      rw [(ceil_sgn_pos e ds).2, floorFloat_encode_pos h he]
      refine Iff.trans ?_ (isForm_cutResult false h he)
      simp only [sgn, Bool.false_eq_true, if_false, one_mul]
      rfl
    | true =>
      rw [(ceil_sgn_neg e ds).2, floorFloat_encode_neg h he]
      have hfirst : e = 0 → decide (0 < (buffer ds).getD e.toNat 0) = true := by
        rintro rfl
        obtain ⟨d, rest, rfl⟩ := List.exists_cons_of_ne_nil h.ne
        exact decide_eq_true (Nat.pos_of_ne_zero h.toStripped.head_ne)
      have hwhole : (ds.length : Int) ≤ e → decide (0 < (buffer ds).getD e.toNat 0) = false := by
        intro hn
        rw [buffer_getD, List.getD_eq_getElem?_getD, List.getElem?_eq_none (by omega)]
        rfl
      have hform := isForm_awayResult _ true h he hfirst hwhole
      refine Iff.trans ?_ (hform.trans ?_)
      · unfold awayResult
        simp [sgn]
      · rw [buffer_getD, decide_eq_true_iff, Nat.pos_iff_ne_zero]
        simp only [if_true]
        tauto

/-! ## §7. Both functions together. -/

/-- **The two roundings are right at `v`.**  Each result is the canonical form
    of the integer it should be; the rounding down is the negated rounding up of
    the negated value; the results enclose the value; and they are the value
    itself exactly where it is an integer. -/
structure RoundsRight (v : MtdNumericType) : Prop where
  ceil : IsForm (ceilFloat v) ⌈value v⌉
  floor : IsForm (floorFloat v) ⌊value v⌋
  dual : floorFloat v = negate (ceilFloat (negate v))
  order : value (floorFloat v) ≤ value v ∧ value v ≤ value (ceilFloat v)
  unchanged : (floorFloat v = v ↔ ∃ z : Int, value v = z) ∧
    (ceilFloat v = v ↔ ∃ z : Int, value v = z)

/-- Where the rounding down is right, so is the rounding up of the negation. -/
theorem ceilFits_negate {v : MtdNumericType} (hv : Canonical v) (h : FloorFits v) :
    CeilFits (negate v) := by
  cases hv with
  | zero => exact .inl (by decide)
  | encode neg e ds hds he =>
    rw [floorFits_encode neg hds he] at h
    rw [negate_encode neg he hds, ceilFits_encode _ hds he]
    refine h.imp id (Or.imp id ?_)
    cases neg with
    | false => exact fun hd => hd
    | true => exact fun hd => hd.1

/-- The canonical form of an integer is the value itself if that is its number. -/
theorem IsForm.eq_self_iff {v w : MtdNumericType} {f : ℚ → Int} (hv : Canonical v)
    (hw : IsForm w (f (value v))) (hf : ∀ z : Int, f z = z) :
    w = v ↔ ∃ z : Int, value v = z := by
  constructor
  · rintro rfl
    exact ⟨_, hw.2⟩
  · rintro ⟨z, hz⟩
    apply canonical_unique hw.1 hv
    rw [hw.2, hz, hf z]

/-- **The roundings are right exactly where both fit.** -/
theorem roundsRight_iff {v : MtdNumericType} (hv : Canonical v) :
    RoundsRight v ↔ CeilFits v ∧ FloorFits v := by
  constructor
  · intro h
    exact ⟨(ceil_iff hv).mp h.ceil, (floor_iff hv).mp h.floor⟩
  · rintro ⟨hc, hf⟩
    have hceil := (ceil_iff hv).mpr hc
    have hfloor := (floor_iff hv).mpr hf
    have hneg := (ceil_iff (canonical_negate hv)).mpr (ceilFits_negate hv hf)
    rw [value_negate hv, Int.ceil_neg] at hneg
    constructor
    · exact hceil
    · exact hfloor
    · apply canonical_unique hfloor.1 (canonical_negate hneg.1)
      rw [hfloor.2, value_negate hneg.1, hneg.2]
      push_cast
      ring
    · rw [hfloor.2, hceil.2]
      exact ⟨Int.floor_le _, Int.le_ceil _⟩
    · exact ⟨hfloor.eq_self_iff hv Int.floor_intCast, hceil.eq_self_iff hv Int.ceil_intCast⟩

theorem roundsRight_iff_twoAndHalf :
    RoundsRight (encode false 1 [2, 50]) ↔
      CeilFits (encode false 1 [2, 50]) ∧ FloorFits (encode false 1 [2, 50]) :=
  roundsRight_iff (.encode false 1 [2, 50] (by decide) (by decide))

/-- **-1.0001 is rounded down to -1**, and 99.5 is rounded up to 100 with a zero
    digit at the end. -/
theorem rounds_wrong :
    floorFloat (encode true 1 [1, 0, 1]) = encode true 1 [1] ∧
    ceilFloat (encode false 1 [99, 50]) = .num 194 [1, 0] ∧
    ¬ ∀ v, Canonical v → RoundsRight v := by
  refine ⟨by decide, by decide, ?_⟩
  intro h
  have hv : Canonical (encode true 1 [1, 0, 1]) := .encode true 1 _ (by decide) (by decide)
  have hfits := (floor_iff hv).mp (h _ hv).floor
  revert hfits
  show ¬ FloorFits (.num 63 [98, 99, 98])
  unfold FloorFits
  decide

end Altibase.Mtc
