/-
  Altibase.Mtc.Add
  ────────────────
  **ADDITION.**

  `addFloat` adds the bytes of the two operands place by place, whatever their
  signs: a negative operand is a complement, so the carry that leaves the first
  place decides what the sum means (`addSettle_eq`).  Both operands are cut off
  after the twentieth place, counted from the greater exponent.

    * `addPlaces_eq` — the loop over the places is a carry loop;
    * `addFloat_closed` — the result, from the two magnitudes;
    * `addFloat_result` — the result is the canonical sum of the operands as
      they are cut.
-/

import Altibase.Mtc.Align

namespace Altibase.Mtc

open Altibase.Lib.Digits

/-! ## §1. The function. -/

/-- The indices and the carry of the loop. -/
structure AddState where
  lIndex : Int
  sIndex : Int
  sCarry : Nat

/-- One round of the loop: the sum at `mantissaIndex`, and the indices. -/
def addPlace (o : Operands) (mantissaIndex : Nat) (s : AddState) : Nat × Int × Int :=
  if (mantissaIndex : Int) > (o.shortLength : Int) - 2 ∧ s.lIndex ≥ 0 then
    (o.longArg.digit s.lIndex + o.shortArg.fill + s.sCarry, s.lIndex - 1, s.sIndex)
  else if (mantissaIndex : Int) > (o.shortLength : Int) - 2 ∧ s.lIndex < 0 then
    (o.shortArg.fill + o.longArg.fill + s.sCarry, s.lIndex, s.sIndex)
  else if (mantissaIndex : Int) ≤ (o.shortLength : Int) - 2 ∧ s.lIndex ≥ 0 ∧ s.sIndex ≥ 0 then
    (o.longArg.digit s.lIndex + o.shortArg.digit s.sIndex + s.sCarry, s.lIndex - 1, s.sIndex - 1)
  else if s.lIndex < 0 then
    (o.shortArg.digit s.sIndex + o.longArg.fill + s.sCarry, s.lIndex, s.sIndex - 1)
  else (o.longArg.digit s.lIndex + o.shortArg.fill + s.sCarry, s.lIndex - 1, s.sIndex)

/-- The loop over the places below `mantissaIndex`, in front of what is there. -/
def addPlaces (o : Operands) : Nat → AddState → List Nat → Nat × List Nat
  | 0, s, mantissa => (s.sCarry, mantissa)
  | mantissaIndex + 1, s, mantissa =>
    let r := addPlace o mantissaIndex s
    if r.1 ≥ 100 then
      addPlaces o mantissaIndex ⟨r.2.1, r.2.2, 1⟩ ((r.1 - 100) :: mantissa)
    else addPlaces o mantissaIndex ⟨r.2.1, r.2.2, 0⟩ (r.1 :: mantissa)

/-- What follows the loop: whether the sum is positive, its exponent and its
    bytes. -/
def addSettle (longPositive shortPositive : Bool) (sExponent1 : Int) (sCarry : Nat)
    (mantissa : List Nat) : Bool × Int × List Nat :=
  if longPositive != shortPositive then
    if sCarry ≠ 0 then (true, sExponent1, (carry addStep mantissa 1).2)
    else (false, sExponent1, mantissa)
  else if !longPositive && !shortPositive then
    if sCarry = 0 then (false, sExponent1 + 1, (carry addStep (98 :: mantissa) 1).2)
    else (false, sExponent1, (carry addStep mantissa 1).2)
  else if sCarry ≠ 0 then (true, sExponent1 + 1, 1 :: mantissa)
  else (true, sExponent1, mantissa)

/-- Strips the bytes at both ends that say nothing, and stores. -/
def addStore (positive : Bool) (sExponent1 : Int) (mantissa : List Nat) : MtdNumericType :=
  if positive then
    let checkIndex := (mantissa.takeWhile (· = 0)).length
    .num (uchar (sExponent1 - checkIndex + 192))
      (((mantissa.drop checkIndex).rdropWhile (· = 0)).take 20)
  else
    let checkIndex := (mantissa.takeWhile (· = 99)).length
    let m := trimEnd 99 (mantissa.drop checkIndex)
    if m = [] then .num 0x80 []
    else .num (uchar (64 - (sExponent1 - checkIndex))) (m.take 20)

/-- The check of the exponent, and the store. -/
def addCheck (v : Bool × Int × List Nat) : Except MathError MtdNumericType :=
  if v.2.1 > 63 then .error .valueOverflow else .ok (addStore v.1 v.2.1 v.2.2)

/-- The addition, after the operands are told apart. -/
def addOperands (o : Operands) : Except MathError MtdNumericType :=
  if o.longLength - o.longArg.length > lengthMaximum then .ok o.shortArg
  else
    let r := addPlaces o (o.cutLength.2 - 1)
      ⟨o.cutLength.1, (o.shortArg.length : Int) - 2, 0⟩ []
    addCheck (addSettle (isPositive o.longArg.signExponent) (isPositive o.shortArg.signExponent)
      o.sExponent1 r.1 r.2)

/-- **`addFloat`**, with the precision 38. -/
def addFloat : MtdNumericType → MtdNumericType → Except MathError MtdNumericType
  | .null, _ => .ok .null
  | _, .null => .ok .null
  | .num _ [], b => .ok b
  | a, .num _ [] => .ok a
  | a, b => addOperands (operands a b)

/-! ## §2. The loop. -/

/-- The indices before the loop comes to place `k - 1`. -/
structure AddState.At (o : Operands) (p q k : Nat) (s : AddState) : Prop where
  long : (p < k → s.lIndex = (k : Int) - 1 - p) ∧ (k ≤ p → s.lIndex < 0)
  short : k < o.shortLength →
    (q < k → s.sIndex = (k : Int) - 1 - q) ∧ (k ≤ q → s.sIndex < 0)
  beyond : o.shortLength ≤ k → s.sIndex = (o.shortArg.mantissa.length : Int) - 1

section Loop

variable {o : Operands} {p q : Nat}

/-- The bytes of the two operands at place `k`. -/
def Operands.pair (o : Operands) (p q k : Nat) : Nat × Nat :=
  (place o.longArg.fill p o.longArg.mantissa k, place o.shortArg.fill q o.shortArg.mantissa k)

/-- **One round adds the bytes of its place.** -/
theorem addPlace_spec (h : Layout o p q) {k : Nat} (hk : k + 1 < o.longLength) {s : AddState}
    (hs : s.At o p q (k + 1)) (c : Nat) :
    (addPlace o k s).1 = (o.pair p q k).1 + (o.pair p q k).2 + s.sCarry ∧
      AddState.At o p q k ⟨(addPlace o k s).2.1, (addPlace o k s).2.2, c⟩ := by
  obtain ⟨hlong, hshort, hbeyond⟩ := hs
  have hll := h.longLength
  have hsl := h.shortLength
  have hfirst := h.first
  have hl : (s.lIndex = (k : Int) - p ∧ p ≤ k) ∨ (s.lIndex < 0 ∧ k < p) := by
    rcases le_or_gt p k with hpk | hpk
    · have := hlong.1 (by omega)
      exact .inl ⟨by push_cast at this; omega, hpk⟩
    · exact .inr ⟨hlong.2 (by omega), hpk⟩
  have hs : (o.shortLength ≤ k + 1 ∧ s.sIndex = (o.shortArg.mantissa.length : Int) - 1) ∨
      (k + 1 < o.shortLength ∧ ((s.sIndex = (k : Int) - q ∧ q ≤ k) ∨ (s.sIndex < 0 ∧ k < q))) := by
    rcases le_or_gt o.shortLength (k + 1) with hend | hend
    · exact .inl ⟨hend, hbeyond hend⟩
    · right
      refine ⟨hend, ?_⟩
      rcases le_or_gt q k with hqk | hqk
      · have := (hshort hend).1 (by omega)
        exact .inl ⟨by push_cast at this; omega, hqk⟩
      · exact .inr ⟨(hshort hend).2 (by omega), hqk⟩
  clear hlong hshort hbeyond
  have hdigitL : p ≤ k → s.lIndex = (k : Int) - p →
      o.longArg.digit s.lIndex = place o.longArg.fill p o.longArg.mantissa k :=
    fun h1 h2 => digit_eq_place h2 (by omega) (by omega)
  have hdigitS : q ≤ k → k + 1 < o.shortLength → s.sIndex = (k : Int) - q →
      o.shortArg.digit s.sIndex = place o.shortArg.fill q o.shortArg.mantissa k :=
    fun h1 h2 h3 => digit_eq_place h3 (by omega) (by omega)
  unfold addPlace Operands.pair
  split_ifs with h3 hgap h2 h1
  · -- Beyond the end of the short operand.
    obtain ⟨hli, hpk⟩ := hl.resolve_right (by omega)
    rw [hdigitL hpk hli, place_outside (o := q) (by omega)]
    refine ⟨rfl, ⟨fun _ => ?_, fun _ => ?_⟩, fun _ => ⟨fun _ => ?_, fun _ => ?_⟩, fun _ => ?_⟩ <;>
      simp only <;> omega
  · -- Between the operands.
    have hkp := (hl.resolve_left (by omega)).2
    rw [place_outside (o := p) (by omega), place_outside (o := q) (by omega)]
    refine ⟨by simp only; omega, ⟨fun _ => ?_, fun _ => ?_⟩, fun _ => ⟨fun _ => ?_, fun _ => ?_⟩,
      fun _ => ?_⟩ <;> simp only <;> omega
  · -- Both operands have a digit here.
    obtain ⟨hli, hpk⟩ := hl.resolve_right (by omega)
    obtain ⟨hend, hsi⟩ := hs.resolve_left (by omega)
    obtain ⟨hsi, hqk⟩ := hsi.resolve_right (by omega)
    rw [hdigitL hpk hli, hdigitS hqk hend hsi]
    refine ⟨rfl, ⟨fun _ => ?_, fun _ => ?_⟩, fun _ => ⟨fun _ => ?_, fun _ => ?_⟩, fun _ => ?_⟩ <;>
      simp only <;> omega
  · -- Before the first digit of the long operand.
    have hkp := (hl.resolve_left (by omega)).2
    obtain ⟨hend, hsi⟩ := hs.resolve_left (by omega)
    obtain ⟨hsi, hqk⟩ := hsi.resolve_right (by omega)
    rw [hdigitS hqk hend hsi, place_outside (o := p) (by omega)]
    refine ⟨by simp only; omega, ⟨fun _ => ?_, fun _ => ?_⟩, fun _ => ⟨fun _ => ?_, fun _ => ?_⟩,
      fun _ => ?_⟩ <;> simp only <;> omega
  · -- Before the first digit of the short operand.
    obtain ⟨hli, hpk⟩ := hl.resolve_right (by omega)
    have hend := (hs.resolve_left (by omega)).1
    have hqk := ((hs.resolve_left (by omega)).2.resolve_left (by omega)).2
    rw [hdigitL hpk hli, place_outside (o := q) (by omega)]
    refine ⟨rfl, ⟨fun _ => ?_, fun _ => ?_⟩, fun _ => ⟨fun _ => ?_, fun _ => ?_⟩, fun _ => ?_⟩ <;>
      simp only <;> omega

/-- The step of the carry loop that the places amount to. -/
def sumStep (d : Nat × Nat) (c : Nat) : Nat × Nat := addStep (d.1 + d.2) c

/-- **The loop over the places is a carry loop** over the pairs of bytes. -/
theorem addPlaces_eq (h : Layout o p q) (k : Nat) :
    ∀ (s : AddState) (acc : List Nat), k < o.longLength → s.At o p q k →
      addPlaces o k s acc =
        ((carry sumStep ((List.range k).map (o.pair p q)) s.sCarry).1,
          (carry sumStep ((List.range k).map (o.pair p q)) s.sCarry).2 ++ acc) := by
  induction k with
  | zero =>
    intro s acc _ _
    rfl
  | succ k ih =>
    intro s acc hk hs
    have hstep : carry sumStep ((List.range (k + 1)).map (o.pair p q)) s.sCarry =
        ((carry sumStep ((List.range k).map (o.pair p q)) (sumStep (o.pair p q k) s.sCarry).1).1,
          (carry sumStep ((List.range k).map (o.pair p q)) (sumStep (o.pair p q k) s.sCarry).1).2 ++
            [(sumStep (o.pair p q k) s.sCarry).2]) := by
      rw [List.range_succ, List.map_append, carry_append]
      rfl
    unfold addPlaces
    simp only
    rw [hstep]
    unfold sumStep addStep
    rw [← (addPlace_spec h hk hs 0).1]
    split_ifs with hge
    · rw [ih _ _ (by omega) (addPlace_spec h hk hs 1).2, List.append_assoc]
      rfl
    · rw [ih _ _ (by omega) (addPlace_spec h hk hs 0).2, List.append_assoc]
      rfl

end Loop

/-! ## §3. What is stored. -/

/-- The number `k`, written in `n` places after the point, in stored form. -/
def finish (neg : Bool) (e : Int) (n k : Nat) : MtdNumericType :=
  if k = 0 then zero
  else
    let ds := numeral 100 n k
    encode neg (e - (ds.takeWhile (· = 0)).length) (trimCut (ds.dropWhile (· = 0)))

/-- A place more changes nothing where it is not needed. -/
theorem finish_succ (neg : Bool) (e : Int) {n k : Nat} (hk : k < 100 ^ n) :
    finish neg (e + 1) (n + 1) k = finish neg e n k := by
  unfold finish
  split_ifs with h0
  · rfl
  · have hexp : e + 1 - (((numeral 100 n k).takeWhile (· = 0)).length + 1 : Nat) =
        e - ((numeral 100 n k).takeWhile (· = 0)).length := by
      push_cast
      ring
    simp only [numeral_succ (b := 100) (by norm_num) hk]
    rw [List.takeWhile_cons_of_pos (by simp), List.dropWhile_cons_of_pos (by simp),
      List.length_cons, hexp]

theorem addStore_positive {e : Int} {n k : Nat} (hk : k ≠ 0) :
    addStore true e (numeral 100 n k) = finish false e n k := by
  unfold addStore finish
  rw [if_pos rfl, if_neg hk]
  simp only [drop_takeWhile]
  rfl

theorem compl_take (ds : List Nat) (n : Nat) :
    (Lib.Digits.compl 100 ds).take n = Lib.Digits.compl 100 (ds.take n) := List.map_take.symm

/-- The digits of a number that is not zero. -/
theorem numeral_strip {n k : Nat} (hk : k ≠ 0) (hlt : k < 100 ^ n) :
    ∃ d ds, (numeral 100 n k).dropWhile (· = 0) = d :: ds ∧ d ≠ 0 ∧ Below 100 (d :: ds) := by
  have hbelow := below_dropWhile (numeral_below (b := 100) (by norm_num) n k)
  have hhead := dropWhile_head (numeral 100 n k)
  have hval : val 100 (numeral 100 n k) ≠ 0 := by
    rw [val_numeral n k hlt]
    exact hk
  have hrest := val_dropWhile_ne_zero (b := 100) (by norm_num) hval
  cases hd : (numeral 100 n k).dropWhile (fun x => decide (x = 0)) with
  | nil =>
    rw [hd] at hrest
    exact absurd rfl hrest
  | cons d ds =>
    rw [hd] at hhead hbelow
    exact ⟨d, ds, rfl, by simpa using hhead, hbelow⟩

/-- The nines at the end of a complement are the zeros at the end of the string. -/
theorem trimEnd_compl {d : Nat} {ds : List Nat} (hd : d ≠ 0) (h : Below 100 (d :: ds)) :
    trimEnd (100 - 1) (Lib.Digits.compl 100 (d :: ds)) =
      Lib.Digits.compl 100 ((d :: ds).rdropWhile (· = 0)) := by
  have hd100 := (Below.cons_iff.mp h).1
  rw [← rdropWhile_compl h, compl_cons, trimEnd_eq (by omega)]

theorem addStore_negative (e : Int) (n k : Nat) (hk : k < 100 ^ n) :
    addStore false e (Lib.Digits.compl 100 (numeral 100 n k)) = finish true e n k := by
  have hb := numeral_below (b := 100) (by norm_num) n k
  have hdrop := drop_takeWhile (fun x : Nat => decide (x = 99))
    (Lib.Digits.compl 100 (numeral 100 n k))
  obtain ⟨htake, hrest⟩ := takeWhile_compl hb
  unfold addStore
  simp only [Bool.false_eq_true, if_false]
  rw [hdrop]
  rw [show (99 : Nat) = 100 - 1 from rfl, htake, hrest, Lib.Digits.compl_length]
  unfold finish
  by_cases h0 : k = 0
  · have hall : ∀ d ∈ numeral 100 n k, d = 0 := by
      rw [← val_eq_zero_iff (b := 100) (by norm_num), val_numeral n k hk, h0]
    have hnil : (numeral 100 n k).dropWhile (fun x : Nat => decide (x = 0)) = [] := by
      rw [List.dropWhile_eq_nil_iff]
      exact fun d hd => decide_eq_true (hall d hd)
    rw [if_pos h0, hnil]
    rfl
  · obtain ⟨d, ds, heq, hd0, hbd⟩ := numeral_strip h0 hk
    have hne : Lib.Digits.compl 100 ((d :: ds).rdropWhile (· = 0)) ≠ [] := by
      intro hnil
      exact (stripped_trim ds hd0).ne (List.map_eq_nil_iff.mp hnil)
    rw [if_neg h0, heq, compl_cons]
    simp only
    rw [← compl_cons, trimEnd_compl hd0 hbd, if_neg hne, compl_take]
    simp only [heq]
    rfl

/-! ## §4. The sum of the bytes. -/

theorem sumStep_spec (d : Nat × Nat) (c : Nat) (hd : d.1 < 100 ∧ d.2 < 100) (hc : c ≤ 1) :
    (sumStep d c).1 ≤ 1 ∧ (sumStep d c).2 < 100 :=
  ⟨(addStep_spec _ c).1, addStep_lt (by omega) hc⟩

/-- **The bytes after the loop**, and the carry that leaves the first place. -/
theorem sum_spec {xs ys : List Nat} (hx : Below 100 xs) (hy : Below 100 ys)
    (hlen : xs.length = ys.length) :
    (carry sumStep (xs.zip ys) 0).1 ≤ 1 ∧ Below 100 (carry sumStep (xs.zip ys) 0).2 ∧
      (carry sumStep (xs.zip ys) 0).2.length = ys.length ∧
      (carry sumStep (xs.zip ys) 0).1 * 100 ^ ys.length + val 100 (carry sumStep (xs.zip ys) 0).2 =
        val 100 xs + val 100 ys := by
  have hpairs : ∀ p ∈ xs.zip ys, p.1 < 100 ∧ p.2 < 100 := by
    intro p hp
    have hmem := List.of_mem_zip hp
    exact ⟨hx _ hmem.1, hy _ hmem.2⟩
  have hl : (xs.zip ys).length = ys.length := by
    rw [List.length_zip, hlen, min_self]
  obtain ⟨hc, hdig⟩ := carry_spec (C := (· ≤ 1)) (P := (· < 100)) sumStep_spec (xs.zip ys) hpairs
    (Nat.zero_le 1)
  have hval := val_carry_map 100 (C := (· ≤ 1)) (k := id) (r := id)
    (w := fun p : Nat × Nat => p.1 + p.2)
    (fun d c _ _ => addStep_spec (d.1 + d.2) c) (xs.zip ys) hpairs (Nat.zero_le 1)
  have hadd := val_zip_add 100 id id xs ys hlen
  rw [List.map_id, List.map_id] at hadd
  rw [List.map_id, hl] at hval
  exact ⟨hc, hdig, by rw [carry_length, hl], hval.trans hadd⟩

/-- What the two magnitudes `x` and `y`, in units of the last of `n` places, add up
    to.  A sum of two negative numbers that is all nines passes through the next
    exponent, if it is added up at all. -/
def sumOf (added neg₁ neg₂ : Bool) (e : Int) (n x y : Nat) : Except MathError MtdNumericType :=
  if neg₁ = neg₂ then
    if x + y < 100 ^ n then
      if added = true ∧ neg₁ = true ∧ e = 63 ∧ x + y + 1 = 100 ^ n then .error .valueOverflow
      else .ok (finish neg₁ e n (x + y))
    else if e = 63 then .error .valueOverflow
    else .ok (finish neg₁ (e + 1) (n + 1) (x + y))
  else if y ≤ x then .ok (finish neg₁ e n (x - y))
  else .ok (finish neg₂ e n (y - x))

theorem sumOf_comm (added neg₁ neg₂ : Bool) (e : Int) (n x y : Nat) :
    sumOf added neg₁ neg₂ e n x y = sumOf added neg₂ neg₁ e n y x := by
  unfold sumOf
  by_cases hs : neg₁ = neg₂
  · rw [if_pos hs, if_pos hs.symm, hs, Nat.add_comm x y]
  · have hs' : ¬ neg₂ = neg₁ := fun h => hs h.symm
    rw [if_neg hs, if_neg hs']
    rcases lt_trichotomy x y with h | rfl | h
    · rw [if_neg (by omega), if_pos (by omega)]
    · rw [if_pos le_rfl, if_pos le_rfl, Nat.sub_self]
      rfl
    · rw [if_pos (by omega), if_neg (by omega)]

/-- Where the magnitudes agree, the sign does not matter. -/
theorem sumOf_mixed (added : Bool) (e : Int) (n x y : Nat) :
    sumOf added false true e n x y =
      if y < x then .ok (finish false e n (x - y)) else .ok (finish true e n (y - x)) := by
  have hs : ¬ false = true := Bool.false_ne_true
  unfold sumOf
  rw [if_neg hs]
  rcases lt_trichotomy x y with h | rfl | h
  · rw [if_neg (by omega), if_neg (by omega)]
  · rw [if_pos le_rfl, if_neg (lt_irrefl x), Nat.sub_self]
    rfl
  · rw [if_pos h.le, if_pos h]

/-- The bytes of a magnitude: its digits, or their complement. -/
def bytes (neg : Bool) (xs : List Nat) : List Nat :=
  if neg then Lib.Digits.compl 100 xs else xs

theorem bytes_below (neg : Bool) {xs : List Nat} (h : Below 100 xs) : Below 100 (bytes neg xs) := by
  cases neg with
  | false => exact h
  | true => exact compl_below (by norm_num) xs

theorem bytes_length (neg : Bool) (xs : List Nat) : (bytes neg xs).length = xs.length := by
  cases neg with
  | false => rfl
  | true => exact Lib.Digits.compl_length xs

theorem val_bytes (neg : Bool) {xs : List Nat} (h : Below 100 xs) :
    (neg = false → val 100 (bytes neg xs) = val 100 xs) ∧
      (neg = true → val 100 (bytes neg xs) + val 100 xs + 1 = 100 ^ xs.length) := by
  have hc := val_compl h
  cases neg with
  | false =>
    refine ⟨fun _ => rfl, fun hn => ?_⟩
    cases hn
  | true =>
    refine ⟨fun hn => ?_, fun _ => ?_⟩
    · cases hn
    show val 100 (Lib.Digits.compl 100 xs) + val 100 xs + 1 = _
    omega

theorem addCheck_ok (positive : Bool) {e : Int} (he : e ≤ 63) (m : List Nat) :
    addCheck (positive, e, m) = .ok (addStore positive e m) := if_neg (not_lt.mpr he)

theorem addCheck_error (positive : Bool) {e : Int} (he : 63 < e) (m : List Nat) :
    addCheck (positive, e, m) = .error .valueOverflow := if_pos he

section Settle

variable {e : Int} {n c : Nat} {m : List Nat}

/-- Operands of opposite signs: `x` is that of the positive one. -/
theorem addSettle_mixed (he : e ≤ 63) (hc : c ≤ 1) (hm : Below 100 m) (hl : m.length = n)
    {x y : Nat} (hx : x < 100 ^ n) (hval : c * 100 ^ n + val 100 m + y + 1 = x + 100 ^ n)
    {s t : Bool} (hs : s ≠ t) :
    addCheck (addSettle s t e c m) =
      if y < x then .ok (finish false e n (x - y)) else .ok (finish true e n (y - x)) := by
  have hxor : (s != t) = true := by
    cases s <;> cases t <;> simp_all
  have hlt := val_lt hm
  rw [hl] at hlt
  unfold addSettle
  rw [if_pos hxor]
  rcases Nat.le_one_iff_eq_zero_or_eq_one.mp hc with rfl | rfl
  · -- No carry: the sum is not positive.
    rw [if_neg (not_not.mpr rfl), if_neg (by omega)]
    rw [addCheck_ok _ he, eq_compl_numeral (k := y - x) hm hl (by omega) (by norm_num),
      addStore_negative e n (y - x) (by omega)]
  · -- The carry is added at the last place.
    obtain ⟨hc', hm', hv'⟩ := carry_add hm
    have hl' : (carry addStep m 1).2.length = n := by rw [carry_length, hl]
    have hlt' := val_lt hm'
    rw [hl'] at hlt'
    rw [hl] at hv'
    have hzero : (carry addStep m 1).1 = 0 := by
      by_contra hne
      have h1 : (carry addStep m 1).1 = 1 := by omega
      rw [h1] at hv'
      omega
    rw [hzero] at hv'
    rw [if_pos (by norm_num), if_pos (by omega)]
    rw [addCheck_ok _ he, eq_numeral (k := x - y) hm' hl' (by omega) (by norm_num),
      addStore_positive (by omega)]

/-- Two positive operands. -/
theorem addSettle_positive (he : e ≤ 63) (hc : c ≤ 1) (hm : Below 100 m) (hl : m.length = n)
    {x y : Nat} (hval : c * 100 ^ n + val 100 m = x + y) (hne : x + y ≠ 0) :
    addCheck (addSettle true true e c m) = sumOf true false false e n x y := by
  have hlt := val_lt hm
  rw [hl] at hlt
  unfold addSettle sumOf
  simp only [bne_self_eq_false, Bool.false_eq_true, if_false, Bool.not_true, Bool.and_self, if_true,
    false_and, and_false]
  rcases Nat.le_one_iff_eq_zero_or_eq_one.mp hc with rfl | rfl
  · rw [if_neg (not_not.mpr rfl), if_pos (by omega), addCheck_ok _ he,
      eq_numeral (k := x + y) hm hl (by omega) (by norm_num), addStore_positive hne]
  · rw [if_pos (by norm_num), if_neg (by omega)]
    have hcons : (1 :: m) = numeral 100 (n + 1) (x + y) := by
      apply eq_numeral (Below.cons_iff.mpr ⟨by norm_num, hm⟩) (by rw [List.length_cons, hl]) _
        (by norm_num)
      rw [val_cons, hl]
      exact hval
    rcases eq_or_lt_of_le he with rfl | hlow
    · rw [addCheck_error _ (by norm_num), if_pos rfl]
    · rw [addCheck_ok _ (by omega), if_neg (by omega), hcons, addStore_positive hne]

/-- Two negative operands: one is always added, after a place is put in front if
    no carry left the first one. -/
theorem addSettle_negative (he : e ≤ 63) (hc : c ≤ 1) (hm : Below 100 m) (hl : m.length = n)
    {x y : Nat} (hval : c * 100 ^ n + val 100 m + x + y + 2 = 100 ^ n + 100 ^ n) :
    addCheck (addSettle false false e c m) = sumOf true true true e n x y := by
  have hlt := val_lt hm
  rw [hl] at hlt
  have hpow : (100 : Nat) ^ (n + 1) = 100 ^ n * 100 := pow_succ 100 n
  unfold addSettle sumOf
  simp only [bne_self_eq_false, Bool.false_eq_true, if_false, Bool.not_false, Bool.and_self, if_true,
    true_and]
  rcases Nat.le_one_iff_eq_zero_or_eq_one.mp hc with rfl | rfl
  · -- The sum has reached the next exponent, or is all nines.
    have hm98 : Below 100 (98 :: m) := Below.cons_iff.mpr ⟨by norm_num, hm⟩
    obtain ⟨hc', hm', hv'⟩ := carry_add hm98
    have hl' : (carry addStep (98 :: m) 1).2.length = n + 1 := by
      rw [carry_length, List.length_cons, hl]
    rw [val_cons, List.length_cons, hl] at hv'
    have hzero : (carry addStep (98 :: m) 1).1 = 0 := by
      by_contra hne
      have h1 : (carry addStep (98 :: m) 1).1 = 1 := by omega
      rw [h1] at hv'
      omega
    rw [hzero] at hv'
    have hbytes : (carry addStep (98 :: m) 1).2 =
        Lib.Digits.compl 100 (numeral 100 (n + 1) (x + y)) :=
      eq_compl_numeral hm' hl' (by omega) (by norm_num)
    rw [if_pos rfl, hbytes]
    rcases eq_or_lt_of_le he with rfl | hlow
    · rw [addCheck_error _ (by norm_num), if_pos rfl]
      split_ifs with h1 h2
      · rfl
      · exact absurd ⟨rfl, by omega⟩ h2
      · rfl
    · rw [addCheck_ok _ (by omega), addStore_negative _ _ _ (by omega)]
      split_ifs with h1 h2 h3
      · exact absurd h2.1 (by omega)
      · rw [finish_succ _ _ h1]
      · exact absurd h3 (by omega)
      · rfl
  · obtain ⟨hc', hm', hv'⟩ := carry_add hm
    have hl' : (carry addStep m 1).2.length = n := by rw [carry_length, hl]
    rw [hl] at hv'
    have hzero : (carry addStep m 1).1 = 0 := by
      by_contra hne
      have h1 : (carry addStep m 1).1 = 1 := by omega
      rw [h1] at hv'
      omega
    rw [hzero] at hv'
    rw [if_neg (by norm_num), if_pos (by omega), if_neg (by omega), addCheck_ok _ he,
      eq_compl_numeral (k := x + y) hm' hl' (by omega) (by norm_num),
      addStore_negative e n (x + y) (by omega)]

end Settle

/-- **The carry decides what the bytes mean.** -/
theorem addSettle_eq (neg₁ neg₂ : Bool) {e : Int} (he : e ≤ 63) {xs ys : List Nat}
    (hx : Below 100 xs) (hy : Below 100 ys) (hlen : xs.length = ys.length)
    (hne : val 100 xs + val 100 ys ≠ 0) :
    let r := carry sumStep ((bytes neg₁ xs).zip (bytes neg₂ ys)) 0
    addCheck (addSettle (!neg₁) (!neg₂) e r.1 r.2) =
      sumOf true neg₁ neg₂ e ys.length (val 100 xs) (val 100 ys) := by
  intro r
  obtain ⟨hc, hb, hl, hval⟩ := sum_spec (bytes_below neg₁ hx) (bytes_below neg₂ hy)
    (by rw [bytes_length, bytes_length, hlen])
  rw [bytes_length] at hl hval
  obtain ⟨hx0, hx1⟩ := val_bytes neg₁ hx
  obtain ⟨hy0, hy1⟩ := val_bytes neg₂ hy
  have hxlt := val_lt hx
  have hylt := val_lt hy
  rw [hlen] at hxlt hx1
  cases neg₁ with
  | false =>
    cases neg₂ with
    | false =>
      rw [hx0 rfl, hy0 rfl] at hval
      exact addSettle_positive he hc hb hl hval hne
    | true =>
      have hy1 := hy1 rfl
      rw [hx0 rfl] at hval
      rw [sumOf_mixed]
      exact addSettle_mixed he hc hb hl hxlt (by omega) (by decide)
  | true =>
    have hx1 := hx1 rfl
    cases neg₂ with
    | false =>
      rw [hy0 rfl] at hval
      rw [sumOf_comm, sumOf_mixed]
      exact addSettle_mixed he hc hb hl hylt (by omega) (by decide)
    | true =>
      have hy1 := hy1 rfl
      exact addSettle_negative he hc hb hl (by omega)

/-! ## §5. The result from the two magnitudes. -/

/-- The magnitude of an operand, in units of the last place. -/
def aligned (e₁ e₂ : Int) (ds : List Nat) (n : Nat) : Nat :=
  val 100 (spread 0 (offset e₁ e₂) ds n)

theorem aligned_lt (e₁ e₂ : Int) {ds : List Nat} (h : Below 100 ds) (n : Nat) :
    aligned e₁ e₂ ds n < 100 ^ n := by
  have := val_lt (spread_below (b := 100) (by norm_num) (offset e₁ e₂) h n)
  rwa [spread_length] at this

/-- The operand with the greater exponent fills the first place. -/
theorem le_aligned {e₁ e₂ : Int} {ds : List Nat} (h : Mantissa ds) (hle : e₂ ≤ e₁) (n : Nat) :
    100 ^ n ≤ aligned e₁ e₂ ds (n + 1) := by
  have hoff : offset e₁ e₂ = 0 := by
    unfold offset
    omega
  obtain ⟨d, rest, rfl⟩ := List.exists_cons_of_ne_nil h.ne
  unfold aligned
  rw [hoff, spread_eq, List.replicate_zero, List.nil_append, List.cons_append, List.take_succ_cons]
  have hle := le_val (b := 100) ((rest ++ List.replicate (n + 1) 0).take n) h.head_ne
  rwa [List.length_take, List.length_append, List.length_replicate, min_eq_left (by omega)] at hle

/-- One of two operands fills the first place. -/
theorem aligned_ne {e₁ e₂ : Int} {xs ys : List Nat} (hxs : Mantissa xs) (hys : Mantissa ys) {n : Nat}
    (hn : 0 < n) : aligned e₁ e₂ xs n + aligned e₂ e₁ ys n ≠ 0 := by
  obtain ⟨m, rfl⟩ : ∃ m, n = m + 1 := ⟨n - 1, by omega⟩
  have hpow : 0 < 100 ^ m := by positivity
  rcases le_total e₁ e₂ with h | h
  · have := le_aligned hys h m
    omega
  · have := le_aligned hxs h m
    omega

/-- An operand that starts after the last place does not count. -/
theorem aligned_zero {e₁ e₂ : Int} (ds : List Nat) {n : Nat} (h : n ≤ offset e₁ e₂) :
    aligned e₁ e₂ ds n = 0 := by
  unfold aligned
  rw [val_eq_zero_iff (by norm_num)]
  intro d hd
  unfold spread at hd
  obtain ⟨k, hk, rfl⟩ := List.mem_map.mp hd
  exact place_outside (.inl (lt_of_lt_of_le (List.mem_range.mp hk) h))

/-- A number is stored as it came, if it is given all its places. -/
theorem finish_encode (neg : Bool) (e : Int) {ds : List Nat} (h : Mantissa ds) {n : Nat}
    (hn : ds.length ≤ n) : finish neg e n (val 100 (spread 0 0 ds n)) = encode neg e ds := by
  have hspread : spread 0 0 ds n = ds ++ List.replicate (n - ds.length) 0 := by
    rw [spread_eq, List.replicate_zero, List.nil_append, List.take_append,
      List.take_of_length_le hn, List.take_replicate, min_eq_left (by omega)]
  have hnum : numeral 100 n (val 100 (spread 0 0 ds n)) = spread 0 0 ds n :=
    (eq_numeral (spread_below (by norm_num) 0 h.below n) (spread_length 0 0 ds n) rfl
      (by norm_num)).symm
  have hlen : ds.length ≤ 20 := h.length_le
  obtain ⟨d, rest, rfl⟩ := List.exists_cons_of_ne_nil h.ne
  have hd := h.head_ne
  have hpos : val 100 (spread 0 0 (d :: rest) n) ≠ 0 := by
    rw [hspread, List.cons_append, val_cons]
    have : 0 < d * 100 ^ (rest ++ List.replicate (n - (d :: rest).length) 0).length := by positivity
    omega
  unfold finish
  rw [if_neg hpos]
  simp only [hnum]
  rw [hspread, List.cons_append, List.takeWhile_cons_of_neg (by simpa using hd),
    List.dropWhile_cons_of_neg (by simpa using hd), List.length_nil, Nat.cast_zero, sub_zero,
    ← List.cons_append]
  have hlast : (d :: rest).rdropWhile (· = 0) = d :: rest := by
    rw [List.rdropWhile_eq_self_iff]
    intro hl h0
    apply h.last
    rw [List.getLast?_eq_getLast_of_ne_nil hl]
    simpa using h0
  unfold trimCut
  rw [rdropWhile_append_zeros, hlast, List.take_of_length_le hlen]

/-- Nothing is added to an operand that lies far above the other. -/
theorem sumOf_zero (neg₁ neg₂ : Bool) (e : Int) {n y : Nat} (hy : y ≠ 0) (hlt : y < 100 ^ n) :
    sumOf false neg₁ neg₂ e n 0 y = .ok (finish neg₂ e n y) := by
  unfold sumOf
  rw [Nat.zero_add, if_pos hlt]
  by_cases hs : neg₁ = neg₂
  · rw [if_pos hs, hs, if_neg (fun h => Bool.false_ne_true h.1)]
  · rw [if_neg hs, if_neg (by omega), Nat.sub_zero]

/-- The bytes that the loop adds up, as two strings. -/
theorem pairs_eq (o : Operands) (p q n : Nat) :
    (List.range n).map (o.pair p q) =
      (spread o.longArg.fill p o.longArg.mantissa n).zip
        (spread o.shortArg.fill q o.shortArg.mantissa n) := by
  unfold spread
  rw [List.zip_map']
  rfl

theorem addOperands_closed {o : Operands} {p q : Nat} (hlay : Layout o p q) (s t : Bool)
    {e₁ e₂ : Int} {xs ys : List Nat} (he₁ : InRange e₁) (he₂ : InRange e₂) (hxs : Mantissa xs)
    (hys : Mantissa ys) (hlong : o.longArg = encode s e₁ xs) (hshort : o.shortArg = encode t e₂ ys) :
    let n := placeCount e₁ e₂ xs.length ys.length
    addOperands o =
      sumOf (near e₁ e₂) s t (max e₁ e₂) n (aligned e₁ e₂ xs n) (aligned e₂ e₁ ys n) := by
  intro n
  have hx1 := encode_exponent s he₁ xs
  have hy1 := encode_exponent t he₂ ys
  have hnum : o.longArg.length = o.longArg.mantissa.length + 1 := by
    rw [hlong]
    exact encode_length s e₁ xs
  have hshortLength : o.shortArg.length = ys.length + 1 := by
    rw [hshort, encode_length, encode_mantissa_length]
  have hlongMantissa : o.longArg.mantissa.length = xs.length := by
    rw [hlong, encode_mantissa_length]
  have hshortMantissa : o.shortArg.mantissa.length = ys.length := by
    rw [hshort, encode_mantissa_length]
  have heq := hlay.eq hnum (by rw [hlongMantissa]; exact hxs.length_le)
  rw [hlongMantissa, hshortMantissa, hlong, hshort, hx1.1, hy1.1, ← hlong] at heq
  obtain ⟨hmax, hp, hq, hplaces, hnear⟩ := heq
  have hxlen : xs.length ≤ 20 := hxs.length_le
  have hylen : ys.length ≤ 20 := hys.length_le
  have hxpos := List.length_pos_of_ne_nil hxs.ne
  have hypos := List.length_pos_of_ne_nil hys.ne
  have hll := hlay.longLength
  have hsl := hlay.shortLength
  have hle := hlay.le
  have hfirst := hlay.first
  unfold addOperands
  by_cases hgap : o.longLength - o.longArg.length > lengthMaximum
  · -- The long operand is too small to matter.
    have hfar := hnear.mp hgap
    have hp22 : 22 ≤ p := by
      unfold lengthMaximum at hgap
      omega
    have hlt : e₁ < e₂ := by
      unfold offset at hp
      omega
    have hq0 : q = 0 := by omega
    have hn : n = 20 := by
      show placeCount e₁ e₂ xs.length ys.length = 20
      unfold placeCount
      omega
    have hx0 : aligned e₁ e₂ xs n = 0 := aligned_zero xs (by omega)
    have hfull : 100 ^ 19 ≤ aligned e₂ e₁ ys 20 := le_aligned hys hlt.le 19
    have hy0 : aligned e₂ e₁ ys n ≠ 0 := by
      rw [hn]
      omega
    rw [if_pos hgap, hfar, hx0, sumOf_zero s t _ hy0 (aligned_lt _ _ hys.below n), hshort,
      max_eq_right hlt.le]
    unfold aligned
    rw [← hq, hq0, hn, finish_encode t e₂ hys hylen]
  · have hadded : near e₁ e₂ = true := by
      rw [← Bool.not_eq_false]
      exact fun h => hgap (hnear.mpr h)
    obtain ⟨hindex, -, -⟩ := hlay.cutLength hnum
    have hnp : n = o.places := hplaces.symm
    have hends : q + ys.length ≤ n ∧ n < o.longLength := by
      show q + ys.length ≤ placeCount e₁ e₂ xs.length ys.length ∧
        placeCount e₁ e₂ xs.length ys.length < o.longLength
      unfold placeCount
      omega
    have hstart : AddState.At o p q n ⟨o.cutLength.1, (o.shortArg.length : Int) - 2, 0⟩ := by
      refine ⟨⟨fun _ => ?_, fun _ => ?_⟩, fun _ => ⟨fun _ => ?_, fun _ => ?_⟩, fun _ => ?_⟩ <;>
        simp only <;> omega
    have hn0 : 0 < n := by omega
    have hX := spread_below (b := 100) (by norm_num) p hxs.below n
    have hY := spread_below (b := 100) (by norm_num) q hys.below n
    rw [if_neg hgap, hadded, show o.cutLength.2 - 1 = n from hplaces,
      addPlaces_eq hlay n _ [] hends.2 hstart, pairs_eq, hlong, hshort, spread_encode s he₁,
      spread_encode t he₂, hx1.2, hy1.2, hmax, List.append_nil]
    have hsettle := addSettle_eq s t (max_le he₁.2 he₂.2) hX hY
      (by rw [spread_length, spread_length]) (by
        rw [hp, hq]
        exact aligned_ne hxs hys hn0)
    rw [spread_length, hp, hq] at hsettle
    rw [hp, hq]
    exact hsettle

/-- **`addFloat` from the two magnitudes.** -/
theorem addFloat_closed (s t : Bool) {e₁ e₂ : Int} {xs ys : List Nat} (he₁ : InRange e₁)
    (he₂ : InRange e₂) (hxs : Mantissa xs) (hys : Mantissa ys) :
    let n := placeCount e₁ e₂ xs.length ys.length
    addFloat (encode s e₁ xs) (encode t e₂ ys) =
      sumOf (near e₁ e₂) s t (max e₁ e₂) n (aligned e₁ e₂ xs n) (aligned e₂ e₁ ys n) := by
  intro n
  have hrun : addFloat (encode s e₁ xs) (encode t e₂ ys) =
      addOperands (operands (encode s e₁ xs) (encode t e₂ ys)) := by
    obtain ⟨se₁, a₁, m₁, heq₁, -⟩ := encode_cons s he₁ hxs
    obtain ⟨se₂, a₂, m₂, heq₂, -⟩ := encode_cons t he₂ hys
    rw [heq₁, heq₂]
    rfl
  obtain ⟨p, q, hlay⟩ := operands_layout (encode_length s e₁ xs) (encode_length t e₂ ys)
  rw [hrun]
  rcases operands_args (encode s e₁ xs) (encode t e₂ ys) with ⟨-, hl, hs⟩ | ⟨-, hl, hs⟩
  · exact addOperands_closed hlay s t he₁ he₂ hxs hys hl hs
  · rw [addOperands_closed hlay t s he₂ he₁ hys hxs hl hs, sumOf_comm, near_comm, max_comm,
      placeCount_comm]

/-! ## §6. The sum. -/

/-- A canonical value is stored as itself. -/
theorem isResult_self {v : MtdNumericType} (h : Canonical v) : IsResult (.ok v) (value v) := by
  cases h with
  | zero =>
    unfold IsResult
    rw [if_pos value_zero]
  | encode neg e ds hds he =>
    rw [value_encode neg he hds.below, isResult_sgn (hds.mag_pos e)]
    obtain ⟨d, rest, rfl⟩ := List.exists_cons_of_ne_nil hds.ne
    unfold IsCut
    rw [expo_mag (by norm_num) e hds.head_ne hds.below, if_neg (not_lt.mpr he.2),
      if_neg (not_lt.mpr he.1)]
    refine ⟨_, rfl, .encode neg e _ hds he, ?_⟩
    have hlen : (d :: rest).length ≤ 20 := hds.length_le
    rw [value_encode neg he hds.below, cut_mag20 hds.head_ne hds.below,
      List.take_of_length_le hlen]

/-- **A number in `n` places is stored right**, if its exponent is not too small and
    the cut fits. -/
theorem finish_cut (neg : Bool) {e : Int} (he : e ≤ 63) {n k : Nat} (hk : k ≠ 0)
    (hlt : k < 100 ^ n) (hlow : -63 ≤ expo 100 ((k : ℚ) * (100 : ℚ) ^ (e - n)))
    (hfit : CutFits ((k : ℚ) * (100 : ℚ) ^ (e - n))) :
    IsCut (.ok (finish neg e n k)) neg ((k : ℚ) * (100 : ℚ) ^ (e - n)) := by
  have hb := numeral_below (b := 100) (by norm_num) n k
  have hmag : mag 100 e (numeral 100 n k) = (k : ℚ) * (100 : ℚ) ^ (e - n) := by
    unfold mag
    rw [val_numeral n k hlt, numeral_length]
    rfl
  have hdrop := mag_dropWhile (b := 100) (by norm_num) e (numeral 100 n k)
  have hhead := dropWhile_head (numeral 100 n k)
  have hbelow := below_dropWhile hb
  have hval : val 100 (numeral 100 n k) ≠ 0 := by
    rw [val_numeral n k hlt]
    exact hk
  have hrest := val_dropWhile_ne_zero (b := 100) (by norm_num) hval
  unfold finish
  rw [if_neg hk]
  simp only
  rw [← hmag, ← hdrop] at hlow hfit ⊢
  generalize ((numeral 100 n k).takeWhile (fun x => decide (x = 0))).length = z at *
  cases hd : (numeral 100 n k).dropWhile (fun x => decide (x = 0)) with
  | nil =>
    rw [hd] at hrest
    exact absurd rfl hrest
  | cons d ds =>
    rw [hd] at hlow hfit hhead hbelow
    have hd0 : d ≠ 0 := by simpa using hhead
    rw [expo_mag (by norm_num) _ hd0 hbelow] at hlow
    have hstore := (store_iff neg hd0 hbelow).mpr hfit
    unfold store at hstore
    rwa [if_neg (by omega), if_neg (by omega)] at hstore

/-- A number that reaches `100⁶³` cannot be stored. -/
theorem overflow_cut (neg : Bool) {q : ℚ} (hq : (100 : ℚ) ^ (63 : Int) ≤ q) :
    IsCut (.error .valueOverflow) neg q := by
  have hpos : 0 < q := lt_of_lt_of_le (by positivity) hq
  have hexpo : 63 < expo 100 q := by
    by_contra hle
    have h1 := (expo_bounds (b := 100) (by norm_num) hpos).2
    have h2 : ((100 : Nat) : ℚ) ^ expo 100 q ≤ ((100 : Nat) : ℚ) ^ (63 : Int) :=
      zpow_le_zpow_right₀ (by norm_num) (not_lt.mp hle)
    push_cast at h1 h2
    linarith
  unfold IsCut
  rw [if_pos hexpo]

/-- The number that two magnitudes with signs add up to. -/
def signedSum (s t : Bool) (x y : Nat) : ℚ := sgn s * x + sgn t * y

/-- Where the sum of two magnitudes is stored right. -/
structure SumStored (added s t : Bool) (e : Int) (n x y : Nat) : Prop where
  low : -63 ≤ expo 100 |signedSum s t x y * (100 : ℚ) ^ (e - n)|
  fits : CutFits |signedSum s t x y * (100 : ℚ) ^ (e - n)|
  nines : ¬ (added = true ∧ s = true ∧ t = true ∧ e = 63 ∧ x + y + 1 = 100 ^ n)

section SumOf

variable {added s t : Bool} {e : Int} {n x y : Nat}

theorem sumOf_result_same (he : e ≤ 63) (hne : x + y ≠ 0) (hx : x < 100 ^ n) (hy : y < 100 ^ n)
    (h : SumStored added s s e n x y) :
    IsResult (sumOf added s s e n x y) (signedSum s s x y * (100 : ℚ) ^ (e - n)) := by
  have hsum : signedSum s s x y * (100 : ℚ) ^ (e - n) =
      sgn s * (((x + y : Nat) : ℚ) * (100 : ℚ) ^ (e - n)) := by
    unfold signedSum
    push_cast
    ring
  have hpos : 0 < ((x + y : Nat) : ℚ) * (100 : ℚ) ^ (e - n) := by
    have : 0 < x + y := by omega
    positivity
  obtain ⟨hlow, hfits, hnines⟩ := h
  rw [hsum, abs_sgn s hpos] at hlow hfits
  rw [hsum, isResult_sgn hpos]
  unfold sumOf
  rw [if_pos rfl]
  have hpow : (100 : Nat) ^ (n + 1) = 100 ^ n * 100 := pow_succ 100 n
  -- without a carry out of the first place the exponent stays
  by_cases hlt : x + y < 100 ^ n
  · rw [if_pos hlt, if_neg (fun h => hnines ⟨h.1, h.2.1, h.2.1, h.2.2⟩)]
    exact finish_cut s he hne hlt hlow hfits
  · rw [if_neg hlt]
    by_cases h63 : e = 63
    · rw [if_pos h63]
      -- a carry at the greatest exponent is an overflow
      apply overflow_cut
      have hge : ((100 ^ n : Nat) : ℚ) ≤ ((x + y : Nat) : ℚ) := by exact_mod_cast not_lt.mp hlt
      have hu : (0 : ℚ) ≤ (100 : ℚ) ^ (e - n) := by positivity
      have hcast : ((100 ^ n : Nat) : ℚ) = (100 : ℚ) ^ (n : Int) := by
        rw [zpow_natCast]
        exact Nat.cast_pow 100 n
      calc (100 : ℚ) ^ (63 : Int) = ((100 ^ n : Nat) : ℚ) * (100 : ℚ) ^ (e - n) := by
            rw [hcast, ← zpow_add₀ (by norm_num), h63, add_sub_cancel]
        _ ≤ _ := mul_le_mul_of_nonneg_right hge hu
    · have hexp : e - (n : Int) = (e + 1) - ((n + 1 : Nat) : Int) := by
        push_cast
        ring
      rw [if_neg h63]
      rw [hexp] at hlow hfits ⊢
      exact finish_cut s (by omega) hne (by omega) hlow hfits

theorem sumOf_result_mixed (he : e ≤ 63) (hx : x < 100 ^ n) (hy : y < 100 ^ n)
    (h : x ≠ y → SumStored added false true e n x y) :
    IsResult (sumOf added false true e n x y) (signedSum false true x y * (100 : ℚ) ^ (e - n)) := by
  have hu : (0 : ℚ) < (100 : ℚ) ^ (e - n) := by positivity
  rw [sumOf_mixed]
  rcases lt_trichotomy x y with hlt | rfl | hlt
  · have hsum : signedSum false true x y * (100 : ℚ) ^ (e - n) =
        sgn true * (((y - x : Nat) : ℚ) * (100 : ℚ) ^ (e - n)) := by
      unfold signedSum
      rw [sgn_false, sgn_true, Nat.cast_sub hlt.le]
      ring
    have hpos : 0 < ((y - x : Nat) : ℚ) * (100 : ℚ) ^ (e - n) :=
      mul_pos (by exact_mod_cast Nat.sub_pos_of_lt hlt) hu
    obtain ⟨hlow, hfits, -⟩ := h hlt.ne
    rw [hsum, abs_sgn true hpos] at hlow hfits
    rw [if_neg (by omega), hsum, isResult_sgn hpos]
    exact finish_cut true he (by omega) (by omega) hlow hfits
  · have hzero : signedSum false true x x * (100 : ℚ) ^ (e - n) = 0 := by
      unfold signedSum
      rw [sgn_false, sgn_true]
      ring
    rw [if_neg (lt_irrefl x), hzero, Nat.sub_self]
    unfold IsResult
    rw [if_pos rfl]
    rfl
  · have hsum : signedSum false true x y * (100 : ℚ) ^ (e - n) =
        sgn false * (((x - y : Nat) : ℚ) * (100 : ℚ) ^ (e - n)) := by
      unfold signedSum
      rw [sgn_false, sgn_true, Nat.cast_sub hlt.le]
      ring
    have hpos : 0 < ((x - y : Nat) : ℚ) * (100 : ℚ) ^ (e - n) :=
      mul_pos (by exact_mod_cast Nat.sub_pos_of_lt hlt) hu
    obtain ⟨hlow, hfits, -⟩ := h hlt.ne'
    rw [hsum, abs_sgn false hpos] at hlow hfits
    rw [if_pos hlt, hsum, isResult_sgn hpos]
    exact finish_cut false he (by omega) (by omega) hlow hfits

theorem signedSum_comm (s t : Bool) (x y : Nat) : signedSum s t x y = signedSum t s y x := by
  unfold signedSum
  ring

/-- **The sum of two magnitudes.** -/
theorem sumOf_result (he : e ≤ 63) (hne : x + y ≠ 0) (hx : x < 100 ^ n) (hy : y < 100 ^ n)
    (h : signedSum s t x y ≠ 0 → SumStored added s t e n x y) :
    IsResult (sumOf added s t e n x y) (signedSum s t x y * (100 : ℚ) ^ (e - n)) := by
  have hnonzero : ∀ u : Bool, signedSum u u x y ≠ 0 := by
    intro u h0
    unfold signedSum at h0
    rw [← mul_add] at h0
    have hsgn : sgn u ≠ 0 := by cases u <;> norm_num [sgn]
    have := (mul_eq_zero.mp h0).resolve_left hsgn
    exact hne (by exact_mod_cast this)
  have hdiff : ∀ a b : Nat, a ≠ b → signedSum false true a b ≠ 0 := by
    intro a b hab h0
    unfold signedSum at h0
    rw [sgn_false, sgn_true, one_mul, neg_one_mul] at h0
    exact hab (by exact_mod_cast add_neg_eq_zero.mp h0)
  cases s with
  | false =>
    cases t with
    | false => exact sumOf_result_same he hne hx hy (h (hnonzero false))
    | true => exact sumOf_result_mixed he hx hy fun hxy => h (hdiff x y hxy)
  | true =>
    cases t with
    | false =>
      rw [sumOf_comm, signedSum_comm]
      apply sumOf_result_mixed he hy hx
      intro hyx
      rw [signedSum_comm] at h
      obtain ⟨hlow, hfits, hnines⟩ := h (hdiff y x hyx)
      rw [signedSum_comm] at hlow hfits
      exact ⟨hlow, hfits, fun hn => Bool.false_ne_true hn.2.1⟩
    | true => exact sumOf_result_same he hne hx hy (h (hnonzero true))

end SumOf

/-- The number of places of two values. -/
def placesOf (a b : MtdNumericType) : Nat :=
  placeCount (exponentOf a) (exponentOf b) a.mantissa.length b.mantissa.length

/-- Two negative values whose sum fills all places with nines, at the greatest
    exponent. -/
def AllNines (a b : MtdNumericType) : Prop :=
  value a < 0 ∧ value b < 0 ∧ near (exponentOf a) (exponentOf b) = true ∧
    max (exponentOf a) (exponentOf b) = 63 ∧
    |addendSum a b| + (100 : ℚ) ^ (63 - (placesOf a b : Int)) = (100 : ℚ) ^ (63 : Int)

/-- **Where the sum is stored right**: its exponent is not below -63, its twentieth
    digit is no zero that something was cut off after, and it is not all nines. -/
structure SumFits (a b : MtdNumericType) : Prop where
  low : addendSum a b ≠ 0 → -63 ≤ expo 100 |addendSum a b|
  fits : addendSum a b ≠ 0 → CutFits |addendSum a b|
  nines : ¬ AllNines a b

/-- The addends in units of the last place. -/
theorem addendSum_encode (s t : Bool) {e₁ e₂ : Int} {xs ys : List Nat} (he₁ : InRange e₁)
    (he₂ : InRange e₂) (hxs : Mantissa xs) (hys : Mantissa ys) :
    let n := placeCount e₁ e₂ xs.length ys.length
    addendSum (encode s e₁ xs) (encode t e₂ ys) =
      signedSum s t (aligned e₁ e₂ xs n) (aligned e₂ e₁ ys n) *
        (100 : ℚ) ^ (max e₁ e₂ - (n : Int)) := by
  intro n
  have hx := val_places s (e := e₁) hxs (within_places e₁ e₂ xs.length ys.length)
  have hwithin := within_places e₂ e₁ ys.length xs.length
  rw [placeCount_comm] at hwithin
  have hy := val_places t (e := e₂) hys hwithin
  rw [add_offset] at hx
  rw [add_offset, max_comm] at hy
  unfold addendSum
  rw [exponentOf_encode s he₁, exponentOf_encode t he₂, value_encode s he₁ hxs.below,
    value_encode t he₂ hys.below, hx, hy]
  unfold signedSum aligned mag
  rw [spread_length, spread_length]
  push_cast
  ring

/-- What cutting costs, for one operand. -/
theorem cutAt_canonical {v : MtdNumericType} (hv : Canonical v) (p : Int) :
    |cutAt p (value v) - value v| < (100 : ℚ) ^ p := by
  have hp : (0 : ℚ) < (100 : ℚ) ^ p := by positivity
  cases hv with
  | zero =>
    rw [value_zero, cutAt_zero, sub_zero, abs_zero]
    exact hp
  | encode neg e ds hds he =>
    rw [value_encode neg he hds.below]
    exact cutAt_error neg p (hds.mag_pos e)

/-- An operand that ends within twenty places is not cut. -/
theorem cutAt_within {v : MtdNumericType} (hv : Canonical v) (e₂ : Int)
    (h : offset (exponentOf v) e₂ + v.mantissa.length ≤ 20) :
    cutAt (max (exponentOf v) e₂ - 20) (value v) = value v := by
  cases hv with
  | zero => rw [value_zero, cutAt_zero]
  | encode neg e ds hds he =>
    rw [exponentOf_encode neg he, encode_mantissa_length] at h
    rw [exponentOf_encode neg he, value_encode neg he hds.below, ← add_offset]
    exact cutAt_exact neg hds h

theorem canonical_length {v : MtdNumericType} (hv : Canonical v) : v.mantissa.length ≤ 20 := by
  cases hv with
  | zero => exact Nat.zero_le _
  | encode neg e ds hds he =>
    rw [encode_mantissa_length]
    exact hds.length_le

theorem addendSum_comm (a b : MtdNumericType) : addendSum a b = addendSum b a := by
  unfold addendSum
  rw [add_comm, max_comm]

/-- Zero has the smallest exponent, and nothing is cut off the other operand. -/
theorem addendSum_zero_left {v : MtdNumericType} (hv : Canonical v) :
    addendSum zero v = value v := by
  have hlen := canonical_length hv
  have hle : -64 ≤ exponentOf v := by
    cases hv with
    | zero => exact exponentOf_zero.ge
    | encode neg e ds hds he =>
      rw [exponentOf_encode neg he]
      have := he.1
      omega
  unfold addendSum
  rw [value_zero, cutAt_zero, zero_add, max_comm]
  apply cutAt_within hv
  rw [exponentOf_zero]
  unfold offset
  omega

theorem addFloat_zero_left {v : MtdNumericType} (hv : Canonical v) : addFloat zero v = .ok v := by
  cases hv with
  | zero => rfl
  | encode neg e ds hds he =>
    obtain ⟨se, d, m, heq, -⟩ := encode_cons neg he hds
    rw [heq]
    rfl

theorem addFloat_zero_right {v : MtdNumericType} (hv : Canonical v) : addFloat v zero = .ok v := by
  cases hv with
  | zero => rfl
  | encode neg e ds hds he =>
    obtain ⟨se, d, m, heq, -⟩ := encode_cons neg he hds
    rw [heq]
    rfl

/-- What cutting costs: the operand with the greater exponent is not cut. -/
theorem addendSum_error {a b : MtdNumericType} (ha : Canonical a) (hb : Canonical b) :
    |addendSum a b - (value a + value b)| <
      (100 : ℚ) ^ (max (exponentOf a) (exponentOf b) - 20) := by
  have hle : ∀ {v w : MtdNumericType}, Canonical v → Canonical w → exponentOf w ≤ exponentOf v →
      |addendSum v w - (value v + value w)| <
        (100 : ℚ) ^ (max (exponentOf v) (exponentOf w) - 20) := by
    intro v w hv hw hvw
    have hlen := canonical_length hv
    have hfull : cutAt (max (exponentOf v) (exponentOf w) - 20) (value v) = value v := by
      apply cutAt_within hv
      unfold offset
      omega
    unfold addendSum
    rw [hfull, add_sub_add_left_eq_sub]
    exact cutAt_canonical hw (max (exponentOf v) (exponentOf w) - 20)
  rcases le_total (exponentOf b) (exponentOf a) with h | h
  · exact hle ha hb h
  · rw [addendSum_comm, add_comm (value a), max_comm]
    exact hle hb ha h

/-- The condition on the sum, for the magnitudes. -/
theorem sumStored_of_fits (s t : Bool) {e₁ e₂ : Int} {xs ys : List Nat} (he₁ : InRange e₁)
    (he₂ : InRange e₂) (hxs : Mantissa xs) (hys : Mantissa ys)
    (h : SumFits (encode s e₁ xs) (encode t e₂ ys)) :
    let n := placeCount e₁ e₂ xs.length ys.length
    let x := aligned e₁ e₂ xs n
    let y := aligned e₂ e₁ ys n
    signedSum s t x y ≠ 0 → SumStored (near e₁ e₂) s t (max e₁ e₂) n x y := by
  intro n x y hne
  have hu : (0 : ℚ) < (100 : ℚ) ^ (max e₁ e₂ - (n : Int)) := by positivity
  obtain ⟨hlow, hfits, hnines⟩ := h
  rw [addendSum_encode s t he₁ he₂ hxs hys] at hlow hfits
  have hmul := mul_ne_zero hne hu.ne'
  refine ⟨hlow hmul, hfits hmul, ?_⟩
  rintro ⟨hnear, rfl, rfl, h63, hsum⟩
  apply hnines
  -- both operands are negative, so their sum is not zero
  have hpos : (0 : ℚ) < ((x + y : Nat) : ℚ) := by
    have hn : x + y ≠ 0 := by
      intro h0
      apply hne
      unfold signedSum
      rw [← mul_add, ← Nat.cast_add, h0, Nat.cast_zero, mul_zero]
    exact_mod_cast Nat.pos_of_ne_zero hn
  have hsigned : signedSum true true x y = sgn true * ((x + y : Nat) : ℚ) := by
    unfold signedSum
    push_cast
    ring
  have hn : placesOf (encode true e₁ xs) (encode true e₂ ys) = n := by
    unfold placesOf
    rw [exponentOf_encode true he₁, exponentOf_encode true he₂, encode_mantissa_length,
      encode_mantissa_length]
  -- the sum has nines only
  have hcast : ((x + y : Nat) : ℚ) + 1 = (100 : ℚ) ^ (n : Int) := by
    rw [zpow_natCast]
    exact_mod_cast hsum
  refine ⟨?_, ?_, ?_, ?_, ?_⟩
  · rw [value_encode true he₁ hxs.below, sgn_true]
    linarith [hxs.mag_pos e₁]
  · rw [value_encode true he₂ hys.below, sgn_true]
    linarith [hys.mag_pos e₂]
  · rw [exponentOf_encode true he₁, exponentOf_encode true he₂]
    exact hnear
  · rw [exponentOf_encode true he₁, exponentOf_encode true he₂]
    exact h63
  · rw [addendSum_encode true true he₁ he₂ hxs hys, hn]
    show |signedSum true true x y * (100 : ℚ) ^ (max e₁ e₂ - (n : Int))| + _ = _
    rw [hsigned, mul_assoc, abs_sgn true (mul_pos hpos hu), h63, ← add_one_mul, hcast,
      ← zpow_add₀ (by norm_num), add_sub_cancel]

/-- **The sum.**  Where it fits, `addFloat` returns the canonical form of the sum of
    the operands as they are cut, or an overflow; what is cut off is less than a unit
    of the last place; and nothing is cut off where both operands end within twenty
    places. -/
theorem addFloat_result {a b : MtdNumericType} (ha : Canonical a) (hb : Canonical b)
    (h : SumFits a b) :
    IsResult (addFloat a b) (addendSum a b) ∧
      |addendSum a b - (value a + value b)| <
        (100 : ℚ) ^ (max (exponentOf a) (exponentOf b) - 20) ∧
      (offset (exponentOf a) (exponentOf b) + a.mantissa.length ≤ 20 →
        offset (exponentOf b) (exponentOf a) + b.mantissa.length ≤ 20 →
        addendSum a b = value a + value b) := by
  refine ⟨?_, addendSum_error ha hb, fun hla hlb => ?_⟩
  · cases ha with
    | zero =>
      rw [addFloat_zero_left hb, addendSum_zero_left hb]
      exact isResult_self hb
    | encode s e₁ xs hxs he₁ =>
      cases hb with
      | zero =>
        rw [addFloat_zero_right (.encode s e₁ xs hxs he₁), addendSum_comm,
          addendSum_zero_left (.encode s e₁ xs hxs he₁)]
        exact isResult_self (.encode s e₁ xs hxs he₁)
      | encode t e₂ ys hys he₂ =>
        rw [addFloat_closed s t he₁ he₂ hxs hys, addendSum_encode s t he₁ he₂ hxs hys]
        have hn : 0 < placeCount e₁ e₂ xs.length ys.length := by
          have := List.length_pos_of_ne_nil hxs.ne
          unfold placeCount
          omega
        exact sumOf_result (max_le he₁.2 he₂.2) (aligned_ne hxs hys hn)
          (aligned_lt e₁ e₂ hxs.below _) (aligned_lt e₂ e₁ hys.below _)
          (sumStored_of_fits s t he₁ he₂ hxs hys h)
  · unfold addendSum
    rw [cutAt_within ha _ hla, max_comm, cutAt_within hb _ hlb]

/-- `9987.5 + 12.75 = 10000.25`. -/
theorem sumFits_carry : SumFits (encode false 2 [99, 87, 50]) (encode false 1 [12, 75]) := by
  have hx : Mantissa [99, 87, 50] := by decide
  have hy : Mantissa [12, 75] := by decide
  have hsum : addendSum (encode false 2 [99, 87, 50]) (encode false 1 [12, 75])
      = mag 100 3 [1, 0, 0, 25] := by
    rw [addendSum_encode false false (by decide) (by decide) hx hy]
    rw [show aligned 2 1 [99, 87, 50] (placeCount 2 1 [99, 87, 50].length [12, 75].length)
        = 998750 by decide,
      show aligned 1 2 [12, 75] (placeCount 2 1 [99, 87, 50].length [12, 75].length) = 1275
        by decide]
    norm_num [signedSum, mag, placeCount, offset, val]
  have hcarry : Mantissa [1, 0, 0, 25] := by decide
  have habs : |mag 100 3 [1, 0, 0, 25]| = mag 100 3 [1, 0, 0, 25] :=
    abs_of_pos (hcarry.mag_pos 3)
  refine ⟨fun _ => ?_, fun _ => ?_, fun hn => ?_⟩
  · rw [hsum, habs, expo_mag (by norm_num) 3 (by norm_num) hcarry.below]
    norm_num
  · rw [hsum, habs]
    exact .inr (.inr (.inr ((cut_eq_self_iff (by norm_num) hcarry.below).mpr (by decide))))
  · have hneg := hn.1
    rw [value_encode false (by decide) hx.below, sgn_false, one_mul] at hneg
    exact absurd (hx.mag_pos 2) (not_lt.mpr hneg.le)

theorem addFloat_result_carry :
    IsResult (addFloat (encode false 2 [99, 87, 50]) (encode false 1 [12, 75]))
        (addendSum (encode false 2 [99, 87, 50]) (encode false 1 [12, 75])) ∧
      |addendSum (encode false 2 [99, 87, 50]) (encode false 1 [12, 75]) -
          (value (encode false 2 [99, 87, 50]) + value (encode false 1 [12, 75]))| <
        (100 : ℚ) ^ (max (exponentOf (encode false 2 [99, 87, 50]))
          (exponentOf (encode false 1 [12, 75])) - 20) ∧
      (offset (exponentOf (encode false 2 [99, 87, 50])) (exponentOf (encode false 1 [12, 75])) +
          (encode false 2 [99, 87, 50]).mantissa.length ≤ 20 →
        offset (exponentOf (encode false 1 [12, 75])) (exponentOf (encode false 2 [99, 87, 50])) +
          (encode false 1 [12, 75]).mantissa.length ≤ 20 →
        addendSum (encode false 2 [99, 87, 50]) (encode false 1 [12, 75]) =
          value (encode false 2 [99, 87, 50]) + value (encode false 1 [12, 75])) :=
  addFloat_result (.encode false 2 [99, 87, 50] (by decide) (by decide))
    (.encode false 1 [12, 75] (by decide) (by decide)) sumFits_carry

/-- The digits of `1 - 2 · 100⁻²⁰`. -/
def almostOne : List Nat := List.replicate 19 99 ++ [98]

/-- **`1 - (1 - 2 · 100⁻²⁰)` is a canonical value, but the sum is `100⁻¹⁹`**: the last
    digit of the second operand lies at the twenty-first place. -/
theorem add_cut :
    addFloat (encode false 1 [1]) (encode true 0 almostOne) = .ok (encode false (-18) [1]) ∧
    ¬ ∀ a b v, Canonical a → Canonical b → Canonical v → value a + value b = value v →
      addFloat a b = .ok v := by
  have hrun : addFloat (encode false 1 [1]) (encode true 0 almostOne) =
      .ok (encode false (-18) [1]) := by decide
  refine ⟨hrun, ?_⟩
  intro h
  have h1 : InRange 1 := by decide
  have h0 : InRange 0 := by decide
  have h19 : InRange (-19) := by decide
  have hone : Mantissa [1] := by decide
  have hlong : Mantissa almostOne := by decide
  have htwo : Mantissa [2] := by decide
  have hval : val 100 almostOne = 100 ^ 20 - 2 := by decide
  have hsum : value (encode false 1 [1]) + value (encode true 0 almostOne) =
      value (encode false (-19) [2]) := by
    rw [value_encode false h1 hone.below, value_encode true h0 hlong.below,
      value_encode false h19 htwo.below]
    unfold mag
    rw [hval]
    norm_num [almostOne, val]
  have := h _ _ _ (.encode false 1 [1] hone h1) (.encode true 0 almostOne hlong h0)
    (.encode false (-19) [2] htwo h19) hsum
  rw [hrun] at this
  exact absurd (Except.ok.inj this) (by decide)

end Altibase.Mtc
