/-
  Altibase.Mtc.SubtractLoop
  ─────────────────────────
  **THE LOOP OF SUBTRACTION.**

  `subtractFloat` does not negate and add: it has a loop of its own, which takes
  the bytes of the second operand from those of the first, place by place, and
  passes a borrow on.  What stands outside the digits of an operand is never
  stored, so every region of the places has its own branch.

    * `subPlace_spec` — whatever the branch, the bytes of the place are
      subtracted;
    * `subPlaces_difference` — the loop subtracts the two strings of bytes.
-/

import Altibase.Mtc.Add

namespace Altibase.Mtc

open Altibase.Lib.Digits

/-! ## §1. The function. -/

/-- The indices, the lengths and the borrow of the loop. -/
structure SubState where
  sArg1Index : Int
  sArg1Length : Nat
  sArg2Index : Int
  sArg2Length : Nat
  sBorrow : Nat

/-- Past the end of the second operand: the byte and the borrow. -/
def subAfter2 (positive2 : Bool) (d1 sBorrow : Nat) : Nat × Nat :=
  if positive2 then (d1, sBorrow)
  else if (d1 : Int) - sBorrow < 99 then (100 + d1 - sBorrow - 99, 1)
  else (0, 0)

/-- Past the end of the first operand. -/
def subAfter1 (positive1 : Bool) (d2 sBorrow : Nat) : Nat × Nat :=
  if positive1 then (100 - sBorrow - d2, 1) else (99 - d2, 0)

/-- Where both operands have a digit. -/
def subBoth (d1 d2 sBorrow : Nat) : Nat × Nat :=
  if d1 < d2 + sBorrow then (100 + d1 - d2 - sBorrow, 1) else (d1 - d2 - sBorrow, 0)

/-- Where neither has one. -/
def subGap (positive1 positive2 : Bool) (sBorrow : Nat) : Nat × Nat :=
  if sBorrow ≠ 0 then
    if positive1 then (if positive2 then 99 else 0, 1)
    else if positive2 then (98, 0)
    else (99, 1)
  else if positive1 then
    if positive2 then (0, 0) else (1, 1)
  else (if positive2 then 99 else 0, 0)

/-- Before the first digit of the second operand. -/
def subBefore2 (positive2 : Bool) (d1 sBorrow : Nat) : Nat × Nat :=
  if positive2 then
    if d1 < sBorrow then (100 - d1 - sBorrow, 1) else (d1 - sBorrow, 0)
  else if (d1 : Int) - sBorrow < 99 then (100 + d1 - sBorrow - 99, 1)
  else (0, 0)

/-- Before the first digit of the first operand. -/
def subBefore1 (positive1 : Bool) (d2 sBorrow : Nat) : Nat × Nat :=
  if positive1 then
    if sBorrow ≠ 0 then (99 - d2, sBorrow)
    else if d2 = 0 then (0, sBorrow)
    else (100 - d2, 1)
  else if (99 : Int) - sBorrow < d2 then (100 + 99 - d2 - sBorrow, 1)
  else (99 - d2 - sBorrow, 0)

/-- **One round of the loop**: the byte at `mantissaIndex`, and the state. -/
def subPlace (aArgument1 aArgument2 : MtdNumericType) (sDiffExp mantissaIndex : Nat)
    (s : SubState) : Nat × SubState :=
  let positive1 := isPositive aArgument1.signExponent
  let positive2 := isPositive aArgument2.signExponent
  let d1 := aArgument1.digit s.sArg1Index
  let d2 := aArgument2.digit s.sArg2Index
  if s.sArg1Length > s.sArg2Length ∧ s.sArg1Index ≥ 0 then
    -- behind the last digit of the second operand
    let r := subAfter2 positive2 d1 s.sBorrow
    (r.1, { s with sBorrow := r.2, sArg1Index := s.sArg1Index - 1,
                   sArg1Length := s.sArg1Length - 1 })
  else if s.sArg1Length < s.sArg2Length ∧ s.sArg2Index ≥ 0 then
    -- behind the last digit of the first operand
    let r := subAfter1 positive1 d2 s.sBorrow
    (r.1, { s with sBorrow := r.2, sArg2Index := s.sArg2Index - 1,
                   sArg2Length := s.sArg2Length - 1 })
  else if (s.sArg1Index = s.sArg2Index + sDiffExp ∨ s.sArg2Index = s.sArg1Index + sDiffExp) ∧
      s.sArg1Index ≥ 0 ∧ s.sArg2Index ≥ 0 then
    -- both have a digit
    let r := subBoth d1 d2 s.sBorrow
    (r.1, { s with sBorrow := r.2, sArg1Index := s.sArg1Index - 1,
                   sArg2Index := s.sArg2Index - 1 })
  else if (s.sArg2Index < 0 ∧ (mantissaIndex : Int) > s.sArg1Index) ∨
      (s.sArg1Index < 0 ∧ (mantissaIndex : Int) > s.sArg2Index) then
    -- between the two, where neither has one
    let r := subGap positive1 positive2 s.sBorrow
    (r.1, { s with sBorrow := r.2 })
  else if s.sArg2Index < 0 then
    -- in front of the second operand
    let r := subBefore2 positive2 d1 s.sBorrow
    (r.1, { s with sBorrow := r.2, sArg1Index := s.sArg1Index - 1 })
  else if s.sArg1Index < 0 then
    -- in front of the first operand
    let r := subBefore1 positive1 d2 s.sBorrow
    (r.1, { s with sBorrow := r.2, sArg2Index := s.sArg2Index - 1 })
  else (0, s)

/-- The loop over the places below `mantissaIndex`, in front of what is there. -/
def subPlaces (aArgument1 aArgument2 : MtdNumericType) (sDiffExp : Nat) :
    Nat → SubState → List Nat → Nat × List Nat
  | 0, s, mantissa => (s.sBorrow, mantissa)
  | mantissaIndex + 1, s, mantissa =>
    let r := subPlace aArgument1 aArgument2 sDiffExp mantissaIndex s
    subPlaces aArgument1 aArgument2 sDiffExp mantissaIndex r.2 (r.1 :: mantissa)

/-- The body of the loop that takes one from the bytes. -/
def predStep (d c : Nat) : Nat × Nat :=
  if c = 0 then (0, d) else if d = 0 then (1, 99) else (0, d - 1)

/-- What follows the loop: the byte `signExponent` and the bytes of the mantissa. -/
def subSettle (positive1 positive2 : Bool) (sExponent1 : Int) (sBorrow : Nat)
    (mantissa : List Nat) : Nat × List Nat :=
  if positive1 = positive2 then
    if sBorrow ≠ 0 then
      let m := (carry predStep mantissa 1).2
      let checkIndex := (m.takeWhile (· = 99)).length
      (uchar (64 - (sExponent1 - checkIndex)), m.drop checkIndex)
    else
      let isZero := (mantissa.takeWhile (· = 0)).length
      if isZero = mantissa.length then (0x80, [])
      else (uchar (sExponent1 - isZero + 192), mantissa.drop isZero)
  else if positive1 then
    let r := carry predStep mantissa 1
    if sBorrow = 0 ∧ r.1 = 0 then (uchar (sExponent1 + 1 + 192), 1 :: r.2)
    else (uchar (sExponent1 + 192), r.2)
  else if sBorrow ≠ 0 then (uchar (64 - (sExponent1 + 1)), 98 :: mantissa)
  else (uchar (64 - sExponent1), mantissa)

/-- Trims the end by the sign that the byte `signExponent` has, and stores. -/
def subStore (signExponent : Nat) (mantissa : List Nat) : MtdNumericType :=
  .num signExponent ((trimEnd (if isPositive signExponent then 0 else 99) mantissa).take 20)

/-- `-aArgument2`, byte by byte. -/
def subNegate : MtdNumericType → MtdNumericType
  | .null => .null
  | .num se m => .num (uchar (256 - se)) (m.map (99 - ·))

/-- The state before the loop. -/
def Operands.subState (o : Operands) : SubState :=
  if o.longIsFirst then
    ⟨o.cutLength.1, o.cutLength.2, (o.shortArg.length : Int) - 2, o.shortLength, 0⟩
  else ⟨(o.shortArg.length : Int) - 2, o.shortLength, o.cutLength.1, o.cutLength.2, 0⟩

/-- The subtraction, after the operands are told apart.  With the first operand as
    the long one and too small to matter, the bytes of `-aArgument2` are stored, but
    there is no return, and the loop overwrites them. -/
def subOperands (o : Operands) (aArgument1 aArgument2 : MtdNumericType) :
    Except MathError MtdNumericType :=
  if o.longLength - o.longArg.length > lengthMaximum ∧ o.longIsFirst = false then .ok o.shortArg
  else
    let r := subPlaces aArgument1 aArgument2 o.sDiffExp (o.cutLength.2 - 1) o.subState []
    if o.sExponent1 > 63 then .error .valueOverflow
    else
      let v := subSettle (isPositive aArgument1.signExponent) (isPositive aArgument2.signExponent)
        o.sExponent1 r.1 r.2
      .ok (subStore v.1 v.2)

/-- **`subtractFloat`**, with the precision 38. -/
def subtractFloat : MtdNumericType → MtdNumericType → Except MathError MtdNumericType
  | .null, _ => .ok .null
  | _, .null => .ok .null
  | .num _ [], b => .ok (subNegate b)
  | a, .num _ [] => .ok a
  | a, b => subOperands (operands a b) a b

/-! ## §2. One place. -/

/-- The byte and the borrow `r` of a place with the bytes `x` and `y`. -/
structure Subtracts (x y c : Nat) (r : Nat × Nat) : Prop where
  eq : x + 100 * r.2 = y + c + r.1
  borrow : r.2 ≤ 1
  le : r.1 ≤ 100

/-- What stands outside the digits of an operand. -/
def fillOf (positive : Bool) : Nat := if positive then 0 else 99

section Place

variable {d c : Nat}

theorem subAfter2_spec (positive2 : Bool) (hd : d < 100) (hc : c ≤ 1)
    (hzero : positive2 = true → c = 0) :
    Subtracts d (fillOf positive2) c (subAfter2 positive2 d c) ∧
      (subAfter2 positive2 d c).1 < 100 := by
  unfold subAfter2 fillOf
  cases positive2 with
  | false =>
    simp only [Bool.false_eq_true, if_false]
    split_ifs with hlt
    · exact ⟨⟨by simp only; omega, le_rfl, by simp only; omega⟩, by simp only; omega⟩
    · exact ⟨⟨by simp only; omega, by norm_num, by norm_num⟩, by norm_num⟩
  | true =>
    obtain rfl := hzero rfl
    exact ⟨⟨by simp, by simp, hd.le⟩, hd⟩

theorem subAfter1_spec (positive1 : Bool) (hd : d < 100) (hc : c ≤ 1)
    (hzero : positive1 = false → c = 0) :
    Subtracts (fillOf positive1) d c (subAfter1 positive1 d c) ∧
      ((subAfter1 positive1 d c).1 = 100 → positive1 = true ∧ d = 0 ∧ c = 0) := by
  unfold subAfter1 fillOf
  cases positive1 with
  | false =>
    obtain rfl := hzero rfl
    simp only [Bool.false_eq_true, if_false]
    exact ⟨⟨by simp only; omega, by norm_num, by simp only; omega⟩,
      fun h => by omega⟩
  | true =>
    simp only [if_true]
    exact ⟨⟨by simp only; omega, le_rfl, by simp only; omega⟩, fun h => ⟨trivial, by omega⟩⟩

theorem subBoth_spec {d2 : Nat} (hd : d < 100) (hd2 : d2 < 100) (hc : c ≤ 1) :
    Subtracts d d2 c (subBoth d d2 c) ∧ (subBoth d d2 c).1 < 100 := by
  unfold subBoth
  split_ifs with hlt
  · exact ⟨⟨by simp only; omega, le_rfl, by simp only; omega⟩, by simp only; omega⟩
  · exact ⟨⟨by simp only; omega, by norm_num, by simp only; omega⟩, by simp only; omega⟩

theorem subGap_spec (positive1 positive2 : Bool) (hc : c ≤ 1) :
    Subtracts (fillOf positive1) (fillOf positive2) c (subGap positive1 positive2 c) ∧
      (subGap positive1 positive2 c).1 < 100 := by
  rcases Nat.le_one_iff_eq_zero_or_eq_one.mp hc with rfl | rfl
  · cases positive1 <;> cases positive2 <;>
      exact ⟨⟨by decide, by decide, by decide⟩, by decide⟩
  · cases positive1 <;> cases positive2 <;>
      exact ⟨⟨by decide, by decide, by decide⟩, by decide⟩

theorem subBefore2_spec (positive2 : Bool) (hd : d < 100) (hc : c ≤ 1) :
    Subtracts d (fillOf positive2) c (subBefore2 positive2 d c) ∧
      (subBefore2 positive2 d c).1 < 100 := by
  unfold subBefore2 fillOf
  cases positive2 with
  | false =>
    simp only [Bool.false_eq_true, if_false]
    split_ifs with hlt
    · exact ⟨⟨by simp only; omega, le_rfl, by simp only; omega⟩, by simp only; omega⟩
    · exact ⟨⟨by simp only; omega, by norm_num, by norm_num⟩, by norm_num⟩
  | true =>
    simp only [if_true]
    split_ifs with hlt
    · exact ⟨⟨by simp only; omega, le_rfl, by simp only; omega⟩, by simp only; omega⟩
    · exact ⟨⟨by simp only; omega, by norm_num, by simp only; omega⟩, by simp only; omega⟩

theorem subBefore1_spec (positive1 : Bool) (hd : d < 100) (hc : c ≤ 1) :
    Subtracts (fillOf positive1) d c (subBefore1 positive1 d c) ∧
      (subBefore1 positive1 d c).1 < 100 := by
  unfold subBefore1 fillOf
  cases positive1 with
  | false =>
    simp only [Bool.false_eq_true, if_false]
    split_ifs with hlt
    · exact ⟨⟨by simp only; omega, le_rfl, by simp only; omega⟩, by simp only; omega⟩
    · exact ⟨⟨by simp only; omega, by norm_num, by simp only; omega⟩, by simp only; omega⟩
  | true =>
    simp only [if_true]
    split_ifs with h1 h2
    · exact ⟨⟨by simp only; omega, hc, by simp only; omega⟩, by simp only; omega⟩
    · exact ⟨⟨by simp only; omega, hc, by norm_num⟩, by norm_num⟩
    · exact ⟨⟨by simp only; omega, le_rfl, by simp only; omega⟩, by simp only; omega⟩

end Place

/-- The index of an operand at offset `o` with `len` digits, before the loop comes
    to place `k - 1`. -/
structure IndexAt (o len k : Nat) (index : Int) : Prop where
  before : k ≤ o → index < 0
  inside : o < k → k ≤ o + len → index = (k : Int) - 1 - o
  after : o + len < k → index = (len : Int) - 1

/-- The offsets and lengths of the two operands. -/
structure Shape where
  o1 : Nat
  o2 : Nat
  n1 : Nat
  n2 : Nat

/-- Where an operand ends. -/
def Shape.end1 (z : Shape) : Nat := z.o1 + z.n1

/-- Where the second operand ends. -/
def Shape.end2 (z : Shape) : Nat := z.o2 + z.n2

/-- **The state before place `k - 1`.**  Past the end of one operand the other's
    length is counted down; the branches there rely on what the borrow is. -/
structure SubState.At (z : Shape) (n : Nat) (positive1 positive2 : Bool) (k : Nat)
    (s : SubState) : Prop where
  index1 : IndexAt z.o1 z.n1 k s.sArg1Index
  index2 : IndexAt z.o2 z.n2 k s.sArg2Index
  lengths : (z.end2 ≤ z.end1 ∧ s.sArg2Length = z.end2 + 1 ∧
        s.sArg1Length = max k (max z.end2 (min z.o1 n)) + 1) ∨
      (z.end1 ≤ z.end2 ∧ s.sArg1Length = z.end1 + 1 ∧
        s.sArg2Length = max k (max z.end1 (min z.o2 n)) + 1)
  borrow : s.sBorrow ≤ 1
  zero2 : positive2 = true → z.end2 ≤ k → z.o1 ≤ k → s.sBorrow = 0
  zero1 : positive1 = false → z.end1 ≤ k → z.o2 ≤ k → s.sBorrow = 0
  one1 : positive1 = true → z.end1 ≤ k → z.o2 ≤ k → k < n → s.sBorrow = 1

theorem digit_lt {a : MtdNumericType} (h : Below 100 a.mantissa) (i : Int) : a.digit i < 100 := by
  unfold MtdNumericType.digit
  by_cases hi : i.toNat < a.mantissa.length
  · rw [List.getD_eq_getElem _ _ hi]
    exact h _ (List.getElem_mem hi)
  · rw [List.getD_eq_default _ _ (by omega)]
    norm_num

/-- The index at the next place, where the operand has a digit. -/
theorem IndexAt.step {o len k : Nat} {i : Int} (h : IndexAt o len (k + 1) i) (hin : o ≤ k)
    (hend : k < o + len) : i = (k : Int) - o ∧ IndexAt o len k (i - 1) := by
  obtain ⟨-, hinside, -⟩ := h
  have hi := hinside (by omega) (by omega)
  refine ⟨by omega, ⟨fun _ => by omega, fun _ _ => by omega, fun _ => by omega⟩⟩

/-- The index at the next place, where the operand has none. -/
theorem IndexAt.stay {o len k : Nat} {i : Int} (h : IndexAt o len (k + 1) i)
    (hout : k < o ∨ o + len ≤ k) : IndexAt o len k i := by
  obtain ⟨hbefore, hinside, hafter⟩ := h
  rcases hout with hlt | hge
  · exact ⟨fun _ => hbefore (by omega), fun _ _ => by omega, fun _ => by omega⟩
  · have hi := hafter (by omega)
    exact ⟨fun _ => by omega, fun _ _ => by omega, fun _ => hi⟩

section Step

variable {a b : MtdNumericType} {z : Shape} {n sDiffExp k : Nat} {s : SubState}

/-- The operands and the places that the loop is run on. -/
structure SubLoop (a b : MtdNumericType) (z : Shape) (n sDiffExp : Nat) : Prop where
  first : z.o1 = 0 ∨ z.o2 = 0
  diff : sDiffExp = z.o1 + z.o2
  digits1 : z.n1 = a.mantissa.length
  digits2 : z.n2 = b.mantissa.length
  places : n ≤ max z.end1 z.end2
  below1 : Below 100 a.mantissa
  below2 : Below 100 b.mantissa

/-- What a round has to do at place `k`.  The byte can only be a hundred at the last
    place, past the end of a positive first operand. -/
structure PlaceRight (a b : MtdNumericType) (z : Shape) (n k : Nat) (s : SubState)
    (r : Nat × SubState) : Prop where
  subtracts : Subtracts (place a.fill z.o1 a.mantissa k) (place b.fill z.o2 b.mantissa k) s.sBorrow
    (r.1, r.2.sBorrow)
  next : r.2.At z n (isPositive a.signExponent) (isPositive b.signExponent) k
  hundred : r.1 = 100 → isPositive a.signExponent = true ∧ z.end1 ≤ k ∧ z.o2 ≤ k ∧
    place b.fill z.o2 b.mantissa k = 0 ∧ k + 1 = n

theorem IndexAt.place {v : MtdNumericType} {fill o len : Nat} {i : Int}
    (h : IndexAt o len (k + 1) i) (hlen : len = v.mantissa.length) (hin : o ≤ k)
    (hend : k < o + len) : place fill o v.mantissa k = v.digit i := by
  have hi := (h.step hin hend).1
  exact (digit_eq_place hi (by omega) (by omega)).symm

section At

variable {p1 p2 : Bool}

/-- The first operand is not being counted down. -/
theorem SubState.At.not_after2 (hs : s.At z n p1 p2 (k + 1)) (h : k < z.end2 ∨ k < z.o1) :
    ¬ (s.sArg1Length > s.sArg2Length ∧ s.sArg1Index ≥ 0) := by
  rintro ⟨hlt, hge⟩
  have hin : z.o1 ≤ k := by
    by_contra hlt'
    have := hs.index1.before (by omega)
    omega
  have hlen := hs.lengths
  omega

/-- The second operand is not being counted down. -/
theorem SubState.At.not_after1 (hs : s.At z n p1 p2 (k + 1)) (h : k < z.end1 ∨ k < z.o2) :
    ¬ (s.sArg1Length < s.sArg2Length ∧ s.sArg2Index ≥ 0) := by
  rintro ⟨hlt, hge⟩
  have hin : z.o2 ≤ k := by
    by_contra hlt'
    have := hs.index2.before (by omega)
    omega
  have hlen := hs.lengths
  omega

theorem max_stay {m : Nat} (h : k < m) : max (k + 1) m = max k m := by
  rw [max_eq_right h, max_eq_right (Nat.le_of_lt h)]

theorem max_step {m : Nat} (h : m ≤ k) : max (k + 1) m = max k m + 1 := by
  rw [max_eq_left h, max_eq_left (Nat.le_succ_of_le h)]

/-- The state after a round that counts no operand down. -/
theorem SubState.At.next (hs : s.At z n p1 p2 (k + 1)) (hk : k < n) (h2 : k < z.end2 ∨ k < z.o1)
    (h1 : k < z.end1 ∨ k < z.o2) {i1 i2 : Int} {c : Nat} (hi1 : IndexAt z.o1 z.n1 k i1)
    (hi2 : IndexAt z.o2 z.n2 k i2) (hc : c ≤ 1) :
    SubState.At z n p1 p2 k ⟨i1, s.sArg1Length, i2, s.sArg2Length, c⟩ := by
  have ho1 : z.o1 ≤ z.end1 := Nat.le_add_right _ _
  have ho2 : z.o2 ≤ z.end2 := Nat.le_add_right _ _
  refine ⟨hi1, hi2, ?_, hc, fun _ _ _ => ?_, fun _ _ _ => ?_, fun _ _ _ _ => ?_⟩
  · rcases hs.lengths with ⟨hle, hlen2, hlen1⟩ | ⟨hle, hlen1, hlen2⟩
    · have hlast : k < max z.end2 (min z.o1 n) :=
        lt_max_iff.mpr (h2.imp_right (fun ho => lt_min ho hk))
      exact .inl ⟨hle, hlen2, by rw [hlen1, max_stay hlast]⟩
    · have hlast : k < max z.end1 (min z.o2 n) :=
        lt_max_iff.mpr (h1.imp_right (fun ho => lt_min ho hk))
      exact .inr ⟨hle, hlen1, by rw [hlen2, max_stay hlast]⟩
  · omega
  · omega
  · omega

end At

variable (h : SubLoop a b z n sDiffExp)
  (hs : s.At z n (isPositive a.signExponent) (isPositive b.signExponent) (k + 1))
include h hs

/-- Past the end of the second operand. -/
theorem subPlace_after2 (hout : z.end2 ≤ k) (hin : z.o1 ≤ k) (hend : k < z.end1) :
    PlaceRight a b z n k s (subPlace a b sDiffExp k s) := by
  obtain ⟨hidx, hnext⟩ := hs.index1.step hin hend
  have hlen := hs.lengths
  have hr : subPlace a b sDiffExp k s =
      ((subAfter2 (isPositive b.signExponent) (a.digit s.sArg1Index) s.sBorrow).1,
        ⟨s.sArg1Index - 1, s.sArg1Length - 1, s.sArg2Index, s.sArg2Length,
          (subAfter2 (isPositive b.signExponent) (a.digit s.sArg1Index) s.sBorrow).2⟩) := by
    unfold subPlace
    simp only
    rw [if_pos (by omega)]
  have hzero := fun hp => hs.zero2 hp (by omega) (by omega)
  obtain ⟨hsub, hlt⟩ := subAfter2_spec (isPositive b.signExponent)
    (digit_lt h.below1 s.sArg1Index) hs.borrow hzero
  have hx : place a.fill z.o1 a.mantissa k = a.digit s.sArg1Index :=
    hs.index1.place h.digits1 hin hend
  have hy : place b.fill z.o2 b.mantissa k = fillOf (isPositive b.signExponent) :=
    place_outside (.inr (by rw [← h.digits2]; exact hout))
  rw [hr]
  refine ⟨by rw [hx, hy]; exact hsub, ⟨hnext, hs.index2.stay (.inr hout), ?_, hsub.borrow, ?_, ?_,
    ?_⟩, fun h100 => absurd h100 hlt.ne⟩
  · -- The first operand is the one that reaches further, so it is counted down.
    rcases hs.lengths with ⟨hle, hlen2, hlen1⟩ | ⟨hle, -, -⟩
    · have hlast : max z.end2 (min z.o1 n) ≤ k := max_le hout (min_le_of_left_le hin)
      exact .inl ⟨hle, hlen2, by rw [hlen1, max_step hlast]; rfl⟩
    · omega
  · intro hp _ _
    rw [hp, hzero hp]
    rfl
  · intro _ h1 _
    omega
  · intro _ h1 _ _
    omega

/-- Past the end of the first operand. -/
theorem subPlace_after1 (hk : k < n) (hout : z.end1 ≤ k) (hin : z.o2 ≤ k) (hend : k < z.end2) :
    PlaceRight a b z n k s (subPlace a b sDiffExp k s) := by
  obtain ⟨hidx, hnext⟩ := hs.index2.step hin hend
  have hlen := hs.lengths
  have hr : subPlace a b sDiffExp k s =
      ((subAfter1 (isPositive a.signExponent) (b.digit s.sArg2Index) s.sBorrow).1,
        ⟨s.sArg1Index, s.sArg1Length, s.sArg2Index - 1, s.sArg2Length - 1,
          (subAfter1 (isPositive a.signExponent) (b.digit s.sArg2Index) s.sBorrow).2⟩) := by
    unfold subPlace
    simp only
    rw [if_neg (by omega), if_pos (by omega)]
  obtain ⟨hsub, hle⟩ := subAfter1_spec (isPositive a.signExponent)
    (digit_lt h.below2 s.sArg2Index) hs.borrow (fun hp => hs.zero1 hp (by omega) (by omega))
  have hx : place a.fill z.o1 a.mantissa k = fillOf (isPositive a.signExponent) :=
    place_outside (.inr (by rw [← h.digits1]; exact hout))
  have hy : place b.fill z.o2 b.mantissa k = b.digit s.sArg2Index :=
    hs.index2.place h.digits2 hin hend
  rw [hr]
  refine ⟨by rw [hx, hy]; exact hsub, ⟨hs.index1.stay (.inr hout), hnext, ?_, hsub.borrow, ?_, ?_,
    ?_⟩, fun h100 => ?_⟩
  · rcases hs.lengths with ⟨hle, -, -⟩ | ⟨hle, hlen1, hlen2⟩
    · omega
    · have hlast : max z.end1 (min z.o2 n) ≤ k := max_le hout (min_le_of_left_le hin)
      exact .inr ⟨hle, hlen1, by rw [hlen2, max_step hlast]; rfl⟩
  · intro _ h2 _
    omega
  · intro hp _ _
    rw [hp]
    rfl
  · intro hp _ _ _
    rw [hp]
    rfl
  · obtain ⟨hp, hdigit, hzero⟩ := hle h100
    refine ⟨hp, hout, hin, hy.trans hdigit, ?_⟩
    by_contra hlast
    have := hs.one1 hp (by omega) (by omega) (by omega)
    omega

/-- Where both operands have a digit. -/
theorem subPlace_both (hk : k < n) (hin1 : z.o1 ≤ k) (hend1 : k < z.end1) (hin2 : z.o2 ≤ k)
    (hend2 : k < z.end2) : PlaceRight a b z n k s (subPlace a b sDiffExp k s) := by
  obtain ⟨hidx1, hnext1⟩ := hs.index1.step hin1 hend1
  obtain ⟨hidx2, hnext2⟩ := hs.index2.step hin2 hend2
  have hdiff := h.diff
  have hfirst := h.first
  have hr : subPlace a b sDiffExp k s =
      ((subBoth (a.digit s.sArg1Index) (b.digit s.sArg2Index) s.sBorrow).1,
        ⟨s.sArg1Index - 1, s.sArg1Length, s.sArg2Index - 1, s.sArg2Length,
          (subBoth (a.digit s.sArg1Index) (b.digit s.sArg2Index) s.sBorrow).2⟩) := by
    unfold subPlace
    simp only
    rw [if_neg (hs.not_after2 (.inl hend2)), if_neg (hs.not_after1 (.inl hend1)),
      if_pos (by omega)]
  obtain ⟨hsub, hlt⟩ := subBoth_spec (digit_lt h.below1 s.sArg1Index)
    (digit_lt h.below2 s.sArg2Index) hs.borrow
  have hx : place a.fill z.o1 a.mantissa k = a.digit s.sArg1Index :=
    hs.index1.place h.digits1 hin1 hend1
  have hy : place b.fill z.o2 b.mantissa k = b.digit s.sArg2Index :=
    hs.index2.place h.digits2 hin2 hend2
  rw [hr]
  exact ⟨by rw [hx, hy]; exact hsub,
    hs.next hk (.inl hend2) (.inl hend1) hnext1 hnext2 hsub.borrow, fun h => absurd h hlt.ne⟩

/-- Where neither has one. -/
theorem subPlace_gap (hk : k < n) (hgap : (z.end2 ≤ k ∧ k < z.o1) ∨ (z.end1 ≤ k ∧ k < z.o2)) :
    PlaceRight a b z n k s (subPlace a b sDiffExp k s) := by
  have ho1 : z.o1 ≤ z.end1 := Nat.le_add_right _ _
  have ho2 : z.o2 ≤ z.end2 := Nat.le_add_right _ _
  have hfirst := h.first
  have hcond : (s.sArg2Index < 0 ∧ (k : Int) > s.sArg1Index) ∨
      (s.sArg1Index < 0 ∧ (k : Int) > s.sArg2Index) := by
    rcases hgap with ⟨hout, hlt⟩ | ⟨hout, hlt⟩
    · have h1 := hs.index1.before (by omega)
      have h2 := hs.index2.after (Nat.lt_succ_of_le hout)
      have h3 : z.end2 = z.o2 + z.n2 := rfl
      omega
    · have h1 := hs.index2.before (by omega)
      have h2 := hs.index1.after (Nat.lt_succ_of_le hout)
      have h3 : z.end1 = z.o1 + z.n1 := rfl
      omega
  have hr : subPlace a b sDiffExp k s =
      ((subGap (isPositive a.signExponent) (isPositive b.signExponent) s.sBorrow).1,
        ⟨s.sArg1Index, s.sArg1Length, s.sArg2Index, s.sArg2Length,
          (subGap (isPositive a.signExponent) (isPositive b.signExponent) s.sBorrow).2⟩) := by
    unfold subPlace
    simp only
    rw [if_neg (hs.not_after2 (by omega)), if_neg (hs.not_after1 (by omega)), if_neg (by omega),
      if_pos hcond]
  have hout1 : k < z.o1 ∨ z.end1 ≤ k := by omega
  have hout2 : k < z.o2 ∨ z.end2 ≤ k := by omega
  obtain ⟨hsub, hlt⟩ := subGap_spec (isPositive a.signExponent) (isPositive b.signExponent)
    hs.borrow
  have hx : place a.fill z.o1 a.mantissa k = fillOf (isPositive a.signExponent) :=
    place_outside (by rw [← h.digits1]; exact hout1)
  have hy : place b.fill z.o2 b.mantissa k = fillOf (isPositive b.signExponent) :=
    place_outside (by rw [← h.digits2]; exact hout2)
  rw [hr]
  exact ⟨by rw [hx, hy]; exact hsub, hs.next hk (by omega) (by omega) (hs.index1.stay hout1)
    (hs.index2.stay hout2) hsub.borrow, fun h => absurd h hlt.ne⟩

/-- Before the first digit of the second operand. -/
theorem subPlace_before2 (hk : k < n) (hout : k < z.o2) (hin : z.o1 ≤ k) (hend : k < z.end1) :
    PlaceRight a b z n k s (subPlace a b sDiffExp k s) := by
  obtain ⟨hidx, hnext⟩ := hs.index1.step hin hend
  have ho2 : z.o2 ≤ z.end2 := Nat.le_add_right _ _
  have hfirst := h.first
  have h2 := hs.index2.before (by omega)
  have hr : subPlace a b sDiffExp k s =
      ((subBefore2 (isPositive b.signExponent) (a.digit s.sArg1Index) s.sBorrow).1,
        ⟨s.sArg1Index - 1, s.sArg1Length, s.sArg2Index, s.sArg2Length,
          (subBefore2 (isPositive b.signExponent) (a.digit s.sArg1Index) s.sBorrow).2⟩) := by
    unfold subPlace
    simp only
    rw [if_neg (hs.not_after2 (by omega)), if_neg (hs.not_after1 (by omega)), if_neg (by omega),
      if_neg (by omega), if_pos h2]
  obtain ⟨hsub, hlt⟩ := subBefore2_spec (isPositive b.signExponent)
    (digit_lt h.below1 s.sArg1Index) hs.borrow
  have hx : place a.fill z.o1 a.mantissa k = a.digit s.sArg1Index :=
    hs.index1.place h.digits1 hin hend
  have hy : place b.fill z.o2 b.mantissa k = fillOf (isPositive b.signExponent) :=
    place_outside (.inl hout)
  rw [hr]
  exact ⟨by rw [hx, hy]; exact hsub, hs.next hk (by omega) (by omega) hnext
    (hs.index2.stay (.inl hout)) hsub.borrow, fun h => absurd h hlt.ne⟩

/-- Before the first digit of the first operand. -/
theorem subPlace_before1 (hk : k < n) (hout : k < z.o1) (hin : z.o2 ≤ k) (hend : k < z.end2) :
    PlaceRight a b z n k s (subPlace a b sDiffExp k s) := by
  obtain ⟨hidx, hnext⟩ := hs.index2.step hin hend
  have ho1 : z.o1 ≤ z.end1 := Nat.le_add_right _ _
  have hfirst := h.first
  have h1 := hs.index1.before (by omega)
  have hr : subPlace a b sDiffExp k s =
      ((subBefore1 (isPositive a.signExponent) (b.digit s.sArg2Index) s.sBorrow).1,
        ⟨s.sArg1Index, s.sArg1Length, s.sArg2Index - 1, s.sArg2Length,
          (subBefore1 (isPositive a.signExponent) (b.digit s.sArg2Index) s.sBorrow).2⟩) := by
    unfold subPlace
    simp only
    rw [if_neg (hs.not_after2 (by omega)), if_neg (hs.not_after1 (by omega)), if_neg (by omega),
      if_neg (by omega), if_neg (by omega), if_pos h1]
  obtain ⟨hsub, hlt⟩ := subBefore1_spec (isPositive a.signExponent)
    (digit_lt h.below2 s.sArg2Index) hs.borrow
  have hx : place a.fill z.o1 a.mantissa k = fillOf (isPositive a.signExponent) :=
    place_outside (.inl hout)
  have hy : place b.fill z.o2 b.mantissa k = b.digit s.sArg2Index :=
    hs.index2.place h.digits2 hin hend
  rw [hr]
  exact ⟨by rw [hx, hy]; exact hsub, hs.next hk (by omega) (by omega) (hs.index1.stay (.inl hout))
    hnext hsub.borrow, fun h => absurd h hlt.ne⟩

/-- **One round of the loop subtracts the bytes of its place**, whatever the branch. -/
theorem subPlace_spec (hk : k < n) : PlaceRight a b z n k s (subPlace a b sDiffExp k s) := by
  have hplaces := h.places
  have hfirst := h.first
  have ho1 : z.o1 ≤ z.end1 := Nat.le_add_right _ _
  have ho2 : z.o2 ≤ z.end2 := Nat.le_add_right _ _
  by_cases hin1 : z.o1 ≤ k ∧ k < z.end1
  · by_cases hin2 : z.o2 ≤ k ∧ k < z.end2
    · exact subPlace_both h hs hk hin1.1 hin1.2 hin2.1 hin2.2
    · rcases lt_or_ge k z.o2 with hlt | hge
      · exact subPlace_before2 h hs hk hlt hin1.1 hin1.2
      · exact subPlace_after2 h hs (by omega) hin1.1 hin1.2
  · by_cases hin2 : z.o2 ≤ k ∧ k < z.end2
    · rcases lt_or_ge k z.o1 with hlt | hge
      · exact subPlace_before1 h hs hk hlt hin2.1 hin2.2
      · exact subPlace_after1 h hs hk (by omega) hin2.1 hin2.2
    · exact subPlace_gap h hs hk (by omega)

end Step

/-! ## §3. The loop. -/

theorem spread_succ (fill o : Nat) (ds : List Nat) (k : Nat) :
    spread fill o ds (k + 1) = spread fill o ds k ++ [place fill o ds k] := by
  unfold spread
  rw [List.range_succ, List.map_append]
  rfl

section Loop

variable {a b : MtdNumericType} {z : Shape} {n sDiffExp : Nat}

/-- The bytes of the first operand in `k` places. -/
def Shape.bytes1 (z : Shape) (a : MtdNumericType) (k : Nat) : List Nat :=
  spread a.fill z.o1 a.mantissa k

/-- The bytes of the second operand in `k` places. -/
def Shape.bytes2 (z : Shape) (b : MtdNumericType) (k : Nat) : List Nat :=
  spread b.fill z.o2 b.mantissa k

/-- The value that a round and the rest of the loop subtract together. -/
theorem subtracts_val {x y c d c' : Nat} (h : Subtracts x y c (d, c')) {k q : Nat}
    {xs ys m : List Nat}
    (heq : val 100 xs + q * 100 ^ k = val 100 ys + c' + val 100 m) :
    val 100 (xs ++ [x]) + q * 100 ^ (k + 1) = val 100 (ys ++ [y]) + c + val 100 (m ++ [d]) := by
  have hplace := h.eq
  simp only at hplace
  rw [val_concat, val_concat, val_concat, pow_succ]
  linarith

/-- **The loop below the last place** subtracts the bytes in front of it. -/
theorem subPlaces_spec (h : SubLoop a b z n sDiffExp) (k : Nat) :
    ∀ (s : SubState) (acc : List Nat), k < n →
      s.At z n (isPositive a.signExponent) (isPositive b.signExponent) k →
      ∃ m, (subPlaces a b sDiffExp k s acc).2 = m ++ acc ∧ m.length = k ∧ Below 100 m ∧
        (subPlaces a b sDiffExp k s acc).1 ≤ 1 ∧
        val 100 (z.bytes1 a k) + (subPlaces a b sDiffExp k s acc).1 * 100 ^ k =
          val 100 (z.bytes2 b k) + s.sBorrow + val 100 m := by
  induction k with
  | zero =>
    intro s acc _ hs
    refine ⟨[], rfl, rfl, fun d hd => absurd hd List.not_mem_nil, hs.borrow, ?_⟩
    show 0 + s.sBorrow * 1 = 0 + s.sBorrow + 0
    omega
  | succ k ih =>
    intro s acc hk hs
    have hplace := subPlace_spec h hs (by omega)
    obtain ⟨m, hm, hlen, hbelow, hborrow, heq⟩ :=
      ih (subPlace a b sDiffExp k s).2 ((subPlace a b sDiffExp k s).1 :: acc) (by omega) hplace.next
    have hdigit : (subPlace a b sDiffExp k s).1 < 100 := by
      have hle := hplace.subtracts.le
      have hlast := hplace.hundred
      simp only at hle
      omega
    refine ⟨m ++ [(subPlace a b sDiffExp k s).1], ?_, ?_, ?_, hborrow, ?_⟩
    · rw [List.append_assoc]
      exact hm
    · rw [List.length_append, hlen]
      rfl
    · exact hbelow.append (Below.cons_iff.mpr ⟨hdigit, fun d hd => absurd hd List.not_mem_nil⟩)
    · unfold Shape.bytes1 Shape.bytes2
      rw [spread_succ, spread_succ]
      exact subtracts_val hplace.subtracts heq

/-- What the loop leaves: the borrow, and the bytes before the last and the last. -/
structure Difference (a b : MtdNumericType) (z : Shape) (k : Nat) (r : Nat × List Nat)
    (m : List Nat) (d : Nat) : Prop where
  bytes : r.2 = m ++ [d]
  length : m.length = k
  below : Below 100 m
  borrow : r.1 ≤ 1
  le : d ≤ 100
  val_eq : val 100 (z.bytes1 a (k + 1)) + r.1 * 100 ^ (k + 1) =
    val 100 (z.bytes2 b (k + 1)) + val 100 (m ++ [d])
  hundred : d = 100 ↔ isPositive a.signExponent = true ∧ z.end1 ≤ k ∧ z.o2 ≤ k ∧
    place b.fill z.o2 b.mantissa k = 0

/-- **The loop subtracts the bytes.** -/
theorem subPlaces_difference {k : Nat} (h : SubLoop a b z (k + 1) sDiffExp) {s : SubState}
    (hs : s.At z (k + 1) (isPositive a.signExponent) (isPositive b.signExponent) (k + 1))
    (hzero : s.sBorrow = 0) :
    ∃ m d, Difference a b z k (subPlaces a b sDiffExp (k + 1) s []) m d := by
  have hplace := subPlace_spec h hs (Nat.lt_succ_self k)
  obtain ⟨m, hm, hlen, hbelow, hborrow, heq⟩ := subPlaces_spec h k (subPlace a b sDiffExp k s).2
    [(subPlace a b sDiffExp k s).1] (Nat.lt_succ_self k) hplace.next
  have hval := subtracts_val hplace.subtracts heq
  rw [hzero, add_zero] at hval
  refine ⟨m, (subPlace a b sDiffExp k s).1, hm, hlen, hbelow, hborrow, hplace.subtracts.le, ?_, ?_⟩
  · unfold Shape.bytes1 Shape.bytes2
    rw [spread_succ, spread_succ]
    exact hval
  · constructor
    · intro h100
      obtain ⟨hp, hout, hin, hdigit, -⟩ := hplace.hundred h100
      exact ⟨hp, hout, hin, hdigit⟩
    · rintro ⟨hp, hout, hin, hdigit⟩
      have hone := hplace.next.one1 hp hout hin (Nat.lt_succ_self k)
      have hplace' := hplace.subtracts.eq
      have hx : place a.fill z.o1 a.mantissa k = 0 := by
        rw [place_outside (.inr (by rw [← h.digits1]; exact hout))]
        show (if isPositive a.signExponent then 0 else 99) = 0
        rw [if_pos hp]
      simp only at hplace'
      rw [hx, hdigit, hone, hzero] at hplace'
      omega

end Loop

end Altibase.Mtc
