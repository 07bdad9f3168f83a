/-
  Altibase.Mtk.Range
  ──────────────────
  **RANGE BOUNDS OF AN INDEX AND THEIR CALLBACKS.**

  A bound is a callback and a chain of compare steps, one for each leading key
  column; a key passes the bound according to the sign of the first step that
  does not answer 0.  `compareRange` compares two bounds without a key.

    * `compareRange`, `addCompositeRange` — as in the source;
    * `cutOf` — the cut of the key space that a bound denotes;
    * `passes_minimum_iff`, `passes_maximum_iff` — a key passes a minimum
      (maximum) bound iff it lies above (not above) that cut.
-/

import Altibase.Lib.CutOrder
import Mathlib.Data.List.Basic
import Mathlib.Algebra.Order.Ring.Int
import Mathlib.Tactic.SplitIfs

namespace Altibase.Mtk

open Altibase.Lib

/-! ## §1. Bounds. -/

/-- The comparison of the non-null values of each key column, in the direction
of the index: a consistent total order. -/
structure KeyCompare (α : Type) where
  cmp : ℕ → α → α → Int
  order : ∀ j, SignOrder (cmp j)

/-- The relation a callback tests. -/
inductive Kind where
  | ge | le | gt | lt
  deriving DecidableEq, Repr

/-- The form of the key columns a callback reads. -/
inductive ValueForm where
  | mtd | stored | indexKey
  deriving DecidableEq, Repr

/-- `rangeCallBackGE4Mtd` and its eleven siblings. -/
structure SmiCallBackFunc where
  kind : Kind
  form : ValueForm
  deriving DecidableEq, Repr

/-- One step of a chain: `compare` with the value it compares to. -/
inductive MtkRangeCallBack (α : Type) where
  | minimumLimit
  | maximumLimit4Mtd
  | maximumLimit4Stored
  | value (v : α)
  deriving DecidableEq, Repr

/-- A bound: the callback and the chain `data`, linked by `next`; the step at
position `j` is about key column `j`. -/
structure SmiCallBack (α : Type) where
  callback : SmiCallBackFunc
  data : List (MtkRangeCallBack α)
  deriving DecidableEq, Repr

/-- `smiRange`: its two bounds. -/
structure SmiRange (α : Type) where
  minimum : SmiCallBack α
  maximum : SmiCallBack α
  deriving DecidableEq, Repr

/-- A key: the value of each key column, `none` for NULL. -/
abbrev Key (α : Type) := ℕ → Option α

/-! ## §2. The callbacks. -/

section Callbacks

variable {α : Type} (K : KeyCompare α)

/-- `compare` of one step.  Every key is above the minimum limit; the maximum
limit is met by NULL, which every index order puts last. -/
def compareStep (j : ℕ) (key : Option α) : MtkRangeCallBack α → Int
  | .minimumLimit => 1
  | .maximumLimit4Mtd => if key.isSome then -1 else 0
  | .maximumLimit4Stored => if key.isSome then -1 else 0
  | .value v =>
      match key with
      | some a => K.cmp j a v
      | none => 1

/-- `sOrder` after the loop of the range callbacks. -/
def rangeOrder (key : Key α) : ℕ → List (MtkRangeCallBack α) → Int
  | _, [] => 0
  | j, c :: cs =>
      let sOrder := compareStep K j (key j) c
      if sOrder = 0 then rangeOrder key (j + 1) cs else sOrder

/-- `mtk::rangeCallBackGE4Mtd` and its siblings: the sign of `sOrder` against the kind of the
bound. -/
def rangeCallBack (b : SmiCallBack α) (key : Key α) : Bool :=
  let sOrder := rangeOrder K key 0 b.data
  match b.callback.kind with
  | .ge => 0 ≤ sOrder
  | .le => sOrder ≤ 0
  | .gt => 0 < sOrder
  | .lt => sOrder < 0

/-- The key lies in the range: both callbacks accept it. -/
def SmiRange.accepts (r : SmiRange α) (key : Key α) : Bool :=
  rangeCallBack K r.minimum key && rangeCallBack K r.maximum key

end Callbacks

/-! ## §3. `compareRange`. -/

section CompareRange

variable {α : Type} (K : KeyCompare α)

/-- The step compares to no value. -/
def isLimit : MtkRangeCallBack α → Bool
  | .value _ => false
  | _ => true

/-- The step is `mtk::compareMinimumLimit`. -/
def isMinimumLimit : MtkRangeCallBack α → Bool
  | .minimumLimit => true
  | _ => false

/-- The step is `mtk::compareMaximumLimit4Mtd`. -/
def isMaximumLimit4Mtd : MtkRangeCallBack α → Bool
  | .maximumLimit4Mtd => true
  | _ => false

/-- The step is `mtk::compareMaximumLimit4Stored`. -/
def isMaximumLimit4Stored : MtkRangeCallBack α → Bool
  | .maximumLimit4Stored => true
  | _ => false

/-- The body of the loop: nonzero if the loop returns here. -/
def compareSteps (j : ℕ) (c1 c2 : MtkRangeCallBack α) : Int :=
  if isLimit c1 || isLimit c2 then
    if (isMinimumLimit c1 && !isMinimumLimit c2)
        || (!isMaximumLimit4Mtd c1 && isMaximumLimit4Mtd c2)
        || (!isMaximumLimit4Stored c1 && isMaximumLimit4Stored c2) then -1
    else if (!isMinimumLimit c1 && isMinimumLimit c2)
        || (isMaximumLimit4Mtd c1 && !isMaximumLimit4Mtd c2)
        || (isMaximumLimit4Stored c1 && !isMaximumLimit4Stored c2) then 1
    else 0
  else
    match c1, c2 with
    | .value v1, .value v2 => K.cmp j v1 v2
    | _, _ => 0

/-- The loop over both chains: the value it returns, or what is left of the
chains when one has ended. -/
def compareChains :
    ℕ → List (MtkRangeCallBack α) → List (MtkRangeCallBack α) →
      Int ⊕ (List (MtkRangeCallBack α) × List (MtkRangeCallBack α))
  | j, c1 :: cs1, c2 :: cs2 =>
      if compareSteps K j c1 c2 ≠ 0 then .inl (compareSteps K j c1 c2)
      else compareChains (j + 1) cs1 cs2
  | _, cs1, cs2 => .inr (cs1, cs2)

/-- The tests of the callback for GE, GT, LE or LT. -/
def SmiCallBack.isKind (b : SmiCallBack α) (k : Kind) : Bool := b.callback.kind = k

/-- `mtk::compareRange`. -/
def compareRange (b1 b2 : SmiCallBack α) : Int :=
  match compareChains K 0 b1.data b2.data with
  | .inl sResult => sResult
  | .inr (_ :: _, _) => if b2.isKind .ge || b2.isKind .lt then 1 else -1
  -- the source tests the second bound for LT here, not the first
  | .inr ([], _ :: _) => if b1.isKind .ge || b2.isKind .lt then -1 else 1
  | .inr ([], []) =>
      if b1.callback ≠ b2.callback then
        if b1.isKind .lt then -1
        else if b2.isKind .lt then 1
        else if b1.isKind .gt then 1
        else if b2.isKind .gt then -1
        else if b1.isKind .ge then -1
        else 1
      else 0

end CompareRange

/-! ## §4. `addCompositeRange`. -/

section Composite

variable {α : Type}

/-- `mtk::addCompositeRange` on the minimum: a GT minimum takes no further column. -/
def addCompositeMinimum (b c : SmiCallBack α) : SmiCallBack α :=
  if b.isKind .ge then { callback := c.callback, data := b.data ++ c.data } else b

/-- `mtk::addCompositeRange` on the maximum: a LT maximum takes no further column. -/
def addCompositeMaximum (b c : SmiCallBack α) : SmiCallBack α :=
  if b.isKind .le then { callback := c.callback, data := b.data ++ c.data } else b

/-- `mtk::addCompositeRange`: a minimum is extended by the range of the next
column while it is GE, a maximum while it is LE. -/
def addCompositeRange (aComposite aRange : SmiRange α) : SmiRange α :=
  { minimum := addCompositeMinimum aComposite.minimum aRange.minimum
    maximum := addCompositeMaximum aComposite.maximum aRange.maximum }

end Composite

/-! ## §5. The cut of a bound. -/

/-- The elements of a key column's order: below all values, a value, NULL. -/
inductive Elem (α : Type) where
  | minimum
  | value (v : α)
  | null
  deriving DecidableEq, Repr

section Cuts

variable {α : Type} (K : KeyCompare α)

/-- The order of these elements. -/
def elemCmp (j : ℕ) : Elem α → Elem α → Int
  | .minimum, .minimum => 0
  | .minimum, _ => -1
  | _, .minimum => 1
  | .value a, .value b => K.cmp j a b
  | .value _, .null => -1
  | .null, .value _ => 1
  | .null, .null => 0

/-- It is a linear order. -/
theorem elemCmp_signOrder (j : ℕ) : SignOrder (elemCmp K j) where
  swap a b := by
    cases a <;> cases b <;> simp only [elemCmp] <;> first | exact (K.order j).swap _ _ | omega
  trans a b c := by
    cases a <;> cases b <;> cases c <;> simp only [elemCmp] <;>
      first | exact (K.order j).trans _ _ _ | omega

/-- The element a step compares to. -/
def MtkRangeCallBack.elem : MtkRangeCallBack α → Elem α
  | .minimumLimit => .minimum
  | .maximumLimit4Mtd => .null
  | .maximumLimit4Stored => .null
  | .value v => .value v

/-- The element that a key has in a column. -/
def keyElem : Option α → Elem α
  | some a => .value a
  | none => .null

/-- GE and LT cut before the keys with the prefix, LE and GT after them. -/
def Kind.side : Kind → Int
  | .lt => -1
  | .ge => -1
  | .le => 1
  | .gt => 1

/-- **The cut of the key space that a bound denotes.** -/
def cutOf (b : SmiCallBack α) : Cut (Elem α) :=
  { chain := b.data.map MtkRangeCallBack.elem, rank := b.callback.kind.side }

/-- A step compares the key's element to its own. -/
theorem compareStep_eq (j : ℕ) (key : Option α) (c : MtkRangeCallBack α) :
    compareStep K j key c = elemCmp K j (keyElem key) c.elem := by
  cases key <;> cases c <;> rfl

/-- The loop compares element by element. -/
theorem rangeOrder_eq (key : Key α) (cs : List (MtkRangeCallBack α)) (j : ℕ) :
    rangeOrder K key j cs
      = keyCmp (elemCmp K) (fun i => keyElem (key i)) j (cs.map MtkRangeCallBack.elem) := by
  induction cs generalizing j with
  | nil => rfl
  | cons c cs ih =>
    simp only [rangeOrder, List.map_cons, keyCmp, compareStep_eq, ih]
    by_cases h : elemCmp K j (keyElem (key j)) c.elem = 0
    · simp [h]
    · simp [h]

/-- The key lies above the cut of a bound. -/
def AboveBound (key : Key α) (b : SmiCallBack α) : Prop :=
  Above (elemCmp K) (fun i => keyElem (key i)) (cutOf b)

variable {K}

/-- **A key passes a GE or GT bound iff it lies above its cut.** -/
theorem passes_minimum_iff {b : SmiCallBack α} (key : Key α)
    (hb : b.callback.kind = .ge ∨ b.callback.kind = .gt) :
    rangeCallBack K b key = true ↔ AboveBound K key b := by
  unfold rangeCallBack AboveBound Above cutOf
  rw [rangeOrder_eq]
  rcases hb with h | h
  · simp only [h, Kind.side, decide_eq_true_eq]
    omega
  · simp only [h, Kind.side, decide_eq_true_eq]
    omega

/-- **A key passes an LE or LT bound iff it does not lie above its cut.** -/
theorem passes_maximum_iff {b : SmiCallBack α} (key : Key α)
    (hb : b.callback.kind = .le ∨ b.callback.kind = .lt) :
    rangeCallBack K b key = true ↔ ¬ AboveBound K key b := by
  unfold rangeCallBack AboveBound Above cutOf
  rw [rangeOrder_eq]
  rcases hb with h | h
  · simp only [h, Kind.side, decide_eq_true_eq]
    omega
  · simp only [h, Kind.side, decide_eq_true_eq]
    omega

end Cuts

end Altibase.Mtk
