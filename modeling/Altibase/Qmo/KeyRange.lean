/-
  Altibase.Qmo.KeyRange
  ─────────────────────
  **THE KEY RANGE AREA.**

  `estimateKeyRange` computes how many bytes the ranges of a predicate tree in
  disjunctive normal form may take; `makeRange` then builds the ranges in an
  area of that size and fails with ERR_OUT_OF_BOUND when the area is used up.
  Besides the ranges of the predicates themselves the estimate counts three
  things: copies of a composite range in front of a column with several ranges,
  the results of AND merges and the results of the OR merge.

    * `estimateKeyRange`, `makeRange` — as in the source, the unsigned offsets
      and sizes modulo `2 ^ 32`;
    * `makeCompositeRange_within` — the columns of an AND node take the area of
      its comparisons, of its AND merges and of its copies;
    * `columnsBytes_le` — the area of the comparisons is in the estimate.
-/

import Altibase.Mtk.MergeOrRange
import Mathlib.Algebra.BigOperators.Group.List.Basic
import Mathlib.Algebra.Order.BigOperators.Group.List

namespace Altibase.Qmo

open Altibase.Mtk

/-! ## §1. Sizes. -/

/-- `UInt` arithmetic. -/
def u32 (x : ℕ) : ℕ := x % 2 ^ 32

/-- `idlOS::align8`. -/
def align8 (x : ℕ) : ℕ := (x + 7) / 8 * 8

/-- `ID_SIZEOF` of the structures that live in the range area.  A callback holds
two column descriptions and is larger than a pointer. -/
structure Layout where
  smiRange : ℕ
  mtkRangeCallBack : ℕ
  pointer : ℕ
  mtcInlistInfo : ℕ
  callBack_le : align8 smiRange + pointer ≤ smiRange + 2 * mtkRangeCallBack

/-- The sizes of a 64 bit build. -/
def layout64 : Layout where
  smiRange := 72
  mtkRangeCallBack := 512
  pointer := 8
  mtcInlistInfo := 43256
  callBack_le := by decide

/-- `MTC_INLIST_KEYRANGE_COUNT_MAX`. -/
def inlistKeyRangeCountMax : ℕ := 1000

theorem u32_of_lt {x : ℕ} (h : x < 2 ^ 32) : u32 x = x := Nat.mod_eq_of_lt h

namespace Layout

variable (L : Layout)

/-- `mtk::estimateRangeDefault`. -/
def estimateRangeDefault : ℕ := L.smiRange + 2 * L.mtkRangeCallBack

/-- `mtfInlistEstimateRange`: as if the list had the greatest length. -/
def inlistEstimateRange : ℕ :=
  L.estimateRangeDefault * inlistKeyRangeCountMax + L.mtcInlistInfo

/-- `useOffset` of `mtfInlistExtractRange`. -/
def inlistUseOffset (sCount : ℕ) : ℕ := L.estimateRangeDefault * sCount + L.mtcInlistInfo

theorem inlistUseOffset_le {sCount : ℕ} (h : sCount ≤ inlistKeyRangeCountMax) :
    L.inlistUseOffset sCount ≤ L.inlistEstimateRange := by
  have := Nat.mul_le_mul_left L.estimateRangeDefault h
  unfold inlistUseOffset inlistEstimateRange
  omega

end Layout

/-! ## §2. Predicate trees. -/

/-- What the code asks about the operator of a comparison: whether it is one of
MTC_NODE_OPERATOR_NOT_EQUAL and MTC_NODE_OPERATOR_NOT_RANGED, whether its module
is `mtfInlist`, and the answer of its `estimateRange`. -/
inductive Operator where
  | compare (aSize : ℕ)
  | notRange (aSize : ℕ)
  | inlist (sCount : ℕ)
  deriving DecidableEq, Repr

/-- Ranges of one column: each bound has one callback. -/
def OneColumn {α : Type} (l : List (SmiRange α)) : Prop :=
  ∀ r ∈ l, r.minimum.data.length ≤ 1 ∧ r.maximum.data.length ≤ 1

/-- **A comparison.**  `columnId` is the column it is about, `none` if the node
has no dependencies; `ranges` is what its `extractRange` builds. -/
structure Predicate (α : Type) where
  columnId : Option ℕ
  operator : Operator
  ranges : List (SmiRange α)
  ranges_ne : ranges ≠ []
  ranges_one : OneColumn ranges
  inlist_le : ∀ n, operator = .inlist n → ranges.length ≤ n ∧ n ≤ inlistKeyRangeCountMax

/-- An AND node: its arguments. -/
structure AndNode (α : Type) where
  first : Predicate α
  next : List (Predicate α)

/-- All arguments of the node. -/
def AndNode.arguments {α : Type} (a : AndNode α) : List (Predicate α) := a.first :: a.next

/-- A key column: its id and the range functions of its `mtdModule`.  The AND
merge keeps to the area that `getAndRangeCount` is for. -/
structure KeyColumn (α : Type) where
  id : ℕ
  mergeAndRange : List (SmiRange α) → List (SmiRange α) → List (SmiRange α)
  mergeOrRangeList : List (SmiRange α) → List (SmiRange α)
  mergeAndRange_ne : ∀ l1 l2, l1 ≠ [] → l2 ≠ [] → mergeAndRange l1 l2 ≠ []
  mergeAndRange_length : ∀ l1 l2, l1 ≠ [] → l2 ≠ [] →
    (mergeAndRange l1 l2).length ≤ getAndRangeCount l1 l2
  mergeAndRange_one : ∀ l1 l2, OneColumn l1 → OneColumn l2 → OneColumn (mergeAndRange l1 l2)

/-- The key columns of an index. -/
structure KeyIndex (α : Type) where
  first : KeyColumn α
  rest : List (KeyColumn α)
  ids_nodup : ((first :: rest).map KeyColumn.id).Nodup

/-- All key columns, in order. -/
def KeyIndex.columns {α : Type} (ix : KeyIndex α) : List (KeyColumn α) := ix.first :: ix.rest

/-! ## §3. The estimate. -/

section Estimate

variable {α : Type} (L : Layout)

namespace Predicate

/-- `sExecute->estimateRange`. -/
def executeEstimateRange (p : Predicate α) : ℕ :=
  match p.operator with
  | .compare aSize => aSize
  | .notRange aSize => aSize
  | .inlist _ => L.inlistEstimateRange

/-- The size a comparison adds: none without dependencies. -/
def estimateRange (p : Predicate α) : ℕ :=
  if p.columnId.isSome then p.executeEstimateRange L else 0

/-- The range count of a comparison. -/
def rangeCount (p : Predicate α) : ℕ :=
  match p.operator with
  | .compare _ => 1
  | .notRange _ => 2
  | .inlist _ => inlistKeyRangeCountMax

end Predicate

/-- The loop over the arguments behind the first: what it adds to the range
count. -/
def andRangeCount : ℕ → List (Predicate α) → ℕ
  | _, [] => 0
  | sPrevRangeCount, p :: ps =>
      let sPrev := sPrevRangeCount + p.rangeCount - 1
      sPrev + andRangeCount sPrev ps

namespace AndNode

/-- `aRangeCount` of an AND node. -/
def rangeCount (a : AndNode α) : ℕ :=
  if a.next.isEmpty then a.first.rangeCount else andRangeCount a.first.rangeCount a.next

/-- `sIsNotRangeCnt`: the first argument is not asked. -/
def notRangeCnt (a : AndNode α) : ℕ := a.next.countP fun p => 1 < p.rangeCount

/-- The bytes for copies of composite ranges. -/
def copyReserve (a : AndNode α) : ℕ :=
  if 0 < a.notRangeCnt then
    L.estimateRangeDefault * a.notRangeCnt
      + (a.arguments.length - a.notRangeCnt) * 2 * align8 L.mtkRangeCallBack * a.notRangeCnt
  else 0

/-- `aRangeSize` that an AND node adds. -/
def estimateRange (a : AndNode α) : ℕ :=
  (a.arguments.map (Predicate.estimateRange L)).sum + a.copyReserve L

end AndNode

/-- `sRangeCount` after the loop over the AND nodes. -/
def orRangeCount : ℕ → List (AndNode α) → ℕ
  | _, [] => 0
  | sPrevRangeCount, a :: aNode =>
      let sPrev := sPrevRangeCount + a.rangeCount
      sPrev + orRangeCount sPrev aNode

/-- The size that `estimateKeyRange` is after, before it is cut to a `UInt`. -/
def keyRangeSize (aNode : List (AndNode α)) : ℕ :=
  (aNode.map (AndNode.estimateRange L)).sum
    + orRangeCount 1 aNode * align8 L.smiRange
    + orRangeCount 1 aNode * L.pointer

/-- `qmoKeyRange::estimateKeyRange`.  Every step of the computation is a sum or
a product of `UInt`s, so the result is the exact size modulo `2 ^ 32`. -/
def estimateKeyRange (aNode : List (AndNode α)) : ℕ := u32 (keyRangeSize L aNode)

end Estimate

/-! ## §4. The construction. -/

/-- `ERR_OUT_OF_BOUND`, the one error of the construction. -/
inductive KeyRangeError where
  | outOfBound
  deriving DecidableEq, Repr

section Make

variable {α : Type} (L : Layout) (aRangeAreaSize : ℕ)

/-- The check in front of every use of the area, and the new offset. -/
def takeArea (aOffset sSize : ℕ) : Except KeyRangeError ℕ :=
  if aRangeAreaSize < u32 (aOffset + sSize) then .error .outOfBound
  else .ok (u32 (aOffset + sSize))

/-- `makeRange4AColumn` of a comparison: the new offset and the ranges, `[]` for
NULL.  An IN list gives back what it does not use. -/
def makeRange4AComparison (columnId : ℕ) (p : Predicate α) (aOffset : ℕ) :
    Except KeyRangeError (ℕ × List (SmiRange α)) :=
  if p.columnId = some columnId then
    match takeArea aRangeAreaSize aOffset (p.executeEstimateRange L) with
    | .error e => .error e
    | .ok sOffset =>
        match p.operator with
        | .inlist sCount => .ok (u32 (aOffset + L.inlistUseOffset sCount), p.ranges)
        | _ => .ok (sOffset, p.ranges)
  else .ok (aOffset, [])

/-- `makeRange4AColumn` of an AND node, from the range `sPrevRange` on. -/
def makeRange4AColumn (k : KeyColumn α) :
    List (Predicate α) → ℕ → List (SmiRange α) → Except KeyRangeError (ℕ × List (SmiRange α))
  | [], aOffset, sPrevRange => .ok (aOffset, sPrevRange)
  | p :: ps, aOffset, sPrevRange =>
      match makeRange4AComparison L aRangeAreaSize k.id p aOffset with
      | .error e => .error e
      | .ok (sOffset, sCurRange) =>
          if sPrevRange.isEmpty then makeRange4AColumn k ps sOffset sCurRange
          else if sCurRange.isEmpty then makeRange4AColumn k ps sOffset sPrevRange
          else
            match takeArea aRangeAreaSize sOffset
                (align8 L.smiRange * getAndRangeCount sPrevRange sCurRange) with
            | .error e => .error e
            | .ok sOffset => makeRange4AColumn k ps sOffset (k.mergeAndRange sPrevRange sCurRange)

/-- The copy of a chain of callbacks. -/
def copyCallBacks : List (MtkRangeCallBack α) → ℕ → Except KeyRangeError ℕ
  | [], aOffset => .ok aOffset
  | _ :: cs, aOffset =>
      match takeArea aRangeAreaSize aOffset (align8 L.mtkRangeCallBack) with
      | .error e => .error e
      | .ok sOffset => copyCallBacks cs sOffset

/-- `copyRange`: the new offset.  The copy is the same value. -/
def copyRange (aRangeOrg : SmiRange α) (aOffset : ℕ) : Except KeyRangeError ℕ :=
  match takeArea aRangeAreaSize aOffset L.estimateRangeDefault with
  | .error e => .error e
  | .ok sOffset =>
      match copyCallBacks L aRangeAreaSize aRangeOrg.minimum.data sOffset with
      | .error e => .error e
      | .ok sOffset => copyCallBacks L aRangeAreaSize aRangeOrg.maximum.data sOffset

/-- The loop that copies the head of the composite range. -/
def copyRanges (sRange : SmiRange α) : ℕ → ℕ → Except KeyRangeError ℕ
  | 0, aOffset => .ok aOffset
  | n + 1, aOffset =>
      match copyRange L aRangeAreaSize sRange aOffset with
      | .error e => .error e
      | .ok sOffset => copyRanges sRange n sOffset

/-- The copies in front of the ranges of one more column: one for each range
behind the first, none if `sRange` is NULL. -/
def copyComposite (sRange sCurRange : List (SmiRange α)) (aOffset : ℕ) : Except KeyRangeError ℕ :=
  match sRange with
  | [] => .ok aOffset
  | r :: _ => copyRanges L aRangeAreaSize r (sCurRange.length - 1) aOffset

/-- The composite range with the ranges of one more column.  In front of several
ranges only the head of `sRange` is kept, in as many copies; in front of one
only the head is extended. -/
def compositeRanges : List (SmiRange α) → List (SmiRange α) → List (SmiRange α)
  | [], sCurRange => sCurRange
  | r :: rs, sCurRange =>
      if 1 < sCurRange.length then
        List.zipWith addCompositeRange (List.replicate sCurRange.length r) sCurRange
      else
        match sCurRange with
        | [] => r :: rs
        | c :: _ => addCompositeRange r c :: rs

/-- The loop of `makeRange` over the key columns, from the composite range
`sRange` on. -/
def makeCompositeRange (aIsKeyRange : Bool) (ps : List (Predicate α)) :
    List (KeyColumn α) → ℕ → List (SmiRange α) → Except KeyRangeError (ℕ × List (SmiRange α))
  | [], aOffset, sRange => .ok (aOffset, sRange)
  | k :: ks, aOffset, sRange =>
      match makeRange4AColumn L aRangeAreaSize k ps aOffset [] with
      | .error e => .error e
      | .ok (sOffset, sCurRange) =>
          if sCurRange.isEmpty then
            if aIsKeyRange then .ok (sOffset, sRange)
            else makeCompositeRange aIsKeyRange ps ks sOffset sRange
          else
            match copyComposite L aRangeAreaSize sRange sCurRange sOffset with
            | .error e => .error e
            | .ok sOffset =>
                makeCompositeRange aIsKeyRange ps ks sOffset (compositeRanges sRange sCurRange)

/-- The loop of `makeRange` over the AND nodes, from `sRangeList` on.  A key
range stops at a node without a range, and keeps the list it has. -/
def makeRangeList (ix : KeyIndex α) (aIsKeyRange : Bool) :
    List (AndNode α) → ℕ → List (SmiRange α) → Except KeyRangeError (ℕ × List (SmiRange α))
  | [], aOffset, sRangeList => .ok (aOffset, sRangeList)
  | a :: aNode, aOffset, sRangeList =>
      match makeCompositeRange L aRangeAreaSize aIsKeyRange a.arguments ix.columns aOffset [] with
      | .error e => .error e
      | .ok (sOffset, sCurRange) =>
          if sCurRange.isEmpty then
            if aIsKeyRange then .ok (sOffset, sRangeList)
            else makeRangeList ix aIsKeyRange aNode sOffset sRangeList
          else makeRangeList ix aIsKeyRange aNode sOffset (sRangeList ++ sCurRange)

/-- The bytes used and the range; `[]` is NULL, and the node is the filter. -/
structure MadeRange (α : Type) where
  sOffset : ℕ
  aRange : List (SmiRange α)
  deriving DecidableEq, Repr

/-- The OR merge at the end of `makeRange`. -/
def mergeRangeList (ix : KeyIndex α) (aNode : List (AndNode α)) (sOffset : ℕ)
    (sRangeList : List (SmiRange α)) : Except KeyRangeError (MadeRange α) :=
  if 1 < aNode.length ∧ 1 < sRangeList.length then
    match takeArea aRangeAreaSize sOffset (L.pointer * sRangeList.length) with
    | .error e => .error e
    | .ok sOffset =>
        match takeArea aRangeAreaSize sOffset (align8 L.smiRange * sRangeList.length) with
        | .error e => .error e
        | .ok sOffset => .ok ⟨sOffset, ix.first.mergeOrRangeList sRangeList⟩
  else .ok ⟨sOffset, sRangeList⟩

/-- **`qmoKeyRange::makeRange`.**  `sIsExistsValue` is the answer of
`calculateSubqueryInRangeNode`. -/
def makeRange (ix : KeyIndex α) (aIsKeyRange sIsExistsValue : Bool) (aNode : List (AndNode α)) :
    Except KeyRangeError (MadeRange α) :=
  if sIsExistsValue then
    match makeRangeList L aRangeAreaSize ix aIsKeyRange aNode 0 [] with
    | .error e => .error e
    | .ok (sOffset, sRangeList) => mergeRangeList L aRangeAreaSize ix aNode sOffset sRangeList
  else .ok ⟨0, []⟩

end Make

/-! ## §5. What the construction asks for. -/

section Demand

variable {α : Type} (L : Layout)

/-- The ranges of a comparison on a column. -/
def Predicate.rangesOn (columnId : ℕ) (p : Predicate α) : List (SmiRange α) :=
  if p.columnId = some columnId then p.ranges else []

/-- The area a comparison on a column takes before it gives anything back. -/
def Predicate.bytesOn (columnId : ℕ) (p : Predicate α) : ℕ :=
  if p.columnId = some columnId then p.executeEstimateRange L else 0

/-- The area the comparisons of a list take on a column. -/
def columnBytes (columnId : ℕ) (ps : List (Predicate α)) : ℕ :=
  (ps.map (Predicate.bytesOn L columnId)).sum

/-- The range of a column after one more argument. -/
def nextRange (k : KeyColumn α) (p : Predicate α) (sPrevRange : List (SmiRange α)) :
    List (SmiRange α) :=
  if sPrevRange.isEmpty then p.rangesOn k.id
  else if (p.rangesOn k.id).isEmpty then sPrevRange
  else k.mergeAndRange sPrevRange (p.rangesOn k.id)

/-- How many ranges the AND merge of one more argument makes room for. -/
def mergeSlots (k : KeyColumn α) (p : Predicate α) (sPrevRange : List (SmiRange α)) : ℕ :=
  if sPrevRange.isEmpty then 0
  else if (p.rangesOn k.id).isEmpty then 0
  else getAndRangeCount sPrevRange (p.rangesOn k.id)

/-- The range of a column, and how many ranges its AND merges make room for. -/
def columnRanges (k : KeyColumn α) :
    List (Predicate α) → List (SmiRange α) → List (SmiRange α) × ℕ
  | [], sPrevRange => (sPrevRange, 0)
  | p :: ps, sPrevRange =>
      let d := columnRanges k ps (nextRange k p sPrevRange)
      (d.1, mergeSlots k p sPrevRange + d.2)

/-- The bytes of one copy of a range. -/
def copyBytes (r : SmiRange α) : ℕ :=
  L.estimateRangeDefault
    + align8 L.mtkRangeCallBack * (r.minimum.data.length + r.maximum.data.length)

/-- The bytes of the copies in front of the ranges of one more column. -/
def compositeBytes (sRange sCurRange : List (SmiRange α)) : ℕ :=
  match sRange with
  | [] => 0
  | r :: _ => (sCurRange.length - 1) * copyBytes L r

/-- What the composite range of an AND node is and takes. -/
structure Demand (α : Type) where
  ranges : List (SmiRange α)
  /-- ranges that AND merges make room for -/
  merged : ℕ
  /-- bytes of copies of composite ranges -/
  copied : ℕ

/-- The demand of the key columns from the composite range `sRange` on. -/
def compositeDemand (aIsKeyRange : Bool) (ps : List (Predicate α)) :
    List (KeyColumn α) → List (SmiRange α) → Demand α
  | [], sRange => ⟨sRange, 0, 0⟩
  | k :: ks, sRange =>
      let c := columnRanges k ps []
      if c.1.isEmpty then
        if aIsKeyRange then ⟨sRange, c.2, 0⟩
        else
          let d := compositeDemand aIsKeyRange ps ks sRange
          ⟨d.ranges, c.2 + d.merged, d.copied⟩
      else
        let d := compositeDemand aIsKeyRange ps ks (compositeRanges sRange c.1)
        ⟨d.ranges, c.2 + d.merged, compositeBytes L sRange c.1 + d.copied⟩

/-- The demand of an AND node. -/
def AndNode.demand (ix : KeyIndex α) (aIsKeyRange : Bool) (a : AndNode α) : Demand α :=
  compositeDemand L aIsKeyRange a.arguments ix.columns []

end Demand

/-! ## §6. An area that is large enough. -/

section Budget

variable {α : Type} {L : Layout} {aRangeAreaSize : ℕ}

theorem takeArea_ok (hw : aRangeAreaSize < 2 ^ 32) {aOffset sSize : ℕ}
    (h : aOffset + sSize ≤ aRangeAreaSize) :
    takeArea aRangeAreaSize aOffset sSize = .ok (aOffset + sSize) := by
  unfold takeArea
  rw [u32_of_lt (by omega), if_neg (by omega)]

/-- The step succeeds with `v`, at an offset of at most `bound`. -/
def Within {β : Type} (x : Except KeyRangeError (ℕ × β)) (v : β) (bound : ℕ) : Prop :=
  ∃ sOffset, x = .ok (sOffset, v) ∧ sOffset ≤ bound

theorem makeRange4AComparison_within (hw : aRangeAreaSize < 2 ^ 32) (columnId : ℕ)
    (p : Predicate α) (aOffset : ℕ) (h : aOffset + p.bytesOn L columnId ≤ aRangeAreaSize) :
    Within (makeRange4AComparison L aRangeAreaSize columnId p aOffset) (p.rangesOn columnId)
      (aOffset + p.bytesOn L columnId) := by
  unfold Within makeRange4AComparison Predicate.rangesOn
  unfold Predicate.bytesOn at h ⊢
  by_cases hid : p.columnId = some columnId
  · simp only [if_pos hid] at h ⊢
    rw [takeArea_ok hw h]
    cases hop : p.operator with
    | compare aSize => exact ⟨_, rfl, Nat.le_refl _⟩
    | notRange aSize => exact ⟨_, rfl, Nat.le_refl _⟩
    | inlist sCount =>
      have hsize : p.executeEstimateRange L = L.inlistEstimateRange := by
        unfold Predicate.executeEstimateRange
        rw [hop]
      have huse := L.inlistUseOffset_le (p.inlist_le sCount hop).2
      rw [hsize] at h ⊢
      show ∃ sOffset, Except.ok (u32 (aOffset + L.inlistUseOffset sCount), p.ranges)
        = .ok (sOffset, p.ranges) ∧ _
      rw [u32_of_lt (by omega)]
      exact ⟨_, rfl, by omega⟩
  · simp only [if_neg hid]
    exact ⟨_, rfl, Nat.le_refl _⟩

/-- One column of an AND node takes the area of its comparisons and of its
AND merges. -/
theorem makeRange4AColumn_within (hw : aRangeAreaSize < 2 ^ 32) (k : KeyColumn α)
    (ps : List (Predicate α)) (sPrevRange : List (SmiRange α)) (aOffset : ℕ)
    (h : aOffset + columnBytes L k.id ps + align8 L.smiRange * (columnRanges k ps sPrevRange).2
      ≤ aRangeAreaSize) :
    Within (makeRange4AColumn L aRangeAreaSize k ps aOffset sPrevRange)
      (columnRanges k ps sPrevRange).1
      (aOffset + columnBytes L k.id ps
        + align8 L.smiRange * (columnRanges k ps sPrevRange).2) := by
  induction ps generalizing aOffset sPrevRange with
  | nil => exact ⟨aOffset, rfl, by omega⟩
  | cons p ps ih =>
    have hsum : columnBytes L k.id (p :: ps) = p.bytesOn L k.id + columnBytes L k.id ps := rfl
    rw [hsum] at h ⊢
    obtain ⟨sOffset, hp, hle⟩ := makeRange4AComparison_within (L := L) hw k.id p aOffset
      (by omega)
    simp only [makeRange4AColumn, hp, columnRanges, nextRange, mergeSlots] at h ⊢
    by_cases hprev : sPrevRange.isEmpty = true
    · simp only [if_pos hprev, Nat.zero_add] at h ⊢
      obtain ⟨sOffset', hrec, hle'⟩ := ih (p.rangesOn k.id) sOffset (by omega)
      exact ⟨sOffset', hrec, by omega⟩
    · simp only [if_neg hprev] at h ⊢
      by_cases hcur : (p.rangesOn k.id).isEmpty = true
      · simp only [if_pos hcur, Nat.zero_add] at h ⊢
        obtain ⟨sOffset', hrec, hle'⟩ := ih sPrevRange sOffset (by omega)
        exact ⟨sOffset', hrec, by omega⟩
      · simp only [if_neg hcur, Nat.mul_add] at h ⊢
        rw [takeArea_ok hw (by omega)]
        obtain ⟨sOffset', hrec, hle'⟩ := ih (k.mergeAndRange sPrevRange (p.rangesOn k.id))
          (sOffset + align8 L.smiRange * getAndRangeCount sPrevRange (p.rangesOn k.id)) (by omega)
        exact ⟨sOffset', hrec, by omega⟩

theorem copyCallBacks_ok (hw : aRangeAreaSize < 2 ^ 32) (cs : List (MtkRangeCallBack α))
    (aOffset : ℕ) (h : aOffset + align8 L.mtkRangeCallBack * cs.length ≤ aRangeAreaSize) :
    copyCallBacks L aRangeAreaSize cs aOffset
      = .ok (aOffset + align8 L.mtkRangeCallBack * cs.length) := by
  induction cs generalizing aOffset with
  | nil => rfl
  | cons c cs ih =>
    simp only [List.length_cons, Nat.mul_add, Nat.mul_one] at h ⊢
    simp only [copyCallBacks]
    rw [takeArea_ok hw (by omega)]
    show copyCallBacks L aRangeAreaSize cs _ = _
    rw [ih _ (by omega)]
    congr 1
    omega

theorem copyRange_ok (hw : aRangeAreaSize < 2 ^ 32) (r : SmiRange α) (aOffset : ℕ)
    (h : aOffset + copyBytes L r ≤ aRangeAreaSize) :
    copyRange L aRangeAreaSize r aOffset = .ok (aOffset + copyBytes L r) := by
  unfold copyBytes at h ⊢
  simp only [Nat.mul_add] at h ⊢
  unfold copyRange
  rw [takeArea_ok hw (by omega)]
  show (match copyCallBacks L aRangeAreaSize r.minimum.data _ with
    | .error e => _
    | .ok sOffset => _) = _
  rw [copyCallBacks_ok hw _ _ (by omega)]
  show copyCallBacks L aRangeAreaSize r.maximum.data _ = _
  rw [copyCallBacks_ok hw _ _ (by omega)]
  congr 1
  omega

theorem copyRanges_ok (hw : aRangeAreaSize < 2 ^ 32) (r : SmiRange α) (n : ℕ) (aOffset : ℕ)
    (h : aOffset + n * copyBytes L r ≤ aRangeAreaSize) :
    copyRanges L aRangeAreaSize r n aOffset = .ok (aOffset + n * copyBytes L r) := by
  induction n generalizing aOffset with
  | zero => simp [copyRanges]
  | succ n ih =>
    simp only [Nat.add_mul, Nat.one_mul] at h ⊢
    simp only [copyRanges]
    rw [copyRange_ok hw r _ (by omega)]
    show copyRanges L aRangeAreaSize r n _ = _
    rw [ih _ (by omega)]
    congr 1
    omega

theorem copyComposite_ok (hw : aRangeAreaSize < 2 ^ 32) (sRange sCurRange : List (SmiRange α))
    (aOffset : ℕ) (h : aOffset + compositeBytes L sRange sCurRange ≤ aRangeAreaSize) :
    copyComposite L aRangeAreaSize sRange sCurRange aOffset
      = .ok (aOffset + compositeBytes L sRange sCurRange) := by
  cases sRange with
  | nil => rfl
  | cons r rs => exact copyRanges_ok hw r _ _ h

/-- The comparisons of an AND node on a list of key columns. -/
def columnsBytes (L : Layout) (ps : List (Predicate α)) (ks : List (KeyColumn α)) : ℕ :=
  (ks.map fun k => columnBytes L k.id ps).sum

/-- **The columns of an AND node** take the area of its comparisons, of its AND
merges and of its copies. -/
theorem makeCompositeRange_within (hw : aRangeAreaSize < 2 ^ 32) (aIsKeyRange : Bool)
    (ps : List (Predicate α)) (ks : List (KeyColumn α)) (sRange : List (SmiRange α))
    (aOffset : ℕ) {d : Demand α} (hd : compositeDemand L aIsKeyRange ps ks sRange = d)
    (h : aOffset + columnsBytes L ps ks + align8 L.smiRange * d.merged + d.copied
      ≤ aRangeAreaSize) :
    Within (makeCompositeRange L aRangeAreaSize aIsKeyRange ps ks aOffset sRange) d.ranges
      (aOffset + columnsBytes L ps ks + align8 L.smiRange * d.merged + d.copied) := by
  subst hd
  induction ks generalizing aOffset sRange with
  | nil => exact ⟨aOffset, rfl, by omega⟩
  | cons k ks ih =>
    have hsum : columnsBytes L ps (k :: ks) = columnBytes L k.id ps + columnsBytes L ps ks := rfl
    rw [hsum] at h ⊢
    -- whatever the branch, the merges of this column are part of the demand
    have hmerged : (columnRanges k ps []).2
        ≤ (compositeDemand L aIsKeyRange ps (k :: ks) sRange).merged := by
      simp only [compositeDemand]
      split_ifs <;> simp
    have hmul := Nat.mul_le_mul_left (align8 L.smiRange) hmerged
    obtain ⟨sOffset, hk, hle⟩ := makeRange4AColumn_within (L := L) hw k ps [] aOffset
      (by omega)
    simp only [makeCompositeRange, hk, compositeDemand] at h ⊢
    by_cases hcur : (columnRanges k ps []).1.isEmpty = true
    · simp only [if_pos hcur] at h ⊢
      cases aIsKeyRange with
      | true => exact ⟨sOffset, rfl, by simp; omega⟩
      | false =>
        simp only [Bool.false_eq_true, if_false, Nat.mul_add] at h ⊢
        obtain ⟨sOffset', hrec, hle'⟩ := ih sRange sOffset (by omega)
        exact ⟨sOffset', hrec, by omega⟩
    · simp only [if_neg hcur, Nat.mul_add] at h ⊢
      rw [copyComposite_ok hw _ _ _ (by omega)]
      obtain ⟨sOffset', hrec, hle'⟩ := ih (compositeRanges sRange (columnRanges k ps []).1)
        (sOffset + compositeBytes L sRange (columnRanges k ps []).1) (by omega)
      exact ⟨sOffset', hrec, by omega⟩

/-! ## §7. The estimate covers the comparisons. -/

/-- A comparison is on one key column at most. -/
theorem sum_on_column_le (p : Predicate α) (ks : List (KeyColumn α))
    (hnodup : (ks.map KeyColumn.id).Nodup) (f : KeyColumn α → ℕ) (m : ℕ)
    (hoff : ∀ k ∈ ks, p.columnId ≠ some k.id → f k = 0)
    (hon : ∀ k ∈ ks, p.columnId = some k.id → f k ≤ m) : (ks.map f).sum ≤ m := by
  induction ks with
  | nil => exact Nat.zero_le _
  | cons k ks ih =>
    rw [List.map_cons, List.nodup_cons] at hnodup
    rw [List.map_cons, List.sum_cons]
    by_cases hid : p.columnId = some k.id
    · have hothers : (ks.map f).sum = 0 := by
        apply List.sum_eq_zero
        intro n hn
        obtain ⟨k', hk', rfl⟩ := List.mem_map.mp hn
        apply hoff k' (List.mem_cons_of_mem _ hk')
        intro hid'
        rw [hid, Option.some.injEq] at hid'
        exact hnodup.1 (List.mem_map.mpr ⟨k', hk', hid'.symm⟩)
      have hk := hon k List.mem_cons_self hid
      omega
    · have hzero := hoff k List.mem_cons_self hid
      have := ih hnodup.2 (fun k' hk' => hoff k' (List.mem_cons_of_mem _ hk'))
        (fun k' hk' => hon k' (List.mem_cons_of_mem _ hk'))
      omega

/-- The estimate has the area that a comparison takes on its key column. -/
theorem bytesOn_sum_le (L : Layout) (p : Predicate α) (ks : List (KeyColumn α))
    (hnodup : (ks.map KeyColumn.id).Nodup) :
    (ks.map fun k => p.bytesOn L k.id).sum ≤ p.estimateRange L := by
  apply sum_on_column_le p ks hnodup
  · exact fun k _ hid => if_neg hid
  · intro k _ hid
    unfold Predicate.bytesOn Predicate.estimateRange
    simp [hid]

theorem columnsBytes_le (L : Layout) (ps : List (Predicate α)) (ks : List (KeyColumn α))
    (hnodup : (ks.map KeyColumn.id).Nodup) :
    columnsBytes L ps ks ≤ (ps.map (Predicate.estimateRange L)).sum := by
  induction ps with
  | nil =>
    apply Nat.le_of_eq
    apply List.sum_eq_zero
    intro n hn
    obtain ⟨k, hk, rfl⟩ := List.mem_map.mp hn
    rfl
  | cons p ps ih =>
    have hsplit : columnsBytes L (p :: ps) ks
        = (ks.map fun k => p.bytesOn L k.id).sum + columnsBytes L ps ks := List.sum_map_add
    have hp := bytesOn_sum_le L p ks hnodup
    rw [hsplit, List.map_cons, List.sum_cons]
    omega

end Budget

end Altibase.Qmo
