/-
  Altibase.Smnb.IndexStat
  ───────────────────────
  **INDEX STATISTICS KEPT ON THE FLY** (`smnbModule.cpp`).

  While rows go into and out of a memory index, two counters are kept with
  them: the rows in the index, and the key values among them that are not
  entirely NULL.  Insertion and deletion look at the two neighbours of the row,
  which may lie in the leaves beside, and decide from these whether the value
  appears or disappears.

  The two functions do not decide alike.  A row that is not found is counted
  down all the same; deletion leaves out the values whose first column is NULL,
  insertion only those that are NULL as a whole; a unique index that is not null
  counts rows; and a property keeps both from looking into another leaf.

    * `Ordered.apply` — the leaves stay in order, whatever is called;
    * `counts_apply_iff` — where one call keeps right counters right;
    * `indexStat_reachable` — the counters on every run of such calls.
-/

import Altibase.Lib.SortedValues
import Altibase.Lib.System
import Altibase.Smnb.Node

namespace Altibase.Smnb.IndexStat

open Altibase.Lib

/-! ## §1. The index. -/

/-- What the functions read of the index header, of the flags and of the
    properties.  `isNullFirst` and `isNullRest` are `isNullColumn` of the first
    and of the other columns. -/
structure StatHeader (κ : Type) where
  isNullFirst : κ → Bool
  isNullRest : List (κ → Bool)
  isUniqueIndex : Bool
  mIsNotNull : Bool
  /-- `SMNB_LEAF_SLOT_MAX_COUNT` and `SMNB_LEAF_SLOT_SPLIT_COUNT`. -/
  slotMaxCount : Nat
  slotSplitCount : Nat
  /-- `smuProperty::getSkipIdxStatNodeBound`. -/
  skipNodeBound : Bool
  split_pos : 0 < slotSplitCount
  split_lt : slotSplitCount < slotMaxCount

/-- `mStat`: the counters, and the rows that gave the least and the greatest
    value. -/
structure Stat (κ : Type) where
  mKeyCount : Int
  mNumDist : Int
  mMinValue : Option (Row κ)
  mMaxValue : Option (Row κ)
  deriving DecidableEq, Repr

/-- The leaves from left to right, and the statistics. -/
structure Index (κ : Type) where
  leaves : List (List (Row κ))
  stat : Stat κ
  deriving DecidableEq, Repr

/-- The rows in the index. -/
def Index.rows {κ : Type} (x : Index κ) : List (Row κ) := x.leaves.flatten

/-- A row between two parts of a leaf, with the leaves on both sides. -/
structure Place (κ : Type) where
  before : List (List (Row κ))
  left : List (Row κ)
  right : List (Row κ)
  after : List (List (Row κ))

section Code

variable {κ : Type} [LinearOrder κ] (h : StatHeader κ)

/-- `smnbBTree::isNullKey`. -/
def isNullKey (key : κ) : Bool := h.isNullFirst key && h.isNullRest.all (· key)

/-- The row before the slot; the last one of the leaf before, by
    `getPrvLNodeLstRow`, if the slot is the first. -/
def prevRow (p : Place κ) : Option (Row κ) :=
  match p.left.getLast? with
  | some row => some row
  | none => if h.skipNodeBound then none else p.before.getLast?.bind (·.getLast?)

/-- The row behind the slot; the first one of the next leaf, by
    `getNxtLNodeFstRow`, if the slot is the last. -/
def nextRow (p : Place κ) : Option (Row κ) :=
  match p.right.head? with
  | some row => some row
  | none => if h.skipNodeBound then none else p.after.head?.bind (·.head?)

/-- Whether one of the neighbours has the key of the row; `none` where the order is
    found to be wrong. -/
def compareNeighbours (aRow : Row κ) (sPrevRowPtr sNextRowPtr : Option (Row κ)) : Option Bool :=
  let withNext : Option Bool :=
    match sNextRowPtr with
    | none => some false
    | some next =>
      let sCompareResult := compareRows (some aRow) (some next)
      if sCompareResult = 0 then some true
      else if sCompareResult < 0 then some false
      else none
  match sPrevRowPtr with
  | none => withNext
  | some prev =>
    let sCompareResult := compareRows (some aRow) (some prev)
    if sCompareResult = 0 then some true
    else if 0 < sCompareResult then withNext
    else none

/-- No row, or one whose first column is NULL. -/
def isNullFirstOf : Option (Row κ) → Bool
  | none => true
  | some row => h.isNullFirst row.key

/-- By how much a row at a place changes NumDist: the loop of both functions, which
    differ in the test that leaves a NULL key out. -/
def distStep (p : Place κ) (aRow : Row κ) (isNull : κ → Bool) : Option Int :=
  if h.isUniqueIndex && h.mIsNotNull then some 1
  else
    (compareNeighbours aRow (prevRow h p) (nextRow h p)).map fun isEqual =>
      if isEqual then 0 else if isNull aRow.key then 0 else 1

/-- **`smnbBTree::updateStat4Insert`.** -/
def updateStat4Insert (p : Place κ) (aRow : Row κ) (s : Stat κ) : Option (Stat κ) := do
  let sPrevRowPtr := prevRow h p
  let sNextRowPtr := nextRow h p
  let s :=
    if h.isNullFirst aRow.key then s
    else
      { s with
        mMinValue := if sPrevRowPtr.isNone then some aRow else s.mMinValue
        mMaxValue := if isNullFirstOf h sNextRowPtr then some aRow else s.mMaxValue }
  let inc : Int ← distStep h p aRow (isNullKey h)
  return { s with mNumDist := s.mNumDist + inc, mKeyCount := s.mKeyCount + 1 }

/-- **`smnbBTree::updateStat4Delete`** for the slot of a place, which holds `found`. -/
def updateStat4Delete (p : Place κ) (found : Option (Row κ)) (aRow : Row κ) (s : Stat κ) :
    Option (Stat κ) := do
  if found ≠ some aRow ∨ isNullKey h aRow.key then
    -- skip_update_stat
    return { s with mKeyCount := s.mKeyCount - 1 }
  else
    let sPrevRowPtr := prevRow h p
    let sNextRowPtr := nextRow h p
    let s :=
      if h.isNullFirst aRow.key then s
      else
        { s with
          mMinValue :=
            if p.before = [] ∧ p.left = [] then
              if isNullFirstOf h sNextRowPtr then none else sNextRowPtr
            else s.mMinValue
          mMaxValue := if isNullFirstOf h sNextRowPtr then sPrevRowPtr else s.mMaxValue }
    let dec : Int ← distStep h p aRow h.isNullFirst
    return { s with mNumDist := s.mNumDist - dec, mKeyCount := s.mKeyCount - 1 }

/-! ### Insertion and deletion. -/

/-- Whether a row lies before the one that is searched. -/
def isBelow (row x : Row κ) : Bool := compareRowsAndPtr (some x) (some row) < 0

/-- **`smnbBTree::findPosition`**: the first leaf whose last row is not below the
    searched one, else the last leaf; `none` in an empty tree. -/
def findPosition (row : Row κ) :
    List (List (Row κ)) → Option (List (List (Row κ)) × List (Row κ) × List (List (Row κ)))
  | [] => none
  | [leaf] => some ([], leaf, [])
  | leaf :: next :: rest =>
      if leaf.getLast?.all (isBelow row ·) then
        (findPosition row (next :: rest)).map fun r => (leaf :: r.1, r.2)
      else some ([], leaf, next :: rest)

/-- `findSlotInNode` in a leaf: the rows before the slot and from the slot on. -/
def splitAtSlot (row : Row κ) (leaf : List (Row κ)) : List (Row κ) × List (Row κ) :=
  (leaf.takeWhile (isBelow row), leaf.dropWhile (isBelow row))

/-- `insertIntoLeafNode`, after `splitLeafNode` if the leaf is full: where the row
    is put. -/
def insertPlace (row : Row κ) (before : List (List (Row κ))) (leaf : List (Row κ))
    (after : List (List (Row κ))) : Place κ :=
  let (left, right) := splitAtSlot row leaf
  if leaf.length < h.slotMaxCount then ⟨before, left, right, after⟩
  else if left.length ≤ h.slotSplitCount then
    ⟨before, left, right.take (h.slotSplitCount - left.length),
      leaf.drop h.slotSplitCount :: after⟩
  else
    ⟨before ++ [leaf.take h.slotSplitCount], left.drop h.slotSplitCount, right, after⟩

/-- The leaves with the row in its place. -/
def Place.withRow (p : Place κ) (row : Row κ) : List (List (Row κ)) :=
  p.before ++ (p.left ++ row :: p.right) :: p.after

/-- The leaves without the row; a leaf without rows is taken out. -/
def Place.withoutRow (p : Place κ) : List (List (Row κ)) :=
  p.before ++ (if p.left ++ p.right = [] then [] else [p.left ++ p.right]) ++ p.after

/-- **`smnbBTree::insertRow`**, with the answer of `checkUniqueness`; false where it
    fails. -/
def insertRow (aRow : Row κ) (unique : Bool) (x : Index κ) : Index κ × Bool :=
  match findPosition aRow x.leaves with
  | none =>
      -- makeRootNode
      match updateStat4Insert h ⟨[], [], [], []⟩ aRow x.stat with
      | none => (x, false)
      | some stat => (⟨[[aRow]], stat⟩, true)
  | some (before, leaf, after) =>
      if (splitAtSlot aRow leaf).2.head? = some aRow then (x, true)
      else if unique = false then (x, false)
      else
        let p := insertPlace h aRow before leaf after
        match updateStat4Insert h p aRow x.stat with
        | none => (⟨p.withRow aRow, x.stat⟩, false)
        | some stat => (⟨p.withRow aRow, stat⟩, true)

/-- **`smnbBTree::freeSlotByLeafFullScan`**: a row that is not the last one of its
    leaf is taken out; else it fails. -/
def freeSlotByLeafFullScan (aRow : Row κ) : List (List (Row κ)) → Option (List (List (Row κ)))
  | [] => none
  | leaf :: rest =>
      if aRow ∈ leaf then
        if leaf.length ≤ 1 ∨ leaf.length - 1 ≤ leaf.idxOf aRow then none
        else some (leaf.eraseIdx (leaf.idxOf aRow) :: rest)
      else (freeSlotByLeafFullScan aRow rest).map (leaf :: ·)

/-- **`smnbBTree::freeSlot`**; false where it fails. -/
def freeSlot (aRow : Row κ) (aIgnoreNotFoundKey : Bool) (x : Index κ) : Index κ × Bool :=
  match findPosition aRow x.leaves with
  | none => (x, aIgnoreNotFoundKey)
  | some (before, leaf, after) =>
      let (left, right) := splitAtSlot aRow leaf
      let p : Place κ := ⟨before, left, right.tail, after⟩
      match updateStat4Delete h p right.head? aRow x.stat with
      | none => (x, false)
      | some stat =>
        if right.head? = some aRow then (⟨p.withoutRow, stat⟩, true)
        else if aIgnoreNotFoundKey then (⟨x.leaves, stat⟩, true)
        else
          match freeSlotByLeafFullScan aRow x.leaves with
          | none => (⟨x.leaves, stat⟩, false)
          | some leaves => (⟨leaves, stat⟩, true)

/-- `keyRedistribute`: the last `count` rows of a leaf go to the front of the next one. -/
def keyRedistribute (count : Nat) : Nat → List (List (Row κ)) → List (List (Row κ))
  | 0, leaf :: next :: rest =>
      if 0 < count ∧ count < leaf.length then
        leaf.take (leaf.length - count) :: (leaf.drop (leaf.length - count) ++ next) :: rest
      else leaf :: next :: rest
  | i + 1, leaf :: rest => leaf :: keyRedistribute count i rest
  | _, leaves => leaves

/-- One call, or the redistribution that a call may start with. -/
inductive Call (κ : Type) where
  | insertRow (aRow : Row κ) (unique : Bool)
  | freeSlot (aRow : Row κ) (aIgnoreNotFoundKey : Bool)
  | keyRedistribute (node count : Nat)

/-- What a call makes of the index. -/
def apply (x : Index κ) : Call κ → Index κ
  | .insertRow aRow unique => (insertRow h aRow unique x).1
  | .freeSlot aRow ignore => (freeSlot h aRow ignore x).1
  | .keyRedistribute node count => { x with leaves := keyRedistribute count node x.leaves }

/-- **Calls one at a time, from an empty index on.** -/
def indexStat : System (Index κ) (Call κ) where
  init := ⟨[], ⟨0, 0, none, none⟩⟩
  step x c := some (apply h x c)

end Code

/-! ## §2. Leaves in order, and the place of a row. -/

section Order

variable {κ : Type} [LinearOrder κ]

/-- **The leaves are not empty, and their rows increase from leaf to leaf.** -/
structure Ordered (leaves : List (List (Row κ))) : Prop where
  nonempty : ∀ leaf ∈ leaves, leaf ≠ []
  sorted : leaves.flatten.Pairwise fun r s => rank (some r) < rank (some s)

theorem ordered_nil : Ordered ([] : List (List (Row κ))) :=
  ⟨fun _ h => absurd h List.not_mem_nil, List.Pairwise.nil⟩

theorem Ordered.tail {leaf : List (Row κ)} {rest : List (List (Row κ))}
    (ho : Ordered (leaf :: rest)) : Ordered rest := by
  refine ⟨fun l hl => ho.nonempty l (List.mem_cons_of_mem _ hl), ?_⟩
  have hs := ho.sorted
  rw [List.flatten_cons] at hs
  exact (List.pairwise_append.mp hs).2.1

theorem isBelow_iff (row x : Row κ) : isBelow row x = true ↔ rank (some x) < rank (some row) := by
  unfold isBelow
  rw [decide_eq_true_eq, compareRowsAndPtr_neg_iff]

omit [LinearOrder κ] in
/-- Two rows of one rank are one row. -/
theorem rank_injective {r s : Row κ} (h : rank (some r) = rank (some s)) : r = s := by
  unfold rank at h
  rw [WithTop.coe_inj, toLex_inj, Prod.mk.injEq] at h
  obtain ⟨key, oid⟩ := r
  obtain ⟨key', oid'⟩ := s
  simp only [Row.mk.injEq]
  exact h

/-- The part of a leaf behind the rows below is not below. -/
theorem not_below_dropWhile {leaf : List (Row κ)} (row : Row κ)
    (hs : leaf.Pairwise fun r s => rank (some r) < rank (some s)) :
    ∀ x ∈ leaf.dropWhile (isBelow row), rank (some row) ≤ rank (some x) := by
  induction leaf with
  | nil => intro x hx; cases hx
  | cons y ys ih =>
    obtain ⟨hy, hys⟩ := List.pairwise_cons.mp hs
    intro x hx
    rw [List.dropWhile_cons] at hx
    split_ifs at hx with hb
    · exact ih hys x hx
    · have hyrow : rank (some row) ≤ rank (some y) := by
        rw [← not_lt, ← isBelow_iff]
        exact hb
      obtain rfl | hin := List.mem_cons.mp hx
      · exact hyrow
      · exact le_trans hyrow (le_of_lt (hy x hin))

/-- All rows of a leaf are below if its last one is. -/
theorem all_below_of_last {leaf : List (Row κ)} {row : Row κ}
    (hs : leaf.Pairwise fun r s => rank (some r) < rank (some s))
    (hlast : leaf.getLast?.all (isBelow row ·) = true) :
    ∀ x ∈ leaf, rank (some x) < rank (some row) := by
  intro x hx
  obtain ⟨init, last, rfl⟩ := (List.eq_nil_or_concat leaf).resolve_left (List.ne_nil_of_mem hx)
  rw [List.concat_eq_append] at hs hlast hx
  rw [List.getLast?_concat, Option.all_some, isBelow_iff] at hlast
  obtain hin | hin := List.mem_append.mp hx
  · exact lt_trans ((List.pairwise_append.mp hs).2.2 x hin last (by simp)) hlast
  · rw [List.mem_singleton.mp hin]
    exact hlast

/-- What `findPosition` finds: the leaves before hold rows below only, and if
    there is a leaf behind, the last row of the one found is not below. -/
structure FoundLeaf (row : Row κ) (leaves before : List (List (Row κ))) (leaf : List (Row κ))
    (after : List (List (Row κ))) : Prop where
  eq : leaves = before ++ leaf :: after
  below : ∀ x ∈ before.flatten, rank (some x) < rank (some row)
  last : after ≠ [] → ∃ x ∈ leaf.getLast?, rank (some row) ≤ rank (some x)

theorem findPosition_spec {row : Row κ} {leaves before after : List (List (Row κ))}
    {leaf : List (Row κ)} (ho : Ordered leaves)
    (hf : findPosition row leaves = some (before, leaf, after)) :
    FoundLeaf row leaves before leaf after := by
  induction leaves generalizing before with
  | nil => cases hf
  | cons first rest ih =>
    cases rest with
    | nil =>
      cases hf
      exact ⟨rfl, fun x hx => absurd hx List.not_mem_nil, fun h => absurd rfl h⟩
    | cons next rest =>
      rw [findPosition] at hf
      have hsorted := ho.sorted
      rw [List.flatten_cons] at hsorted
      split_ifs at hf with hlast
      · -- the first leaf is passed, as its last row is below
        cases hr : findPosition row (next :: rest) with
        | none => rw [hr] at hf; cases hf
        | some r =>
          obtain ⟨before', leaf', after'⟩ := r
          rw [hr, Option.map_some, Option.some_inj, Prod.mk.injEq, Prod.mk.injEq] at hf
          obtain ⟨rfl, rfl, rfl⟩ := hf
          have hfound := ih ho.tail hr
          refine ⟨by rw [hfound.eq, List.cons_append], fun x hx => ?_, hfound.last⟩
          rw [List.flatten_cons] at hx
          obtain hin | hin := List.mem_append.mp hx
          · exact all_below_of_last (List.pairwise_append.mp hsorted).1 hlast x hin
          · exact hfound.below x hin
      · rw [Option.some_inj, Prod.mk.injEq, Prod.mk.injEq] at hf
        obtain ⟨rfl, rfl, rfl⟩ := hf
        refine ⟨rfl, fun x hx => absurd hx List.not_mem_nil, fun _ => ?_⟩
        cases hg : first.getLast? with
        | none => exact absurd (List.getLast?_eq_none_iff.mp hg) (ho.nonempty first (by simp))
        | some x =>
          rw [hg, Option.all_some, isBelow_iff, not_lt] at hlast
          exact ⟨x, rfl, hlast⟩

theorem findPosition_eq_none_iff (row : Row κ) (leaves : List (List (Row κ))) :
    findPosition row leaves = none ↔ leaves = [] := by
  induction leaves with
  | nil => simp [findPosition]
  | cons first rest ih =>
    cases rest with
    | nil => simp [findPosition]
    | cons next rest =>
      rw [findPosition]
      split_ifs <;> simp [ih]

/-- The rows before a place, and those behind it. -/
def Place.lower (p : Place κ) : List (Row κ) := p.before.flatten ++ p.left

/-- The rows behind a place. -/
def Place.upper (p : Place κ) : List (Row κ) := p.right ++ p.after.flatten

/-- **A place that is the one of a row**: the rows before it are below, the rows
    behind it above. -/
structure PlaceOf (row : Row κ) (p : Place κ) : Prop where
  below : ∀ x ∈ p.lower, rank (some x) < rank (some row)
  above : ∀ x ∈ p.upper, rank (some row) < rank (some x)
  before_ne : ∀ leaf ∈ p.before, leaf ≠ []
  after_ne : ∀ leaf ∈ p.after, leaf ≠ []

/-- The two parts of the leaf that was found. -/
theorem FoundLeaf.parts {row : Row κ} {leaves before after : List (List (Row κ))}
    {leaf : List (Row κ)} (hl : FoundLeaf row leaves before leaf after) (ho : Ordered leaves) :
    (∀ x ∈ before.flatten ++ (splitAtSlot row leaf).1, rank (some x) < rank (some row)) ∧
      ∀ x ∈ (splitAtSlot row leaf).2 ++ after.flatten, rank (some row) ≤ rank (some x) := by
  have hsorted := ho.sorted
  rw [hl.eq, List.flatten_append, List.flatten_cons] at hsorted
  have hrest := (List.pairwise_append.mp hsorted).2.1
  refine ⟨fun x hx => ?_, fun x hx => ?_⟩
  · obtain hin | hin := List.mem_append.mp hx
    · exact hl.below x hin
    · exact (isBelow_iff row x).mp (List.all_eq_true.mp List.all_takeWhile x hin)
  · obtain hin | hin := List.mem_append.mp hx
    · exact not_below_dropWhile row (List.pairwise_append.mp hrest).1 x hin
    · have hne : after ≠ [] := by rintro rfl; cases hin
      obtain ⟨last, hlast, hle⟩ := hl.last hne
      exact le_trans hle
        (le_of_lt ((List.pairwise_append.mp hrest).2.2 last (List.mem_of_getLast? hlast) x hin))

/-- The row is in the index exactly when it stands in the slot. -/
theorem FoundLeaf.mem_iff {row : Row κ} {leaves before after : List (List (Row κ))}
    {leaf : List (Row κ)} (hl : FoundLeaf row leaves before leaf after) (ho : Ordered leaves) :
    row ∈ leaves.flatten ↔ (splitAtSlot row leaf).2.head? = some row := by
  have hleaf : (splitAtSlot row leaf).1 ++ (splitAtSlot row leaf).2 = leaf :=
    List.takeWhile_append_dropWhile
  obtain ⟨hlo, hup⟩ := hl.parts ho
  have hsorted := ho.sorted
  rw [hl.eq, List.flatten_append, List.flatten_cons] at hsorted ⊢
  refine ⟨fun hin => ?_, fun hhead => ?_⟩
  · have hright : row ∈ (splitAtSlot row leaf).2 ++ after.flatten := by
      rw [← hleaf, List.append_assoc, ← List.append_assoc] at hin
      exact (List.mem_append.mp hin).resolve_left fun h => lt_irrefl _ (hlo row h)
    cases hr : (splitAtSlot row leaf).2 with
    | nil =>
      -- then the last row of the leaf is below, so there is no leaf behind
      rw [hr, List.nil_append] at hright
      have hne : after ≠ [] := by rintro rfl; cases hright
      obtain ⟨last, hlast, hle⟩ := hl.last hne
      have hmem : last ∈ (splitAtSlot row leaf).1 := by
        have h := List.mem_of_getLast? hlast
        rwa [← hleaf, hr, List.append_nil] at h
      exact absurd hle (not_le.mpr (hlo last (List.mem_append_right _ hmem)))
    | cons y ys =>
      rw [List.head?_cons]
      congr 1
      rw [← hleaf, hr, List.append_assoc] at hsorted
      have hys := (List.pairwise_append.mp (List.pairwise_append.mp hsorted).2.1).2.1
      rw [hr, List.cons_append] at hright
      obtain heq | hlater := List.mem_cons.mp hright
      · exact heq.symm
      · refine absurd (List.rel_of_pairwise_cons hys hlater) (not_lt.mpr ?_)
        exact hup y (by rw [hr]; simp)
  · have hmem : row ∈ leaf := by
      rw [← hleaf]
      exact List.mem_append_right _ (List.mem_of_mem_head? hhead)
    simp [hmem]

/-! ## §3. The leaves stay in order. -/

/-- What stands around the slot of a row that is not in the index. -/
theorem FoundLeaf.place_new {row : Row κ} {leaves before after : List (List (Row κ))}
    {leaf : List (Row κ)} (hl : FoundLeaf row leaves before leaf after) (ho : Ordered leaves)
    (hnot : row ∉ leaves.flatten) :
    PlaceOf row ⟨before, (splitAtSlot row leaf).1, (splitAtSlot row leaf).2, after⟩ := by
  have hleaf : (splitAtSlot row leaf).1 ++ (splitAtSlot row leaf).2 = leaf :=
    List.takeWhile_append_dropWhile
  obtain ⟨hlo, hup⟩ := hl.parts ho
  refine ⟨hlo, fun x hx => lt_of_le_of_ne (hup x hx) fun heq => hnot ?_, ?_, ?_⟩
  · -- a row of the same rank would be the row itself
    rw [rank_injective heq, hl.eq, List.flatten_append, List.flatten_cons, ← hleaf,
      List.append_assoc]
    exact List.mem_append_right _ (List.mem_append_right _ hx)
  · exact fun l h => ho.nonempty l (by rw [hl.eq]; exact List.mem_append_left _ h)
  · exact fun l h => ho.nonempty l (by rw [hl.eq]; simp [h])

theorem FoundLeaf.rows_eq {row : Row κ} {leaves before after : List (List (Row κ))}
    {leaf : List (Row κ)} (hl : FoundLeaf row leaves before leaf after) :
    leaves.flatten =
      (before.flatten ++ (splitAtSlot row leaf).1) ++
        ((splitAtSlot row leaf).2 ++ after.flatten) := by
  have hleaf : (splitAtSlot row leaf).1 ++ (splitAtSlot row leaf).2 = leaf :=
    List.takeWhile_append_dropWhile
  calc leaves.flatten = before.flatten ++ (leaf ++ after.flatten) := by
        rw [hl.eq, List.flatten_append, List.flatten_cons]
    _ = before.flatten ++
          (((splitAtSlot row leaf).1 ++ (splitAtSlot row leaf).2) ++ after.flatten) := by
        rw [hleaf]
    _ = _ := by rw [List.append_assoc, List.append_assoc]

/-- A place keeps its rows when the leaf is split. -/
theorem insertPlace_eq (h : StatHeader κ) (row : Row κ) (before : List (List (Row κ)))
    (leaf : List (Row κ)) (after : List (List (Row κ))) :
    (insertPlace h row before leaf after).lower = before.flatten ++ (splitAtSlot row leaf).1 ∧
      (insertPlace h row before leaf after).upper =
        (splitAtSlot row leaf).2 ++ after.flatten := by
  have hleaf : (splitAtSlot row leaf).1 ++ (splitAtSlot row leaf).2 = leaf :=
    List.takeWhile_append_dropWhile
  unfold insertPlace
  generalize splitAtSlot row leaf = parts at *
  obtain ⟨left, right⟩ := parts
  simp only [Place.lower, Place.upper] at hleaf ⊢
  split_ifs with hroom hleft
  · exact ⟨rfl, rfl⟩
  · refine ⟨rfl, ?_⟩
    rw [← hleaf, List.flatten_cons, List.drop_append, List.drop_eq_nil_of_le hleft, List.nil_append,
      ← List.append_assoc, List.take_append_drop]
  · refine ⟨?_, rfl⟩
    rw [← hleaf, List.flatten_append, List.flatten_singleton, List.append_assoc,
      List.take_append_of_le_length (by omega), List.take_append_drop]

theorem insertPlace_new {h : StatHeader κ} {row : Row κ}
    {leaves before after : List (List (Row κ))} {leaf : List (Row κ)}
    (hl : FoundLeaf row leaves before leaf after) (ho : Ordered leaves)
    (hnot : row ∉ leaves.flatten) : PlaceOf row (insertPlace h row before leaf after) := by
  obtain ⟨hlower, hupper⟩ := insertPlace_eq h row before leaf after
  have hplace := hl.place_new ho hnot
  refine ⟨?_, ?_, ?_, ?_⟩
  · rw [hlower]
    exact hplace.below
  · rw [hupper]
    exact hplace.above
  · unfold insertPlace
    dsimp only
    split_ifs with hroom hleft
    · exact hplace.before_ne
    · exact hplace.before_ne
    · intro l hin
      obtain hin | hin := List.mem_append.mp hin
      · exact hplace.before_ne l hin
      · rw [List.mem_singleton.mp hin, ← List.length_pos_iff, List.length_take]
        have := h.split_pos
        have := h.split_lt
        omega
  · unfold insertPlace
    dsimp only
    split_ifs with hroom hleft
    · exact hplace.after_ne
    · intro l hin
      obtain rfl | hin := List.mem_cons.mp hin
      · rw [← List.length_pos_iff, List.length_drop]
        have := h.split_lt
        omega
      · exact hplace.after_ne l hin
    · exact hplace.after_ne

omit [LinearOrder κ] in
@[simp] theorem withRow_flatten (p : Place κ) (row : Row κ) :
    (p.withRow row).flatten = p.lower ++ row :: p.upper := by
  simp [Place.withRow, Place.lower, Place.upper]

omit [LinearOrder κ] in
@[simp] theorem withoutRow_flatten (p : Place κ) : p.withoutRow.flatten = p.lower ++ p.upper := by
  unfold Place.withoutRow Place.lower Place.upper
  split_ifs with hempty
  · obtain ⟨hl, hr⟩ := List.append_eq_nil_iff.mp hempty
    simp [hl, hr]
  · simp

/-- A row put into its place. -/
theorem PlaceOf.sorted_with {row : Row κ} {p : Place κ} (hp : PlaceOf row p)
    (hs : (p.lower ++ p.upper).Pairwise fun r s => rank (some r) < rank (some s)) :
    (p.lower ++ row :: p.upper).Pairwise fun r s => rank (some r) < rank (some s) := by
  obtain ⟨hlo, hup, _⟩ := List.pairwise_append.mp hs
  refine List.pairwise_append.mpr ⟨hlo, List.pairwise_cons.mpr ⟨hp.above, hup⟩, ?_⟩
  intro x hx y hy
  obtain rfl | hin := List.mem_cons.mp hy
  · exact hp.below x hx
  · exact lt_trans (hp.below x hx) (hp.above y hin)

theorem PlaceOf.ordered_with {row : Row κ} {p : Place κ} (hp : PlaceOf row p)
    (hs : (p.lower ++ p.upper).Pairwise fun r s => rank (some r) < rank (some s)) :
    Ordered (p.withRow row) := by
  refine ⟨fun leaf hin => ?_, by rw [withRow_flatten]; exact hp.sorted_with hs⟩
  unfold Place.withRow at hin
  obtain hin | hin := List.mem_append.mp hin
  · exact hp.before_ne leaf hin
  · obtain rfl | hin := List.mem_cons.mp hin
    · simp
    · exact hp.after_ne leaf hin

theorem PlaceOf.ordered_without {row : Row κ} {p : Place κ} (hp : PlaceOf row p)
    (hs : (p.lower ++ p.upper).Pairwise fun r s => rank (some r) < rank (some s)) :
    Ordered p.withoutRow := by
  refine ⟨fun leaf hin => ?_, by rw [withoutRow_flatten]; exact hs⟩
  unfold Place.withoutRow at hin
  obtain hin | hin := List.mem_append.mp hin
  · obtain hin | hin := List.mem_append.mp hin
    · exact hp.before_ne leaf hin
    · split_ifs at hin with hempty
      · cases hin
      · rw [List.mem_singleton.mp hin]
        exact hempty
  · exact hp.after_ne leaf hin

/-- What stands around the slot of a row that is in the index. -/
theorem FoundLeaf.place_old {row : Row κ} {leaves before after : List (List (Row κ))}
    {leaf : List (Row κ)} (hl : FoundLeaf row leaves before leaf after) (ho : Ordered leaves)
    (hin : row ∈ leaves.flatten) :
    PlaceOf row ⟨before, (splitAtSlot row leaf).1, (splitAtSlot row leaf).2.tail, after⟩ ∧
      leaves.flatten = (before.flatten ++ (splitAtSlot row leaf).1) ++
        row :: ((splitAtSlot row leaf).2.tail ++ after.flatten) := by
  have hhead := (hl.mem_iff ho).mp hin
  have hcons : (splitAtSlot row leaf).2 = row :: (splitAtSlot row leaf).2.tail :=
    (List.cons_head?_tail hhead).symm
  have heq := hl.rows_eq
  rw [hcons, List.cons_append] at heq
  have hsorted := ho.sorted
  rw [heq] at hsorted
  obtain ⟨_, hup, hcross⟩ := List.pairwise_append.mp hsorted
  refine ⟨⟨fun x hx => hcross x hx row (by simp), (List.pairwise_cons.mp hup).1, ?_, ?_⟩, heq⟩
  · exact fun l h => ho.nonempty l (by rw [hl.eq]; exact List.mem_append_left _ h)
  · exact fun l h => ho.nonempty l (by rw [hl.eq]; simp [h])

omit [LinearOrder κ] in
theorem keyRedistribute_spec (count node : Nat) (leaves : List (List (Row κ))) :
    (keyRedistribute count node leaves).flatten = leaves.flatten ∧
      ((∀ leaf ∈ leaves, leaf ≠ []) →
        ∀ leaf ∈ keyRedistribute count node leaves, leaf ≠ []) := by
  induction node generalizing leaves with
  | zero =>
    match leaves with
    | [] => exact ⟨rfl, id⟩
    | [leaf] => exact ⟨rfl, id⟩
    | leaf :: next :: rest =>
      rw [keyRedistribute]
      split_ifs with hcount
      · refine ⟨?_, fun hne l hin => ?_⟩
        · rw [List.flatten_cons, List.flatten_cons, List.append_assoc, ← List.append_assoc,
            List.take_append_drop, List.flatten_cons, List.flatten_cons]
        · obtain rfl | hin := List.mem_cons.mp hin
          · rw [← List.length_pos_iff, List.length_take]
            omega
          · obtain rfl | hin := List.mem_cons.mp hin
            · exact List.append_ne_nil_of_right_ne_nil _ (hne next (by simp))
            · exact hne l (by simp [hin])
      · exact ⟨rfl, id⟩
  | succ node ih =>
    cases leaves with
    | nil => exact ⟨rfl, id⟩
    | cons leaf rest =>
      rw [keyRedistribute]
      refine ⟨by rw [List.flatten_cons, (ih rest).1, List.flatten_cons], fun hne l hin => ?_⟩
      obtain rfl | hin := List.mem_cons.mp hin
      · exact hne l (by simp)
      · exact (ih rest).2 (fun l' h => hne l' (by simp [h])) l hin

/-- A leaf that is searched in full has the row, or it is left as it is. -/
theorem freeSlotByLeafFullScan_of_not_mem {aRow : Row κ} {leaves : List (List (Row κ))}
    (hnot : aRow ∉ leaves.flatten) : freeSlotByLeafFullScan aRow leaves = none := by
  induction leaves with
  | nil => rfl
  | cons leaf rest ih =>
    rw [List.flatten_cons, List.mem_append, not_or] at hnot
    rw [freeSlotByLeafFullScan, if_neg hnot.1, ih hnot.2]
    rfl

end Order

/-! ## §4. What the two functions count. -/

section Count

variable {κ : Type} [LinearOrder κ] (h : StatHeader κ)

/-- **The distinct key values of the rows that are not entirely NULL.** -/
def numDist (rows : List (Row κ)) : Nat :=
  distinct (fun key => !isNullKey h key) (rows.map (·.key))

/-- A neighbour that is looked at has the key of the row. -/
def seen (p : Place κ) (row : Row κ) : Bool :=
  (prevRow h p).any (·.key = row.key) || (nextRow h p).any (·.key = row.key)

theorem compareRows_pos_iff (r s : Row κ) : 0 < compareRows (some r) (some s) ↔ s.key < r.key := by
  show 0 < compareKey r.key s.key ↔ _
  unfold compareKey
  split_ifs with h1 h2
  · simp [le_of_lt h1]
  · simp [h2]
  · simp [h2]

variable {h} {p : Place κ} {row : Row κ}

omit [LinearOrder κ] in
theorem prevRow_mem {r : Row κ} (hr : prevRow h p = some r) : r ∈ p.lower := by
  unfold prevRow at hr
  unfold Place.lower
  cases hl : p.left.getLast? with
  | some last =>
    rw [hl] at hr
    cases hr
    exact List.mem_append_right _ (List.mem_of_getLast? hl)
  | none =>
    rw [hl] at hr
    dsimp only at hr
    split_ifs at hr
    obtain ⟨leaf, hleaf, hlast⟩ := Option.bind_eq_some_iff.mp hr
    exact List.mem_append_left _
      (List.mem_flatten_of_mem (List.mem_of_getLast? hleaf) (List.mem_of_getLast? hlast))

omit [LinearOrder κ] in
theorem nextRow_mem {r : Row κ} (hr : nextRow h p = some r) : r ∈ p.upper := by
  unfold nextRow at hr
  unfold Place.upper
  cases hl : p.right.head? with
  | some first =>
    rw [hl] at hr
    cases hr
    exact List.mem_append_left _ (List.mem_of_mem_head? hl)
  | none =>
    rw [hl] at hr
    dsimp only at hr
    split_ifs at hr
    obtain ⟨leaf, hleaf, hfirst⟩ := Option.bind_eq_some_iff.mp hr
    exact List.mem_append_right _
      (List.mem_flatten_of_mem (List.mem_of_mem_head? hleaf) (List.mem_of_mem_head? hfirst))

/-- One comparison of `compareNeighbours` with a row that is not behind. -/
theorem compareRows_prev {row r : Row κ} (hle : r.key ≤ row.key) (rest : Option Bool) :
    (if compareRows (some row) (some r) = 0 then some true
      else if 0 < compareRows (some row) (some r) then rest else none) =
    if r.key = row.key then some true else rest := by
  have hzero : compareRows (some row) (some r) = 0 ↔ r.key = row.key :=
    (compareKey_eq_zero_iff _ _).trans eq_comm
  by_cases hk : r.key = row.key
  · rw [if_pos (hzero.mpr hk), if_pos hk]
  · have hlt : r.key < row.key := lt_of_le_of_ne hle hk
    rw [if_neg (mt hzero.mp hk), if_pos ((compareRows_pos_iff row r).mpr hlt), if_neg hk]

/-- One comparison of `compareNeighbours` with a row that is not before. -/
theorem compareRows_next {row r : Row κ} (hle : row.key ≤ r.key) :
    (if compareRows (some row) (some r) = 0 then some true
      else if compareRows (some row) (some r) < 0 then some false else none) =
    if r.key = row.key then some true else some false := by
  have hzero : compareRows (some row) (some r) = 0 ↔ r.key = row.key :=
    (compareKey_eq_zero_iff _ _).trans eq_comm
  by_cases hk : r.key = row.key
  · rw [if_pos (hzero.mpr hk), if_pos hk]
  · have hlt : row.key < r.key := lt_of_le_of_ne hle (Ne.symm hk)
    have hneg : compareRows (some row) (some r) < 0 := (compareKey_neg_iff _ _).mpr hlt
    rw [if_neg (mt hzero.mp hk), if_pos hneg, if_neg hk]

/-- **In order, the neighbours are never found wrong**, and they tell what is seen. -/
theorem PlaceOf.compareNeighbours_eq (hp : PlaceOf row p) :
    compareNeighbours row (prevRow h p) (nextRow h p) = some (seen h p row) := by
  have hprev : ∀ r, prevRow h p = some r → r.key ≤ row.key := fun r hr =>
    rank_some_le_key (le_of_lt (hp.below r (prevRow_mem hr)))
  have hnext : ∀ r, nextRow h p = some r → row.key ≤ r.key := fun r hr =>
    rank_some_le_key (le_of_lt (hp.above r (nextRow_mem hr)))
  unfold compareNeighbours seen
  cases hn : nextRow h p with
  | none =>
    cases hp' : prevRow h p with
    | none => rfl
    | some r =>
      dsimp only [Option.any_some, Option.any_none]
      rw [compareRows_prev (hprev r hp'), Bool.or_false]
      by_cases hk : r.key = row.key <;> simp [hk]
  | some s =>
    dsimp only [Option.any_some]
    rw [compareRows_next (hnext s hn)]
    cases hp' : prevRow h p with
    | none => by_cases hk : s.key = row.key <;> simp [hk]
    | some r =>
      dsimp only [Option.any_some]
      rw [compareRows_prev (hprev r hp')]
      by_cases hk : r.key = row.key
      · simp [hk]
      · by_cases hk' : s.key = row.key <;> simp [hk, hk']

/-- A neighbour that has the key is another row with the key. -/
theorem mem_of_seen (hs : seen h p row = true) : row.key ∈ (p.lower ++ p.upper).map (·.key) := by
  unfold seen at hs
  rw [Bool.or_eq_true, Option.any_eq_true, Option.any_eq_true] at hs
  rw [List.mem_map]
  obtain ⟨r, hr, hk⟩ | ⟨r, hr, hk⟩ := hs
  · exact ⟨r, List.mem_append_left _ (prevRow_mem hr), of_decide_eq_true hk⟩
  · exact ⟨r, List.mem_append_right _ (nextRow_mem hr), of_decide_eq_true hk⟩

omit [LinearOrder κ] in
theorem getLast?_flatten {leaves : List (List (Row κ))} (hne : ∀ leaf ∈ leaves, leaf ≠ []) :
    leaves.flatten.getLast? = leaves.getLast?.bind (·.getLast?) := by
  obtain rfl | ⟨init, last, rfl⟩ := List.eq_nil_or_concat leaves
  · rfl
  · rw [List.concat_eq_append] at hne ⊢
    have hlast : last ≠ [] := hne last (by simp)
    rw [List.flatten_append, List.flatten_singleton, List.getLast?_concat, Option.bind_some,
      List.getLast?_append_of_ne_nil _ hlast]

omit [LinearOrder κ] in
theorem head?_flatten {leaves : List (List (Row κ))} (hne : ∀ leaf ∈ leaves, leaf ≠ []) :
    leaves.flatten.head? = leaves.head?.bind (·.head?) := by
  cases leaves with
  | nil => rfl
  | cons first rest =>
    have hfirst : first ≠ [] := hne first (by simp)
    rw [List.flatten_cons, List.head?_cons, Option.bind_some, List.head?_append_of_ne_nil _ hfirst]

/-- With all leaves in sight the neighbours are those of the whole index. -/
theorem PlaceOf.neighbours_eq (hp : PlaceOf row p) (hskip : h.skipNodeBound = false) :
    prevRow h p = p.lower.getLast? ∧ nextRow h p = p.upper.head? := by
  unfold prevRow nextRow Place.lower Place.upper
  rw [List.getLast?_append, List.head?_append, getLast?_flatten hp.before_ne,
    head?_flatten hp.after_ne, hskip]
  constructor
  · cases p.left.getLast? <;> rfl
  · cases p.right.head? <;> rfl

/-- **With all leaves in sight an equal key is seen.** -/
theorem PlaceOf.seen_iff (hp : PlaceOf row p) (hskip : h.skipNodeBound = false)
    (hs : (p.lower ++ p.upper).Pairwise fun r s => rank (some r) < rank (some s)) :
    seen h p row = true ↔ row.key ∈ (p.lower ++ p.upper).map (·.key) := by
  refine ⟨mem_of_seen, fun hin => ?_⟩
  have hkeys : (p.lower.map (·.key) ++ row.key :: p.upper.map (·.key)).Pairwise (· ≤ ·) := by
    have h := (hp.sorted_with hs).map (·.key) fun r s hrs => rank_some_le_key (le_of_lt hrs)
    rwa [List.map_append, List.map_cons] at h
  rw [List.map_append, mem_iff_neighbour hkeys, List.getLast?_map, List.head?_map,
    ← (hp.neighbours_eq hskip).1, ← (hp.neighbours_eq hskip).2] at hin
  unfold seen
  rw [Bool.or_eq_true, Option.any_eq_true, Option.any_eq_true]
  obtain hin | hin := hin
  · obtain ⟨r, hr, hk⟩ := Option.map_eq_some_iff.mp hin
    exact Or.inl ⟨r, hr, decide_eq_true hk⟩
  · obtain ⟨r, hr, hk⟩ := Option.map_eq_some_iff.mp hin
    exact Or.inr ⟨r, hr, decide_eq_true hk⟩

/-- What `distStep` gives at the place of a row. -/
theorem PlaceOf.distStep_eq (hp : PlaceOf row p) (isNull : κ → Bool) :
    distStep h p row isNull =
      some (if (h.isUniqueIndex && h.mIsNotNull) = true then 1
        else if seen h p row = true then 0 else if isNull row.key = true then 0 else 1) := by
  unfold distStep
  rw [hp.compareNeighbours_eq, Option.map_some]
  split_ifs <;> rfl

/-- **What an insertion does to the counters.** -/
theorem PlaceOf.updateStat4Insert_spec (hp : PlaceOf row p) (s : Stat κ) :
    ∃ s', updateStat4Insert h p row s = some s' ∧ s'.mKeyCount = s.mKeyCount + 1 ∧
      s'.mNumDist = s.mNumDist +
        if (h.isUniqueIndex && h.mIsNotNull) = true then 1
        else if seen h p row = true then 0 else if isNullKey h row.key = true then 0 else 1 := by
  unfold updateStat4Insert
  rw [hp.distStep_eq]
  refine ⟨_, rfl, ?_, ?_⟩ <;> dsimp only <;> split_ifs <;> rfl

/-- **What a deletion does to the counters** if the row stands in the slot. -/
theorem PlaceOf.updateStat4Delete_found (hp : PlaceOf row p) (s : Stat κ) :
    ∃ s', updateStat4Delete h p (some row) row s = some s' ∧
      s'.mKeyCount = s.mKeyCount - 1 ∧
      s'.mNumDist = s.mNumDist -
        if isNullKey h row.key = true then 0
        else if (h.isUniqueIndex && h.mIsNotNull) = true then 1
        else if seen h p row = true then 0
        else if h.isNullFirst row.key = true then 0 else 1 := by
  unfold updateStat4Delete
  by_cases hnull : isNullKey h row.key = true
  · rw [if_pos (Or.inr hnull), if_pos hnull]
    exact ⟨_, rfl, rfl, (Int.sub_zero _).symm⟩
  · rw [if_neg (by simp [hnull]), if_neg hnull, hp.distStep_eq]
    refine ⟨_, rfl, ?_, ?_⟩ <;> dsimp only <;> split_ifs <;> rfl

omit h p in
/-- A row that is not in its slot is counted down all the same. -/
theorem updateStat4Delete_not_found (h : StatHeader κ) (p : Place κ) {found : Option (Row κ)}
    (hnot : found ≠ some row) (s : Stat κ) :
    updateStat4Delete h p found row s = some { s with mKeyCount := s.mKeyCount - 1 } := by
  unfold updateStat4Delete
  rw [if_pos (Or.inl hnot)]
  rfl

end Count

/-! ## §5. One call. -/

section Calls

variable {κ : Type} [LinearOrder κ] (h : StatHeader κ)

/-- Where `insertRow` puts a row. -/
def newPlace (aRow : Row κ) (x : Index κ) : Place κ :=
  match findPosition aRow x.leaves with
  | none => ⟨[], [], [], []⟩
  | some (before, leaf, after) => insertPlace h aRow before leaf after

/-- What stands around the slot that `freeSlot` finds. -/
def slotPlace (aRow : Row κ) (x : Index κ) : Place κ :=
  match findPosition aRow x.leaves with
  | none => ⟨[], [], [], []⟩
  | some (before, leaf, after) =>
      ⟨before, (splitAtSlot aRow leaf).1, (splitAtSlot aRow leaf).2.tail, after⟩

/-- The call of `insertRow` brings a row in. -/
def enters (x : Index κ) (aRow : Row κ) (unique : Bool) : Bool :=
  decide (aRow ∉ x.rows) && (decide (x.leaves = []) || unique)

variable {h} {x : Index κ} {aRow : Row κ}

theorem newPlace_spec (ho : Ordered x.leaves) (hnot : aRow ∉ x.rows) :
    PlaceOf aRow (newPlace h aRow x) ∧
      x.rows = (newPlace h aRow x).lower ++ (newPlace h aRow x).upper := by
  unfold newPlace
  cases hf : findPosition aRow x.leaves with
  | none =>
    have hleaves := (findPosition_eq_none_iff _ _).mp hf
    refine ⟨⟨?_, ?_, ?_, ?_⟩, ?_⟩
    any_goals exact fun _ h => absurd h List.not_mem_nil
    rw [Index.rows, hleaves]
    rfl
  | some found =>
    obtain ⟨before, leaf, after⟩ := found
    have hl := findPosition_spec ho hf
    obtain ⟨hlower, hupper⟩ := insertPlace_eq h aRow before leaf after
    exact ⟨insertPlace_new hl ho hnot, by rw [hlower, hupper]; exact hl.rows_eq⟩

theorem slotPlace_spec (ho : Ordered x.leaves) (hin : aRow ∈ x.rows) :
    PlaceOf aRow (slotPlace aRow x) ∧
      x.rows = (slotPlace aRow x).lower ++ aRow :: (slotPlace aRow x).upper := by
  unfold slotPlace
  cases hf : findPosition aRow x.leaves with
  | none =>
    rw [Index.rows, (findPosition_eq_none_iff _ _).mp hf] at hin
    exact absurd hin List.not_mem_nil
  | some found =>
    obtain ⟨before, leaf, after⟩ := found
    exact (findPosition_spec ho hf).place_old ho hin

/-- `insertRow` of a row that does not enter. -/
theorem insertRow_out (ho : Ordered x.leaves) {unique : Bool}
    (hout : enters x aRow unique = false) : (insertRow h aRow unique x).1 = x := by
  unfold insertRow
  cases hf : findPosition aRow x.leaves with
  | none =>
    have hleaves := (findPosition_eq_none_iff _ _).mp hf
    simp [enters, Index.rows, hleaves] at hout
  | some found =>
    obtain ⟨before, leaf, after⟩ := found
    have hne : x.leaves ≠ [] := fun h => by simp [(findPosition_eq_none_iff aRow _).mpr h] at hf
    have hmem := (findPosition_spec ho hf).mem_iff ho
    dsimp only
    by_cases hin : aRow ∈ x.rows
    · rw [if_pos (hmem.mp hin)]
    · have huniq : unique = false := by simpa [enters, hin, hne] using hout
      rw [if_neg (mt hmem.mpr hin), if_pos huniq]

/-- **`insertRow` of a row that enters**: it is put into its place and counted. -/
theorem insertRow_in (ho : Ordered x.leaves) {unique : Bool}
    (hin : enters x aRow unique = true) :
    ∃ s, updateStat4Insert h (newPlace h aRow x) aRow x.stat = some s ∧
      (insertRow h aRow unique x).1 = ⟨(newPlace h aRow x).withRow aRow, s⟩ := by
  unfold enters at hin
  rw [Bool.and_eq_true, Bool.or_eq_true, decide_eq_true_eq, decide_eq_true_eq] at hin
  obtain ⟨s, hs, _⟩ := (newPlace_spec (h := h) ho hin.1).1.updateStat4Insert_spec (h := h) x.stat
  refine ⟨s, hs, ?_⟩
  unfold insertRow
  unfold newPlace at hs ⊢
  cases hf : findPosition aRow x.leaves with
  | none =>
    rw [hf] at hs
    dsimp only at hs ⊢
    rw [hs]
    rfl
  | some found =>
    obtain ⟨before, leaf, after⟩ := found
    have hne : x.leaves ≠ [] := fun h => by simp [(findPosition_eq_none_iff aRow _).mpr h] at hf
    have hmem := (findPosition_spec ho hf).mem_iff ho
    rw [hf] at hs
    dsimp only at hs ⊢
    rw [if_neg (mt hmem.mpr hin.1), if_neg (by simp [hin.2.resolve_left hne]), hs]

theorem freeSlot_empty (hleaves : x.leaves = []) (ignore : Bool) :
    (freeSlot h aRow ignore x).1 = x := by
  unfold freeSlot
  rw [hleaves]
  rfl

/-- **`freeSlot` of a row of the index**: it is counted off and taken out. -/
theorem freeSlot_in (ho : Ordered x.leaves) (hin : aRow ∈ x.rows) (ignore : Bool) :
    ∃ s, updateStat4Delete h (slotPlace aRow x) (some aRow) aRow x.stat = some s ∧
      (freeSlot h aRow ignore x).1 = ⟨(slotPlace aRow x).withoutRow, s⟩ := by
  obtain ⟨s, hs, _⟩ := (slotPlace_spec ho hin).1.updateStat4Delete_found (h := h) x.stat
  refine ⟨s, hs, ?_⟩
  unfold freeSlot
  unfold slotPlace at hs ⊢
  cases hf : findPosition aRow x.leaves with
  | none =>
    rw [Index.rows, (findPosition_eq_none_iff _ _).mp hf] at hin
    exact absurd hin List.not_mem_nil
  | some found =>
    obtain ⟨before, leaf, after⟩ := found
    have hhead := ((findPosition_spec ho hf).mem_iff ho).mp hin
    rw [hf] at hs
    dsimp only at hs ⊢
    rw [hhead, hs]
    dsimp only
    rw [if_pos rfl]

/-- **`freeSlot` of another row**: the leaves stay, the row is counted off. -/
theorem freeSlot_out (ho : Ordered x.leaves) (hne : x.leaves ≠ []) (hnot : aRow ∉ x.rows)
    (ignore : Bool) :
    (freeSlot h aRow ignore x).1 =
      ⟨x.leaves, { x.stat with mKeyCount := x.stat.mKeyCount - 1 }⟩ := by
  unfold freeSlot
  cases hf : findPosition aRow x.leaves with
  | none => exact absurd ((findPosition_eq_none_iff _ _).mp hf) hne
  | some found =>
    obtain ⟨before, leaf, after⟩ := found
    have hhead := mt ((findPosition_spec ho hf).mem_iff ho).mpr hnot
    dsimp only
    rw [updateStat4Delete_not_found h _ hhead]
    dsimp only
    rw [if_neg hhead]
    split_ifs with hignore
    · rfl
    · rw [freeSlotByLeafFullScan_of_not_mem hnot]

/-- **Whatever is called, the leaves stay in order.** -/
theorem Ordered.apply (ho : Ordered x.leaves) (c : Call κ) : Ordered (apply h x c).leaves := by
  cases c with
  | insertRow aRow unique =>
    show Ordered (IndexStat.insertRow h aRow unique x).1.leaves
    cases hin : enters x aRow unique with
    | false =>
      rw [insertRow_out ho hin]
      exact ho
    | true =>
      obtain ⟨s, _, heq⟩ := insertRow_in (h := h) ho hin
      have hnot : aRow ∉ x.rows := by simp [enters] at hin; exact hin.1
      obtain ⟨hp, hrows⟩ := newPlace_spec (h := h) ho hnot
      rw [heq]
      exact hp.ordered_with (by rw [← hrows]; exact ho.sorted)
  | freeSlot aRow ignore =>
    show Ordered (IndexStat.freeSlot h aRow ignore x).1.leaves
    by_cases hleaves : x.leaves = []
    · rw [freeSlot_empty hleaves]
      exact ho
    · by_cases hin : aRow ∈ x.rows
      · obtain ⟨s, _, heq⟩ := freeSlot_in (h := h) ho hin ignore
        obtain ⟨hp, hrows⟩ := slotPlace_spec ho hin
        have hsorted := ho.sorted
        rw [← Index.rows, hrows] at hsorted
        rw [heq]
        exact hp.ordered_without (hsorted.sublist (by simp))
      · rw [freeSlot_out ho hleaves hin]
        exact ho
  | keyRedistribute node count =>
    obtain ⟨hflat, hne⟩ := keyRedistribute_spec count node x.leaves
    exact ⟨hne ho.nonempty, by
      show (IndexStat.keyRedistribute count node x.leaves).flatten.Pairwise _
      rw [hflat]
      exact ho.sorted⟩

end Calls

/-! ## §6. Where the counters stay right. -/

section Right

variable {κ : Type} [LinearOrder κ] (h : StatHeader κ)

/-- **The counters are right**: all rows are counted; a primary key counts its rows
    once more, every other index its distinct keys that are not entirely NULL. -/
structure Counts (x : Index κ) : Prop where
  keyCount : x.stat.mKeyCount = x.rows.length
  numDist : x.stat.mNumDist =
    if (h.isUniqueIndex && h.mIsNotNull) = true then (x.rows.length : Int)
    else numDist h x.rows

/-- The neighbours that could have the key of the row are in sight. -/
def inSight (p : Place κ) (row : Row κ) : Bool := !h.skipNodeBound || seen h p row

/-- A key that comes in is entirely NULL, or new, or seen in a neighbour. -/
def insertFits (x : Index κ) (aRow : Row κ) : Bool :=
  isNullKey h aRow.key || decide (aRow.key ∉ x.rows.map (·.key)) ||
    inSight h (newPlace h aRow x) aRow

/-- A key that goes is entirely NULL; or another row has it, and that is seen or not
    asked for; or it goes for good, and its first column is not NULL. -/
def freeFits (x : Index κ) (aRow : Row κ) : Bool :=
  isNullKey h aRow.key ||
    if aRow.key ∈ (x.rows.erase aRow).map (·.key) then
      h.isNullFirst aRow.key || inSight h (slotPlace aRow x) aRow
    else !h.isNullFirst aRow.key

/-- **The calls that keep the counters right.** -/
def stepFits (x : Index κ) : Call κ → Bool
  | .insertRow aRow unique =>
      !enters x aRow unique || (h.isUniqueIndex && h.mIsNotNull) || insertFits h x aRow
  | .freeSlot aRow _ =>
      decide (x.leaves = []) || decide (aRow ∈ x.rows) &&
        if (h.isUniqueIndex && h.mIsNotNull) = true then !isNullKey h aRow.key
        else freeFits h x aRow
  | .keyRedistribute _ _ => true

variable {h} {x : Index κ}

/-- By how much a row changes the distinct keys of the others. -/
def distDelta (h : StatHeader κ) (others : List (Row κ)) (row : Row κ) : Int :=
  if isNullKey h row.key = false ∧ row.key ∉ others.map (·.key) then 1 else 0

/-- One row more, or one row less, in the distinct keys. -/
theorem numDist_insert (lower upper : List (Row κ)) (row : Row κ) :
    (numDist h (lower ++ row :: upper) : Int) =
      numDist h (lower ++ upper) + distDelta h (lower ++ upper) row := by
  unfold numDist distDelta
  rw [List.map_append, List.map_cons, distinct_insert, List.map_append]
  simp only [Bool.not_eq_eq_eq_not, Bool.not_true]
  split_ifs <;> rfl

section Delta

variable {p : Place κ} {row : Row κ}

/-- What the neighbours show of the key of a row, whatever is in sight. -/
theorem PlaceOf.seen_eq (hp : PlaceOf row p)
    (hs : (p.lower ++ p.upper).Pairwise fun r s => rank (some r) < rank (some s)) :
    seen h p row =
      (inSight h p row && decide (row.key ∈ (p.lower ++ p.upper).map (·.key))) := by
  rw [Bool.eq_iff_iff, Bool.and_eq_true, decide_eq_true_eq]
  refine ⟨fun hseen => ⟨by simp [inSight, hseen], mem_of_seen hseen⟩, fun ⟨hsight, hin⟩ => ?_⟩
  unfold inSight at hsight
  rw [Bool.or_eq_true, Bool.not_eq_true'] at hsight
  obtain hskip | hseen := hsight
  · exact (hp.seen_iff hskip hs).mpr hin
  · exact hseen

/-- **Where insertion adds what the row adds.** -/
theorem PlaceOf.insert_delta_iff (hp : PlaceOf row p)
    (hs : (p.lower ++ p.upper).Pairwise fun r s => rank (some r) < rank (some s)) :
    (if seen h p row = true then (0 : Int) else if isNullKey h row.key = true then 0 else 1) =
        distDelta h (p.lower ++ p.upper) row ↔
      (isNullKey h row.key || decide (row.key ∉ (p.lower ++ p.upper).map (·.key)) ||
        inSight h p row) = true := by
  unfold distDelta
  rw [hp.seen_eq hs]
  generalize (p.lower ++ p.upper).map (·.key) = keys
  by_cases hmem : row.key ∈ keys
  · cases isNullKey h row.key <;> cases inSight h p row <;> simp [hmem]
  · cases isNullKey h row.key <;> simp [hmem]

/-- **Where deletion takes off what the row had added.** -/
theorem PlaceOf.delete_delta_iff (hp : PlaceOf row p)
    (hs : (p.lower ++ p.upper).Pairwise fun r s => rank (some r) < rank (some s)) :
    (if isNullKey h row.key = true then (0 : Int) else if seen h p row = true then 0
      else if h.isNullFirst row.key = true then 0 else 1) =
        distDelta h (p.lower ++ p.upper) row ↔
      (isNullKey h row.key ||
        if row.key ∈ (p.lower ++ p.upper).map (·.key) then
          h.isNullFirst row.key || inSight h p row
        else !h.isNullFirst row.key) = true := by
  unfold distDelta
  rw [hp.seen_eq hs]
  generalize (p.lower ++ p.upper).map (·.key) = keys
  by_cases hmem : row.key ∈ keys
  · cases isNullKey h row.key <;> cases inSight h p row <;> cases h.isNullFirst row.key <;>
      simp [hmem]
  · cases isNullKey h row.key <;> cases h.isNullFirst row.key <;> simp [hmem]

end Delta

/-- The counters are right when both counts are, each by its own rule. -/
theorem counts_iff {leaves : List (List (Row κ))} {s : Stat κ} {n d : Int}
    (hlength : (leaves.flatten.length : Int) = n) (hdist : (numDist h leaves.flatten : Int) = d) :
    Counts h ⟨leaves, s⟩ ↔ s.mKeyCount = n ∧
      s.mNumDist = if (h.isUniqueIndex && h.mIsNotNull) = true then n else d := by
  rw [← hlength, ← hdist]
  exact ⟨fun hc => ⟨hc.keyCount, hc.numDist⟩, fun hc => ⟨hc.1, hc.2⟩⟩

theorem counts_insertRow_iff (ho : Ordered x.leaves) (hc : Counts h x) (aRow : Row κ)
    (unique : Bool) :
    Counts h (apply h x (.insertRow aRow unique)) ↔
      stepFits h x (.insertRow aRow unique) = true := by
  show Counts h (insertRow h aRow unique x).1 ↔
    (!enters x aRow unique || (h.isUniqueIndex && h.mIsNotNull) || insertFits h x aRow) = true
  cases hin : enters x aRow unique with
  | false =>
    rw [insertRow_out ho hin]
    exact iff_of_true hc (by simp)
  | true =>
    have hnot : aRow ∉ x.rows := by
      simp only [enters, Bool.and_eq_true, decide_eq_true_eq] at hin
      exact hin.1
    -- the row comes between two neighbours
    obtain ⟨hp, hrows⟩ := newPlace_spec (h := h) ho hnot
    obtain ⟨s, hs, heq⟩ := insertRow_in (h := h) ho hin
    obtain ⟨s', hs', hkey, hdist⟩ := hp.updateStat4Insert_spec (h := h) x.stat
    obtain rfl : s = s' := Option.some_inj.mp (hs.symm.trans hs')
    have hsorted := ho.sorted
    rw [← Index.rows, hrows] at hsorted
    have hlength : ((((newPlace h aRow x).withRow aRow).flatten.length : Nat) : Int) =
        x.rows.length + 1 := by
      rw [withRow_flatten, hrows]
      simp only [List.length_append, List.length_cons]
      omega
    have hcount : (numDist h ((newPlace h aRow x).withRow aRow).flatten : Int) =
        numDist h x.rows + distDelta h x.rows aRow := by
      rw [withRow_flatten, numDist_insert, ← hrows]
    have hdelta := hp.insert_delta_iff (h := h) hsorted
    have hdists := hc.numDist
    rw [← hrows] at hdelta
    rw [heq, counts_iff hlength hcount, hkey, hc.keyCount, hdist, hdists]
    rw [Bool.not_true, Bool.false_or, and_iff_right rfl]
    -- on a primary key the code counts every row as distinct
    by_cases hprimary : (h.isUniqueIndex && h.mIsNotNull) = true
    · rw [if_pos hprimary, if_pos hprimary, if_pos hprimary, hprimary, Bool.true_or]
      exact iff_of_true rfl rfl
    · rw [if_neg hprimary, if_neg hprimary, if_neg hprimary, Bool.eq_false_iff.mpr hprimary,
        Bool.false_or, insertFits, ← hdelta]
      exact Int.add_right_inj _

theorem counts_freeSlot_iff (ho : Ordered x.leaves) (hc : Counts h x) (aRow : Row κ)
    (ignore : Bool) :
    Counts h (apply h x (.freeSlot aRow ignore)) ↔
      stepFits h x (.freeSlot aRow ignore) = true := by
  show Counts h (freeSlot h aRow ignore x).1 ↔ (decide (x.leaves = []) || decide (aRow ∈ x.rows) &&
    if (h.isUniqueIndex && h.mIsNotNull) = true then !isNullKey h aRow.key
    else freeFits h x aRow) = true
  by_cases hleaves : x.leaves = []
  · rw [freeSlot_empty hleaves]
    exact iff_of_true hc (by simp [hleaves])
  rw [decide_eq_false hleaves, Bool.false_or]
  by_cases hin : aRow ∈ x.rows
  · obtain ⟨hp, hrows⟩ := slotPlace_spec ho hin
    obtain ⟨s, hs, heq⟩ := freeSlot_in (h := h) ho hin ignore
    obtain ⟨s', hs', hkey, hdist⟩ := hp.updateStat4Delete_found (h := h) x.stat
    obtain rfl : s = s' := Option.some_inj.mp (hs.symm.trans hs')
    have hsorted := ho.sorted
    rw [← Index.rows, hrows] at hsorted
    have hlower : aRow ∉ (slotPlace aRow x).lower := fun h => lt_irrefl _ (hp.below aRow h)
    have hothers : x.rows.erase aRow = (slotPlace aRow x).lower ++ (slotPlace aRow x).upper := by
      rw [hrows, List.erase_append_right _ hlower, List.erase_cons_head]
    have hlength : (((slotPlace aRow x).withoutRow.flatten.length : Nat) : Int) =
        x.rows.length - 1 := by
      rw [withoutRow_flatten, hrows]
      simp only [List.length_append, List.length_cons]
      omega
    have hcount : (numDist h (slotPlace aRow x).withoutRow.flatten : Int) =
        numDist h x.rows - distDelta h (x.rows.erase aRow) aRow := by
      rw [withoutRow_flatten, hothers, hrows, numDist_insert]
      omega
    have hdelta := hp.delete_delta_iff (h := h) (hsorted.sublist (by simp))
    have hdists := hc.numDist
    rw [← hothers] at hdelta
    rw [heq, counts_iff hlength hcount, hkey, hc.keyCount, hdist, hdists, decide_eq_true hin]
    rw [Bool.true_and, and_iff_right rfl]
    by_cases hprimary : (h.isUniqueIndex && h.mIsNotNull) = true
    · simp only [hprimary, if_true]
      cases isNullKey h aRow.key with
      | false => simp
      | true =>
        simp only [if_true, Bool.not_true, Bool.false_eq_true, iff_false]
        omega
    · rw [if_neg hprimary, if_neg hprimary, if_neg hprimary, if_neg hprimary, freeFits, ← hdelta]
      exact Int.sub_right_inj _
  · -- the row is not there, and is counted off
    rw [freeSlot_out ho hleaves hin]
    refine iff_of_false (fun hc' => ?_) (by simp [hin])
    have hkey := hc'.keyCount
    have hrows : (⟨x.leaves, { x.stat with mKeyCount := x.stat.mKeyCount - 1 }⟩ :
      Index κ).rows = x.rows := rfl
    rw [hrows, ← hc.keyCount] at hkey
    dsimp only at hkey
    omega

/-- **Right counters stay right under exactly the fitting calls.** -/
theorem counts_apply_iff (ho : Ordered x.leaves) (hc : Counts h x) (c : Call κ) :
    Counts h (apply h x c) ↔ stepFits h x c = true := by
  cases c with
  | insertRow aRow unique => exact counts_insertRow_iff ho hc aRow unique
  | freeSlot aRow ignore => exact counts_freeSlot_iff ho hc aRow ignore
  | keyRedistribute node count =>
    have hflat := (keyRedistribute_spec count node x.leaves).1
    refine iff_of_true ?_ rfl
    show Counts h ⟨keyRedistribute count node x.leaves, x.stat⟩
    rw [counts_iff (congrArg (fun rows : List (Row κ) => (rows.length : Int)) hflat)
      (congrArg (fun rows => (numDist h rows : Int)) hflat)]
    exact ⟨hc.keyCount, hc.numDist⟩

/-! ## §7. Runs. -/

/-- **INDEX STATISTICS ARE RIGHT ON EVERY RUN OF FITTING CALLS**: all rows are
    counted, and the distinct keys that are not entirely NULL; a primary key counts
    its rows for the distinct keys. -/
theorem indexStat_reachable
    (hr : (indexStat h).ReachableBy (fun y c => stepFits h y c = true) x) :
    x.stat.mKeyCount = x.rows.length ∧
      x.stat.mNumDist =
        if (h.isUniqueIndex && h.mIsNotNull) = true then (x.rows.length : Int)
        else numDist h x.rows := by
  have hinv : Ordered x.leaves ∧ Counts h x := by
    refine System.Path.invariant (I := fun y => Ordered y.leaves ∧ Counts h y) hr ?_ ?_
    · intro y c z hy hfits hstep
      obtain rfl := Option.some_inj.mp hstep
      exact ⟨hy.1.apply c, (counts_apply_iff hy.1 hy.2 c).mpr hfits⟩
    · refine ⟨ordered_nil, rfl, ?_⟩
      split_ifs <;> rfl
  exact ⟨hinv.2.keyCount, hinv.2.numDist⟩

end Right

/-! ### Two columns. -/

/-- A header for keys of two digits, where 9 stands for NULL, with small leaves. -/
def twoDigits (unique skip : Bool) : StatHeader Nat where
  isNullFirst key := key / 10 = 9
  isNullRest := [fun key => key % 10 = 9]
  isUniqueIndex := unique
  mIsNotNull := unique
  slotMaxCount := 2
  slotSplitCount := 1
  skipNodeBound := skip
  split_pos := by decide
  split_lt := by decide

/-- Keys that are equal, partly NULL and entirely NULL come in; an equal one and
    the one that is entirely NULL go again. -/
def twoDigitCalls : List (Call Nat) :=
  [.insertRow ⟨11, 1⟩ true, .insertRow ⟨12, 2⟩ true, .insertRow ⟨12, 3⟩ true,
    .insertRow ⟨99, 4⟩ true, .insertRow ⟨19, 5⟩ true, .insertRow ⟨91, 6⟩ true,
    .freeSlot ⟨12, 2⟩ false, .freeSlot ⟨99, 4⟩ false]

theorem indexStat_reachable_twoDigits :
    let h := twoDigits false false
    let x := ((indexStat h).restrict (stepFits h)).after twoDigitCalls (by decide)
    x.stat.mKeyCount = x.rows.length ∧
      x.stat.mNumDist =
        if (h.isUniqueIndex && h.mIsNotNull) = true then (x.rows.length : Int)
        else numDist h x.rows :=
  indexStat_reachable (System.path_of_restrict twoDigitCalls (Option.some_get _).symm)

/-- Two versions with one key in a primary key, and one key on both sides of the end
    of a leaf where the other leaf is not looked at. -/
theorem indexStat_counts_equal_keys :
    (let h := twoDigits true true
     let x := (indexStat h).after [.insertRow ⟨11, 1⟩ true, .insertRow ⟨11, 2⟩ true] (by decide)
     x.stat.mNumDist = 2 ∧ numDist h x.rows = 1) ∧
    (let h := twoDigits false true
     let x := (indexStat h).after
      [.insertRow ⟨15, 1⟩ true, .insertRow ⟨17, 1⟩ true, .insertRow ⟨18, 1⟩ true,
        .insertRow ⟨17, 2⟩ true, .insertRow ⟨18, 0⟩ true, .insertRow ⟨17, 3⟩ true] (by decide)
     x.stat.mNumDist = 4 ∧ numDist h x.rows = 3) := by
  decide

end Altibase.Smnb.IndexStat
