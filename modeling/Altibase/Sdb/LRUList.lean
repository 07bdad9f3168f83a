/-
  Altibase.Sdb.LRUList
  ────────────────────
  **THE HOT-COLD LRU LIST OF THE BUFFER POOL** (`sdbLRUList`).

  One circular list holds a hot part and behind it a cold part.  `mMid` points
  at the last hot buffer, or at the header if no buffer is hot; the two lengths
  are counted, and every buffer records in which part of which list it is.

    * `LRUConsistent` — the list as the code means it;
    * `consistent_addToHot`, `consistent_insertBCB2BehindMid`,
      `consistent_removeColdLast`, `consistent_removeBCB`,
      `consistent_moveMidPtrForward`, `consistent_setHotMax` — what each
      operation does to the two parts;
    * `lruList_reachable` — every reachable state is consistent and no operation
      fails.
-/

import Altibase.Lib.Ring
import Altibase.Lib.System
import Mathlib.Data.List.Induction
import Mathlib.Tactic.SplitIfs
import Mathlib.Algebra.Group.Nat.Defs

namespace Altibase.Sdb

open Altibase.Lib

/-! ## §1. The list. -/

/-- `mBCBListType`. -/
inductive BCBListType where
  | noList | lruHot | lruCold | prepareList | flushList | delayedFlushList
  deriving DecidableEq, Repr

/-- `SDB_BCB_LIST_NONE`. -/
def bcbListNone : Nat := 2 ^ 32 - 1

/-- The fields of `sdbBCB` that the list uses. -/
structure ListBCB where
  mBCBListType : BCBListType
  mBCBListNo : Nat
  mTouchCnt : Nat
  deriving DecidableEq, Repr

/-- A node of the list: `mBase`, or the item of a BCB. -/
inductive ListItem where
  | base
  | bcb (p : Nat)
  deriving DecidableEq, Repr

/-- **`sdbLRUList`**, with the BCBs and their list items. -/
structure LRUList where
  mID : Nat
  node : ListItem → Link ListItem
  bcb : Nat → ListBCB
  mMid : ListItem
  mHotLength : Nat
  mHotMax : Nat
  mColdLength : Nat

namespace LRUList

/-- The list after `initialize`. -/
def initList (aListID aHotMax : Nat) (bcb : Nat → ListBCB) : LRUList where
  mID := aListID
  node := fun r => match r with
    | .base => ⟨some .base, some .base⟩
    | .bcb _ => ⟨none, none⟩
  bcb := bcb
  mMid := .base
  mHotLength := 0
  mHotMax := if aHotMax = 0 then 1 else aHotMax
  mColdLength := 0

/-- `SDB_MAKE_BCB_COLD`; the header has no BCB. -/
def makeBCBCold (s : LRUList) : ListItem → Option LRUList
  | .base => none
  | .bcb p => some { s with
      bcb := Function.update s.bcb p
        { s.bcb p with mTouchCnt := 1, mBCBListType := .lruCold } }

/-- `SDB_INIT_BCB_LIST`. -/
def initBCBList (s : LRUList) (p : Nat) : LRUList := { s with
  node := Function.update s.node (.bcb p) ⟨none, none⟩
  bcb := Function.update s.bcb p
    { s.bcb p with mBCBListType := .noList, mBCBListNo := bcbListNone } }

/-- **`removeColdLast`**; here and below no result stands for a failed assertion
    or a null pointer that is followed. -/
def removeColdLast (s : LRUList) : Option (LRUList × Option Nat) :=
  if s.mColdLength = 0 then some (s, none)
  else do
    let sTarget ← (s.node .base).prev
    let node ← delete s.node sTarget
    match sTarget with
    | .base => none
    | .bcb p =>
      let s := initBCBList { s with node := node } p
      some ({ s with mColdLength := s.mColdLength - 1 }, some p)

/-- The loop of `moveMidPtrForward`. -/
def moveLoop (s : LRUList) : Nat → Option LRUList
  | 0 => some s
  | n + 1 => do
    let s ← s.makeBCBCold s.mMid
    let sPrev ← (s.node s.mMid).prev
    moveLoop { s with mMid := sPrev } n

/-- **`moveMidPtrForward`**. -/
def moveMidPtrForward (s : LRUList) (aMoveCnt : Nat) : Option (LRUList × Nat) := do
  let sMoveCnt := if s.mHotLength < aMoveCnt then s.mHotLength else aMoveCnt
  let s ← s.moveLoop sMoveCnt
  if s.mHotLength < sMoveCnt then none
  else some ({ s with
    mColdLength := s.mColdLength + sMoveCnt
    mHotLength := s.mHotLength - sMoveCnt }, sMoveCnt)

/-- `addToHot`, from where the BCB is linked in: a first hot buffer becomes the
    last one. -/
def setMidOnFirst (s : LRUList) (p : Nat) : Option LRUList :=
  if s.mHotLength = 1 then
    if s.mMid = .base then some { s with mMid := .bcb p } else none
  else some s

/-- `addToHot`, the end: the last hot buffer leaves a part that is too long. -/
def demoteOverflow (s : LRUList) : Option LRUList :=
  if s.mHotLength > s.mHotMax then do
    let s ← s.makeBCBCold s.mMid
    let sPrev ← (s.node s.mMid).prev
    some { s with
      mMid := sPrev, mColdLength := s.mColdLength + 1, mHotLength := s.mHotLength - 1 }
  else some s

/-- **`addToHot`**. -/
def addToHot (s : LRUList) (p : Nat) : Option LRUList :=
  if s.mHotLength > s.mHotMax then none
  else do
    let node ← insertAfter s.node .base (.bcb p)
    let s := { s with
      bcb := Function.update s.bcb p
        { s.bcb p with mBCBListType := .lruHot, mBCBListNo := s.mID }
      node := node
      mHotLength := s.mHotLength + 1 }
    let s ← s.setMidOnFirst p
    s.demoteOverflow

/-- **`insertBCB2BehindMid`**. -/
def insertBCB2BehindMid (s : LRUList) (p : Nat) : Option LRUList := do
  let node ← insertAfter s.node s.mMid (.bcb p)
  some { s with
    bcb := Function.update s.bcb p
      { s.bcb p with mTouchCnt := 1, mBCBListType := .lruCold, mBCBListNo := s.mID }
    mColdLength := s.mColdLength + 1
    node := node }

/-- The test of `removeBCB`: the BCB says that it is in this list. -/
def isListed (s : LRUList) (p : Nat) : Bool :=
  ((s.bcb p).mBCBListType = .lruHot || (s.bcb p).mBCBListType = .lruCold) &&
    (s.bcb p).mBCBListNo = s.mID

/-- **`removeBCB`**. -/
def removeBCB (s : LRUList) (p : Nat) : Option (LRUList × Bool) :=
  if s.isListed p then do
    let s ←
      if (s.bcb p).mBCBListType = .lruHot then do
        let mid ← if s.mMid = .bcb p then (s.node s.mMid).prev else some s.mMid
        some { s with mMid := mid, mHotLength := s.mHotLength - 1 }
      else some { s with mColdLength := s.mColdLength - 1 }
    let node ← delete s.node (.bcb p)
    some (initBCBList { s with node := node } p, true)
  else some (s, false)

/-- **`setHotMax`**. -/
def setHotMax (s : LRUList) (aNewHotMax : Nat) : Option LRUList := do
  let s ←
    if aNewHotMax < s.mHotLength then
      (s.moveMidPtrForward (s.mHotLength - aNewHotMax)).map Prod.fst
    else some s
  some { s with mHotMax := aNewHotMax }

end LRUList

/-! ## §2. The list and its callers. -/

/-- The list, and the BCBs that were added and not yet removed. -/
structure LRUPool where
  list : LRUList
  listed : Nat → Bool

/-- The operations of the list; `other` is what happens to a BCB that is not in
    it. -/
inductive LRUAction where
  | addToHot (p : Nat)
  | insertBCB2BehindMid (p : Nat)
  | removeColdLast
  | removeBCB (p : Nat)
  | moveMidPtrForward (aMoveCnt : Nat)
  | setHotMax (aNewHotMax : Nat)
  | other (p : Nat) (bcb : ListBCB)
  deriving DecidableEq, Repr

/-- What the callers take care of: a BCB that is added is in no list, and one that
    is in no list or another one does not say that it is in this one. -/
def LRUPool.allows (s : LRUPool) : LRUAction → Bool
  | .addToHot p | .insertBCB2BehindMid p => !s.listed p
  | .other p bcb => !s.listed p &&
      !((bcb.mBCBListType = .lruHot || bcb.mBCBListType = .lruCold) &&
        bcb.mBCBListNo = s.list.mID)
  | _ => true

/-- What an operation does, with the BCBs it adds and returns. -/
def LRUPool.apply (s : LRUPool) : LRUAction → Option LRUPool
  | .addToHot p => do
    let list ← s.list.addToHot p
    some ⟨list, Function.update s.listed p true⟩
  | .insertBCB2BehindMid p => do
    let list ← s.list.insertBCB2BehindMid p
    some ⟨list, Function.update s.listed p true⟩
  | .removeColdLast => do
    let (list, sRet) ← s.list.removeColdLast
    match sRet with
    | none => some { s with list := list }
    | some p => some ⟨list, Function.update s.listed p false⟩
  | .removeBCB p => do
    let (list, sRet) ← s.list.removeBCB p
    some ⟨list, if sRet then Function.update s.listed p false else s.listed⟩
  | .moveMidPtrForward aMoveCnt => do
    let (list, _) ← s.list.moveMidPtrForward aMoveCnt
    some { s with list := list }
  | .setHotMax aNewHotMax => do
    let list ← s.list.setHotMax aNewHotMax
    some { s with list := list }
  | .other p bcb =>
    some { s with list := { s.list with bcb := Function.update s.list.bcb p bcb } }

/-- An LRU list that starts empty, over BCBs of which none says that it is in it. -/
def lruSystem (aListID aHotMax : Nat) (bcb : Nat → ListBCB) : System LRUPool LRUAction where
  init := ⟨.initList aListID aHotMax bcb, fun _ => false⟩
  step s a := if s.allows a then s.apply a else none

/-! ## §3. Consistent lists. -/

/-- The last of the buffers `ps`, or the header. -/
def lastItem (ps : List Nat) : ListItem := (ps.map ListItem.bcb).getLastD .base

@[simp] theorem lastItem_nil : lastItem [] = .base := rfl

@[simp] theorem lastItem_concat (ps : List Nat) (p : Nat) : lastItem (ps ++ [p]) = .bcb p := by
  simp [lastItem, List.getLastD_eq_getLast?]

theorem lastItem_append (ps : List Nat) {qs : List Nat} (hne : qs ≠ []) :
    lastItem (ps ++ qs) = lastItem qs := by
  rcases List.eq_nil_or_concat qs with rfl | ⟨rs, p, rfl⟩
  · exact absurd rfl hne
  · rw [List.concat_eq_append, ← List.append_assoc, lastItem_concat, lastItem_concat]

/-- The list with the hot buffers `hot` and the cold buffers `cold`. -/
structure LRUShape (s : LRUList) (listed : Nat → Bool) (hot cold : List Nat) : Prop where
  ring : IsRing s.node .base ((hot ++ cold).map .bcb)
  hotLength : s.mHotLength = hot.length
  coldLength : s.mColdLength = cold.length
  mid : s.mMid = lastItem hot
  isHot : ∀ p ∈ hot, (s.bcb p).mBCBListType = .lruHot ∧ (s.bcb p).mBCBListNo = s.mID
  isCold : ∀ p ∈ cold, (s.bcb p).mBCBListType = .lruCold ∧ (s.bcb p).mBCBListNo = s.mID
  mem_iff : ∀ p, p ∈ hot ++ cold ↔ listed p = true
  unlisted : ∀ p, listed p = false → s.isListed p = false

/-- **The list as the code means it**: the hot part is not too long either. -/
structure LRUConsistent (s : LRUList) (listed : Nat → Bool) (hot cold : List Nat) : Prop
    extends LRUShape s listed hot cold where
  hot_le : s.mHotLength ≤ s.mHotMax

section Shape

variable {s : LRUList} {listed : Nat → Bool} {hot cold h1 h2 : List Nat} {p : Nat}

theorem LRUShape.nodup (c : LRUShape s listed hot cold) : (hot ++ cold).Nodup :=
  (List.nodup_cons.mp c.ring.nodup).2.of_map _

theorem LRUShape.notMem (c : LRUShape s listed hot cold) (hp : listed p = false) :
    p ∉ hot ++ cold := by
  rw [c.mem_iff, hp]
  exact Bool.false_ne_true

/-- A buffer outside is not in the ring. -/
theorem LRUShape.item_notMem (c : LRUShape s listed hot cold) (hp : listed p = false) :
    ListItem.bcb p ∉ ListItem.base :: (hot ++ cold).map .bcb := by
  have h := c.notMem hp
  simp only [List.mem_cons, List.mem_map, ListItem.bcb.injEq, exists_eq_right, reduceCtorEq,
    false_or]
  exact h

/-- The backward pointer of a buffer. -/
theorem prev_of_ring {node : ListItem → Link ListItem} {pre post : List Nat}
    (h : IsRing node .base ((pre ++ p :: post).map .bcb)) :
    (node (.bcb p)).prev = some (lastItem pre) := by
  rw [List.map_append, List.map_cons] at h
  exact h.at_place.2

/-! ## §4. Hot buffers become cold. -/

/-- The buffers `ps` are made cold. -/
def coolAll (bcb : Nat → ListBCB) (ps : List Nat) : Nat → ListBCB := fun p =>
  if p ∈ ps then { bcb p with mTouchCnt := 1, mBCBListType := .lruCold } else bcb p

theorem coolAll_nil (bcb : Nat → ListBCB) : coolAll bcb [] = bcb := by
  funext p
  exact if_neg List.not_mem_nil

theorem coolAll_concat (bcb : Nat → ListBCB) (ps : List Nat) (q : Nat) :
    coolAll (Function.update bcb q { bcb q with mTouchCnt := 1, mBCBListType := .lruCold }) ps =
      coolAll bcb (ps ++ [q]) := by
  funext p
  unfold coolAll
  by_cases hpq : p = q
  · have hq : q ∈ ps ++ [q] := List.mem_append_right _ List.mem_cons_self
    rw [hpq, Function.update_self, if_pos hq]
    split_ifs <;> rfl
  · rw [Function.update_of_ne hpq]
    simp [hpq]

/-- **The loop** moves `mMid` over as many hot buffers as it makes rounds. -/
theorem moveLoop_spec (h1 h2 cold : List Nat) (s : LRUList)
    (hring : IsRing s.node .base ((h1 ++ h2 ++ cold).map .bcb))
    (hmid : s.mMid = lastItem (h1 ++ h2)) :
    s.moveLoop h2.length = some { s with mMid := lastItem h1, bcb := coolAll s.bcb h2 } := by
  induction h2 using List.reverseRecOn generalizing s cold with
  | nil =>
    rw [List.append_nil] at hmid
    rw [coolAll_nil, ← hmid]
    rfl
  | append_singleton ps q ih =>
    rw [← List.append_assoc] at hmid hring
    rw [lastItem_concat] at hmid
    have hring' : IsRing s.node .base (((h1 ++ ps) ++ q :: cold).map .bcb) := by
      rw [List.append_assoc, List.singleton_append] at hring
      exact hring
    have hprev := prev_of_ring hring'
    rw [List.length_append, List.length_singleton]
    unfold LRUList.moveLoop LRUList.makeBCBCold
    simp only [hmid, hprev, Option.bind_eq_bind, Option.bind_some]
    refine (ih (q :: cold) _ ?_ rfl).trans ?_
    · exact hring'
    · simp only [coolAll_concat]

/-- The two parts, after the end of the hot one is made cold. -/
theorem LRUShape.cool (c : LRUShape s listed (h1 ++ h2) cold) :
    LRUShape { s with
      mMid := lastItem h1, bcb := coolAll s.bcb h2
      mHotLength := h1.length, mColdLength := h2.length + cold.length } listed h1
      (h2 ++ cold) := by
  have hno : ∀ p, (coolAll s.bcb h2 p).mBCBListNo = (s.bcb p).mBCBListNo := by
    intro p
    unfold coolAll
    split_ifs <;> rfl
  have hnodup := c.nodup
  rw [List.append_assoc] at hnodup
  have hout : ∀ p, p ∉ h2 → coolAll s.bcb h2 p = s.bcb p := fun p hp => if_neg hp
  constructor
  · -- the ring
    rw [← List.append_assoc]
    exact c.ring
  · rfl
  · exact (List.length_append ..).symm
  · rfl
  · -- the hot buffers
    intro p hp
    have hp2 : p ∉ h2 := fun h =>
      (List.nodup_append.mp hnodup).2.2 p hp p (List.mem_append_left _ h) rfl
    show (coolAll s.bcb h2 p).mBCBListType = _ ∧ (coolAll s.bcb h2 p).mBCBListNo = s.mID
    rw [hout p hp2]
    exact c.isHot p (List.mem_append_left _ hp)
  · -- the cold buffers
    intro p hp
    show (coolAll s.bcb h2 p).mBCBListType = _ ∧ (coolAll s.bcb h2 p).mBCBListNo = s.mID
    rw [hno]
    by_cases hp2 : p ∈ h2
    · refine ⟨?_, (c.isHot p (List.mem_append_right _ hp2)).2⟩
      unfold coolAll
      rw [if_pos hp2]
    · rw [hout p hp2]
      exact c.isCold p ((List.mem_append.mp hp).resolve_left hp2)
  · -- the buffers of the list are those that are marked as listed
    intro p
    rw [← List.append_assoc]
    exact c.mem_iff p
  · -- a buffer that is not listed names no list
    intro p hp
    have hp2 : p ∉ h2 := fun h =>
      c.notMem hp (List.mem_append_left _ (List.mem_append_right _ h))
    have hold := c.unlisted p hp
    unfold LRUList.isListed at hold ⊢
    simp only [hout p hp2]
    exact hold

/-- **`moveMidPtrForward`** makes the given number of hot buffers cold, or all. -/
theorem consistent_moveMidPtrForward (c : LRUConsistent s listed hot cold) (n : Nat) :
    ∃ s' h1 h2, hot = h1 ++ h2 ∧ h2.length = min n hot.length ∧
      s.moveMidPtrForward n = some (s', h2.length) ∧ LRUConsistent s' listed h1 (h2 ++ cold) := by
  obtain ⟨h1, h2, rfl, hk⟩ : ∃ h1 h2, hot = h1 ++ h2 ∧ h2.length = min n hot.length := by
    refine ⟨hot.take (hot.length - min n hot.length), hot.drop (hot.length - min n hot.length),
      (List.take_append_drop _ _).symm, ?_⟩
    rw [List.length_drop]
    omega
  have hcount : (if s.mHotLength < n then s.mHotLength else n) = h2.length := by
    rw [c.hotLength, hk]
    split_ifs <;> omega
  have hlen : s.mHotLength = h1.length + h2.length := c.hotLength.trans (List.length_append ..)
  refine ⟨_, h1, h2, rfl, hk, ?_, c.toLRUShape.cool, ?_⟩
  · unfold LRUList.moveMidPtrForward
    simp only [hcount, moveLoop_spec h1 h2 cold s c.ring c.mid, Option.bind_eq_bind,
      Option.bind_some]
    rw [if_neg (by omega), hlen, c.coldLength, Nat.add_sub_cancel, Nat.add_comm cold.length]
  · have hle := c.hot_le
    show h1.length ≤ s.mHotMax
    omega

/-- **`setHotMax`** makes hot buffers cold until the new limit is kept. -/
theorem consistent_setHotMax (c : LRUConsistent s listed hot cold) (aNewHotMax : Nat) :
    ∃ s' h1 h2, hot = h1 ++ h2 ∧ h1.length = min aNewHotMax hot.length ∧
      s.setHotMax aNewHotMax = some s' ∧ s'.mHotMax = aNewHotMax ∧
      LRUConsistent s' listed h1 (h2 ++ cold) := by
  unfold LRUList.setHotMax
  by_cases hlt : aNewHotMax < s.mHotLength
  · obtain ⟨s', h1, h2, rfl, hlen, hmove, c'⟩ :=
      consistent_moveMidPtrForward c (s.mHotLength - aNewHotMax)
    have hsum : s.mHotLength = h1.length + h2.length := c.hotLength.trans (List.length_append ..)
    rw [List.length_append] at hlen
    refine ⟨{ s' with mHotMax := aNewHotMax }, h1, h2, rfl, ?_, ?_, rfl, ⟨?_, ?_⟩⟩
    · rw [List.length_append]
      omega
    · simp only [if_pos hlt, hmove, Option.map_some, Option.bind_eq_bind, Option.bind_some]
    · exact ⟨c'.ring, c'.hotLength, c'.coldLength, c'.mid, c'.isHot, c'.isCold, c'.mem_iff,
        c'.unlisted⟩
    · show s'.mHotLength ≤ aNewHotMax
      rw [c'.hotLength]
      omega
  · have hsame := c.hotLength
    refine ⟨{ s with mHotMax := aNewHotMax }, hot, [], (List.append_nil _).symm, by omega, ?_,
      rfl, ⟨?_, by show s.mHotLength ≤ aNewHotMax; omega⟩⟩
    · simp only [if_neg hlt, Option.bind_eq_bind, Option.bind_some]
    · exact ⟨c.ring, c.hotLength, c.coldLength, c.mid, c.isHot, c.isCold, c.mem_iff,
        c.unlisted⟩

/-! ## §5. A buffer is added. -/

/-- Another buffer's fields, and what it says of this list. -/
theorem isListed_of_same {s' : LRUList} (hid : s'.mID = s.mID) (hbcb : s'.bcb p = s.bcb p) :
    s'.isListed p = s.isListed p := by
  unfold LRUList.isListed
  rw [hbcb, hid]

/-- What is left to check after a buffer is added to one of the parts. -/
theorem LRUShape.added (c : LRUShape s listed hot cold) (hp : listed p = false) {s' : LRUList}
    {b : ListBCB} {hot' cold' : List Nat} (hid : s'.mID = s.mID)
    (hbcb : s'.bcb = Function.update s.bcb p b) (hno : b.mBCBListNo = s.mID)
    (hring : IsRing s'.node .base ((hot' ++ cold').map .bcb))
    (hhotlen : s'.mHotLength = hot'.length) (hcoldlen : s'.mColdLength = cold'.length)
    (hmid : s'.mMid = lastItem hot') (hperm : (hot' ++ cold').Perm (p :: (hot ++ cold)))
    (hhot : ∀ q ∈ hot', q ∈ hot ∨ q = p ∧ b.mBCBListType = .lruHot)
    (hcold : ∀ q ∈ cold', q ∈ cold ∨ q = p ∧ b.mBCBListType = .lruCold) :
    LRUShape s' (Function.update listed p true) hot' cold' := by
  have hother : ∀ q, q ≠ p → s'.bcb q = s.bcb q := by
    intro q hq
    rw [hbcb, Function.update_of_ne hq]
  have hself : s'.bcb p = b := by rw [hbcb, Function.update_self]
  have hne : ∀ q ∈ hot ++ cold, q ≠ p := fun q hq e => c.notMem hp (e ▸ hq)
  refine ⟨hring, hhotlen, hcoldlen, hmid, fun q hq => ?_, fun q hq => ?_, fun q => ?_,
    fun q hq => ?_⟩
  · rcases hhot q hq with hq | ⟨rfl, htype⟩
    · rw [hother q (hne q (List.mem_append_left _ hq)), hid]
      exact c.isHot q hq
    · rw [hself, hid]
      exact ⟨htype, hno⟩
  · rcases hcold q hq with hq | ⟨rfl, htype⟩
    · rw [hother q (hne q (List.mem_append_right _ hq)), hid]
      exact c.isCold q hq
    · rw [hself, hid]
      exact ⟨htype, hno⟩
  · rw [hperm.mem_iff, List.mem_cons, c.mem_iff]
    by_cases hqp : q = p
    · rw [hqp, Function.update_self]
      simp
    · rw [Function.update_of_ne hqp]
      simp [hqp]
  · have hqp : q ≠ p := fun e => by rw [e, Function.update_self] at hq; cases hq
    rw [Function.update_of_ne hqp] at hq
    rw [isListed_of_same hid (hother q hqp)]
    exact c.unlisted q hq

/-- **`insertBCB2BehindMid`** makes a buffer the first cold one. -/
theorem consistent_insertBCB2BehindMid (c : LRUConsistent s listed hot cold)
    (hp : listed p = false) :
    ∃ s', s.insertBCB2BehindMid p = some s' ∧
      LRUConsistent s' (Function.update listed p true) hot (p :: cold) := by
  have hring := c.ring
  have hout := c.item_notMem hp
  rw [List.map_append] at hring hout
  obtain ⟨node, hnode, hring', -⟩ := hring.insertAfter hout
  have hmid : (hot.map ListItem.bcb).getLastD .base = s.mMid := c.mid.symm
  rw [hmid] at hnode
  refine ⟨{ s with
    bcb := Function.update s.bcb p
      { s.bcb p with mTouchCnt := 1, mBCBListType := .lruCold, mBCBListNo := s.mID }
    mColdLength := s.mColdLength + 1
    node := node }, ?_, ⟨c.added hp rfl rfl rfl ?_ c.hotLength ?_ c.mid List.perm_middle
      (fun q hq => .inl hq) (fun q hq => ?_), c.hot_le⟩⟩
  · unfold LRUList.insertBCB2BehindMid
    rw [hnode]
    rfl
  · rw [List.map_append, List.map_cons]
    exact hring'
  · exact congrArg (· + 1) c.coldLength
  · rcases List.mem_cons.mp hq with rfl | hq
    · exact .inr ⟨rfl, rfl⟩
    · exact .inl hq

/-- The state of `addToHot` before a hot part that is too long is cut. -/
theorem addToHot_linked (c : LRUConsistent s listed hot cold) (hp : listed p = false) :
    ∃ s', s.addToHot p = s'.demoteOverflow ∧ s'.mHotMax = s.mHotMax ∧
      LRUShape s' (Function.update listed p true) (p :: hot) cold := by
  have hring : IsRing s.node .base ([] ++ (hot ++ cold).map .bcb) := c.ring
  obtain ⟨node, hnode, hring', -⟩ := hring.insertAfter (c.item_notMem hp)
  -- the state with the buffer linked in front
  obtain ⟨s₁, hs₁⟩ : ∃ s₁ : LRUList, s₁ = { s with
    bcb := Function.update s.bcb p
      { s.bcb p with mBCBListType := .lruHot, mBCBListNo := s.mID }
    node := node
    mHotLength := s.mHotLength + 1 } := ⟨_, rfl⟩
  have hlen : s₁.mHotLength = hot.length + 1 := by
    rw [hs₁]
    exact congrArg (· + 1) c.hotLength
  have hold : s₁.mMid = lastItem hot := by
    rw [hs₁]
    exact c.mid
  -- `mMid` is set with the first hot buffer only
  have hmid : s₁.setMidOnFirst p = some { s₁ with mMid := lastItem (p :: hot) } := by
    unfold LRUList.setMidOnFirst
    cases hot with
    | nil =>
      have hone : s₁.mHotLength = 1 := hlen
      have hbase : s₁.mMid = .base := hold
      rw [if_pos hone, if_pos hbase]
      rfl
    | cons q qs =>
      have hlast : lastItem (p :: q :: qs) = s₁.mMid := by
        rw [hold]
        exact lastItem_append [p] (List.cons_ne_nil q qs)
      rw [if_neg (by rw [hlen, List.length_cons]; omega), hlast]
  refine ⟨{ s₁ with mMid := lastItem (p :: hot) }, ?_, by rw [hs₁], ?_⟩
  · unfold LRUList.addToHot
    have hnode' : insertAfter s.node .base (.bcb p) = some node := hnode
    rw [if_neg (Nat.not_lt.mpr c.hot_le), hnode']
    simp only [Option.bind_eq_bind, Option.bind_some]
    rw [← hs₁, hmid]
    rfl
  · rw [hs₁]
    refine c.added hp rfl rfl rfl hring' ?_ c.coldLength rfl (List.Perm.refl _)
      (fun q hq => ?_) (fun q hq => .inl hq)
    · exact congrArg (· + 1) c.hotLength
    · rcases List.mem_cons.mp hq with rfl | hq
      · exact .inr ⟨rfl, rfl⟩
      · exact .inl hq

/-- **`addToHot`** makes a buffer the first hot one; the last hot one becomes cold if
    there are too many. -/
theorem consistent_addToHot (c : LRUConsistent s listed hot cold) (hp : listed p = false) :
    ∃ s' h1 h2, p :: hot = h1 ++ h2 ∧ h2.length = hot.length + 1 - s.mHotMax ∧
      s.addToHot p = some s' ∧
      LRUConsistent s' (Function.update listed p true) h1 (h2 ++ cold) := by
  obtain ⟨s₁, hadd, hmax, c₁⟩ := addToHot_linked c hp
  have hle := c.hot_le
  have hlen := c.hotLength
  have hlen₁ : s₁.mHotLength = hot.length + 1 := c₁.hotLength
  rw [hadd]
  unfold LRUList.demoteOverflow
  by_cases hover : s₁.mHotLength > s₁.mHotMax
  · obtain ⟨qs, q, heq⟩ : ∃ qs q, p :: hot = qs ++ [q] :=
      ⟨_, _, (List.dropLast_append_getLast (List.cons_ne_nil p hot)).symm⟩
    have hqs : qs.length = hot.length := by
      have := congrArg List.length heq
      rw [List.length_append, List.length_cons, List.length_singleton] at this
      omega
    rw [heq] at c₁
    have hmid : s₁.mMid = .bcb q := by rw [c₁.mid, lastItem_concat]
    have hprev : (s₁.node (.bcb q)).prev = some (lastItem qs) := by
      have hring := c₁.ring
      rw [List.append_assoc, List.singleton_append] at hring
      exact prev_of_ring hring
    refine ⟨_, qs, [q], heq, by rw [List.length_singleton]; omega, ?_, c₁.cool, ?_⟩
    · have hcool := coolAll_concat s₁.bcb [] q
      rw [coolAll_nil, List.nil_append] at hcool
      rw [if_pos hover]
      simp only [LRUList.makeBCBCold, hmid, hprev, hcool, Option.bind_eq_bind, Option.bind_some]
      rw [c₁.coldLength, hlen₁, hqs, Nat.add_sub_cancel, List.length_singleton, Nat.add_comm 1]
    · show qs.length ≤ s₁.mHotMax
      omega
  · exact ⟨s₁, p :: hot, [], (List.append_nil _).symm, by rw [List.length_nil]; omega,
      if_neg hover, c₁, by omega⟩

/-! ## §6. A buffer is removed. -/

/-- `SDB_INIT_BCB_LIST` of a buffer that is out of the ring. -/
theorem initBCBList_isListed (t : LRUList) (p : Nat) : (t.initBCBList p).isListed p = false := by
  unfold LRUList.initBCBList LRUList.isListed
  simp only [Function.update_self]
  rfl

/-- **A buffer is unlinked and reset**, and the rest of the list keeps its place. -/
theorem LRUShape.removed {node : ListItem → Link ListItem} {xs ys hot' cold' : List Nat}
    (c : LRUShape s listed hot cold) (hxs : hot ++ cold = xs ++ p :: ys)
    (hring : IsRing node .base ((xs ++ ys).map .bcb)) (hsplit : hot' ++ cold' = xs ++ ys)
    (hhot : ∀ q ∈ hot', q ∈ hot) (hcold : ∀ q ∈ cold', q ∈ cold) :
    LRUShape (LRUList.initBCBList { s with
      node := node, mMid := lastItem hot'
      mHotLength := hot'.length, mColdLength := cold'.length } p)
      (Function.update listed p false) hot' cold' := by
  have hnodup : (p :: (xs ++ ys)).Nodup := by
    rw [← List.perm_middle.nodup_iff, ← hxs]
    exact c.nodup
  have hne : ∀ q ∈ hot' ++ cold', q ≠ p := by
    intro q hq e
    rw [hsplit, e] at hq
    exact (List.nodup_cons.mp hnodup).1 hq
  have hbcb : ∀ q, q ≠ p → Function.update s.bcb p
      { s.bcb p with mBCBListType := .noList, mBCBListNo := bcbListNone } q = s.bcb q :=
    fun q hq => Function.update_of_ne hq ..
  constructor
  · -- the ring
    rw [hsplit]
    refine hring.congr fun a ha => Function.update_of_ne ?_ ..
    rintro rfl
    simp only [List.mem_cons, reduceCtorEq, List.mem_map, ListItem.bcb.injEq, exists_eq_right,
      false_or] at ha
    exact hne p (hsplit ▸ ha) rfl
  · rfl
  · rfl
  · rfl
  · -- the hot buffers
    intro q hq
    show (Function.update s.bcb p _ q).mBCBListType = _ ∧
      (Function.update s.bcb p _ q).mBCBListNo = _
    rw [hbcb q (hne q (List.mem_append_left _ hq))]
    exact c.isHot q (hhot q hq)
  · -- the cold buffers
    intro q hq
    show (Function.update s.bcb p _ q).mBCBListType = _ ∧
      (Function.update s.bcb p _ q).mBCBListNo = _
    rw [hbcb q (hne q (List.mem_append_right _ hq))]
    exact c.isCold q (hcold q hq)
  · -- the buffers of the list are those that are marked as listed
    intro q
    by_cases hqp : q = p
    · rw [hqp, Function.update_self]
      exact iff_of_false (fun h => hne p h rfl) Bool.false_ne_true
    · rw [Function.update_of_ne hqp, ← c.mem_iff, hxs, hsplit]
      simp [hqp]
  · -- a buffer that is not listed names no list
    intro q hq
    by_cases hqp : q = p
    · rw [hqp]
      exact initBCBList_isListed ..
    · rw [Function.update_of_ne hqp] at hq
      refine (isListed_of_same (s := s) ?_ ?_).trans (c.unlisted q hq)
      · rfl
      · exact hbcb q hqp

/-- The unlinking itself. -/
theorem LRUShape.delete {xs ys : List Nat} (c : LRUShape s listed hot cold)
    (hxs : hot ++ cold = xs ++ p :: ys) :
    ∃ node, delete s.node (.bcb p) = some node ∧ IsRing node .base ((xs ++ ys).map .bcb) := by
  have hring := c.ring
  rw [hxs, List.map_append, List.map_cons] at hring
  obtain ⟨node, hnode, hring', -⟩ := hring.delete
  refine ⟨node, hnode, ?_⟩
  rw [List.map_append]
  exact hring'

/-- **`removeColdLast`** takes the last cold buffer, and nothing if none is cold. -/
theorem consistent_removeColdLast (c : LRUConsistent s listed hot cold) :
    (cold = [] ∧ s.removeColdLast = some (s, none)) ∨
      ∃ s' qs p, cold = qs ++ [p] ∧ s.removeColdLast = some (s', some p) ∧
        LRUConsistent s' (Function.update listed p false) hot qs := by
  rcases List.eq_nil_or_concat cold with rfl | ⟨qs, p, rfl⟩
  · exact .inl ⟨rfl, by unfold LRUList.removeColdLast; exact if_pos c.coldLength⟩
  · right
    rw [List.concat_eq_append] at c ⊢
    have hxs : hot ++ (qs ++ [p]) = (hot ++ qs) ++ p :: [] := (List.append_assoc ..).symm
    have hlen : s.mColdLength = qs.length + 1 := by
      rw [c.coldLength, List.length_append, List.length_singleton]
    have hlast : (s.node .base).prev = some (.bcb p) := by
      have hring : IsRing s.node .base (((hot ++ qs) ++ [p]).map .bcb ++ []) := by
        rw [List.append_nil, ← hxs]
        exact c.ring
      have hprev : (s.node .base).prev = some (lastItem ((hot ++ qs) ++ [p])) := hring.at_place.2
      rw [hprev, lastItem_concat]
    obtain ⟨node, hnode, hring⟩ := c.delete hxs
    refine ⟨_, qs, p, rfl, ?_, ⟨c.removed hxs hring (List.append_nil _).symm (fun q hq => hq)
      (fun q hq => List.mem_append_left _ hq), ?_⟩⟩
    · unfold LRUList.removeColdLast
      rw [if_neg (by omega), hlast]
      simp only [Option.bind_eq_bind, Option.bind_some, hnode]
      unfold LRUList.initBCBList
      simp only [hlen, Nat.add_sub_cancel, ← c.mid, ← c.hotLength]
    · show hot.length ≤ s.mHotMax
      rw [← c.hotLength]
      exact c.hot_le

/-- Where `mMid` goes when a hot buffer leaves: back by one if it stood on it. -/
theorem LRUShape.mid_without {xs ys : List Nat} (c : LRUShape s listed (xs ++ p :: ys) cold) :
    (if s.mMid = .bcb p then (s.node s.mMid).prev else some s.mMid) =
      some (lastItem (xs ++ ys)) := by
  have hnodup : (xs ++ p :: ys).Nodup := (List.nodup_append.mp c.nodup).1
  rcases List.eq_nil_or_concat ys with rfl | ⟨zs, q, rfl⟩
  · have hring := c.ring
    rw [List.append_assoc, List.cons_append, List.nil_append] at hring
    rw [c.mid, lastItem_concat, if_pos rfl, List.append_nil]
    exact prev_of_ring hring
  · rw [List.concat_eq_append] at c hnodup ⊢
    have hmid : s.mMid = .bcb q := by
      rw [c.mid, ← List.cons_append, ← List.append_assoc, lastItem_concat]
    have hqp : q ≠ p := by
      rintro rfl
      have hout := (List.nodup_cons.mp (List.nodup_append.mp hnodup).2.1).1
      exact hout (List.mem_append_right _ List.mem_cons_self)
    rw [if_neg (by rw [hmid]; exact fun e => hqp (ListItem.bcb.inj e)), hmid,
      ← List.append_assoc, lastItem_concat]

/-- **`removeBCB`** takes out a buffer that is in the list, and nothing else. -/
theorem consistent_removeBCB (c : LRUConsistent s listed hot cold) (p : Nat) :
    (listed p = false ∧ s.removeBCB p = some (s, false)) ∨
      ∃ s', listed p = true ∧ s.removeBCB p = some (s', true) ∧
        LRUConsistent s' (Function.update listed p false) (hot.erase p) (cold.erase p) := by
  by_cases hp : listed p = true
  · right
    have hle := c.hot_le
    have hlen := c.hotLength
    have hdisj := (List.nodup_append.mp c.nodup).2.2
    rcases List.mem_append.mp ((c.mem_iff p).mpr hp) with hmem | hmem
    · -- a hot buffer
      obtain ⟨htype, hno⟩ := c.isHot p hmem
      have hcold : cold.erase p = cold :=
        List.erase_of_not_mem fun h => hdisj p hmem p h rfl
      obtain ⟨xs, ys, rfl⟩ := List.append_of_mem hmem
      have hpx : p ∉ xs := by
        intro h
        exact (List.nodup_append.mp (List.nodup_append.mp c.nodup).1).2.2 p h p
          List.mem_cons_self rfl
      have hhot : (xs ++ p :: ys).erase p = xs ++ ys := by
        rw [List.erase_append_right _ hpx, List.erase_cons_head]
      have hxs : (xs ++ p :: ys) ++ cold = xs ++ p :: (ys ++ cold) := by simp
      obtain ⟨node, hnode, hring⟩ := c.delete hxs
      have hmid := c.toLRUShape.mid_without
      rw [List.length_append, List.length_cons] at hlen
      rw [hhot, hcold]
      refine ⟨_, hp, ?_, c.removed hxs hring (List.append_assoc ..) (fun q hq => ?_)
        (fun q hq => hq), ?_⟩
      · unfold LRUList.removeBCB LRUList.isListed
        by_cases hon : s.mMid = .bcb p
        · rw [if_pos hon, hon] at hmid
          simp only [htype, hno, hon, hmid, hnode, Option.bind_eq_bind, Option.bind_some, if_true,
            decide_true, Bool.true_or, Bool.true_and]
          rw [c.coldLength, hlen, List.length_append]
          rfl
        · rw [if_neg hon, Option.some.injEq] at hmid
          simp only [htype, hno, hon, hnode, Option.bind_eq_bind, Option.bind_some, if_true,
            if_false, decide_true, Bool.true_or, Bool.true_and]
          rw [c.coldLength, hlen, List.length_append, hmid]
          rfl
      · rcases List.mem_append.mp hq with hq | hq
        · exact List.mem_append_left _ hq
        · exact List.mem_append_right _ (List.mem_cons_of_mem _ hq)
      · show (xs ++ ys).length ≤ s.mHotMax
        rw [List.length_append]
        omega
    · -- a cold buffer
      obtain ⟨htype, hno⟩ := c.isCold p hmem
      have hhot : hot.erase p = hot :=
        List.erase_of_not_mem fun h => hdisj p h p hmem rfl
      obtain ⟨xs, ys, rfl⟩ := List.append_of_mem hmem
      have hpx : p ∉ xs := by
        intro h
        exact (List.nodup_append.mp (List.nodup_append.mp c.nodup).2.1).2.2 p h p
          List.mem_cons_self rfl
      have hcold : (xs ++ p :: ys).erase p = xs ++ ys := by
        rw [List.erase_append_right _ hpx, List.erase_cons_head]
      have hxs : hot ++ (xs ++ p :: ys) = (hot ++ xs) ++ p :: ys := (List.append_assoc ..).symm
      obtain ⟨node, hnode, hring⟩ := c.delete hxs
      have hclen := c.coldLength
      rw [List.length_append, List.length_cons] at hclen
      rw [hhot, hcold]
      refine ⟨_, hp, ?_, c.removed hxs hring (List.append_assoc ..).symm (fun q hq => hq)
        (fun q hq => ?_), ?_⟩
      · unfold LRUList.removeBCB LRUList.isListed
        simp only [htype, hno, hnode, Option.bind_eq_bind, Option.bind_some, if_true,
          decide_true, Bool.or_true, Bool.true_and]
        rw [hclen, List.length_append, ← c.mid, ← c.hotLength]
        rfl
      · rcases List.mem_append.mp hq with hq | hq
        · exact List.mem_append_left _ hq
        · exact List.mem_append_right _ (List.mem_cons_of_mem _ hq)
      · show hot.length ≤ s.mHotMax
        omega
  · rw [Bool.not_eq_true] at hp
    left
    refine ⟨hp, ?_⟩
    unfold LRUList.removeBCB
    rw [c.unlisted p hp]
    rfl

/-- What others do to a buffer that is not in the list. -/
theorem consistent_other (c : LRUConsistent s listed hot cold) (hp : listed p = false)
    {b : ListBCB} (hb : LRUList.isListed { s with bcb := Function.update s.bcb p b } p = false) :
    LRUConsistent { s with bcb := Function.update s.bcb p b } listed hot cold := by
  have hsame : ∀ q ∈ hot ++ cold, Function.update s.bcb p b q = s.bcb q := by
    intro q hq
    refine Function.update_of_ne ?_ ..
    rintro rfl
    exact c.notMem hp hq
  refine ⟨⟨c.ring, c.hotLength, c.coldLength, c.mid, fun q hq => ?_, fun q hq => ?_, c.mem_iff,
    fun q hq => ?_⟩, c.hot_le⟩
  · show (Function.update s.bcb p b q).mBCBListType = _ ∧
      (Function.update s.bcb p b q).mBCBListNo = _
    rw [hsame q (List.mem_append_left _ hq)]
    exact c.isHot q hq
  · show (Function.update s.bcb p b q).mBCBListType = _ ∧
      (Function.update s.bcb p b q).mBCBListNo = _
    rw [hsame q (List.mem_append_right _ hq)]
    exact c.isCold q hq
  · by_cases hqp : q = p
    · rw [hqp]
      exact hb
    · refine (isListed_of_same (s := s) ?_ ?_).trans (c.unlisted q hq)
      · rfl
      · exact Function.update_of_ne hqp ..

end Shape

/-! ## §7. Two queues. -/

/-- **What the operations mean** for the hot and the cold part, of which the first has
    room for `hotMax` buffers. -/
def partsAfter (hotMax : Nat) (hot cold : List Nat) : LRUAction → List Nat × List Nat
  | .addToHot p => ((p :: hot).take hotMax, (p :: hot).drop hotMax ++ cold)
  | .insertBCB2BehindMid p => (hot, p :: cold)
  | .removeColdLast => (hot, cold.dropLast)
  | .removeBCB p => (hot.erase p, cold.erase p)
  | .moveMidPtrForward n => (hot.take (hot.length - n), hot.drop (hot.length - n) ++ cold)
  | .setHotMax n => (hot.take n, hot.drop n ++ cold)
  | .other _ _ => (hot, cold)

/-- A list is cut where the length of its end says. -/
theorem take_drop_of_length {l l₁ l₂ : List Nat} {k : Nat} (h : l = l₁ ++ l₂)
    (hlen : l₂.length = l.length - k) : l₁ = l.take k ∧ l₂ = l.drop k := by
  have hsum : l.length = l₁.length + l₂.length := by rw [h, List.length_append]
  by_cases hk : k ≤ l.length
  · have hk₁ : l₁.length = k := by omega
    exact ⟨by rw [h, List.take_left' hk₁], by rw [h, List.drop_left' hk₁]⟩
  · have hnil : l₂ = [] := List.eq_nil_of_length_eq_zero (by omega)
    rw [List.take_of_length_le (by omega), List.drop_of_length_le (by omega)]
    exact ⟨by rw [h, hnil, List.append_nil], hnil⟩

section Run

variable {s : LRUPool} {hot cold : List Nat}

/-- **One operation** succeeds and does to the two parts what it means. -/
theorem consistent_apply (c : LRUConsistent s.list s.listed hot cold) {a : LRUAction}
    (ha : s.allows a = true) :
    ∃ s', s.apply a = some s' ∧
      LRUConsistent s'.list s'.listed (partsAfter s.list.mHotMax hot cold a).1
        (partsAfter s.list.mHotMax hot cold a).2 := by
  have hlen := c.hotLength
  have hle := c.hot_le
  cases a with
  -- the hot part is cut where it is longer than `mHotMax`
  | addToHot p =>
    have hp : s.listed p = false := by simpa [LRUPool.allows] using ha
    obtain ⟨list, h1, h2, hsplit, h2len, happly, c'⟩ := consistent_addToHot c hp
    obtain ⟨rfl, rfl⟩ := take_drop_of_length hsplit h2len
    refine ⟨⟨list, Function.update s.listed p true⟩, ?_, c'⟩
    simp only [LRUPool.apply, happly]
    rfl
  | insertBCB2BehindMid p =>
    have hp : s.listed p = false := by simpa [LRUPool.allows] using ha
    obtain ⟨list, happly, c'⟩ := consistent_insertBCB2BehindMid c hp
    refine ⟨⟨list, Function.update s.listed p true⟩, ?_, c'⟩
    simp only [LRUPool.apply, happly]
    rfl
  | removeColdLast =>
    -- an empty cold part gives no buffer
    rcases consistent_removeColdLast c with ⟨rfl, happly⟩ | ⟨list, qs, p, rfl, happly, c'⟩
    · refine ⟨s, ?_, c⟩
      simp only [LRUPool.apply, happly]
      rfl
    · refine ⟨⟨list, Function.update s.listed p false⟩, ?_, ?_⟩
      · simp only [LRUPool.apply, happly]
        rfl
      · show LRUConsistent list _ hot (qs ++ [p]).dropLast
        rw [List.dropLast_concat]
        exact c'
  | removeBCB p =>
    -- a buffer that is not listed here is left alone
    rcases consistent_removeBCB c p with ⟨hp, happly⟩ | ⟨list, hp, happly, c'⟩
    · have hout := c.notMem hp
      refine ⟨s, ?_, ?_⟩
      · simp only [LRUPool.apply, happly]
        rfl
      · show LRUConsistent s.list s.listed (hot.erase p) (cold.erase p)
        rw [List.erase_of_not_mem fun h => hout (List.mem_append_left _ h),
          List.erase_of_not_mem fun h => hout (List.mem_append_right _ h)]
        exact c
    · refine ⟨⟨list, Function.update s.listed p false⟩, ?_, c'⟩
      simp only [LRUPool.apply, happly]
      rfl
  -- the last `n` hot buffers become cold
  | moveMidPtrForward n =>
    obtain ⟨list, h1, h2, hsplit, h2len, happly, c'⟩ := consistent_moveMidPtrForward c n
    have hk : h2.length = hot.length - (hot.length - n) := by omega
    obtain ⟨rfl, rfl⟩ := take_drop_of_length hsplit hk
    refine ⟨{ s with list := list }, ?_, c'⟩
    simp only [LRUPool.apply, happly]
    rfl
  | setHotMax n =>
    obtain ⟨list, h1, h2, hsplit, h1len, happly, -, c'⟩ := consistent_setHotMax c n
    have hsum : hot.length = h1.length + h2.length := by rw [hsplit, List.length_append]
    obtain ⟨rfl, rfl⟩ := take_drop_of_length hsplit (k := n) (by omega)
    refine ⟨{ s with list := list }, ?_, c'⟩
    simp only [LRUPool.apply, happly]
    rfl
  -- another list's work on a buffer that this one does not have
  | other p b =>
    have hpb : s.listed p = false ∧
        ((b.mBCBListType = .lruHot || b.mBCBListType = .lruCold) &&
          b.mBCBListNo = s.list.mID) = false := by
      simpa only [LRUPool.allows, Bool.and_eq_true, Bool.not_eq_true'] using ha
    refine ⟨_, rfl, consistent_other c hpb.1 ?_⟩
    unfold LRUList.isListed
    simp only [Function.update_self]
    exact hpb.2

end Run

/-- The empty list. -/
theorem lruConsistent_init {aListID : Nat} (aHotMax : Nat) {bcb : Nat → ListBCB}
    (h : ∀ p, (LRUList.initList aListID aHotMax bcb).isListed p = false) :
    LRUConsistent (.initList aListID aHotMax bcb) (fun _ => false) [] [] := by
  refine ⟨⟨isRing_nil _ rfl, rfl, rfl, rfl, ?_, ?_, ?_, fun p _ => h p⟩, Nat.zero_le _⟩
  · intro p hp
    exact absurd hp List.not_mem_nil
  · intro p hp
    exact absurd hp List.not_mem_nil
  · intro p
    simp

/-- **Every reachable state**: the ring is a hot part and behind it a cold part that
    hold the buffers of the list once each, the lengths, `mMid` and the types of the
    buffers agree with them, and every operation succeeds and does to the two parts what
    it means. -/
theorem lruList_reachable {aListID : Nat} (aHotMax : Nat) {bcb : Nat → ListBCB}
    (h : ∀ p, (LRUList.initList aListID aHotMax bcb).isListed p = false) {s : LRUPool}
    (hs : (lruSystem aListID aHotMax bcb).Reachable s) :
    ∃ hot cold, LRUConsistent s.list s.listed hot cold ∧ (hot ++ cold).Nodup ∧
      ∀ a, s.allows a = true → ∃ s', s.apply a = some s' ∧
        LRUConsistent s'.list s'.listed (partsAfter s.list.mHotMax hot cold a).1
          (partsAfter s.list.mHotMax hot cold a).2 := by
  have hinv : ∃ hot cold, LRUConsistent s.list s.listed hot cold := by
    refine System.Path.invariant (I := fun u => ∃ hot cold,
      LRUConsistent u.list u.listed hot cold) hs ?_ ⟨[], [], lruConsistent_init aHotMax h⟩
    intro u a v hu _ hstep
    obtain ⟨hot, cold, c⟩ := hu
    have hstep' : (if u.allows a then u.apply a else none) = some v := hstep
    split_ifs at hstep' with ha
    obtain ⟨v', happly, c'⟩ := consistent_apply c ha
    rw [happly, Option.some.injEq] at hstep'
    exact ⟨_, _, hstep' ▸ c'⟩
  obtain ⟨hot, cold, c⟩ := hinv
  exact ⟨hot, cold, c, c.nodup, fun a ha => consistent_apply c ha⟩

/-- A run that cuts the hot part to nothing and goes on. -/
def lruTrace : List LRUAction :=
  [.addToHot 1, .addToHot 2, .insertBCB2BehindMid 3, .addToHot 4, .removeBCB 2, .setHotMax 0,
    .addToHot 5, .removeColdLast]

/-- The theorem at the end of that run. -/
theorem lruList_reachable_trace :
    ∃ s : LRUPool, (lruSystem 7 2 fun _ => ⟨.noList, bcbListNone, 0⟩).Reachable s ∧
      s.list.mHotLength = 0 ∧ s.list.mColdLength = 3 ∧
      ∃ hot cold, LRUConsistent s.list s.listed hot cold ∧ (hot ++ cold).Nodup ∧
        ∀ a, s.allows a = true → ∃ s', s.apply a = some s' ∧
          LRUConsistent s'.list s'.listed (partsAfter s.list.mHotMax hot cold a).1
            (partsAfter s.list.mHotMax hot cold a).2 := by
  have hrun := System.reachable_after (lruSystem 7 2 fun _ => ⟨.noList, bcbListNone, 0⟩)
    lruTrace (by decide)
  exact ⟨_, hrun, by decide, by decide, lruList_reachable 2 (fun _ => rfl) hrun⟩

end Altibase.Sdb
