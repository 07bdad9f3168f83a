/-
  Altibase.Sdpst.Bmp
  ──────────────────
  **THE BITMAP PAGES OF A TREE-MANAGED SEGMENT.**

  A leaf bitmap page has one byte for each page of its page ranges, the page bit
  set: whether the page is a meta page and how much of it is free.  An internal
  bitmap page has one slot for each of its leaf pages, a root bitmap page one slot
  for each of its internal pages, and a slot records the maximum freeness level of
  the page under it.  Every bitmap page has four counters, how many of its pages
  or slots have each level, and its own maximum level.

  The functions of `sdpstBMP` and `sdpstLfBMP` that change one page are here, with
  the assertions that stop the server as errors.  The counters are sums of slot
  counts, never more than `mMaxSlotCnt` or 1024, so they do not wrap.
-/
import Mathlib.Order.Nat
import Altibase.Lib.LevelTable

namespace Altibase.Sdpst

/-! ## §1. Levels. -/

/-- `sdpstMFNL`, the maximum freeness level. -/
inductive MFNL
  | FUL
  | INS
  | FMT
  | UNF
  deriving Repr, DecidableEq

namespace MFNL

/-- The value of the enumerator. -/
def toNat : MFNL → Nat
  | FUL => 0
  | INS => 1
  | FMT => 2
  | UNF => 3

theorem toNat_injective : Function.Injective toNat := by
  intro a b h
  cases a <;> cases b <;> first | rfl | exact absurd h (by decide)

instance : LinearOrder MFNL := LinearOrder.lift' toNat toNat_injective

instance : OrderBot MFNL where
  bot := FUL
  bot_le a := Nat.zero_le a.toNat

@[simp] theorem bot_eq : (⊥ : MFNL) = FUL := rfl

end MFNL

/-- `sdpstPBS`, the bit set of one page. -/
abbrev PBS := BitVec 8

/-- `SDPST_BITSET_PAGETP_MASK` and the page types under it. -/
def pageTpMask : PBS := 0x80#8
def pageTpMeta : PBS := 0x80#8
def pageTpData : PBS := 0x00#8

/-- The freeness bits, `SDPST_BITSET_PAGEFN_…`. -/
def pageFnUnf : PBS := 0x00#8
def pageFnFmt : PBS := 0x01#8
def pageFnIns : PBS := 0x02#8
def pageFnFul : PBS := 0x04#8

/-- What the server asserts.  Each one stops it; `exceedMaxExtents` is the one
    ordinary error. -/
inductive Fault
  | invalidPBS
  | pbsNotChanged
  | pageUnformatted
  | notDataPage
  | newPBSNotData
  | fmtByUpdate
  | mfnlTblTooSmall
  | allSlotsFull
  | slotsExceedMax
  | fullExceedSlots
  | noFreeSlot
  | metaExceedsRange
  | noParentBMP
  | lstParentDiffers
  | extDirDiffers
  | noExtDirPage
  | noSuchPage
  | nullLstPID
  | exceedMaxExtents
  | divideByZero
  deriving Repr, DecidableEq

/-- `isEqFN`: the freeness of a page is the one given. -/
def isEqFN (aSrcBitSet aDestBitSet : PBS) : Bool := aSrcBitSet &&& ~~~pageTpMask == aDestBitSet

/-- `isDataPage`. -/
def isDataPage (aPBS : PBS) : Bool := aPBS &&& pageTpMask == pageTpData

/-- `convertPBSToMFNL`. -/
def convertPBSToMFNL (aPBS : PBS) : Except Fault MFNL :=
  let sFnPageBitSet := aPBS &&& ~~~pageTpMask
  if sFnPageBitSet = pageFnUnf then .ok .UNF
  else if sFnPageBitSet = pageFnFmt then .ok .FMT
  else if sFnPageBitSet = pageFnIns then .ok .INS
  else if sFnPageBitSet = pageFnFul then .ok .FUL
  else .error .invalidPBS

/-- `sdpstAllocPage::calcMFNL`: from `UNF` down to the first nonzero counter. -/
def calcMFNL (aMFNLtbl : MFNL → Nat) : MFNL :=
  (([.UNF, .FMT, .INS, .FUL] : List MFNL).find? (fun l => 0 < aMFNLtbl l)).getD .FUL

/-! ## §2. Pages. -/

/-- `sdpstBMPType`.  The arrays of the extent information use the value of
    `VIRTBMP` for the extent directory. -/
inductive BMPType
  | EXTDIR
  | RTBMP
  | ITBMP
  | LFBMP
  deriving Repr, DecidableEq

/-- `sdpParentInfo`. -/
structure ParentInfo where
  mParentPID : Nat
  mIdxInParent : Nat
  deriving Repr, DecidableEq

/-- `sdpstBMPHdr`, without the link between root pages and the offset of the map. -/
structure BMPHdr where
  mType : BMPType
  mMFNL : MFNL
  mMFNLTbl : MFNL → Nat
  mSlotCnt : Nat
  mFreeSlotCnt : Nat
  mMaxSlotCnt : Nat
  mFstFreeSlotNo : Int
  mParentInfo : ParentInfo

/-- `sdpstBMPSlot`. -/
structure BMPSlot where
  mBMP : Nat
  mMFNL : MFNL
  deriving Repr, DecidableEq

/-- A root or internal bitmap page: the header and the slots behind it. -/
structure BMPPage where
  mHdr : BMPHdr
  mMap : Nat → BMPSlot

/-- `sdpstRangeSlot`. -/
structure RangeSlot where
  mFstPID : Nat
  mLength : Nat
  mFstPBSNo : Nat
  mExtDirPID : Nat
  mSlotNoInExtDir : Int
  deriving Repr, DecidableEq

/-- `sdpstRangeMap`. -/
structure RangeMap where
  mRangeSlot : Nat → RangeSlot
  mPBSTbl : Nat → PBS

/-- A leaf bitmap page: `sdpstLfBMPHdr` and the range map behind it. -/
structure LfBMPPage where
  mBMPHdr : BMPHdr
  mPageRange : Nat
  mTotPageCnt : Nat
  mFstDataPagePBSNo : Int
  mMap : RangeMap

/-- `SDPST_INVALID_SLOTNO` and `SDPST_INVALID_PBSNO`. -/
def invalidSlotNo : Int := -1
def invalidPBSNo : Int := -1

/-- `SDPST_PAGE_RANGE_1024`, also the size of the page bit set table. -/
def pageRange1024 : Nat := 1024

/-- The bit set of a meta page, and that of a data page that has just been formatted. -/
def metaFulPBS : PBS := pageTpMeta ||| pageFnFul
def dataFmtPBS : PBS := pageTpData ||| pageFnFmt

/-! ## §3. Slots of root and internal pages. -/

/-- `sdpstBMP::addSlotsToMap`: the pages from `aFstBMP` to `aLstBMP` are put into the
    slots from `aSlotNo` on, the first `aFullBMPs` of them as full. -/
def addSlotsToMap (aMap : Nat → BMPSlot) (aSlotNo aFstBMP aLstBMP aFullBMPs : Nat) :
    Nat → BMPSlot := fun i =>
  if aSlotNo ≤ i ∧ aFstBMP + (i - aSlotNo) ≤ aLstBMP then
    ⟨aFstBMP + (i - aSlotNo), if i - aSlotNo < aFullBMPs then .FUL else .FMT⟩
  else aMap i

/-- `sdpstBMP::addSlots`.  The flag says that the level of the page has changed. -/
def addSlots (b : BMPPage) (aLstSlotNo aFstBMP aLstBMP aFullBMPs : Nat) :
    Except Fault (BMPPage × Bool) :=
  let h := b.mHdr
  let sNewSlotCount := aLstBMP + 1 - aFstBMP
  let map := addSlotsToMap b.mMap aLstSlotNo aFstBMP aLstBMP aFullBMPs
  let tbl := Function.update h.mMFNLTbl .FUL (h.mMFNLTbl .FUL + aFullBMPs)
  let tbl := Function.update tbl .FMT (tbl .FMT + (sNewSlotCount - aFullBMPs))
  let sNewMFNL := calcMFNL tbl
  if sNewMFNL = .FUL then .error .allSlotsFull
  else
    let sFstFree : Int :=
      if h.mFstFreeSlotNo = invalidSlotNo then (aLstSlotNo + aFullBMPs : Nat)
      -- the page was full up to its last slot
      else if h.mMFNL = .FUL ∧ h.mFstFreeSlotNo + 1 = (aLstSlotNo : Int) then
        (aLstSlotNo + aFullBMPs : Nat)
      else h.mFstFreeSlotNo
    .ok (⟨{ h with
        mMFNL := sNewMFNL, mMFNLTbl := tbl, mSlotCnt := h.mSlotCnt + sNewSlotCount,
        mFreeSlotCnt := h.mFreeSlotCnt - sNewSlotCount, mFstFreeSlotNo := sFstFree }, map⟩,
      decide (h.mMFNL ≠ sNewMFNL))

/-- `sdpstBMP::logAndAddSlots`. -/
def logAndAddSlots (b : BMPPage) (aFstBMP aLstBMP aFullBMPs : Nat) :
    Except Fault (BMPPage × Bool) :=
  if b.mHdr.mMaxSlotCnt ≤ b.mHdr.mSlotCnt then .error .noFreeSlot
  else addSlots b b.mHdr.mSlotCnt aFstBMP aLstBMP aFullBMPs

/-- `sdpstBMP::initBMPHdr`.  `aFstBMP = 0` is the null page id: no slot is added. -/
def initBMPHdr (aBMPType : BMPType) (aParentBMP aSlotNoInParent aFstBMP aLstBMP aFullBMPs
    aMaxSlotCnt : Nat) : Except Fault (BMPPage × Bool) :=
  let sNewSlotCount := aLstBMP + 1 - aFstBMP
  let h : BMPHdr := ⟨aBMPType, .FMT, fun _ => 0, 0, aMaxSlotCnt, aMaxSlotCnt, invalidSlotNo,
    ⟨aParentBMP, aSlotNoInParent⟩⟩
  let b : BMPPage := ⟨h, fun _ => ⟨0, .FUL⟩⟩
  if aMaxSlotCnt < sNewSlotCount then .error .slotsExceedMax
  else if sNewSlotCount < aFullBMPs then .error .fullExceedSlots
  else if aFstBMP = 0 then .ok (b, false)
  else addSlots b 0 aFstBMP aLstBMP aFullBMPs

/-- `sdpstBMP::updateMFNL`, what it does to the header: `aPageCount` pages go from one
    level to another. -/
def updateMFNLHdr (h : BMPHdr) (aOldSlotMFNL aNewSlotMFNL : MFNL) (aPageCount : Nat) :
    Except Fault (BMPHdr × Bool) :=
  if h.mMFNLTbl aOldSlotMFNL < aPageCount then .error .mfnlTblTooSmall
  else
    let tbl := Function.update h.mMFNLTbl aOldSlotMFNL (h.mMFNLTbl aOldSlotMFNL - aPageCount)
    let tbl := Function.update tbl aNewSlotMFNL (tbl aNewSlotMFNL + aPageCount)
    let sNewBMPMFNL := calcMFNL tbl
    .ok ({ h with mMFNL := sNewBMPMFNL, mMFNLTbl := tbl }, decide (h.mMFNL ≠ sNewBMPMFNL))

/-- `sdpstBMP::updateMFNL` on a root or internal page: the slots from `aFmSlotNo` to
    `aToSlotNo` too. -/
def updateMFNL (b : BMPPage) (aFmSlotNo aToSlotNo : Nat) (aOldSlotMFNL aNewSlotMFNL : MFNL)
    (aPageCount : Nat) : Except Fault (BMPPage × Bool) :=
  match updateMFNLHdr b.mHdr aOldSlotMFNL aNewSlotMFNL aPageCount with
  | .error e => .error e
  | .ok (h, sNeedToChangeMFNL) =>
      .ok (⟨h, fun i => if aFmSlotNo ≤ i ∧ i ≤ aToSlotNo then ⟨(b.mMap i).mBMP, aNewSlotMFNL⟩
        else b.mMap i⟩, sNeedToChangeMFNL)

/-! ## §4. Page ranges of leaf pages. -/

/-- `sdpstLfBMP::updatePBS`: only the data pages among `aPageCnt` ones are set. -/
def updatePBS (aTbl : Nat → PBS) (aFstPBSNo : Nat) (aPBS : PBS) (aPageCnt : Nat) :
    Nat → PBS := fun i =>
  if aFstPBSNo ≤ i ∧ i < aFstPBSNo + aPageCnt ∧ isDataPage (aTbl i) then aPBS else aTbl i

/-- `sdpstLfBMP::addPageRangeSlot`. -/
def addPageRangeSlot (l : LfBMPPage) (aFstPID aNewPageCount aMetaPageCount aExtDirPID : Nat)
    (aSlotNoInExtDir : Int) : LfBMPPage × Bool :=
  let h := l.mBMPHdr
  let sCurrSlotNo := h.mSlotCnt
  -- the range starts behind the last one
  let sFstPBSNoInRange :=
    if sCurrSlotNo = 0 then 0
    else (l.mMap.mRangeSlot (sCurrSlotNo - 1)).mFstPBSNo +
      (l.mMap.mRangeSlot (sCurrSlotNo - 1)).mLength
  let slots := Function.update l.mMap.mRangeSlot sCurrSlotNo
    ⟨aFstPID, aNewPageCount, sFstPBSNoInRange, aExtDirPID, aSlotNoInExtDir⟩
  let pbs := if aMetaPageCount > 0 then
      updatePBS l.mMap.mPBSTbl sFstPBSNoInRange metaFulPBS aMetaPageCount
    else l.mMap.mPBSTbl
  let pbs := updatePBS pbs (sFstPBSNoInRange + aMetaPageCount) dataFmtPBS
    (aNewPageCount - aMetaPageCount)
  -- the table counts the new pages: FULL the meta pages, FMT the others
  let tbl := Function.update h.mMFNLTbl .FUL (h.mMFNLTbl .FUL + aMetaPageCount)
  let tbl := Function.update tbl .FMT (tbl .FMT + (aNewPageCount - aMetaPageCount))
  let sNewMFNL := calcMFNL tbl
  ({ l with
      mBMPHdr := { h with
        mMFNL := sNewMFNL, mMFNLTbl := tbl, mSlotCnt := h.mSlotCnt + 1,
        mFreeSlotCnt := h.mFreeSlotCnt - 1 }
      mTotPageCnt := l.mTotPageCnt + aNewPageCount
      mMap := ⟨slots, pbs⟩ },
    decide (h.mMFNL ≠ sNewMFNL))

/-- `sdpstLfBMP::initBMPHdr`. -/
def initLfBMPHdr (aPageRange aParentBMP aSlotNoInParent aNewPageCount aMetaPageCount aExtDirPID :
    Nat) (aSlotNoInExtDir : Int) (aRangeFstPID aMaxSlotCnt : Nat) :
    Except Fault (LfBMPPage × Bool) :=
  if aMetaPageCount ≠ aPageRange ∧ aMetaPageCount ≥ aPageRange then .error .metaExceedsRange
  else
    let h : BMPHdr := ⟨.LFBMP, .FMT, fun _ => 0, 0, aMaxSlotCnt, aMaxSlotCnt, invalidSlotNo,
      ⟨aParentBMP, aSlotNoInParent⟩⟩
    let sFstData : Int := if aMetaPageCount = aPageRange then invalidPBSNo else (aMetaPageCount : Nat)
    let l : LfBMPPage := ⟨h, aPageRange, 0, sFstData, ⟨fun _ => ⟨0, 0, 0, 0, 0⟩, fun _ => 0x00#8⟩⟩
    .ok (addPageRangeSlot l aRangeFstPID aNewPageCount aMetaPageCount aExtDirPID aSlotNoInExtDir)

/-- `sdpstLfBMP::tryToChangeMFNL`, on the leaf page: one data page gets a new bit set. -/
def LfBMPPage.tryToChangeMFNL (l : LfBMPPage) (aPBSNo : Nat) (aNewPBS : PBS) :
    Except Fault (LfBMPPage × Bool) :=
  let sPBS := l.mMap.mPBSTbl aPBSNo
  if sPBS = aNewPBS then .error .pbsNotChanged
  else if isEqFN sPBS pageFnUnf then .error .pageUnformatted
  else if ¬ isDataPage sPBS then .error .notDataPage
  else
    match convertPBSToMFNL sPBS with
    | .error e => .error e
    | .ok sPagePrvFN =>
        if ¬ isDataPage aNewPBS then .error .newPBSNotData
        else
          match convertPBSToMFNL aNewPBS with
          | .error e => .error e
          | .ok sPageNewFN =>
              let pbs := updatePBS l.mMap.mPBSTbl aPBSNo aNewPBS 1
              match updateMFNLHdr l.mBMPHdr sPagePrvFN sPageNewFN 1 with
              | .error e => .error e
              | .ok (h, sNeedToChangeMFNL) =>
                  .ok ({ l with mBMPHdr := h, mMap := ⟨l.mMap.mRangeSlot, pbs⟩ },
                    sNeedToChangeMFNL)

end Altibase.Sdpst
