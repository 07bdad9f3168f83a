/-
  Altibase.Sdpst.AllocExt
  ───────────────────────
  **A NEW EXTENT OF A TREE-MANAGED SEGMENT.**

  `getAftAllocExtInfo` plans the meta pages of a new extent: at its start come the
  extent directory, the leaf, internal and root bitmap pages that it needs, and in
  a new segment the segment header.  `createMetaPages` makes them.  A page and its
  parent both compute the slot they share, from the free slots that were left in
  the last parent, so nothing is linked by a pointer.  `linkNewExtToLstBMPs` then
  enters the new pages into the last pages that existed before.

  Page ids and counts are natural numbers.  `toUShort` reduces what the source keeps in
  a `UShort` where it can be larger: the slot counts that come from the properties, the
  numbers of planned pages, and the length of an extent that one leaf page takes.

  A table of slots is unbounded here.  A release build does not reduce a property to the
  slots that a page has room for, about 1000; what is written past the end of such a
  page is memory outside this model.
-/
import Altibase.Sdpst.Bmp

namespace Altibase.Sdpst

/-- A value stored in a `UShort`. -/
def toUShort (n : Nat) : Nat := n % 2 ^ 16

/-! ## §1. The segment. -/

/-- `sdpPageType`, the types of the meta pages. -/
inductive PageType
  | TMS_SEGHDR
  | TMS_LFBMP
  | TMS_ITBMP
  | TMS_RTBMP
  | TMS_EXTDIR
  deriving Repr, DecidableEq

/-- `sdpstExtDesc`. -/
structure ExtDesc where
  mExtFstPID : Nat
  mLength : Nat
  mExtMgmtLfBMP : Nat
  mExtFstDataPID : Nat
  deriving Repr, DecidableEq

/-- An extent directory page: `sdpstExtDirHdr` and the descriptors behind it. -/
structure ExtDirPage where
  mExtCnt : Nat
  mMaxExtCnt : Nat
  mMap : Nat → ExtDesc

/-- `sdpstExtDir::getFreeSlotCnt`, a difference of two `UShort`s. -/
def ExtDirPage.getFreeSlotCnt (d : ExtDirPage) : Nat :=
  toUShort (d.mMaxExtCnt + 2 ^ 16 - d.mExtCnt)

/-- A segment: the fields of its header that extent allocation uses, and its pages by
    page id.  `mSegPID = 0` while no extent has been allocated.  The header page is a
    root bitmap page and an extent directory page too. -/
structure Seg where
  mSegPID : Nat
  mLstLfBMP : Nat
  mLstItBMP : Nat
  mLstRtBMP : Nat
  mTotPageCnt : Nat
  mTotExtCnt : Nat
  mExtDirBase : List Nat
  pageType : Nat → Option PageType
  lfBMP : Nat → Option LfBMPPage
  bmp : Nat → Option BMPPage
  extDir : Nat → Option ExtDirPage

/-- A segment handle without a segment. -/
def Seg.empty : Seg :=
  ⟨0, 0, 0, 0, 0, 0, [], fun _ => none, fun _ => none, fun _ => none, fun _ => none⟩

/-- The slot counts of `sdpstDef.h`, from the server properties, and the limit of
    extents of the segment.  The properties are `UInt`s from 1 to 65536, and the counts
    of the segment header are at most half of one where it exceeds half a page. -/
structure TmsProps where
  maxSlotCntPerItBMP : Nat
  maxSlotCntPerExtDir : Nat
  maxSlotCntPerRtBMPInSegHdr : Nat
  maxSlotCntPerExtDirInSegHdr : Nat
  maxExtCnt : Nat

/-- `SDPST_MAX_SLOT_CNT_PER_LFBMP`. -/
def maxRangeSlotCount : Nat := 16

/-- `sdpstBfrAllocExtInfo`, the state of the last pages before the allocation. -/
structure BfrAllocExtInfo where
  mLstPID : BMPType → Nat
  mFreeSlotCnt : BMPType → Nat
  mMaxSlotCnt : BMPType → Nat
  mTotPageCnt : Nat
  mPageRange : Nat
  mFreePageRangeCnt : Nat
  mSlotNoInExtDir : Int

/-- `sdpstAftAllocExtInfo`, the plan. -/
structure AftAllocExtInfo where
  mFstPID : BMPType → Nat
  mLstPID : BMPType → Nat
  mPageCnt : BMPType → Nat
  mFullBMPCnt : BMPType → Nat
  mTotPageCnt : Nat
  mLfBMP4ExtDir : Nat
  mPageRange : Nat
  mSegHdrCnt : Nat
  mSlotNoInExtDir : Int

/-! ## §2. The plan. -/

/-- `SDPST_EST_BMP_CNT_4NEWEXT`. -/
def estBMPCnt4NewExt (aPageCnt aMaxSlotCnt : Nat) : Nat :=
  (aPageCnt + aMaxSlotCnt - 1) / aMaxSlotCnt

/-- `SD_PAGE_SIZE`, and the sizes of a segment in pages. -/
def sdPageSize : Nat := 8192
def pageCnt1M : Nat := 1 * 1024 * 1024 / sdPageSize
def pageCnt64M : Nat := 64 * 1024 * 1024 / sdPageSize
def pageCnt1024M : Nat := 1024 * 1024 * 1024 / sdPageSize

/-- `selectPageRange`, by the size of the segment. -/
def selectPageRange (aTotPages : Nat) : Nat :=
  if aTotPages < pageCnt1M then 16
  else if pageCnt64M ≤ aTotPages then
    if pageCnt1024M ≤ aTotPages then pageRange1024 else 256
  else 64

/-- `sdpstSH::getLstExtDir`. -/
def Seg.getLstExtDir (seg : Seg) : Nat := seg.mExtDirBase.getLast?.getD seg.mSegPID

/-- `getBfrAllocExtInfo`. -/
def getBfrAllocExtInfo (props : TmsProps) (seg : Seg) : Except Fault BfrAllocExtInfo :=
  if seg.mSegPID = 0 then
    -- a new segment has no pages yet, only the slots of the header to come
    .ok {
      mLstPID := fun _ => 0
      mFreeSlotCnt := fun
        | .RTBMP => toUShort props.maxSlotCntPerRtBMPInSegHdr
        | .ITBMP => 0
        | .LFBMP => 0
        | .EXTDIR => toUShort props.maxSlotCntPerExtDirInSegHdr
      mMaxSlotCnt := fun
        | .RTBMP => toUShort props.maxSlotCntPerRtBMPInSegHdr
        | .ITBMP => toUShort props.maxSlotCntPerItBMP
        | .LFBMP => maxRangeSlotCount
        | .EXTDIR => toUShort props.maxSlotCntPerExtDirInSegHdr
      mTotPageCnt := 0
      mPageRange := 0
      mFreePageRangeCnt := 0
      mSlotNoInExtDir := -1 }
  else if seg.mTotExtCnt + 1 > props.maxExtCnt then .error .exceedMaxExtents
  else if seg.mLstLfBMP = 0 ∨ seg.mLstItBMP = 0 ∨ seg.mLstRtBMP = 0 ∨ seg.getLstExtDir = 0 then
    .error .nullLstPID
  else
    -- otherwise the last page of each kind is read
    match seg.bmp seg.mLstRtBMP, seg.bmp seg.mLstItBMP, seg.lfBMP seg.mLstLfBMP,
        seg.extDir seg.getLstExtDir with
    | some sRt, some sIt, some sLf, some sExtDir =>
        .ok {
          mLstPID := fun
            | .LFBMP => seg.mLstLfBMP
            | .ITBMP => seg.mLstItBMP
            | .RTBMP => seg.mLstRtBMP
            | .EXTDIR => seg.getLstExtDir
          mFreeSlotCnt := fun
            | .RTBMP => sRt.mHdr.mFreeSlotCnt
            | .ITBMP => sIt.mHdr.mFreeSlotCnt
            | .LFBMP => sLf.mBMPHdr.mFreeSlotCnt
            | .EXTDIR => sExtDir.getFreeSlotCnt
          mMaxSlotCnt := fun
            | .RTBMP => sRt.mHdr.mMaxSlotCnt
            | .ITBMP => sIt.mHdr.mMaxSlotCnt
            | .LFBMP => sLf.mBMPHdr.mMaxSlotCnt
            | .EXTDIR => toUShort props.maxSlotCntPerExtDir
          mTotPageCnt := seg.mTotPageCnt
          mPageRange := sLf.mPageRange
          mFreePageRangeCnt := sLf.mPageRange - sLf.mTotPageCnt
          mSlotNoInExtDir := (sExtDir.mExtCnt : Nat) }
    | _, _, _, _ => .error .noSuchPage

/-- The plan that `getAftAllocExtInfo` works out, and the information before, which gets
    the page id of a new segment header. -/
def aftAllocExtInfo (aSegPID : Nat) (aExtDesc : ExtDesc)
    (aBfrInfo : BfrAllocExtInfo) : BfrAllocExtInfo × AftAllocExtInfo :=
  -- a full directory page needs a new one, the first page of the extent
  let sExtDirCnt := if aBfrInfo.mFreeSlotCnt .EXTDIR = 0 then 1 else 0
  let sLstExtDir := if aBfrInfo.mFreeSlotCnt .EXTDIR = 0 then aExtDesc.mExtFstPID
    else aBfrInfo.mLstPID .EXTDIR
  let sSlotNoInExtDir : Int := if aBfrInfo.mFreeSlotCnt .EXTDIR = 0 then 0
    else aBfrInfo.mSlotNoInExtDir
  let sTotPageCnt := aBfrInfo.mTotPageCnt + aExtDesc.mLength
  let sPageRange := selectPageRange sTotPageCnt
  -- the last leaf page takes the whole extent
  let sReuse : Bool := aBfrInfo.mPageRange = sPageRange ∧ 0 < aBfrInfo.mFreeSlotCnt .LFBMP ∧
    aExtDesc.mLength ≤ aBfrInfo.mFreePageRangeCnt
  let sLfCnt := if sReuse then 0 else toUShort (estBMPCnt4NewExt aExtDesc.mLength sPageRange)
  let sItCnt := if sReuse then 0
    else if aBfrInfo.mFreeSlotCnt .ITBMP < sLfCnt then
      toUShort (estBMPCnt4NewExt (sLfCnt - aBfrInfo.mFreeSlotCnt .ITBMP)
        (aBfrInfo.mMaxSlotCnt .ITBMP))
    else 0
  let sRtCnt := if sReuse then 0
    else if aBfrInfo.mFreeSlotCnt .RTBMP < sItCnt then
      toUShort (estBMPCnt4NewExt (sItCnt - aBfrInfo.mFreeSlotCnt .RTBMP)
        (aBfrInfo.mMaxSlotCnt .RTBMP))
    else 0
  -- the new pages are at the front of the extent: directory, leaf, internal, root, header
  let sFstLf := aExtDesc.mExtFstPID + sExtDirCnt
  let sFstIt := sFstLf + sLfCnt
  let sFstRt := sFstIt + sItCnt
  let sNewSegPID := sFstRt + sRtCnt
  -- in a new segment the header is the last directory page and the last root page
  let sBfrLst : BMPType → Nat := fun
    | .EXTDIR => if aSegPID = 0 then sNewSegPID else aBfrInfo.mLstPID .EXTDIR
    | .RTBMP => if aSegPID = 0 then sNewSegPID else aBfrInfo.mLstPID .RTBMP
    | t => aBfrInfo.mLstPID t
  let sAft : AftAllocExtInfo := {
    mFstPID := fun
      | .EXTDIR => 0
      | .LFBMP => if sReuse then 0 else sFstLf
      | .ITBMP => if 0 < sItCnt then sFstIt else 0
      | .RTBMP => if 0 < sRtCnt then sFstRt else 0
    mLstPID := fun
      | .EXTDIR => if aSegPID = 0 then sNewSegPID else sLstExtDir
      | .LFBMP => if sReuse then aBfrInfo.mLstPID .LFBMP else sFstLf + sLfCnt - 1
      | .ITBMP => if 0 < sItCnt then sFstIt + sItCnt - 1 else aBfrInfo.mLstPID .ITBMP
      | .RTBMP => if aSegPID = 0 then sNewSegPID
          else if 0 < sRtCnt then sFstRt + sRtCnt - 1 else aBfrInfo.mLstPID .RTBMP
    mPageCnt := fun
      | .EXTDIR => sExtDirCnt
      | .LFBMP => sLfCnt
      | .ITBMP => sItCnt
      | .RTBMP => sRtCnt
    mFullBMPCnt := fun _ => 0
    mTotPageCnt := sTotPageCnt
    mLfBMP4ExtDir := if sReuse ∧ sExtDirCnt = 1 then aBfrInfo.mLstPID .LFBMP else 0
    mPageRange := sPageRange
    mSegHdrCnt := if aSegPID = 0 then 1 else 0
    mSlotNoInExtDir := if aSegPID = 0 then 0 else sSlotNoInExtDir }
  ({ aBfrInfo with mLstPID := sBfrLst }, sAft)

/-- `getAftAllocExtInfo`.  More pages than the last parent has slots for are divided by
    the slot count of a new parent, and a division by zero stops the server. -/
def getAftAllocExtInfo (aSegPID : Nat) (aExtDesc : ExtDesc) (aBfrInfo : BfrAllocExtInfo) :
    Except Fault (BfrAllocExtInfo × AftAllocExtInfo) :=
  let sInfo := aftAllocExtInfo aSegPID aExtDesc aBfrInfo
  if sInfo.2.mPageCnt .LFBMP > aBfrInfo.mFreeSlotCnt .ITBMP ∧ aBfrInfo.mMaxSlotCnt .ITBMP = 0 then
    .error .divideByZero
  else if sInfo.2.mPageCnt .ITBMP > aBfrInfo.mFreeSlotCnt .RTBMP ∧
      aBfrInfo.mMaxSlotCnt .RTBMP = 0 then .error .divideByZero
  else .ok sInfo

/-! ## §3. Making the meta pages. -/

/-- `sdpstAllocPage::createPage`, the page type of a new page. -/
def Seg.createPage (seg : Seg) (aPageID : Nat) (aPageType : PageType) : Seg :=
  { seg with pageType := Function.update seg.pageType aPageID (some aPageType) }

/-- The variables of the loop of `sdpstLfBMP::createAndInitPages`. -/
structure LfLoop where
  seg : Seg
  sCurrLfPID : Nat
  sSlotNoInParent : Nat
  sTotPageCnt : Nat
  sTotMetaCnt : Nat
  sFullBMPCnt : Nat

/-- The number of meta pages of the plan. -/
def AftAllocExtInfo.metaCnt (aAftInfo : AftAllocExtInfo) : Nat :=
  aAftInfo.mPageCnt .EXTDIR + aAftInfo.mPageCnt .LFBMP + aAftInfo.mPageCnt .ITBMP +
    aAftInfo.mPageCnt .RTBMP + aAftInfo.mSegHdrCnt

/-- One round of the loop of `sdpstLfBMP::createAndInitPages`. -/
def lfLoopBody (aExtDesc : ExtDesc) (aBfrInfo : BfrAllocExtInfo) (aAftInfo : AftAllocExtInfo)
    (sLoop : Nat) (s : LfLoop) : Except Fault LfLoop :=
  if sLoop ≥ aBfrInfo.mFreeSlotCnt .ITBMP ∧ aAftInfo.mPageCnt .ITBMP = 0 then .error .noParentBMP
  else
    -- the last internal page takes as many as it has free slots, the new ones take the rest
    let sParentItPID := if aBfrInfo.mFreeSlotCnt .ITBMP > sLoop then aBfrInfo.mLstPID .ITBMP
      else aExtDesc.mExtFstPID + aAftInfo.mPageCnt .EXTDIR + aAftInfo.mPageCnt .LFBMP +
        (sLoop - aBfrInfo.mFreeSlotCnt .ITBMP) / aBfrInfo.mMaxSlotCnt .ITBMP
    let sRangeFstPID := aExtDesc.mExtFstPID + aAftInfo.mPageRange * sLoop
    let sSlotNoInParent := s.sSlotNoInParent % aBfrInfo.mMaxSlotCnt .ITBMP
    let seg := s.seg.createPage s.sCurrLfPID .TMS_LFBMP
    let sNewPageCnt := if s.sTotPageCnt < aAftInfo.mPageRange then s.sTotPageCnt
      else aAftInfo.mPageRange
    -- the meta pages are the first pages of the extent
    let sMetaCnt := if s.sTotMetaCnt > 0 then
        (if s.sTotMetaCnt < sNewPageCnt then s.sTotMetaCnt else sNewPageCnt)
      else 0
    match initLfBMPHdr aAftInfo.mPageRange sParentItPID sSlotNoInParent sNewPageCnt sMetaCnt
        (aAftInfo.mLstPID .EXTDIR) aAftInfo.mSlotNoInExtDir sRangeFstPID
        (aBfrInfo.mMaxSlotCnt .LFBMP) with
    | .error e => .error e
    | .ok (sPage, sNeedToChangeMFNL) =>
        .ok {
          seg := { seg with lfBMP := Function.update seg.lfBMP s.sCurrLfPID (some sPage) }
          sCurrLfPID := s.sCurrLfPID + 1
          sSlotNoInParent := sSlotNoInParent + 1
          sTotPageCnt := s.sTotPageCnt - sNewPageCnt
          sTotMetaCnt := s.sTotMetaCnt - sMetaCnt
          sFullBMPCnt := if sNeedToChangeMFNL then s.sFullBMPCnt + 1 else s.sFullBMPCnt }

/-- The first `n` rounds of a loop whose body can fail. -/
def rounds {σ : Type} (body : Nat → σ → Except Fault σ) (s : σ) : Nat → Except Fault σ
  | 0 => .ok s
  | n + 1 => match rounds body s n with
    | .error e => .error e
    | .ok s' => body n s'

/-- `sdpstLfBMP::createAndInitPages`. -/
def lfCreateAndInitPages (seg : Seg) (aExtDesc : ExtDesc) (aBfrInfo : BfrAllocExtInfo)
    (aAftInfo : AftAllocExtInfo) : Except Fault (Seg × ExtDesc × AftAllocExtInfo) :=
  let sSlotNoInParent := if aBfrInfo.mFreeSlotCnt .ITBMP > 0 then
      aBfrInfo.mMaxSlotCnt .ITBMP - aBfrInfo.mFreeSlotCnt .ITBMP
    else 0
  let sExtDirOk : Bool := if aAftInfo.mPageCnt .EXTDIR > 0 then
      aExtDesc.mExtFstPID = aAftInfo.mLstPID .EXTDIR
    else aBfrInfo.mLstPID .EXTDIR = aAftInfo.mLstPID .EXTDIR
  if ¬ sExtDirOk then .error .extDirDiffers
  else
    let sTotMetaCnt := toUShort aAftInfo.metaCnt
    let sFstLf := aExtDesc.mExtFstPID + aAftInfo.mPageCnt .EXTDIR
    let sExtDesc := { aExtDesc with
      mExtMgmtLfBMP := sFstLf, mExtFstDataPID := aExtDesc.mExtFstPID + sTotMetaCnt }
    match rounds (lfLoopBody aExtDesc aBfrInfo aAftInfo)
        ⟨seg, sFstLf, sSlotNoInParent, aExtDesc.mLength, sTotMetaCnt, 0⟩
        (aAftInfo.mPageCnt .LFBMP) with
    | .error e => .error e
    | .ok s => .ok (s.seg, sExtDesc, { aAftInfo with
        mFstPID := Function.update aAftInfo.mFstPID .LFBMP sFstLf
        mLstPID := Function.update aAftInfo.mLstPID .LFBMP
          (sFstLf + aAftInfo.mPageCnt .LFBMP - 1)
        mFullBMPCnt := Function.update aAftInfo.mFullBMPCnt .LFBMP s.sFullBMPCnt })

/-- `SDPST_BMP_CHILD_TYPE` and `SDPST_BMP_PARENT_TYPE`. -/
def BMPType.child : BMPType → BMPType
  | .EXTDIR => .RTBMP
  | .RTBMP => .ITBMP
  | .ITBMP => .LFBMP
  | .LFBMP => .LFBMP

/-- The type of the pages above. -/
def BMPType.parent : BMPType → BMPType
  | .LFBMP => .ITBMP
  | .ITBMP => .RTBMP
  | .RTBMP => .EXTDIR
  | .EXTDIR => .EXTDIR

/-- The variables of the loop of `sdpstBMP::createAndInitPages`. -/
structure BMPLoop where
  seg : Seg
  sCurPID : Nat
  sSlotNoInParent : Nat
  sNewSlotCnt : Nat
  sTotFullBMPCnt : Nat
  /-- `aAftInfo->mFullBMPCnt[ sParentBMPType ]` -/
  sParentFullCnt : Nat

/-- One round of the loop of `sdpstBMP::createAndInitPages`, for root or internal pages. -/
def bmpLoopBody (aExtDesc : ExtDesc) (aBMPType : BMPType) (aBfrInfo : BfrAllocExtInfo)
    (aAftInfo : AftAllocExtInfo) (sLoop : Nat) (s : BMPLoop) : Except Fault BMPLoop :=
  let sMaxSlotCnt := aBfrInfo.mMaxSlotCnt aBMPType
  let sParentFree := aBfrInfo.mFreeSlotCnt aBMPType.parent
  if aBMPType = .ITBMP ∧ sLoop ≥ sParentFree ∧ aAftInfo.mPageCnt aBMPType.parent = 0 then
    .error .noParentBMP
  else
    -- a root page has no parent
    let sParentBMP := if aBMPType = .ITBMP then
        (if sParentFree > sLoop then aBfrInfo.mLstPID aBMPType.parent
        else aExtDesc.mExtFstPID + aAftInfo.mPageCnt .EXTDIR + aAftInfo.mPageCnt .LFBMP +
          aAftInfo.mPageCnt .ITBMP +
          (sLoop - aBfrInfo.mFreeSlotCnt .RTBMP) / aBfrInfo.mMaxSlotCnt .RTBMP)
      else 0
    let sSlotNoInParent := if aBMPType = .ITBMP then
        s.sSlotNoInParent % aBfrInfo.mMaxSlotCnt aBMPType.parent
      else s.sSlotNoInParent
    -- the children that the old last page has taken are left out
    let sFstChildBMP := if aBMPType = .ITBMP then
        aExtDesc.mExtFstPID + aAftInfo.mPageCnt .EXTDIR + aBfrInfo.mFreeSlotCnt .ITBMP +
          sMaxSlotCnt * sLoop
      else aExtDesc.mExtFstPID + aAftInfo.mPageCnt .EXTDIR + aAftInfo.mPageCnt .LFBMP +
        aBfrInfo.mFreeSlotCnt .RTBMP + sMaxSlotCnt * sLoop
    let sSlotCnt := if s.sNewSlotCnt ≥ sMaxSlotCnt then sMaxSlotCnt else s.sNewSlotCnt
    let sLstChildBMP := sFstChildBMP + sSlotCnt - 1
    let seg := s.seg.createPage s.sCurPID
      (if aBMPType = .ITBMP then .TMS_ITBMP else .TMS_RTBMP)
    -- the children that are full come first
    let sFullBMPCnt := if s.sTotFullBMPCnt > 0 then
        (if s.sTotFullBMPCnt ≤ sSlotCnt then s.sTotFullBMPCnt else sSlotCnt)
      else 0
    match initBMPHdr aBMPType sParentBMP sSlotNoInParent sFstChildBMP sLstChildBMP sFullBMPCnt
        sMaxSlotCnt with
    | .error e => .error e
    | .ok (sPage, sNeedToChangeMFNL) =>
        .ok {
          seg := { seg with bmp := Function.update seg.bmp s.sCurPID (some sPage) }
          sCurPID := s.sCurPID + 1
          sSlotNoInParent := sSlotNoInParent + 1
          sNewSlotCnt := s.sNewSlotCnt - sSlotCnt
          sTotFullBMPCnt := s.sTotFullBMPCnt - sFullBMPCnt
          sParentFullCnt := if sNeedToChangeMFNL then s.sParentFullCnt + 1 else s.sParentFullCnt }

/-- `sdpstBMP::createAndInitPages`. -/
def bmpCreateAndInitPages (seg : Seg) (aExtDesc : ExtDesc) (aBMPType : BMPType)
    (aBfrInfo : BfrAllocExtInfo) (aAftInfo : AftAllocExtInfo) :
    Except Fault (Seg × AftAllocExtInfo) :=
  let sSlotNoInParent := if aBMPType = .ITBMP then
      aBfrInfo.mMaxSlotCnt aBMPType.parent - aBfrInfo.mFreeSlotCnt aBMPType.parent
    else 0
  let sNewSlotCnt := aAftInfo.mPageCnt aBMPType.child - aBfrInfo.mFreeSlotCnt aBMPType
  let sTotFullBMPCnt := if aBfrInfo.mFreeSlotCnt aBMPType ≥ aAftInfo.mFullBMPCnt aBMPType.child
    then 0 else aAftInfo.mFullBMPCnt aBMPType.child - aBfrInfo.mFreeSlotCnt aBMPType
  match rounds (bmpLoopBody aExtDesc aBMPType aBfrInfo aAftInfo)
      ⟨seg, aAftInfo.mLstPID aBMPType.child + 1, sSlotNoInParent, sNewSlotCnt, sTotFullBMPCnt,
        aAftInfo.mFullBMPCnt aBMPType.parent⟩ (aAftInfo.mPageCnt aBMPType) with
  | .error e => .error e
  | .ok s => .ok (s.seg, { aAftInfo with
      mFstPID := Function.update aAftInfo.mFstPID aBMPType (aAftInfo.mLstPID aBMPType.child + 1)
      mLstPID := Function.update aAftInfo.mLstPID aBMPType
        (aAftInfo.mLstPID aBMPType.child + aAftInfo.mPageCnt aBMPType)
      mFullBMPCnt := Function.update aAftInfo.mFullBMPCnt aBMPType.parent s.sParentFullCnt })

/-- `sdpstSH::createAndInitPage`: the segment header, with an empty root bitmap and an
    empty extent directory. -/
def shCreateAndInitPage (seg : Seg) (aExtDesc : ExtDesc) (aBfrInfo : BfrAllocExtInfo)
    (aAftInfo : AftAllocExtInfo) : Except Fault Seg :=
  let sMetaPageCnt := toUShort (aAftInfo.mPageCnt .RTBMP + aAftInfo.mPageCnt .ITBMP +
    aAftInfo.mPageCnt .LFBMP + aAftInfo.mPageCnt .EXTDIR)
  let sSegHdrPID := aExtDesc.mExtFstPID + sMetaPageCnt
  let seg := seg.createPage sSegHdrPID .TMS_SEGHDR
  match initBMPHdr .RTBMP 0 0 0 0 0 (aBfrInfo.mMaxSlotCnt .RTBMP) with
  | .error e => .error e
  | .ok (sRtBMP, _) =>
      .ok { seg with
        mSegPID := sSegHdrPID
        mLstLfBMP := 0
        mLstItBMP := 0
        mLstRtBMP := sSegHdrPID
        mTotPageCnt := 0
        mTotExtCnt := 0
        mExtDirBase := []
        bmp := Function.update seg.bmp sSegHdrPID (some sRtBMP)
        extDir := Function.update seg.extDir sSegHdrPID
          (some ⟨0, aBfrInfo.mMaxSlotCnt .EXTDIR, fun _ => ⟨0, 0, 0, 0⟩⟩) }

/-- `sdpstSegDDL::createMetaPages`. -/
def createMetaPages (seg : Seg) (aExtDesc : ExtDesc) (aBfrInfo : BfrAllocExtInfo)
    (aAftInfo : AftAllocExtInfo) : Except Fault (Seg × ExtDesc × AftAllocExtInfo) :=
  match (if aAftInfo.mPageCnt .LFBMP > 0 then lfCreateAndInitPages seg aExtDesc aBfrInfo aAftInfo
      else .ok (seg, aExtDesc, aAftInfo)) with
  | .error e => .error e
  | .ok (seg, aExtDesc, aAftInfo) =>
      match (if aAftInfo.mPageCnt .ITBMP > 0 then
          bmpCreateAndInitPages seg aExtDesc .ITBMP aBfrInfo aAftInfo
        else .ok (seg, aAftInfo)) with
      | .error e => .error e
      | .ok (seg, aAftInfo) =>
          match (if aAftInfo.mPageCnt .RTBMP > 0 then
              bmpCreateAndInitPages seg aExtDesc .RTBMP aBfrInfo aAftInfo
            else .ok (seg, aAftInfo)) with
          | .error e => .error e
          | .ok (seg, aAftInfo) =>
              match (if aAftInfo.mSegHdrCnt = 1 then
                  shCreateAndInitPage seg aExtDesc aBfrInfo aAftInfo
                else .ok seg) with
              | .error e => .error e
              | .ok seg => .ok (seg, aExtDesc, aAftInfo)

/-! ## §4. Changing the level of a page. -/

/-- `sdpstBMP::tryToChangeMFNL`: the slot of a child gets its new level.  The result has
    the parent of the changed page and whether its own level has changed. -/
def Seg.tryToChangeMFNL (seg : Seg) (aCurBMP aSlotNo : Nat) (aNewSlotMFNL : MFNL) :
    Except Fault (Seg × Bool × MFNL × ParentInfo) :=
  match seg.bmp aCurBMP with
  | none => .error .noSuchPage
  | some b =>
      match updateMFNL b aSlotNo aSlotNo (b.mMap aSlotNo).mMFNL aNewSlotMFNL 1 with
      | .error e => .error e
      | .ok (b', sNeedToChangeMFNL) =>
          .ok ({ seg with bmp := Function.update seg.bmp aCurBMP (some b') }, sNeedToChangeMFNL,
            b'.mHdr.mMFNL, b.mHdr.mParentInfo)

/-- `tryToChangeMFNLAndItHint` from `SDPST_CHANGEMFNL_RTBMP_PHASE` on. -/
def Seg.changeRtBMPPhase (seg : Seg) (sNeedToChangeMFNL : Bool) (sNewMFNL : MFNL)
    (sCur : ParentInfo) : Except Fault Seg :=
  if sNeedToChangeMFNL then
    match seg.tryToChangeMFNL sCur.mParentPID sCur.mIdxInParent sNewMFNL with
    | .error e => .error e
    | .ok (seg, _) => .ok seg
  else .ok seg

/-- `tryToChangeMFNLAndItHint` from `SDPST_CHANGEMFNL_ITBMP_PHASE` on: the next phase
    follows without a break. -/
def Seg.changeItBMPPhase (seg : Seg) (sNeedToChangeMFNL : Bool) (sNewMFNL : MFNL)
    (sCur : ParentInfo) : Except Fault Seg :=
  if sNeedToChangeMFNL then
    match seg.tryToChangeMFNL sCur.mParentPID sCur.mIdxInParent sNewMFNL with
    | .error e => .error e
    | .ok (seg, sNeedToChangeMFNL, sNewMFNL, sCur) =>
        seg.changeRtBMPPhase sNeedToChangeMFNL sNewMFNL sCur
  else seg.changeRtBMPPhase sNeedToChangeMFNL sNewMFNL sCur

/-- `tryToChangeMFNLAndItHint` from `SDPST_CHANGEMFNL_LFBMP_PHASE` on: a data page of the
    leaf page `aChildPID` gets a new bit set. -/
def Seg.changeLfBMPPhase (seg : Seg) (aChildPID aPBSNo : Nat) (aNewPBS : PBS) :
    Except Fault Seg :=
  match seg.lfBMP aChildPID with
  | none => .error .noSuchPage
  | some l =>
      match l.tryToChangeMFNL aPBSNo aNewPBS with
      | .error e => .error e
      | .ok (l', sNeedToChangeMFNL) =>
          { seg with lfBMP := Function.update seg.lfBMP aChildPID (some l') }.changeItBMPPhase
            sNeedToChangeMFNL l'.mBMPHdr.mMFNL l.mBMPHdr.mParentInfo

/-! ## §5. Entering the new pages into the last pages. -/

/-- `linkNewExtToLstBMPs`, the first branch: the last leaf page takes the extent. -/
def linkRangeSlot (seg : Seg) (aExtDesc : ExtDesc) (aBfrInfo : BfrAllocExtInfo)
    (aAftInfo : AftAllocExtInfo) : Except Fault (Seg × ExtDesc) :=
  match seg.lfBMP (aBfrInfo.mLstPID .LFBMP) with
  | none => .error .noSuchPage
  | some l =>
      if aAftInfo.mPageCnt .EXTDIR > 0 ∧ aAftInfo.mLfBMP4ExtDir ≠ aBfrInfo.mLstPID .LFBMP then
        .error .extDirDiffers
      else
        let (l', sNeedToChangeMFNL) := addPageRangeSlot l aExtDesc.mExtFstPID
          (toUShort aExtDesc.mLength) (aAftInfo.mPageCnt .EXTDIR) (aBfrInfo.mLstPID .EXTDIR)
          aBfrInfo.mSlotNoInExtDir
        let seg := { seg with
          lfBMP := Function.update seg.lfBMP (aBfrInfo.mLstPID .LFBMP) (some l') }
        let sExtDesc := { aExtDesc with
          mExtMgmtLfBMP := aBfrInfo.mLstPID .LFBMP
          mExtFstDataPID := aExtDesc.mExtFstPID + aAftInfo.mPageCnt .EXTDIR }
        if aBfrInfo.mLstPID .ITBMP ≠ l'.mBMPHdr.mParentInfo.mParentPID then
          .error .lstParentDiffers
        else
          match seg.changeItBMPPhase sNeedToChangeMFNL l'.mBMPHdr.mMFNL
              ⟨aBfrInfo.mLstPID .ITBMP, l'.mBMPHdr.mParentInfo.mIdxInParent⟩ with
          | .error e => .error e
          | .ok seg => .ok (seg, sExtDesc)

/-- `linkNewExtToLstBMPs`: new pages of the type `aBMPType` enter the last page of the
    type above, as many as it has slots left for. -/
def linkSlots (seg : Seg) (aBMPType : BMPType) (sFstPID : Nat) (aBfrInfo : BfrAllocExtInfo)
    (aAftInfo : AftAllocExtInfo) : Except Fault (Seg × Bool × MFNL × ParentInfo) :=
  let sFree := aBfrInfo.mFreeSlotCnt aBMPType.parent
  let sLstPID := sFstPID +
    (if aAftInfo.mPageCnt aBMPType ≥ sFree then sFree else aAftInfo.mPageCnt aBMPType) - 1
  let sFullBMPCnt := if aAftInfo.mFullBMPCnt aBMPType ≤ sFree then aAftInfo.mFullBMPCnt aBMPType
    else sFree
  match seg.bmp (aBfrInfo.mLstPID aBMPType.parent) with
  | none => .error .noSuchPage
  | some b =>
      match logAndAddSlots b sFstPID sLstPID sFullBMPCnt with
      | .error e => .error e
      | .ok (b', sNeedToChangeMFNL) =>
          .ok ({ seg with
              bmp := Function.update seg.bmp (aBfrInfo.mLstPID aBMPType.parent) (some b') },
            sNeedToChangeMFNL, b'.mHdr.mMFNL, b.mHdr.mParentInfo)

/-- `linkNewExtToLstBMPs`, the second branch: new leaf pages enter the last internal
    page, and the root page above it learns its level. -/
def linkLeaves (seg : Seg) (sFstLf : Nat) (aBfrInfo : BfrAllocExtInfo)
    (aAftInfo : AftAllocExtInfo) : Except Fault Seg :=
  match linkSlots seg .LFBMP sFstLf aBfrInfo aAftInfo with
  | .error e => .error e
  | .ok (seg, sNeedToChangeMFNL, sNewMFNL, sParent) =>
      seg.changeRtBMPPhase sNeedToChangeMFNL sNewMFNL sParent

/-- `linkNewExtToLstBMPs`. -/
def linkNewExtToLstBMPs (seg : Seg) (aExtDesc : ExtDesc) (aBfrInfo : BfrAllocExtInfo)
    (aAftInfo : AftAllocExtInfo) : Except Fault (Seg × ExtDesc) :=
  if aAftInfo.mPageCnt .LFBMP = 0 then linkRangeSlot seg aExtDesc aBfrInfo aAftInfo
  else
    let sFstLf := aExtDesc.mExtFstPID + aAftInfo.mPageCnt .EXTDIR
    match (if aBfrInfo.mFreeSlotCnt .ITBMP > 0 then
        linkLeaves seg sFstLf aBfrInfo aAftInfo
      else .ok seg) with
    | .error e => .error e
    | .ok seg =>
        if aAftInfo.mPageCnt .ITBMP > 0 ∧ aBfrInfo.mFreeSlotCnt .RTBMP > 0 then
          match linkSlots seg .ITBMP (sFstLf + aAftInfo.mPageCnt .LFBMP) aBfrInfo aAftInfo with
          | .error e => .error e
          | .ok (seg, _) => .ok (seg, aExtDesc)
        else .ok (seg, aExtDesc)

/-- `linkNewExtToExtDir`, with `sdpstExtDir::createAndInitPage` and `addNewExtDirPage`
    when the last extent directory is full. -/
def linkNewExtToExtDir (seg : Seg) (aExtDesc : ExtDesc) (aBfrInfo : BfrAllocExtInfo)
    (aAftInfo : AftAllocExtInfo) : Except Fault Seg :=
  match seg.extDir seg.getLstExtDir with
  | none => .error .noSuchPage
  | some sExtDir =>
      if sExtDir.getFreeSlotCnt = 0 then
        if aAftInfo.mPageCnt .EXTDIR = 0 then .error .noExtDirPage
        else
          -- the last directory page is full: the extent is the first of the new one
          let sNewPageID := aAftInfo.mLstPID .EXTDIR
          let seg := seg.createPage sNewPageID .TMS_EXTDIR
          let sNew : ExtDirPage := ⟨1, aBfrInfo.mMaxSlotCnt .EXTDIR,
            Function.update (fun _ => ⟨0, 0, 0, 0⟩) 0 aExtDesc⟩
          .ok { seg with
            mExtDirBase := seg.mExtDirBase ++ [sNewPageID]
            extDir := Function.update seg.extDir sNewPageID (some sNew) }
      else
        let sPage := { sExtDir with
          mExtCnt := sExtDir.mExtCnt + 1
          mMap := Function.update sExtDir.mMap sExtDir.mExtCnt aExtDesc }
        .ok { seg with extDir := Function.update seg.extDir seg.getLstExtDir (some sPage) }

/-- `linkNewExtToSegHdr`, the fields of `sdpstSH::linkBMPsToSegHdr`. -/
def linkNewExtToSegHdr (seg : Seg) (aBfrInfo : BfrAllocExtInfo) (aAftInfo : AftAllocExtInfo) :
    Seg :=
  { seg with
    mTotPageCnt := seg.mTotPageCnt + (aAftInfo.mTotPageCnt - aBfrInfo.mTotPageCnt)
    mTotExtCnt := seg.mTotExtCnt + 1
    mLstLfBMP := aAftInfo.mLstPID .LFBMP
    mLstItBMP := aAftInfo.mLstPID .ITBMP
    mLstRtBMP := aAftInfo.mLstPID .RTBMP }

/-- The body of the loops of `allocateSegment` and `allocNewExtsAndPage`: one extent that
    the tablespace has handed out is added to the segment. -/
def allocNewExt (props : TmsProps) (seg : Seg) (aExtDesc : ExtDesc) : Except Fault Seg :=
  match getBfrAllocExtInfo props seg with
  | .error e => .error e
  | .ok sBfr =>
      match getAftAllocExtInfo seg.mSegPID aExtDesc sBfr with
      | .error e => .error e
      | .ok (aBfrInfo, aAftInfo) =>
          match createMetaPages seg aExtDesc aBfrInfo aAftInfo with
          | .error e => .error e
          | .ok (seg, aExtDesc, aAftInfo) =>
              match linkNewExtToLstBMPs seg aExtDesc aBfrInfo aAftInfo with
              | .error e => .error e
              | .ok (seg, aExtDesc) =>
                  match linkNewExtToExtDir seg aExtDesc aBfrInfo aAftInfo with
                  | .error e => .error e
                  | .ok seg => .ok (linkNewExtToSegHdr seg aBfrInfo aAftInfo)

end Altibase.Sdpst
