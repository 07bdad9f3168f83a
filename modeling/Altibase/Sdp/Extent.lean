/-
  Altibase.Sdp.Extent
  ───────────────────
  **THE EXTENTS OF A BITMAP TABLESPACE FILE.**

  A file is divided into local groups.  Each group has two header pages with a
  bitmap of its extents: extents are taken from the one that is the alloc page
  now, and given back to the other one.  When the alloc pages of the whole file
  have no free extent left and the dealloc pages have one, `trySwitch` exchanges
  their roles.  The file header keeps, for each of the two page kinds, how many
  free extents there are and which groups have one.

  The model has the header page of the file, the header pages of the groups by
  their page ids, and the functions of `sdptbExtent` and `sdptbGroup` that work
  on them.  A function that fails leaves the mini transaction to be rolled back.
-/
import Mathlib.Algebra.BigOperators.Intervals
import Altibase.Lib.System
import Altibase.Sdp.Bit

namespace Altibase.Sdp

open Altibase.Lib

/-! ## §1. Page ids. -/

/-- `SD_FPID_BIT_SIZE` and `SD_FID_BIT_SIZE`. -/
def sdFPIDBitSize : Nat := 22
def sdFIDBitSize : Nat := 10

/-- `SD_CREATE_PID`. -/
def sdCreatePID (fid fpid : Nat) : Nat := fid <<< sdFPIDBitSize ||| fpid

/-- `SD_MAKE_FID`. -/
def sdMakeFID (pid : Nat) : Nat :=
  (pid &&& (2 ^ sdFIDBitSize - 1) <<< sdFPIDBitSize) >>> sdFPIDBitSize

/-- `SD_MAKE_FPID`. -/
def sdMakeFPID (pid : Nat) : Nat := pid &&& (2 ^ sdFPIDBitSize - 1)

/-- `SDPTB_GG_HDR_PAGE_CNT` and `SDPTB_LG_HDR_PAGE_CNT`. -/
def ggHdrPageCnt : Nat := 1
def lgHdrPageCnt : Nat := 2

/-- `SDPTB_LG_CNT_MAX`: the freeness of the groups is two words of bits. -/
def lgCntMax : Nat := 128

/-- `SDPTB_PAGES_PER_LG`, the header pages included.  `nBits` is `nBitsPerLG()`. -/
def pagesPerLG (nBits aPagesPerExt : Nat) : Nat := nBits * aPagesPerExt + lgHdrPageCnt

/-- `SDPTB_LG_HDR_PID_FROM_LGID`. -/
def lgHdrPIDFromLGID (nBits fid lgid which aPagesPerExt : Nat) : Nat :=
  sdCreatePID fid (ggHdrPageCnt + lgid * pagesPerLG nBits aPagesPerExt + which)

/-- `SDPTB_EXTENT_START_FPID_FROM_LGID`. -/
def extentStartFPIDFromLGID (nBits lgid aPagesPerExt : Nat) : Nat :=
  ggHdrPageCnt + lgid * pagesPerLG nBits aPagesPerExt + lgHdrPageCnt

/-- `SDPTB_GET_LGID_BY_PID`. -/
def getLGIDByPID (nBits aExtPID aPagesPerExt : Nat) : Nat :=
  (sdMakeFPID aExtPID - ggHdrPageCnt) / pagesPerLG nBits aPagesPerExt

/-- `SDPTB_LAST_PID_OF_EXTENT`. -/
def lastPIDOfExtent (aExtFstPID aPagesPerExt : Nat) : Nat := aExtFstPID + aPagesPerExt - 1

/-! ## §2. The header pages. -/

/-- `sdptbAllocLGIdx`: which of the two header pages of a group. -/
inductive AllocLGIdx
  | idx0
  | idx1
  deriving Repr, DecidableEq

namespace AllocLGIdx

/-- The number of the header page. -/
def toNat : AllocLGIdx → Nat
  | idx0 => 0
  | idx1 => 1

/-- `getDeallocLGIdx`: `!(mAllocLGIdx)`. -/
def dealloc : AllocLGIdx → AllocLGIdx
  | idx0 => idx1
  | idx1 => idx0

@[simp] theorem dealloc_dealloc (w : AllocLGIdx) : w.dealloc.dealloc = w := by
  cases w <;> rfl

theorem dealloc_ne (w : AllocLGIdx) : w.dealloc ≠ w := by
  cases w <;> decide

theorem eq_or_dealloc (w w' : AllocLGIdx) : w' = w ∨ w' = w.dealloc := by
  cases w <;> cases w' <;> decide

theorem toNat_le (w : AllocLGIdx) : w.toNat ≤ 1 := by
  cases w <;> decide

theorem toNat_inj {w w' : AllocLGIdx} (h : w.toNat = w'.toNat) : w = w' := by
  cases w <;> cases w' <;> first | rfl | cases h

end AllocLGIdx

/-- `sdptbLGFreeInfo`.  `mBits` is two words, sixteen bytes. -/
structure LGFreeInfo where
  mFreeExts : Nat
  mBits : Mem

/-- `sdptbGGHdr`, the fields the extents need. -/
structure GGHdr where
  mGGID : Nat
  mPagesPerExt : Nat
  mHWM : Nat
  mLGCnt : Nat
  mAllocLGIdx : AllocLGIdx
  mLGFreeness : AllocLGIdx → LGFreeInfo

/-- `sdptbLGHdr`.  `mBitmap` is the memory from the first byte of the bitmap on,
    with what lies behind it on the page. -/
structure LGHdr where
  mLGID : Nat
  mStartPID : Nat
  mHint : Nat
  mValidBits : Nat
  mFree : Nat
  mBitmap : Mem

/-- A file: its header, the header pages of its groups by page id, and its bit in
    `mFreenessOfGGs` of the space cache. -/
structure File where
  ggHdr : GGHdr
  page : Nat → LGHdr
  freenessOfGG : Bool

/-- How a function fails: `IDE_ERROR_MSG`, `IDE_ASSERT`, or a search of the bitmap
    that has no answer (its assertion fails, or the memory does not end it). -/
inductive Failure
  | errorMsg
  | assertion
  | noAnswer
  deriving Repr, DecidableEq

/-- `sdptbSortExtSlot`, without the length that is not read. -/
structure SortExtSlot where
  mExtFstPID : Nat
  mLocalGroupID : Nat
  deriving Repr, DecidableEq

namespace GGHdr

/-- Replace the free info of one page kind. -/
def setFreeness (gg : GGHdr) (w : AllocLGIdx) (i : LGFreeInfo) : GGHdr :=
  { gg with mLGFreeness := Function.update gg.mLGFreeness w i }

/-- `logAndModifyFreeExtsOfGGByLGType`.  The sum is a `ULong`. -/
def logAndModifyFreeExtsOfGGByLGType (gg : GGHdr) (aLGType : AllocLGIdx) (aVal : Int) : GGHdr :=
  let sResult := ((gg.mLGFreeness aLGType).mFreeExts + aVal) % 2 ^ 64
  gg.setFreeness aLGType { gg.mLGFreeness aLGType with mFreeExts := sResult.toNat }

/-- `logAndModifyFreeExtsOfGG`: the same for the alloc pages. -/
def logAndModifyFreeExtsOfGG (gg : GGHdr) (aVal : Int) : GGHdr :=
  gg.logAndModifyFreeExtsOfGGByLGType gg.mAllocLGIdx aVal

/-- `setBit` or `clearBit` on `mBits` of one page kind. -/
def writeFNBit (gg : GGHdr) (w : AllocLGIdx) (aBitIdx : Nat) (aVal : Bool) : GGHdr :=
  gg.setFreeness w { gg.mLGFreeness w with
    mBits := (if aVal then setBit else clearBit) (gg.mLGFreeness w).mBits 0 aBitIdx }

/-- `logAndSetLGFNBitsOfGG`, for the alloc pages. -/
def logAndSetLGFNBitsOfGG (gg : GGHdr) (aBitIdx : Nat) (aVal : Bool) : Except Failure GGHdr :=
  if aBitIdx < lgCntMax then
    .ok (gg.writeFNBit gg.mAllocLGIdx aBitIdx aVal)
  else
    .error .assertion

/-- `mHWM` is raised to the last page of a new extent. -/
def raiseHWM (gg : GGHdr) (sLastPID : Nat) : GGHdr :=
  if gg.mHWM < sLastPID then { gg with mHWM := sLastPID } else gg

end GGHdr

namespace LGHdr

/-- `allocByBitmapIndex`. -/
def allocByBitmapIndex (h : LGHdr) (aIndex : Nat) : Except Failure LGHdr :=
  if h.mFree > 0 then
    .ok { h with
      mBitmap := setBit h.mBitmap 0 aIndex, mFree := h.mFree - 1, mHint := aIndex + 1 }
  else
    .error .assertion

/-- `freeByBitmapIndex`. -/
def freeByBitmapIndex (h : LGHdr) (aIndex : Nat) : Except Failure LGHdr :=
  if h.mValidBits ≥ h.mFree + 1 then
    .ok { h with
      mBitmap := clearBit h.mBitmap 0 aIndex, mFree := h.mFree + 1,
      mHint := if h.mHint > aIndex then aIndex else h.mHint }
  else
    .error .assertion

end LGHdr

/-! ## §3. Allocation, free and switch. -/

namespace File

/-- `trySwitch`. -/
def trySwitch (f : File) : File :=
  let sOldFN := f.ggHdr.mLGFreeness f.ggHdr.mAllocLGIdx
  let sNewFN := f.ggHdr.mLGFreeness f.ggHdr.mAllocLGIdx.dealloc
  if sOldFN.mFreeExts = 0 ∧ sNewFN.mFreeExts > 0 then
    { f with
      ggHdr := { f.ggHdr with mAllocLGIdx := f.ggHdr.mAllocLGIdx.dealloc }, freenessOfGG := true }
  else if sOldFN.mFreeExts = 0 then
    { f with freenessOfGG := false }
  else
    f

/-- The loop of `allocExtsInLG` for `sNrExts` extents. -/
def allocLoop (fuel aLGHdrPID : Nat) : Nat → File → Except Failure (File × List Nat)
  | 0, f => .ok (f, [])
  | sNrExts + 1, f =>
      let sLGHdr := f.page aLGHdrPID
      if sLGHdr.mFree > 0 then
        match findZeroBitFromHint fuel sLGHdr.mBitmap 0 sLGHdr.mValidBits sLGHdr.mHint with
        | none => .error .noAnswer
        | some sBitIdx =>
            if sBitIdx < sLGHdr.mValidBits then
              match sLGHdr.allocByBitmapIndex sBitIdx with
              | .error e => .error e
              | .ok sLGHdr' =>
                  let gg := f.ggHdr.logAndModifyFreeExtsOfGG (-1)
                  let aExtFstPID := sLGHdr'.mStartPID + gg.mPagesPerExt * sBitIdx
                  let f' : File :=
                    { f with
                      ggHdr := gg.raiseHWM (lastPIDOfExtent aExtFstPID gg.mPagesPerExt)
                      page := Function.update f.page aLGHdrPID sLGHdr' }
                  match allocLoop fuel aLGHdrPID sNrExts f' with
                  | .error e => .error e
                  | .ok r => .ok (r.1, aExtFstPID :: r.2)
            else
              -- a free extent was counted and none is found
              .error .errorMsg
      else
        -- the group has no free extent left
        .ok (f, [])

/-- `allocExtsInLG`: the extents and how many are still free in the group. -/
def allocExtsInLG (fuel : Nat) (f : File) (aLGHdrPID aOrgNrExts : Nat) :
    Except Failure (File × List Nat × Nat) :=
  let sLGHdr := f.page aLGHdrPID
  if sLGHdr.mFree > 0 ∧ sLGHdr.mValidBits > sLGHdr.mHint then
    match allocLoop fuel aLGHdrPID aOrgNrExts f with
    | .error e => .error e
    | .ok r => .ok (r.1, r.2, (r.1.page aLGHdrPID).mFree)
  else
    .error .errorMsg

/-- The memory the search of the group bits reads: the bits, then what lies behind. -/
def freenessMem (gg : GGHdr) (behind : Mem) (w : AllocLGIdx) : Mem :=
  fun a => if a < 16 then (gg.mLGFreeness w).mBits a else behind a

/-- `tryAllocExtsInGG`.  The callers ask for one extent. -/
def tryAllocExtsInGG (nBits fuel : Nat) (behind : Mem) (f : File) :
    Except Failure (File × List Nat) :=
  let gg := f.ggHdr
  match findBit fuel (freenessMem gg behind gg.mAllocLGIdx) 0 gg.mLGCnt with
  | none => .error .noAnswer
  | some sLGID =>
      if sLGID < gg.mLGCnt then
        let sLGHdrPID := lgHdrPIDFromLGID nBits gg.mGGID sLGID gg.mAllocLGIdx.toNat gg.mPagesPerExt
        match f.allocExtsInLG fuel sLGHdrPID 1 with
        | .error e => .error e
        | .ok (f', aExtFstPID, sFreeInLG) =>
            if aExtFstPID.length = 0 ∨ aExtFstPID.length > 4 then
              .error .errorMsg
            else if sFreeInLG = 0 then
              match f'.ggHdr.logAndSetLGFNBitsOfGG
                  (getLGIDByPID nBits sLGHdrPID f'.ggHdr.mPagesPerExt) false with
              | .error e => .error e
              | .ok gg' => .ok (trySwitch { f' with ggHdr := gg' }, aExtFstPID)
            else
              .ok (trySwitch f', aExtFstPID)
      else if sLGID = bitNotFound then
        -- another transaction took the last free extents
        .ok (trySwitch f, [])
      else
        .error .errorMsg

/-- The body of the loop of `freeExtsInLG`. -/
def freeOneExt (sLGID sStartFPID sLGHdrPID : Nat) (f : File) (e : SortExtSlot) :
    Except Failure File :=
  let sExtentIDInLG := (sdMakeFPID e.mExtFstPID - sStartFPID) / f.ggHdr.mPagesPerExt
  match (f.page sLGHdrPID).freeByBitmapIndex sExtentIDInLG with
  | .error x => .error x
  | .ok sLGHdr' =>
      let sDeallocLGType := f.ggHdr.mAllocLGIdx.dealloc
      let gg := f.ggHdr.logAndModifyFreeExtsOfGGByLGType sDeallocLGType 1
      let gg' :=
        if getBit (gg.mLGFreeness sDeallocLGType).mBits 0 sLGID = false then
          gg.writeFNBit sDeallocLGType sLGID true
        else gg
      .ok { f with ggHdr := gg', page := Function.update f.page sLGHdrPID sLGHdr' }

/-- The loop of `freeExtsInLG`: the slots of one file and group, as far as they go. -/
def freeLoop (sFID sLGID sStartFPID sLGHdrPID : Nat) :
    List SortExtSlot → File → Except Failure (File × Nat)
  | [], f => .ok (f, 0)
  | e :: es, f =>
      if sFID = sdMakeFID e.mExtFstPID ∧ sLGID = e.mLocalGroupID then
        match f.freeOneExt sLGID sStartFPID sLGHdrPID e with
        | .error x => .error x
        | .ok f' =>
            match freeLoop sFID sLGID sStartFPID sLGHdrPID es f' with
            | .error x => .error x
            | .ok r => .ok (r.1, r.2 + 1)
      else
        .ok (f, 0)

/-- `freeExtsInLG` from `aBeginIndex` on: the file and `aNrDone`. -/
def freeExtsInLG (nBits : Nat) (f : File) (aSortedExts : List SortExtSlot) (aBeginIndex : Nat) :
    Except Failure (File × Nat) :=
  match aSortedExts.drop aBeginIndex with
  | [] => .error .assertion
  | e :: es =>
      let sFID := sdMakeFID e.mExtFstPID
      let sLGID := e.mLocalGroupID
      if sLGID < lgCntMax then
        let sStartFPID := extentStartFPIDFromLGID nBits sLGID f.ggHdr.mPagesPerExt
        let sLGHdrPID := lgHdrPIDFromLGID nBits f.ggHdr.mGGID sLGID
          f.ggHdr.mAllocLGIdx.dealloc.toNat f.ggHdr.mPagesPerExt
        match freeLoop sFID sLGID sStartFPID sLGHdrPID (e :: es) f with
        | .error x => .error x
        | .ok r => .ok (trySwitch r.1, r.2)
      else
        .error .assertion

end File

/-! ## §4. A new file. -/

/-- `SD_PAGE_SIZE`. -/
def sdPageSize : Nat := 2 ^ 13

/-- `getNGroups`: the number of groups and whether the last one is a part. -/
def getNGroups (nBits aPageCnt aPagesPerExt : Nat) : Nat × Bool :=
  let sSizeInByte := (aPageCnt - ggHdrPageCnt) * sdPageSize
  let sLGSizeInByte := pagesPerLG nBits aPagesPerExt * sdPageSize
  let sNum := sSizeInByte / sLGSizeInByte
  let sRest := sSizeInByte % sLGSizeInByte
  if sRest / sdPageSize ≥ lgHdrPageCnt + aPagesPerExt then
    (sNum + 1, true)
  else
    (sNum, false)

/-- `getExtCntOfLastLG`. -/
def getExtCntOfLastLG (nBits aPageCnt aPagesPerExt : Nat) : Nat :=
  let sRestPageCnt := (aPageCnt - ggHdrPageCnt) % pagesPerLG nBits aPagesPerExt
  if sRestPageCnt ≥ lgHdrPageCnt + aPagesPerExt then
    (sRestPageCnt - lgHdrPageCnt) / aPagesPerExt
  else
    nBits

/-- `memset` of `n` bytes. -/
def memset (m : Mem) (aAddr : Nat) (b : UChar) (n : Nat) : Mem :=
  fun a => if aAddr ≤ a ∧ a < aAddr + n then b else m a

/-- `SDPTB_LG_BITMAP_MAGIC`. -/
def lgBitmapMagic : UChar := 0xAF#8

/-- The loop of `initBitmapOfLG` up to a byte boundary: index and count behind it. -/
def initToByte (aBitVal : Bool) (m : Mem) (aStartIdx : Nat) : Nat → Mem × Nat × Nat
  | 0 => (m, aStartIdx, 0)
  | aCount + 1 =>
      if aStartIdx % 8 ≠ 0 then
        initToByte aBitVal ((if aBitVal then setBit else clearBit) m 0 aStartIdx)
          (aStartIdx + 1) aCount
      else
        (m, aStartIdx, aCount + 1)

/-- `initBitmapOfLG`: set `aCount` bits from `aStartIdx` on. -/
def initBitmapOfLG (nBits : Nat) (m : Mem) (aBitVal : Bool) (aStartIdx aCount : Nat) : Mem :=
  let sMagic := if aStartIdx = 0 then memset m (nBits / 8 + 1) lgBitmapMagic 1 else m
  let sBytes := initToByte aBitVal sMagic aStartIdx aCount
  let sNrBytes := sBytes.2.2 / 8
  let sRest := sBytes.2.2 % 8
  let sStartBitmap := sBytes.2.1 / 8
  let sByteForMemset : UChar := if aBitVal then 0xFF#8 else 0x00#8
  let sFilled :=
    if sNrBytes > 0 then memset sBytes.1 sStartBitmap sByteForMemset sNrBytes else sBytes.1
  if sRest ≠ 0 then
    let sLastByte : UChar := if aBitVal then ~~~(0xFF#8 <<< sRest) else 0xFF#8 <<< sRest
    memset sFilled (sStartBitmap + sNrBytes) sLastByte 1
  else
    sFilled

/-- `sdptbLGType`. -/
inductive LGType
  | alloc
  | dealloc
  deriving Repr, DecidableEq

/-- `logAndInitLGHdrPage`. -/
def logAndInitLGHdrPage (nBits : Nat) (f : File) (aFID aLGID : Nat) (aLGType : LGType)
    (aValidBits aPagesPerExt : Nat) : File :=
  let sWhich := match aLGType with
    | .alloc => f.ggHdr.mAllocLGIdx
    | .dealloc => f.ggHdr.mAllocLGIdx.dealloc
  let sLGHdrPID := lgHdrPIDFromLGID nBits aFID aLGID sWhich.toNat aPagesPerExt
  let sStartPID := sdCreatePID aFID (extentStartFPIDFromLGID nBits aLGID aPagesPerExt)
  let sBitmap := initBitmapOfLG nBits (f.page sLGHdrPID).mBitmap (aLGType = .dealloc) 0 aValidBits
  let sLGHdr : LGHdr :=
    { mLGID := aLGID, mStartPID := sStartPID, mValidBits := aValidBits, mBitmap := sBitmap
      mFree := match aLGType with | .alloc => aValidBits | .dealloc => 0
      mHint := match aLGType with | .alloc => 0 | .dealloc => aValidBits }
  { f with page := Function.update f.page sLGHdrPID sLGHdr }

/-- The body of the loop of `makeNewLGHdrs`. -/
def makeLGHdr (nBits : Nat) (f : File) (aLGCntOfGG aFID aPagesPerExt aPageCntOfGG sLGID : Nat) :
    File :=
  let sValidBits :=
    if sLGID < aLGCntOfGG - 1 then nBits else getExtCntOfLastLG nBits aPageCntOfGG aPagesPerExt
  let f1 := logAndInitLGHdrPage nBits f aFID sLGID .alloc sValidBits aPagesPerExt
  let f2 := logAndInitLGHdrPage nBits f1 aFID sLGID .dealloc sValidBits aPagesPerExt
  if sValidBits > 0 then
    { f2 with ggHdr := f2.ggHdr.writeFNBit f2.ggHdr.mAllocLGIdx sLGID true }
  else
    f2

/-- `makeNewLGHdrs` for the first `n` groups. -/
def makeNewLGHdrs (nBits : Nat) (f : File) (aLGCntOfGG aFID aPagesPerExt aPageCntOfGG : Nat) :
    Nat → File
  | 0 => f
  | n + 1 =>
      makeLGHdr nBits (makeNewLGHdrs nBits f aLGCntOfGG aFID aPagesPerExt aPageCntOfGG n)
        aLGCntOfGG aFID aPagesPerExt aPageCntOfGG n

/-- `logAndInitGGHdrPage`. -/
def logAndInitGGHdrPage (nBits aGGID aPagesPerExt aLGCnt aPageCnt : Nat) (aIsExtraLG : Bool) :
    GGHdr :=
  let sLongVal :=
    if aIsExtraLG then
      nBits * (aLGCnt - 1) + getExtCntOfLastLG nBits aPageCnt aPagesPerExt
    else
      nBits * aLGCnt
  { mGGID := aGGID, mPagesPerExt := aPagesPerExt, mHWM := sdCreatePID aGGID 0, mLGCnt := aLGCnt
    mAllocLGIdx := .idx0
    mLGFreeness := fun
      | .idx0 => ⟨sLongVal, fun _ => 0#8⟩
      | .idx1 => ⟨0, fun _ => 0#8⟩ }

/-- What `makeMetaHeaders` is given and asserts: the file has an id, at least one
    extent, no more pages than page ids, and at most 128 groups. -/
structure FileAttr where
  nBits : Nat
  mID : Nat
  mPagesPerExt : Nat
  mCurrSize : Nat
  nBits_pos : 0 < nBits
  mID_lt : mID < 2 ^ sdFIDBitSize
  pagesPerExt_pos : 0 < mPagesPerExt
  size_ge : mPagesPerExt + ggHdrPageCnt + lgHdrPageCnt ≤ mCurrSize
  size_le : mCurrSize ≤ 2 ^ sdFPIDBitSize
  groups_le : (getNGroups nBits mCurrSize mPagesPerExt).1 ≤ lgCntMax

/-- `makeMetaHeaders`, on pages with any content. -/
def makeMetaHeaders (g : FileAttr) (page : Nat → LGHdr) : File :=
  let sLGCnt := getNGroups g.nBits g.mCurrSize g.mPagesPerExt
  makeNewLGHdrs g.nBits
    { ggHdr := logAndInitGGHdrPage g.nBits g.mID g.mPagesPerExt sLGCnt.1 g.mCurrSize sLGCnt.2
      page := page
      freenessOfGG := true }
    sLGCnt.1 g.mID g.mPagesPerExt g.mCurrSize sLGCnt.1

end Altibase.Sdp
