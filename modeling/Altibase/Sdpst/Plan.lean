/-
  Altibase.Sdpst.Plan
  ───────────────────
  **THE PLAN OF A NEW EXTENT.**

  `PlanOk` collects what `getAftAllocExtInfo` guarantees: how many pages of each kind
  are made, rounded up from what the last pages have no slot left for, and that the
  meta pages leave at least one data page.  The counts fit in a `UShort` because the
  page range grows with the segment.

  Main results:
    * `estBMPCnt_le` — the number of leaf pages of an extent;
    * `metaCnt_lt` — the meta pages do not fill the extent;
    * `aftAllocExtInfo_ok` — the plan;
    * `getAftAllocExtInfo_eq` — no division by zero, where the slot counts are positive;
    * `allocNewExt_noSlots` — a new segment where they are not.
-/
import Altibase.Lib.Chunks
import Altibase.Sdp.Extent
import Altibase.Sdpst.AllocExt

namespace Altibase.Sdpst

open Altibase.Lib

/-! ## §1. What the caller promises. -/

/-- `SDP_MIN_EXTENT_PAGE_CNT`: a tablespace with smaller extents cannot be created. -/
def minExtentPageCnt : Nat := 5

/-- An extent as the tablespace hands it out: it lies in one data file. -/
structure ExtOk (e : ExtDesc) : Prop where
  fst_pos : 0 < e.mExtFstPID
  min : minExtentPageCnt ≤ e.mLength
  max : e.mLength ≤ 2 ^ Sdp.sdFPIDBitSize

/-- The information before the allocation, as it is read from the last pages. -/
structure BfrOk (aSegPID : Nat) (bfr : BfrAllocExtInfo) : Prop where
  maxIt : 0 < bfr.mMaxSlotCnt .ITBMP
  maxRt : 0 < bfr.mMaxSlotCnt .RTBMP
  maxLf : 0 < bfr.mMaxSlotCnt .LFBMP
  freeIt : bfr.mFreeSlotCnt .ITBMP ≤ bfr.mMaxSlotCnt .ITBMP
  freeRt : bfr.mFreeSlotCnt .RTBMP ≤ bfr.mMaxSlotCnt .RTBMP
  maxExtDir : bfr.mMaxSlotCnt .EXTDIR < 2 ^ 16
  /-- Without a segment the header page is still to be made, and all of it is free. -/
  noSeg : aSegPID = 0 → 0 < bfr.mFreeSlotCnt .EXTDIR ∧ bfr.mFreeSlotCnt .LFBMP = 0 ∧
    bfr.mFreeSlotCnt .ITBMP = 0 ∧ bfr.mFreeSlotCnt .RTBMP = bfr.mMaxSlotCnt .RTBMP
  noSegExtDir : aSegPID = 0 → bfr.mMaxSlotCnt .EXTDIR = bfr.mFreeSlotCnt .EXTDIR

/-! ## §2. The page range. -/

theorem selectPageRange_cases (n : Nat) :
    (selectPageRange n = 16 ∧ n < 128) ∨ (selectPageRange n = 64 ∧ n < 8192) ∨
      (selectPageRange n = 256 ∧ n < 131072) ∨ selectPageRange n = 1024 := by
  have h1 : pageCnt1M = 128 := by decide
  have h2 : pageCnt64M = 8192 := by decide
  have h3 : pageCnt1024M = 131072 := by decide
  unfold selectPageRange pageRange1024
  rw [h1, h2, h3]
  split_ifs <;> omega

theorem selectPageRange_bounds (n : Nat) : 16 ≤ selectPageRange n ∧ selectPageRange n ≤ 1024 := by
  rcases selectPageRange_cases n with ⟨h, -⟩ | ⟨h, -⟩ | ⟨h, -⟩ | h <;> omega

/-- An extent needs few leaf pages: a small range is only chosen for a small segment. -/
theorem estBMPCnt_le {n tot : Nat} (hle : n ≤ tot) (hmax : n ≤ 2 ^ Sdp.sdFPIDBitSize) :
    chunks n (selectPageRange tot) ≤ 4096 := by
  have hbits : 2 ^ Sdp.sdFPIDBitSize = 4194304 := by decide
  rw [hbits] at hmax
  have hpos := (selectPageRange_bounds tot).1
  refine chunks_le_of_mul_le (by omega) ?_
  rcases selectPageRange_cases tot with ⟨h, h'⟩ | ⟨h, h'⟩ | ⟨h, h'⟩ | h <;> omega

/-- Sixteen pages at least to a leaf page. -/
theorem estBMPCnt_mul_le {n tot : Nat} :
    16 * chunks n (selectPageRange tot) ≤ n + 15 := by
  have hpos := (selectPageRange_bounds tot).1
  by_contra hlt
  have hbound : chunks n (selectPageRange tot) ≤ (n + 15) / 16 := by
    refine chunks_le_of_mul_le (by omega) ?_
    have h16 : 16 * ((n + 15) / 16) ≤ selectPageRange tot * ((n + 15) / 16) :=
      Nat.mul_le_mul_right _ hpos
    omega
  omega

/-! ## §3. The plan. -/

/-- **What the plan guarantees.** -/
structure PlanOk (aSegPID : Nat) (e : ExtDesc) (bfr : BfrAllocExtInfo) (aft : AftAllocExtInfo) :
    Prop where
  range_pos : 0 < aft.mPageRange
  range_le : aft.mPageRange ≤ 1024
  extDirCnt : aft.mPageCnt .EXTDIR = if bfr.mFreeSlotCnt .EXTDIR = 0 then 1 else 0
  range : aft.mPageRange = selectPageRange (bfr.mTotPageCnt + e.mLength)
  lfCnt : aft.mPageCnt .LFBMP = if bfr.mPageRange = aft.mPageRange ∧
      0 < bfr.mFreeSlotCnt .LFBMP ∧ e.mLength ≤ bfr.mFreePageRangeCnt then 0
    else chunks e.mLength aft.mPageRange
  itCnt : aft.mPageCnt .ITBMP =
    chunks (aft.mPageCnt .LFBMP - bfr.mFreeSlotCnt .ITBMP) (bfr.mMaxSlotCnt .ITBMP)
  rtCnt : aft.mPageCnt .RTBMP =
    chunks (aft.mPageCnt .ITBMP - bfr.mFreeSlotCnt .RTBMP) (bfr.mMaxSlotCnt .RTBMP)
  segHdrCnt : aft.mSegHdrCnt = if aSegPID = 0 then 1 else 0
  noFull : aft.mFullBMPCnt = fun _ => 0
  metaCnt_lt : aft.metaCnt < e.mLength
  metaCnt_ushort : toUShort aft.metaCnt = aft.metaCnt
  lstExtDir : aft.mLstPID .EXTDIR = if aSegPID ≠ 0 ∧ bfr.mFreeSlotCnt .EXTDIR = 0
    then e.mExtFstPID else bfr.mLstPID .EXTDIR
  lstLf : aft.mLstPID .LFBMP = if aft.mPageCnt .LFBMP = 0 then bfr.mLstPID .LFBMP
    else e.mExtFstPID + aft.mPageCnt .EXTDIR + aft.mPageCnt .LFBMP - 1
  lstIt : aft.mLstPID .ITBMP = if aft.mPageCnt .ITBMP = 0 then bfr.mLstPID .ITBMP
    else e.mExtFstPID + aft.mPageCnt .EXTDIR + aft.mPageCnt .LFBMP + aft.mPageCnt .ITBMP - 1
  lstRt : aft.mLstPID .RTBMP = if aft.mPageCnt .RTBMP = 0 ∨ aSegPID = 0 then bfr.mLstPID .RTBMP
    else e.mExtFstPID + aft.mPageCnt .EXTDIR + aft.mPageCnt .LFBMP + aft.mPageCnt .ITBMP +
      aft.mPageCnt .RTBMP - 1
  lfBMP4ExtDir : aft.mPageCnt .LFBMP = 0 → aft.mPageCnt .EXTDIR = 1 →
    aft.mLfBMP4ExtDir = bfr.mLstPID .LFBMP
  totPageCnt : aft.mTotPageCnt = bfr.mTotPageCnt + e.mLength
  newSeg : aSegPID = 0 → bfr.mLstPID .RTBMP = e.mExtFstPID + aft.mPageCnt .EXTDIR +
      aft.mPageCnt .LFBMP + aft.mPageCnt .ITBMP + aft.mPageCnt .RTBMP ∧
    bfr.mLstPID .EXTDIR = bfr.mLstPID .RTBMP

/-- New leaf pages take the whole extent. -/
theorem PlanOk.newLf {aSegPID : Nat} {e : ExtDesc} {bfr : BfrAllocExtInfo} {aft : AftAllocExtInfo}
    (hp : PlanOk aSegPID e bfr aft) (hpos : 0 < aft.mPageCnt .LFBMP) :
    aft.mPageCnt .LFBMP = chunks e.mLength aft.mPageRange := by
  have hcnt := hp.lfCnt
  split at hcnt
  · omega
  · exact hcnt

/-- The number of pages of each kind: at most one root page for each internal page, and
    one internal page for each leaf page. -/
theorem metaCnt_lt {n nE nL nI nR nH : Nat} (hn : minExtentPageCnt ≤ n) (hE : nE ≤ 1)
    (hL : 16 * nL ≤ n + 15) (hI : nI ≤ nL) (hR : nR ≤ nI)
    (hH : nH = 0 ∨ nE = 0 ∧ nH = 1 ∧ (nI = 0 ∨ nR < nI)) :
    nE + nL + nI + nR + nH < n := by
  unfold minExtentPageCnt at hn
  omega

theorem toUShort_lt {n : Nat} : toUShort n < 2 ^ 16 := Nat.mod_lt _ (by decide)

theorem toUShort_of_lt {n : Nat} (h : n < 2 ^ 16) : toUShort n = n := Nat.mod_eq_of_lt h

/-- **The plan.** -/
theorem aftAllocExtInfo_ok {aSegPID : Nat} {e : ExtDesc} {bfr bfr' : BfrAllocExtInfo}
    {aft : AftAllocExtInfo} (he : ExtOk e) (hb : BfrOk aSegPID bfr)
    (h : aftAllocExtInfo aSegPID e bfr = (bfr', aft)) :
    PlanOk aSegPID e bfr' aft ∧ bfr'.mFreeSlotCnt = bfr.mFreeSlotCnt ∧
      bfr'.mMaxSlotCnt = bfr.mMaxSlotCnt ∧ bfr'.mPageRange = bfr.mPageRange ∧
      bfr'.mFreePageRangeCnt = bfr.mFreePageRangeCnt ∧ bfr'.mTotPageCnt = bfr.mTotPageCnt ∧
      bfr'.mSlotNoInExtDir = bfr.mSlotNoInExtDir ∧
      (aSegPID ≠ 0 → bfr'.mLstPID = bfr.mLstPID) := by
  -- the numbers of pages
  let R := selectPageRange (bfr.mTotPageCnt + e.mLength)
  let reuse : Bool := bfr.mPageRange = R ∧ 0 < bfr.mFreeSlotCnt .LFBMP ∧
    e.mLength ≤ bfr.mFreePageRangeCnt
  let nE := if bfr.mFreeSlotCnt .EXTDIR = 0 then 1 else 0
  let nL := if reuse then 0 else toUShort (estBMPCnt4NewExt e.mLength R)
  let nI := if reuse then 0
    else if bfr.mFreeSlotCnt .ITBMP < nL then
      toUShort (estBMPCnt4NewExt (nL - bfr.mFreeSlotCnt .ITBMP) (bfr.mMaxSlotCnt .ITBMP))
    else 0
  let nR := if reuse then 0
    else if bfr.mFreeSlotCnt .RTBMP < nI then
      toUShort (estBMPCnt4NewExt (nI - bfr.mFreeSlotCnt .RTBMP) (bfr.mMaxSlotCnt .RTBMP))
    else 0
  let nH := if aSegPID = 0 then 1 else 0
  have hR := selectPageRange_bounds (bfr.mTotPageCnt + e.mLength)
  have hLle : chunks e.mLength R ≤ 4096 := estBMPCnt_le (Nat.le_add_left _ _) he.max
  have hL16 : 16 * chunks e.mLength R ≤ e.mLength + 15 := estBMPCnt_mul_le
  have hnL : nL = if reuse then 0 else chunks e.mLength R := by
    show (if reuse then 0 else toUShort (chunks e.mLength R)) = _
    rw [toUShort_of_lt (by omega)]
  have hnLle : nL ≤ chunks e.mLength R := by
    rw [hnL]
    split <;> omega
  have hnI : nI = chunks (nL - bfr.mFreeSlotCnt .ITBMP) (bfr.mMaxSlotCnt .ITBMP) := by
    have hle := @chunks_le (nL - bfr.mFreeSlotCnt .ITBMP) _ hb.maxIt
    show (if reuse then 0 else if bfr.mFreeSlotCnt .ITBMP < nL then
      toUShort (chunks (nL - bfr.mFreeSlotCnt .ITBMP) (bfr.mMaxSlotCnt .ITBMP)) else 0) = _
    split
    · rename_i hre
      rw [show nL = 0 by rw [hnL, if_pos hre], Nat.zero_sub, chunks_zero hb.maxIt]
    · split
      · exact toUShort_of_lt (by omega)
      · rw [show nL - bfr.mFreeSlotCnt .ITBMP = 0 by omega, chunks_zero hb.maxIt]
  have hnIle : nI ≤ nL - bfr.mFreeSlotCnt .ITBMP := by
    rw [hnI]
    exact chunks_le hb.maxIt
  have hnR : nR = chunks (nI - bfr.mFreeSlotCnt .RTBMP) (bfr.mMaxSlotCnt .RTBMP) := by
    have hle := @chunks_le (nI - bfr.mFreeSlotCnt .RTBMP) _ hb.maxRt
    show (if reuse then 0 else if bfr.mFreeSlotCnt .RTBMP < nI then
      toUShort (chunks (nI - bfr.mFreeSlotCnt .RTBMP) (bfr.mMaxSlotCnt .RTBMP)) else 0) = _
    split
    · rename_i hre
      have hnI0 : nI = 0 := by
        show (if reuse then 0 else _) = 0
        rw [if_pos hre]
      rw [hnI0, Nat.zero_sub, chunks_zero hb.maxRt]
    · split
      · exact toUShort_of_lt (by omega)
      · rw [show nI - bfr.mFreeSlotCnt .RTBMP = 0 by omega, chunks_zero hb.maxRt]
  have hnRle : nR ≤ nI - bfr.mFreeSlotCnt .RTBMP := by
    rw [hnR]
    exact chunks_le hb.maxRt
  have hnE : nE ≤ 1 := by
    show (if _ then 1 else 0) ≤ 1
    split <;> omega
  have hH : nH = 0 ∨ nE = 0 ∧ nH = 1 ∧ (nI = 0 ∨ nR < nI) := by
    by_cases hseg : aSegPID = 0
    · obtain ⟨hfe, -, -, hfr⟩ := hb.noSeg hseg
      have hmax := hb.maxRt
      refine Or.inr ⟨if_neg (by omega), if_pos hseg, ?_⟩
      omega
    · exact Or.inl (if_neg hseg)
  have hmeta := @metaCnt_lt e.mLength nE nL nI nR nH he.min hnE (by omega) (by omega) (by omega) hH
  have hmax : nE + nL + nI + nR + nH < 2 ^ 16 := by omega
  -- the records that are returned
  have hfields := Prod.mk.inj h
  obtain ⟨rfl, rfl⟩ := hfields
  have hreuse : reuse = true ↔ (bfr.mPageRange = R ∧ 0 < bfr.mFreeSlotCnt .LFBMP ∧
      e.mLength ≤ bfr.mFreePageRangeCnt) := decide_eq_true_iff
  have hmin := he.min
  have hnLpos : reuse = false → 0 < nL := by
    intro hre
    rw [hnL, hre, if_neg (by decide)]
    exact chunks_pos (by omega) (by unfold minExtentPageCnt at hmin; omega)
  refine ⟨⟨by show 0 < R; omega, hR.2, rfl, rfl, ?_, hnI, hnR, rfl, rfl, hmeta, toUShort_of_lt hmax,
    ?_, ?_, ?_, ?_, ?_, rfl, ?_⟩, rfl, rfl, rfl, rfl, rfl, rfl, ?_⟩
  · show nL = if bfr.mPageRange = R ∧ _ then 0 else chunks e.mLength R
    rw [hnL]
    by_cases hre : reuse = true
    · rw [if_pos hre, if_pos (hreuse.mp hre)]
    · rw [if_neg hre, if_neg (fun h => hre (hreuse.mpr h))]
  · show (if aSegPID = 0 then _ else if bfr.mFreeSlotCnt .EXTDIR = 0 then e.mExtFstPID
      else bfr.mLstPID .EXTDIR) = if aSegPID ≠ 0 ∧ bfr.mFreeSlotCnt .EXTDIR = 0
      then e.mExtFstPID else if aSegPID = 0 then _ else bfr.mLstPID .EXTDIR
    by_cases hseg : aSegPID = 0
    · rw [if_pos hseg, if_neg (show ¬ (aSegPID ≠ 0 ∧ bfr.mFreeSlotCnt .EXTDIR = 0) from
        fun hc => hc.1 hseg), if_pos hseg]
    · rw [if_neg hseg, if_neg hseg]
      by_cases hf : bfr.mFreeSlotCnt .EXTDIR = 0
      · rw [if_pos hf, if_pos ⟨hseg, hf⟩]
      · rw [if_neg hf, if_neg (fun hc => hf hc.2)]
  · show (if reuse then bfr.mLstPID .LFBMP else e.mExtFstPID + nE + nL - 1) =
      if nL = 0 then bfr.mLstPID .LFBMP else e.mExtFstPID + nE + nL - 1
    cases hre : reuse with
    | true => rw [if_pos rfl, if_pos (by rw [hnL, hre, if_pos rfl])]
    | false =>
        have hpos := hnLpos hre
        rw [if_neg (by decide), if_neg (by omega)]
  · show (if 0 < nI then e.mExtFstPID + nE + nL + nI - 1 else bfr.mLstPID .ITBMP) =
      if nI = 0 then bfr.mLstPID .ITBMP else e.mExtFstPID + nE + nL + nI - 1
    split_ifs <;> omega
  · show (if aSegPID = 0 then _ else if 0 < nR then e.mExtFstPID + nE + nL + nI + nR - 1
      else bfr.mLstPID .RTBMP) = if nR = 0 ∨ aSegPID = 0 then
        (if aSegPID = 0 then _ else bfr.mLstPID .RTBMP)
      else e.mExtFstPID + nE + nL + nI + nR - 1
    by_cases hseg : aSegPID = 0
    · rw [if_pos hseg, if_pos (Or.inr hseg), if_pos hseg]
    · rw [if_neg hseg, if_neg hseg]
      split_ifs <;> omega
  · intro hl hE
    show (if reuse ∧ nE = 1 then bfr.mLstPID .LFBMP else 0) = bfr.mLstPID .LFBMP
    have hre : reuse = true := by
      by_contra hne
      have hpos := hnLpos (by simpa using hne)
      have hl' : nL = 0 := hl
      omega
    rw [if_pos ⟨hre, hE⟩]
  · intro hseg
    refine ⟨?_, ?_⟩
    · show (if aSegPID = 0 then e.mExtFstPID + nE + nL + nI + nR else _) = _
      rw [if_pos hseg]
    · show (if aSegPID = 0 then _ else _) = if aSegPID = 0 then _ else _
      rw [if_pos hseg, if_pos hseg]
  · intro hseg
    funext t
    cases t
    · exact if_neg hseg
    · exact if_neg hseg
    · rfl
    · rfl

/-- Positive slot counts are divided by. -/
theorem getAftAllocExtInfo_eq {aSegPID : Nat} {e : ExtDesc} {bfr : BfrAllocExtInfo}
    (hb : BfrOk aSegPID bfr) :
    getAftAllocExtInfo aSegPID e bfr = .ok (aftAllocExtInfo aSegPID e bfr) := by
  have hI := hb.maxIt
  have hR := hb.maxRt
  unfold getAftAllocExtInfo
  dsimp only
  rw [if_neg (fun h => by omega), if_neg (fun h => by omega)]

/-! ## §4. A new segment without slots. -/

/-- A slot count that a new segment needs is zero in the `UShort` that keeps it. -/
def BfrAllocExtInfo.NoSlots (aSegPID : Nat) (bfr : BfrAllocExtInfo) : Prop :=
  bfr.mMaxSlotCnt .ITBMP = 0 ∨ bfr.mMaxSlotCnt .RTBMP = 0 ∨
    (aSegPID = 0 ∧ bfr.mFreeSlotCnt .EXTDIR = 0)

theorem BfrOk.not_noSlots {aSegPID : Nat} {bfr : BfrAllocExtInfo} (hb : BfrOk aSegPID bfr) :
    ¬ bfr.NoSlots aSegPID := by
  have hI := hb.maxIt
  have hR := hb.maxRt
  rintro (h | h | ⟨h0, h⟩)
  · omega
  · omega
  · have hE := (hb.noSeg h0).1
    omega

/-- What a segment handle without a segment gives, whatever the properties are. -/
structure NewSegInfo (bfr : BfrAllocExtInfo) : Prop where
  freeLf : bfr.mFreeSlotCnt .LFBMP = 0
  freeIt : bfr.mFreeSlotCnt .ITBMP = 0
  freeRt : bfr.mFreeSlotCnt .RTBMP = bfr.mMaxSlotCnt .RTBMP

section NewSeg

variable {aSegPID : Nat} {e : ExtDesc} {bfr : BfrAllocExtInfo}

/-- The leaf pages of a new segment. -/
theorem NewSegInfo.lfCnt (hnew : NewSegInfo bfr) (he : ExtOk e) :
    0 < (aftAllocExtInfo aSegPID e bfr).2.mPageCnt .LFBMP ∧
      (aftAllocExtInfo aSegPID e bfr).2.mPageCnt .LFBMP ≤ 4096 := by
  have hmin := he.min
  have hR := (selectPageRange_bounds (bfr.mTotPageCnt + e.mLength)).1
  unfold minExtentPageCnt at hmin
  have hpos := chunks_pos (show 0 < selectPageRange (bfr.mTotPageCnt + e.mLength) by omega)
    (show 0 < e.mLength by omega)
  have hle := estBMPCnt_le (Nat.le_add_left e.mLength bfr.mTotPageCnt) he.max
  have hcnt : (aftAllocExtInfo aSegPID e bfr).2.mPageCnt .LFBMP =
      toUShort (chunks e.mLength (selectPageRange (bfr.mTotPageCnt + e.mLength))) := by
    refine if_neg ?_
    rw [decide_eq_true_iff, hnew.freeLf]
    exact fun h => Nat.lt_irrefl 0 h.2.1
  rw [hcnt, toUShort_of_lt (by omega)]
  exact ⟨hpos, hle⟩

/-- The internal pages of a new segment. -/
theorem NewSegInfo.itCnt (hnew : NewSegInfo bfr) (he : ExtOk e)
    (hmax : 0 < bfr.mMaxSlotCnt .ITBMP) :
    0 < (aftAllocExtInfo aSegPID e bfr).2.mPageCnt .ITBMP := by
  obtain ⟨hpos, hle⟩ := @NewSegInfo.lfCnt aSegPID e bfr hnew he
  generalize hnL : (aftAllocExtInfo aSegPID e bfr).2.mPageCnt .LFBMP = nL at hpos hle
  have hcnt : (aftAllocExtInfo aSegPID e bfr).2.mPageCnt .ITBMP =
      toUShort (chunks nL (bfr.mMaxSlotCnt .ITBMP)) := by
    refine (if_neg ?_).trans ((if_pos ?_).trans ?_)
    · rw [decide_eq_true_iff, hnew.freeLf]
      exact fun h => Nat.lt_irrefl 0 h.2.1
    · show bfr.mFreeSlotCnt .ITBMP < (aftAllocExtInfo aSegPID e bfr).2.mPageCnt .LFBMP
      rw [hnL, hnew.freeIt]
      exact hpos
    · show toUShort (chunks ((aftAllocExtInfo aSegPID e bfr).2.mPageCnt .LFBMP -
        bfr.mFreeSlotCnt .ITBMP) _) = _
      rw [hnL, hnew.freeIt, Nat.sub_zero]
  have hchunks := @chunks_le nL _ hmax
  rw [hcnt, toUShort_of_lt (by omega)]
  exact chunks_pos hmax hpos

end NewSeg

/-- **A new segment without slots stops the server**: at the division, or, without room
    for an extent in the segment header, at the page id of the extent directory. -/
theorem allocNewExt_noSlots {props : TmsProps} {seg : Seg} {e : ExtDesc} {bfr : BfrAllocExtInfo}
    (he : ExtOk e) (h0 : seg.mSegPID = 0) (hget : getBfrAllocExtInfo props seg = .ok bfr)
    (hnew : NewSegInfo bfr) (hno : bfr.NoSlots seg.mSegPID) :
    allocNewExt props seg e = .error .divideByZero ∨
      allocNewExt props seg e = .error .extDirDiffers := by
  have hlf := (@NewSegInfo.lfCnt seg.mSegPID e bfr hnew he).1
  unfold allocNewExt
  rw [hget]
  dsimp only
  by_cases hI : bfr.mMaxSlotCnt .ITBMP = 0
  · left
    have hdiv : getAftAllocExtInfo seg.mSegPID e bfr = .error .divideByZero :=
      if_pos ⟨by rw [hnew.freeIt]; exact hlf, hI⟩
    rw [hdiv]
  have hit := @NewSegInfo.itCnt seg.mSegPID e bfr hnew he (by omega)
  by_cases hR : bfr.mMaxSlotCnt .RTBMP = 0
  · left
    have hdiv : getAftAllocExtInfo seg.mSegPID e bfr = .error .divideByZero :=
      (if_neg (fun h => hI h.2)).trans (if_pos ⟨by rw [hnew.freeRt, hR]; exact hit, hR⟩)
    rw [hdiv]
  · right
    have hE : bfr.mFreeSlotCnt .EXTDIR = 0 := by
      rcases hno with h | h | h
      · exact absurd h hI
      · exact absurd h hR
      · exact h.2
    have hok : getAftAllocExtInfo seg.mSegPID e bfr = .ok (aftAllocExtInfo seg.mSegPID e bfr) :=
      (if_neg (fun h => hI h.2)).trans (if_neg (fun h => hR h.2))
    rw [hok]
    let plan := (aftAllocExtInfo seg.mSegPID e bfr).2
    have hnE : plan.mPageCnt .EXTDIR = 1 := if_pos hE
    -- planned in the segment header, but a page at the start of the extent
    have hlst : plan.mLstPID .EXTDIR = e.mExtFstPID + plan.mPageCnt .EXTDIR +
        plan.mPageCnt .LFBMP + plan.mPageCnt .ITBMP + plan.mPageCnt .RTBMP := if_pos h0
    have hlf' : lfCreateAndInitPages seg e (aftAllocExtInfo seg.mSegPID e bfr).1 plan =
        .error .extDirDiffers := by
      refine if_pos ?_
      rw [if_pos (by omega), decide_eq_true_iff]
      omega
    dsimp only
    unfold createMetaPages
    rw [if_pos hlf, hlf']

end Altibase.Sdpst
