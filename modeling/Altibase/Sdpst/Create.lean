/-
  Altibase.Sdpst.Create
  ─────────────────────
  **WHAT `createMetaPages` LEAVES BEHIND.**

  The four stages of `createMetaPages` make the leaf pages, the internal pages, the
  root pages and the segment header, each behind the pages of the stage before.
  `Created` describes the segment afterwards: every new page by its number, every
  other page as it was.

  Main results:
    * `lfStage`, `bmpStage` — one stage;
    * `createMetaPages_spec` — all of them.
-/
import Altibase.Sdpst.Pages

namespace Altibase.Sdpst

open Altibase.Lib

variable {aSegPID : Nat} {seg : Seg} {e : ExtDesc} {bfr : BfrAllocExtInfo} {aft : AftAllocExtInfo}

/-! ## §1. The stages. -/

/-- The stage of the leaf pages. -/
theorem lfStage (hb : BfrOk aSegPID bfr) (hp : PlanOk aSegPID e bfr aft)
    (hseg : aft.mPageCnt .LFBMP > 0 → aSegPID = 0 → aft.mPageCnt .EXTDIR = 0) :
    ∃ s fst full mgmt data,
      (if aft.mPageCnt .LFBMP > 0 then lfCreateAndInitPages seg e bfr aft else .ok (seg, e, aft)) =
        .ok (s.seg, { e with mExtMgmtLfBMP := mgmt, mExtFstDataPID := data },
          { aft with mFstPID := fst, mFullBMPCnt := full }) ∧
      LfInv seg e bfr aft (aft.mPageCnt .LFBMP) s ∧
      (0 < aft.mPageCnt .LFBMP → full .LFBMP = fullLfCnt aft) ∧ ∀ t, t ≠ .LFBMP → full t = 0 := by
  let sSlot := if bfr.mFreeSlotCnt .ITBMP > 0 then
      bfr.mMaxSlotCnt .ITBMP - bfr.mFreeSlotCnt .ITBMP
    else 0
  have hinv0 : LfInv seg e bfr aft 0
      ⟨seg, basePID e aft .LFBMP, sSlot, e.mLength, toUShort aft.metaCnt, 0⟩ := by
    refine ⟨rfl, rfl, ?_, rfl, ?_, rfl, ?_, fun _ _ => rfl, ?_⟩
    · show sSlot % _ = (newParent e bfr aft .LFBMP 0).mIdxInParent
      unfold newParent BMPType.parent
      dsimp only
      by_cases hf : 0 < bfr.mFreeSlotCnt .ITBMP
      · rw [if_pos hf, show sSlot = _ from if_pos hf]
        exact Nat.mod_eq_of_lt (by have := hb.freeIt; omega)
      · rw [if_neg hf, show sSlot = _ from if_neg hf, Nat.zero_sub]
    · show toUShort aft.metaCnt = aft.metaCnt - aft.mPageRange * 0
      rw [hp.metaCnt_ushort, Nat.mul_zero, Nat.sub_zero]
    · intro p
      rw [if_neg (by omega)]
    · intro i hi
      exact absurd hi (Nat.not_lt_zero i)
  by_cases hpos : aft.mPageCnt .LFBMP > 0
  · have hnew := hp.newLf hpos
    obtain ⟨s, hs, hinv⟩ := lfRounds hb hp hnew hinv0 _ le_rfl
    -- the extent directory is where the plan has put it
    have hdir : (if aft.mPageCnt .EXTDIR > 0 then (e.mExtFstPID = aft.mLstPID .EXTDIR : Bool)
        else (bfr.mLstPID .EXTDIR = aft.mLstPID .EXTDIR : Bool)) = true := by
      rw [hp.lstExtDir]
      have hcnt := hp.extDirCnt
      by_cases hE : aft.mPageCnt .EXTDIR > 0
      · have hfree : bfr.mFreeSlotCnt .EXTDIR = 0 := by
          by_contra hne
          rw [if_neg hne] at hcnt
          omega
        rw [if_pos hE, if_pos ⟨fun h0 => by have := hseg hpos h0; omega, hfree⟩]
        exact decide_eq_true rfl
      · have hfree : bfr.mFreeSlotCnt .EXTDIR ≠ 0 := by
          intro h0
          rw [if_pos h0] at hcnt
          omega
        rw [if_neg hE, if_neg (fun h => hfree h.2)]
        exact decide_eq_true rfl
    have hlst : Function.update aft.mLstPID .LFBMP
        (e.mExtFstPID + aft.mPageCnt .EXTDIR + aft.mPageCnt .LFBMP - 1) = aft.mLstPID := by
      rw [Function.update_eq_self_iff, hp.lstLf, if_neg (by omega)]
    refine ⟨s, Function.update aft.mFstPID .LFBMP (basePID e aft .LFBMP),
      Function.update aft.mFullBMPCnt .LFBMP s.sFullBMPCnt, basePID e aft .LFBMP,
      e.mExtFstPID + toUShort aft.metaCnt, ?_, hinv, ?_, ?_⟩
    · rw [if_pos hpos]
      unfold lfCreateAndInitPages
      dsimp only
      rw [if_neg (by simpa using hdir)]
      rw [show rounds (lfLoopBody e bfr aft) ⟨seg, e.mExtFstPID + aft.mPageCnt .EXTDIR, _, _, _, _⟩ _ =
        _ from hs]
      dsimp only
      rw [hlst]
      rfl
    · intro _
      rw [Function.update_self, hinv.full]
      exact Nat.min_eq_right (Nat.le_of_lt (hp.fullCnt_lt hnew hpos))
    · intro t ht
      rw [Function.update_of_ne ht, hp.noFull]
  · have hzero : aft.mPageCnt .LFBMP = 0 := by omega
    refine ⟨_, aft.mFstPID, aft.mFullBMPCnt, e.mExtMgmtLfBMP, e.mExtFstDataPID, ?_,
      by rw [hzero]; exact hinv0, fun h => absurd h hpos, ?_⟩
    · rw [if_neg hpos]
    · intro t _
      rw [hp.noFull]

/-- A stage of internal or root pages. -/
theorem bmpStage {t : BMPType} (hb : BfrOk aSegPID bfr) (hp : PlanOk aSegPID e bfr aft)
    (he : ExtOk e) (ht : t = .ITBMP ∨ t = .RTBMP)
    (hnew : 0 < aft.mPageCnt t → aft.mPageCnt .LFBMP = chunks e.mLength aft.mPageRange)
    {fst lst full : BMPType → Nat} {mgmt data : Nat}
    (hlst : 0 < aft.mPageCnt t → lst t.child + 1 = basePID e aft t)
    (hfull : 0 < aft.mPageCnt t → full t.child = fullCnt aft t.child) :
    let e' := { e with mExtMgmtLfBMP := mgmt, mExtFstDataPID := data }
    let aft' := { aft with mFstPID := fst, mLstPID := lst, mFullBMPCnt := full }
    ((if aft'.mPageCnt t > 0 then bmpCreateAndInitPages seg e' t bfr aft' else .ok (seg, aft')) =
        .error .allSlotsFull ∧ 0 < aft.mPageCnt t ∧
      bfr.mFreeSlotCnt t + bfr.mMaxSlotCnt t ≤ fullCnt aft t.child) ∨
    ∃ s fst',
      (if aft'.mPageCnt t > 0 then bmpCreateAndInitPages seg e' t bfr aft' else .ok (seg, aft')) =
        .ok (s.seg, { aft with
          mFstPID := fst'
          mLstPID := if aft.mPageCnt t = 0 then lst
            else Function.update lst t (basePID e aft t + aft.mPageCnt t - 1)
          mFullBMPCnt := full }) ∧
      BMPInv seg e bfr aft t (full t.parent) (aft.mPageCnt t) s := by
  intro e' aft'
  let sSlot := if t = .ITBMP then bfr.mMaxSlotCnt t.parent - bfr.mFreeSlotCnt t.parent else 0
  let sFull := if bfr.mFreeSlotCnt t ≥ full t.child then 0 else full t.child - bfr.mFreeSlotCnt t
  -- the invariant of the loop before its first page
  have hinv0 : 0 < aft.mPageCnt t → BMPInv seg e bfr aft t (full t.parent) 0
      ⟨seg, lst t.child + 1, sSlot, aft.mPageCnt t.child - bfr.mFreeSlotCnt t, sFull,
        full t.parent⟩ := by
    intro hpos
    refine ⟨rfl, hlst hpos, ?_, rfl, ?_, rfl, ?_, fun _ _ => rfl, ?_⟩
    · intro hit
      subst hit
      show (bfr.mMaxSlotCnt .RTBMP - bfr.mFreeSlotCnt .RTBMP) % bfr.mMaxSlotCnt .RTBMP =
        (newParent e bfr aft .ITBMP 0).mIdxInParent
      unfold newParent BMPType.parent
      dsimp only
      by_cases hf : 0 < bfr.mFreeSlotCnt .RTBMP
      · rw [if_pos hf]
        exact Nat.mod_eq_of_lt (by have := hb.freeRt; omega)
      · rw [if_neg hf, Nat.eq_zero_of_not_pos hf, Nat.sub_zero, Nat.mod_self, Nat.zero_mod]
    · show sFull = fullCnt aft t.child - bfr.mFreeSlotCnt t - bfr.mMaxSlotCnt t * 0
      rw [Nat.mul_zero, Nat.sub_zero, ← hfull hpos]
      show (if _ then _ else _) = _
      split <;> omega
    · intro p
      rw [if_neg (by omega)]
    · intro i hi
      exact absurd hi (Nat.not_lt_zero i)
  by_cases hpos : 0 < aft.mPageCnt t
  · have hbody : bmpLoopBody e' t bfr aft' = bmpLoopBody e t bfr aft := rfl
    -- some page is made: the loop runs to its end, or the slots are all full
    rcases bmpRounds hb hp he (hnew hpos) ht (hinv0 hpos) _ le_rfl with ⟨herr, hf⟩ | ⟨s, hs, hinv⟩
    · refine Or.inl ⟨?_, hpos, hf⟩
      rw [if_pos hpos]
      unfold bmpCreateAndInitPages
      dsimp only
      rw [hbody]
      rw [show rounds (bmpLoopBody e t bfr aft) _ (aft'.mPageCnt t) = _ from herr]
    · refine Or.inr ⟨s, Function.update fst t (lst t.child + 1), ?_, hinv⟩
      rw [if_pos hpos]
      unfold bmpCreateAndInitPages
      dsimp only
      rw [hbody]
      rw [show rounds (bmpLoopBody e t bfr aft) _ (aft'.mPageCnt t) = _ from hs]
      dsimp only
      have hfullEq : Function.update full t.parent s.sParentFullCnt = full := by
        rw [Function.update_eq_self_iff, hinv.parentFull]
      have hlstEq : lst t.child + aft.mPageCnt t = basePID e aft t + aft.mPageCnt t - 1 := by
        have := hlst hpos
        omega
      rw [hfullEq, if_neg (by omega), hlstEq]
  · -- no page is made
    have hzero : aft.mPageCnt t = 0 := by omega
    let s0 : BMPLoop := ⟨seg, basePID e aft t, (newParent e bfr aft .ITBMP 0).mIdxInParent,
      aft.mPageCnt t.child - bfr.mFreeSlotCnt t,
      fullCnt aft t.child - bfr.mFreeSlotCnt t, full t.parent⟩
    refine Or.inr ⟨s0, fst, ?_, ?_⟩
    · rw [if_neg hpos, if_pos hzero]
    · rw [hzero]
      refine ⟨rfl, rfl, ?_, rfl, rfl, rfl, ?_, fun _ _ => rfl, ?_⟩
      · intro _
        exact Nat.mod_eq_of_lt (newParent_idx_lt (t := .ITBMP) hb.maxRt hb.freeRt 0)
      · intro p
        rw [if_neg (by omega)]
      · intro i hi
        exact absurd hi (Nat.not_lt_zero i)

/-! ## §2. All stages. -/

/-- The page id of a new segment header. -/
def hdrPID (e : ExtDesc) (aft : AftAllocExtInfo) : Nat :=
  basePID e aft .RTBMP + aft.mPageCnt .RTBMP

/-- A root page in a new segment header. -/
structure BlankRt (bfr : BfrAllocExtInfo) (b : BMPPage) : Prop where
  type : b.mHdr.mType = .RTBMP
  slotCnt : b.mHdr.mSlotCnt = 0
  max : b.mHdr.mMaxSlotCnt = bfr.mMaxSlotCnt .RTBMP
  counted : Counted b.mHdr b.slotLevel b.mHdr.mSlotCnt

/-- **The segment after its new meta pages were made**, and before the last pages that
    existed know of them. -/
structure Created (aSegPID : Nat) (seg : Seg) (e : ExtDesc) (bfr : BfrAllocExtInfo)
    (aft : AftAllocExtInfo) (seg1 : Seg) : Prop where
  frame : aSegPID ≠ 0 →
    { seg1 with pageType := seg.pageType, lfBMP := seg.lfBMP, bmp := seg.bmp } = seg
  newSeg : aSegPID = 0 → seg1.mSegPID = hdrPID e aft ∧ seg1.mExtDirBase = [] ∧
    seg1.mTotPageCnt = 0 ∧ seg1.mTotExtCnt = 0 ∧
    (∃ map, seg1.extDir = Function.update seg.extDir (hdrPID e aft)
      (some ⟨0, bfr.mMaxSlotCnt .EXTDIR, map⟩)) ∧
    ∃ b, seg1.bmp (hdrPID e aft) = some b ∧ BlankRt bfr b
  types : ∀ p, seg1.pageType p =
    if basePID e aft .LFBMP ≤ p ∧ p < basePID e aft .ITBMP then some .TMS_LFBMP
    else if basePID e aft .ITBMP ≤ p ∧ p < basePID e aft .RTBMP then some .TMS_ITBMP
    else if basePID e aft .RTBMP ≤ p ∧ p < hdrPID e aft then some .TMS_RTBMP
    else if p = hdrPID e aft ∧ aSegPID = 0 then some .TMS_SEGHDR
    else seg.pageType p
  lfOld : ∀ p, ¬ (basePID e aft .LFBMP ≤ p ∧ p < basePID e aft .ITBMP) →
    seg1.lfBMP p = seg.lfBMP p
  lfNew : ∀ i < aft.mPageCnt .LFBMP,
    ∃ l, seg1.lfBMP (basePID e aft .LFBMP + i) = some l ∧ LeafAt e bfr aft i l
  bmpOld : ∀ p, ¬ (basePID e aft .ITBMP ≤ p ∧ p < hdrPID e aft) →
    ¬ (p = hdrPID e aft ∧ aSegPID = 0) → seg1.bmp p = seg.bmp p
  itNew : ∀ j < aft.mPageCnt .ITBMP,
    ∃ b, seg1.bmp (basePID e aft .ITBMP + j) = some b ∧ NodeAt e bfr aft .ITBMP j b
  rtNew : ∀ k < aft.mPageCnt .RTBMP,
    ∃ b, seg1.bmp (basePID e aft .RTBMP + k) = some b ∧ NodeAt e bfr aft .RTBMP k b

/-- The stage of the segment header, after the pages before it. -/
theorem shStage (hb : BfrOk aSegPID bfr) (hp : PlanOk aSegPID e bfr aft)
    {fst lst full : BMPType → Nat} {mgmt data : Nat} (hmax : aft.metaCnt < 2 ^ 16) :
    let e' := { e with mExtMgmtLfBMP := mgmt, mExtFstDataPID := data }
    let aft' := { aft with mFstPID := fst, mLstPID := lst, mFullBMPCnt := full }
    ∃ seg1, (if aft'.mSegHdrCnt = 1 then shCreateAndInitPage seg e' bfr aft' else .ok seg) =
        .ok seg1 ∧
      (aSegPID ≠ 0 → seg1 = seg) ∧
      (aSegPID = 0 → seg1.mSegPID = hdrPID e aft ∧ seg1.mExtDirBase = [] ∧
        seg1.mTotPageCnt = 0 ∧ seg1.mTotExtCnt = 0 ∧
        (∃ map, seg1.extDir = Function.update seg.extDir (hdrPID e aft)
          (some ⟨0, bfr.mMaxSlotCnt .EXTDIR, map⟩)) ∧
        seg1.lfBMP = seg.lfBMP ∧
        seg1.pageType = Function.update seg.pageType (hdrPID e aft) (some .TMS_SEGHDR) ∧
        ∃ b, seg1.bmp = Function.update seg.bmp (hdrPID e aft) (some b) ∧ BlankRt bfr b) := by
  intro e' aft'
  by_cases hseg : aSegPID = 0
  · -- the segment is new: its header is the page behind the others
    have hcnt : aft'.mSegHdrCnt = 1 := by
      show aft.mSegHdrCnt = 1
      rw [hp.segHdrCnt, if_pos hseg]
    have hmaxRt := hb.maxRt
    have hpid : e.mExtFstPID + toUShort (aft.mPageCnt .RTBMP + aft.mPageCnt .ITBMP +
        aft.mPageCnt .LFBMP + aft.mPageCnt .EXTDIR) = hdrPID e aft := by
      unfold AftAllocExtInfo.metaCnt at hmax
      rw [toUShort_of_lt (by omega)]
      show _ = e.mExtFstPID + aft.mPageCnt .EXTDIR + aft.mPageCnt .LFBMP + aft.mPageCnt .ITBMP +
        aft.mPageCnt .RTBMP
      omega
    let b : BMPPage := ⟨⟨.RTBMP, .FMT, fun _ => 0, 0, bfr.mMaxSlotCnt .RTBMP,
      bfr.mMaxSlotCnt .RTBMP, invalidSlotNo, ⟨0, 0⟩⟩, fun _ => ⟨0, .FUL⟩⟩
    have hblank : BlankRt bfr b :=
      ⟨rfl, rfl, rfl, ⟨Nat.zero_add _, fun a => (Nat.count_zero _).symm⟩⟩
    have hinit : initBMPHdr .RTBMP 0 0 0 0 0 (bfr.mMaxSlotCnt .RTBMP) = .ok (b, false) := by
      unfold initBMPHdr
      rw [if_neg (by omega), if_neg (by omega), if_pos rfl]
    rw [if_pos hcnt]
    unfold shCreateAndInitPage
    dsimp only
    rw [hinit]
    refine ⟨_, rfl, fun hne => absurd hseg hne, fun _ => ⟨hpid, rfl, rfl, rfl,
      ⟨fun _ => ⟨0, 0, 0, 0⟩, ?_⟩, rfl, ?_, b, ?_, hblank⟩⟩
    · dsimp only
      rw [← hpid]
      rfl
    · rw [← hpid]
      rfl
    · dsimp only
      rw [← hpid]
      rfl
  · -- the segment has a header already
    have hcnt : aft'.mSegHdrCnt ≠ 1 := by
      show aft.mSegHdrCnt ≠ 1
      rw [hp.segHdrCnt, if_neg hseg]
      decide
    rw [if_neg hcnt]
    exact ⟨seg, rfl, fun _ => rfl, fun h0 => absurd h0 hseg⟩

/-- The plan and the descriptor after the new meta pages were made. -/
structure PlanDone (e : ExtDesc) (aft : AftAllocExtInfo) (e1 : ExtDesc) (aft1 : AftAllocExtInfo) :
    Prop where
  fstPID : e1.mExtFstPID = e.mExtFstPID
  length : e1.mLength = e.mLength
  pageCnt : aft1.mPageCnt = aft.mPageCnt
  lfBMP4ExtDir : aft1.mLfBMP4ExtDir = aft.mLfBMP4ExtDir
  fullLf : 0 < aft.mPageCnt .LFBMP → aft1.mFullBMPCnt .LFBMP = fullLfCnt aft
  fullIt : aft1.mFullBMPCnt .ITBMP = 0
  lstExtDir : aft1.mLstPID .EXTDIR = aft.mLstPID .EXTDIR
  lstLf : aft1.mLstPID .LFBMP = aft.mLstPID .LFBMP
  lstIt : aft1.mLstPID .ITBMP = aft.mLstPID .ITBMP
  lstRt : aft1.mLstPID .RTBMP = if aft.mPageCnt .RTBMP = 0 then aft.mLstPID .RTBMP
    else basePID e aft .RTBMP + aft.mPageCnt .RTBMP - 1

/-- **`createMetaPages`.** -/
theorem createMetaPages_spec (hb : BfrOk aSegPID bfr) (hp : PlanOk aSegPID e bfr aft)
    (he : ExtOk e) (hmax : aft.metaCnt < 2 ^ 16) :
    (createMetaPages seg e bfr aft = .error .allSlotsFull ∧ 0 < aft.mPageCnt .ITBMP ∧
      bfr.mFreeSlotCnt .ITBMP + bfr.mMaxSlotCnt .ITBMP ≤ fullLfCnt aft) ∨
    ∃ seg1 e1 aft1, createMetaPages seg e bfr aft = .ok (seg1, e1, aft1) ∧
      Created aSegPID seg e bfr aft seg1 ∧ PlanDone e aft e1 aft1 := by
  have hnewIt : 0 < aft.mPageCnt .ITBMP → 0 < aft.mPageCnt .LFBMP := by
    intro hpos
    have hle := @chunks_le (aft.mPageCnt .LFBMP - bfr.mFreeSlotCnt .ITBMP) _ hb.maxIt
    rw [← hp.itCnt] at hle
    omega
  have hnewRt : 0 < aft.mPageCnt .RTBMP → 0 < aft.mPageCnt .ITBMP := by
    intro hpos
    have hle := @chunks_le (aft.mPageCnt .ITBMP - bfr.mFreeSlotCnt .RTBMP) _ hb.maxRt
    rw [← hp.rtCnt] at hle
    omega
  have hseg : aft.mPageCnt .LFBMP > 0 → aSegPID = 0 → aft.mPageCnt .EXTDIR = 0 := by
    intro _ h0
    rw [hp.extDirCnt, if_neg]
    have := (hb.noSeg h0).1
    omega
  obtain ⟨s1, fst1, full1, mgmt, data, heq1, hinv1, hful1, hful1'⟩ := @lfStage _ seg e _ _ hb hp hseg
  have hstage2 := @bmpStage _ s1.seg e _ _ .ITBMP hb hp he (Or.inl rfl)
    (fun h => hp.newLf (hnewIt h)) fst1 aft.mLstPID full1 mgmt data
    (by
      intro hpos
      have hlf := hnewIt hpos
      show aft.mLstPID .LFBMP + 1 = _
      rw [hp.lstLf, if_neg (by omega)]
      show _ = e.mExtFstPID + aft.mPageCnt .EXTDIR + aft.mPageCnt .LFBMP
      omega)
    (fun hpos => hful1 (hnewIt hpos))
  unfold createMetaPages
  rw [heq1]
  dsimp only
  rcases hstage2 with ⟨herr, hf⟩ | ⟨s2, fst2, heq2, hinv2⟩
  · refine Or.inl ⟨?_, hf⟩
    rw [herr]
  have hlstIt : (if aft.mPageCnt .ITBMP = 0 then aft.mLstPID
      else Function.update aft.mLstPID .ITBMP (basePID e aft .ITBMP + aft.mPageCnt .ITBMP - 1)) =
      aft.mLstPID := by
    split
    · rfl
    · rename_i hne
      rw [Function.update_eq_self_iff, hp.lstIt, if_neg hne]
      rfl
  rw [hlstIt] at heq2
  have hstage3 := @bmpStage _ s2.seg e _ _ .RTBMP hb hp he (Or.inr rfl)
    (fun h => hp.newLf (hnewIt (hnewRt h))) fst2 aft.mLstPID full1 mgmt data
    (by
      intro hpos
      have hit := hnewRt hpos
      show aft.mLstPID .ITBMP + 1 = _
      rw [hp.lstIt, if_neg (by omega)]
      show _ = e.mExtFstPID + aft.mPageCnt .EXTDIR + aft.mPageCnt .LFBMP + aft.mPageCnt .ITBMP
      omega)
    (fun _ => hful1' .ITBMP (by decide))
  rw [heq2]
  dsimp only
  rcases hstage3 with ⟨-, hf⟩ | ⟨s3, fst3, heq3, hinv3⟩
  · have hmaxRt := hb.maxRt
    have hzero : bfr.mFreeSlotCnt .RTBMP + bfr.mMaxSlotCnt .RTBMP ≤ 0 := hf.2
    omega
  rw [heq3]
  dsimp only
  obtain ⟨seg1, heq4, hold, hhdr⟩ := @shStage _ s3.seg e _ _ hb hp fst3
    (if aft.mPageCnt .RTBMP = 0 then aft.mLstPID
      else Function.update aft.mLstPID .RTBMP (basePID e aft .RTBMP + aft.mPageCnt .RTBMP - 1))
    full1 mgmt data hmax
  rw [heq4]
  dsimp only
  have hbaseIt : basePID e aft .LFBMP + aft.mPageCnt .LFBMP = basePID e aft .ITBMP := rfl
  have hbaseRt : basePID e aft .ITBMP + aft.mPageCnt .ITBMP = basePID e aft .RTBMP := rfl
  have hbaseHdr : basePID e aft .RTBMP + aft.mPageCnt .RTBMP = hdrPID e aft := rfl
  -- what the earlier stages made is not touched by the later ones
  have htypes3 : ∀ p, s3.seg.pageType p =
      if basePID e aft .LFBMP ≤ p ∧ p < basePID e aft .ITBMP then some .TMS_LFBMP
      else if basePID e aft .ITBMP ≤ p ∧ p < basePID e aft .RTBMP then some .TMS_ITBMP
      else if basePID e aft .RTBMP ≤ p ∧ p < hdrPID e aft then some .TMS_RTBMP
      else seg.pageType p := by
    intro p
    have h1 := hinv1.types p
    have h2 := hinv2.types p
    have h3 := hinv3.types p
    rw [if_pos rfl] at h2
    rw [if_neg (show BMPType.RTBMP ≠ .ITBMP by decide)] at h3
    rw [h3, h2, h1, hbaseIt, hbaseRt, hbaseHdr]
    split_ifs <;> first | rfl | omega
  have hlf2 := congrArg Seg.lfBMP hinv2.frame
  have hlf3 := congrArg Seg.lfBMP hinv3.frame
  have hlf3 : s3.seg.lfBMP = s1.seg.lfBMP := Eq.trans hlf3 hlf2
  have hbmp1 := congrArg Seg.bmp hinv1.frame
  have hbmp1 : s1.seg.bmp = seg.bmp := hbmp1
  have hframe3 : { s3.seg with pageType := seg.pageType, lfBMP := seg.lfBMP, bmp := seg.bmp } =
      seg := by
    have h1 := hinv1.frame
    have h2 := hinv2.frame
    have h3 := hinv3.frame
    rw [← h2, ← h3] at h1
    have h1' := congrArg (fun x => { x with bmp := seg.bmp }) h1
    exact h1'
  have hit3 : ∀ j < aft.mPageCnt .ITBMP, ∃ b, s3.seg.bmp (basePID e aft .ITBMP + j) = some b ∧
      NodeAt e bfr aft .ITBMP j b := by
    intro j hj
    obtain ⟨b, hbmp, hat⟩ := hinv2.new j hj
    exact ⟨b, by rw [hinv3.old _ (by omega), hbmp], hat⟩
  have hold3 : ∀ p, ¬ (basePID e aft .ITBMP ≤ p ∧ p < hdrPID e aft) →
      s3.seg.bmp p = seg.bmp p := by
    intro p hpn
    rw [hinv3.old p (by omega), hinv2.old p (by omega), hbmp1]
  have hext3 := congrArg Seg.extDir hframe3
  have hext3 : s3.seg.extDir = seg.extDir := hext3
  refine Or.inr ⟨seg1, _, _, rfl, ?_, rfl, rfl, rfl, rfl, hful1, hful1' .ITBMP (by decide),
    ?_, ?_, ?_, ?_⟩
  · by_cases h0 : aSegPID = 0
    · obtain ⟨hpid, hbase, htot, hext, ⟨map, hdir⟩, hlf, htype, b, hbmp, hblank⟩ := hhdr h0
      have hbmpNe : ∀ p, p ≠ hdrPID e aft → seg1.bmp p = s3.seg.bmp p := by
        intro p hne
        rw [hbmp, Function.update_of_ne hne]
      refine ⟨fun h => absurd h0 h, fun _ => ⟨hpid, hbase, htot, hext, ⟨map, by rw [hdir, hext3]⟩,
        b, by rw [hbmp, Function.update_self], hblank⟩, ?_, ?_, ?_, ?_, ?_, ?_⟩
      · intro p
        rw [htype]
        by_cases hp' : p = hdrPID e aft
        · subst hp'
          rw [Function.update_self, if_neg (by omega), if_neg (by omega), if_neg (by omega),
            if_pos ⟨rfl, h0⟩]
        · rw [Function.update_of_ne hp', htypes3 p]
          simp only [hp', false_and, if_false]
      · intro p hpn
        rw [hlf, hlf3]
        exact hinv1.old p hpn
      · intro i hi
        rw [hlf, hlf3]
        exact hinv1.new i hi
      · intro p hpn hph
        rw [hbmpNe p (fun h => hph ⟨h, h0⟩)]
        exact hold3 p hpn
      · intro j hj
        rw [hbmpNe _ (by omega)]
        exact hit3 j hj
      · intro k hk
        rw [hbmpNe _ (by omega)]
        exact hinv3.new k hk
    · have hs := hold h0
      subst hs
      refine ⟨fun _ => hframe3, fun h => absurd h h0, ?_, ?_, ?_, ?_, hit3, hinv3.new⟩
      · intro p
        rw [htypes3 p]
        simp only [h0, and_false, if_false]
      · intro p hpn
        rw [hlf3]
        exact hinv1.old p hpn
      · intro i hi
        rw [hlf3]
        exact hinv1.new i hi
      · intro p hpn _
        exact hold3 p hpn
  · dsimp only
    split
    · rfl
    · exact Function.update_of_ne (by decide) _ _
  · dsimp only
    split
    · rfl
    · exact Function.update_of_ne (by decide) _ _
  · dsimp only
    split
    · rfl
    · exact Function.update_of_ne (by decide) _ _
  · dsimp only
    split
    · rfl
    · exact Function.update_self _ _ _

end Altibase.Sdpst
