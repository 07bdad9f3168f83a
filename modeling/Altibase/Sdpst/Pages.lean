/-
  Altibase.Sdpst.Pages
  ────────────────────
  **THE NEW PAGES OF AN EXTENT.**

  The loops of `createAndInitPages` keep running totals: how many pages and meta pages
  are left to hand out, how many children, how many of them full, which slot comes
  next.  Here every total is the closed formula that it stands for, and so every new
  page is known by its number alone: `LeafAt` for the leaf page `i`, `NodeAt` for the
  internal or root page `j`.

  Main results:
    * `lfRounds` — the leaf pages;
    * `bmpRounds` — the internal or root pages;
    * `newParent_next` — the slot a page computes follows that of the page before.
-/
import Altibase.Sdpst.BmpInv
import Altibase.Sdpst.Plan

namespace Altibase.Sdpst

open Altibase.Lib

/-! ## §1. Where the pages lie. -/

section Place

variable (e : ExtDesc) (bfr : BfrAllocExtInfo) (aft : AftAllocExtInfo)

/-- The first new page of each kind.  The segment header is behind all of them. -/
def basePID : BMPType → Nat
  | .EXTDIR => e.mExtFstPID
  | .LFBMP => e.mExtFstPID + aft.mPageCnt .EXTDIR
  | .ITBMP => e.mExtFstPID + aft.mPageCnt .EXTDIR + aft.mPageCnt .LFBMP
  | .RTBMP => e.mExtFstPID + aft.mPageCnt .EXTDIR + aft.mPageCnt .LFBMP + aft.mPageCnt .ITBMP

/-- The parent of the new page `i` of the type `t`, and its slot there: the last page
    before while it has free slots, then the new pages of the type above. -/
def newParent (t : BMPType) (i : Nat) : ParentInfo :=
  if i < bfr.mFreeSlotCnt t.parent then
    ⟨bfr.mLstPID t.parent, bfr.mMaxSlotCnt t.parent - bfr.mFreeSlotCnt t.parent + i⟩
  else
    ⟨basePID e aft t.parent + (i - bfr.mFreeSlotCnt t.parent) / bfr.mMaxSlotCnt t.parent,
      (i - bfr.mFreeSlotCnt t.parent) % bfr.mMaxSlotCnt t.parent⟩

/-- The number of leaf pages that have meta pages only. -/
def fullLfCnt : Nat := aft.metaCnt / aft.mPageRange

/-- The number of new pages of the type `t` that are full.  An internal page is never
    made full. -/
def fullCnt : BMPType → Nat
  | .LFBMP => fullLfCnt aft
  | _ => 0

end Place

/-- The slot number that the loop carries from one page to the next. -/
theorem newParent_next {e : ExtDesc} {bfr : BfrAllocExtInfo} {aft : AftAllocExtInfo} {t : BMPType}
    (hfree : bfr.mFreeSlotCnt t.parent ≤ bfr.mMaxSlotCnt t.parent) (i : Nat) :
    ((newParent e bfr aft t i).mIdxInParent + 1) % bfr.mMaxSlotCnt t.parent =
      (newParent e bfr aft t (i + 1)).mIdxInParent := by
  unfold newParent
  by_cases h1 : i + 1 < bfr.mFreeSlotCnt t.parent
  · rw [if_pos (by omega), if_pos h1]
    exact Nat.mod_eq_of_lt (show _ + 1 < _ by dsimp only; omega)
  · rw [if_neg h1]
    by_cases h0 : i < bfr.mFreeSlotCnt t.parent
    · -- the last slot of the last page before
      rw [if_pos h0]
      dsimp only
      rw [show bfr.mMaxSlotCnt t.parent - bfr.mFreeSlotCnt t.parent + i + 1 =
        bfr.mMaxSlotCnt t.parent by omega, show i + 1 - bfr.mFreeSlotCnt t.parent = 0 by omega,
        Nat.mod_self, Nat.zero_mod]
    · rw [if_neg h0]
      dsimp only
      rw [show i + 1 - bfr.mFreeSlotCnt t.parent = i - bfr.mFreeSlotCnt t.parent + 1 by omega,
        Nat.mod_add_mod]

theorem newParent_idx_lt {e : ExtDesc} {bfr : BfrAllocExtInfo} {aft : AftAllocExtInfo} {t : BMPType}
    (hmax : 0 < bfr.mMaxSlotCnt t.parent)
    (hfree : bfr.mFreeSlotCnt t.parent ≤ bfr.mMaxSlotCnt t.parent) (i : Nat) :
    (newParent e bfr aft t i).mIdxInParent < bfr.mMaxSlotCnt t.parent := by
  unfold newParent
  split
  · dsimp only
    omega
  · exact Nat.mod_lt _ hmax

/-! ## §2. Leaf pages. -/

/-- `initLfBMPHdr`: a leaf page with one range. -/
theorem initLfBMPHdr_ok {aPageRange aParentBMP aSlotNo n aMeta aExtDirPID aFstPID aMax : Nat}
    {aSlotNoInExtDir : Int} (hn : 0 < n) (hle : n ≤ aPageRange) (hmeta : aMeta ≤ n)
    (hmax : 0 < aMax) :
    ∃ l need, initLfBMPHdr aPageRange aParentBMP aSlotNo n aMeta aExtDirPID aSlotNoInExtDir aFstPID
        aMax = .ok (l, need) ∧
      l.Ok ∧ l.mBMPHdr.mSlotCnt = 1 ∧ l.mBMPHdr.mMaxSlotCnt = aMax ∧
      TopLevel l.mBMPHdr.mMFNLTbl l.mBMPHdr.mMFNL ∧
      l.mBMPHdr.mParentInfo = ⟨aParentBMP, aSlotNo⟩ ∧
      l.mBMPHdr.mMFNL = (if aMeta = n then .FUL else .FMT) ∧ need = decide (aMeta = n) ∧
      (l.mMap.mRangeSlot 0).mFstPID = aFstPID ∧ (l.mMap.mRangeSlot 0).mLength = n ∧
      (l.mMap.mRangeSlot 0).mFstPBSNo = 0 ∧ l.mTotPageCnt = n ∧
      ∀ i < n, l.mMap.mPBSTbl i = if i < aMeta then metaFulPBS else dataFmtPBS := by
  let l0 : LfBMPPage := ⟨⟨.LFBMP, .FMT, fun _ => 0, 0, aMax, aMax, invalidSlotNo,
      ⟨aParentBMP, aSlotNo⟩⟩, aPageRange, 0,
    if aMeta = aPageRange then invalidPBSNo else (aMeta : Nat),
    ⟨fun _ => ⟨0, 0, 0, 0, 0⟩, fun _ => 0x00#8⟩⟩
  have hl0 : l0.Ok := by
    refine ⟨⟨Nat.zero_add aMax, fun a => (Nat.count_zero _).symm⟩, ?_, rfl, fun _ _ => rfl,
      Nat.zero_le _⟩
    intro i hi
    exact absurd hi (Nat.not_lt_zero i)
  obtain ⟨l, need, heq, hok, hadd, htop, hneed⟩ := @addPageRangeSlot_ok l0 hl0 hmax aFstPID n
    aMeta hmeta (show 0 + n ≤ aPageRange by omega) aExtDirPID aSlotNoInExtDir
  have hpbs : ∀ i < n, l.mMap.mPBSTbl i = if i < aMeta then metaFulPBS else dataFmtPBS := by
    intro i hi
    have h := hadd.newPBS i hi
    rwa [show l0.mTotPageCnt + i = i from Nat.zero_add i] at h
  have htot : l.mTotPageCnt = n := by
    have hfst := hadd.newPBSNo
    have hend := hok.rangeEnd
    unfold LfBMPPage.rangeEnd at hend
    rw [hadd.slotCnt, if_neg (by omega), Nat.add_sub_cancel, hfst, hadd.newLen] at hend
    have h0 : l0.mTotPageCnt = 0 := rfl
    omega
  have hlevel : l.mBMPHdr.mMFNL = if aMeta = n then .FUL else .FMT := by
    have hcnt := hok.counted.counts
    rw [htot] at hcnt
    obtain ⟨i, hi, hlvl⟩ := htop.exists_top hcnt hn
    have hpage : l.pageLevel i = if i < aMeta then .FUL else .FMT := by
      unfold LfBMPPage.pageLevel
      rw [hpbs i hi]
      split <;> decide
    by_cases hall : aMeta = n
    · rw [if_pos hall, ← hlvl, hpage, if_pos (by omega)]
    · -- the last page is a data page
      rw [if_neg hall]
      have hlast : l.pageLevel (n - 1) = .FMT := by
        unfold LfBMPPage.pageLevel
        rw [hpbs (n - 1) (by omega), if_neg (by omega)]
        decide
      have hle' := htop.le_top hcnt (show n - 1 < n by omega)
      rw [hlast, ← hlvl, hpage] at hle'
      rw [← hlvl, hpage]
      split
      · rename_i him
        rw [if_pos him] at hle'
        exact absurd hle' (by decide)
      · rfl
  refine ⟨l, need, ?_, hok, hadd.slotCnt, hadd.max, htop, hadd.parent, hlevel, ?_, hadd.newFst,
    hadd.newLen, hadd.newPBSNo, htot, hpbs⟩
  · unfold initLfBMPHdr
    rw [if_neg (by omega)]
    dsimp only
    exact congrArg Except.ok heq
  · rw [hneed, hlevel]
    show decide (MFNL.FMT ≠ _) = _
    by_cases hall : aMeta = n
    · rw [if_pos hall]
      simp [hall]
    · rw [if_neg hall]
      simp [hall]

/-- The new leaf page `i`. -/
structure LeafAt (e : ExtDesc) (bfr : BfrAllocExtInfo) (aft : AftAllocExtInfo) (i : Nat)
    (l : LfBMPPage) : Prop where
  ok : l.Ok
  slotCnt : l.mBMPHdr.mSlotCnt = 1
  max : l.mBMPHdr.mMaxSlotCnt = bfr.mMaxSlotCnt .LFBMP
  top : TopLevel l.mBMPHdr.mMFNLTbl l.mBMPHdr.mMFNL
  parent : l.mBMPHdr.mParentInfo = newParent e bfr aft .LFBMP i
  level : l.mBMPHdr.mMFNL = if i < fullLfCnt aft then .FUL else .FMT
  fstPID : (l.mMap.mRangeSlot 0).mFstPID = e.mExtFstPID + aft.mPageRange * i
  length : (l.mMap.mRangeSlot 0).mLength = chunkLen e.mLength aft.mPageRange i
  fstPBSNo : (l.mMap.mRangeSlot 0).mFstPBSNo = 0
  pbs : ∀ x < chunkLen e.mLength aft.mPageRange i, l.mMap.mPBSTbl x =
    if aft.mPageRange * i + x < aft.metaCnt then metaFulPBS else dataFmtPBS

/-- The state of the leaf loop after `k` rounds. -/
structure LfInv (seg : Seg) (e : ExtDesc) (bfr : BfrAllocExtInfo) (aft : AftAllocExtInfo) (k : Nat)
    (s : LfLoop) : Prop where
  frame : { s.seg with pageType := seg.pageType, lfBMP := seg.lfBMP } = seg
  curr : s.sCurrLfPID = basePID e aft .LFBMP + k
  slot : s.sSlotNoInParent % bfr.mMaxSlotCnt .ITBMP = (newParent e bfr aft .LFBMP k).mIdxInParent
  tot : s.sTotPageCnt = e.mLength - aft.mPageRange * k
  metas : s.sTotMetaCnt = aft.metaCnt - aft.mPageRange * k
  full : s.sFullBMPCnt = min k (fullLfCnt aft)
  types : ∀ p, s.seg.pageType p = if basePID e aft .LFBMP ≤ p ∧ p < basePID e aft .LFBMP + k
    then some .TMS_LFBMP else seg.pageType p
  old : ∀ p, ¬ (basePID e aft .LFBMP ≤ p ∧ p < basePID e aft .LFBMP + k) →
    s.seg.lfBMP p = seg.lfBMP p
  new : ∀ i < k, ∃ l, s.seg.lfBMP (basePID e aft .LFBMP + i) = some l ∧ LeafAt e bfr aft i l

section Leaves

variable {aSegPID : Nat} {seg : Seg} {e : ExtDesc} {bfr : BfrAllocExtInfo} {aft : AftAllocExtInfo}

/-- One round of the leaf loop. -/
theorem LfInv.body (hb : BfrOk aSegPID bfr) (hp : PlanOk aSegPID e bfr aft)
    (hnew : aft.mPageCnt .LFBMP = chunks e.mLength aft.mPageRange) {k : Nat}
    (hk : k < aft.mPageCnt .LFBMP) {s : LfLoop} (hs : LfInv seg e bfr aft k s) :
    ∃ s', lfLoopBody e bfr aft k s = .ok s' ∧ LfInv seg e bfr aft (k + 1) s' := by
  have hkc : k < chunks e.mLength aft.mPageRange := by omega
  have hlen := chunkLen_pos hp.range_pos hkc
  have hlenle := @chunkLen_le e.mLength aft.mPageRange k
  let n := chunkLen e.mLength aft.mPageRange k
  let m := min (aft.metaCnt - aft.mPageRange * k) n
  have hcnt : (if s.sTotPageCnt < aft.mPageRange then s.sTotPageCnt else aft.mPageRange) = n := by
    rw [hs.tot]
    show _ = min _ _
    split <;> omega
  have hmeta : (if s.sTotMetaCnt > 0 then (if s.sTotMetaCnt < n then s.sTotMetaCnt else n)
      else 0) = m := by
    rw [hs.metas]
    show _ = min _ _
    split_ifs <;> omega
  have hfull : m = n ↔ k < fullLfCnt aft := chunk_in_prefix hp.range_pos hp.metaCnt_lt hkc
  obtain ⟨l, need, hinit, hok, hslots, hmaxs, htop, hpar, hlvl, hneed, hfst, hln, hpn, htot, hpbs⟩ :=
    @initLfBMPHdr_ok aft.mPageRange (newParent e bfr aft .LFBMP k).mParentPID
      (newParent e bfr aft .LFBMP k).mIdxInParent n m (aft.mLstPID .EXTDIR)
      (e.mExtFstPID + aft.mPageRange * k) (bfr.mMaxSlotCnt .LFBMP) aft.mSlotNoInExtDir
      hlen hlenle (Nat.min_le_right _ _) hb.maxLf
  have hpid : (if bfr.mFreeSlotCnt .ITBMP > k then bfr.mLstPID .ITBMP
      else e.mExtFstPID + aft.mPageCnt .EXTDIR + aft.mPageCnt .LFBMP +
        (k - bfr.mFreeSlotCnt .ITBMP) / bfr.mMaxSlotCnt .ITBMP) =
      (newParent e bfr aft .LFBMP k).mParentPID := by
    unfold newParent BMPType.parent
    dsimp only
    by_cases hf : k < bfr.mFreeSlotCnt .ITBMP
    · rw [if_pos hf, if_pos hf]
    · rw [if_neg hf, if_neg hf]
      rfl
  -- the leaf page has a parent: an internal page is made when the last one is used up
  have hnopar : ¬ (k ≥ bfr.mFreeSlotCnt .ITBMP ∧ aft.mPageCnt .ITBMP = 0) := by
    rintro ⟨hge, hzero⟩
    have hpos := chunks_pos hb.maxIt (show 0 < aft.mPageCnt .LFBMP - bfr.mFreeSlotCnt .ITBMP by omega)
    rw [← hp.itCnt] at hpos
    omega
  unfold lfLoopBody
  rw [if_neg hnopar]
  dsimp only
  rw [hcnt, hmeta, hpid, hs.slot, hinit]
  refine ⟨_, rfl, ?_, ?_, ?_, ?_, ?_, ?_, ?_, ?_, ?_⟩
  · exact hs.frame
  · show s.sCurrLfPID + 1 = _
    rw [hs.curr]
    omega
  · exact newParent_next (t := .LFBMP) hb.freeIt k
  · show s.sTotPageCnt - n = _
    rw [hs.tot]
    exact chunk_rest
  · show s.sTotMetaCnt - m = _
    rw [hs.metas]
    exact chunk_rest_prefix (Nat.le_of_lt hp.metaCnt_lt)
  · show (if need = true then s.sFullBMPCnt + 1 else s.sFullBMPCnt) = _
    rw [hneed, hs.full]
    by_cases hmn : m = n
    · have hlt := hfull.mp hmn
      rw [if_pos (by simpa using hmn)]
      omega
    · have hge : ¬ k < fullLfCnt aft := fun hlt => hmn (hfull.mpr hlt)
      rw [if_neg (by simpa using hmn)]
      omega
  · intro p
    show Function.update s.seg.pageType s.sCurrLfPID (some .TMS_LFBMP) p = _
    rw [hs.curr]
    by_cases hpk : p = basePID e aft .LFBMP + k
    · rw [hpk, Function.update_self, if_pos (by omega)]
    · rw [Function.update_of_ne hpk, hs.types p]
      by_cases hin : basePID e aft .LFBMP ≤ p ∧ p < basePID e aft .LFBMP + k
      · rw [if_pos hin, if_pos (by omega)]
      · rw [if_neg hin, if_neg (by omega)]
  · intro p hpn'
    show Function.update s.seg.lfBMP s.sCurrLfPID (some l) p = _
    rw [hs.curr, Function.update_of_ne (by omega)]
    exact hs.old p (by omega)
  · intro i hi
    show ∃ l', Function.update s.seg.lfBMP s.sCurrLfPID (some l) _ = some l' ∧ _
    rw [hs.curr]
    by_cases hik : i = k
    · subst hik
      rw [Function.update_self]
      refine ⟨l, rfl, hok, hslots, hmaxs, htop, hpar, ?_, hfst, hln, hpn, ?_⟩
      · rw [hlvl]
        simp only [hfull]
      · intro x hx
        rw [hpbs x hx]
        have hmin : x < m ↔ aft.mPageRange * i + x < aft.metaCnt := by
          show x < min _ n ↔ _
          have hx' : x < n := hx
          omega
        simp only [hmin]
    · rw [Function.update_of_ne (by omega)]
      exact hs.new i (by omega)

/-- The leaf loop, from the state it starts with. -/
theorem lfRounds (hb : BfrOk aSegPID bfr) (hp : PlanOk aSegPID e bfr aft)
    (hnew : aft.mPageCnt .LFBMP = chunks e.mLength aft.mPageRange) {s0 : LfLoop}
    (h0 : LfInv seg e bfr aft 0 s0) :
    ∀ k ≤ aft.mPageCnt .LFBMP,
      ∃ s, rounds (lfLoopBody e bfr aft) s0 k = .ok s ∧ LfInv seg e bfr aft k s := by
  intro k hk
  induction k with
  | zero => exact ⟨s0, rfl, h0⟩
  | succ k ih =>
      obtain ⟨s, hs, hinv⟩ := ih (by omega)
      obtain ⟨s', hs', hinv'⟩ := hinv.body hb hp hnew (by omega)
      exact ⟨s', by rw [rounds, hs]; exact hs', hinv'⟩

end Leaves

/-! ## §3. Internal and root pages. -/

/-- `initBMPHdr` with `n` children. -/
theorem initBMPHdr_spec {t : BMPType} {aParentBMP aSlotNo aFstBMP n aFull aMax : Nat}
    (hpos : 0 < n) (hle : n ≤ aMax) (hfull : aFull ≤ n) (hfst : 0 < aFstBMP) :
    (initBMPHdr t aParentBMP aSlotNo aFstBMP (aFstBMP + n - 1) aFull aMax =
        .error .allSlotsFull ∧ aFull = n) ∨
    ∃ b need, initBMPHdr t aParentBMP aSlotNo aFstBMP (aFstBMP + n - 1) aFull aMax =
        .ok (b, need) ∧ b.mHdr.mType = t ∧ b.mHdr.mParentInfo = ⟨aParentBMP, aSlotNo⟩ ∧
      b.mHdr.mMaxSlotCnt = aMax ∧ b.mHdr.mSlotCnt = n ∧
      (∀ s < n, b.mMap s = ⟨aFstBMP + s, if s < aFull then .FUL else .FMT⟩) ∧
      Counted b.mHdr b.slotLevel b.mHdr.mSlotCnt ∧ TopLevel b.mHdr.mMFNLTbl b.mHdr.mMFNL ∧
      b.mHdr.mMFNL = .FMT ∧ need = false := by
  let b0 : BMPPage := ⟨⟨t, .FMT, fun _ => 0, 0, aMax, aMax, invalidSlotNo, ⟨aParentBMP, aSlotNo⟩⟩,
    fun _ => ⟨0, .FUL⟩⟩
  have hb0 : Counted b0.mHdr b0.slotLevel b0.mHdr.mSlotCnt :=
    ⟨Nat.zero_add aMax, fun a => (Nat.count_zero _).symm⟩
  have hunf : initBMPHdr t aParentBMP aSlotNo aFstBMP (aFstBMP + n - 1) aFull aMax =
      addSlots b0 b0.mHdr.mSlotCnt aFstBMP (aFstBMP + n - 1) aFull := by
    unfold initBMPHdr
    rw [if_neg (by omega), if_neg (by omega), if_neg (by omega)]
  rw [hunf]
  rcases @addSlots_spec b0 hb0 aFstBMP n aFull hle hpos hfull with h | ⟨b, need, heq, hadd, hneed⟩
  · exact Or.inl ⟨h.1, h.2.1⟩
  · have hslotCnt : b.mHdr.mSlotCnt = n := hadd.slotCnt.trans (Nat.zero_add n)
    have hmap : ∀ s < n, b.mMap s = ⟨aFstBMP + s, if s < aFull then .FUL else .FMT⟩ := by
      intro s hs
      have h := hadd.new s hs
      rwa [show b0.mHdr.mSlotCnt + s = s from Nat.zero_add s] at h
    -- the slots are full or formatted, and the page is not full
    have hlevel : b.mHdr.mMFNL = .FMT := by
      obtain ⟨i, hi, hlvl⟩ := hadd.top.exists_top hadd.counted.counts (by omega)
      have hnot := hadd.notFull
      rw [← hlvl] at hnot ⊢
      unfold BMPPage.slotLevel at hnot ⊢
      rw [hmap i (by omega)] at hnot ⊢
      dsimp only at hnot ⊢
      split
      · rename_i hif
        rw [if_pos hif] at hnot
        exact absurd rfl hnot
      · rfl
    refine Or.inr ⟨b, need, heq, hadd.type, hadd.parent, hadd.max, hslotCnt, hmap, hadd.counted,
      hadd.top, hlevel, ?_⟩
    rw [hneed, hlevel]
    rfl

/-- The new internal or root page `j`. -/
structure NodeAt (e : ExtDesc) (bfr : BfrAllocExtInfo) (aft : AftAllocExtInfo) (t : BMPType)
    (j : Nat) (b : BMPPage) : Prop where
  type : b.mHdr.mType = t
  parent : t = .ITBMP → b.mHdr.mParentInfo = newParent e bfr aft .ITBMP j
  max : b.mHdr.mMaxSlotCnt = bfr.mMaxSlotCnt t
  slotCnt : b.mHdr.mSlotCnt =
    chunkLen (aft.mPageCnt t.child - bfr.mFreeSlotCnt t) (bfr.mMaxSlotCnt t) j
  slot : ∀ s < b.mHdr.mSlotCnt, b.mMap s =
    ⟨basePID e aft t.child + (bfr.mFreeSlotCnt t + (bfr.mMaxSlotCnt t * j + s)),
      if bfr.mFreeSlotCnt t + (bfr.mMaxSlotCnt t * j + s) < fullCnt aft t.child
        then .FUL else .FMT⟩
  counted : Counted b.mHdr b.slotLevel b.mHdr.mSlotCnt
  top : TopLevel b.mHdr.mMFNLTbl b.mHdr.mMFNL
  level : b.mHdr.mMFNL = .FMT

/-- The state of the loop over internal or root pages after `k` rounds. -/
structure BMPInv (seg : Seg) (e : ExtDesc) (bfr : BfrAllocExtInfo) (aft : AftAllocExtInfo)
    (t : BMPType) (aFull : Nat) (k : Nat) (s : BMPLoop) : Prop where
  frame : { s.seg with pageType := seg.pageType, bmp := seg.bmp } = seg
  curr : s.sCurPID = basePID e aft t + k
  slot : t = .ITBMP →
    s.sSlotNoInParent % bfr.mMaxSlotCnt .RTBMP = (newParent e bfr aft .ITBMP k).mIdxInParent
  rest : s.sNewSlotCnt =
    aft.mPageCnt t.child - bfr.mFreeSlotCnt t - bfr.mMaxSlotCnt t * k
  full : s.sTotFullBMPCnt = fullCnt aft t.child - bfr.mFreeSlotCnt t - bfr.mMaxSlotCnt t * k
  parentFull : s.sParentFullCnt = aFull
  types : ∀ p, s.seg.pageType p = if basePID e aft t ≤ p ∧ p < basePID e aft t + k
    then some (if t = .ITBMP then .TMS_ITBMP else .TMS_RTBMP) else seg.pageType p
  old : ∀ p, ¬ (basePID e aft t ≤ p ∧ p < basePID e aft t + k) → s.seg.bmp p = seg.bmp p
  new : ∀ j < k, ∃ b, s.seg.bmp (basePID e aft t + j) = some b ∧ NodeAt e bfr aft t j b

section Nodes

variable {aSegPID : Nat} {seg : Seg} {e : ExtDesc} {bfr : BfrAllocExtInfo} {aft : AftAllocExtInfo}
  {t : BMPType} {aFull : Nat}

/-- The number of new internal or root pages. -/
theorem PlanOk.nodeCnt (hp : PlanOk aSegPID e bfr aft) (ht : t = .ITBMP ∨ t = .RTBMP) :
    aft.mPageCnt t =
      chunks (aft.mPageCnt t.child - bfr.mFreeSlotCnt t) (bfr.mMaxSlotCnt t) := by
  rcases ht with rfl | rfl
  · exact hp.itCnt
  · exact hp.rtCnt

/-- Not all new pages of a type are full. -/
theorem PlanOk.fullCnt_lt (hp : PlanOk aSegPID e bfr aft)
    (hnew : aft.mPageCnt .LFBMP = chunks e.mLength aft.mPageRange) (hpos : 0 < aft.mPageCnt t) :
    fullCnt aft t < aft.mPageCnt t := by
  cases t
  · exact hpos
  · exact hpos
  · exact hpos
  · show aft.metaCnt / aft.mPageRange < _
    rw [hnew]
    have hle := @le_mul_chunks e.mLength _ hp.range_pos
    have hlt := hp.metaCnt_lt
    exact Nat.div_lt_of_lt_mul (by omega)

/-- The children and the parent that the round `k` of the loop computes. -/
theorem bmpLoopBody_eq (hb : BfrOk aSegPID bfr) (hp : PlanOk aSegPID e bfr aft)
    (ht : t = .ITBMP ∨ t = .RTBMP) {k : Nat} (hk : k < aft.mPageCnt t) {s : BMPLoop}
    (hs : BMPInv seg e bfr aft t aFull k s) :
    let n := chunkLen (aft.mPageCnt t.child - bfr.mFreeSlotCnt t) (bfr.mMaxSlotCnt t) k
    let f := min (fullCnt aft t.child - bfr.mFreeSlotCnt t - bfr.mMaxSlotCnt t * k) n
    let par := if t = .ITBMP then newParent e bfr aft .ITBMP k else ⟨0, s.sSlotNoInParent⟩
    let c := basePID e aft t.child + (bfr.mFreeSlotCnt t + bfr.mMaxSlotCnt t * k)
    bmpLoopBody e t bfr aft k s =
      match initBMPHdr t par.mParentPID par.mIdxInParent c (c + n - 1) f (bfr.mMaxSlotCnt t) with
      | .error e => .error e
      | .ok (sPage, need) => .ok {
          seg := { s.seg with
            pageType := Function.update s.seg.pageType s.sCurPID
              (some (if t = .ITBMP then .TMS_ITBMP else .TMS_RTBMP))
            bmp := Function.update s.seg.bmp s.sCurPID (some sPage) }
          sCurPID := s.sCurPID + 1
          sSlotNoInParent := par.mIdxInParent + 1
          sNewSlotCnt := s.sNewSlotCnt - n
          sTotFullBMPCnt := s.sTotFullBMPCnt - f
          sParentFullCnt := if need then s.sParentFullCnt + 1 else s.sParentFullCnt } := by
  intro n f par c
  have hn : (if s.sNewSlotCnt ≥ bfr.mMaxSlotCnt t then bfr.mMaxSlotCnt t else s.sNewSlotCnt) = n := by
    rw [hs.rest]
    show _ = min _ _
    split <;> omega
  have hf : (if s.sTotFullBMPCnt > 0 then (if s.sTotFullBMPCnt ≤ n then s.sTotFullBMPCnt else n)
      else 0) = f := by
    rw [hs.full]
    show _ = min _ _
    split_ifs <;> omega
  unfold bmpLoopBody
  dsimp only
  rw [hn, hf]
  rcases ht with rfl | rfl
  · -- an internal page has a parent: a root page is made when the last one is used up
    have hnopar : ¬ (BMPType.ITBMP = .ITBMP ∧ k ≥ bfr.mFreeSlotCnt BMPType.ITBMP.parent ∧
        aft.mPageCnt BMPType.ITBMP.parent = 0) := by
      rintro ⟨-, hge, hzero⟩
      have hge' : k ≥ bfr.mFreeSlotCnt .RTBMP := hge
      have hzero' : aft.mPageCnt .RTBMP = 0 := hzero
      have hpos := chunks_pos hb.maxRt
        (show 0 < aft.mPageCnt .ITBMP - bfr.mFreeSlotCnt .RTBMP by omega)
      rw [← hp.rtCnt] at hpos
      omega
    have hpid : (if bfr.mFreeSlotCnt .RTBMP > k then bfr.mLstPID .RTBMP
        else e.mExtFstPID + aft.mPageCnt .EXTDIR + aft.mPageCnt .LFBMP + aft.mPageCnt .ITBMP +
          (k - bfr.mFreeSlotCnt .RTBMP) / bfr.mMaxSlotCnt .RTBMP) =
        (newParent e bfr aft .ITBMP k).mParentPID := by
      unfold newParent BMPType.parent
      dsimp only
      by_cases hfr : k < bfr.mFreeSlotCnt .RTBMP
      · rw [if_pos hfr, if_pos hfr]
      · rw [if_neg hfr, if_neg hfr]
        rfl
    have hslot : s.sSlotNoInParent % bfr.mMaxSlotCnt BMPType.ITBMP.parent = par.mIdxInParent :=
      hs.slot rfl
    rw [if_neg hnopar, if_pos rfl, if_pos rfl, if_pos rfl, if_pos rfl, hslot]
    show (match initBMPHdr .ITBMP (if bfr.mFreeSlotCnt .RTBMP > k then bfr.mLstPID .RTBMP
        else e.mExtFstPID + aft.mPageCnt .EXTDIR + aft.mPageCnt .LFBMP + aft.mPageCnt .ITBMP +
          (k - bfr.mFreeSlotCnt .RTBMP) / bfr.mMaxSlotCnt .RTBMP) par.mIdxInParent _ _ _ _ with
      | .error e => _
      | .ok (sPage, need) => _) = _
    rw [hpid, Nat.add_assoc (e.mExtFstPID + aft.mPageCnt .EXTDIR)]
    rfl
  · rw [if_neg (fun h => absurd h.1 (by decide)), if_neg (by decide), if_neg (by decide),
      if_neg (by decide), if_neg (by decide),
      Nat.add_assoc (e.mExtFstPID + aft.mPageCnt .EXTDIR + aft.mPageCnt .LFBMP)]
    rfl

/-- One round of the loop over internal or root pages.  It stops only at the assertion
    that a page must not be made full. -/
theorem BMPInv.body (hb : BfrOk aSegPID bfr) (hp : PlanOk aSegPID e bfr aft) (he : ExtOk e)
    (hnew : aft.mPageCnt .LFBMP = chunks e.mLength aft.mPageRange)
    (ht : t = .ITBMP ∨ t = .RTBMP) {k : Nat} (hk : k < aft.mPageCnt t) {s : BMPLoop}
    (hs : BMPInv seg e bfr aft t aFull k s) :
    (bmpLoopBody e t bfr aft k s = .error .allSlotsFull ∧
      bfr.mFreeSlotCnt t + bfr.mMaxSlotCnt t ≤ fullCnt aft t.child) ∨
    ∃ s', bmpLoopBody e t bfr aft k s = .ok s' ∧ BMPInv seg e bfr aft t aFull (k + 1) s' := by
  have hmax : 0 < bfr.mMaxSlotCnt t := by
    rcases ht with rfl | rfl
    · exact hb.maxIt
    · exact hb.maxRt
  have hkc : k < chunks (aft.mPageCnt t.child - bfr.mFreeSlotCnt t) (bfr.mMaxSlotCnt t) := by
    rw [← hp.nodeCnt ht]
    exact hk
  have hchild : 0 < aft.mPageCnt t.child := by
    have hlt := lt_of_lt_chunks hmax hkc
    omega
  have hn := chunkLen_pos hmax hkc
  have hnle := @chunkLen_le (aft.mPageCnt t.child - bfr.mFreeSlotCnt t) (bfr.mMaxSlotCnt t) k
  have hfulllt := hp.fullCnt_lt hnew hchild
  have hfst : 0 < basePID e aft t.child := by
    have h0 := he.fst_pos
    unfold basePID
    split <;> omega
  have heq := bmpLoopBody_eq hb hp ht hk hs
  let n := chunkLen (aft.mPageCnt t.child - bfr.mFreeSlotCnt t) (bfr.mMaxSlotCnt t) k
  let f := min (fullCnt aft t.child - bfr.mFreeSlotCnt t - bfr.mMaxSlotCnt t * k) n
  let par := if t = .ITBMP then newParent e bfr aft .ITBMP k else ⟨0, s.sSlotNoInParent⟩
  let c := basePID e aft t.child + (bfr.mFreeSlotCnt t + bfr.mMaxSlotCnt t * k)
  dsimp only at heq
  rcases @initBMPHdr_spec t par.mParentPID par.mIdxInParent c n f (bfr.mMaxSlotCnt t) hn hnle
    (Nat.min_le_right _ _) (show 0 < c by omega) with
    ⟨herr, hfn⟩ | ⟨b, need, hok, htype, hpar, hmaxs, hcnt, hmap, hcounted, htop, hlevel, hneed⟩
  · refine Or.inl ⟨?_, ?_⟩
    · rw [heq, herr]
    · -- the page has all slots that a page can have: the last child is not full
      have hfn' : min (fullCnt aft t.child - bfr.mFreeSlotCnt t - bfr.mMaxSlotCnt t * k) n = n := hfn
      have hnmin : n = min (bfr.mMaxSlotCnt t)
        (aft.mPageCnt t.child - bfr.mFreeSlotCnt t - bfr.mMaxSlotCnt t * k) := rfl
      omega
  · rw [hok] at heq
    refine Or.inr ⟨_, heq, ?_, ?_, ?_, ?_, ?_, ?_, ?_, ?_, ?_⟩
    · exact hs.frame
    · show s.sCurPID + 1 = _
      rw [hs.curr]
      omega
    · intro hit
      have hpar' : par = newParent e bfr aft .ITBMP k := if_pos hit
      show (par.mIdxInParent + 1) % _ = _
      rw [hpar']
      exact newParent_next (t := .ITBMP) hb.freeRt k
    · show s.sNewSlotCnt - n = _
      rw [hs.rest]
      exact chunk_rest
    · show s.sTotFullBMPCnt - f = _
      rw [hs.full]
      exact chunk_rest_prefix (by omega)
    · show (if need = true then _ else s.sParentFullCnt) = _
      rw [hneed, if_neg (by decide)]
      exact hs.parentFull
    · intro p
      have hty := hs.types p
      show Function.update s.seg.pageType s.sCurPID
        (some (if t = .ITBMP then .TMS_ITBMP else .TMS_RTBMP)) p = _
      generalize (if t = .ITBMP then PageType.TMS_ITBMP else .TMS_RTBMP) = ty at hty ⊢
      rw [hs.curr]
      by_cases hpk : p = basePID e aft t + k
      · rw [hpk, Function.update_self, if_pos (by omega)]
      · rw [Function.update_of_ne hpk, hty]
        by_cases hin : basePID e aft t ≤ p ∧ p < basePID e aft t + k
        · rw [if_pos hin, if_pos (by omega)]
        · rw [if_neg hin, if_neg (by omega)]
    · intro p hpn
      show Function.update s.seg.bmp s.sCurPID (some b) p = _
      rw [hs.curr, Function.update_of_ne (by omega)]
      exact hs.old p (by omega)
    · intro j hj
      show ∃ b', Function.update s.seg.bmp s.sCurPID (some b) _ = some b' ∧ _
      rw [hs.curr]
      by_cases hjk : j = k
      · subst hjk
        rw [Function.update_self]
        refine ⟨b, rfl, htype, ?_, hmaxs, hcnt, ?_, hcounted, htop, hlevel⟩
        · intro hit
          have hpar' : par = newParent e bfr aft .ITBMP j := if_pos hit
          rw [hpar, hpar']
        · intro x hx
          rw [hcnt] at hx
          rw [hmap x hx]
          have hmin : x < f ↔
              bfr.mFreeSlotCnt t + (bfr.mMaxSlotCnt t * j + x) < fullCnt aft t.child := by
            show x < min _ n ↔ _
            omega
          have hc : c + x = basePID e aft t.child +
              (bfr.mFreeSlotCnt t + (bfr.mMaxSlotCnt t * j + x)) := by
            show basePID e aft t.child + _ + x = _
            omega
          rw [hc]
          simp only [hmin]
      · rw [Function.update_of_ne (by omega)]
        exact hs.new j (by omega)

/-- The loop over internal or root pages, from the state it starts with. -/
theorem bmpRounds (hb : BfrOk aSegPID bfr) (hp : PlanOk aSegPID e bfr aft) (he : ExtOk e)
    (hnew : aft.mPageCnt .LFBMP = chunks e.mLength aft.mPageRange)
    (ht : t = .ITBMP ∨ t = .RTBMP) {s0 : BMPLoop} (h0 : BMPInv seg e bfr aft t aFull 0 s0) :
    ∀ k ≤ aft.mPageCnt t,
      (rounds (bmpLoopBody e t bfr aft) s0 k = .error .allSlotsFull ∧
        bfr.mFreeSlotCnt t + bfr.mMaxSlotCnt t ≤ fullCnt aft t.child) ∨
      ∃ s, rounds (bmpLoopBody e t bfr aft) s0 k = .ok s ∧ BMPInv seg e bfr aft t aFull k s := by
  intro k hk
  induction k with
  | zero => exact Or.inr ⟨s0, rfl, h0⟩
  | succ k ih =>
      rcases ih (by omega) with ⟨herr, hpos⟩ | ⟨s, hs, hinv⟩
      · exact Or.inl ⟨by rw [rounds, herr], hpos⟩
      · rcases hinv.body hb hp he hnew ht (by omega) with ⟨herr, hpos⟩ | ⟨s', hs', hinv'⟩
        · exact Or.inl ⟨by rw [rounds, hs]; exact herr, hpos⟩
        · exact Or.inr ⟨s', by rw [rounds, hs]; exact hs', hinv'⟩

end Nodes

end Altibase.Sdpst
