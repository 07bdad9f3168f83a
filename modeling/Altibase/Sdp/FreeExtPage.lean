/-
  Altibase.Sdp.FreeExtPage
  ────────────────────────
  **IS THE EXTENT OF A PAGE FREE?**

  `isFreeExtPage` finds the group and the bit of a data page.  An extent above
  the high-water mark was never allocated; of any other it looks only at the bit
  in the dealloc page.  There an extent is clear that was freed after the last
  switch.  One that was freed before it is clear in the alloc page, so it is
  reported as allocated until it is.

  Main results:
    * `hwm_of_reachable` — no allocated extent lies above the high-water mark;
    * `isFreeExtPage_eq` — what is reported for every data page;
    * `isFreeExtPage_right_iff` — exactly the extents for which it is right.
-/
import Altibase.Sdp.ExtentRun

namespace Altibase.Sdp

open Altibase.Lib

/-! ## §1. The code. -/

/-- `SDPTB_GET_GGHDR_PID_BY_FID`. -/
def getGGHdrPIDByFID (fid : Nat) : Nat := sdCreatePID fid 0

/-- `SDPTB_EXTENT_START_PID_FROM_PID`. -/
def extentStartPIDFromPID (nBits aPID aPagesPerExt : Nat) : Nat :=
  sdCreatePID (sdMakeFID aPID)
    (extentStartFPIDFromLGID nBits (getLGIDByPID nBits aPID aPagesPerExt) aPagesPerExt)

/-- `SDPTB_EXTENT_IDX_AT_LG_BY_PID`. -/
def extentIdxAtLGByPID (nBits aPID aPagesPerExt : Nat) : Nat :=
  (aPID - extentStartPIDFromPID nBits aPID aPagesPerExt) / aPagesPerExt

/-- `SDPTB_GET_EXTENT_PID_BY_PID`. -/
def getExtentPIDByPID (nBits aPID aPagesPerExt : Nat) : Nat :=
  extentIdxAtLGByPID nBits aPID aPagesPerExt * aPagesPerExt +
    extentStartPIDFromPID nBits aPID aPagesPerExt

/-- `smERR_FATAL_PageCorrupted` with the page it names, or an assertion. -/
inductive CheckFailure
  | pageCorrupted (pid : Nat)
  | assertion
  deriving Repr, DecidableEq

/-- `isFreeExtPage`.  `sDropped` says that the tablespace has the state
    `SCT_SS_INVALID_DISK_TBS`, `sPagesPerExt` is its attribute. -/
def isFreeExtPage (nBits : Nat) (sDropped : Bool) (sPagesPerExt : Nat) (f : File) (aPageID : Nat) :
    Except CheckFailure Bool :=
  if sDropped then
    .ok true
  else if 0 < sPagesPerExt then
    let sGGPID := getGGHdrPIDByFID (sdMakeFID aPageID)
    if aPageID = sGGPID then
      .error (.pageCorrupted sGGPID)
    else
      let sGGHdr := f.ggHdr
      let sLGID := getLGIDByPID nBits aPageID sPagesPerExt
      let sAllocLGPID :=
        lgHdrPIDFromLGID nBits (sdMakeFID aPageID) sLGID sGGHdr.mAllocLGIdx.toNat sPagesPerExt
      if aPageID = sAllocLGPID then
        .error (.pageCorrupted sAllocLGPID)
      else
        -- the dealloc page lies behind the alloc page or before it
        let sLGPID := ((sAllocLGPID : Int) + (sGGHdr.mAllocLGIdx.toNat * (-2) + 1)).toNat
        if aPageID = sLGPID then
          .error (.pageCorrupted sLGPID)
        else
          let sExtFstPID := getExtentPIDByPID nBits aPageID sPagesPerExt
          if sGGHdr.mHWM ≥ sExtFstPID ∧ sGGHdr.mLGCnt > sLGID then
            let sExtentIdx := extentIdxAtLGByPID nBits sExtFstPID sPagesPerExt
            let sIsAllocExt := getBit (f.page sLGPID).mBitmap 0 sExtentIdx
            .ok (if sIsAllocExt = false then true else false)
          else
            .ok true
  else
    .error .assertion

/-! ## §2. The pages of an extent. -/

variable {g : FileAttr} {f f' : File} {l j k : Nat}

/-- The page number fits its bits. -/
theorem pageFPID_lt (hl : l < g.lgCnt) (hj : j < g.extCnt l) (hk : k < g.mPagesPerExt) :
    1 + l * g.perLG + 2 + g.mPagesPerExt * j + k < 2 ^ sdFPIDBitSize := by
  have hend := g.group_end hl
  have hsize := g.size_le
  have hge := g.size_ge
  have hmul := Nat.mul_le_mul_left g.mPagesPerExt (Nat.succ_le_of_lt hj)
  rw [Nat.mul_succ] at hmul
  simp only [ggHdrPageCnt, lgHdrPageCnt] at hge
  omega

/-- The pages of an extent lie in its group. -/
theorem pageOffset_lt (hj : j < g.extCnt l) (hk : k < g.mPagesPerExt) :
    2 + g.mPagesPerExt * j + k < g.perLG := by
  have hle := Nat.mul_le_mul_left g.mPagesPerExt
    (Nat.succ_le_of_lt (lt_of_lt_of_le hj (g.extCnt_le l)))
  have hper := g.perLG_eq
  rw [Nat.mul_comm] at hper
  rw [Nat.mul_succ] at hle
  omega

/-- The id of the `k`-th page of an extent, from the file and the page number. -/
theorem page_eq (hl : l < g.lgCnt) (hj : j < g.extCnt l) (k : Nat) : g.extPID l j + k =
    g.mID * 2 ^ sdFPIDBitSize + (1 + l * g.perLG + 2 + g.mPagesPerExt * j + k) := by
  rw [g.extPID_eq hl hj, Nat.add_assoc]

/-- `SD_MAKE_FID` finds the file, -/
theorem sdMakeFID_page (hl : l < g.lgCnt) (hj : j < g.extCnt l) (hk : k < g.mPagesPerExt) :
    sdMakeFID (g.extPID l j + k) = g.mID := by
  rw [page_eq hl hj, sdMakeFID_add g.mID_lt (pageFPID_lt hl hj hk)]

/-- `SDPTB_GET_LGID_BY_PID` the group, -/
theorem getLGIDByPID_page (hl : l < g.lgCnt) (hj : j < g.extCnt l) (hk : k < g.mPagesPerExt) :
    getLGIDByPID g.nBits (g.extPID l j + k) g.mPagesPerExt = l := by
  rw [getLGIDByPID, page_eq hl hj, sdMakeFPID_add _ (pageFPID_lt hl hj hk)]
  rw [show 1 + l * g.perLG + 2 + g.mPagesPerExt * j + k =
    1 + l * g.perLG + (2 + g.mPagesPerExt * j + k) by omega]
  exact g.lgid_of_offset l _ (pageOffset_lt hj hk)

/-- and the first extent of the group is found from the page. -/
theorem extentStartPID_page (hl : l < g.lgCnt) (hj : j < g.extCnt l) (hk : k < g.mPagesPerExt) :
    extentStartPIDFromPID g.nBits (g.extPID l j + k) g.mPagesPerExt + g.mPagesPerExt * j =
      g.extPID l j := by
  rw [extentStartPIDFromPID, sdMakeFID_page hl hj hk, getLGIDByPID_page hl hj hk]
  rfl

/-- The index of the extent in its group. -/
theorem extentIdx_page (hl : l < g.lgCnt) (hj : j < g.extCnt l) (hk : k < g.mPagesPerExt) :
    extentIdxAtLGByPID g.nBits (g.extPID l j + k) g.mPagesPerExt = j := by
  have hstart := extentStartPID_page hl hj hk
  rw [extentIdxAtLGByPID, show g.extPID l j + k -
    extentStartPIDFromPID g.nBits (g.extPID l j + k) g.mPagesPerExt = g.mPagesPerExt * j + k by omega,
    Nat.mul_add_div g.pagesPerExt_pos, Nat.div_eq_of_lt hk, Nat.add_zero]

/-- The first page of the extent. -/
theorem getExtentPID_page (hl : l < g.lgCnt) (hj : j < g.extCnt l) (hk : k < g.mPagesPerExt) :
    getExtentPIDByPID g.nBits (g.extPID l j + k) g.mPagesPerExt = g.extPID l j := by
  have hstart := extentStartPID_page hl hj hk
  rw [getExtentPIDByPID, extentIdx_page hl hj hk, Nat.mul_comm, Nat.add_comm]
  exact hstart

/-- The other header page of the group. -/
theorem otherHdrPID (hl : l < g.lgCnt) (w : AllocLGIdx) :
    ((g.hdrPID l w : Int) + (w.toNat * (-2) + 1)).toNat = g.hdrPID l w.dealloc := by
  rw [g.hdrPID_eq hl, g.hdrPID_eq hl]
  cases w
  · show (((_ + (1 + l * g.perLG + 0) : Nat) : Int) + (((0 : Nat) : Int) * (-2) + 1)).toNat =
      _ + (1 + l * g.perLG + 1)
    omega
  · show (((_ + (1 + l * g.perLG + 1) : Nat) : Int) + (((1 : Nat) : Int) * (-2) + 1)).toNat =
      _ + (1 + l * g.perLG + 0)
    omega

/-- A data page is no header page. -/
theorem page_ne_hdrPID (hl : l < g.lgCnt) (hj : j < g.extCnt l) (w : AllocLGIdx) :
    g.extPID l j + k ≠ g.hdrPID l w := by
  rw [g.hdrPID_eq hl, page_eq hl hj]
  have hw := w.toNat_le
  omega

/-- **What is reported for a data page**: above the high-water mark free, below it
    the bit of the dealloc page. -/
theorem isFreeExtPage_eq (hf : FileOk g f) (hl : l < g.lgCnt) (hj : j < g.extCnt l)
    (hk : k < g.mPagesPerExt) :
    isFreeExtPage g.nBits false g.mPagesPerExt f (g.extPID l j + k) =
      .ok (if f.ggHdr.mHWM ≥ g.extPID l j then !f.extBit g l f.ggHdr.mAllocLGIdx.dealloc j
        else true) := by
  have hgg : g.extPID l j + k ≠ getGGHdrPIDByFID g.mID := by
    rw [getGGHdrPIDByFID, sdCreatePID_eq _ (by decide), page_eq hl hj]
    omega
  have hidx := extentIdx_page (k := 0) hl hj g.pagesPerExt_pos
  have hhdr : lgHdrPIDFromLGID g.nBits g.mID l f.ggHdr.mAllocLGIdx.toNat g.mPagesPerExt =
      g.hdrPID l f.ggHdr.mAllocLGIdx := rfl
  rw [Nat.add_zero] at hidx
  unfold isFreeExtPage
  rw [if_neg (by decide), if_pos g.pagesPerExt_pos]
  simp only [sdMakeFID_page hl hj hk, getLGIDByPID_page hl hj hk, getExtentPID_page hl hj hk, hidx,
    hhdr, otherHdrPID hl, hf.lgCnt]
  rw [if_neg hgg, if_neg (page_ne_hdrPID hl hj _), if_neg (page_ne_hdrPID hl hj _)]
  by_cases hhwm : f.ggHdr.mHWM ≥ g.extPID l j
  · rw [if_pos ⟨hhwm, hl⟩, if_pos hhwm]
    show Except.ok (if f.extBit g l f.ggHdr.mAllocLGIdx.dealloc j = false then true else false) = _
    cases f.extBit g l f.ggHdr.mAllocLGIdx.dealloc j <;> rfl
  · rw [if_neg (fun h => hhwm h.1), if_neg hhwm]

/-! ## §3. The high-water mark. -/

/-- The switch of roles leaves the high water mark alone. -/
theorem trySwitch_mHWM (f : File) : f.trySwitch.ggHdr.mHWM = f.ggHdr.mHWM := by
  unfold File.trySwitch
  dsimp only
  split
  · rfl
  · split <;> rfl

/-- The mark is only raised, and to the page at least. -/
theorem le_raiseHWM (gg : GGHdr) (sLastPID : Nat) :
    gg.mHWM ≤ (gg.raiseHWM sLastPID).mHWM ∧ sLastPID ≤ (gg.raiseHWM sLastPID).mHWM := by
  unfold GGHdr.raiseHWM
  split
  · rename_i h
    exact ⟨h.le, le_rfl⟩
  · rename_i h
    exact ⟨le_rfl, not_lt.mp h⟩

/-- The mark is not lowered, and the extents lie below it. -/
def Marked (hwm : Nat) (f' : File) (pids : List Nat) : Prop :=
  hwm ≤ f'.ggHdr.mHWM ∧ ∀ pid ∈ pids, pid ≤ f'.ggHdr.mHWM

/-- The loop keeps the extents it takes below the mark. -/
theorem allocLoop_marked {fuel aLGHdrPID : Nat} (n : Nat) {r : File × List Nat}
    (hppe : 0 < f.ggHdr.mPagesPerExt) (h : f.allocLoop fuel aLGHdrPID n = .ok r) :
    Marked f.ggHdr.mHWM r.1 r.2 := by
  induction n generalizing f r with
  | zero =>
    cases h
    exact ⟨le_rfl, fun pid hpid => absurd hpid List.not_mem_nil⟩
  | succ n ih =>
    unfold File.allocLoop at h
    dsimp only at h
    split at h
    · split at h
      · cases h
      · split at h
        · split at h
          · cases h
          · rename_i i _ _ _ h' _
            -- the mark after this extent
            let gg := f.ggHdr.logAndModifyFreeExtsOfGG (-1)
            let pid := h'.mStartPID + gg.mPagesPerExt * i
            have hraise := le_raiseHWM gg (lastPIDOfExtent pid gg.mPagesPerExt)
            have hppe' : 0 < gg.mPagesPerExt := hppe
            have hlast : pid ≤ lastPIDOfExtent pid gg.mPagesPerExt := by
              unfold lastPIDOfExtent
              omega
            split at h
            · cases h
            · rename_i r' hrest
              cases h
              have hppe'' :
                  0 < (gg.raiseHWM (lastPIDOfExtent pid gg.mPagesPerExt)).mPagesPerExt := by
                obtain ⟨hwm, heq⟩ := raiseHWM_eq gg (lastPIDOfExtent pid gg.mPagesPerExt)
                rw [heq]
                exact hppe'
              obtain ⟨hle, hall⟩ := ih hppe'' hrest
              refine ⟨hraise.1.trans hle, fun p hp => ?_⟩
              cases hp with
              | head => exact hlast.trans (hraise.2.trans hle)
              | tail _ hp => exact hall p hp
        · cases h
    · cases h
      exact ⟨le_rfl, fun pid hpid => absurd hpid List.not_mem_nil⟩

/-- An allocation in one group marks what it takes. -/
theorem allocExtsInLG_marked {fuel aLGHdrPID n : Nat} {r : File × List Nat × Nat}
    (hppe : 0 < f.ggHdr.mPagesPerExt) (h : f.allocExtsInLG fuel aLGHdrPID n = .ok r) :
    Marked f.ggHdr.mHWM r.1 r.2.1 := by
  unfold File.allocExtsInLG at h
  dsimp only at h
  split at h
  · split at h
    · cases h
    · rename_i r' hloop
      cases h
      exact allocLoop_marked n hppe hloop
  · cases h

/-- The switch of roles takes nothing. -/
theorem Marked.trySwitch {hwm : Nat} {pids : List Nat} (h : Marked hwm f pids) :
    Marked hwm f.trySwitch pids := by
  unfold Marked
  rw [trySwitch_mHWM]
  exact h

/-- The same over all groups. -/
theorem tryAllocExtsInGG_marked {nBits fuel : Nat} {behind : Mem} {r : File × List Nat}
    (hppe : 0 < f.ggHdr.mPagesPerExt) (h : f.tryAllocExtsInGG nBits fuel behind = .ok r) :
    Marked f.ggHdr.mHWM r.1 r.2 := by
  unfold File.tryAllocExtsInGG at h
  dsimp only at h
  split at h
  · cases h
  · split at h
    · split at h
      · cases h
      · rename_i f1 pids n halloc
        have hm : Marked f.ggHdr.mHWM f1 pids := allocExtsInLG_marked hppe halloc
        split at h
        · cases h
        · split at h
          · split at h
            · cases h
            · rename_i gg' hgg
              cases h
              -- writing the group's bit leaves the mark alone
              unfold GGHdr.logAndSetLGFNBitsOfGG at hgg
              split at hgg
              · cases hgg
                exact Marked.trySwitch hm
              · cases hgg
          · cases h
            exact hm.trySwitch
    · split at h
      · cases h
        have hnone : Marked f.ggHdr.mHWM f [] :=
          ⟨le_rfl, fun pid hpid => absurd hpid List.not_mem_nil⟩
        exact hnone.trySwitch
      · cases h

/-- Extents that are given back leave the mark alone: one of them, -/
theorem freeOneExt_mHWM {sLGID sStartFPID sLGHdrPID : Nat} {e : SortExtSlot}
    (h : f.freeOneExt sLGID sStartFPID sLGHdrPID e = .ok f') :
    f'.ggHdr.mHWM = f.ggHdr.mHWM := by
  unfold File.freeOneExt at h
  dsimp only at h
  split at h
  · cases h
  · cases h
    dsimp only
    split <;> rfl

/-- those of one group, -/
theorem freeLoop_mHWM {sFID sLGID sStartFPID sLGHdrPID : Nat} (es : List SortExtSlot)
    {r : File × Nat} (h : f.freeLoop sFID sLGID sStartFPID sLGHdrPID es = .ok r) :
    r.1.ggHdr.mHWM = f.ggHdr.mHWM := by
  induction es generalizing f r with
  | nil =>
    cases h
    rfl
  | cons e es ih =>
    unfold File.freeLoop at h
    split at h
    · split at h
      · cases h
      · rename_i f1 hone
        split at h
        · cases h
        · rename_i r' hrest
          cases h
          rw [ih hrest, freeOneExt_mHWM hone]
    · cases h
      rfl

/-- and the whole call. -/
theorem freeExtsInLG_mHWM {nBits i : Nat} {es : List SortExtSlot} {r : File × Nat}
    (h : f.freeExtsInLG nBits es i = .ok r) : r.1.ggHdr.mHWM = f.ggHdr.mHWM := by
  unfold File.freeExtsInLG at h
  dsimp only at h
  split at h
  · cases h
  · split at h
    · split at h
      · cases h
      · rename_i r' hloop
        cases h
        rw [trySwitch_mHWM, freeLoop_mHWM _ hloop]
    · cases h

/-- **No allocated extent lies above the high-water mark.** -/
theorem hwm_of_reachable {page : Nat → LGHdr} {s : ExtentState}
    (hs : (extentSystem g page).Reachable s) :
    ∀ pid ∈ s.held, pid ≤ s.file.ggHdr.mHWM := by
  have hinv : RunInv g s ∧ ∀ pid ∈ s.held, pid ≤ s.file.ggHdr.mHWM := by
    refine System.Path.invariant
      (I := fun s => RunInv g s ∧ ∀ pid ∈ s.held, pid ≤ s.file.ggHdr.mHWM) hs ?_
      ⟨runInv_of_reachable .refl, fun pid hpid => absurd hpid List.not_mem_nil⟩
    intro s a s' ⟨hi, hmark⟩ _ hst
    refine ⟨hi.step hst, ?_⟩
    have hppe : 0 < s.file.ggHdr.mPagesPerExt := by
      rw [hi.file.pagesPerExt]
      exact g.pagesPerExt_pos
    replace hst : extentStep g s a = some s' := hst
    cases a with
    | alloc behind extra =>
      simp only [extentStep] at hst
      split at hst
      · cases hst
      · rename_i r hres
        cases hst
        -- the new extents are below the mark, which is not lowered
        obtain ⟨hle, hall⟩ := tryAllocExtsInGG_marked hppe hres
        intro pid hpid
        rcases List.mem_append.mp hpid with hnew | hold
        · exact hall pid hnew
        · exact (hmark pid hold).trans hle
    | free es i =>
      simp only [extentStep] at hst
      split at hst
      · split at hst
        · cases hst
        · rename_i r hres
          cases hst
          intro pid hpid
          -- a release leaves the mark alone
          show pid ≤ r.1.ggHdr.mHWM
          rw [freeExtsInLG_mHWM hres]
          exact hmark pid (List.diff_subset _ _ hpid)
      · cases hst
  exact hinv.2

/-! ## §4. Where the report is right. -/

/-- The report on the page `k` of an extent is whether the extent is not allocated. -/
def ReportRight (g : FileAttr) (s : ExtentState) (l j k : Nat) : Prop :=
  isFreeExtPage g.nBits false g.mPagesPerExt s.file (g.extPID l j + k) =
    .ok (decide (g.extPID l j ∉ s.held))

/-- **The report is right exactly for the extents above the high-water mark and
    those whose bit is set in the alloc page**, in every run and for every data page. -/
theorem isFreeExtPage_right_iff (g : FileAttr) (page : Nat → LGHdr) {s : ExtentState}
    (hs : (extentSystem g page).Reachable s) (hl : l < g.lgCnt) (hj : j < g.extCnt l)
    (hk : k < g.mPagesPerExt) :
    ReportRight g s l j k ↔ (s.file.ggHdr.mHWM < g.extPID l j ∨
      s.file.extBit g l s.file.ggHdr.mAllocLGIdx j = true) := by
  have hi := runInv_of_reachable hs
  -- held means both bits set
  have hheld := hi.held.allocated_iff hl hj
  have hdis := hi.file.disjoint s.file.ggHdr.mAllocLGIdx l hl j hj
  unfold ReportRight
  rw [isFreeExtPage_eq hi.file hl hj hk]
  by_cases hhwm : s.file.ggHdr.mHWM ≥ g.extPID l j
  · rw [if_pos hhwm]
    have hnot : ¬ s.file.ggHdr.mHWM < g.extPID l j := not_lt.mpr hhwm
    cases ha : s.file.extBit g l s.file.ggHdr.mAllocLGIdx j with
    | true =>
      refine iff_of_true (congrArg Except.ok ?_) (.inr rfl)
      rw [ha] at hheld
      cases hd : s.file.extBit g l s.file.ggHdr.mAllocLGIdx.dealloc j with
      | true =>
        rw [hd] at hheld
        exact (decide_eq_false (not_not_intro (hheld.mpr ⟨rfl, rfl⟩))).symm
      | false =>
        rw [hd] at hheld
        have hfree : g.extPID l j ∉ s.held := fun h => Bool.false_ne_true (hheld.mp h).2
        exact (decide_eq_true hfree).symm
    | false =>
      -- freed before the last switch: clear in the alloc page only
      rw [ha] at hheld hdis
      have hd := hdis.resolve_left Bool.false_ne_true
      have hfree : g.extPID l j ∉ s.held := fun h => Bool.false_ne_true (hheld.mp h).1
      refine iff_of_false (fun heq => ?_) (fun h => h.elim hnot Bool.false_ne_true)
      rw [hd, decide_eq_true hfree] at heq
      cases heq
  · rw [if_neg hhwm]
    have hfree : g.extPID l j ∉ s.held := fun h => hhwm (hwm_of_reachable hs _ h)
    exact iff_of_true (congrArg Except.ok (decide_eq_true hfree).symm) (.inl (not_le.mp hhwm))

/-- The alloc pages are used up when two extents are given back, so the pages switch. -/
def freedThenSwitched : ExtentState :=
  (extentSystem twoGroups anyPage).after
    (List.replicate 6 (.alloc (fun _ => 0xFF#8) 0) ++
      [.free [⟨twoGroups.extPID 0 3, 0⟩, ⟨twoGroups.extPID 0 1, 0⟩] 0]) (by decide +kernel)

/-- Extent 1 of group 1 in a run with a release and a switch. -/
theorem isFreeExtPage_right_iff_allocated :
    ReportRight twoGroups freedThenSwitched 1 1 1 :=
  (isFreeExtPage_right_iff twoGroups anyPage (System.reachable_after _ _ _) (by decide +kernel)
    (by decide +kernel) (by decide +kernel)).mpr (.inr (by decide +kernel))

/-- **An extent that was freed before the switch**: its second page is reported as
    part of an allocated extent. -/
theorem isFreeExtPage_wrong :
    isFreeExtPage twoGroups.nBits false twoGroups.mPagesPerExt freedThenSwitched.file
        (twoGroups.extPID 0 1 + 1) = .ok false ∧
      twoGroups.extPID 0 1 ∉ freedThenSwitched.held ∧
      ¬ ∀ (g : FileAttr) (page : Nat → LGHdr) (s : ExtentState),
        (extentSystem g page).Reachable s → ∀ l j k, l < g.lgCnt → j < g.extCnt l →
          k < g.mPagesPerExt → ReportRight g s l j k := by
  have hreport : isFreeExtPage twoGroups.nBits false twoGroups.mPagesPerExt
      freedThenSwitched.file (twoGroups.extPID 0 1 + 1) = .ok false := by decide +kernel
  have hfree : twoGroups.extPID 0 1 ∉ freedThenSwitched.held := by decide +kernel
  refine ⟨hreport, hfree, fun h => ?_⟩
  have hright := h twoGroups anyPage freedThenSwitched (System.reachable_after _ _ _) 0 1 1
    (by decide +kernel) (by decide +kernel) (by decide +kernel)
  unfold ReportRight at hright
  rw [hreport, decide_eq_true hfree] at hright
  cases hright

end Altibase.Sdp
