/-
  Altibase.Sdp.ExtentOps
  ──────────────────────
  **ALLOCATION AND FREE KEEP THE INVARIANT.**

  An allocation searches the alloc page of the first group with a free extent from
  the hint on; everything below the hint is set, so it finds the first clear bit.  A
  free clears bits of the dealloc pages, one slot after the other.

  Main results:
    * `tryAllocExtsInGG_spec` — an allocation hands out a clear bit of the alloc page;
    * `freeExtsInLG_spec` — a free clears set bits of the dealloc page.
-/
import Altibase.Sdp.ExtentInv

namespace Altibase.Sdp

variable {g : FileAttr} {f f' : File} {l j : Nat} {w : AllocLGIdx}

/-! ## §1. Allocation. -/

/-- The bit that is written and the bits that stay. -/
theorem extBit_of_update {h : LGHdr} (hl : l < g.lgCnt)
    (hpage : f'.page = Function.update f.page (g.hdrPID l w) h) {k : Nat} (hk : k < g.lgCnt)
    (v : AllocLGIdx) (i : Nat) :
    f'.extBit g k v i = if k = l ∧ v = w then getBit h.mBitmap 0 i else f.extBit g k v i := by
  unfold File.extBit
  rw [lgHdr_of_update hl hpage hk v]
  split <;> rfl

/-- An allocation takes one free extent from the page, the first one. -/
theorem PageOk.allocByBitmapIndex {h : LGHdr} (hp : PageOk g l h) {i : Nat}
    (hi : i < g.extCnt l) (hbit : getBit h.mBitmap 0 i = false)
    (hbelow : ∀ j < i, getBit h.mBitmap 0 j = true) :
    ∃ h', h.allocByBitmapIndex i = .ok h' ∧ PageOk g l h' ∧ h'.mFree + 1 = h.mFree ∧
      h'.mStartPID = h.mStartPID ∧ h'.mBitmap = setBit h.mBitmap 0 i := by
  have hcount := clearCount_setBit hi hbit
  have hfree := hp.free
  unfold LGHdr.allocByBitmapIndex
  rw [if_pos (by omega)]
  refine ⟨_, rfl, ⟨hp.startPID, hp.validBits, ?_, ?_, ?_⟩, ?_, rfl, rfl⟩
  · show h.mFree - 1 = clearCount (setBit h.mBitmap 0 i) (g.extCnt l)
    omega
  · show i + 1 ≤ _
    omega
  · intro j hj
    show getBit (setBit h.mBitmap 0 i) 0 j = true
    rw [getBit_setBit]
    by_cases hji : j = i
    · simp [hji]
    · have hj' : j < i + 1 := hj
      simp [hbelow j (by omega)]
  · show h.mFree - 1 + 1 = h.mFree
    omega

/-- A page with a free extent: the search from the hint finds its first clear bit. -/
theorem PageOk.findZeroBit {h : LGHdr} (hp : PageOk g l h) (hfree : 0 < h.mFree) {fuel : Nat}
    (hfuel : g.nBits ≤ fuel) :
    h.mHint < g.extCnt l ∧ ∃ i, findZeroBitFromHint fuel h.mBitmap 0 h.mValidBits h.mHint = some i ∧
      i < g.extCnt l ∧ getBit h.mBitmap 0 i = false ∧ ∀ j < i, getBit h.mBitmap 0 j = true := by
  rw [hp.free] at hfree
  obtain ⟨j, hj, hbit⟩ := exists_clear_of_pos hfree
  have hge : h.mHint ≤ j := by
    by_contra hlt
    rw [hp.hint j (by omega)] at hbit
    cases hbit
  have hle := g.extCnt_le l
  refine ⟨by omega, ?_⟩
  obtain ⟨i, hi, hfirst⟩ := @findZeroBitFromHint_spec _ 0 (g.extCnt l) fuel h.mHint j
    (show h.mHint < g.extCnt l by omega) (show 8 * (h.mHint / 8) ≤ j by omega) hj hbit (by omega)
  rw [hp.validBits]
  refine ⟨i, hi, ?_, hfirst.bit, ?_⟩
  · -- the first clear bit is not behind `j`
    by_contra hlt
    have hset := hfirst.passed j (by omega) (by omega)
    rw [hbit] at hset
    cases hset
  · intro k hk
    by_cases hkh : k < h.mHint
    · exact hp.hint k hkh
    · exact hfirst.passed k (by omega) hk

section Header

variable (gg : GGHdr)

@[simp] theorem setFreeness_mGGID (w : AllocLGIdx) (i : LGFreeInfo) :
    (gg.setFreeness w i).mGGID = gg.mGGID := rfl

@[simp] theorem setFreeness_mPagesPerExt (w : AllocLGIdx) (i : LGFreeInfo) :
    (gg.setFreeness w i).mPagesPerExt = gg.mPagesPerExt := rfl

@[simp] theorem setFreeness_mLGCnt (w : AllocLGIdx) (i : LGFreeInfo) :
    (gg.setFreeness w i).mLGCnt = gg.mLGCnt := rfl

@[simp] theorem setFreeness_mAllocLGIdx (w : AllocLGIdx) (i : LGFreeInfo) :
    (gg.setFreeness w i).mAllocLGIdx = gg.mAllocLGIdx := rfl

@[simp] theorem setFreeness_self (w : AllocLGIdx) (i : LGFreeInfo) :
    (gg.setFreeness w i).mLGFreeness w = i := by
  unfold GGHdr.setFreeness
  exact Function.update_self w i gg.mLGFreeness

@[simp] theorem setFreeness_dealloc (w : AllocLGIdx) (i : LGFreeInfo) :
    (gg.setFreeness w i).mLGFreeness w.dealloc = gg.mLGFreeness w.dealloc := by
  unfold GGHdr.setFreeness
  exact Function.update_of_ne w.dealloc_ne i gg.mLGFreeness

/-- `raiseHWM` writes `mHWM` only. -/
theorem raiseHWM_eq (sLastPID : Nat) : ∃ hwm, gg.raiseHWM sLastPID = { gg with mHWM := hwm } := by
  unfold GGHdr.raiseHWM
  split
  · exact ⟨sLastPID, rfl⟩
  · exact ⟨gg.mHWM, rfl⟩

end Header

/-- What one write of a group bitmap and of the counter of its page kind leaves, the
    freeness bit of the group apart. -/
structure Counted (g : FileAttr) (f f' : File) (l : Nat) (w : AllocLGIdx) (h : LGHdr) : Prop where
  pageOk : PageOk g l h
  page : f'.page = Function.update f.page (g.hdrPID l w) h
  ggid : f'.ggHdr.mGGID = f.ggHdr.mGGID
  pagesPerExt : f'.ggHdr.mPagesPerExt = f.ggHdr.mPagesPerExt
  lgCnt : f'.ggHdr.mLGCnt = f.ggHdr.mLGCnt
  allocLGIdx : f'.ggHdr.mAllocLGIdx = f.ggHdr.mAllocLGIdx
  other : f'.ggHdr.mLGFreeness w.dealloc = f.ggHdr.mLGFreeness w.dealloc
  freeExts : (f'.ggHdr.mLGFreeness w).mFreeExts + (f.lgHdr g l w).mFree =
    (f.ggHdr.mLGFreeness w).mFreeExts + h.mFree
  bits : (f'.ggHdr.mLGFreeness w).mBits = (f.ggHdr.mLGFreeness w).mBits

/-- The count changes on one of the two header pages. -/
theorem logAndModifyFreeExts_eq (gg : GGHdr) (w : AllocLGIdx) (aVal : Int) (n : Nat)
    (hn : (((gg.mLGFreeness w).mFreeExts + aVal) % 2 ^ 64).toNat = n) :
    gg.logAndModifyFreeExtsOfGGByLGType w aVal =
      gg.setFreeness w { gg.mLGFreeness w with mFreeExts := n } := by
  unfold GGHdr.logAndModifyFreeExtsOfGGByLGType
  simp only [hn]

/-- One extent is taken from the group `l`. -/
theorem allocExtsInLG_spec (hf : FileOk g f) (hl : l < g.lgCnt) {fuel : Nat}
    (hfuel : g.nBits ≤ fuel) (hw : f.ggHdr.mAllocLGIdx = w) (hfree : 0 < (f.lgHdr g l w).mFree) :
    ∃ j h' f1, j < g.extCnt l ∧ f.extBit g l w j = false ∧
      h'.mBitmap = setBit (f.lgHdr g l w).mBitmap 0 j ∧
      f.allocExtsInLG fuel (g.hdrPID l w) 1 = .ok (f1, [g.extPID l j], h'.mFree) ∧
      Counted g f f1 l w h' := by
  have hp := hf.page w l hl
  obtain ⟨hhint, j, hfind, hj, hbit, hbelow⟩ := hp.findZeroBit hfree hfuel
  obtain ⟨h', halloc, hp', hfree', hstart, hbitmap⟩ := hp.allocByBitmapIndex hj hbit hbelow
  -- the counter of the file header is positive, so it does not wrap
  have hpos : 0 < (f.ggHdr.mLGFreeness w).mFreeExts := by
    rw [hf.freeExts w]
    exact Finset.sum_pos' (fun _ _ => Nat.zero_le _) ⟨l, Finset.mem_range.mpr hl, hfree⟩
  have hlt := hf.freeExts_lt w
  have hgg : f.ggHdr.logAndModifyFreeExtsOfGG (-1) = f.ggHdr.setFreeness w
      { f.ggHdr.mLGFreeness w with mFreeExts := (f.ggHdr.mLGFreeness w).mFreeExts - 1 } := by
    unfold GGHdr.logAndModifyFreeExtsOfGG
    rw [hw]
    exact logAndModifyFreeExts_eq _ _ _ _ (by omega)
  obtain ⟨hwm, hraise⟩ := raiseHWM_eq (f.ggHdr.logAndModifyFreeExtsOfGG (-1))
    (lastPIDOfExtent (g.extPID l j) g.mPagesPerExt)
  refine ⟨j, h', { f with
      ggHdr := (f.ggHdr.logAndModifyFreeExtsOfGG (-1)).raiseHWM
        (lastPIDOfExtent (g.extPID l j) g.mPagesPerExt)
      page := Function.update f.page (g.hdrPID l w) h' }, hj, hbit, hbitmap, ?_, ?_⟩
  · have hppe : (f.ggHdr.logAndModifyFreeExtsOfGG (-1)).mPagesPerExt = g.mPagesPerExt := by
      rw [hgg, setFreeness_mPagesPerExt, hf.pagesPerExt]
    have hpid : h'.mStartPID + g.mPagesPerExt * j = g.extPID l j := by
      rw [hstart, hp.startPID]
      rfl
    have hvalid : (f.lgHdr g l w).mFree > 0 ∧
        (f.lgHdr g l w).mValidBits > (f.lgHdr g l w).mHint := by
      rw [hp.validBits]
      exact ⟨hfree, hhint⟩
    unfold File.allocExtsInLG
    simp only [File.allocLoop]
    rw [show f.page (g.hdrPID l w) = f.lgHdr g l w from rfl, if_pos hvalid, if_pos hfree, hfind]
    simp only [hp.validBits, if_pos hj, halloc, hppe, hpid, Function.update_self]
  · rw [hraise, hgg]
    constructor
    · exact hp'
    · rfl
    · rfl
    · rfl
    · rfl
    · rfl
    · exact setFreeness_dealloc f.ggHdr w _
    · -- the free extents
      show ((f.ggHdr.setFreeness w _).mLGFreeness w).mFreeExts + _ = _
      rw [setFreeness_self]
      show (f.ggHdr.mLGFreeness w).mFreeExts - 1 + _ = _
      omega
    · -- the freeness bits
      show ((f.ggHdr.setFreeness w _).mLGFreeness w).mBits = _
      rw [setFreeness_self]

section Counted

variable {h : LGHdr}

/-- The freeness bit of the group is right as it is. -/
theorem Counted.fileOk_keep (hf : FileOk g f) (hl : l < g.lgCnt) (hc : Counted g f f' l w h)
    (hbit : getBit (f.ggHdr.mLGFreeness w).mBits 0 l = decide (0 < h.mFree))
    (hdis : ∀ j < g.extCnt l, getBit h.mBitmap 0 j = true ∨ f.extBit g l w.dealloc j = true) :
    FileOk g f' := by
  refine hf.setPage hl hc.pageOk hc.page hc.ggid hc.pagesPerExt hc.lgCnt hc.other hc.freeExts ?_ hdis
  intro k _
  rw [hc.bits]
  by_cases hkl : k = l
  · rw [if_pos hkl, hkl, hbit]
  · rw [if_neg hkl]

/-- Writing one bit. -/
theorem getBit_write (m : Mem) (a i j : Nat) (v : Bool) :
    getBit ((if v then setBit else clearBit) m a i) a j = if j = i then v else getBit m a j := by
  cases v
  · show getBit (clearBit m a i) a j = _
    rw [getBit_clearBit]
    by_cases h : j = i <;> simp [h]
  · show getBit (setBit m a i) a j = _
    rw [getBit_setBit]
    by_cases h : j = i <;> simp [h]

/-- The freeness bit of the group is written. -/
theorem Counted.fileOk_write (hf : FileOk g f) (hl : l < g.lgCnt) (hc : Counted g f f' l w h)
    {v : Bool} (hv : v = decide (0 < h.mFree))
    (hdis : ∀ j < g.extCnt l, getBit h.mBitmap 0 j = true ∨ f.extBit g l w.dealloc j = true) :
    FileOk g { f' with ggHdr := f'.ggHdr.writeFNBit w l v } := by
  have hself : (f'.ggHdr.writeFNBit w l v).mLGFreeness w = { f'.ggHdr.mLGFreeness w with
      mBits := (if v then setBit else clearBit) (f'.ggHdr.mLGFreeness w).mBits 0 l } :=
    setFreeness_self _ _ _
  refine hf.setPage hl hc.pageOk hc.page hc.ggid hc.pagesPerExt hc.lgCnt ?_ ?_ ?_ hdis
  · exact (setFreeness_dealloc _ _ _).trans hc.other
  · show ((f'.ggHdr.writeFNBit w l v).mLGFreeness w).mFreeExts + _ = _
    rw [hself]
    exact hc.freeExts
  · intro k _
    show getBit ((f'.ggHdr.writeFNBit w l v).mLGFreeness w).mBits 0 k = _
    rw [hself]
    show getBit ((if v then setBit else clearBit) _ 0 l) 0 k = _
    rw [getBit_write, hc.bits, hv]

end Counted

/-- An extent that is taken becomes one that is handed out. -/
theorem HeldOk.alloc {h : LGHdr} {held : List Nat} (hf : FileOk g f) (hh : HeldOk g f held)
    (hl : l < g.lgCnt) (hj : j < g.extCnt l) (hbit : f.extBit g l w j = false)
    (hset : h.mBitmap = setBit (f.lgHdr g l w).mBitmap 0 j)
    (hpage : f'.page = Function.update f.page (g.hdrPID l w) h) :
    g.extPID l j ∉ held ∧ HeldOk g f' (g.extPID l j :: held) := by
  have hnot : g.extPID l j ∉ held := by
    intro hmem
    obtain ⟨l', hl', j', hj', hpid, hboth⟩ := (hh.mem_iff _).mp hmem
    obtain ⟨rfl, rfl⟩ := g.extPID_inj hl hj hl' hj' hpid
    rw [hboth w] at hbit
    cases hbit
  -- the bits after the write
  have hnew : ∀ k < g.lgCnt, ∀ v i, f'.extBit g k v i =
      if k = l ∧ v = w ∧ i = j then true else f.extBit g k v i := by
    intro k hk v i
    rw [extBit_of_update hl hpage hk, hset, getBit_setBit]
    by_cases hkv : k = l ∧ v = w
    · obtain ⟨rfl, rfl⟩ := hkv
      by_cases hij : i = j
      · simp [hij]
      · simp [hij, File.extBit]
    · rw [if_neg hkv, if_neg (fun h' => hkv ⟨h'.1, h'.2.1⟩)]
  refine ⟨hnot, List.nodup_cons.mpr ⟨hnot, hh.nodup⟩, fun pid => ?_⟩
  rw [List.mem_cons, hh.mem_iff]
  constructor
  · rintro (rfl | ⟨k, hk, i, hi, rfl, hboth⟩)
    · refine ⟨l, hl, j, hj, rfl, fun v => ?_⟩
      rw [hnew l hl]
      rcases w.eq_or_dealloc v with rfl | rfl
      · simp
      · rw [if_neg (fun h' => w.dealloc_ne h'.2.1)]
        exact (hf.disjoint w l hl j hj).resolve_left (by rw [hbit]; decide)
    · refine ⟨k, hk, i, hi, rfl, fun v => ?_⟩
      rw [hnew k hk, hboth v]
      split <;> rfl
  · rintro ⟨k, hk, i, hi, rfl, hboth⟩
    by_cases hki : k = l ∧ i = j
    · obtain ⟨rfl, rfl⟩ := hki
      exact Or.inl rfl
    · refine Or.inr ⟨k, hk, i, hi, rfl, fun v => ?_⟩
      have hv := hboth v
      rwa [hnew k hk, if_neg (fun h' => hki ⟨h'.1, h'.2.2⟩)] at hv

/-- The first sixteen bytes are the group bits. -/
theorem getBit_freenessMem (gg : GGHdr) (behind : Mem) (w : AllocLGIdx) {k : Nat}
    (hk : k < lgCntMax) :
    getBit (File.freenessMem gg behind w) 0 k = getBit (gg.mLGFreeness w).mBits 0 k := by
  have hbyte : 0 + k / 8 < 16 := by
    simp only [lgCntMax] at hk
    omega
  rw [getBit_eq, getBit_eq]
  unfold File.freenessMem
  rw [if_pos hbyte]

/-- The counter of a page kind is positive when a group of it has a free extent. -/
theorem FileOk.freeExts_pos_iff (hf : FileOk g f) (w : AllocLGIdx) :
    0 < (f.ggHdr.mLGFreeness w).mFreeExts ↔ ∃ l < g.lgCnt, 0 < (f.lgHdr g l w).mFree := by
  rw [hf.freeExts w, Finset.sum_pos_iff]
  simp only [Finset.mem_range]

/-- **An allocation.**  When the alloc pages have a free extent it hands out one
    whose bit is clear in the alloc page; otherwise there is none to hand out. -/
theorem tryAllocExtsInGG_spec {held : List Nat} (hf : FileOk g f) (hh : HeldOk g f held)
    {fuel : Nat} (hfuel : g.nBits + lgCntMax ≤ fuel) (behind : Mem)
    (hw : f.ggHdr.mAllocLGIdx = w) :
    (∃ l < g.lgCnt, ∃ j < g.extCnt l, ∃ f', f.extBit g l w j = false ∧
        f.tryAllocExtsInGG g.nBits fuel behind = .ok (f', [g.extPID l j]) ∧
        FileOk g f' ∧ HeldOk g f' (g.extPID l j :: held) ∧ g.extPID l j ∉ held) ∨
      ((f.ggHdr.mLGFreeness w).mFreeExts = 0 ∧
        (f.tryAllocExtsInGG g.nBits fuel behind = .error .noAnswer ∨
          f.tryAllocExtsInGG g.nBits fuel behind = .ok (f.trySwitch, []))) := by
  have hcntle := g.lgCnt_le
  have hspec := @findBitFromHint_spec (File.freenessMem f.ggHdr behind w) 0 g.lgCnt fuel 0
  -- a group has a free extent exactly when the search can find its bit
  have hbits : ∀ k < g.lgCnt, (getBit (File.freenessMem f.ggHdr behind w) 0 k = true ↔
      0 < (f.lgHdr g k w).mFree) := by
    intro k hk
    rw [getBit_freenessMem _ _ _ (by omega)]
    exact hf.freeness w k hk
  generalize hres : f.tryAllocExtsInGG g.nBits fuel behind = res
  unfold File.tryAllocExtsInGG at hres
  simp only [hw, hf.lgCnt, hf.ggid, hf.pagesPerExt, findBit] at hres
  cases hfind : findBitFromHint fuel (File.freenessMem f.ggHdr behind w) 0 g.lgCnt 0 with
  | none =>
      simp only [hfind] at hres
      refine Or.inr ⟨?_, Or.inl hres.symm⟩
      by_contra hpos
      obtain ⟨l, hl, hfree⟩ := (hf.freeExts_pos_iff w).mp (Nat.pos_of_ne_zero hpos)
      have hsome := hspec.2 l (by omega) (Nat.zero_le l) ((hbits l hl).mpr hfree) (by omega)
      rw [hfind] at hsome
      cases hsome
  | some sLGID =>
      simp only [hfind] at hres
      rcases hspec.1 sLGID hfind with ⟨hlt, hfirst⟩ | ⟨rfl, hnone⟩
      · have hfree := (hbits sLGID hlt).mp hfirst.bit
        obtain ⟨j, h', f1, hj, hbit, hset, halloc, hc⟩ :=
          allocExtsInLG_spec hf hlt (show g.nBits ≤ fuel by omega) hw hfree
        have hdis : ∀ i < g.extCnt sLGID, getBit h'.mBitmap 0 i = true ∨
            f.extBit g sLGID w.dealloc i = true := by
          intro i hi
          rcases hf.disjoint w sLGID hlt i hi with hbi | hbi
          · rw [hset, getBit_setBit]
            have hbit' : getBit (f.lgHdr g sLGID w).mBitmap 0 i = true := hbi
            exact Or.inl (by rw [hbit', Bool.or_true])
          · exact Or.inr hbi
        have hheld := hh.alloc hf hlt hj hbit hset hc.page
        have hone : ¬([g.extPID sLGID j].length = 0 ∨ [g.extPID sLGID j].length > 4) := by
          simp
        have hhdr : lgHdrPIDFromLGID g.nBits g.mID sLGID w.toNat g.mPagesPerExt = g.hdrPID sLGID w :=
          rfl
        simp only [if_pos hlt, hhdr, halloc, if_neg hone, hc.pagesPerExt, hf.pagesPerExt,
          g.getLGIDByPID_hdrPID hlt, GGHdr.logAndSetLGFNBitsOfGG, hc.allocLGIdx, hw,
          if_pos (show sLGID < lgCntMax by omega)] at hres
        refine Or.inl ⟨sLGID, hlt, j, hj, ?_⟩
        by_cases hzero : h'.mFree = 0
        · -- the group is used up: its bit goes off
          rw [if_pos hzero] at hres
          refine ⟨_, hbit, hres.symm, ?_, ?_, hheld.1⟩
          · exact (hc.fileOk_write hf hlt (by rw [hzero]; rfl) hdis).trySwitch
          · exact hheld.2.congr (File.trySwitch_page _)
        · rw [if_neg hzero] at hres
          refine ⟨_, hbit, hres.symm, ?_, ?_, hheld.1⟩
          · refine (hc.fileOk_keep hf hlt ?_ hdis).trySwitch
            rw [(hf.freeness w sLGID hlt).mpr hfree]
            exact (decide_eq_true (Nat.pos_of_ne_zero hzero)).symm
          · exact hheld.2.congr (File.trySwitch_page _)
      · have hge : ¬ bitNotFound < g.lgCnt := by
          simp only [bitNotFound, lgCntMax] at hcntle ⊢
          omega
        simp only [if_neg hge, if_true] at hres
        refine Or.inr ⟨?_, Or.inr hres.symm⟩
        by_contra hpos
        obtain ⟨l, hl, hfree⟩ := (hf.freeExts_pos_iff w).mp (Nat.pos_of_ne_zero hpos)
        have hoff := hnone l (Nat.zero_le l) hl
        rw [(hbits l hl).mpr hfree] at hoff
        cases hoff

/-! ## §2. Free. -/

/-- A release gives one extent back to the page. -/
theorem PageOk.freeByBitmapIndex {h : LGHdr} (hp : PageOk g l h) {i : Nat}
    (hi : i < g.extCnt l) (hbit : getBit h.mBitmap 0 i = true) :
    ∃ h', h.freeByBitmapIndex i = .ok h' ∧ PageOk g l h' ∧ h'.mFree = h.mFree + 1 ∧
      h'.mBitmap = clearBit h.mBitmap 0 i := by
  have hcount := clearCount_clearBit hi hbit
  have hlt := clearCount_lt hi hbit
  have hfree := hp.free
  have hvalid := hp.validBits
  unfold LGHdr.freeByBitmapIndex
  rw [if_pos (by omega)]
  refine ⟨_, rfl, ⟨hp.startPID, hp.validBits, ?_, ?_, ?_⟩, rfl, rfl⟩
  · show h.mFree + 1 = clearCount (clearBit h.mBitmap 0 i) (g.extCnt l)
    omega
  · show (if h.mHint > i then i else h.mHint) ≤ g.extCnt l
    have hle := hp.hint_le
    split <;> omega
  · intro j hj
    have hj' : j < if h.mHint > i then i else h.mHint := hj
    show getBit (clearBit h.mBitmap 0 i) 0 j = true
    rw [getBit_clearBit, hp.hint j (by split at hj' <;> omega)]
    have hne : j ≠ i := by
      split at hj' <;> omega
    simp [hne]

/-- An extent that is given back is no longer handed out. -/
theorem HeldOk.free {h : LGHdr} {held : List Nat} (hh : HeldOk g f held)
    (hl : l < g.lgCnt) (hj : j < g.extCnt l)
    (hset : h.mBitmap = clearBit (f.lgHdr g l w).mBitmap 0 j)
    (hpage : f'.page = Function.update f.page (g.hdrPID l w) h) :
    HeldOk g f' (held.erase (g.extPID l j)) := by
  have hnew : ∀ k < g.lgCnt, ∀ v i, f'.extBit g k v i =
      if k = l ∧ v = w ∧ i = j then false else f.extBit g k v i := by
    intro k hk v i
    rw [extBit_of_update hl hpage hk, hset, getBit_clearBit]
    by_cases hkv : k = l ∧ v = w
    · obtain ⟨rfl, rfl⟩ := hkv
      by_cases hij : i = j
      · simp [hij]
      · simp [hij, File.extBit]
    · rw [if_neg hkv, if_neg (fun h' => hkv ⟨h'.1, h'.2.1⟩)]
  refine ⟨hh.nodup.erase _, fun pid => ?_⟩
  rw [hh.nodup.mem_erase_iff, hh.mem_iff]
  constructor
  · rintro ⟨hne, k, hk, i, hi, rfl, hboth⟩
    refine ⟨k, hk, i, hi, rfl, fun v => ?_⟩
    rw [hnew k hk, if_neg ?_]
    · exact hboth v
    · rintro ⟨rfl, -, rfl⟩
      exact hne rfl
  · rintro ⟨k, hk, i, hi, rfl, hboth⟩
    have hki : ¬ (k = l ∧ i = j) := by
      rintro ⟨rfl, rfl⟩
      have hv := hboth w
      rw [hnew k hk, if_pos ⟨rfl, rfl, rfl⟩] at hv
      cases hv
    refine ⟨fun heq => hki (g.extPID_inj hk hi hl hj heq), k, hk, i, hi, rfl, fun v => ?_⟩
    have hv := hboth v
    rwa [hnew k hk, if_neg (fun h' => hki ⟨h'.1, h'.2.2⟩)] at hv

/-- One slot of `freeExtsInLG`, for an extent that is handed out. -/
theorem freeOneExt_spec {held : List Nat} (hf : FileOk g f) (hh : HeldOk g f held)
    (hw : f.ggHdr.mAllocLGIdx.dealloc = w) {e : SortExtSlot} (hmem : e.mExtFstPID ∈ held)
    (hl : l = getLGIDByPID g.nBits e.mExtFstPID g.mPagesPerExt) :
    ∃ f', f.freeOneExt l (extentStartFPIDFromLGID g.nBits l g.mPagesPerExt) (g.hdrPID l w) e =
        .ok f' ∧ FileOk g f' ∧ HeldOk g f' (held.erase e.mExtFstPID) ∧
      f'.ggHdr.mAllocLGIdx = f.ggHdr.mAllocLGIdx ∧ l < g.lgCnt := by
  obtain ⟨l', hl', j, hj, hpid, hboth⟩ := (hh.mem_iff _).mp hmem
  rw [hpid, g.getLGIDByPID_extPID hl' hj] at hl
  subst hl
  have hp := hf.page w l hl'
  obtain ⟨h', hfree, hp', hcount, hset⟩ := hp.freeByBitmapIndex hj (hboth w)
  have hlt := hf.freeExts_lt w
  have hgg : f.ggHdr.logAndModifyFreeExtsOfGGByLGType w 1 = f.ggHdr.setFreeness w
      { f.ggHdr.mLGFreeness w with mFreeExts := (f.ggHdr.mLGFreeness w).mFreeExts + 1 } :=
    logAndModifyFreeExts_eq _ _ _ _ (by omega)
  -- the file before the freeness bit is looked at
  have hc : Counted g f
      { f with
        ggHdr := f.ggHdr.logAndModifyFreeExtsOfGGByLGType w 1
        page := Function.update f.page (g.hdrPID l w) h' } l w h' := by
    rw [hgg]
    constructor
    · exact hp'
    · rfl
    · rfl
    · rfl
    · rfl
    · rfl
    · exact setFreeness_dealloc f.ggHdr w _
    · -- the free extents
      show ((f.ggHdr.setFreeness w _).mLGFreeness w).mFreeExts + _ = _
      rw [setFreeness_self]
      show (f.ggHdr.mLGFreeness w).mFreeExts + 1 + _ = _
      omega
    · -- the freeness bits
      show ((f.ggHdr.setFreeness w _).mLGFreeness w).mBits = _
      rw [setFreeness_self]
  have hpos : 0 < h'.mFree := by omega
  -- the other page still has the bit
  have hdis : ∀ i < g.extCnt l, getBit h'.mBitmap 0 i = true ∨ f.extBit g l w.dealloc i = true := by
    intro i hi
    by_cases hij : i = j
    · exact Or.inr (by rw [hij]; exact hboth w.dealloc)
    · rw [hset, getBit_clearBit]
      simpa [hij, File.extBit] using hf.disjoint w l hl' i hi
  have hheld := hh.free hl' hj hset hc.page
  have hidx := g.extIdx_extPID hl' hj
  unfold File.freeOneExt
  simp only [hpid, hf.pagesPerExt, hidx, hw]
  rw [show f.page (g.hdrPID l w) = f.lgHdr g l w from rfl, hfree]
  dsimp only
  by_cases hoff : getBit (f.ggHdr.mLGFreeness w).mBits 0 l = false
  · have hoff' : getBit ((f.ggHdr.logAndModifyFreeExtsOfGGByLGType w 1).mLGFreeness w).mBits 0 l =
        false := by
      rw [hgg, setFreeness_self]
      exact hoff
    rw [if_pos hoff']
    refine ⟨_, rfl, ?_, hheld.congr rfl, ?_, hl'⟩
    · exact hc.fileOk_write hf hl' (decide_eq_true hpos).symm hdis
    · rfl
  · have hon : ¬ getBit ((f.ggHdr.logAndModifyFreeExtsOfGGByLGType w 1).mLGFreeness w).mBits 0 l =
        false := by
      rw [hgg, setFreeness_self]
      exact hoff
    rw [if_neg hon]
    refine ⟨_, rfl, ?_, hheld, rfl, hl'⟩
    refine hc.fileOk_keep hf hl' ?_ hdis
    rw [decide_eq_true hpos]
    simpa using hoff

/-- The slots one call of `freeExtsInLG` looks at: those of the first one's file and
    group, as far as they go. -/
def batch (sFID sLGID : Nat) (es : List SortExtSlot) : List SortExtSlot :=
  es.takeWhile fun e => sFID = sdMakeFID e.mExtFstPID ∧ sLGID = e.mLocalGroupID

/-- What the callers of `freeExtsInLG` give back: different extents that are handed
    out, each with the id of its group. -/
def CallerOk (g : FileAttr) (held : List Nat) (es : List SortExtSlot) : Prop :=
  (es.map SortExtSlot.mExtFstPID).Nodup ∧ ∀ e ∈ es, e.mExtFstPID ∈ held ∧
    e.mLocalGroupID = getLGIDByPID g.nBits e.mExtFstPID g.mPagesPerExt

instance (g : FileAttr) (held : List Nat) (es : List SortExtSlot) :
    Decidable (CallerOk g held es) :=
  inferInstanceAs (Decidable (_ ∧ _))

/-- The promise holds for the rest of the list, once the first extent is given back. -/
theorem CallerOk.tail {held : List Nat} {e : SortExtSlot} {es : List SortExtSlot}
    (h : CallerOk g held (e :: es)) : CallerOk g (held.erase e.mExtFstPID) es := by
  obtain ⟨hnodup, hall⟩ := h
  rw [List.map_cons, List.nodup_cons] at hnodup
  refine ⟨hnodup.2, fun e' he' => ?_⟩
  have hne : e'.mExtFstPID ≠ e.mExtFstPID := by
    intro heq
    exact hnodup.1 (heq ▸ List.mem_map_of_mem he')
  obtain ⟨hmem, hlg⟩ := hall e' (List.mem_cons_of_mem _ he')
  exact ⟨(List.mem_erase_of_ne hne).mpr hmem, hlg⟩

/-- The loop, by induction on the slots. -/
theorem freeLoop_spec {sFID : Nat} (es : List SortExtSlot) {held : List Nat} (hf : FileOk g f)
    (hh : HeldOk g f held) (hw : f.ggHdr.mAllocLGIdx.dealloc = w)
    (hcaller : CallerOk g held (batch sFID l es)) :
    ∃ f', File.freeLoop sFID l (extentStartFPIDFromLGID g.nBits l g.mPagesPerExt) (g.hdrPID l w)
        es f = .ok (f', (batch sFID l es).length) ∧
      FileOk g f' ∧ HeldOk g f' (held.diff ((batch sFID l es).map SortExtSlot.mExtFstPID)) := by
  induction es generalizing f held with
  | nil => exact ⟨f, rfl, hf, hh⟩
  | cons e es ih =>
      unfold File.freeLoop
      by_cases hin : sFID = sdMakeFID e.mExtFstPID ∧ l = e.mLocalGroupID
      · have hbatch : batch sFID l (e :: es) = e :: batch sFID l es :=
          List.takeWhile_cons_of_pos (by simpa using hin)
        rw [hbatch] at hcaller ⊢
        obtain ⟨hmem, hlg⟩ := hcaller.2 e List.mem_cons_self
        obtain ⟨f1, hone, hf1, hh1, hidx, -⟩ := freeOneExt_spec hf hh hw hmem (hin.2.trans hlg)
        obtain ⟨f2, hrest, hf2, hh2⟩ := ih hf1 hh1 (by rw [hidx]; exact hw) hcaller.tail
        rw [if_pos hin, hone]
        dsimp only
        rw [hrest]
        refine ⟨f2, rfl, hf2, ?_⟩
        rw [List.map_cons, List.diff_cons]
        exact hh2
      · have hbatch : batch sFID l (e :: es) = [] :=
          List.takeWhile_cons_of_neg (by simpa using hin)
        rw [if_neg hin, hbatch]
        exact ⟨f, rfl, hf, hh⟩

/-- The slots one call gives back. -/
def freedSlots (aSortedExts : List SortExtSlot) (aBeginIndex : Nat) : List SortExtSlot :=
  match aSortedExts.drop aBeginIndex with
  | [] => []
  | e :: es => batch (sdMakeFID e.mExtFstPID) e.mLocalGroupID (e :: es)

/-- **A free.**  It takes the slots of one group and none of its checks fails. -/
theorem freeExtsInLG_spec {held : List Nat} (hf : FileOk g f) (hh : HeldOk g f held)
    {aSortedExts : List SortExtSlot} {aBeginIndex : Nat}
    (hne : aSortedExts.drop aBeginIndex ≠ [])
    (hcaller : CallerOk g held (freedSlots aSortedExts aBeginIndex)) :
    ∃ f', f.freeExtsInLG g.nBits aSortedExts aBeginIndex =
        .ok (f', (freedSlots aSortedExts aBeginIndex).length) ∧
      FileOk g f' ∧ HeldOk g f'
        (held.diff ((freedSlots aSortedExts aBeginIndex).map SortExtSlot.mExtFstPID)) := by
  unfold File.freeExtsInLG
  unfold freedSlots at hcaller ⊢
  cases hdrop : aSortedExts.drop aBeginIndex with
  | nil => exact absurd hdrop hne
  | cons e es =>
      simp only [hdrop] at hcaller ⊢
      -- the first slot belongs to its own batch, so its group is one of the file
      have hfst : e ∈ batch (sdMakeFID e.mExtFstPID) e.mLocalGroupID (e :: es) := by
        unfold batch
        rw [List.takeWhile_cons_of_pos (by simp)]
        exact List.mem_cons_self
      obtain ⟨hmem, hlg⟩ := hcaller.2 e hfst
      obtain ⟨l', hl', j, hj, hpid, -⟩ := (hh.mem_iff _).mp hmem
      have hlt : e.mLocalGroupID < lgCntMax := by
        have hcnt := g.lgCnt_le
        rw [hlg, hpid, g.getLGIDByPID_extPID hl' hj]
        omega
      obtain ⟨f', hloop, hf', hh'⟩ := freeLoop_spec (e :: es) hf hh rfl hcaller
      have hhdr : lgHdrPIDFromLGID g.nBits g.mID e.mLocalGroupID
          f.ggHdr.mAllocLGIdx.dealloc.toNat g.mPagesPerExt =
          g.hdrPID e.mLocalGroupID f.ggHdr.mAllocLGIdx.dealloc := rfl
      rw [if_pos hlt, hf.pagesPerExt, hf.ggid, hhdr, hloop]
      exact ⟨f'.trySwitch, rfl, hf'.trySwitch, hh'.congr (File.trySwitch_page _)⟩

end Altibase.Sdp
