/-
  Altibase.Sdpst.Link
  ───────────────────
  **ENTERING THE NEW PAGES INTO THE TREE.**

  After `createMetaPages` the new pages already name their parents, but those whose
  parent existed before have no slot there.  `linkNewExtToLstBMPs` adds the slots.
  The free-space tree is right up to the pages that wait, and in the end no page
  waits.

  Main results:
    * `OkBut.addChildren` — slots for waiting pages are added to their parent;
    * `Created.okBut` — the tree after `createMetaPages`;
    * `linkNewExtToLstBMPs_spec` — the tree when all pages have their slots.
-/
import Altibase.Sdpst.Create
import Altibase.Sdpst.Tree

namespace Altibase.Sdpst

open Altibase.Lib

/-! ## §1. Adding slots for pages that wait. -/

section Waiting

variable {pd pd' : Pending} {seg : Seg} {t : BMPType} {q p : Nat} {b b' : BMPPage}

/-- More may be said to be open than is. -/
theorem Seg.OkBut.mono (hok : seg.OkBut pd) (hstale : pd'.stale = pd.stale)
    (hun : ∀ t p, pd.unlinked t p → pd'.unlinked t p) (hbl : ∀ q, pd.blank q → pd'.blank q) :
    seg.OkBut pd' := by
  refine ⟨hok.leaf, hok.node, fun q b hb hq => hok.top q b hb (fun h => hq (hbl q h)), ?_, hok.child⟩
  intro t ht p h hh hlink
  have hlvl : pd'.level t p h.mMFNL = pd.level t p h.mMFNL := by
    unfold Pending.level
    rw [hstale]
  rw [hlvl]
  exact hok.linked t ht p h hh (fun hu => hlink (hun t p hu))

/-- What waits after slots for the pages from `aFst` to `aFst + n - 1` were added to `q`. -/
def Pending.afterAdd (pd : Pending) (t : BMPType) (q aFst n : Nat) (m0 : MFNL) : Pending where
  stale := some (t.parent, q, m0)
  unlinked t' p := pd.unlinked t' p ∧ ¬ (t' = t ∧ aFst ≤ p ∧ p < aFst + n)
  blank q' := pd.blank q' ∧ q' ≠ q

/-- **Slots for waiting pages are added to their parent.**  The slots come where the
    pages say they are, and the level of the parent becomes stale above. -/
theorem Seg.OkBut.addChildren {aFst n aFull : Nat} (hok : seg.OkBut pd) (hnone : pd.stale = none)
    (ht : t = .LFBMP ∨ t = .ITBMP) (hb : seg.bmp q = some b) (htype : b.mHdr.mType = t.parent)
    (hpos : 0 < n) (hadd : SlotsAdded b b' aFst n aFull)
    (hnew : ∀ i < n, ∃ h, seg.hdr t (aFst + i) = some h ∧
      h.mParentInfo = ⟨q, b.mHdr.mSlotCnt + i⟩ ∧ h.mMFNL = if i < aFull then .FUL else .FMT) :
    (seg.setBMP q b').OkBut (pd.afterAdd t q aFst n b.mHdr.mMFNL) := by
  have hne : t ≠ t.parent := by
    rcases ht with rfl | rfl <;> decide
  have hchild : t.parent.child = t := by
    rcases ht with rfl | rfl <;> rfl
  have hty := (hok.node q b hb).1
  have hnlf : b.mHdr.mType ≠ .LFBMP := by
    rcases hty with h' | h' <;> rw [h'] <;> decide
  have hown : ∀ t' p' m, pd.level t' p' m = m := by
    intro t' p' m
    unfold Pending.level
    rw [hnone]
  have hlevel : ∀ t' p' m, ¬ (p' = q ∧ t' = b.mHdr.mType) →
      (pd.afterAdd t q aFst n b.mHdr.mMFNL).level t' p' m = m := by
    intro t' p' m hself
    show (if t' = t.parent ∧ p' = q then _ else m) = m
    rw [if_neg (fun he => hself ⟨he.2, he.1.trans htype.symm⟩)]
  constructor
  · exact hok.leaf
  · -- the counts of the internal and root pages
    intro q' c hc
    by_cases hq : q' = q
    · subst hq
      rw [setBMP_bmp_self] at hc
      obtain rfl := Option.some.inj hc
      rw [hadd.type]
      exact ⟨hty, hadd.counted⟩
    · rw [setBMP_bmp_of_ne hq] at hc
      exact hok.node q' c hc
  · -- their levels
    intro q' c hc hblank
    by_cases hq : q' = q
    · subst hq
      rw [setBMP_bmp_self] at hc
      obtain rfl := Option.some.inj hc
      exact ⟨by rw [hadd.slotCnt]; omega, hadd.top⟩
    · rw [setBMP_bmp_of_ne hq] at hc
      exact hok.top q' c hc (fun h => hblank ⟨h, hq⟩)
  · -- a page is in the slot that it names
    intro t' ht' p' h' hh' hlink'
    rw [hdr_setBMP hb hnlf hadd.type] at hh'
    by_cases hself : p' = q ∧ t' = b.mHdr.mType
    · -- the parent itself: the page above it still has the level from before
      rw [if_pos hself] at hh'
      obtain ⟨rfl, htt⟩ := hself
      obtain rfl := Option.some.inj hh'
      have hold : seg.hdr t' p' = some b.mHdr := by
        rw [htt]
        exact hdr_of_bmp hb hnlf
      have hun : ¬ pd.unlinked t' p' := by
        intro hu
        exact hlink' ⟨hu, fun h => hne (h.1.symm.trans (htt.trans htype))⟩
      obtain ⟨c, hc, hctype, hcs, hcslot⟩ := hok.linked t' ht' p' b.mHdr hold hun
      have hcq : b.mHdr.mParentInfo.mParentPID ≠ p' := by
        intro he
        rw [he, hb] at hc
        obtain rfl := Option.some.inj hc
        have hcyc : t' = t'.parent := htt.trans hctype
        rcases ht' with rfl | rfl <;> cases hcyc
      refine ⟨c, ?_, hctype, ?_, ?_⟩
      · rw [hadd.parent, setBMP_bmp_of_ne hcq]
        exact hc
      · rw [hadd.parent]
        exact hcs
      · rw [hadd.parent, hcslot, hown]
        show _ = (⟨p', if t' = t.parent ∧ p' = p' then b.mHdr.mMFNL else _⟩ : BMPSlot)
        rw [if_pos ⟨htt.trans htype, rfl⟩]
    · rw [if_neg hself] at hh'
      rw [hlevel t' p' h'.mMFNL hself]
      by_cases hw : t' = t ∧ aFst ≤ p' ∧ p' < aFst + n
      · -- a page that got its slot now
        obtain ⟨rfl, hlo, hhi⟩ := hw
        obtain ⟨k, hk, hkp, hkm⟩ := hnew (p' - aFst) (by omega)
        rw [show aFst + (p' - aFst) = p' by omega] at hk
        obtain rfl := Option.some.inj (hk.symm.trans hh')
        have hslot := hadd.new (p' - aFst) (by omega)
        refine ⟨b', ?_, hadd.type.trans htype, ?_, ?_⟩
        · rw [hkp]
          exact setBMP_bmp_self
        · rw [hkp, hadd.slotCnt]
          show b.mHdr.mSlotCnt + (p' - aFst) < _
          omega
        · rw [hkp, hkm]
          show b'.mMap (b.mHdr.mSlotCnt + (p' - aFst)) = _
          rw [hslot, show aFst + (p' - aFst) = p' by omega]
      · obtain ⟨c, hc, hctype, hcs, hcslot⟩ :=
          hok.linked t' ht' p' h' hh' (fun hu => hlink' ⟨hu, hw⟩)
        rw [hown] at hcslot
        by_cases hq : h'.mParentInfo.mParentPID = q
        · rw [hq, hb] at hc
          obtain rfl := Option.some.inj hc
          refine ⟨b', by rw [hq, setBMP_bmp_self], by rw [hadd.type]; exact hctype,
            by rw [hadd.slotCnt]; omega, ?_⟩
          rw [hadd.old _ hcs]
          exact hcslot
        · exact ⟨c, by rw [setBMP_bmp_of_ne hq]; exact hc, hctype, hcs, hcslot⟩
  · -- a slot names a page, and the page names the slot
    intro q' c hc i hi
    by_cases hq : q' = q
    · subst hq
      rw [setBMP_bmp_self] at hc
      obtain rfl := Option.some.inj hc
      rw [hadd.slotCnt] at hi
      have hcn : b.mHdr.mType.child ≠ b.mHdr.mType := by
        rcases hty with h' | h' <;> rw [h'] <;> decide
      rw [hadd.type, hdr_setBMP hb hnlf hadd.type, if_neg (fun h => hcn h.2)]
      by_cases hold : i < b.mHdr.mSlotCnt
      · rw [hadd.old i hold]
        exact hok.child q' b hb i hold
      · obtain ⟨k, hk, hkp, -⟩ := hnew (i - b.mHdr.mSlotCnt) (by omega)
        have hslot := hadd.new (i - b.mHdr.mSlotCnt) (by omega)
        rw [show b.mHdr.mSlotCnt + (i - b.mHdr.mSlotCnt) = i by omega] at hslot hkp
        rw [hslot, htype, hchild]
        exact ⟨k, hk, hkp⟩
    · rw [setBMP_bmp_of_ne hq] at hc
      obtain ⟨k, hk, hkp⟩ := hok.child q' c hc i hi
      rw [hdr_setBMP hb hnlf hadd.type]
      split
      · rename_i hself
        rw [hself.1, hself.2, hdr_of_bmp hb hnlf] at hk
        obtain rfl := Option.some.inj hk
        exact ⟨b'.mHdr, rfl, by rw [hadd.parent]; exact hkp⟩
      · exact ⟨k, hk, hkp⟩

end Waiting

/-! ## §2. The tree after `createMetaPages`. -/

/-- The new pages of the type `t` whose slots are in a page that existed before. -/
def WaitsForSlot (e : ExtDesc) (bfr : BfrAllocExtInfo) (aft : AftAllocExtInfo) (t : BMPType)
    (p : Nat) : Prop :=
  ∃ i, i < aft.mPageCnt t ∧ i < bfr.mFreeSlotCnt t.parent ∧ p = basePID e aft t + i

/-- What `createMetaPages` leaves open. -/
def Pending.created (aSegPID : Nat) (e : ExtDesc) (bfr : BfrAllocExtInfo)
    (aft : AftAllocExtInfo) : Pending where
  stale := none
  unlinked t p := (t = .LFBMP ∨ t = .ITBMP) ∧ WaitsForSlot e bfr aft t p
  blank q := aSegPID = 0 ∧ q = hdrPID e aft

/-- No page of the extent is a bitmap page of the segment. -/
def NoBitmapPage (seg : Seg) (e : ExtDesc) : Prop :=
  ∀ p, e.mExtFstPID ≤ p → p < e.mExtFstPID + e.mLength → seg.lfBMP p = none ∧ seg.bmp p = none

section AfterCreate

variable {aSegPID : Nat} {seg seg1 : Seg} {e : ExtDesc} {bfr : BfrAllocExtInfo}
  {aft : AftAllocExtInfo} {t : BMPType} {p : Nat}

/-- The meta pages lie in the extent, one kind behind the other. -/
theorem PlanOk.places (hp : PlanOk aSegPID e bfr aft) :
    e.mExtFstPID ≤ basePID e aft .LFBMP ∧
      basePID e aft .LFBMP + aft.mPageCnt .LFBMP = basePID e aft .ITBMP ∧
      basePID e aft .ITBMP + aft.mPageCnt .ITBMP = basePID e aft .RTBMP ∧
      basePID e aft .RTBMP + aft.mPageCnt .RTBMP = hdrPID e aft ∧
      hdrPID e aft + aft.mSegHdrCnt = e.mExtFstPID + aft.metaCnt ∧
      hdrPID e aft + aft.mSegHdrCnt < e.mExtFstPID + e.mLength := by
  have hlt := hp.metaCnt_lt
  have hhdr : hdrPID e aft = e.mExtFstPID + aft.mPageCnt .EXTDIR + aft.mPageCnt .LFBMP +
    aft.mPageCnt .ITBMP + aft.mPageCnt .RTBMP := rfl
  have hlf : basePID e aft .LFBMP = e.mExtFstPID + aft.mPageCnt .EXTDIR := rfl
  unfold AftAllocExtInfo.metaCnt at hlt ⊢
  exact ⟨by omega, rfl, rfl, rfl, by omega, by omega⟩

theorem PlanOk.segHdr_pos (hp : PlanOk aSegPID e bfr aft) (h0 : aSegPID = 0) :
    aft.mSegHdrCnt = 1 := by
  rw [hp.segHdrCnt, if_pos h0]

/-- A leaf page is old or new. -/
theorem Created.lfCases (hc : Created aSegPID seg e bfr aft seg1) {l : LfBMPPage}
    (hl : seg1.lfBMP p = some l) :
    seg.lfBMP p = some l ∨
      ∃ i < aft.mPageCnt .LFBMP, p = basePID e aft .LFBMP + i ∧ LeafAt e bfr aft i l := by
  by_cases hin : basePID e aft .LFBMP ≤ p ∧ p < basePID e aft .ITBMP
  · have hend : basePID e aft .LFBMP + aft.mPageCnt .LFBMP = basePID e aft .ITBMP := rfl
    obtain ⟨l', hl', hat⟩ := hc.lfNew (p - basePID e aft .LFBMP) (by omega)
    rw [show basePID e aft .LFBMP + (p - basePID e aft .LFBMP) = p by omega, hl] at hl'
    obtain rfl := Option.some.inj hl'
    exact Or.inr ⟨p - basePID e aft .LFBMP, by omega, by omega, hat⟩
  · rw [hc.lfOld p hin] at hl
    exact Or.inl hl

/-- An internal or root page is old or new, or the blank one of a new segment header. -/
theorem Created.bmpCases (hc : Created aSegPID seg e bfr aft seg1) {b : BMPPage}
    (hb : seg1.bmp p = some b) :
    seg.bmp p = some b ∨
      (∃ t, (t = .ITBMP ∨ t = .RTBMP) ∧
        ∃ j < aft.mPageCnt t, p = basePID e aft t + j ∧ NodeAt e bfr aft t j b) ∨
      (aSegPID = 0 ∧ p = hdrPID e aft ∧ BlankRt bfr b) := by
  have hit : basePID e aft .ITBMP + aft.mPageCnt .ITBMP = basePID e aft .RTBMP := rfl
  have hrt : basePID e aft .RTBMP + aft.mPageCnt .RTBMP = hdrPID e aft := rfl
  by_cases hhdr : p = hdrPID e aft ∧ aSegPID = 0
  · obtain ⟨-, -, -, -, -, b', hb', hblank⟩ := hc.newSeg hhdr.2
    rw [← hhdr.1, hb] at hb'
    obtain rfl := Option.some.inj hb'
    exact Or.inr (Or.inr ⟨hhdr.2, hhdr.1, hblank⟩)
  · by_cases hin : basePID e aft .ITBMP ≤ p ∧ p < hdrPID e aft
    · by_cases hlow : p < basePID e aft .RTBMP
      · obtain ⟨b', hb', hat⟩ := hc.itNew (p - basePID e aft .ITBMP) (by omega)
        rw [show basePID e aft .ITBMP + (p - basePID e aft .ITBMP) = p by omega, hb] at hb'
        obtain rfl := Option.some.inj hb'
        exact Or.inr (Or.inl ⟨.ITBMP, Or.inl rfl, _, by omega, by omega, hat⟩)
      · obtain ⟨b', hb', hat⟩ := hc.rtNew (p - basePID e aft .RTBMP) (by omega)
        rw [show basePID e aft .RTBMP + (p - basePID e aft .RTBMP) = p by omega, hb] at hb'
        obtain rfl := Option.some.inj hb'
        exact Or.inr (Or.inl ⟨.RTBMP, Or.inr rfl, _, by omega, by omega, hat⟩)
    · rw [hc.bmpOld p hin hhdr] at hb
      exact Or.inl hb

/-- A new internal or root page. -/
theorem Created.nodeNew (hc : Created aSegPID seg e bfr aft seg1) (ht : t = .ITBMP ∨ t = .RTBMP)
    {j : Nat} (hj : j < aft.mPageCnt t) :
    ∃ b, seg1.bmp (basePID e aft t + j) = some b ∧ NodeAt e bfr aft t j b := by
  rcases ht with rfl | rfl
  · exact hc.itNew j hj
  · exact hc.rtNew j hj

/-- A new leaf or internal page knows its parent, and its level is known. -/
theorem Created.hdrNew (hc : Created aSegPID seg e bfr aft seg1) (ht : t = .LFBMP ∨ t = .ITBMP)
    {i : Nat} (hi : i < aft.mPageCnt t) :
    ∃ h, seg1.hdr t (basePID e aft t + i) = some h ∧ h.mParentInfo = newParent e bfr aft t i ∧
      h.mMFNL = if i < fullCnt aft t then .FUL else .FMT := by
  rcases ht with rfl | rfl
  · obtain ⟨l, hl, hat⟩ := hc.lfNew i hi
    refine ⟨l.mBMPHdr, ?_, hat.parent, hat.level⟩
    rw [hdr_leaf, hl]
    rfl
  · obtain ⟨b, hb, hat⟩ := hc.itNew i hi
    refine ⟨b.mHdr, ?_, hat.parent rfl, ?_⟩
    · have hh := hdr_of_bmp hb (by rw [hat.type]; decide)
      rwa [hat.type] at hh
    · rw [hat.level]
      exact (if_neg (Nat.not_lt_zero i)).symm

/-- A leaf or internal page is old, or the new page of some number. -/
theorem Created.hdrCases (hc : Created aSegPID seg e bfr aft seg1) (ht : t = .LFBMP ∨ t = .ITBMP)
    {h : BMPHdr} (hh : seg1.hdr t p = some h) :
    seg.hdr t p = some h ∨ ∃ i < aft.mPageCnt t, p = basePID e aft t + i := by
  rcases ht with rfl | rfl
  · rw [hdr_leaf] at hh
    obtain ⟨l, hl, hlh⟩ := Option.map_eq_some_iff.mp hh
    rcases hc.lfCases hl with hold | ⟨i, hi, hpi, -⟩
    · refine Or.inl ?_
      rw [hdr_leaf, hold, Option.map_some, hlh]
    · exact Or.inr ⟨i, hi, hpi⟩
  · obtain ⟨b, hb, hbh, hbt⟩ := bmp_of_hdr (by decide) hh
    rcases hc.bmpCases hb with hold | ⟨t, -, j, hj, hpj, hat⟩ | ⟨-, -, hblank⟩
    · refine Or.inl ?_
      have h1 := hdr_of_bmp hold (by rw [hbt]; decide)
      rwa [hbt, hbh] at h1
    · have htt : t = .ITBMP := hat.type.symm.trans hbt
      subst htt
      exact Or.inr ⟨j, hj, hpj⟩
    · rw [hblank.type] at hbt
      cases hbt

section Fresh

variable (hp : PlanOk aSegPID e bfr aft) (hfresh : NoBitmapPage seg e)
  (hc : Created aSegPID seg e bfr aft seg1)

include hp hfresh hc

theorem Created.bmpKept {b : BMPPage} (hb : seg.bmp p = some b) : seg1.bmp p = some b := by
  obtain ⟨h1, h2, h3, h4, h5, h6⟩ := hp.places
  have hout : ¬ (e.mExtFstPID ≤ p ∧ p < e.mExtFstPID + e.mLength) := by
    rintro ⟨hlo, hhi⟩
    rw [(hfresh p hlo hhi).2] at hb
    cases hb
  rw [hc.bmpOld p (by omega), hb]
  rintro ⟨rfl, h0⟩
  have hpos := hp.segHdr_pos h0
  omega

theorem Created.lfKept {l : LfBMPPage} (hl : seg.lfBMP p = some l) : seg1.lfBMP p = some l := by
  obtain ⟨h1, h2, h3, h4, h5, h6⟩ := hp.places
  have hout : ¬ (e.mExtFstPID ≤ p ∧ p < e.mExtFstPID + e.mLength) := by
    rintro ⟨hlo, hhi⟩
    rw [(hfresh p hlo hhi).1] at hl
    cases hl
  rw [hc.lfOld p (by omega), hl]

theorem Created.hdrKept {h : BMPHdr} (hh : seg.hdr t p = some h) : seg1.hdr t p = some h := by
  by_cases ht : t = .LFBMP
  · subst ht
    rw [hdr_leaf] at hh ⊢
    obtain ⟨l, hl, hlh⟩ := Option.map_eq_some_iff.mp hh
    rw [hc.lfKept hp hfresh hl, Option.map_some, hlh]
  · obtain ⟨b, hb, hbh, hbt⟩ := bmp_of_hdr ht hh
    have h1 := hdr_of_bmp (hc.bmpKept hp hfresh hb) (by rw [hbt]; exact ht)
    rwa [hbt, hbh] at h1

/-- **The tree after `createMetaPages`**: right up to the pages that wait for a slot. -/
theorem Created.okBut (hb : BfrOk aSegPID bfr) (hok : seg.Ok) :
    seg1.OkBut (Pending.created aSegPID e bfr aft) := by
  have hmax : ∀ t, t = .ITBMP ∨ t = .RTBMP → 0 < bfr.mMaxSlotCnt t := by
    rintro t (rfl | rfl)
    · exact hb.maxIt
    · exact hb.maxRt
  constructor
  · -- the leaf pages
    intro p l hl
    rcases hc.lfCases hl with hold | ⟨i, -, -, hat⟩
    · exact hok.leaf p l hold
    · exact ⟨hat.ok, by rw [hat.slotCnt]; omega, hat.top⟩
  · -- the counts of the internal and root pages
    intro q b hbmp
    rcases hc.bmpCases hbmp with hold | ⟨t, ht, j, -, -, hat⟩ | ⟨-, -, hblank⟩
    · exact hok.node q b hold
    · rw [hat.type]
      exact ⟨ht.symm, hat.counted⟩
    · exact ⟨Or.inl hblank.type, hblank.counted⟩
  · -- their levels
    intro q b hbmp hnb
    rcases hc.bmpCases hbmp with hold | ⟨t, ht, j, hj, -, hat⟩ | ⟨h0, hq, -⟩
    · exact hok.top q b hold (fun h => h)
    · rw [hp.nodeCnt ht] at hj
      exact ⟨by rw [hat.slotCnt]; exact chunkLen_pos (hmax t ht) hj, hat.top⟩
    · exact absurd ⟨h0, hq⟩ hnb
  · -- a page is in the slot that it names
    intro t ht p h hh hlink
    rcases hc.hdrCases ht hh with hold | ⟨i, hi, rfl⟩
    · obtain ⟨b, hbmp, hrest⟩ := hok.linked t ht p h hold (fun hf => hf)
      exact ⟨b, hc.bmpKept hp hfresh hbmp, hrest⟩
    · -- a new page that does not wait has a new parent
      have hge : bfr.mFreeSlotCnt t.parent ≤ i := by
        by_contra hlt
        exact hlink ⟨ht, i, hi, by omega, rfl⟩
      have htp : t.parent = .ITBMP ∨ t.parent = .RTBMP := by
        rcases ht with rfl | rfl
        · exact Or.inl rfl
        · exact Or.inr rfl
      have hchild : t.parent.child = t := by
        rcases ht with rfl | rfl <;> rfl
      obtain ⟨k, hk, hkp, hkm⟩ := hc.hdrNew ht hi
      obtain rfl := Option.some.inj (hk.symm.trans hh)
      let x := i - bfr.mFreeSlotCnt t.parent
      let c := bfr.mMaxSlotCnt t.parent
      have hx : x < aft.mPageCnt t - bfr.mFreeSlotCnt t.parent := by
        show i - _ < _
        omega
      have hj : x / c < aft.mPageCnt t.parent := by
        rw [hp.nodeCnt htp, hchild]
        exact div_lt_chunks (hmax _ htp) hx
      obtain ⟨b, hbmp, hat⟩ := hc.nodeNew htp hj
      have hs : x % c < b.mHdr.mSlotCnt := by
        rw [hat.slotCnt, hchild]
        exact mod_lt_chunkLen (hmax _ htp) hx
      have hpar : k.mParentInfo = ⟨basePID e aft t.parent + x / c, x % c⟩ := by
        rw [hkp]
        exact if_neg (by omega)
      have hi' : bfr.mFreeSlotCnt t.parent + (c * (x / c) + x % c) = i := by
        rw [Nat.div_add_mod]
        show _ + (i - _) = i
        omega
      refine ⟨b, by rw [hpar]; exact hbmp, hat.type, by rw [hpar]; exact hs, ?_⟩
      rw [hpar]
      show b.mMap (x % c) = _
      rw [hat.slot _ hs, hchild, hi', hkm]
      rfl
  · -- a slot names a page, and the page names the slot
    intro q b hbmp s hs
    rcases hc.bmpCases hbmp with hold | ⟨t, ht, j, hj, rfl, hat⟩ | ⟨-, -, hblank⟩
    · obtain ⟨h, hh, hhp⟩ := hok.child q b hold s hs
      exact ⟨h, hc.hdrKept hp hfresh hh, hhp⟩
    · -- the child is a new page, behind those that wait
      have hct : t.child = .LFBMP ∨ t.child = .ITBMP := by
        rcases ht with rfl | rfl
        · exact Or.inl rfl
        · exact Or.inr rfl
      have hpar : t.child.parent = t := by
        rcases ht with rfl | rfl <;> rfl
      have hsc := hs
      rw [hat.slotCnt] at hsc
      have hidx := index_lt hsc
      have hslot := hat.slot s hs
      obtain ⟨h, hh, hhp, -⟩ := hc.hdrNew hct
        (show bfr.mFreeSlotCnt t + (bfr.mMaxSlotCnt t * j + s) < aft.mPageCnt t.child by omega)
      rw [hslot, hat.type]
      refine ⟨h, hh, ?_⟩
      rw [hhp]
      unfold newParent
      rw [hpar, if_neg (by omega), Nat.add_sub_cancel_left,
        div_index (Nat.lt_of_lt_of_le hsc chunkLen_le), mod_index (Nat.lt_of_lt_of_le hsc chunkLen_le)]
    · rw [hblank.slotCnt] at hs
      exact absurd hs (Nat.not_lt_zero s)

end Fresh

end AfterCreate

/-! ## §3. Pages that only gain slots. -/

/-- A bitmap page that has gained slots at the end.  Levels may have changed. -/
structure BMPPage.GrownTo (b b' : BMPPage) : Prop where
  type : b'.mHdr.mType = b.mHdr.mType
  parent : b'.mHdr.mParentInfo = b.mHdr.mParentInfo
  max : b'.mHdr.mMaxSlotCnt = b.mHdr.mMaxSlotCnt
  slotCnt : b.mHdr.mSlotCnt ≤ b'.mHdr.mSlotCnt
  slot : ∀ s < b.mHdr.mSlotCnt, (b'.mMap s).mBMP = (b.mMap s).mBMP

theorem BMPPage.GrownTo.refl (b : BMPPage) : b.GrownTo b :=
  ⟨rfl, rfl, rfl, le_rfl, fun _ _ => rfl⟩

theorem BMPPage.GrownTo.trans {b b' b'' : BMPPage} (h : b.GrownTo b') (h' : b'.GrownTo b'') :
    b.GrownTo b'' :=
  ⟨h'.type.trans h.type, h'.parent.trans h.parent, h'.max.trans h.max,
    Nat.le_trans h.slotCnt h'.slotCnt, fun s hs =>
      (h'.slot s (Nat.lt_of_lt_of_le hs h.slotCnt)).trans (h.slot s hs)⟩

/-- Only root and internal pages differ, and they have only gained slots. -/
structure Seg.Grown (seg seg' : Seg) : Prop where
  frame : { seg' with bmp := seg.bmp } = seg
  page : ∀ q b, seg.bmp q = some b → ∃ b', seg'.bmp q = some b' ∧ b.GrownTo b'
  noPage : ∀ q, seg.bmp q = none → seg'.bmp q = none

theorem Seg.Grown.refl (seg : Seg) : seg.Grown seg :=
  ⟨rfl, fun _ b hb => ⟨b, hb, .refl b⟩, fun _ h => h⟩

theorem Seg.Grown.trans {seg seg' seg'' : Seg} (h : seg.Grown seg') (h' : seg'.Grown seg'') :
    seg.Grown seg'' := by
  refine ⟨?_, ?_, fun q hq => h'.noPage q (h.noPage q hq)⟩
  · have hf := h.frame
    rw [← h'.frame] at hf
    exact hf
  · intro q b hb
    obtain ⟨b', hb', hg⟩ := h.page q b hb
    obtain ⟨b'', hb'', hg'⟩ := h'.page q b' hb'
    exact ⟨b'', hb'', hg.trans hg'⟩

/-- A change of levels. -/
theorem SameShape.grown {seg seg' : Seg} (h : SameShape seg seg') : seg.Grown seg' := by
  refine ⟨h.frame, ?_, ?_⟩
  · intro q b hb
    have hs := h.shape q
    rw [hb, Option.map_some] at hs
    obtain ⟨b', hb', hshape⟩ := Option.map_eq_some_iff.mp hs
    have hcnt : b'.mHdr.mSlotCnt = b.mHdr.mSlotCnt := congrArg Shape.mSlotCnt hshape
    exact ⟨b', hb', congrArg Shape.mType hshape, congrArg Shape.mParentInfo hshape,
      congrArg Shape.mMaxSlotCnt hshape, by omega,
      fun s _ => congrFun (congrArg Shape.mBMP hshape) s⟩
  · intro q hq
    have hs := h.shape q
    rw [hq] at hs
    exact Option.map_eq_none_iff.mp hs

/-- Slots were added to one page. -/
theorem SlotsAdded.grown {seg : Seg} {q aFst n aFull : Nat} {b b' : BMPPage}
    (hadd : SlotsAdded b b' aFst n aFull) (hb : seg.bmp q = some b) :
    seg.Grown (seg.setBMP q b') := by
  refine ⟨rfl, ?_, ?_⟩
  · intro p c hc
    by_cases hp : p = q
    · subst hp
      obtain rfl := Option.some.inj (hb.symm.trans hc)
      exact ⟨b', setBMP_bmp_self, hadd.type, hadd.parent, hadd.max, by rw [hadd.slotCnt]; omega,
        fun s hs => by rw [hadd.old s hs]⟩
    · exact ⟨c, by rw [setBMP_bmp_of_ne hp]; exact hc, .refl c⟩
  · intro p hnone
    rw [setBMP_bmp_of_ne (fun h => by rw [h, hb] at hnone; cases hnone)]
    exact hnone

/-! ## §4. The slots in the last pages. -/

/-- The slots of a page are all full. -/
def AllFull (b : BMPPage) : Prop := ∀ a, a ≠ .FUL → b.mHdr.mMFNLTbl a = 0

theorem allFull_iff {b : BMPPage} (htop : TopLevel b.mHdr.mMFNLTbl b.mHdr.mMFNL) :
    AllFull b ↔ b.mHdr.mMFNL = .FUL := by
  constructor
  · intro hall
    by_contra hne
    rcases htop.pos_or_bot with hpos | ⟨hbot, -⟩
    · have hzero := hall _ hne
      omega
    · exact hne hbot
  · intro hful a ha
    by_contra hpos
    have hle := htop.le a (Nat.pos_of_ne_zero hpos)
    rw [hful] at hle
    exact ha (le_antisymm hle bot_le)

/-- When full pages only were added, some slot was not full before. -/
theorem SlotsAdded.not_allFull {b b' : BMPPage} {aFst n : Nat} (hadd : SlotsAdded b b' aFst n n)
    (hc : Counted b.mHdr b.slotLevel b.mHdr.mSlotCnt) (hpos : 0 < n) : ¬ AllFull b := by
  intro hall
  obtain ⟨i, hi, hlvl⟩ := hadd.top.exists_top hadd.counted.counts (by rw [hadd.slotCnt]; omega)
  have hnot := hadd.notFull
  rw [hadd.slotCnt] at hi
  by_cases hold : i < b.mHdr.mSlotCnt
  · have hcnt := hc.counts.pos hold
    have hsame : b'.slotLevel i = b.slotLevel i := by
      unfold BMPPage.slotLevel
      rw [hadd.old i hold]
    rw [← hlvl, hsame] at hnot
    have hzero := hall _ hnot
    omega
  · have hslot := hadd.new (i - b.mHdr.mSlotCnt) (by omega)
    rw [show b.mHdr.mSlotCnt + (i - b.mHdr.mSlotCnt) = i by omega, if_pos (by omega)] at hslot
    rw [← hlvl] at hnot
    unfold BMPPage.slotLevel at hnot
    rw [hslot] at hnot
    exact hnot rfl

section Link

variable {pd : Pending} {aSegPID : Nat} {seg seg1 : Seg} {e : ExtDesc} {bfr : BfrAllocExtInfo}
  {aft aft' : AftAllocExtInfo} {t : BMPType} {b : BMPPage}

/-- `linkSlots` with the page it finds and the bounded counts. -/
theorem linkSlots_eq {b : BMPPage} {sFst n f : Nat} (hb : seg1.bmp (bfr.mLstPID t.parent) = some b)
    (hn : (if aft'.mPageCnt t ≥ bfr.mFreeSlotCnt t.parent then bfr.mFreeSlotCnt t.parent
      else aft'.mPageCnt t) = n)
    (hf : (if aft'.mFullBMPCnt t ≤ bfr.mFreeSlotCnt t.parent then aft'.mFullBMPCnt t
      else bfr.mFreeSlotCnt t.parent) = f)
    (hlog : logAndAddSlots b sFst (sFst + n - 1) f =
      addSlots b b.mHdr.mSlotCnt sFst (sFst + n - 1) f) :
    linkSlots seg1 t sFst bfr aft' =
      match addSlots b b.mHdr.mSlotCnt sFst (sFst + n - 1) f with
      | .error err => .error err
      | .ok (b', need) => .ok (seg1.setBMP (bfr.mLstPID t.parent) b', need, b'.mHdr.mMFNL,
          b.mHdr.mParentInfo) := by
  unfold linkSlots
  dsimp only
  rw [hn, hf, hb]
  dsimp only
  rw [hlog]
  rfl

/-- **`linkNewExtToLstBMPs` for one type of pages**: as many of the new pages as the last
    parent has slots left for.  It stops only when all slots of the parent get full. -/
theorem linkSlots_spec (hok : seg1.OkBut pd) (hnone : pd.stale = none)
    (ht : t = .LFBMP ∨ t = .ITBMP) (hb : seg1.bmp (bfr.mLstPID t.parent) = some b)
    (htype : b.mHdr.mType = t.parent) (hfree : b.mHdr.mFreeSlotCnt = bfr.mFreeSlotCnt t.parent)
    (hmax : b.mHdr.mMaxSlotCnt = bfr.mMaxSlotCnt t.parent) (hpos : 0 < bfr.mFreeSlotCnt t.parent)
    (hcnt : aft'.mPageCnt = aft.mPageCnt) (hful : aft'.mFullBMPCnt t = fullCnt aft t)
    (hlt : fullCnt aft t < aft.mPageCnt t)
    (hnew : ∀ i < aft.mPageCnt t, ∃ h, seg1.hdr t (basePID e aft t + i) = some h ∧
      h.mParentInfo = newParent e bfr aft t i ∧
      h.mMFNL = if i < fullCnt aft t then .FUL else .FMT) :
    (linkSlots seg1 t (basePID e aft t) bfr aft' = .error .allSlotsFull ∧
      bfr.mFreeSlotCnt t.parent ≤ fullCnt aft t ∧ AllFull b) ∨
    ∃ b', linkSlots seg1 t (basePID e aft t) bfr aft' =
        .ok (seg1.setBMP (bfr.mLstPID t.parent) b', decide (b.mHdr.mMFNL ≠ b'.mHdr.mMFNL),
          b'.mHdr.mMFNL, b.mHdr.mParentInfo) ∧
      b'.mHdr.mType = b.mHdr.mType ∧ b'.mHdr.mParentInfo = b.mHdr.mParentInfo ∧
      seg1.Grown (seg1.setBMP (bfr.mLstPID t.parent) b') ∧
      ¬ (bfr.mFreeSlotCnt t.parent ≤ fullCnt aft t ∧ AllFull b) ∧
      (seg1.setBMP (bfr.mLstPID t.parent) b').OkBut
        (pd.afterAdd t (bfr.mLstPID t.parent) (basePID e aft t)
          (min (aft.mPageCnt t) (bfr.mFreeSlotCnt t.parent)) b.mHdr.mMFNL) := by
  let free := bfr.mFreeSlotCnt t.parent
  let n := min (aft.mPageCnt t) free
  let f := min (fullCnt aft t) free
  have hcounted := (hok.node _ b hb).2
  have hslots := hcounted.slots
  -- as many slots as the page has free, the full pages first
  have hn : (if aft'.mPageCnt t ≥ free then free else aft'.mPageCnt t) = n := by
    rw [hcnt]
    show _ = min _ _
    split <;> omega
  have hf : (if aft'.mFullBMPCnt t ≤ free then aft'.mFullBMPCnt t else free) = f := by
    rw [hful]
    show _ = min _ _
    split <;> omega
  have hnpos : 0 < n := by
    show 0 < min _ _
    omega
  have hnle : n ≤ b.mHdr.mFreeSlotCnt := by
    rw [hfree]
    exact Nat.min_le_right _ _
  have hfn : f = n ↔ free ≤ fullCnt aft t := by
    show min _ _ = min _ _ ↔ _
    omega
  have hlog : logAndAddSlots b (basePID e aft t) (basePID e aft t + n - 1) f =
      addSlots b b.mHdr.mSlotCnt (basePID e aft t) (basePID e aft t + n - 1) f := by
    unfold logAndAddSlots
    exact if_neg (by omega)
  have hunf := linkSlots_eq hb hn hf hlog
  -- all slots may be full afterwards, which is the error
  rcases @addSlots_spec b hcounted (basePID e aft t) n f hnle hnpos
    (show min _ _ ≤ min _ _ by omega) with ⟨herr, hall, hzero⟩ | ⟨b', need, heq, hadd, hneed⟩
  · rw [hunf, herr]
    exact Or.inl ⟨rfl, hfn.mp hall, hzero⟩
  · rw [hunf, heq]
    refine Or.inr ⟨b', ?_, hadd.type, hadd.parent, hadd.grown hb, ?_, ?_⟩
    · dsimp only
      rw [hneed]
    · rintro ⟨hle, hall⟩
      rw [hfn.mpr hle] at hadd
      exact hadd.not_allFull hcounted hnpos hall
    · -- the pages behind the slots are children of the last page
      refine hok.addChildren hnone ht hb htype hnpos hadd ?_
      intro i hi
      have hi' : i < min (aft.mPageCnt t) free := hi
      obtain ⟨h, hh, hhp, hhm⟩ := hnew i (by omega)
      refine ⟨h, hh, ?_, ?_⟩
      · rw [hhp]
        unfold newParent
        rw [if_pos (by omega), ← hmax, ← hfree, ← hslots, Nat.add_sub_cancel]
      · rw [hhm]
        have hif : i < fullCnt aft t ↔ i < f := by
          show _ ↔ i < min _ _
          omega
        simp only [hif]

/-- The last page of the type `t`, as the information before the allocation has it. -/
def LstPage (seg : Seg) (bfr : BfrAllocExtInfo) (t : BMPType) : Prop :=
  ∃ b, seg.bmp (bfr.mLstPID t) = some b ∧ b.mHdr.mType = t ∧
    b.mHdr.mFreeSlotCnt = bfr.mFreeSlotCnt t ∧ b.mHdr.mMaxSlotCnt = bfr.mMaxSlotCnt t

/-- The last internal page is full, and so is every page that would get one of its slots. -/
def LstItStaysFull (seg : Seg) (bfr : BfrAllocExtInfo) (aft : AftAllocExtInfo) : Prop :=
  0 < bfr.mFreeSlotCnt .ITBMP ∧ bfr.mFreeSlotCnt .ITBMP ≤ fullLfCnt aft ∧
    ∃ b, seg.bmp (bfr.mLstPID .ITBMP) = some b ∧ b.mHdr.mMFNL = .FUL

/-- Only internal pages wait. -/
def Pending.itOnly (aSegPID : Nat) (e : ExtDesc) (bfr : BfrAllocExtInfo)
    (aft : AftAllocExtInfo) : Pending where
  stale := none
  unlinked t p := t = .ITBMP ∧ WaitsForSlot e bfr aft t p
  blank q := aSegPID = 0 ∧ q = hdrPID e aft

/-- The leaf pages get their slots in the last internal page. -/
theorem linkLeaves_spec (hp : PlanOk aSegPID e bfr aft)
    (hnew : aft.mPageCnt .LFBMP = chunks e.mLength aft.mPageRange) (hpos : 0 < aft.mPageCnt .LFBMP)
    (hfresh : NoBitmapPage seg e) (hc : Created aSegPID seg e bfr aft seg1) (hok : seg.Ok)
    (hok1 : seg1.OkBut (Pending.created aSegPID e bfr aft))
    (hit : 0 < bfr.mFreeSlotCnt .ITBMP → LstPage seg bfr .ITBMP)
    (hcnt : aft'.mPageCnt = aft.mPageCnt) (hful : aft'.mFullBMPCnt .LFBMP = fullLfCnt aft) :
    ((if bfr.mFreeSlotCnt .ITBMP > 0 then linkLeaves seg1 (basePID e aft .LFBMP) bfr aft'
        else .ok seg1) = .error .allSlotsFull ∧ LstItStaysFull seg bfr aft) ∨
    ∃ seg2, (if bfr.mFreeSlotCnt .ITBMP > 0 then linkLeaves seg1 (basePID e aft .LFBMP) bfr aft'
        else .ok seg1) = .ok seg2 ∧ ¬ LstItStaysFull seg bfr aft ∧ seg1.Grown seg2 ∧
      (∀ p b, seg1.bmp p = some b → b.mHdr.mType = .RTBMP →
        (seg2.bmp p).map BMPPage.shape = some b.shape) ∧
      (∀ i < aft.mPageCnt .ITBMP,
        seg2.hdr .ITBMP (basePID e aft .ITBMP + i) = seg1.hdr .ITBMP (basePID e aft .ITBMP + i)) ∧
      seg2.OkBut (Pending.itOnly aSegPID e bfr aft) := by
  by_cases hfree : bfr.mFreeSlotCnt .ITBMP > 0
  · rw [if_pos hfree]
    obtain ⟨b, hb, htype, hbf, hbm⟩ := hit hfree
    let q := bfr.mLstPID .ITBMP
    have hb1 : seg1.bmp q = some b := hc.bmpKept hp hfresh hb
    have hb0 : seg.bmp q = some b := hb
    have hstays : LstItStaysFull seg bfr aft ↔ bfr.mFreeSlotCnt .ITBMP ≤ fullLfCnt aft ∧ AllFull b := by
      rw [allFull_iff (hok.top q b hb0 (fun h => h)).2]
      constructor
      · rintro ⟨-, hle, c, hcb, hcf⟩
        obtain rfl := Option.some.inj (hb.symm.trans hcb)
        exact ⟨hle, hcf⟩
      · rintro ⟨hle, hbful⟩
        exact ⟨hfree, hle, b, hb, hbful⟩
    -- the last internal page is not a new one
    have hold : ∀ i < aft.mPageCnt .ITBMP, basePID e aft .ITBMP + i ≠ q := by
      intro i hi heq
      obtain ⟨h1, h2, h3, h4, h5, h6⟩ := hp.places
      rw [← heq, (hfresh _ (by omega) (by omega)).2] at hb0
      cases hb0
    rcases linkSlots_spec hok1 rfl (Or.inl rfl) hb1 htype hbf hbm hfree hcnt hful
      (hp.fullCnt_lt hnew hpos) (fun i hi => hc.hdrNew (Or.inl rfl) hi) with
      ⟨herr, hle, hall⟩ | ⟨b', heq, htype', hparent', hgrown, hnot, hok2⟩
    · refine Or.inl ⟨?_, hstays.mpr ⟨hle, hall⟩⟩
      unfold linkLeaves
      rw [herr]
    · have hit' : b'.mHdr.mType = .ITBMP := htype'.trans htype
      have hh : (seg1.setBMP q b').hdr .ITBMP q = some b'.mHdr := by
        have h := hdr_of_bmp (@setBMP_bmp_self seg1 b' q) (by rw [hit']; decide)
        rwa [hit'] at h
      let pd := (Pending.created aSegPID e bfr aft).afterAdd .LFBMP q (basePID e aft .LFBMP)
        (min (aft.mPageCnt .LFBMP) (bfr.mFreeSlotCnt .ITBMP)) b.mHdr.mMFNL
      have hlink : ¬ pd.unlinked .ITBMP q := by
        rintro ⟨⟨-, i, hi, -, hiq⟩, -⟩
        exact hold i hi hiq.symm
      obtain ⟨seg2, heq2, hshape, hkeep, hok3⟩ :=
        @Seg.OkBut.changeRtBMPPhase pd (seg1.setBMP q b') q b.mHdr.mMFNL b'.mHdr hok2 hh hlink
      refine Or.inr ⟨seg2, ?_, fun h => hnot (hstays.mp h), hgrown.trans hshape.grown, ?_, ?_, ?_⟩
      · unfold linkLeaves
        rw [heq]
        dsimp only
        rw [← hparent']
        exact heq2
      · intro p c hcb hct
        rw [hshape.shape p]
        have hpq : p ≠ q := by
          rintro rfl
          obtain rfl := Option.some.inj (hb1.symm.trans hcb)
          rw [htype] at hct
          cases hct
        show ((seg1.setBMP q b').bmp p).map BMPPage.shape = _
        rw [setBMP_bmp_of_ne hpq, hcb]
        rfl
      · intro i hi
        have hnlf : b.mHdr.mType ≠ .LFBMP := by
          rw [htype]
          decide
        rw [hkeep _ _ (by decide)]
        show (seg1.setBMP q b').hdr .ITBMP _ = _
        rw [hdr_setBMP hb1 hnlf htype', if_neg (fun h => hold i hi h.1)]
      · refine hok3.mono rfl ?_ (fun q' h => h.1)
        rintro t p ⟨⟨ht, hw⟩, hnin⟩
        rcases ht with rfl | rfl
        · obtain ⟨i, hi, hif, rfl⟩ := hw
          have hif' : i < bfr.mFreeSlotCnt .ITBMP := hif
          exact absurd ⟨rfl, Nat.le_add_right _ _, by omega⟩ hnin
        · exact ⟨rfl, hw⟩
  · rw [if_neg hfree]
    refine Or.inr ⟨seg1, rfl, fun h => hfree h.1, .refl seg1, ?_, fun _ _ => rfl,
      hok1.mono rfl ?_ (fun q' h => h)⟩
    · intro p b hb _
      rw [hb]
      rfl
    · rintro t p ⟨ht, hw⟩
      rcases ht with rfl | rfl
      · obtain ⟨i, -, hif, -⟩ := hw
        have hif' : i < bfr.mFreeSlotCnt .ITBMP := hif
        omega
      · exact ⟨rfl, hw⟩

/-- **`linkNewExtToLstBMPs`, with new leaf pages.**  Afterwards no page waits. -/
theorem linkNewExtToLstBMPs_spec (hbfr : BfrOk aSegPID bfr) (hp : PlanOk aSegPID e bfr aft)
    (hpos : 0 < aft.mPageCnt .LFBMP) (hfresh : NoBitmapPage seg e)
    (hc : Created aSegPID seg e bfr aft seg1) (hok : seg.Ok)
    (hit : 0 < bfr.mFreeSlotCnt .ITBMP → LstPage seg bfr .ITBMP)
    (hrt : 0 < bfr.mFreeSlotCnt .RTBMP → LstPage seg1 bfr .RTBMP)
    (hcnt : aft'.mPageCnt = aft.mPageCnt) (hful : aft'.mFullBMPCnt .LFBMP = fullLfCnt aft)
    (hful' : aft'.mFullBMPCnt .ITBMP = 0) {e' : ExtDesc} (he' : e'.mExtFstPID = e.mExtFstPID) :
    (linkNewExtToLstBMPs seg1 e' bfr aft' = .error .allSlotsFull ∧ LstItStaysFull seg bfr aft) ∨
    ∃ seg2, linkNewExtToLstBMPs seg1 e' bfr aft' = .ok (seg2, e') ∧ ¬ LstItStaysFull seg bfr aft ∧
      seg1.Grown seg2 ∧ seg2.Ok := by
  have hnew := hp.newLf hpos
  have hok1 := hc.okBut hp hfresh hbfr hok
  have hbase : e'.mExtFstPID + aft'.mPageCnt .EXTDIR = basePID e aft .LFBMP := by
    rw [he', hcnt]
    rfl
  have hbase' : basePID e aft .LFBMP + aft'.mPageCnt .LFBMP = basePID e aft .ITBMP := by
    rw [hcnt]
    rfl
  unfold linkNewExtToLstBMPs
  rw [if_neg (by rw [hcnt]; omega)]
  dsimp only
  rw [hbase]
  rcases linkLeaves_spec hp hnew hpos hfresh hc hok hok1 hit hcnt hful with
    ⟨herr, hstays⟩ | ⟨seg2, heq, hnot, hgrown, hroots, hits, hok2⟩
  · rw [herr]
    exact Or.inl ⟨rfl, hstays⟩
  · rw [heq]
    dsimp only
    refine Or.inr ?_
    by_cases hboth : aft'.mPageCnt .ITBMP > 0 ∧ bfr.mFreeSlotCnt .RTBMP > 0
    · rw [if_pos hboth, hbase']
      obtain ⟨hnI, hfree⟩ := hboth
      rw [hcnt] at hnI
      -- the root page is as it was, up to levels
      obtain ⟨b, hb, htype, hbf, hbm⟩ := hrt hfree
      obtain ⟨b2, hb2, hshape⟩ := Option.map_eq_some_iff.mp (hroots _ b hb htype)
      have htype2 : b2.mHdr.mType = .RTBMP := (congrArg Shape.mType hshape).trans htype
      have hbf2 : b2.mHdr.mFreeSlotCnt = bfr.mFreeSlotCnt .RTBMP :=
        (congrArg Shape.mFreeSlotCnt hshape).trans hbf
      have hbm2 : b2.mHdr.mMaxSlotCnt = bfr.mMaxSlotCnt .RTBMP :=
        (congrArg Shape.mMaxSlotCnt hshape).trans hbm
      rcases @linkSlots_spec (Pending.itOnly aSegPID e bfr aft) seg2 e bfr aft aft' .ITBMP b2 hok2 rfl
        (Or.inr rfl) hb2 htype2 hbf2 hbm2 hfree hcnt hful' hnI
        (fun i hi => by rw [hits i hi]; exact hc.hdrNew (Or.inr rfl) hi) with
        ⟨-, hle, -⟩ | ⟨b', heq', -, -, hgrown', -, hok3⟩
      · have hle' : bfr.mFreeSlotCnt .RTBMP ≤ 0 := hle
        omega
      · rw [heq']
        refine ⟨_, rfl, hnot, hgrown.trans hgrown', ?_⟩
        let pd := (Pending.itOnly aSegPID e bfr aft).afterAdd .ITBMP (bfr.mLstPID .RTBMP)
          (basePID e aft .ITBMP) (min (aft.mPageCnt .ITBMP) (bfr.mFreeSlotCnt .RTBMP)) b2.mHdr.mMFNL
        have hok4 := @Seg.OkBut.settle pd _ .RTBMP (bfr.mLstPID .RTBMP) b2.mHdr.mMFNL hok3 (Or.inl rfl)
        refine hok4.mono rfl ?_ ?_
        · rintro t p ⟨⟨rfl, i, hi, hif, rfl⟩, hnin⟩
          have hif' : i < bfr.mFreeSlotCnt .RTBMP := hif
          exact hnin ⟨rfl, Nat.le_add_right _ _, show _ < _ + min _ (bfr.mFreeSlotCnt .RTBMP) by omega⟩
        · rintro q ⟨⟨h0, rfl⟩, hne⟩
          have hseg := (hp.newSeg h0).1
          have hhdr : hdrPID e aft = e.mExtFstPID + aft.mPageCnt .EXTDIR + aft.mPageCnt .LFBMP +
            aft.mPageCnt .ITBMP + aft.mPageCnt .RTBMP := rfl
          exact hne (hhdr.trans hseg.symm)
    · rw [if_neg hboth]
      refine ⟨seg2, rfl, hnot, hgrown, hok2.mono rfl ?_ ?_⟩
      · rintro t p ⟨rfl, i, hi, hif, -⟩
        have hif' : i < bfr.mFreeSlotCnt .RTBMP := hif
        rw [hcnt] at hboth
        omega
      · -- a new segment has an internal page, and its header takes it
        rintro q ⟨h0, -⟩
        obtain ⟨-, -, hfi, hfr⟩ := hbfr.noSeg h0
        have hmaxRt := hbfr.maxRt
        have hnI := chunks_pos hbfr.maxIt
          (show 0 < aft.mPageCnt .LFBMP - bfr.mFreeSlotCnt .ITBMP by omega)
        rw [← hp.itCnt, ← hcnt] at hnI
        exact hboth ⟨hnI, by omega⟩

end Link

end Altibase.Sdpst
