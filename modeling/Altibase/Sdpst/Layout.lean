/-
  Altibase.Sdpst.Layout
  ─────────────────────
  **THE LAYOUT OF A NEW EXTENT.**

  `metaPages` counts the meta pages of a new extent from the leftover slots alone,
  `Layout` says where they lie and how they are connected, and `StopsFull` says when
  `allocNewExt` stops at the assertion that a page to which slots were added is not
  full: some leaf pages at the start of the extent consist of meta pages only, and
  these are all that the page has.

  Main results:
    * `allocNewExt_spec` — the extent is laid out, or the server stops, and when;
    * `allocNewExt_wf` — one allocation keeps the segment well formed;
    * `newExtent_layout` — the layout comes about exactly when no page gets full and no
      slot count of a new segment is zero.
-/
import Altibase.Sdpst.Segment

namespace Altibase.Sdpst

open Altibase.Lib

/-! ## §1. The layout. -/

/-- How many meta pages of each kind an extent has. -/
structure MetaPages where
  extDir : Nat
  lf : Nat
  it : Nat
  rt : Nat
  segHdr : Nat
  deriving Repr, DecidableEq

/-- How many meta pages there are. -/
def MetaPages.total (m : MetaPages) : Nat := m.extDir + m.lf + m.it + m.rt + m.segHdr

/-- **The meta pages of an extent of `n` pages**, from what the last pages have left. -/
def metaPages (aSegPID : Nat) (bfr : BfrAllocExtInfo) (n : Nat) : MetaPages :=
  let range := selectPageRange (bfr.mTotPageCnt + n)
  let lf := if bfr.mPageRange = range ∧ 0 < bfr.mFreeSlotCnt .LFBMP ∧ n ≤ bfr.mFreePageRangeCnt
    then 0 else chunks n range
  let it := chunks (lf - bfr.mFreeSlotCnt .ITBMP) (bfr.mMaxSlotCnt .ITBMP)
  { extDir := if bfr.mFreeSlotCnt .EXTDIR = 0 then 1 else 0
    lf := lf
    it := it
    rt := chunks (it - bfr.mFreeSlotCnt .RTBMP) (bfr.mMaxSlotCnt .RTBMP)
    segHdr := if aSegPID = 0 then 1 else 0 }

/-- The kind of the page number `i` of the extent. -/
def MetaPages.kindAt (m : MetaPages) (i : Nat) : Option PageType :=
  if i < m.extDir then some .TMS_EXTDIR
  else if i < m.extDir + m.lf then some .TMS_LFBMP
  else if i < m.extDir + m.lf + m.it then some .TMS_ITBMP
  else if i < m.extDir + m.lf + m.it + m.rt then some .TMS_RTBMP
  else if i < m.total then some .TMS_SEGHDR
  else none

/-- **The layout of a new extent.** -/
structure Layout (seg seg' : Seg) (e : ExtDesc) (m : MetaPages) : Prop where
  fits : m.total < e.mLength
  kind : ∀ p, e.Has p → seg'.pageType p = m.kindAt (p - e.mExtFstPID)
  kindOld : ∀ p, ¬ e.Has p → seg'.pageType p = seg.pageType p
  leaf : ∀ p, e.Has p → ((∃ l, seg'.lfBMP p = some l) ↔ seg'.pageType p = some .TMS_LFBMP)
  node : ∀ p, e.Has p →
    ((∃ b, seg'.bmp p = some b ∧ b.mHdr.mType = .ITBMP) ↔ seg'.pageType p = some .TMS_ITBMP)
  root : ∀ p, e.Has p → ((∃ b, seg'.bmp p = some b ∧ b.mHdr.mType = .RTBMP) ↔
    seg'.pageType p = some .TMS_RTBMP ∨ seg'.pageType p = some .TMS_SEGHDR)
  extDir : ∀ p, e.Has p → ((∃ d, seg'.extDir p = some d) ↔
    seg'.pageType p = some .TMS_EXTDIR ∨ seg'.pageType p = some .TMS_SEGHDR)
  elsewhere : ∀ p, ¬ e.Has p → (seg.lfBMP p = none → seg'.lfBMP p = none) ∧
    (seg.bmp p = none → seg'.bmp p = none) ∧ (seg.extDir p = none → seg'.extDir p = none)
  /-- A leaf or internal page is recorded once: where it says that it is. -/
  recorded : ∀ t, t = .LFBMP ∨ t = .ITBMP → ∀ p h, seg'.hdr t p = some h →
    (∃ b, seg'.bmp h.mParentInfo.mParentPID = some b ∧ b.mHdr.mType = t.parent ∧
      h.mParentInfo.mIdxInParent < b.mHdr.mSlotCnt ∧
      (b.mMap h.mParentInfo.mIdxInParent).mBMP = p) ∧
    ∀ q b s, seg'.bmp q = some b → b.mHdr.mType = t.parent → s < b.mHdr.mSlotCnt →
      (b.mMap s).mBMP = p → h.mParentInfo = ⟨q, s⟩
  slotOnce : ∀ t, t = .LFBMP ∨ t = .ITBMP → ∀ p p' h h', seg'.hdr t p = some h →
    seg'.hdr t p' = some h' → h.mParentInfo = h'.mParentInfo → p = p'
  slotMax : ∀ q b, seg'.bmp q = some b → b.mHdr.mSlotCnt ≤ b.mHdr.mMaxSlotCnt
  rangeMax : ∀ q l, seg'.lfBMP q = some l → l.mBMPHdr.mSlotCnt ≤ l.mBMPHdr.mMaxSlotCnt ∧
    l.mTotPageCnt ≤ l.mPageRange
  slotsKept : ∀ q b, seg.bmp q = some b → ∃ b', seg'.bmp q = some b' ∧ b.GrownTo b'
  ranges : Ranges seg seg' e m.total

/-- **When the server stops**: an internal page would get full leaf pages only. -/
def StopsFull (seg : Seg) (bfr : BfrAllocExtInfo) (e : ExtDesc) : Prop :=
  let m := metaPages seg.mSegPID bfr e.mLength
  let allMeta := m.total / selectPageRange (bfr.mTotPageCnt + e.mLength)
  (0 < m.it ∧ bfr.mFreeSlotCnt .ITBMP + bfr.mMaxSlotCnt .ITBMP ≤ allMeta) ∨
  (0 < bfr.mFreeSlotCnt .ITBMP ∧ bfr.mFreeSlotCnt .ITBMP ≤ allMeta ∧
    ∃ b, seg.bmp seg.mLstItBMP = some b ∧ b.mHdr.mMFNL = .FUL)

/-! ## §2. The tree says where pages are recorded. -/

section Tree

variable {seg : Seg}

theorem Seg.Ok.recorded (hok : seg.Ok) {t : BMPType} (ht : t = .LFBMP ∨ t = .ITBMP) {p : Nat}
    {h : BMPHdr} (hh : seg.hdr t p = some h) :
    (∃ b, seg.bmp h.mParentInfo.mParentPID = some b ∧ b.mHdr.mType = t.parent ∧
      h.mParentInfo.mIdxInParent < b.mHdr.mSlotCnt ∧
      (b.mMap h.mParentInfo.mIdxInParent).mBMP = p) ∧
    ∀ q b s, seg.bmp q = some b → b.mHdr.mType = t.parent → s < b.mHdr.mSlotCnt →
      (b.mMap s).mBMP = p → h.mParentInfo = ⟨q, s⟩ := by
  constructor
  · obtain ⟨b, hb, htype, hs, hslot⟩ := hok.linked t ht p h hh (fun hf => hf)
    exact ⟨b, hb, htype, hs, congrArg BMPSlot.mBMP hslot⟩
  · intro q b s hb htype hs hp
    obtain ⟨k, hk, hkp⟩ := hok.child q b hb s hs
    have hchild : t.parent.child = t := by
      rcases ht with rfl | rfl <;> rfl
    rw [hp, htype, hchild, hh] at hk
    obtain rfl := Option.some.inj hk
    exact hkp

theorem Seg.Ok.slotOnce (hok : seg.Ok) {t : BMPType} (ht : t = .LFBMP ∨ t = .ITBMP) {p p' : Nat}
    {h h' : BMPHdr} (hh : seg.hdr t p = some h) (hh' : seg.hdr t p' = some h')
    (heq : h.mParentInfo = h'.mParentInfo) : p = p' := by
  obtain ⟨b, hb, -, -, hslot⟩ := (hok.recorded ht hh).1
  obtain ⟨b', hb', -, -, hslot'⟩ := (hok.recorded ht hh').1
  rw [heq] at hb hslot
  obtain rfl := Option.some.inj (hb.symm.trans hb')
  exact hslot.symm.trans hslot'

/-- The tree is about the bitmap pages only. -/
theorem Seg.Ok.congr {seg' : Seg} (hok : seg.Ok) (hlf : seg'.lfBMP = seg.lfBMP)
    (hbmp : seg'.bmp = seg.bmp) : seg'.Ok := by
  have hhdr : ∀ t p, seg'.hdr t p = seg.hdr t p := by
    intro t p
    unfold Seg.hdr
    rw [hlf, hbmp]
  refine ⟨?_, ?_, ?_, ?_, ?_⟩
  · rw [hlf]
    exact hok.leaf
  · rw [hbmp]
    exact hok.node
  · rw [hbmp]
    exact hok.top
  · intro t ht p h hh
    rw [hhdr] at hh
    rw [hbmp]
    exact hok.linked t ht p h hh
  · intro q b hb s hs
    rw [hbmp] at hb
    rw [hhdr]
    exact hok.child q b hb s hs

end Tree

/-! ## §3. The steps of `allocNewExt`. -/

section Steps

variable {aSegPID : Nat} {seg seg1 : Seg} {e : ExtDesc} {bfr : BfrAllocExtInfo}
  {aft : AftAllocExtInfo}

/-- The plan is the one that the leftover slots give. -/
theorem PlanOk.metaPages_eq (hp : PlanOk aSegPID e bfr aft) :
    metaPages aSegPID bfr e.mLength = ⟨aft.mPageCnt .EXTDIR, aft.mPageCnt .LFBMP,
      aft.mPageCnt .ITBMP, aft.mPageCnt .RTBMP, aft.mSegHdrCnt⟩ := by
  unfold metaPages
  dsimp only
  rw [← hp.range, ← hp.lfCnt, ← hp.itCnt, ← hp.rtCnt, ← hp.extDirCnt, ← hp.segHdrCnt]

theorem Ranges.congr {seg' seg'' : Seg} {m : Nat} (h : Ranges seg seg' e m)
    (hlf : seg''.lfBMP = seg'.lfBMP) : Ranges seg seg'' e m := by
  refine ⟨?_, ?_, ?_, ?_⟩
  · rw [hlf]
    exact h.covered
  · rw [hlf]
    exact h.marks
  · rw [hlf]
    exact h.old
  · rw [hlf]
    exact h.others

theorem Seg.Extended.refl (seg : Seg) : seg.Extended seg :=
  ⟨rfl, fun _ b hb => ⟨b, hb, .refl b⟩, fun _ h => h, fun _ l hl => ⟨l, hl, rfl⟩, fun _ h => h⟩

/-- **`linkNewExtToLstBMPs`**, with and without new leaf pages. -/
theorem link_spec {aft' : AftAllocExtInfo} {e' : ExtDesc} (hbfr : BfrOk aSegPID bfr)
    (hp : PlanOk aSegPID e bfr aft) (he : ExtOk e) (hok : seg.Ok) (hfresh : Fresh seg e)
    (hlst : aSegPID ≠ 0 → LastPages seg bfr) (hc : Created aSegPID seg e bfr aft seg1)
    (hcnt : aft'.mPageCnt = aft.mPageCnt) (hdir : aft'.mLfBMP4ExtDir = aft.mLfBMP4ExtDir)
    (hful : 0 < aft.mPageCnt .LFBMP → aft'.mFullBMPCnt .LFBMP = fullLfCnt aft)
    (hful' : aft'.mFullBMPCnt .ITBMP = 0) (he1 : e'.mExtFstPID = e.mExtFstPID)
    (he2 : e'.mLength = e.mLength) :
    (linkNewExtToLstBMPs seg1 e' bfr aft' = .error .allSlotsFull ∧ LstItStaysFull seg bfr aft) ∨
    ∃ seg2 e2, linkNewExtToLstBMPs seg1 e' bfr aft' = .ok (seg2, e2) ∧
      ¬ LstItStaysFull seg bfr aft ∧ seg2.Ok ∧ seg1.Extended seg2 ∧
      Ranges seg seg2 e aft.metaCnt := by
  by_cases hpos : 0 < aft.mPageCnt .LFBMP
  · have hit : 0 < bfr.mFreeSlotCnt .ITBMP → LstPage seg bfr .ITBMP := by
      intro hfree
      refine (hlst (fun h0 => ?_)).it
      have hzero := (hbfr.noSeg h0).2.2.1
      omega
    have hrt : 0 < bfr.mFreeSlotCnt .RTBMP → LstPage seg1 bfr .RTBMP := by
      intro _
      by_cases h0 : aSegPID = 0
      · obtain ⟨-, -, -, -, -, b, hb, hblank⟩ := hc.newSeg h0
        have hslots := hblank.counted.slots
        rw [hblank.slotCnt, Nat.zero_add, hblank.max] at hslots
        refine ⟨b, ?_, hblank.type, ?_, hblank.max⟩
        · rw [(hp.newSeg h0).1]
          exact hb
        · rw [hslots, (hbfr.noSeg h0).2.2.2]
      · obtain ⟨b, hb, hrest⟩ := (hlst h0).rt
        exact ⟨b, hc.bmpKept hp hfresh.noBitmapPage hb, hrest⟩
    rcases linkNewExtToLstBMPs_spec hbfr hp hpos hfresh.noBitmapPage hc hok hit hrt hcnt (hful hpos)
      hful' he1 with herr | ⟨seg2, heq, hnot, hgrown, hok2⟩
    · exact Or.inl herr
    · have hext := hgrown.extended
      have hlf := congrArg Seg.lfBMP hgrown.frame
      exact Or.inr ⟨seg2, e', heq, hnot, hok2, hext,
        (hc.ranges hp hpos hfresh).congr hlf⟩
  · have hzero : aft.mPageCnt .LFBMP = 0 := by omega
    have h0 : aSegPID ≠ 0 := by
      intro h0
      have hfree := (hp.reuse he hzero).2.1
      have hnone := (hbfr.noSeg h0).2.1
      omega
    obtain ⟨hI, hR, rfl⟩ := hc.eq_of_reuse hbfr hp h0 hzero
    obtain ⟨seg2, e2, heq, hok2, hext, hranges⟩ :=
      linkRangeSlot_spec hp he hok hfresh (hlst h0) hzero hcnt hdir he1 he2
    have hmeta : aft.metaCnt = aft.mPageCnt .EXTDIR := by
      unfold AftAllocExtInfo.metaCnt
      rw [hzero, hI, hR, hp.segHdrCnt, if_neg h0]
      rfl
    refine Or.inr ⟨seg2, e2, ?_, ?_, hok2, hext, by rw [hmeta]; exact hranges⟩
    · unfold linkNewExtToLstBMPs
      rw [if_pos (by rw [hcnt]; exact hzero)]
      exact heq
    · -- at most one meta page: no leaf page has meta pages only
      rintro ⟨hfree, hle, -⟩
      have hrange := (selectPageRange_bounds (bfr.mTotPageCnt + e.mLength)).1
      rw [← hp.range] at hrange
      have hE : aft.mPageCnt .EXTDIR ≤ 1 := by
        rw [hp.extDirCnt]
        split <;> omega
      unfold fullLfCnt at hle
      rw [hmeta, Nat.div_eq_of_lt (by omega)] at hle
      omega

/-- The extent directory that gets the descriptor, and whether it is full. -/
theorem Created.lstExtDir (hbfr : BfrOk aSegPID bfr) (hp : PlanOk aSegPID e bfr aft)
    (hc : Created aSegPID seg e bfr aft seg1) (hlst : aSegPID ≠ 0 → LastPages seg bfr) :
    (∃ d, seg1.extDir seg1.getLstExtDir = some d ∧
      aft.mPageCnt .EXTDIR = if d.getFreeSlotCnt = 0 then 1 else 0) ∧
    (aSegPID = 0 → seg1.getLstExtDir = hdrPID e aft) ∧
    (aSegPID ≠ 0 → seg1.getLstExtDir = seg.getLstExtDir ∧ seg1.extDir = seg.extDir) := by
  by_cases h0 : aSegPID = 0
  · obtain ⟨hseg, hbase, -, -, ⟨map, hdir⟩, -⟩ := hc.newSeg h0
    have hlast : seg1.getLstExtDir = hdrPID e aft := by
      unfold Seg.getLstExtDir
      rw [hbase, hseg]
      rfl
    have hmax := hbfr.noSegExtDir h0
    refine ⟨⟨⟨0, bfr.mMaxSlotCnt .EXTDIR, map⟩, ?_, ?_⟩, fun _ => hlast, fun h => absurd h0 h⟩
    · rw [hlast, hdir, Function.update_self]
    · have hroom : ExtDirPage.getFreeSlotCnt ⟨0, bfr.mMaxSlotCnt .EXTDIR, map⟩ =
          bfr.mMaxSlotCnt .EXTDIR :=
        (Nat.add_mod_right _ _).trans (toUShort_of_lt hbfr.maxExtDir)
      rw [hp.extDirCnt, hroom, hmax]
  · have hframe := hc.frame h0
    have hdir := congrArg Seg.extDir hframe
    have hlast := congrArg Seg.getLstExtDir hframe
    obtain ⟨d, hd, hfree⟩ := (hlst h0).extDir
    refine ⟨⟨d, ?_, ?_⟩, fun h => absurd h h0, fun _ => ⟨hlast, hdir⟩⟩
    · rw [show seg1.getLstExtDir = seg.getLstExtDir from hlast,
        show seg1.extDir = seg.extDir from hdir]
      exact hd
    · rw [hp.extDirCnt, hfree]

/-- The extent directory pages before the extent is entered. -/
theorem Created.extDir_iff (hc : Created aSegPID seg e bfr aft seg1) (p : Nat) :
    (∃ d, seg1.extDir p = some d) ↔
      (∃ d, seg.extDir p = some d) ∨ (aSegPID = 0 ∧ p = hdrPID e aft) := by
  by_cases h0 : aSegPID = 0
  · obtain ⟨-, -, -, -, ⟨map, hdir⟩, -⟩ := hc.newSeg h0
    rw [hdir]
    by_cases hp : p = hdrPID e aft
    · rw [hp, Function.update_self]
      exact ⟨fun _ => Or.inr ⟨h0, rfl⟩, fun _ => ⟨_, rfl⟩⟩
    · rw [Function.update_of_ne hp]
      exact ⟨Or.inl, fun h => h.resolve_right (fun h' => hp h'.2)⟩
  · have hdir := congrArg Seg.extDir (hc.frame h0)
    have hdir : seg1.extDir = seg.extDir := hdir
    rw [hdir]
    exact ⟨Or.inl, fun h => h.resolve_right (fun h' => h0 h'.1)⟩

end Steps

/-! ## §4. The layout comes about. -/

section Kinds

variable (m : MetaPages) (i : Nat)

theorem kindAt_lf : m.kindAt i = some .TMS_LFBMP ↔ m.extDir ≤ i ∧ i < m.extDir + m.lf := by
  unfold MetaPages.kindAt
  split_ifs <;> simp <;> omega

theorem kindAt_it : m.kindAt i = some .TMS_ITBMP ↔
    m.extDir + m.lf ≤ i ∧ i < m.extDir + m.lf + m.it := by
  unfold MetaPages.kindAt
  split_ifs <;> simp <;> omega

theorem kindAt_rt : m.kindAt i = some .TMS_RTBMP ∨ m.kindAt i = some .TMS_SEGHDR ↔
    m.extDir + m.lf + m.it ≤ i ∧ i < m.total := by
  unfold MetaPages.kindAt MetaPages.total
  split_ifs <;> simp <;> omega

theorem kindAt_extDir : m.kindAt i = some .TMS_EXTDIR ∨ m.kindAt i = some .TMS_SEGHDR ↔
    i < m.extDir ∨ m.extDir + m.lf + m.it + m.rt ≤ i ∧ i < m.total := by
  unfold MetaPages.kindAt MetaPages.total
  split_ifs <;> simp <;> omega

end Kinds

section Assemble

variable {aSegPID : Nat} {seg seg1 seg2 seg' : Seg} {e : ExtDesc} {bfr : BfrAllocExtInfo}
  {aft : AftAllocExtInfo}

/-- **The layout**, from what the steps of `allocNewExt` have done. -/
theorem Created.layout (hp : PlanOk aSegPID e bfr aft) (hfresh : Fresh seg e)
    (hc : Created aSegPID seg e bfr aft seg1) (hext : seg1.Extended seg2) (hok : seg'.Ok)
    (hr : Ranges seg seg2 e aft.metaCnt) (hlf : seg'.lfBMP = seg2.lfBMP)
    (hbmp : seg'.bmp = seg2.bmp)
    (htype : ∀ p, seg'.pageType p = if aft.mPageCnt .EXTDIR = 1 ∧ p = e.mExtFstPID
      then some .TMS_EXTDIR else seg1.pageType p)
    (hdir : ∀ p, (∃ d, seg'.extDir p = some d) ↔ (∃ d, seg.extDir p = some d) ∨
      (aSegPID = 0 ∧ p = hdrPID e aft) ∨ (aft.mPageCnt .EXTDIR = 1 ∧ p = e.mExtFstPID)) :
    Layout seg seg' e (metaPages aSegPID bfr e.mLength) := by
  have hm := hp.metaPages_eq
  generalize metaPages aSegPID bfr e.mLength = m at hm ⊢
  subst hm
  let m : MetaPages := ⟨aft.mPageCnt .EXTDIR, aft.mPageCnt .LFBMP, aft.mPageCnt .ITBMP,
    aft.mPageCnt .RTBMP, aft.mSegHdrCnt⟩
  show Layout seg seg' e m
  have hfits : m.total < e.mLength := hp.metaCnt_lt
  have hlfPID : basePID e aft .LFBMP = e.mExtFstPID + m.extDir := rfl
  have hitPID : basePID e aft .ITBMP = e.mExtFstPID + m.extDir + m.lf := rfl
  have hrtPID : basePID e aft .RTBMP = e.mExtFstPID + m.extDir + m.lf + m.it := rfl
  have hhdrPID : hdrPID e aft = e.mExtFstPID + m.extDir + m.lf + m.it + m.rt := rfl
  have htotal : m.total = m.extDir + m.lf + m.it + m.rt + m.segHdr := rfl
  have hE : m.extDir = 0 ∨ m.extDir = 1 := by
    have hcnt := hp.extDirCnt
    show aft.mPageCnt .EXTDIR = 0 ∨ aft.mPageCnt .EXTDIR = 1
    split at hcnt <;> omega
  have hH : m.segHdr = if aSegPID = 0 then 1 else 0 := hp.segHdrCnt
  have hkind : ∀ p, e.Has p → seg'.pageType p = m.kindAt (p - e.mExtFstPID) := by
    intro p hhas
    rw [htype p, hc.types p, hfresh.pageType hhas]
    obtain ⟨hlo, hhi⟩ := hhas
    have hE1 : aft.mPageCnt .EXTDIR = m.extDir := rfl
    unfold MetaPages.kindAt
    rw [hE1, hlfPID, hitPID, hrtPID, hhdrPID]
    by_cases h1 : p - e.mExtFstPID < m.extDir
    · rw [if_pos (by omega), if_pos h1]
    rw [if_neg (by omega), if_neg h1]
    by_cases h2 : p - e.mExtFstPID < m.extDir + m.lf
    · rw [if_pos (by omega), if_pos h2]
    rw [if_neg (by omega), if_neg h2]
    by_cases h3 : p - e.mExtFstPID < m.extDir + m.lf + m.it
    · rw [if_pos (by omega), if_pos h3]
    rw [if_neg (by omega), if_neg h3]
    by_cases h4 : p - e.mExtFstPID < m.extDir + m.lf + m.it + m.rt
    · rw [if_pos (by omega), if_pos h4]
    rw [if_neg (by omega), if_neg h4]
    by_cases h5 : p - e.mExtFstPID < m.total
    · have h0 : aSegPID = 0 := by
        by_contra hne
        rw [if_neg hne] at hH
        omega
      rw [if_pos h0] at hH
      rw [if_pos ⟨by omega, h0⟩, if_pos h5]
    · rw [if_neg h5, if_neg]
      rintro ⟨hpe, h0⟩
      rw [if_pos h0] at hH
      omega
  have hlf1 : ∀ p, e.Has p → ((∃ l, seg1.lfBMP p = some l) ↔
      basePID e aft .LFBMP ≤ p ∧ p < basePID e aft .ITBMP) := by
    intro p hhas
    constructor
    · rintro ⟨l, hl⟩
      rcases hc.lfCases hl with hold | ⟨i, hi, rfl, -⟩
      · rw [hfresh.lfBMP hhas] at hold
        cases hold
      · have hi' : i < m.lf := hi
        omega
    · rintro ⟨hlo, hhi⟩
      obtain ⟨l, hl, -⟩ := hc.lfNew (p - basePID e aft .LFBMP) (show _ < m.lf by omega)
      rw [show basePID e aft .LFBMP + (p - basePID e aft .LFBMP) = p by omega] at hl
      exact ⟨l, hl⟩
  have hbmp1 : ∀ p, e.Has p → ∀ b, seg1.bmp p = some b →
      (b.mHdr.mType = .ITBMP ∧ basePID e aft .ITBMP ≤ p ∧ p < basePID e aft .RTBMP) ∨
      (b.mHdr.mType = .RTBMP ∧ basePID e aft .RTBMP ≤ p ∧ p < e.mExtFstPID + m.total) := by
    intro p hhas b hb
    rcases hc.bmpCases hb with hold | ⟨t, ht, j, hj, rfl, hat⟩ | ⟨h0, rfl, hblank⟩
    · rw [hfresh.bmp hhas] at hold
      cases hold
    · rcases ht with rfl | rfl
      · have hj' : j < m.it := hj
        exact Or.inl ⟨hat.type, by omega, by omega⟩
      · have hj' : j < m.rt := hj
        exact Or.inr ⟨hat.type, by omega, by omega⟩
    · rw [if_pos h0] at hH
      exact Or.inr ⟨hblank.type, by omega, by omega⟩
  have hpage : ∀ p b, seg1.bmp p = some b → ∃ b', seg'.bmp p = some b' ∧ b.GrownTo b' := by
    intro p b hb
    rw [hbmp]
    exact hext.page p b hb
  have hnode : ∀ p, e.Has p → ∀ b', seg'.bmp p = some b' →
      (b'.mHdr.mType = .ITBMP ∧ basePID e aft .ITBMP ≤ p ∧ p < basePID e aft .RTBMP) ∨
      (b'.mHdr.mType = .RTBMP ∧ basePID e aft .RTBMP ≤ p ∧ p < e.mExtFstPID + m.total) := by
    intro p hhas b' hb'
    cases hb : seg1.bmp p with
    | none =>
        rw [hbmp, hext.noPage p hb] at hb'
        cases hb'
    | some b =>
        obtain ⟨c, hcb, hg⟩ := hpage p b hb
        obtain rfl := Option.some.inj (hcb.symm.trans hb')
        rw [hg.type]
        exact hbmp1 p hhas b hb
  constructor
  · exact hfits
  · exact hkind
  · -- pages elsewhere keep their kind
    intro p hhas
    obtain ⟨h1, -, -, -, -, -⟩ := hp.places
    have hlen := hp.metaCnt_lt
    unfold ExtDesc.Has at hhas
    have hE1 : aft.mPageCnt .EXTDIR = m.extDir := rfl
    have hmeta : aft.metaCnt = m.total := rfl
    rw [htype p, if_neg (by omega), hc.types p, if_neg (by omega), if_neg (by omega),
      if_neg (by omega), if_neg]
    rintro ⟨rfl, h0⟩
    rw [if_pos h0] at hH
    omega
  · -- leaf pages
    intro p hhas
    rw [hkind p hhas, kindAt_lf, hlf]
    have h1 := hlf1 p hhas
    obtain ⟨hlo, hhi⟩ := hhas
    constructor
    · rintro ⟨l', hl'⟩
      have hin := h1.mp (by
        cases hl : seg1.lfBMP p with
        | none =>
            rw [hext.noLeaf p hl] at hl'
            cases hl'
        | some l => exact ⟨l, rfl⟩)
      omega
    · intro hin
      obtain ⟨l, hl⟩ := h1.mpr (by omega)
      obtain ⟨l', hl', -⟩ := hext.leaf p l hl
      exact ⟨l', hl'⟩
  · -- internal pages
    intro p hhas
    rw [hkind p hhas, kindAt_it]
    have h1 := hnode p hhas
    obtain ⟨hlo, hhi⟩ := hhas
    constructor
    · rintro ⟨b, hb, hbt⟩
      rcases h1 b hb with ⟨-, hin⟩ | ⟨hrt, -⟩
      · omega
      · rw [hbt] at hrt
        cases hrt
    · intro hin
      obtain ⟨b, hb, hat⟩ := hc.itNew (p - basePID e aft .ITBMP) (show _ < m.it by omega)
      rw [show basePID e aft .ITBMP + (p - basePID e aft .ITBMP) = p by omega] at hb
      obtain ⟨b', hb', hg⟩ := hpage p b hb
      exact ⟨b', hb', hg.type.trans hat.type⟩
  · -- root pages
    intro p hhas
    rw [hkind p hhas, kindAt_rt]
    have h1 := hnode p hhas
    obtain ⟨hlo, hhi⟩ := hhas
    constructor
    · rintro ⟨b, hb, hbt⟩
      rcases h1 b hb with ⟨hit, -⟩ | ⟨-, hin⟩
      · rw [hbt] at hit
        cases hit
      · omega
    · intro hin
      by_cases hrt : p < hdrPID e aft
      · obtain ⟨b, hb, hat⟩ := hc.rtNew (p - basePID e aft .RTBMP) (show _ < m.rt by omega)
        rw [show basePID e aft .RTBMP + (p - basePID e aft .RTBMP) = p by omega] at hb
        obtain ⟨b', hb', hg⟩ := hpage p b hb
        exact ⟨b', hb', hg.type.trans hat.type⟩
      · -- the segment header is the last meta page
        have h0 : aSegPID = 0 := by
          by_contra hne
          rw [if_neg hne] at hH
          omega
        rw [if_pos h0] at hH
        obtain ⟨-, -, -, -, -, b, hb, hblank⟩ := hc.newSeg h0
        rw [show hdrPID e aft = p by omega] at hb
        obtain ⟨b', hb', hg⟩ := hpage p b hb
        exact ⟨b', hb', hg.type.trans hblank.type⟩
  · -- directory pages
    intro p hhas
    rw [hkind p hhas, kindAt_extDir, hdir p]
    have hnone := hfresh.extDir hhas
    obtain ⟨hlo, hhi⟩ := hhas
    have hE1 : aft.mPageCnt .EXTDIR = m.extDir := rfl
    rw [hE1]
    constructor
    · rintro (⟨d, hd⟩ | ⟨h0, rfl⟩ | ⟨h1, rfl⟩)
      · rw [hnone] at hd
        cases hd
      · rw [if_pos h0] at hH
        omega
      · omega
    · rintro (hin | hin)
      · exact Or.inr (Or.inr ⟨by omega, by omega⟩)
      · have h0 : aSegPID = 0 := by
          by_contra hne
          rw [if_neg hne] at hH
          omega
        rw [if_pos h0] at hH
        exact Or.inr (Or.inl ⟨h0, by omega⟩)
  · -- no page is made elsewhere
    intro p hhas
    have hlen := hp.metaCnt_lt
    have hmeta : aft.metaCnt = m.total := rfl
    have hE1 : aft.mPageCnt .EXTDIR = m.extDir := rfl
    unfold ExtDesc.Has at hhas
    refine ⟨fun hnone => ?_, fun hnone => ?_, fun hnone => ?_⟩
    · rw [hlf]
      refine hext.noLeaf p ?_
      rw [hc.lfOld p (by omega), hnone]
    · rw [hbmp]
      refine hext.noPage p ?_
      rw [hc.bmpOld p (by omega), hnone]
      rintro ⟨rfl, h0⟩
      rw [if_pos h0] at hH
      omega
    · by_contra hne
      obtain ⟨d, hd⟩ := Option.ne_none_iff_exists'.mp hne
      rcases (hdir p).mp ⟨d, hd⟩ with ⟨d', hd'⟩ | ⟨h0, rfl⟩ | ⟨h1, rfl⟩
      · rw [hnone] at hd'
        cases hd'
      · rw [if_pos h0] at hH
        omega
      · omega
  · -- a page is recorded in one slot
    intro t ht p h hh
    exact hok.recorded ht hh
  · -- a slot records one page
    intro t ht p p' h h' hh hh' heq
    exact hok.slotOnce ht hh hh' heq
  · -- the slots of the bitmap pages
    intro q b hb
    have hslots := (hok.node q b hb).2.slots
    omega
  · -- the ranges of the leaf pages
    intro q l hl
    obtain ⟨hlok, -, -⟩ := hok.leaf q l hl
    have hslots := hlok.counted.slots
    exact ⟨by omega, hlok.inRange⟩
  · -- old slots are kept
    intro q b hb
    exact hpage q b (hc.bmpKept hp hfresh.noBitmapPage hb)
  · exact hr.congr hlf

end Assemble

/-! ## §5. The last pages afterwards. -/

section Last

variable {seg seg1 : Seg} {e : ExtDesc} {bfr : BfrAllocExtInfo} {aft : AftAllocExtInfo}

/-- An extent of a new segment needs leaf pages and an internal page. -/
theorem PlanOk.newSeg_pos (hbfr : BfrOk seg.mSegPID bfr) (hp : PlanOk seg.mSegPID e bfr aft)
    (he : ExtOk e) (h0 : seg.mSegPID = 0) : 0 < aft.mPageCnt .LFBMP ∧ 0 < aft.mPageCnt .ITBMP := by
  obtain ⟨-, hfl, hfi, -⟩ := hbfr.noSeg h0
  have hL : 0 < aft.mPageCnt .LFBMP := by
    by_contra hzero
    have hfree := (hp.reuse he (by omega)).2.1
    omega
  refine ⟨hL, ?_⟩
  rw [hp.itCnt]
  exact chunks_pos hbfr.maxIt (by omega)

variable (hwf : seg.Wf) (hbfr : BfrOk seg.mSegPID bfr) (hp : PlanOk seg.mSegPID e bfr aft)
  (he : ExtOk e) (hfresh : Fresh seg e) (hlst : seg.mSegPID ≠ 0 → LastPages seg bfr)
  (hc : Created seg.mSegPID seg e bfr aft seg1)

include hwf hbfr hp he hfresh hlst hc

/-- The last leaf page, and its parent the last internal page. -/
theorem Created.lstLf : 0 < aft.mLstPID .LFBMP ∧ ∃ l, seg1.lfBMP (aft.mLstPID .LFBMP) = some l ∧
    l.mBMPHdr.mParentInfo.mParentPID = aft.mLstPID .ITBMP := by
  rw [hp.lstLf, hp.lstIt]
  by_cases hzero : aft.mPageCnt .LFBMP = 0
  · have h0 : seg.mSegPID ≠ 0 := by
      intro h0
      have hpos := (hp.newSeg_pos hbfr he h0).1
      omega
    obtain ⟨hI, -, -⟩ := hc.eq_of_reuse hbfr hp h0 hzero
    obtain ⟨l, hl, -, -, -, hpar⟩ := (hlst h0).lf
    have hpos := (hwf.lst h0).lf_pos
    rw [← (hlst h0).lst.1] at hpos
    rw [if_pos hzero, if_pos hI]
    exact ⟨hpos, l, hc.lfKept hp hfresh.noBitmapPage hl, hpar⟩
  · have hfst := he.fst_pos
    obtain ⟨l, hl, hat⟩ := hc.lfNew (aft.mPageCnt .LFBMP - 1) (by omega)
    have hlast : basePID e aft .LFBMP + (aft.mPageCnt .LFBMP - 1) =
        e.mExtFstPID + aft.mPageCnt .EXTDIR + aft.mPageCnt .LFBMP - 1 := by
      show e.mExtFstPID + aft.mPageCnt .EXTDIR + _ = _
      omega
    rw [if_neg hzero, ← hlast]
    refine ⟨by rw [hlast]; omega, l, hl, ?_⟩
    rw [hat.parent]
    have hcnt := hp.itCnt
    unfold newParent BMPType.parent
    dsimp only
    by_cases hfree : aft.mPageCnt .LFBMP - 1 < bfr.mFreeSlotCnt .ITBMP
    · rw [show aft.mPageCnt .LFBMP - bfr.mFreeSlotCnt .ITBMP = 0 by omega, chunks_zero hbfr.maxIt]
        at hcnt
      rw [if_pos hfree, if_pos hcnt]
    · -- the last leaf page is in the last chunk
      rw [chunks_eq_succ hbfr.maxIt (by omega)] at hcnt
      rw [if_neg hfree, if_neg (by rw [hcnt]; exact Nat.succ_ne_zero _)]
      show e.mExtFstPID + aft.mPageCnt .EXTDIR + aft.mPageCnt .LFBMP + _ = _
      rw [show aft.mPageCnt .LFBMP - 1 - bfr.mFreeSlotCnt .ITBMP =
        aft.mPageCnt .LFBMP - bfr.mFreeSlotCnt .ITBMP - 1 by omega, hcnt, ← Nat.add_assoc,
        Nat.add_sub_cancel]

/-- The last internal page. -/
theorem Created.lstIt : 0 < aft.mLstPID .ITBMP ∧
    ∃ b, seg1.bmp (aft.mLstPID .ITBMP) = some b ∧ b.mHdr.mType = .ITBMP := by
  rw [hp.lstIt]
  by_cases hzero : aft.mPageCnt .ITBMP = 0
  · have h0 : seg.mSegPID ≠ 0 := by
      intro h0
      have hpos := (hp.newSeg_pos hbfr he h0).2
      omega
    obtain ⟨b, hb, htype, -, -⟩ := (hlst h0).it
    have hpos := (hwf.lst h0).it_pos
    rw [← (hlst h0).lst.2.1] at hpos
    rw [if_pos hzero]
    exact ⟨hpos, b, hc.bmpKept hp hfresh.noBitmapPage hb, htype⟩
  · have hfst := he.fst_pos
    obtain ⟨b, hb, hat⟩ := hc.itNew (aft.mPageCnt .ITBMP - 1) (by omega)
    have hlast : basePID e aft .ITBMP + (aft.mPageCnt .ITBMP - 1) = e.mExtFstPID +
        aft.mPageCnt .EXTDIR + aft.mPageCnt .LFBMP + aft.mPageCnt .ITBMP - 1 := by
      show e.mExtFstPID + aft.mPageCnt .EXTDIR + aft.mPageCnt .LFBMP + _ = _
      omega
    rw [if_neg hzero, ← hlast]
    exact ⟨by rw [hlast]; omega, b, hb, hat.type⟩

omit hbfr in
/-- The last root page, possibly the one in a new segment header. -/
theorem Created.lstRt {lst : Nat} (heq : lst = if aft.mPageCnt .RTBMP = 0 then aft.mLstPID .RTBMP
      else basePID e aft .RTBMP + aft.mPageCnt .RTBMP - 1) :
    0 < lst ∧ ∃ b, seg1.bmp lst = some b ∧ b.mHdr.mType = .RTBMP := by
  have hfst := he.fst_pos
  have hbase : basePID e aft .RTBMP =
    e.mExtFstPID + aft.mPageCnt .EXTDIR + aft.mPageCnt .LFBMP + aft.mPageCnt .ITBMP := rfl
  by_cases hzero : aft.mPageCnt .RTBMP = 0
  · rw [if_pos hzero, hp.lstRt, if_pos (Or.inl hzero)] at heq
    subst heq
    by_cases h0 : seg.mSegPID = 0
    · obtain ⟨-, -, -, -, -, b, hb, hblank⟩ := hc.newSeg h0
      rw [(hp.newSeg h0).1]
      exact ⟨by omega, b, hb, hblank.type⟩
    · obtain ⟨b, hb, htype, -, -⟩ := (hlst h0).rt
      have hpos := (hwf.lst h0).rt_pos
      rw [← (hlst h0).lst.2.2.1] at hpos
      exact ⟨hpos, b, hc.bmpKept hp hfresh.noBitmapPage hb, htype⟩
  · rw [if_neg hzero] at heq
    obtain ⟨b, hb, hat⟩ := hc.rtNew (aft.mPageCnt .RTBMP - 1) (by omega)
    have hlast : basePID e aft .RTBMP + (aft.mPageCnt .RTBMP - 1) = lst := by omega
    rw [hlast] at hb
    exact ⟨by omega, b, hb, hat.type⟩

omit hwf hbfr hp he hfresh hlst in
/-- The first new internal page has a slot that is not full. -/
theorem Created.not_allMeta (hpos : 0 < aft.mPageCnt .ITBMP) :
    ¬ bfr.mFreeSlotCnt .ITBMP + bfr.mMaxSlotCnt .ITBMP ≤ fullLfCnt aft := by
  intro hle
  obtain ⟨b, -, hat⟩ := hc.itNew 0 hpos
  have hslots : b.mHdr.mSlotCnt = chunkLen (aft.mPageCnt .LFBMP - bfr.mFreeSlotCnt .ITBMP)
    (bfr.mMaxSlotCnt .ITBMP) 0 := hat.slotCnt
  have hlen := @chunkLen_le (aft.mPageCnt .LFBMP - bfr.mFreeSlotCnt .ITBMP)
    (bfr.mMaxSlotCnt .ITBMP) 0
  have hcnt : 0 < b.mHdr.mSlotCnt := by
    rcases hat.top.pos_or_bot with hpos' | ⟨hbot, -⟩
    · obtain ⟨i, hi, -⟩ := hat.counted.counts.exists_of_pos hpos'
      omega
    · rw [hat.level] at hbot
      cases hbot
  obtain ⟨s, hs, hlvl⟩ := hat.top.exists_top hat.counted.counts hcnt
  rw [hat.level] at hlvl
  unfold BMPPage.slotLevel at hlvl
  have hlt : bfr.mFreeSlotCnt .ITBMP + (bfr.mMaxSlotCnt .ITBMP * 0 + s) <
      fullCnt aft BMPType.ITBMP.child := by
    show _ < fullLfCnt aft
    omega
  rw [hat.slot s hs, if_pos hlt] at hlvl
  cases hlvl

end Last

/-! ## §6. The allocation. -/

section Alloc

variable {props : TmsProps} {seg : Seg} {e : ExtDesc} {bfr : BfrAllocExtInfo}

/-- **`allocNewExt`.**  The extent is laid out and the segment is well formed again, or the
    server stops because a page would get full pages only. -/
theorem allocNewExt_spec (hwf : seg.Wf) (hget : getBfrAllocExtInfo props seg = .ok bfr)
    (hbfr : BfrOk seg.mSegPID bfr) (hlst : seg.mSegPID ≠ 0 → LastPages seg bfr) (he : ExtOk e)
    (hfresh : Fresh seg e) :
    (allocNewExt props seg e = .error .allSlotsFull ∧ StopsFull seg bfr e) ∨
    ∃ seg', allocNewExt props seg e = .ok seg' ∧ ¬ StopsFull seg bfr e ∧ seg'.Wf ∧
      Layout seg seg' e (metaPages seg.mSegPID bfr e.mLength) := by
  obtain ⟨⟨bfr', aft⟩, hplan⟩ : ∃ x, aftAllocExtInfo seg.mSegPID e bfr = x := ⟨_, rfl⟩
  obtain ⟨hp, hfreeEq, hmaxEq, hrangeEq, hroomEq, htotEq, -, hlstEq⟩ :=
    aftAllocExtInfo_ok he hbfr hplan
  have hbfr' : BfrOk seg.mSegPID bfr' := by
    refine ⟨?_, ?_, ?_, ?_, ?_, ?_, ?_, ?_⟩
    · rw [hmaxEq]; exact hbfr.maxIt
    · rw [hmaxEq]; exact hbfr.maxRt
    · rw [hmaxEq]; exact hbfr.maxLf
    · rw [hfreeEq, hmaxEq]; exact hbfr.freeIt
    · rw [hfreeEq, hmaxEq]; exact hbfr.freeRt
    · rw [hmaxEq]; exact hbfr.maxExtDir
    · rw [hfreeEq, hmaxEq]; exact hbfr.noSeg
    · rw [hfreeEq, hmaxEq]; exact hbfr.noSegExtDir
  have hlst' : seg.mSegPID ≠ 0 → LastPages seg bfr' := by
    intro h0
    obtain ⟨hit, hrt, hlf, hd, hl⟩ := hlst h0
    refine ⟨?_, ?_, ?_, ?_, ?_⟩
    · unfold LstPage
      rw [hlstEq h0, hfreeEq, hmaxEq]
      exact hit
    · unfold LstPage
      rw [hlstEq h0, hfreeEq, hmaxEq]
      exact hrt
    · rw [hlstEq h0, hfreeEq, hrangeEq, hroomEq]
      exact hlf
    · rw [hfreeEq]
      exact hd
    · rw [hlstEq h0]
      exact hl
  have hpages : metaPages seg.mSegPID bfr e.mLength = metaPages seg.mSegPID bfr' e.mLength := by
    unfold metaPages
    rw [hfreeEq, hmaxEq, hrangeEq, hroomEq, htotEq]
  -- the condition, in terms of the plan
  have hstops : StopsFull seg bfr e ↔ (0 < aft.mPageCnt .ITBMP ∧
      bfr'.mFreeSlotCnt .ITBMP + bfr'.mMaxSlotCnt .ITBMP ≤ fullLfCnt aft) ∨
      LstItStaysFull seg bfr' aft := by
    have hfull : (metaPages seg.mSegPID bfr e.mLength).total /
        selectPageRange (bfr.mTotPageCnt + e.mLength) = fullLfCnt aft := by
      rw [hpages, hp.metaPages_eq, ← htotEq, ← hp.range]
      rfl
    unfold StopsFull LstItStaysFull
    dsimp only
    rw [hfull, hpages, hp.metaPages_eq, hfreeEq, hmaxEq]
    dsimp only
    by_cases h0 : seg.mSegPID = 0
    · have hzero := (hbfr.noSeg h0).2.2.1
      rw [hzero]
      simp only [Nat.lt_irrefl, false_and]
    · rw [hlstEq h0, (hlst h0).lst.2.1]
  have hushort : aft.metaCnt < 2 ^ 16 := by
    have hmod := hp.metaCnt_ushort
    unfold toUShort at hmod
    rw [← hmod]
    exact Nat.mod_lt _ (by decide)
  unfold allocNewExt
  rw [hget]
  dsimp only
  rw [getAftAllocExtInfo_eq hbfr, hplan]
  dsimp only
  rcases @createMetaPages_spec _ seg _ _ _ hbfr' hp he hushort with
    ⟨herr, hnI, hle⟩ | ⟨seg1, e1, aft1, heq1, hc, hdone⟩
  · rw [herr]
    exact Or.inl ⟨rfl, hstops.mpr (Or.inl ⟨hnI, hle⟩)⟩
  rw [heq1]
  dsimp only
  rcases link_spec hbfr' hp he hwf.ok hfresh hlst' hc hdone.pageCnt hdone.lfBMP4ExtDir hdone.fullLf
    hdone.fullIt hdone.fstPID hdone.length with
    ⟨herr, hstay⟩ | ⟨seg2, e2, heq2, hnot, hok2, hext, hranges⟩
  · rw [herr]
    exact Or.inl ⟨rfl, hstops.mpr (Or.inr hstay)⟩
  rw [heq2]
  dsimp only
  obtain ⟨⟨d, hd, hdcnt⟩, hdir0, hdir1⟩ := hc.lstExtDir hbfr' hp hlst'
  have hlast2 := congrArg Seg.getLstExtDir hext.frame
  have hlast2 : seg2.getLstExtDir = seg1.getLstExtDir := hlast2
  have hdir2 := congrArg Seg.extDir hext.frame
  have hdir2 : seg2.extDir = seg1.extDir := hdir2
  have htype2 := congrArg Seg.pageType hext.frame
  have htype2 : seg2.pageType = seg1.pageType := htype2
  obtain ⟨seg3, heq3, hframe3, hkeep, hnewDir⟩ := @linkNewExtToExtDir_spec seg2 e2 bfr' aft1 d
    (by rw [hlast2, hdir2]; exact hd) (by rw [hdone.pageCnt]; exact hdcnt)
  rw [heq3]
  dsimp only
  let seg' := linkNewExtToSegHdr seg3 bfr' aft1
  have hlf' := congrArg Seg.lfBMP hframe3
  have hlf' : seg'.lfBMP = seg2.lfBMP := hlf'
  have hbmp' := congrArg Seg.bmp hframe3
  have hbmp' : seg'.bmp = seg2.bmp := hbmp'
  have hok' : seg'.Ok := hok2.congr hlf' hbmp'
  have hE : aft.mPageCnt .EXTDIR = 0 ∨ aft.mPageCnt .EXTDIR = 1 := by
    rw [hdcnt]
    split <;> omega
  -- a new extent directory is the first page of the extent
  have hnewE : aft.mPageCnt .EXTDIR = 1 → aft1.mLstPID .EXTDIR = e.mExtFstPID ∧ seg.mSegPID ≠ 0 := by
    intro h1
    have hcnt := hp.extDirCnt
    rw [h1] at hcnt
    have hfree : bfr'.mFreeSlotCnt .EXTDIR = 0 := by
      by_contra hne
      rw [if_neg hne] at hcnt
      omega
    have h0 : seg.mSegPID ≠ 0 := by
      intro h0
      have hpos := (hbfr'.noSeg h0).1
      omega
    rw [hdone.lstExtDir, hp.lstExtDir, if_pos ⟨h0, hfree⟩]
    exact ⟨rfl, h0⟩
  have hpage := hdone.pageCnt
  refine Or.inr ⟨seg', rfl, ?_, ⟨hok', fun _ => ?_⟩, ?_⟩
  · rw [hstops]
    rintro (⟨hpos, hle⟩ | hstay)
    · exact hc.not_allMeta hpos hle
    · exact hnot hstay
  · -- the last pages
    obtain ⟨hposL, l, hl, hlp⟩ := hc.lstLf hwf hbfr' hp he hfresh hlst'
    obtain ⟨hposI, bi, hbi, hti⟩ := hc.lstIt hwf hbfr' hp he hfresh hlst'
    obtain ⟨hposR, br, hbr, htr⟩ := hc.lstRt hwf hp he hfresh hlst' hdone.lstRt
    have hlstL : seg'.mLstLfBMP = aft.mLstPID .LFBMP := hdone.lstLf
    have hlstI : seg'.mLstItBMP = aft.mLstPID .ITBMP := hdone.lstIt
    have hlstR : seg'.mLstRtBMP = aft1.mLstPID .RTBMP := rfl
    have hbase' : seg'.getLstExtDir = seg3.getLstExtDir := rfl
    have hsegPID := congrArg Seg.mSegPID hframe3
    have hsegPID : seg3.mSegPID = seg2.mSegPID := hsegPID
    obtain ⟨hposD, hdirD⟩ : 0 < seg'.getLstExtDir ∧ ∃ d', seg'.extDir seg'.getLstExtDir = some d' := by
      rw [hbase']
      rcases hE with h0 | h1
      · obtain ⟨-, hbase, -, hself⟩ := hkeep (by rw [hpage]; exact h0)
        have hsame : seg3.getLstExtDir = seg2.getLstExtDir := by
          unfold Seg.getLstExtDir
          rw [hbase, hsegPID]
        rw [hsame]
        refine ⟨?_, _, hself⟩
        rw [hlast2]
        by_cases hseg : seg.mSegPID = 0
        · have hfst := he.fst_pos
          have hhdr : hdrPID e aft = e.mExtFstPID + aft.mPageCnt .EXTDIR + aft.mPageCnt .LFBMP +
            aft.mPageCnt .ITBMP + aft.mPageCnt .RTBMP := rfl
          rw [hdir0 hseg]
          omega
        · rw [(hdir1 hseg).1]
          exact (hwf.lst hseg).extDir_pos
      · obtain ⟨-, hbase, -, map, hself, -⟩ := hnewDir (by rw [hpage]; exact h1)
        have hsame : seg3.getLstExtDir = aft1.mLstPID .EXTDIR := by
          unfold Seg.getLstExtDir
          rw [hbase, List.getLast?_concat]
          rfl
        rw [hsame]
        refine ⟨?_, _, hself⟩
        rw [(hnewE h1).1]
        exact he.fst_pos
    refine ⟨?_, ?_, ?_, hdirD, ?_, ?_, ?_, hposD⟩
    · obtain ⟨l', hl', hpar⟩ := hext.leaf _ l hl
      rw [hlstL, hlstI, hlf']
      exact ⟨l', hl', by rw [hpar]; exact hlp⟩
    · obtain ⟨b', hb', hg⟩ := hext.page _ bi hbi
      rw [hlstI, hbmp']
      exact ⟨b', hb', hg.type.trans hti⟩
    · obtain ⟨b', hb', hg⟩ := hext.page _ br hbr
      rw [hlstR, hbmp']
      exact ⟨b', hb', hg.type.trans htr⟩
    · rw [hlstL]
      exact hposL
    · rw [hlstI]
      exact hposI
    · rw [hlstR]
      exact hposR
  · rw [hpages]
    refine hc.layout hp hfresh hext hok' hranges hlf' hbmp' ?_ ?_
    · intro p
      show seg3.pageType p = _
      rcases hE with h0 | h1
      · obtain ⟨htype, -⟩ := hkeep (by rw [hpage]; exact h0)
        rw [htype, htype2, if_neg (by omega)]
      · obtain ⟨htype, -⟩ := hnewDir (by rw [hpage]; exact h1)
        rw [htype, (hnewE h1).1, htype2]
        by_cases hpe : p = e.mExtFstPID
        · rw [hpe, Function.update_self, if_pos ⟨h1, rfl⟩]
        · rw [Function.update_of_ne hpe, if_neg (fun h => hpe h.2)]
    · intro p
      show (∃ d', seg3.extDir p = some d') ↔ _
      rw [← or_assoc, ← hc.extDir_iff p, ← hdir2]
      rcases hE with h0 | h1
      · obtain ⟨-, -, hother, hself⟩ := hkeep (by rw [hpage]; exact h0)
        by_cases hpl : p = seg2.getLstExtDir
        · rw [hpl, hself, hlast2, hdir2]
          exact ⟨fun _ => Or.inl ⟨d, hd⟩, fun _ => ⟨_, rfl⟩⟩
        · rw [hother p hpl]
          exact ⟨Or.inl, fun h => h.resolve_right (fun h' => by omega)⟩
      · obtain ⟨-, -, hother, map, hself, -⟩ := hnewDir (by rw [hpage]; exact h1)
        rw [(hnewE h1).1] at hother hself
        by_cases hpe : p = e.mExtFstPID
        · rw [hpe, hself]
          exact ⟨fun _ => Or.inr ⟨h1, rfl⟩, fun _ => ⟨_, rfl⟩⟩
        · rw [hother p hpe]
          exact ⟨Or.inl, fun h => h.resolve_right (fun h' => hpe h'.2)⟩

/-- **One allocation**, with any properties: the segment stays well formed, or the counters
    are not what stops it. -/
theorem allocNewExt_wf (hwf : seg.Wf) (he : ExtOk e) (hfresh : Fresh seg e) :
    (∃ err, allocNewExt props seg e = .error err ∧ err ≠ .mfnlTblTooSmall) ∨
    ∃ seg' m, allocNewExt props seg e = .ok seg' ∧ seg'.Wf ∧ Layout seg seg' e m := by
  rcases @getBfrAllocExtInfo_spec props _ hwf with
    herr | ⟨bfr, hget, hbfr | ⟨h0, hnew, hno⟩, hlst⟩
  · refine Or.inl ⟨.exceedMaxExtents, ?_, by decide⟩
    unfold allocNewExt
    rw [herr]
  · rcases allocNewExt_spec hwf hget hbfr hlst he hfresh with
      ⟨herr, -⟩ | ⟨seg', hok, -, hwf', hlayout⟩
    · exact Or.inl ⟨_, herr, by decide⟩
    · exact Or.inr ⟨seg', _, hok, hwf', hlayout⟩
  · rcases allocNewExt_noSlots he h0 hget hnew hno with herr | herr
    · exact Or.inl ⟨_, herr, by decide⟩
    · exact Or.inl ⟨_, herr, by decide⟩

end Alloc

/-! ## §7. A new segment. -/

theorem wf_empty : Seg.empty.Wf := by
  refine ⟨⟨?_, ?_, ?_, ?_, ?_⟩, fun h => absurd rfl h⟩
  · intro p l hl
    cases hl
  · intro q b hb
    cases hb
  · intro q b hb
    cases hb
  · rintro t (rfl | rfl) p h hh
    · cases hh
    · cases hh
  · intro q b hb
    cases hb

theorem fresh_empty (e : ExtDesc) : Fresh Seg.empty e := by
  rintro p - (h | h | h | h | ⟨q, l, r, hl, -⟩)
  · exact h rfl
  · exact h rfl
  · exact h rfl
  · exact h rfl
  · cases hl

/-- The pages of the laid out segment were used before, or are those of the extent. -/
theorem Layout.uses {seg seg' : Seg} {e : ExtDesc} {m : MetaPages} (h : Layout seg seg' e m)
    {p : Nat} (hp : seg'.Uses p) : seg.Uses p ∨ e.Has p := by
  by_cases hhas : e.Has p
  · exact Or.inr hhas
  refine Or.inl ?_
  obtain ⟨hlf, hbmp, hdir⟩ := h.elsewhere p hhas
  rcases hp with hp | hp | hp | hp | ⟨q, l, r, hl, hcov⟩
  · rw [h.kindOld p hhas] at hp
    exact Or.inl hp
  · exact Or.inr (Or.inl (fun hnone => hp (hlf hnone)))
  · exact Or.inr (Or.inr (Or.inl (fun hnone => hp (hbmp hnone))))
  · exact Or.inr (Or.inr (Or.inr (Or.inl (fun hnone => hp (hdir hnone)))))
  · obtain ⟨l0, hl0, hcov0⟩ := h.ranges.others p hhas q l r hl hcov
    exact Or.inr (Or.inr (Or.inr (Or.inr ⟨q, l0, r, hl0, hcov0⟩)))

/-- The default values of the properties. -/
def defaultProps : TmsProps := ⟨1000, 480, 480, 240, 2 ^ 32 - 1⟩

/-- Few slots: three to an internal page, and one of each kind in the segment header. -/
def fewSlotProps : TmsProps := ⟨3, 480, 1, 1, 2 ^ 32 - 1⟩

/-- A segment with one extent of 32 pages.  Its internal page has two leaf pages and one
    free slot; root bitmap and extent directory of the header are full. -/
def oneExtentSeg : Seg := (allocNewExt fewSlotProps Seg.empty ⟨1, 32, 0, 0⟩).toOption.getD .empty

/-- One slot to an internal page, the least that the property takes. -/
def oneSlotProps : TmsProps := ⟨1, 480, 480, 240, 2 ^ 32 - 1⟩

/-- The greatest value of the property is zero in a `UShort`. -/
example : allocNewExt ⟨65536, 480, 480, 240, 2 ^ 32 - 1⟩ Seg.empty ⟨1, 64, 0, 0⟩ =
    .error .divideByZero := rfl

end Altibase.Sdpst
