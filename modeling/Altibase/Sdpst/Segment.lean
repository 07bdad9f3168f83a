/-
  Altibase.Sdpst.Segment
  ──────────────────────
  **A SEGMENT AND ITS LAST PAGES.**

  `Seg.Wf` is what every segment satisfies between two operations: the free-space
  tree is right, and the last pages that the header names exist.  `getBfrAllocExtInfo`
  reads the leftovers of these pages, and `LastPages` says what they are.

  `Ranges` says what the leaf pages know about one extent: every page of it is in one
  range of one leaf page, and the meta pages among them are marked.

  Main results:
    * `getBfrAllocExtInfo_spec` — the leftovers are those of the last pages;
    * `Created.ranges`, `linkRangeSlot_spec` — the ranges, with new leaf pages and
      without;
    * `linkNewExtToExtDir_spec` — the extent gets its descriptor.
-/
import Altibase.Sdpst.Link

namespace Altibase.Sdpst

open Altibase.Lib

/-! ## §1. Well-formed segments. -/

/-- The pages that the segment header names as the last ones. -/
structure Seg.LstOk (seg : Seg) : Prop where
  lf : ∃ l, seg.lfBMP seg.mLstLfBMP = some l ∧ l.mBMPHdr.mParentInfo.mParentPID = seg.mLstItBMP
  it : ∃ b, seg.bmp seg.mLstItBMP = some b ∧ b.mHdr.mType = .ITBMP
  rt : ∃ b, seg.bmp seg.mLstRtBMP = some b ∧ b.mHdr.mType = .RTBMP
  extDir : ∃ d, seg.extDir seg.getLstExtDir = some d
  lf_pos : 0 < seg.mLstLfBMP
  it_pos : 0 < seg.mLstItBMP
  rt_pos : 0 < seg.mLstRtBMP
  extDir_pos : 0 < seg.getLstExtDir

/-- **A segment between two operations.** -/
structure Seg.Wf (seg : Seg) : Prop where
  ok : seg.Ok
  lst : seg.mSegPID ≠ 0 → seg.LstOk

/-- The range slot `r` of a leaf page has the page `p`. -/
def LfBMPPage.Covers (l : LfBMPPage) (r p : Nat) : Prop :=
  r < l.mBMPHdr.mSlotCnt ∧ (l.mMap.mRangeSlot r).mFstPID ≤ p ∧
    p < (l.mMap.mRangeSlot r).mFstPID + (l.mMap.mRangeSlot r).mLength

/-- The number of the page `p` in the bit set table, by the range slot `r`. -/
def LfBMPPage.pbsNo (l : LfBMPPage) (r p : Nat) : Nat :=
  (l.mMap.mRangeSlot r).mFstPBSNo + (p - (l.mMap.mRangeSlot r).mFstPID)

/-- The segment uses the page `p`: it is a meta page, or in a range of a leaf page. -/
def Seg.Uses (seg : Seg) (p : Nat) : Prop :=
  seg.pageType p ≠ none ∨ seg.lfBMP p ≠ none ∨ seg.bmp p ≠ none ∨ seg.extDir p ≠ none ∨
    ∃ q l r, seg.lfBMP q = some l ∧ l.Covers r p

/-- `p` is a page of the extent. -/
def ExtDesc.Has (e : ExtDesc) (p : Nat) : Prop :=
  e.mExtFstPID ≤ p ∧ p < e.mExtFstPID + e.mLength

/-- The segment has no page of the extent yet. -/
def Fresh (seg : Seg) (e : ExtDesc) : Prop := ∀ p, e.Has p → ¬ seg.Uses p

section Fresh

variable {seg : Seg} {e : ExtDesc} {p : Nat}

theorem Fresh.pageType (h : Fresh seg e) (hp : e.Has p) : seg.pageType p = none := by
  by_contra hne
  exact h p hp (Or.inl hne)

theorem Fresh.lfBMP (h : Fresh seg e) (hp : e.Has p) : seg.lfBMP p = none := by
  by_contra hne
  exact h p hp (Or.inr (Or.inl hne))

theorem Fresh.bmp (h : Fresh seg e) (hp : e.Has p) : seg.bmp p = none := by
  by_contra hne
  exact h p hp (Or.inr (Or.inr (Or.inl hne)))

theorem Fresh.extDir (h : Fresh seg e) (hp : e.Has p) : seg.extDir p = none := by
  by_contra hne
  exact h p hp (Or.inr (Or.inr (Or.inr (Or.inl hne))))

theorem Fresh.not_covers (h : Fresh seg e) (hp : e.Has p) {q r : Nat} {l : LfBMPPage}
    (hl : seg.lfBMP q = some l) : ¬ l.Covers r p :=
  fun hc => h p hp (Or.inr (Or.inr (Or.inr (Or.inr ⟨q, l, r, hl, hc⟩))))

theorem Fresh.noBitmapPage (h : Fresh seg e) : NoBitmapPage seg e :=
  fun _ hlo hhi => ⟨h.lfBMP ⟨hlo, hhi⟩, h.bmp ⟨hlo, hhi⟩⟩

end Fresh

/-! ## §2. The leftovers of the last pages. -/

/-- The information before the allocation is that of the last pages. -/
structure LastPages (seg : Seg) (bfr : BfrAllocExtInfo) : Prop where
  it : LstPage seg bfr .ITBMP
  rt : LstPage seg bfr .RTBMP
  lf : ∃ l, seg.lfBMP (bfr.mLstPID .LFBMP) = some l ∧
    l.mBMPHdr.mFreeSlotCnt = bfr.mFreeSlotCnt .LFBMP ∧ l.mPageRange = bfr.mPageRange ∧
    bfr.mFreePageRangeCnt = l.mPageRange - l.mTotPageCnt ∧
    l.mBMPHdr.mParentInfo.mParentPID = bfr.mLstPID .ITBMP
  extDir : ∃ d, seg.extDir seg.getLstExtDir = some d ∧
    bfr.mFreeSlotCnt .EXTDIR = d.getFreeSlotCnt
  lst : bfr.mLstPID .LFBMP = seg.mLstLfBMP ∧ bfr.mLstPID .ITBMP = seg.mLstItBMP ∧
    bfr.mLstPID .RTBMP = seg.mLstRtBMP ∧ bfr.mLstPID .EXTDIR = seg.getLstExtDir

/-- **`getBfrAllocExtInfo`.**  The limit of extents is the one ordinary error.  Only a new
    segment, whose slot counts come from the properties, can be without slots. -/
theorem getBfrAllocExtInfo_spec {props : TmsProps} {seg : Seg} (hwf : seg.Wf) :
    getBfrAllocExtInfo props seg = .error .exceedMaxExtents ∨
    ∃ bfr, getBfrAllocExtInfo props seg = .ok bfr ∧
      (BfrOk seg.mSegPID bfr ∨
        (seg.mSegPID = 0 ∧ NewSegInfo bfr ∧ bfr.NoSlots seg.mSegPID)) ∧
      (seg.mSegPID ≠ 0 → LastPages seg bfr) := by
  unfold getBfrAllocExtInfo
  by_cases h0 : seg.mSegPID = 0
  · rw [if_pos h0]
    refine Or.inr ⟨_, rfl, ?_, fun h => absurd h0 h⟩
    -- a new segment: the values of the properties, some of which may be stored as 0
    by_cases hno : toUShort props.maxSlotCntPerItBMP = 0 ∨
        toUShort props.maxSlotCntPerRtBMPInSegHdr = 0 ∨
        toUShort props.maxSlotCntPerExtDirInSegHdr = 0
    · refine Or.inr ⟨h0, ⟨rfl, rfl, rfl⟩, ?_⟩
      rcases hno with hI | hR | hE
      · exact Or.inl hI
      · exact Or.inr (Or.inl hR)
      · exact Or.inr (Or.inr ⟨h0, hE⟩)
    · push Not at hno
      obtain ⟨hI, hR, hE⟩ := hno
      exact Or.inl ⟨Nat.pos_of_ne_zero hI, Nat.pos_of_ne_zero hR, by show 0 < 16; omega,
        Nat.zero_le _, le_rfl, toUShort_lt, fun _ => ⟨Nat.pos_of_ne_zero hE, rfl, rfl, rfl⟩,
        fun _ => rfl⟩
  · rw [if_neg h0]
    -- an old segment: its last pages
    by_cases hroom : seg.mTotExtCnt + 1 > props.maxExtCnt
    · exact Or.inl (if_pos hroom)
    obtain ⟨⟨l, hl, hlp⟩, ⟨it, hit, hitt⟩, ⟨rt, hrt, hrtt⟩, ⟨d, hd⟩, h1, h2, h3, h4⟩ := hwf.lst h0
    obtain ⟨hlok, hlpos, -⟩ := hwf.ok.leaf _ l hl
    have hlslots := hlok.counted.slots
    have hitslots := (hwf.ok.node _ it hit).2.slots
    have hitpos := (hwf.ok.top _ it hit (fun h => h)).1
    have hrtslots := (hwf.ok.node _ rt hrt).2.slots
    have hrtpos := (hwf.ok.top _ rt hrt (fun h => h)).1
    rw [if_neg hroom, if_neg (by omega), hrt, hit, hl, hd]
    refine Or.inr ⟨_, rfl, Or.inl ?_, fun _ => ?_⟩
    · refine ⟨?_, ?_, ?_, ?_, ?_, toUShort_lt, fun h => absurd h h0, fun h => absurd h h0⟩
      · show 0 < it.mHdr.mMaxSlotCnt
        omega
      · show 0 < rt.mHdr.mMaxSlotCnt
        omega
      · show 0 < l.mBMPHdr.mMaxSlotCnt
        omega
      · show it.mHdr.mFreeSlotCnt ≤ it.mHdr.mMaxSlotCnt
        omega
      · show rt.mHdr.mFreeSlotCnt ≤ rt.mHdr.mMaxSlotCnt
        omega
    · exact ⟨⟨it, hit, hitt, rfl, rfl⟩, ⟨rt, hrt, hrtt, rfl, rfl⟩, ⟨l, hl, rfl, rfl, rfl, hlp⟩,
        ⟨d, hd, rfl⟩, rfl, rfl, rfl, rfl⟩

/-! ## §3. The ranges of an extent. -/

/-- **What the leaf pages know about the extent.**  The first `m` pages are meta pages. -/
structure Ranges (seg seg' : Seg) (e : ExtDesc) (m : Nat) : Prop where
  covered : ∀ p, e.Has p → ∃ q r, (∃ l, seg'.lfBMP q = some l ∧ l.Covers r p) ∧
    ∀ q' r', (∃ l, seg'.lfBMP q' = some l ∧ l.Covers r' p) → q' = q ∧ r' = r
  marks : ∀ p, e.Has p → ∀ q l r, seg'.lfBMP q = some l → l.Covers r p →
    l.mMap.mPBSTbl (l.pbsNo r p) = if p < e.mExtFstPID + m then metaFulPBS else dataFmtPBS
  old : ∀ q l, seg.lfBMP q = some l → ∃ l', seg'.lfBMP q = some l' ∧
    l.mBMPHdr.mSlotCnt ≤ l'.mBMPHdr.mSlotCnt ∧
    (∀ r < l.mBMPHdr.mSlotCnt, l'.mMap.mRangeSlot r = l.mMap.mRangeSlot r) ∧
    ∀ i < l.mTotPageCnt, l'.mMap.mPBSTbl i = l.mMap.mPBSTbl i
  others : ∀ p, ¬ e.Has p → ∀ q l r, seg'.lfBMP q = some l → l.Covers r p →
    ∃ l0, seg.lfBMP q = some l0 ∧ l0.Covers r p

section Ranges

variable {aSegPID : Nat} {seg seg1 : Seg} {e e' : ExtDesc} {bfr : BfrAllocExtInfo}
  {aft aft' : AftAllocExtInfo}

/-- The one range of a new leaf page. -/
theorem LeafAt.covers_iff {i r p : Nat} {l : LfBMPPage} (h : LeafAt e bfr aft i l) :
    l.Covers r p ↔ r = 0 ∧ e.mExtFstPID + aft.mPageRange * i ≤ p ∧
      p < e.mExtFstPID + aft.mPageRange * i + chunkLen e.mLength aft.mPageRange i := by
  unfold LfBMPPage.Covers
  rw [h.slotCnt]
  constructor
  · rintro ⟨hr, hlo, hhi⟩
    obtain rfl : r = 0 := by omega
    rw [h.fstPID] at hlo hhi
    rw [h.length] at hhi
    exact ⟨rfl, hlo, hhi⟩
  · rintro ⟨rfl, hlo, hhi⟩
    rw [h.fstPID, h.length]
    exact ⟨by omega, hlo, hhi⟩

/-- The pages of a new leaf page are pages of the extent. -/
theorem LeafAt.has {i r p : Nat} {l : LfBMPPage} (h : LeafAt e bfr aft i l) (hc : l.Covers r p) :
    e.Has p := by
  obtain ⟨-, hlo, hhi⟩ := h.covers_iff.mp hc
  unfold chunkLen at hhi
  unfold ExtDesc.Has
  omega

/-- The ranges when new leaf pages take the extent. -/
theorem Created.ranges (hp : PlanOk aSegPID e bfr aft) (hpos : 0 < aft.mPageCnt .LFBMP)
    (hfresh : Fresh seg e) (hc : Created aSegPID seg e bfr aft seg1) :
    Ranges seg seg1 e aft.metaCnt := by
  have hnew := hp.newLf hpos
  have hrange := hp.range_pos
  constructor
  · intro p hhas
    obtain ⟨hlo, hhi⟩ := hhas
    let x := p - e.mExtFstPID
    have hx : x < e.mLength := by
      show p - _ < _
      omega
    have hxp : p = e.mExtFstPID + (aft.mPageRange * (x / aft.mPageRange) + x % aft.mPageRange) := by
      rw [Nat.div_add_mod]
      show p = _ + (p - _)
      omega
    have hi : x / aft.mPageRange < aft.mPageCnt .LFBMP := by
      rw [hnew]
      exact div_lt_chunks hrange hx
    have hmod := mod_lt_chunkLen hrange hx
    obtain ⟨l, hl, hat⟩ := hc.lfNew _ hi
    refine ⟨basePID e aft .LFBMP + x / aft.mPageRange, 0,
      ⟨l, hl, hat.covers_iff.mpr ⟨rfl, by omega, by omega⟩⟩, ?_⟩
    rintro q' r' ⟨l', hl', hc'⟩
    rcases hc.lfCases hl' with hold | ⟨i', -, rfl, hat'⟩
    · exact absurd hc' (hfresh.not_covers ⟨hlo, hhi⟩ hold)
    · obtain ⟨rfl, hlo', hhi'⟩ := hat'.covers_iff.mp hc'
      have hle := @chunkLen_le e.mLength aft.mPageRange i'
      -- both leaf pages have the page, so they are the same chunk
      have heq : x = aft.mPageRange * i' + (x - aft.mPageRange * i') := by
        show p - _ = _ + (p - _ - _)
        omega
      have hdiv : x / aft.mPageRange = i' := by
        rw [heq]
        exact div_index (show p - _ - _ < _ by omega)
      rw [hdiv]
      exact ⟨rfl, rfl⟩
  · intro p hhas q l r hl hcov
    rcases hc.lfCases hl with hold | ⟨i, -, -, hat⟩
    · exact absurd hcov (hfresh.not_covers hhas hold)
    · obtain ⟨rfl, hlo, hhi⟩ := hat.covers_iff.mp hcov
      have hpbs := hat.pbs (p - (e.mExtFstPID + aft.mPageRange * i)) (by omega)
      have hno : l.pbsNo 0 p = p - (e.mExtFstPID + aft.mPageRange * i) := by
        unfold LfBMPPage.pbsNo
        rw [hat.fstPBSNo, hat.fstPID, Nat.zero_add]
      have hmeta : aft.mPageRange * i + (p - (e.mExtFstPID + aft.mPageRange * i)) < aft.metaCnt ↔
          p < e.mExtFstPID + aft.metaCnt := by omega
      rw [hno, hpbs]
      simp only [hmeta]
  · intro q l hl
    exact ⟨l, hc.lfKept hp hfresh.noBitmapPage hl, le_rfl, fun _ _ => rfl, fun _ _ => rfl⟩
  · intro p hhas q l r hl hcov
    rcases hc.lfCases hl with hold | ⟨i, -, -, hat⟩
    · exact ⟨l, hold, hcov⟩
    · exact absurd (hat.has hcov) hhas

/-- A plan without new leaf pages: the last leaf page has room for the extent. -/
theorem PlanOk.reuse (hp : PlanOk aSegPID e bfr aft) (he : ExtOk e)
    (hzero : aft.mPageCnt .LFBMP = 0) :
    bfr.mPageRange = aft.mPageRange ∧ 0 < bfr.mFreeSlotCnt .LFBMP ∧
      e.mLength ≤ bfr.mFreePageRangeCnt := by
  have hcnt := hp.lfCnt
  have hmin := he.min
  unfold minExtentPageCnt at hmin
  split at hcnt
  · rename_i hre
    exact hre
  · have hpos := chunks_pos hp.range_pos (show 0 < e.mLength by omega)
    omega

/-- Without new leaf pages there are no other new bitmap pages either. -/
theorem Created.eq_of_reuse (hbfr : BfrOk aSegPID bfr) (hp : PlanOk aSegPID e bfr aft)
    (hc : Created aSegPID seg e bfr aft seg1) (h0 : aSegPID ≠ 0) (hzero : aft.mPageCnt .LFBMP = 0) :
    aft.mPageCnt .ITBMP = 0 ∧ aft.mPageCnt .RTBMP = 0 ∧ seg1 = seg := by
  have hI : aft.mPageCnt .ITBMP = 0 := by
    rw [hp.itCnt, hzero, Nat.zero_sub, chunks_zero hbfr.maxIt]
  have hR : aft.mPageCnt .RTBMP = 0 := by
    rw [hp.rtCnt, hI, Nat.zero_sub, chunks_zero hbfr.maxRt]
  obtain ⟨h1, h2, h3, h4, -, -⟩ := hp.places
  have htypes : seg1.pageType = seg.pageType := by
    funext p
    rw [hc.types p, if_neg (by omega), if_neg (by omega), if_neg (by omega),
      if_neg (fun h => h0 h.2)]
  have hlf : seg1.lfBMP = seg.lfBMP := by
    funext p
    exact hc.lfOld p (by omega)
  have hbmp : seg1.bmp = seg.bmp := by
    funext p
    exact hc.bmpOld p (by omega) (fun h => h0 h.2)
  have hframe := hc.frame h0
  rw [← htypes, ← hlf, ← hbmp] at hframe
  exact ⟨hI, hR, hframe⟩

/-- A segment after pages have gained slots and ranges: what it is made of is the same. -/
structure Seg.Extended (seg seg' : Seg) : Prop where
  frame : { seg' with bmp := seg.bmp, lfBMP := seg.lfBMP } = seg
  page : ∀ q b, seg.bmp q = some b → ∃ b', seg'.bmp q = some b' ∧ b.GrownTo b'
  noPage : ∀ q, seg.bmp q = none → seg'.bmp q = none
  leaf : ∀ q l, seg.lfBMP q = some l → ∃ l', seg'.lfBMP q = some l' ∧
    l'.mBMPHdr.mParentInfo = l.mBMPHdr.mParentInfo
  noLeaf : ∀ q, seg.lfBMP q = none → seg'.lfBMP q = none

theorem Seg.Grown.extended {seg' : Seg} (h : seg.Grown seg') : seg.Extended seg' := by
  have hlf : seg'.lfBMP = seg.lfBMP := by
    have hf := congrArg Seg.lfBMP h.frame
    exact hf
  refine ⟨?_, h.page, h.noPage, ?_, ?_⟩
  · have hf := h.frame
    rw [← hlf]
    exact hf
  · intro q l hl
    exact ⟨l, by rw [hlf, hl], rfl⟩
  · intro q hl
    rw [hlf, hl]

/-- **`linkNewExtToLstBMPs`, without new leaf pages.**  The last leaf page takes the whole
    extent. -/
theorem linkRangeSlot_spec (hp : PlanOk aSegPID e bfr aft) (he : ExtOk e) (hok : seg.Ok)
    (hfresh : Fresh seg e) (hlst : LastPages seg bfr) (hzero : aft.mPageCnt .LFBMP = 0)
    (hcnt : aft'.mPageCnt = aft.mPageCnt) (hdir : aft'.mLfBMP4ExtDir = aft.mLfBMP4ExtDir)
    (he1 : e'.mExtFstPID = e.mExtFstPID) (he2 : e'.mLength = e.mLength) :
    ∃ seg2 e2, linkRangeSlot seg e' bfr aft' = .ok (seg2, e2) ∧ seg2.Ok ∧ seg.Extended seg2 ∧
      Ranges seg seg2 e (aft.mPageCnt .EXTDIR) := by
  obtain ⟨hre1, hre2, hre3⟩ := hp.reuse he hzero
  obtain ⟨l, hl, hfree, hrange, hroom, hpar⟩ := hlst.lf
  have hmin := he.min
  unfold minExtentPageCnt at hmin
  have hle := hp.range_le
  have hE : aft.mPageCnt .EXTDIR ≤ 1 := by
    rw [hp.extDirCnt]
    split <;> omega
  obtain ⟨hlok, hlpos, -⟩ := hok.leaf _ l hl
  have hlen : toUShort e'.mLength = e.mLength := by
    rw [he2]
    exact toUShort_of_lt (by omega)
  obtain ⟨l', need, hadd, hlok', hra, htop', hneed⟩ :=
    @addPageRangeSlot_ok l hlok (by omega) e.mExtFstPID e.mLength (aft.mPageCnt .EXTDIR) (by omega)
      (by omega) (bfr.mLstPID .EXTDIR) bfr.mSlotNoInExtDir
  let q := bfr.mLstPID .LFBMP
  have hset := @Seg.OkBut.setLf Pending.nothing seg q hok l l' hl
    ⟨hlok', by rw [hra.slotCnt]; omega, htop'⟩ hra.parent
  have hh : (seg.setLf q l').hdr .LFBMP q = some l'.mBMPHdr := by
    rw [hdr_setLf, if_pos ⟨rfl, rfl⟩]
  obtain ⟨seg2, heq, hshape, hok2⟩ := hset.changeItBMPPhase hh (fun hf => hf) (fun hf => hf)
  have hgrown := hshape.grown
  have hlf2 : seg2.lfBMP = (seg.setLf q l').lfBMP := by
    have hf := congrArg Seg.lfBMP hgrown.frame
    exact hf
  have hself : seg2.lfBMP q = some l' := by
    rw [hlf2]
    exact setLf_lfBMP_self
  have hother : ∀ p, p ≠ q → seg2.lfBMP p = seg.lfBMP p := by
    intro p hpq
    rw [hlf2]
    exact setLf_lfBMP_of_ne hpq
  have hpid : l'.mBMPHdr.mParentInfo.mParentPID = bfr.mLstPID .ITBMP := by
    rw [hra.parent]
    exact hpar
  -- the range slots of the last leaf page: the old ones, and the one of the extent
  have hcov : ∀ r p, l'.Covers r p → l.Covers r p ∨ (r = l.mBMPHdr.mSlotCnt ∧ e.Has p) := by
    rintro r p ⟨hr, hlo, hhi⟩
    rw [hra.slotCnt] at hr
    by_cases hrl : r < l.mBMPHdr.mSlotCnt
    · rw [hra.old r hrl] at hlo hhi
      exact Or.inl ⟨hrl, hlo, hhi⟩
    · obtain rfl : r = l.mBMPHdr.mSlotCnt := by omega
      rw [hra.newFst] at hlo hhi
      rw [hra.newLen] at hhi
      exact Or.inr ⟨rfl, hlo, hhi⟩
  have hfind : ∀ p, e.Has p → ∀ q' l2 r, seg2.lfBMP q' = some l2 → l2.Covers r p →
      q' = q ∧ r = l.mBMPHdr.mSlotCnt ∧ l2 = l' := by
    intro p hhas q' l2 r hl2 hc2
    by_cases hq : q' = q
    · subst hq
      obtain rfl := Option.some.inj (hself.symm.trans hl2)
      rcases hcov r p hc2 with hold | ⟨hr, -⟩
      · exact absurd hold (hfresh.not_covers hhas hl)
      · exact ⟨rfl, hr, rfl⟩
    · rw [hother q' hq] at hl2
      exact absurd hc2 (hfresh.not_covers hhas hl2)
  refine ⟨seg2, { e' with
      mExtMgmtLfBMP := q
      mExtFstDataPID := e'.mExtFstPID + aft'.mPageCnt .EXTDIR }, ?_, hok2, ?_, ?_⟩
  · unfold linkRangeSlot
    rw [hl]
    dsimp only
    rw [if_neg, hcnt, he1, hlen, hadd]
    · dsimp only
      rw [if_neg (by rw [hpid]; exact fun h => h rfl), ← hpid, hneed]
      have hparent : (⟨l'.mBMPHdr.mParentInfo.mParentPID,
          l'.mBMPHdr.mParentInfo.mIdxInParent⟩ : ParentInfo) = l'.mBMPHdr.mParentInfo := rfl
      rw [hparent]
      unfold Seg.setLf at heq
      rw [heq]
    · rintro ⟨hpos, hne⟩
      rw [hcnt] at hpos
      rw [hdir] at hne
      exact hne (hp.lfBMP4ExtDir hzero (by omega))
  · refine ⟨?_, hgrown.page, hgrown.noPage, ?_, ?_⟩
    · have hf := congrArg (fun x : Seg => { x with lfBMP := seg.lfBMP }) hgrown.frame
      exact hf
    · intro p k hk
      by_cases hp' : p = q
      · subst hp'
        obtain rfl := Option.some.inj (hl.symm.trans hk)
        exact ⟨l', hself, hra.parent⟩
      · exact ⟨k, by rw [hother p hp', hk], rfl⟩
    · intro p hk
      have hp' : p ≠ q := by
        rintro rfl
        rw [show seg.lfBMP q = some l from hl] at hk
        cases hk
      rw [hother p hp', hk]
  · constructor
    · intro p hhas
      refine ⟨q, l.mBMPHdr.mSlotCnt, ⟨l', hself, ?_⟩, ?_⟩
      · refine ⟨by rw [hra.slotCnt]; omega, ?_, ?_⟩
        · rw [hra.newFst]
          exact hhas.1
        · rw [hra.newFst, hra.newLen]
          exact hhas.2
      · rintro q' r' ⟨l2, hl2, hc2⟩
        obtain ⟨hq, hr, -⟩ := hfind p hhas q' l2 r' hl2 hc2
        exact ⟨hq, hr⟩
    · intro p hhas q' l2 r hl2 hc2
      obtain ⟨-, rfl, rfl⟩ := hfind p hhas q' l2 r hl2 hc2
      have hno : l2.pbsNo l.mBMPHdr.mSlotCnt p = l.mTotPageCnt + (p - e.mExtFstPID) := by
        unfold LfBMPPage.pbsNo
        rw [hra.newPBSNo, hra.newFst]
      obtain ⟨hlo, hhi⟩ := hhas
      have hmeta : p - e.mExtFstPID < aft.mPageCnt .EXTDIR ↔
          p < e.mExtFstPID + aft.mPageCnt .EXTDIR := by omega
      rw [hno, hra.newPBS _ (by omega)]
      simp only [hmeta]
    · intro q' k hk
      by_cases hq : q' = q
      · subst hq
        obtain rfl := Option.some.inj (hl.symm.trans hk)
        exact ⟨l', hself, by rw [hra.slotCnt]; omega, hra.old, hra.oldPBS⟩
      · exact ⟨k, by rw [hother q' hq, hk], le_rfl, fun _ _ => rfl, fun _ _ => rfl⟩
    · intro p hhas q' l2 r hl2 hc2
      by_cases hq : q' = q
      · subst hq
        obtain rfl := Option.some.inj (hself.symm.trans hl2)
        rcases hcov r p hc2 with hold | ⟨-, hin⟩
        · exact ⟨l, hl, hold⟩
        · exact absurd hin hhas
      · rw [hother q' hq] at hl2
        exact ⟨l2, hl2, hc2⟩

end Ranges

/-! ## §4. The extent directory. -/

/-- **`linkNewExtToExtDir`.**  A full extent directory is followed by the one that the plan
    has a page for. -/
theorem linkNewExtToExtDir_spec {seg : Seg} {e : ExtDesc} {bfr : BfrAllocExtInfo}
    {aft : AftAllocExtInfo} {d : ExtDirPage} (hd : seg.extDir seg.getLstExtDir = some d)
    (hcnt : aft.mPageCnt .EXTDIR = if d.getFreeSlotCnt = 0 then 1 else 0) :
    ∃ seg', linkNewExtToExtDir seg e bfr aft = .ok seg' ∧
      { seg' with pageType := seg.pageType, extDir := seg.extDir, mExtDirBase := seg.mExtDirBase } =
        seg ∧
      (aft.mPageCnt .EXTDIR = 0 → seg'.pageType = seg.pageType ∧
        seg'.mExtDirBase = seg.mExtDirBase ∧
        (∀ p, p ≠ seg.getLstExtDir → seg'.extDir p = seg.extDir p) ∧
        seg'.extDir seg.getLstExtDir =
          some ⟨d.mExtCnt + 1, d.mMaxExtCnt, Function.update d.mMap d.mExtCnt e⟩) ∧
      (aft.mPageCnt .EXTDIR = 1 →
        seg'.pageType = Function.update seg.pageType (aft.mLstPID .EXTDIR) (some .TMS_EXTDIR) ∧
        seg'.mExtDirBase = seg.mExtDirBase ++ [aft.mLstPID .EXTDIR] ∧
        (∀ p, p ≠ aft.mLstPID .EXTDIR → seg'.extDir p = seg.extDir p) ∧
        ∃ map, seg'.extDir (aft.mLstPID .EXTDIR) = some ⟨1, bfr.mMaxSlotCnt .EXTDIR, map⟩ ∧
          map 0 = e) := by
  unfold linkNewExtToExtDir
  rw [hd]
  dsimp only
  by_cases hfull : d.getFreeSlotCnt = 0
  · rw [if_pos hfull] at hcnt ⊢
    rw [if_neg (by omega)]
    refine ⟨_, rfl, rfl, fun h => by omega, fun _ => ⟨rfl, rfl, ?_, ?_⟩⟩
    · intro p hp
      exact Function.update_of_ne hp _ _
    · exact ⟨_, Function.update_self _ _ _, Function.update_self _ _ _⟩
  · rw [if_neg hfull] at hcnt ⊢
    refine ⟨_, rfl, rfl, fun _ => ⟨rfl, rfl, ?_, Function.update_self _ _ _⟩, fun h => by omega⟩
    intro p hp
    exact Function.update_of_ne hp _ _

end Altibase.Sdpst
