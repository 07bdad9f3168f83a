/-
  Altibase.Sdpst.FreeSpace
  ────────────────────────
  **THE FREE-SPACE TREE, IN EVERY RUN.**

  A segment lives through page state changes and allocations of extents, in any order.
  Allocation adds ranges to leaf pages and slots to internal and root pages, with
  counters adjusted by formula; a page state change climbs the tree while the level of
  a page changes.  In every reachable state the counters are what a recount gives, the
  level of a page is the highest one counted, and the parent of a page records it.

  Main results:
    * `execEvent_wf` — one event keeps the segment well formed;
    * `freeSpaceTree_reachable` — the tree in every reachable state;
    * `TreeConsistent.visible` — free space is seen from the root.
-/
import Altibase.Lib.System
import Altibase.Sdpst.Layout

namespace Altibase.Sdpst

open Altibase.Lib

/-! ## §1. Page state changes. -/

/-- The header of a data page: its place in a leaf page, and its own copy of the bit set. -/
structure DataPageHdr where
  mParentInfo : ParentInfo
  mState : PBS

/-- `sdpstFindPage::needToChangePageFN`.  What the page holds decides whether it is for
    updates only and whether it takes new rows. -/
def needToChangePageFN (aPageHdr : DataPageHdr) (isPageUpdateOnly isPageInsertable : Bool) :
    Except Fault (Option PBS) :=
  let sPBS := aPageHdr.mState
  if sPBS = pageFnFmt then .ok (some (if isPageUpdateOnly then pageFnFul else pageFnIns))
  else if sPBS = pageFnIns then .ok (if isPageUpdateOnly then some pageFnFul else none)
  else if sPBS = pageFnFul then .ok (if isPageInsertable then some pageFnIns else none)
  else .error .invalidPBS

/-- `sdpstAllocPage::updatePageFN`. -/
def Seg.updatePageFN (seg : Seg) (aPageHdr : DataPageHdr)
    (isPageUpdateOnly isPageInsertable : Bool) : Except Fault Seg :=
  match needToChangePageFN aPageHdr isPageUpdateOnly isPageInsertable with
  | .error e => .error e
  | .ok none => .ok seg
  | .ok (some sNewPageBitSet) =>
      if aPageHdr.mState = sNewPageBitSet then .error .pbsNotChanged
      else
        match seg.changeLfBMPPhase aPageHdr.mParentInfo.mParentPID
            aPageHdr.mParentInfo.mIdxInParent sNewPageBitSet with
        | .error e => .error e
        | .ok seg => if isEqFN sNewPageBitSet pageFnFmt then .error .fmtByUpdate else .ok seg

/-- `sdpstAllocPage::updatePageFNtoFull`. -/
def Seg.updatePageFNtoFull (seg : Seg) (aPageHdr : DataPageHdr) : Except Fault Seg :=
  seg.changeLfBMPPhase aPageHdr.mParentInfo.mParentPID aPageHdr.mParentInfo.mIdxInParent
    (pageTpData ||| pageFnFul)

/-- `sdpstFreePage::freePage`. -/
def Seg.freePage (seg : Seg) (aPageHdr : DataPageHdr) : Except Fault Seg :=
  seg.changeLfBMPPhase aPageHdr.mParentInfo.mParentPID aPageHdr.mParentInfo.mIdxInParent
    (pageTpData ||| pageFnFmt)

/-! ## §2. Runs. -/

/-- What happens to a segment. -/
inductive Event
  | updatePageFN (aPageHdr : DataPageHdr) (isPageUpdateOnly isPageInsertable : Bool)
  | updatePageFNtoFull (aPageHdr : DataPageHdr)
  | freePage (aPageHdr : DataPageHdr)
  | allocNewExt (aExtDesc : ExtDesc)

/-- A segment and the extents that the tablespace has handed out to it. -/
structure SegState where
  seg : Seg
  exts : List ExtDesc

instance (e : ExtDesc) : Decidable (ExtOk e) :=
  decidable_of_iff (0 < e.mExtFstPID ∧ minExtentPageCnt ≤ e.mLength ∧
    e.mLength ≤ 2 ^ Sdp.sdFPIDBitSize)
    ⟨fun h => ⟨h.1, h.2.1, h.2.2⟩, fun h => ⟨h.fst_pos, h.min, h.max⟩⟩

/-- The tablespace hands out extents that do not overlap. -/
def SegState.allowed (s : SegState) : Event → Bool
  | .allocNewExt e => ExtOk e ∧ ∀ x ∈ s.exts, x.mExtFstPID + x.mLength ≤ e.mExtFstPID ∨
      e.mExtFstPID + e.mLength ≤ x.mExtFstPID
  | _ => true

/-- What one event does to the segment. -/
def execEvent (props : TmsProps) (seg : Seg) : Event → Except Fault Seg
  | .updatePageFN aPageHdr upd ins => seg.updatePageFN aPageHdr upd ins
  | .updatePageFNtoFull aPageHdr => seg.updatePageFNtoFull aPageHdr
  | .freePage aPageHdr => seg.freePage aPageHdr
  | .allocNewExt e => allocNewExt props seg e

/-- The extents after an event. -/
def SegState.extsAfter (s : SegState) : Event → List ExtDesc
  | .allocNewExt e => e :: s.exts
  | _ => s.exts

/-- A segment from its beginning.  A run ends where the server stops. -/
def segSystem (props : TmsProps) : System SegState Event where
  init := ⟨Seg.empty, []⟩
  step s ev :=
    if s.allowed ev then
      match execEvent props s.seg ev with
      | .error _ => none
      | .ok seg => some ⟨seg, s.extsAfter ev⟩
    else none

/-! ## §3. One event. -/

/-- What a page state change does: the leaf page has a new bit set, and only levels of
    other pages change. -/
theorem Seg.Wf.changeLfBMPPhase {seg : Seg} (hwf : seg.Wf) (p i : Nat) (aNewPBS : PBS) :
    (∃ e, seg.changeLfBMPPhase p i aNewPBS = .error e ∧ e ≠ .mfnlTblTooSmall) ∨
    ∃ seg', seg.changeLfBMPPhase p i aNewPBS = .ok seg' ∧ seg'.Wf ∧
      ∀ x, seg'.Uses x → seg.Uses x := by
  rcases hwf.ok.changeLfBMPPhase p i aNewPBS with herr | ⟨l, l', seg', heq, hl, hch, hshape, hok⟩
  · exact Or.inl herr
  have hgrown := hshape.grown
  have hframe := hgrown.frame
  have hlf := congrArg Seg.lfBMP hframe
  have hlf : seg'.lfBMP = (seg.setLf p l').lfBMP := hlf
  have hdir := congrArg Seg.extDir hframe
  have hdir : seg'.extDir = seg.extDir := hdir
  have htype := congrArg Seg.pageType hframe
  have htype : seg'.pageType = seg.pageType := htype
  have hself : seg'.lfBMP p = some l' := by
    rw [hlf]
    exact setLf_lfBMP_self
  have hother : ∀ q, q ≠ p → seg'.lfBMP q = seg.lfBMP q := by
    intro q hq
    rw [hlf]
    exact setLf_lfBMP_of_ne hq
  have hparent : l'.mBMPHdr.mParentInfo = l.mBMPHdr.mParentInfo := by rw [hch.hdr]
  have hslots : l'.mBMPHdr.mSlotCnt = l.mBMPHdr.mSlotCnt := by rw [hch.hdr]
  refine Or.inr ⟨seg', heq, ⟨hok, fun hseg => ?_⟩, ?_⟩
  · -- the last pages are where they were
    have hpid := congrArg Seg.mSegPID hframe
    have hpid : seg'.mSegPID = seg.mSegPID := hpid
    obtain ⟨⟨k, hk, hkp⟩, ⟨bi, hbi, hti⟩, ⟨br, hbr, htr⟩, ⟨d, hd⟩, h1, h2, h3, h4⟩ :=
      hwf.lst (by rw [← hpid]; exact hseg)
    have hL := congrArg Seg.mLstLfBMP hframe
    have hL : seg'.mLstLfBMP = seg.mLstLfBMP := hL
    have hI := congrArg Seg.mLstItBMP hframe
    have hI : seg'.mLstItBMP = seg.mLstItBMP := hI
    have hR := congrArg Seg.mLstRtBMP hframe
    have hR : seg'.mLstRtBMP = seg.mLstRtBMP := hR
    have hD := congrArg Seg.getLstExtDir hframe
    have hD : seg'.getLstExtDir = seg.getLstExtDir := hD
    refine ⟨?_, ?_, ?_, ?_, ?_, ?_, ?_, ?_⟩
    · rw [hL, hI]
      by_cases hq : seg.mLstLfBMP = p
      · rw [hq, hl] at hk
        obtain rfl := Option.some.inj hk
        exact ⟨l', by rw [hq]; exact hself, by rw [hparent]; exact hkp⟩
      · exact ⟨k, by rw [hother _ hq]; exact hk, hkp⟩
    · obtain ⟨b', hb', hg⟩ := hgrown.page _ bi hbi
      rw [hI]
      exact ⟨b', hb', hg.type.trans hti⟩
    · obtain ⟨b', hb', hg⟩ := hgrown.page _ br hbr
      rw [hR]
      exact ⟨b', hb', hg.type.trans htr⟩
    · rw [hdir, hD]
      exact ⟨d, hd⟩
    · rw [hL]
      exact h1
    · rw [hI]
      exact h2
    · rw [hR]
      exact h3
    · rw [hD]
      exact h4
  · rintro x (h | h | h | h | ⟨q, k, r, hk, hcov⟩)
    · rw [htype] at h
      exact Or.inl h
    · refine Or.inr (Or.inl ?_)
      by_cases hx : x = p
      · rw [hx, hl]
        exact Option.some_ne_none l
      · rw [hother x hx] at h
        exact h
    · exact Or.inr (Or.inr (Or.inl (fun hnone => h (hgrown.noPage x hnone))))
    · rw [hdir] at h
      exact Or.inr (Or.inr (Or.inr (Or.inl h)))
    · refine Or.inr (Or.inr (Or.inr (Or.inr ?_)))
      by_cases hq : q = p
      · -- the range slots of the leaf page are as they were
        rw [hq, hself] at hk
        obtain rfl := Option.some.inj hk
        unfold LfBMPPage.Covers at hcov
        rw [hslots, hch.rangeSlot] at hcov
        exact ⟨p, l, r, hl, hcov⟩
      · rw [hother q hq] at hk
        exact ⟨q, k, r, hk, hcov⟩

/-- What every reachable state satisfies. -/
structure SegState.Inv (s : SegState) : Prop where
  wf : s.seg.Wf
  owned : ∀ p, s.seg.Uses p → ∃ x ∈ s.exts, x.Has p

theorem SegState.Inv.fresh {s : SegState} (hi : s.Inv) {e : ExtDesc}
    (h : s.allowed (.allocNewExt e) = true) : ExtOk e ∧ Fresh s.seg e := by
  obtain ⟨he, hdisj⟩ := of_decide_eq_true h
  refine ⟨he, fun p hp huse => ?_⟩
  obtain ⟨x, hx, hxp⟩ := hi.owned p huse
  have hd := hdisj x hx
  unfold ExtDesc.Has at hp hxp
  omega

/-- **One event** keeps the segment well formed, or stops the server at another assertion
    than the one about the counters. -/
theorem execEvent_wf {props : TmsProps} {s : SegState} (hi : s.Inv) {ev : Event}
    (hallow : s.allowed ev = true) :
    (∃ e, execEvent props s.seg ev = .error e ∧ e ≠ .mfnlTblTooSmall) ∨
    ∃ seg', execEvent props s.seg ev = .ok seg' ∧ SegState.Inv ⟨seg', s.extsAfter ev⟩ := by
  -- three of the events change the state of one page
  have hchange : ∀ p i pbs, (∃ e, s.seg.changeLfBMPPhase p i pbs = .error e ∧ e ≠ .mfnlTblTooSmall) ∨
      ∃ seg', s.seg.changeLfBMPPhase p i pbs = .ok seg' ∧ SegState.Inv ⟨seg', s.exts⟩ := by
    intro p i pbs
    rcases hi.wf.changeLfBMPPhase p i pbs with herr | ⟨seg', hok, hwf', huses⟩
    · exact Or.inl herr
    · exact Or.inr ⟨seg', hok, hwf', fun x hx => hi.owned x (huses x hx)⟩
  cases ev with
  | updatePageFN hdr upd ins =>
      show (∃ e, s.seg.updatePageFN hdr upd ins = .error e ∧ _) ∨
        ∃ seg', s.seg.updatePageFN hdr upd ins = .ok seg' ∧ SegState.Inv ⟨seg', s.exts⟩
      unfold Seg.updatePageFN
      cases hneed : needToChangePageFN hdr upd ins with
      | error e =>
          refine Or.inl ⟨e, rfl, ?_⟩
          rintro rfl
          unfold needToChangePageFN at hneed
          dsimp only at hneed
          split_ifs at hneed
          cases hneed
      | ok o =>
          cases o with
          | none => exact Or.inr ⟨s.seg, rfl, hi⟩
          | some pbs =>
              dsimp only
              -- the checks of the code: the state has changed, and it is not FMT
              by_cases hsame : hdr.mState = pbs
              · rw [if_pos hsame]
                exact Or.inl ⟨_, rfl, by decide⟩
              · rw [if_neg hsame]
                rcases hchange hdr.mParentInfo.mParentPID hdr.mParentInfo.mIdxInParent pbs with
                  ⟨e, herr, hne⟩ | ⟨seg', hok, hinv⟩
                · rw [herr]
                  exact Or.inl ⟨e, rfl, hne⟩
                · rw [hok]
                  dsimp only
                  by_cases hfmt : isEqFN pbs pageFnFmt = true
                  · rw [if_pos hfmt]
                    exact Or.inl ⟨_, rfl, by decide⟩
                  · rw [if_neg hfmt]
                    exact Or.inr ⟨seg', rfl, hinv⟩
  | updatePageFNtoFull hdr => exact hchange _ _ _
  | freePage hdr => exact hchange _ _ _
  | allocNewExt e =>
      show (∃ err, allocNewExt props s.seg e = .error err ∧ _) ∨
        ∃ seg', allocNewExt props s.seg e = .ok seg' ∧ SegState.Inv ⟨seg', e :: s.exts⟩
      -- the pages of a new extent belong to no other one
      obtain ⟨he, hfresh⟩ := hi.fresh hallow
      rcases @allocNewExt_wf props _ _ hi.wf he hfresh with
        herr | ⟨seg', m, hok, hwf', hlayout⟩
      · exact Or.inl herr
      · refine Or.inr ⟨seg', hok, hwf', fun p hp => ?_⟩
        rcases hlayout.uses hp with hold | hnew
        · obtain ⟨x, hx, hxp⟩ := hi.owned p hold
          exact ⟨x, List.mem_cons_of_mem _ hx, hxp⟩
        · exact ⟨e, List.mem_cons_self, hnew⟩

/-- Every reachable state is well formed. -/
theorem inv_reachable {props : TmsProps} {s : SegState} (hs : (segSystem props).Reachable s) :
    s.Inv := by
  refine System.Path.invariant hs ?_ ?_
  · intro s ev s' hi _ hstep
    have hstep' : (if s.allowed ev then
        (match execEvent props s.seg ev with
        | .error _ => none
        | .ok seg => some (⟨seg, s.extsAfter ev⟩ : SegState)) else none) = some s' := hstep
    by_cases hallow : s.allowed ev = true
    · rw [if_pos hallow] at hstep'
      rcases @execEvent_wf props _ hi _ hallow with ⟨e, herr, -⟩ | ⟨seg', hok, hinv⟩
      · rw [herr] at hstep'
        cases hstep'
      · rw [hok] at hstep'
        obtain rfl := Option.some.inj hstep'
        exact hinv
    · rw [if_neg hallow] at hstep'
      cases hstep'
  · refine ⟨wf_empty, fun p hp => ?_⟩
    exact absurd hp (fresh_empty ⟨p, 1, 0, 0⟩ p ⟨le_rfl, Nat.lt_succ_self p⟩)

/-! ## §4. The tree in every reachable state. -/

/-- The number of indices below `n` with the level `m`. -/
def recount (lvl : Nat → MFNL) (n : Nat) (m : MFNL) : Nat := Nat.count (fun i => lvl i = m) n

/-- What a bitmap page says about itself is right: `n` pages or slots have the levels `lvl`. -/
structure HdrConsistent (h : BMPHdr) (lvl : Nat → MFNL) (n : Nat) : Prop where
  tbl : ∀ m, h.mMFNLTbl m = recount lvl n m
  le_mfnl : ∀ m, 0 < h.mMFNLTbl m → m ≤ h.mMFNL
  mfnl_pos : 0 < h.mMFNLTbl h.mMFNL ∨ (h.mMFNL = .FUL ∧ ∀ m, h.mMFNLTbl m = 0)
  slots : h.mSlotCnt + h.mFreeSlotCnt = h.mMaxSlotCnt

/-- **The free-space tree of a segment is consistent.** -/
structure TreeConsistent (seg : Seg) : Prop where
  leaf : ∀ p l, seg.lfBMP p = some l → HdrConsistent l.mBMPHdr l.pageLevel l.mTotPageCnt
  node : ∀ q b, seg.bmp q = some b → HdrConsistent b.mHdr b.slotLevel b.mHdr.mSlotCnt
  /-- The level in a slot is that of the child. -/
  child : ∀ q b, seg.bmp q = some b → ∀ s < b.mHdr.mSlotCnt,
    ∃ h, seg.hdr b.mHdr.mType.child (b.mMap s).mBMP = some h ∧ (b.mMap s).mMFNL = h.mMFNL
  /-- Every leaf and internal page has a parent with a slot for it. -/
  parent : ∀ t, t = .LFBMP ∨ t = .ITBMP → ∀ p h, seg.hdr t p = some h →
    ∃ b, seg.bmp h.mParentInfo.mParentPID = some b ∧ b.mHdr.mType = t.parent ∧
      h.mParentInfo.mIdxInParent < b.mHdr.mSlotCnt ∧
      b.mMap h.mParentInfo.mIdxInParent = ⟨p, h.mMFNL⟩
  /-- A page with free space is seen from a root page. -/
  visible : ∀ p l, seg.lfBMP p = some l → ∀ i < l.mTotPageCnt,
    ∃ it b rt c s s', seg.bmp it = some b ∧ seg.bmp rt = some c ∧
      b.mHdr.mType = .ITBMP ∧ c.mHdr.mType = .RTBMP ∧
      s < b.mHdr.mSlotCnt ∧ (b.mMap s).mBMP = p ∧
      s' < c.mHdr.mSlotCnt ∧ (c.mMap s').mBMP = it ∧
      l.pageLevel i ≤ (b.mMap s).mMFNL ∧ l.pageLevel i ≤ (c.mMap s').mMFNL ∧
      l.pageLevel i ≤ c.mHdr.mMFNL

theorem hdrConsistent_of_counted {h : BMPHdr} {lvl : Nat → MFNL} {n : Nat} (hc : Counted h lvl n)
    (ht : TopLevel h.mMFNLTbl h.mMFNL) : HdrConsistent h lvl n :=
  ⟨hc.counts, ht.le, ht.pos_or_bot, hc.slots⟩

theorem Seg.Ok.consistent {seg : Seg} (hok : seg.Ok) : TreeConsistent seg := by
  -- what a page's parent has for it, with no page exempt
  have hparent : ∀ t, t = .LFBMP ∨ t = .ITBMP → ∀ p h, seg.hdr t p = some h →
      ∃ b, seg.bmp h.mParentInfo.mParentPID = some b ∧ b.mHdr.mType = t.parent ∧
        h.mParentInfo.mIdxInParent < b.mHdr.mSlotCnt ∧
        b.mMap h.mParentInfo.mIdxInParent = ⟨p, h.mMFNL⟩ :=
    fun t ht p h hh => hok.linked t ht p h hh (fun hf => hf)
  refine ⟨?_, ?_, ?_, hparent, ?_⟩
  · intro p l hl
    obtain ⟨hlok, -, htop⟩ := hok.leaf p l hl
    exact hdrConsistent_of_counted hlok.counted htop
  · intro q b hb
    exact hdrConsistent_of_counted (hok.node q b hb).2 (hok.top q b hb (fun hf => hf)).2
  · -- a slot and its child say the same
    intro q b hb s hs
    obtain ⟨h, hh, hp⟩ := hok.child q b hb s hs
    have ht : b.mHdr.mType.child = .LFBMP ∨ b.mHdr.mType.child = .ITBMP := by
      rcases (hok.node q b hb).1 with h' | h' <;> rw [h']
      · exact Or.inr rfl
      · exact Or.inl rfl
    obtain ⟨b', hb', -, -, hslot⟩ := hparent _ ht _ h hh
    rw [hp] at hb' hslot
    obtain rfl := Option.some.inj (hb.symm.trans hb')
    exact ⟨h, hh, congrArg BMPSlot.mMFNL hslot⟩
  · -- a page's level is at most its leaf's, that at most the internal page's, and so on
    intro p l hl i hi
    obtain ⟨hlok, -, htop⟩ := hok.leaf p l hl
    have hleaf : l.pageLevel i ≤ l.mBMPHdr.mMFNL := htop.le_top hlok.counted.counts hi
    obtain ⟨b, hb, hbt, hbs, hbslot⟩ := hparent .LFBMP (Or.inl rfl) p l.mBMPHdr (by
      rw [hdr_leaf, hl]
      rfl)
    have hbhdr := hdr_of_bmp hb (by rw [hbt]; decide)
    rw [hbt] at hbhdr
    obtain ⟨r, hr, hrt, hrs, hrslot⟩ := hparent .ITBMP (Or.inr rfl) _ b.mHdr hbhdr
    have hnode : l.mBMPHdr.mMFNL ≤ b.mHdr.mMFNL := by
      have hle := (hok.top _ b hb (fun hf => hf)).2.le_top (hok.node _ b hb).2.counts hbs
      unfold BMPPage.slotLevel at hle
      rwa [hbslot] at hle
    have hroot : b.mHdr.mMFNL ≤ r.mHdr.mMFNL := by
      have hle := (hok.top _ r hr (fun hf => hf)).2.le_top (hok.node _ r hr).2.counts hrs
      unfold BMPPage.slotLevel at hle
      rwa [hrslot] at hle
    refine ⟨_, b, _, r, _, _, hb, hr, hbt, hrt, hbs, ?_, hrs, ?_, ?_, ?_, ?_⟩
    · rw [hbslot]
    · rw [hrslot]
    · rw [hbslot]
      exact hleaf
    · rw [hrslot]
      exact le_trans hleaf hnode
    · exact le_trans hleaf (le_trans hnode hroot)

/-- **In every reachable state the free-space tree is consistent**, and whatever happens
    next, no counter is less than what is taken from it. -/
theorem freeSpaceTree_reachable {props : TmsProps} {s : SegState}
    (hs : (segSystem props).Reachable s) :
    TreeConsistent s.seg ∧ ∀ ev, s.allowed ev = true →
      execEvent props s.seg ev ≠ .error .mfnlTblTooSmall := by
  have hi := inv_reachable hs
  refine ⟨hi.wf.ok.consistent, fun ev hallow herr => ?_⟩
  rcases @execEvent_wf props _ hi _ hallow with ⟨e, he, hne⟩ | ⟨seg', hok, -⟩
  · rw [herr] at he
    exact hne (Except.error.inj he).symm
  · rw [herr] at hok
    cases hok

/-- A first extent, then a page that gets rows, becomes full and is freed again. -/
def pageLife : List Event :=
  [.allocNewExt ⟨1, 64, 0, 0⟩, .updatePageFN ⟨⟨1, 9⟩, dataFmtPBS⟩ false false,
    .updatePageFNtoFull ⟨⟨1, 9⟩, pageFnIns⟩, .freePage ⟨⟨1, 9⟩, pageFnFul⟩,
    .allocNewExt ⟨65, 64, 0, 0⟩]

theorem freeSpaceTree_reachable_pageLife :
    ∃ s, (segSystem defaultProps).run (segSystem defaultProps).init pageLife = some s ∧
      TreeConsistent s.seg ∧ ∀ ev, s.allowed ev = true →
        execEvent defaultProps s.seg ev ≠ .error .mfnlTblTooSmall := by
  have hrun : ((segSystem defaultProps).run (segSystem defaultProps).init pageLife).isSome = true := by
    decide
  obtain ⟨s, hs⟩ := Option.isSome_iff_exists.mp hrun
  exact ⟨s, hs, freeSpaceTree_reachable (System.path_of_run pageLife _ hs)⟩

end Altibase.Sdpst
