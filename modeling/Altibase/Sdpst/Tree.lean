/-
  Altibase.Sdpst.Tree
  ───────────────────
  **THE FREE-SPACE TREE.**

  `Seg.OkBut` is the invariant of the tree while something is still open: the slot of
  one page may hold an older level of it (`stale`), pages that have been made may not
  have been entered into their parents (`unlinked`), and a root page may not have a
  slot yet (`blank`).  `Seg.Ok` is the invariant with nothing open.  A change climbs
  from a leaf page to a root page by moving `stale` one level up, until the level of a
  page does not change any more.

  Main results:
    * `OkBut.climb` — one step up: the slot of a page gets the page's level;
    * `OkBut.changeItBMPPhase` — the whole way, from a leaf page;
    * `Ok.changeLfBMPPhase` — a page state change keeps the invariant, and the
      assertion about the counters does not fire.
-/
import Altibase.Sdpst.BmpInv

namespace Altibase.Sdpst

open Altibase.Lib

/-! ## §1. The invariant. -/

/-- The header of the bitmap page `p` of the type `t`. -/
def Seg.hdr (seg : Seg) (t : BMPType) (p : Nat) : Option BMPHdr :=
  match t with
  | .LFBMP => (seg.lfBMP p).map (fun l => l.mBMPHdr)
  | t => (seg.bmp p).bind (fun b => if b.mHdr.mType = t then some b.mHdr else none)

/-- What an unfinished change has left open. -/
structure Pending where
  stale : Option (BMPType × Nat × MFNL)
  unlinked : BMPType → Nat → Prop
  blank : Nat → Prop

/-- Nothing is open. -/
def Pending.nothing : Pending := ⟨none, fun _ _ => False, fun _ => False⟩

/-- The level that the parent of the page `p` of the type `t` records, when the page
    itself has the level `own`. -/
def Pending.level (pd : Pending) (t : BMPType) (p : Nat) (own : MFNL) : MFNL :=
  match pd.stale with
  | some (t', p', m) => if t = t' ∧ p = p' then m else own
  | none => own

/-- **The free-space tree, up to what is pending.** -/
structure Seg.OkBut (pd : Pending) (seg : Seg) : Prop where
  leaf : ∀ p l, seg.lfBMP p = some l →
    l.Ok ∧ 0 < l.mBMPHdr.mSlotCnt ∧ TopLevel l.mBMPHdr.mMFNLTbl l.mBMPHdr.mMFNL
  node : ∀ q b, seg.bmp q = some b → (b.mHdr.mType = .RTBMP ∨ b.mHdr.mType = .ITBMP) ∧
    Counted b.mHdr b.slotLevel b.mHdr.mSlotCnt
  top : ∀ q b, seg.bmp q = some b → ¬ pd.blank q →
    0 < b.mHdr.mSlotCnt ∧ TopLevel b.mHdr.mMFNLTbl b.mHdr.mMFNL
  linked : ∀ t, t = .LFBMP ∨ t = .ITBMP → ∀ p h, seg.hdr t p = some h → ¬ pd.unlinked t p →
    ∃ b, seg.bmp h.mParentInfo.mParentPID = some b ∧ b.mHdr.mType = t.parent ∧
      h.mParentInfo.mIdxInParent < b.mHdr.mSlotCnt ∧
      b.mMap h.mParentInfo.mIdxInParent = ⟨p, pd.level t p h.mMFNL⟩
  child : ∀ q b, seg.bmp q = some b → ∀ s < b.mHdr.mSlotCnt,
    ∃ h, seg.hdr b.mHdr.mType.child (b.mMap s).mBMP = some h ∧ h.mParentInfo = ⟨q, s⟩

/-- The free-space tree with nothing open. -/
def Seg.Ok (seg : Seg) : Prop := seg.OkBut Pending.nothing

/-! ## §2. Changing one page. -/

/-- The segment with the bitmap page `q` replaced. -/
def Seg.setBMP (seg : Seg) (q : Nat) (b : BMPPage) : Seg :=
  { seg with bmp := Function.update seg.bmp q (some b) }

/-- The segment with the leaf page `p` replaced. -/
def Seg.setLf (seg : Seg) (p : Nat) (l : LfBMPPage) : Seg :=
  { seg with lfBMP := Function.update seg.lfBMP p (some l) }

section Set

variable {seg : Seg} {b b' : BMPPage} {q p : Nat} {t : BMPType}

@[simp] theorem setBMP_lfBMP : (seg.setBMP q b).lfBMP = seg.lfBMP := rfl

@[simp] theorem setLf_bmp {l : LfBMPPage} : (seg.setLf p l).bmp = seg.bmp := rfl

theorem setBMP_bmp_self : (seg.setBMP q b).bmp q = some b := Function.update_self ..

theorem setBMP_bmp_of_ne (h : p ≠ q) : (seg.setBMP q b).bmp p = seg.bmp p :=
  Function.update_of_ne h ..

theorem setLf_lfBMP_self {l : LfBMPPage} : (seg.setLf p l).lfBMP p = some l :=
  Function.update_self ..

theorem setLf_lfBMP_of_ne {l : LfBMPPage} (h : q ≠ p) :
    (seg.setLf p l).lfBMP q = seg.lfBMP q :=
  Function.update_of_ne h ..

theorem hdr_leaf : seg.hdr .LFBMP p = (seg.lfBMP p).map (fun l => l.mBMPHdr) := rfl

theorem hdr_of_bmp (hb : seg.bmp p = some b) (ht : b.mHdr.mType ≠ .LFBMP) :
    seg.hdr b.mHdr.mType p = some b.mHdr := by
  unfold Seg.hdr
  split
  · rename_i h
    exact absurd h ht
  · rw [hb]
    exact if_pos rfl

/-- A header of an internal page is the header of a page. -/
theorem bmp_of_hdr {h : BMPHdr} (ht : t ≠ .LFBMP) (hh : seg.hdr t p = some h) :
    ∃ b, seg.bmp p = some b ∧ b.mHdr = h ∧ b.mHdr.mType = t := by
  cases hb : seg.bmp p with
  | none =>
      unfold Seg.hdr at hh
      split at hh
      · exact absurd rfl ht
      · rw [hb] at hh
        cases hh
  | some b =>
      unfold Seg.hdr at hh
      split at hh
      · exact absurd rfl ht
      · rw [hb] at hh
        simp only [Option.bind_some] at hh
        split at hh
        · rename_i htype
          exact ⟨b, rfl, Option.some.inj hh, htype⟩
        · cases hh

/-- The headers after the page `q` was replaced by one of the same type. -/
theorem hdr_setBMP (hb : seg.bmp q = some b) (ht : b.mHdr.mType ≠ .LFBMP)
    (hty : b'.mHdr.mType = b.mHdr.mType) :
    (seg.setBMP q b').hdr t p =
      if p = q ∧ t = b.mHdr.mType then some b'.mHdr else seg.hdr t p := by
  by_cases hpq : p = q
  · subst hpq
    by_cases htt : t = b.mHdr.mType
    · rw [if_pos ⟨rfl, htt⟩, htt, ← hty]
      exact hdr_of_bmp setBMP_bmp_self (by rw [hty]; exact ht)
    · rw [if_neg (fun h => htt h.2)]
      unfold Seg.hdr
      split
      · rfl
      · rw [setBMP_bmp_self, hb]
        simp only [Option.bind_some]
        rw [if_neg (fun h => htt (h.symm.trans hty)), if_neg (fun h => htt h.symm)]
  · rw [if_neg (fun h => hpq h.1)]
    unfold Seg.hdr
    split
    · rfl
    · rw [setBMP_bmp_of_ne hpq]

end Set

/-! ## §3. What a change of levels leaves as it was. -/

/-- A bitmap page without its levels. -/
structure Shape where
  mType : BMPType
  mParentInfo : ParentInfo
  mSlotCnt : Nat
  mFreeSlotCnt : Nat
  mMaxSlotCnt : Nat
  mBMP : Nat → Nat

/-- What a bitmap page is without its levels. -/
def BMPPage.shape (b : BMPPage) : Shape :=
  ⟨b.mHdr.mType, b.mHdr.mParentInfo, b.mHdr.mSlotCnt, b.mHdr.mFreeSlotCnt, b.mHdr.mMaxSlotCnt,
    fun i => (b.mMap i).mBMP⟩

/-- Only levels of root and internal pages differ. -/
structure SameShape (seg seg' : Seg) : Prop where
  frame : { seg' with bmp := seg.bmp } = seg
  shape : ∀ q, (seg'.bmp q).map BMPPage.shape = (seg.bmp q).map BMPPage.shape

theorem SameShape.refl (seg : Seg) : SameShape seg seg := ⟨rfl, fun _ => rfl⟩

theorem SameShape.trans {seg seg' seg'' : Seg} (h : SameShape seg seg')
    (h' : SameShape seg' seg'') : SameShape seg seg'' := by
  refine ⟨?_, fun q => (h'.shape q).trans (h.shape q)⟩
  have hf := h.frame
  rw [← h'.frame] at hf
  exact hf

/-! ## §4. Climbing. -/

/-- `sdpstBMP::tryToChangeMFNL`: the slot of the page `p` gets the level of `p`.  What is
    stale afterwards is the level of the parent. -/
theorem Seg.OkBut.climb {pd : Pending} {seg : Seg} {t : BMPType} {p : Nat} {m0 : MFNL} {h : BMPHdr}
    (hok : seg.OkBut { pd with stale := some (t, p, m0) }) (ht : t = .LFBMP ∨ t = .ITBMP)
    (hh : seg.hdr t p = some h) (hlink : ¬ pd.unlinked t p) :
    ∃ b b' need, seg.bmp h.mParentInfo.mParentPID = some b ∧ b.mHdr.mType = t.parent ∧
      seg.tryToChangeMFNL h.mParentInfo.mParentPID h.mParentInfo.mIdxInParent h.mMFNL =
        .ok (seg.setBMP h.mParentInfo.mParentPID b', need, b'.mHdr.mMFNL, b.mHdr.mParentInfo) ∧
      need = decide (b.mHdr.mMFNL ≠ b'.mHdr.mMFNL) ∧
      b'.mHdr = { b.mHdr with mMFNL := b'.mHdr.mMFNL, mMFNLTbl := b'.mHdr.mMFNLTbl } ∧
      SameShape seg (seg.setBMP h.mParentInfo.mParentPID b') ∧
      (seg.setBMP h.mParentInfo.mParentPID b').OkBut
        { pd with stale := some (t.parent, h.mParentInfo.mParentPID, b.mHdr.mMFNL) } := by
  obtain ⟨b, hb, htype, hs, hslot⟩ := hok.linked t ht p h hh hlink
  let q := h.mParentInfo.mParentPID
  let s := h.mParentInfo.mIdxInParent
  have hbq : seg.bmp q = some b := hb
  have hsb : s < b.mHdr.mSlotCnt := hs
  have hslot' : (b.mMap s).mBMP = p := by rw [show s = h.mParentInfo.mIdxInParent from rfl, hslot]
  obtain ⟨hty, hcnt⟩ := hok.node q b hb
  obtain ⟨b', need, heq, hhdr, hmap, hcnt', htop', hneed⟩ := updateMFNL_spec hcnt hs h.mMFNL
  have hnlf : b.mHdr.mType ≠ .LFBMP := by
    rcases hty with h' | h' <;> rw [h'] <;> decide
  have htype' : b'.mHdr.mType = b.mHdr.mType := by rw [hhdr]
  have hslots' : b'.mHdr.mSlotCnt = b.mHdr.mSlotCnt := by rw [hhdr]
  have hparent' : b'.mHdr.mParentInfo = b.mHdr.mParentInfo := by rw [hhdr]
  have hbmp : ∀ i, (b'.mMap i).mBMP = (b.mMap i).mBMP := by
    intro i
    rw [hmap]
    by_cases hi : i = s
    · subst hi
      rw [Function.update_self]
    · rw [Function.update_of_ne hi]
  have hne : t ≠ t.parent := by
    rcases ht with rfl | rfl <;> decide
  refine ⟨b, b', need, hb, htype, ?_, hneed, hhdr, ⟨?_, ?_⟩, ?_⟩
  · unfold Seg.tryToChangeMFNL
    rw [hb]
    dsimp only
    rw [heq]
    rfl
  · rfl
  · intro q'
    by_cases hq : q' = q
    · subst hq
      rw [setBMP_bmp_self, hb]
      simp only [Option.map_some, BMPPage.shape, hbmp, htype', hslots', hparent']
      rw [hhdr]
    · rw [setBMP_bmp_of_ne hq]
  · constructor
    · exact hok.leaf
    · -- the counts of the internal and root pages
      intro q' c hc
      by_cases hq : q' = q
      · subst hq
        rw [setBMP_bmp_self] at hc
        obtain rfl := Option.some.inj hc
        rw [htype']
        exact ⟨hty, hcnt'⟩
      · rw [setBMP_bmp_of_ne hq] at hc
        exact hok.node q' c hc
    · -- their levels
      intro q' c hc hblank
      by_cases hq : q' = q
      · subst hq
        rw [setBMP_bmp_self] at hc
        obtain rfl := Option.some.inj hc
        exact ⟨by omega, htop'⟩
      · rw [setBMP_bmp_of_ne hq] at hc
        exact hok.top q' c hc hblank
    · -- a page is in the slot that it names
      intro t' ht' p' h' hh' hlink'
      rw [hdr_setBMP hb hnlf htype'] at hh'
      by_cases hself : p' = q ∧ t' = b.mHdr.mType
      · -- the changed page itself: its parent still has the level from before
        rw [if_pos hself] at hh'
        obtain ⟨rfl, htt⟩ := hself
        obtain rfl := Option.some.inj hh'
        have hold : seg.hdr t' q = some b.mHdr := by
          rw [htt]
          exact hdr_of_bmp hb hnlf
        obtain ⟨c, hc, hctype, hcs, hcslot⟩ := hok.linked t' ht' q b.mHdr hold hlink'
        have hcq : b.mHdr.mParentInfo.mParentPID ≠ q := by
          intro he
          rw [he, hb] at hc
          obtain rfl := Option.some.inj hc
          have hcyc : t' = t'.parent := htt.trans hctype
          rcases ht' with rfl | rfl <;> cases hcyc
        refine ⟨c, ?_, hctype, ?_, ?_⟩
        · rw [hparent', setBMP_bmp_of_ne hcq]
          exact hc
        · rw [hparent']
          exact hcs
        · rw [hparent', hcslot]
          simp only [Pending.level]
          rw [if_neg (fun he => hne (he.1.symm.trans (htt.trans htype))),
            if_pos ⟨htt.trans htype, rfl⟩]
      · rw [if_neg hself] at hh'
        obtain ⟨c, hc, hctype, hcs, hcslot⟩ := hok.linked t' ht' p' h' hh' hlink'
        have hlvl : ({ pd with stale := some (t.parent, q, b.mHdr.mMFNL) } : Pending).level t' p'
            h'.mMFNL = h'.mMFNL := by
          simp only [Pending.level]
          exact if_neg (fun he => hself ⟨he.2, he.1.trans htype.symm⟩)
        rw [hlvl]
        by_cases hq : h'.mParentInfo.mParentPID = q
        · rw [hq, hb] at hc
          obtain rfl := Option.some.inj hc
          refine ⟨b', by rw [hq, setBMP_bmp_self], by rw [htype']; exact hctype,
            by rw [hslots']; exact hcs, ?_⟩
          rw [hmap]
          by_cases hi : h'.mParentInfo.mIdxInParent = s
          · -- the slot that was changed: it is the slot of `p`
            rw [hi, Function.update_self]
            have hp : p' = p := by
              rw [hi] at hcslot
              have hpid := congrArg BMPSlot.mBMP hcslot
              exact hpid.symm.trans hslot'
            have htt : t' = t := by
              have hpar : t'.parent = t.parent := hctype.symm.trans htype
              rcases ht with rfl | rfl <;> rcases ht' with rfl | rfl <;>
                first | rfl | exact absurd hpar (by decide)
            rw [hp, htt] at hh'
            obtain rfl := Option.some.inj (hh'.symm.trans hh)
            rw [hp]
            exact congrArg (fun k => (⟨k, h'.mMFNL⟩ : BMPSlot)) hslot'
          · rw [Function.update_of_ne hi, hcslot]
            simp only [Pending.level]
            rw [if_neg]
            rintro ⟨rfl, rfl⟩
            obtain rfl := Option.some.inj (hh'.symm.trans hh)
            exact hi rfl
        · refine ⟨c, by rw [setBMP_bmp_of_ne hq]; exact hc, hctype, hcs, ?_⟩
          rw [hcslot]
          simp only [Pending.level]
          rw [if_neg]
          rintro ⟨rfl, rfl⟩
          obtain rfl := Option.some.inj (hh'.symm.trans hh)
          exact hq rfl
    · -- a slot names a page, and the page names the slot
      intro q' c hc i hi
      by_cases hq : q' = q
      · subst hq
        rw [setBMP_bmp_self] at hc
        obtain rfl := Option.some.inj hc
        rw [hslots'] at hi
        obtain ⟨k, hk, hkp⟩ := hok.child q b hb i hi
        rw [htype', hbmp]
        rw [hdr_setBMP hb hnlf htype', if_neg]
        · exact ⟨k, hk, hkp⟩
        · rintro ⟨-, he⟩
          rcases hty with h' | h' <;> rw [h'] at he <;> cases he
      · rw [setBMP_bmp_of_ne hq] at hc
        obtain ⟨k, hk, hkp⟩ := hok.child q' c hc i hi
        rw [hdr_setBMP hb hnlf htype']
        split
        · -- the child is the changed page: its parent did not change
          rename_i hself
          rw [hself.1, hself.2, hdr_of_bmp hb hnlf] at hk
          obtain rfl := Option.some.inj hk
          exact ⟨b'.mHdr, rfl, by rw [hparent']; exact hkp⟩
        · exact ⟨k, hk, hkp⟩

/-- A page whose level is the one recorded is not stale, and a root page has no parent. -/
theorem Seg.OkBut.settle {pd : Pending} {seg : Seg} {t : BMPType} {p : Nat} {m0 : MFNL}
    (hok : seg.OkBut { pd with stale := some (t, p, m0) })
    (hsame : t = .RTBMP ∨ ∀ h, seg.hdr t p = some h → h.mMFNL = m0) :
    seg.OkBut { pd with stale := none } := by
  refine ⟨hok.leaf, hok.node, hok.top, ?_, hok.child⟩
  intro t' ht' p' h' hh' hlink'
  obtain ⟨c, hc, hctype, hcs, hcslot⟩ := hok.linked t' ht' p' h' hh' hlink'
  refine ⟨c, hc, hctype, hcs, ?_⟩
  rw [hcslot]
  simp only [Pending.level]
  split
  · rename_i he
    obtain ⟨rfl, rfl⟩ := he
    rcases hsame with rfl | hsame
    · rcases ht' with h0 | h0 <;> cases h0
    · rw [hsame h' hh']
  · rfl

section Phases

variable {pd : Pending} {seg : Seg} {p : Nat} {m0 : MFNL} {h : BMPHdr}

/-- From `SDPST_CHANGEMFNL_RTBMP_PHASE` on: an internal page may have changed its level.
    Only a root page is changed. -/
theorem Seg.OkBut.changeRtBMPPhase (hok : seg.OkBut { pd with stale := some (.ITBMP, p, m0) })
    (hh : seg.hdr .ITBMP p = some h) (hlink : ¬ pd.unlinked .ITBMP p) :
    ∃ seg', seg.changeRtBMPPhase (decide (m0 ≠ h.mMFNL)) h.mMFNL h.mParentInfo = .ok seg' ∧
      SameShape seg seg' ∧ (∀ t p, t ≠ .RTBMP → seg'.hdr t p = seg.hdr t p) ∧
      seg'.OkBut { pd with stale := none } := by
  unfold Seg.changeRtBMPPhase
  by_cases hm : m0 = h.mMFNL
  · rw [if_neg (by simpa using hm)]
    refine ⟨seg, rfl, SameShape.refl seg, fun _ _ _ => rfl, hok.settle (Or.inr ?_)⟩
    intro h' hh'
    rw [hh] at hh'
    obtain rfl := Option.some.inj hh'
    exact hm.symm
  · rw [if_pos (by simpa using hm)]
    obtain ⟨b, b', need, hb, htype, heq, -, hhdr, hshape, hok'⟩ := hok.climb (Or.inr rfl) hh hlink
    rw [heq]
    refine ⟨_, rfl, hshape, ?_, hok'.settle (Or.inl rfl)⟩
    intro t p' ht
    have htype' : b.mHdr.mType = .RTBMP := htype
    rw [hdr_setBMP hb (by rw [htype']; decide) (by rw [hhdr]),
      if_neg (fun hself => ht (hself.2.trans htype'))]

/-- From `SDPST_CHANGEMFNL_ITBMP_PHASE` on: a leaf page may have changed its level. -/
theorem Seg.OkBut.changeItBMPPhase (hok : seg.OkBut { pd with stale := some (.LFBMP, p, m0) })
    (hh : seg.hdr .LFBMP p = some h) (hlink : ¬ pd.unlinked .LFBMP p)
    (hlink' : ¬ pd.unlinked .ITBMP h.mParentInfo.mParentPID) :
    ∃ seg', seg.changeItBMPPhase (decide (m0 ≠ h.mMFNL)) h.mMFNL h.mParentInfo = .ok seg' ∧
      SameShape seg seg' ∧ seg'.OkBut { pd with stale := none } := by
  unfold Seg.changeItBMPPhase
  by_cases hm : m0 = h.mMFNL
  · rw [if_neg (by simpa using hm)]
    refine ⟨seg, ?_, SameShape.refl seg, hok.settle (Or.inr ?_)⟩
    · unfold Seg.changeRtBMPPhase
      rw [if_neg (by simpa using hm)]
    · intro h' hh'
      rw [hh] at hh'
      obtain rfl := Option.some.inj hh'
      exact hm.symm
  · rw [if_pos (by simpa using hm)]
    obtain ⟨b, b', need, -, htype, heq, hneed, hhdr, hshape, hok'⟩ :=
      hok.climb (Or.inl rfl) hh hlink
    rw [heq]
    dsimp only
    have htype' : b'.mHdr.mType = .ITBMP := by
      rw [hhdr]
      exact htype
    have hparent' : b'.mHdr.mParentInfo = b.mHdr.mParentInfo := by rw [hhdr]
    have hh' : (seg.setBMP h.mParentInfo.mParentPID b').hdr .ITBMP h.mParentInfo.mParentPID =
        some b'.mHdr := by
      rw [← htype']
      exact hdr_of_bmp setBMP_bmp_self (by rw [htype']; decide)
    obtain ⟨seg', heq', hshape', -, hok''⟩ := hok'.changeRtBMPPhase hh' hlink'
    rw [hneed, ← hparent']
    exact ⟨seg', heq', hshape.trans hshape', hok''⟩

/-- The header of a leaf page after it was replaced. -/
theorem hdr_setLf {l' : LfBMPPage} {t : BMPType} {p' : Nat} :
    (seg.setLf p l').hdr t p' =
      if p' = p ∧ t = .LFBMP then some l'.mBMPHdr else seg.hdr t p' := by
  by_cases ht : t = .LFBMP
  · subst ht
    rw [hdr_leaf]
    show (Function.update seg.lfBMP p (some l') p').map (fun l => l.mBMPHdr) = _
    by_cases hp : p' = p
    · subst hp
      rw [Function.update_self, if_pos ⟨rfl, rfl⟩]
      rfl
    · rw [Function.update_of_ne hp, if_neg (fun h => hp h.1)]
      rfl
  · rw [if_neg (fun h => ht h.2)]
    unfold Seg.hdr
    split
    · exact absurd rfl ht
    · rfl

/-- A leaf page is replaced by one at the same place in the tree. -/
theorem Seg.OkBut.setLf (hok : seg.OkBut { pd with stale := none }) {l l' : LfBMPPage}
    (hl : seg.lfBMP p = some l)
    (hl' : l'.Ok ∧ 0 < l'.mBMPHdr.mSlotCnt ∧ TopLevel l'.mBMPHdr.mMFNLTbl l'.mBMPHdr.mMFNL)
    (hparent : l'.mBMPHdr.mParentInfo = l.mBMPHdr.mParentInfo) :
    (seg.setLf p l').OkBut { pd with stale := some (.LFBMP, p, l.mBMPHdr.mMFNL) } := by
  have hold : seg.hdr .LFBMP p = some l.mBMPHdr := by
    rw [hdr_leaf, hl]
    rfl
  constructor
  · -- the leaf pages
    intro p' k hk
    by_cases hp : p' = p
    · subst hp
      rw [setLf_lfBMP_self] at hk
      obtain rfl := Option.some.inj hk
      exact hl'
    · rw [setLf_lfBMP_of_ne hp] at hk
      exact hok.leaf p' k hk
  · exact hok.node
  · exact hok.top
  · -- a page is in the slot that it names
    intro t ht p' h' hh' hlink'
    rw [hdr_setLf] at hh'
    by_cases hself : p' = p ∧ t = .LFBMP
    · rw [if_pos hself] at hh'
      obtain ⟨rfl, rfl⟩ := hself
      obtain rfl := Option.some.inj hh'
      obtain ⟨c, hc, hctype, hcs, hcslot⟩ := hok.linked .LFBMP ht p' l.mBMPHdr hold hlink'
      rw [hparent]
      refine ⟨c, hc, hctype, hcs, ?_⟩
      rw [hcslot]
      simp only [Pending.level]
      rw [if_pos ⟨trivial, trivial⟩]
    · rw [if_neg hself] at hh'
      obtain ⟨c, hc, hctype, hcs, hcslot⟩ := hok.linked t ht p' h' hh' hlink'
      refine ⟨c, hc, hctype, hcs, ?_⟩
      rw [hcslot]
      simp only [Pending.level]
      rw [if_neg (fun he => hself ⟨he.2, he.1⟩)]
  · -- a slot names a page, and the page names the slot
    intro q b hb s hs
    obtain ⟨k, hk, hkp⟩ := hok.child q b hb s hs
    rw [hdr_setLf]
    split
    · rename_i hself
      rw [hself.2, hself.1, hold] at hk
      obtain rfl := Option.some.inj hk
      exact ⟨l'.mBMPHdr, rfl, by rw [hparent]; exact hkp⟩
    · exact ⟨k, hk, hkp⟩

end Phases

/-- **A page state change.**  The leaf page, the internal page and the root page are right
    again, and the assertion that a counter is not less than what is moved does not fire. -/
theorem Seg.Ok.changeLfBMPPhase {seg : Seg} (hok : seg.Ok) (p i : Nat) (aNewPBS : PBS) :
    (∃ e, seg.changeLfBMPPhase p i aNewPBS = .error e ∧ e ≠ .mfnlTblTooSmall) ∨
    ∃ l l' seg', seg.changeLfBMPPhase p i aNewPBS = .ok seg' ∧ seg.lfBMP p = some l ∧
      PBSChanged l l' i aNewPBS ∧ SameShape (seg.setLf p l') seg' ∧ seg'.Ok := by
  unfold Seg.changeLfBMPPhase
  cases hl : seg.lfBMP p with
  | none => exact Or.inl ⟨_, rfl, by decide⟩
  | some l =>
      dsimp only
      obtain ⟨hlok, hpos, htop⟩ := hok.leaf p l hl
      rcases LfBMPPage.tryToChangeMFNL_spec hlok i aNewPBS with
        ⟨e, he, hne⟩ | ⟨l', need, heq, hlok', hch, htop', hneed⟩
      · rw [he]
        exact Or.inl ⟨e, rfl, hne⟩
      · rw [heq]
        dsimp only
        have hparent : l'.mBMPHdr.mParentInfo = l.mBMPHdr.mParentInfo := by rw [hch.hdr]
        have hpos' : 0 < l'.mBMPHdr.mSlotCnt := by
          rw [hch.hdr]
          exact hpos
        have hset := @Seg.OkBut.setLf Pending.nothing seg p hok l l' hl ⟨hlok', hpos', htop'⟩ hparent
        have hh : (seg.setLf p l').hdr .LFBMP p = some l'.mBMPHdr := by
          rw [hdr_setLf, if_pos ⟨rfl, rfl⟩]
        obtain ⟨seg', heq', hshape, hok'⟩ := hset.changeItBMPPhase hh (fun hf => hf) (fun hf => hf)
        refine Or.inr ⟨l, l', seg', ?_, rfl, hch, hshape, hok'⟩
        rw [hneed, ← hparent]
        exact heq'

end Altibase.Sdpst
