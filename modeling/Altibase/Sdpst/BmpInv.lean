/-
  Altibase.Sdpst.BmpInv
  ─────────────────────
  **WHAT A BITMAP PAGE KNOWS ABOUT ITS SLOTS.**

  `Counted` says that the counters of a page are what a recount of its slots gives,
  `TopLevel` that its own level is the highest one counted.  Each function that
  changes a page has one lemma here: when it succeeds, what it leaves as it was, and
  that the counters are right again.  `calcMFNL` computes the level from the counters
  alone, so after any change the level is right as soon as the counters are.

  Main results:
    * `calcMFNL_top` — the level computed is the highest one counted;
    * `updateMFNLHdr_spec` — one slot changes its level;
    * `addSlots_spec` — slots are added to a root or internal page;
    * `addPageRangeSlot_ok` — a page range is added to a leaf page.
-/
import Altibase.Sdpst.AllocExt

namespace Altibase.Sdpst

open Altibase.Lib

/-! ## §1. Levels. -/

theorem calcMFNL_top (tbl : MFNL → Nat) : TopLevel tbl (calcMFNL tbl) := by
  unfold calcMFNL
  by_cases h3 : 0 < tbl .UNF
  · have hcalc : (([.UNF, .FMT, .INS, .FUL] : List MFNL).find? (fun l => 0 < tbl l)).getD .FUL =
        .UNF := by simp [h3]
    rw [hcalc]
    exact ⟨fun a _ => by cases a <;> decide, Or.inl h3⟩
  by_cases h2 : 0 < tbl .FMT
  · have hcalc : (([.UNF, .FMT, .INS, .FUL] : List MFNL).find? (fun l => 0 < tbl l)).getD .FUL =
        .FMT := by simp [h3, h2]
    rw [hcalc]
    refine ⟨fun a ha => ?_, Or.inl h2⟩
    cases a <;> first | decide | exact absurd ha h3
  by_cases h1 : 0 < tbl .INS
  · have hcalc : (([.UNF, .FMT, .INS, .FUL] : List MFNL).find? (fun l => 0 < tbl l)).getD .FUL =
        .INS := by simp [h3, h2, h1]
    rw [hcalc]
    refine ⟨fun a ha => ?_, Or.inl h1⟩
    cases a <;> first | decide | exact absurd ha h3 | exact absurd ha h2
  · have hcalc : (([.UNF, .FMT, .INS, .FUL] : List MFNL).find? (fun l => 0 < tbl l)).getD .FUL =
        .FUL := by
      by_cases h0 : 0 < tbl .FUL <;> simp [h3, h2, h1, h0]
    rw [hcalc]
    refine ⟨fun a ha => ?_, ?_⟩
    · cases a <;> first | decide | exact absurd ha h3 | exact absurd ha h2 | exact absurd ha h1
    · by_cases h0 : 0 < tbl .FUL
      · exact Or.inl h0
      · refine Or.inr ⟨rfl, fun a => ?_⟩
        cases a <;> omega

/-- A full page has no slot above full. -/
theorem calcMFNL_eq_ful {tbl : MFNL → Nat} (h : calcMFNL tbl = .FUL) {a : MFNL} (ha : a ≠ .FUL) :
    tbl a = 0 := by
  have htop := calcMFNL_top tbl
  rw [h] at htop
  by_contra hne
  exact ha (le_antisymm (htop.le a (Nat.pos_of_ne_zero hne)) bot_le)

/-- The level of a page by its bit set. -/
def pbsLevel (aPBS : PBS) : MFNL :=
  match convertPBSToMFNL aPBS with
  | .ok m => m
  | .error _ => .FUL

theorem pbsLevel_of_convert {aPBS : PBS} {m : MFNL} (h : convertPBSToMFNL aPBS = .ok m) :
    pbsLevel aPBS = m := by
  unfold pbsLevel
  rw [h]

theorem convertPBSToMFNL_error {aPBS : PBS} {e : Fault} (h : convertPBSToMFNL aPBS = .error e) :
    e = .invalidPBS := by
  unfold convertPBSToMFNL at h
  dsimp only at h
  split_ifs at h
  exact (Except.error.inj h).symm

/-! ## §2. The header of a page. -/

/-- The counters of a header are a recount of the levels of `n` slots or pages. -/
structure Counted (h : BMPHdr) (lvl : Nat → MFNL) (n : Nat) : Prop where
  slots : h.mSlotCnt + h.mFreeSlotCnt = h.mMaxSlotCnt
  counts : Counts h.mMFNLTbl lvl n

/-- `updateMFNL` for one slot: the counter that is decreased is not zero. -/
theorem updateMFNLHdr_spec {h : BMPHdr} {lvl : Nat → MFNL} {n i : Nat} (hc : Counted h lvl n)
    (hi : i < n) (aNew : MFNL) :
    ∃ h' need, updateMFNLHdr h (lvl i) aNew 1 = .ok (h', need) ∧
      h' = { h with mMFNL := h'.mMFNL, mMFNLTbl := h'.mMFNLTbl } ∧
      Counted h' (Function.update lvl i aNew) n ∧ TopLevel h'.mMFNLTbl h'.mMFNL ∧
      need = decide (h.mMFNL ≠ h'.mMFNL) := by
  have hpos := hc.counts.pos hi
  unfold updateMFNLHdr
  rw [if_neg (by omega)]
  exact ⟨_, _, rfl, rfl, ⟨hc.slots, hc.counts.transfer hi aNew⟩, calcMFNL_top _, rfl⟩

/-! ## §3. Root and internal pages. -/

/-- The level that the slot `i` of a page records. -/
def BMPPage.slotLevel (b : BMPPage) (i : Nat) : MFNL := (b.mMap i).mMFNL

/-- `updateMFNL` for the slot `s`: the page id in it stays. -/
theorem updateMFNL_spec {b : BMPPage} (hc : Counted b.mHdr b.slotLevel b.mHdr.mSlotCnt) {s : Nat}
    (hs : s < b.mHdr.mSlotCnt) (aNew : MFNL) :
    ∃ b' need, updateMFNL b s s (b.mMap s).mMFNL aNew 1 = .ok (b', need) ∧
      b'.mHdr = { b.mHdr with mMFNL := b'.mHdr.mMFNL, mMFNLTbl := b'.mHdr.mMFNLTbl } ∧
      b'.mMap = Function.update b.mMap s ⟨(b.mMap s).mBMP, aNew⟩ ∧
      Counted b'.mHdr b'.slotLevel b'.mHdr.mSlotCnt ∧ TopLevel b'.mHdr.mMFNLTbl b'.mHdr.mMFNL ∧
      need = decide (b.mHdr.mMFNL ≠ b'.mHdr.mMFNL) := by
  obtain ⟨h', need, heq, hframe, hcnt, htop, hneed⟩ := updateMFNLHdr_spec hc hs aNew
  have hmap : (fun i => if s ≤ i ∧ i ≤ s then ⟨(b.mMap i).mBMP, aNew⟩ else b.mMap i) =
      Function.update b.mMap s ⟨(b.mMap s).mBMP, aNew⟩ := by
    funext i
    by_cases hi : i = s
    · subst hi
      rw [if_pos ⟨le_rfl, le_rfl⟩, Function.update_self]
    · rw [if_neg (by omega), Function.update_of_ne hi]
  refine ⟨⟨h', Function.update b.mMap s ⟨(b.mMap s).mBMP, aNew⟩⟩, need, ?_, hframe, rfl, ?_,
    htop, hneed⟩
  · unfold updateMFNL
    rw [show (b.mMap s).mMFNL = b.slotLevel s from rfl, heq, ← hmap]
  · have hcnt' : h'.mSlotCnt = b.mHdr.mSlotCnt := by rw [hframe]
    refine ⟨hcnt.slots, ?_⟩
    show Counts h'.mMFNLTbl _ h'.mSlotCnt
    rw [hcnt']
    refine hcnt.counts.congr (fun i _ => ?_)
    show ((Function.update b.mMap s ⟨(b.mMap s).mBMP, aNew⟩) i).mMFNL =
      Function.update b.slotLevel s aNew i
    by_cases hi : i = s
    · subst hi
      rw [Function.update_self, Function.update_self]
    · rw [Function.update_of_ne hi, Function.update_of_ne hi]
      rfl

/-- A page after `n` slots for the pages from `aFstBMP` on were added, `aFull` of them as
    full. -/
structure SlotsAdded (b b' : BMPPage) (aFstBMP n aFull : Nat) : Prop where
  type : b'.mHdr.mType = b.mHdr.mType
  parent : b'.mHdr.mParentInfo = b.mHdr.mParentInfo
  max : b'.mHdr.mMaxSlotCnt = b.mHdr.mMaxSlotCnt
  slotCnt : b'.mHdr.mSlotCnt = b.mHdr.mSlotCnt + n
  old : ∀ i < b.mHdr.mSlotCnt, b'.mMap i = b.mMap i
  new : ∀ i < n, b'.mMap (b.mHdr.mSlotCnt + i) = ⟨aFstBMP + i, if i < aFull then .FUL else .FMT⟩
  counted : Counted b'.mHdr b'.slotLevel b'.mHdr.mSlotCnt
  top : TopLevel b'.mHdr.mMFNLTbl b'.mHdr.mMFNL
  notFull : b'.mHdr.mMFNL ≠ .FUL

/-- **`addSlots`.**  It fails only when no slot of the page is left with free space. -/
theorem addSlots_spec {b : BMPPage} (hc : Counted b.mHdr b.slotLevel b.mHdr.mSlotCnt)
    {aFstBMP n aFull : Nat} (hn : n ≤ b.mHdr.mFreeSlotCnt) (hpos : 0 < n) (hfull : aFull ≤ n) :
    (addSlots b b.mHdr.mSlotCnt aFstBMP (aFstBMP + n - 1) aFull = .error .allSlotsFull ∧
      aFull = n ∧ ∀ a, a ≠ .FUL → b.mHdr.mMFNLTbl a = 0) ∨
    ∃ b' need, addSlots b b.mHdr.mSlotCnt aFstBMP (aFstBMP + n - 1) aFull = .ok (b', need) ∧
      SlotsAdded b b' aFstBMP n aFull ∧ need = decide (b.mHdr.mMFNL ≠ b'.mHdr.mMFNL) := by
  have hcnt : aFstBMP + n - 1 + 1 - aFstBMP = n := by omega
  let c := b.mHdr.mSlotCnt
  let map := addSlotsToMap b.mMap c aFstBMP (aFstBMP + n - 1) aFull
  have hold : ∀ i < c, map i = b.mMap i := by
    intro i hi
    show (if c ≤ i ∧ aFstBMP + (i - c) ≤ aFstBMP + n - 1 then _ else _) = _
    rw [if_neg (by omega)]
  have hnew : ∀ i < n, map (c + i) = ⟨aFstBMP + i, if i < aFull then .FUL else .FMT⟩ := by
    intro i hi
    show (if c ≤ c + i ∧ aFstBMP + (c + i - c) ≤ aFstBMP + n - 1 then _ else _) = _
    rw [if_pos (by omega), Nat.add_sub_cancel_left]
  -- the full slots come first, then the formatted ones
  have hful : Counts (Function.update b.mHdr.mMFNLTbl .FUL (b.mHdr.mMFNLTbl .FUL + aFull))
      (fun i => (map i).mMFNL) (c + aFull) := by
    refine hc.counts.append (fun i hi => by rw [hold i hi]; rfl) (fun i h1 h2 => ?_)
    have hi : i = c + (i - c) := by omega
    rw [hi, hnew (i - c) (by omega), if_pos (by omega)]
  have hfmt := @Counts.append _ _ _ _ (fun i => (map i).mMFNL) _ hful .FMT (n - aFull)
    (fun _ _ => rfl) (fun i h1 h2 => by
      have hi : i = c + (i - c) := by omega
      rw [hi, hnew (i - c) (by omega), if_neg (by omega)])
  rw [show c + aFull + (n - aFull) = c + n by omega] at hfmt
  unfold addSlots
  rw [hcnt]
  dsimp only
  split
  · rename_i hbad
    have hzero := calcMFNL_eq_ful hbad (show MFNL.FMT ≠ .FUL by decide)
    rw [Function.update_self, Function.update_of_ne (by decide)] at hzero
    refine Or.inl ⟨rfl, by omega, fun a ha => ?_⟩
    by_cases hf : a = .FMT
    · rw [hf]
      omega
    · have hother := calcMFNL_eq_ful hbad ha
      rwa [Function.update_of_ne hf, Function.update_of_ne ha] at hother
  · rename_i hgood
    refine Or.inr ⟨_, _, rfl, ⟨rfl, rfl, rfl, rfl, hold, hnew, ⟨?_, hfmt⟩, calcMFNL_top _, hgood⟩, rfl⟩
    show c + n + (b.mHdr.mFreeSlotCnt - n) = b.mHdr.mMaxSlotCnt
    have hslots := hc.slots
    omega

/-! ## §4. Leaf pages. -/

/-- The level of the page `i` of a leaf page. -/
def LfBMPPage.pageLevel (l : LfBMPPage) (i : Nat) : MFNL := pbsLevel (l.mMap.mPBSTbl i)

/-- The end of the range slots: `addPageRangeSlot` appends there. -/
def LfBMPPage.rangeEnd (l : LfBMPPage) : Nat :=
  if l.mBMPHdr.mSlotCnt = 0 then 0
  else (l.mMap.mRangeSlot (l.mBMPHdr.mSlotCnt - 1)).mFstPBSNo +
    (l.mMap.mRangeSlot (l.mBMPHdr.mSlotCnt - 1)).mLength

/-- A leaf page whose counters are a recount of its pages.  Behind them the bit set
    table is still zero. -/
structure LfBMPPage.Ok (l : LfBMPPage) : Prop where
  counted : Counted l.mBMPHdr l.pageLevel l.mTotPageCnt
  valid : ∀ i < l.mTotPageCnt, ∃ m, convertPBSToMFNL (l.mMap.mPBSTbl i) = .ok m
  rangeEnd : l.rangeEnd = l.mTotPageCnt
  tail : ∀ i, l.mTotPageCnt ≤ i → l.mMap.mPBSTbl i = 0x00#8
  inRange : l.mTotPageCnt ≤ l.mPageRange

/-- A leaf page after a range of `n` pages, the first `aMeta` of them meta pages, was added. -/
structure RangeAdded (l l' : LfBMPPage) (aFstPID n aMeta : Nat) : Prop where
  parent : l'.mBMPHdr.mParentInfo = l.mBMPHdr.mParentInfo
  max : l'.mBMPHdr.mMaxSlotCnt = l.mBMPHdr.mMaxSlotCnt
  slotCnt : l'.mBMPHdr.mSlotCnt = l.mBMPHdr.mSlotCnt + 1
  pageRange : l'.mPageRange = l.mPageRange
  old : ∀ i < l.mBMPHdr.mSlotCnt, l'.mMap.mRangeSlot i = l.mMap.mRangeSlot i
  newFst : (l'.mMap.mRangeSlot l.mBMPHdr.mSlotCnt).mFstPID = aFstPID
  newLen : (l'.mMap.mRangeSlot l.mBMPHdr.mSlotCnt).mLength = n
  newPBSNo : (l'.mMap.mRangeSlot l.mBMPHdr.mSlotCnt).mFstPBSNo = l.mTotPageCnt
  oldPBS : ∀ i < l.mTotPageCnt, l'.mMap.mPBSTbl i = l.mMap.mPBSTbl i
  newPBS : ∀ i < n, l'.mMap.mPBSTbl (l.mTotPageCnt + i) = if i < aMeta then metaFulPBS else dataFmtPBS

/-- **`addPageRangeSlot`.** -/
theorem addPageRangeSlot_ok {l : LfBMPPage} (hl : l.Ok) (hslot : 0 < l.mBMPHdr.mFreeSlotCnt)
    {aFstPID n aMeta : Nat} (hmeta : aMeta ≤ n) (hfit : l.mTotPageCnt + n ≤ l.mPageRange)
    (aExtDirPID : Nat) (aSlotNoInExtDir : Int) :
    ∃ l' need, addPageRangeSlot l aFstPID n aMeta aExtDirPID aSlotNoInExtDir = (l', need) ∧
      l'.Ok ∧ RangeAdded l l' aFstPID n aMeta ∧ TopLevel l'.mBMPHdr.mMFNLTbl l'.mBMPHdr.mMFNL ∧
      need = decide (l.mBMPHdr.mMFNL ≠ l'.mBMPHdr.mMFNL) := by
  let t := l.mTotPageCnt
  let pbs0 := if aMeta > 0 then updatePBS l.mMap.mPBSTbl t metaFulPBS aMeta else l.mMap.mPBSTbl
  let pbs := updatePBS pbs0 (t + aMeta) dataFmtPBS (n - aMeta)
  have hdata : isDataPage 0x00#8 = true := by decide
  -- the meta pages of the range are FULL
  have hpbs0 : ∀ i, pbs0 i = if t ≤ i ∧ i < t + aMeta then metaFulPBS else l.mMap.mPBSTbl i := by
    intro i
    show (if aMeta > 0 then updatePBS l.mMap.mPBSTbl t metaFulPBS aMeta else l.mMap.mPBSTbl) i = _
    by_cases hm : aMeta > 0
    · rw [if_pos hm]
      unfold updatePBS
      by_cases hi : t ≤ i ∧ i < t + aMeta
      · rw [if_pos hi, if_pos ⟨hi.1, hi.2, by rw [hl.tail i hi.1]; exact hdata⟩]
      · rw [if_neg hi, if_neg (fun h => hi ⟨h.1, h.2.1⟩)]
    · rw [if_neg hm, if_neg (by omega)]
  -- the other pages of the range are data pages that are formatted
  have hpbs : ∀ i, pbs i = if t ≤ i ∧ i < t + aMeta then metaFulPBS
      else if t + aMeta ≤ i ∧ i < t + n then dataFmtPBS else l.mMap.mPBSTbl i := by
    intro i
    show (if t + aMeta ≤ i ∧ i < t + aMeta + (n - aMeta) ∧ isDataPage (pbs0 i) then dataFmtPBS
      else pbs0 i) = _
    by_cases h1 : t ≤ i ∧ i < t + aMeta
    · rw [if_neg (by omega), hpbs0 i, if_pos h1, if_pos h1]
    · rw [if_neg h1]
      have h0 : pbs0 i = l.mMap.mPBSTbl i := by rw [hpbs0 i, if_neg h1]
      by_cases h2 : t + aMeta ≤ i ∧ i < t + n
      · rw [if_pos h2, if_pos ⟨h2.1, by omega, by rw [h0, hl.tail i (by omega)]; exact hdata⟩]
      · rw [if_neg h2, if_neg (fun h => h2 ⟨h.1, by omega⟩), h0]
  have hold : ∀ i < t, pbs i = l.mMap.mPBSTbl i := by
    intro i hi
    rw [hpbs i, if_neg (by omega), if_neg (by omega)]
  have hnew : ∀ i < n, pbs (t + i) = if i < aMeta then metaFulPBS else dataFmtPBS := by
    intro i hi
    rw [hpbs (t + i)]
    by_cases him : i < aMeta
    · rw [if_pos (by omega), if_pos him]
    · rw [if_neg (by omega), if_pos (by omega), if_neg him]
  -- the table counts the meta pages, and then the data pages
  have hful : Counts (Function.update l.mBMPHdr.mMFNLTbl .FUL (l.mBMPHdr.mMFNLTbl .FUL + aMeta))
      (fun i => pbsLevel (pbs i)) (t + aMeta) := by
    refine hl.counted.counts.append (fun i hi => ?_) (fun i h1 h2 => ?_)
    · show pbsLevel (pbs i) = pbsLevel _
      rw [hold i hi]
    · rw [hpbs i, if_pos ⟨h1, h2⟩]
      decide
  have hfmt := @Counts.append _ _ _ _ (fun i => pbsLevel (pbs i)) _ hful .FMT (n - aMeta)
    (fun _ _ => rfl) (fun i h1 h2 => by
      rw [hpbs i, if_neg (by omega), if_pos (by omega)]
      decide)
  rw [show t + aMeta + (n - aMeta) = t + n by omega] at hfmt
  -- the range starts where the last one ends
  have hend : (if l.mBMPHdr.mSlotCnt = 0 then 0
      else (l.mMap.mRangeSlot (l.mBMPHdr.mSlotCnt - 1)).mFstPBSNo +
        (l.mMap.mRangeSlot (l.mBMPHdr.mSlotCnt - 1)).mLength) = t := hl.rangeEnd
  unfold addPageRangeSlot
  dsimp only
  rw [hend]
  refine ⟨_, _, rfl, ⟨⟨?_, hfmt⟩, ?_, ?_, ?_, hfit⟩, ⟨rfl, rfl, rfl, rfl, ?_, ?_, ?_, ?_, hold, hnew⟩,
    calcMFNL_top _, rfl⟩
  · have hslots := hl.counted.slots
    show l.mBMPHdr.mSlotCnt + 1 + (l.mBMPHdr.mFreeSlotCnt - 1) = l.mBMPHdr.mMaxSlotCnt
    omega
  · intro i hi
    have hi' : i < t + n := hi
    show ∃ m, convertPBSToMFNL (pbs i) = .ok m
    by_cases hit : i < t
    · rw [hold i hit]
      exact hl.valid i hit
    · rw [show i = t + (i - t) by omega, hnew (i - t) (by omega)]
      split
      · exact ⟨.FUL, by decide⟩
      · exact ⟨.FMT, by decide⟩
  · show (if l.mBMPHdr.mSlotCnt + 1 = 0 then 0 else
      (Function.update l.mMap.mRangeSlot l.mBMPHdr.mSlotCnt _ (l.mBMPHdr.mSlotCnt + 1 - 1)).mFstPBSNo +
      (Function.update l.mMap.mRangeSlot l.mBMPHdr.mSlotCnt _ (l.mBMPHdr.mSlotCnt + 1 - 1)).mLength) =
      t + n
    rw [if_neg (by omega), Nat.add_sub_cancel, Function.update_self]
  · intro i hi
    have hi' : t + n ≤ i := hi
    show pbs i = 0x00#8
    rw [hpbs i, if_neg (by omega), if_neg (by omega)]
    exact hl.tail i (by omega)
  · intro i hi
    exact Function.update_of_ne (by omega) _ _
  · show (Function.update l.mMap.mRangeSlot l.mBMPHdr.mSlotCnt _ l.mBMPHdr.mSlotCnt).mFstPID = _
    rw [Function.update_self]
  · show (Function.update l.mMap.mRangeSlot l.mBMPHdr.mSlotCnt _ l.mBMPHdr.mSlotCnt).mLength = _
    rw [Function.update_self]
  · show (Function.update l.mMap.mRangeSlot l.mBMPHdr.mSlotCnt _ l.mBMPHdr.mSlotCnt).mFstPBSNo = _
    rw [Function.update_self]

/-- A leaf page after the bit set of the page `i` was changed. -/
structure PBSChanged (l l' : LfBMPPage) (i : Nat) (aNewPBS : PBS) : Prop where
  lt : i < l.mTotPageCnt
  hdr : l'.mBMPHdr = { l.mBMPHdr with
    mMFNL := l'.mBMPHdr.mMFNL, mMFNLTbl := l'.mBMPHdr.mMFNLTbl }
  tot : l'.mTotPageCnt = l.mTotPageCnt
  pageRange : l'.mPageRange = l.mPageRange
  rangeSlot : l'.mMap.mRangeSlot = l.mMap.mRangeSlot
  pbs : l'.mMap.mPBSTbl = Function.update l.mMap.mPBSTbl i aNewPBS

/-- **`sdpstLfBMP::tryToChangeMFNL`.**  It can stop at an assertion about the two bit
    sets, never at the one about the counter. -/
theorem LfBMPPage.tryToChangeMFNL_spec {l : LfBMPPage} (hl : l.Ok) (i : Nat) (aNewPBS : PBS) :
    (∃ e, l.tryToChangeMFNL i aNewPBS = .error e ∧ e ≠ .mfnlTblTooSmall) ∨
    ∃ l' need, l.tryToChangeMFNL i aNewPBS = .ok (l', need) ∧ l'.Ok ∧ PBSChanged l l' i aNewPBS ∧
      TopLevel l'.mBMPHdr.mMFNLTbl l'.mBMPHdr.mMFNL ∧
      need = decide (l.mBMPHdr.mMFNL ≠ l'.mBMPHdr.mMFNL) := by
  unfold LfBMPPage.tryToChangeMFNL
  dsimp only
  by_cases hsame : l.mMap.mPBSTbl i = aNewPBS
  · exact Or.inl ⟨_, if_pos hsame, by decide⟩
  rw [if_neg hsame]
  by_cases hunf : isEqFN (l.mMap.mPBSTbl i) pageFnUnf = true
  · exact Or.inl ⟨_, if_pos hunf, by decide⟩
  rw [if_neg hunf]
  -- behind the pages of the leaf the table is zero, which is unformatted
  have hlt : i < l.mTotPageCnt := by
    by_contra hge
    exact hunf (by rw [hl.tail i (by omega)]; decide)
  by_cases hdata : isDataPage (l.mMap.mPBSTbl i) = true
  swap
  · exact Or.inl ⟨_, if_pos hdata, by decide⟩
  rw [if_neg (fun h => h hdata)]
  obtain ⟨old, hold⟩ := hl.valid i hlt
  rw [hold]
  dsimp only
  by_cases hnewd : isDataPage aNewPBS = true
  swap
  · exact Or.inl ⟨_, if_pos hnewd, by decide⟩
  rw [if_neg (fun h => h hnewd)]
  cases hnew : convertPBSToMFNL aNewPBS with
  | error e =>
      rw [convertPBSToMFNL_error hnew]
      exact Or.inl ⟨_, rfl, by decide⟩
  | ok new =>
      dsimp only
      obtain ⟨h', need, heq, hframe, hcnt, htop, hneed⟩ :=
        updateMFNLHdr_spec hl.counted hlt new
      have hlvl : l.pageLevel i = old := pbsLevel_of_convert hold
      rw [hlvl] at heq
      have hpbs : updatePBS l.mMap.mPBSTbl i aNewPBS 1 =
          Function.update l.mMap.mPBSTbl i aNewPBS := by
        funext j
        unfold updatePBS
        by_cases hj : j = i
        · subst hj
          rw [if_pos ⟨le_rfl, by omega, hdata⟩, Function.update_self]
        · rw [if_neg (fun h => hj (by omega)), Function.update_of_ne hj]
      rw [heq, hpbs]
      refine Or.inr ⟨_, need, rfl, ⟨⟨hcnt.slots, ?_⟩, ?_, ?_, ?_, hl.inRange⟩,
        ⟨hlt, hframe, rfl, rfl, rfl, rfl⟩, htop, hneed⟩
      · refine hcnt.counts.congr (fun j _ => ?_)
        show pbsLevel (Function.update l.mMap.mPBSTbl i aNewPBS j) =
          Function.update l.pageLevel i new j
        by_cases hj : j = i
        · subst hj
          rw [Function.update_self, Function.update_self]
          exact pbsLevel_of_convert hnew
        · rw [Function.update_of_ne hj, Function.update_of_ne hj]
          rfl
      · intro j hj
        show ∃ m, convertPBSToMFNL (Function.update l.mMap.mPBSTbl i aNewPBS j) = .ok m
        by_cases hji : j = i
        · subst hji
          rw [Function.update_self]
          exact ⟨new, hnew⟩
        · rw [Function.update_of_ne hji]
          exact hl.valid j hj
      · have hcntEq : h'.mSlotCnt = l.mBMPHdr.mSlotCnt := by rw [hframe]
        have hend := hl.rangeEnd
        unfold LfBMPPage.rangeEnd at hend ⊢
        dsimp only
        rw [hcntEq]
        exact hend
      · intro j hj
        show Function.update l.mMap.mPBSTbl i aNewPBS j = 0x00#8
        have hj' : l.mTotPageCnt ≤ j := hj
        rw [Function.update_of_ne (by omega)]
        exact hl.tail j hj'

end Altibase.Sdpst
