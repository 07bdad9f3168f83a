/-
  Altibase.Sdp.PhyPage
  ────────────────────
  **A SLOTTED DATA PAGE.**

  Slots are taken from the end of the free space downward; a freed slot gives its
  bytes back to the free space only if it is the lowest one, and leaves a hole
  otherwise.  When the free space is too short, `compactPage` moves all slots to
  the end of the page.  A slot below the minimum row piece size also reserves
  the rest of it in the two free sizes.

    * `compactPage_spec` — compaction moves the slots and keeps their bytes;
    * `phyPage_correct` — over all runs: slots are disjoint, keep their numbers
      and bytes, the free sizes are exact, and an allocation that
      `canAllocSlot` allows succeeds.
-/

import Altibase.Sdp.SlotDirectory
import Mathlib.Algebra.BigOperators.Group.Finset.Basic
import Mathlib.Algebra.BigOperators.Group.Finset.Piecewise
import Mathlib.Algebra.Order.BigOperators.Group.Finset
import Mathlib.Order.Interval.Finset.Nat

namespace Altibase.Sdp.PhyPage

open Altibase.Lib
open Altibase.Sdp.SlotDirectory

/-! ## §1. Allocation. -/

/-- `SDC_ROWHDR_SIZE` and `SDC_EXTRASIZE_FOR_CHAINING`. -/
def rowHdrSize : ℕ := 1 + 8 + 4 + 2 + 2 + 1 + 4 + 2 + 2 + 8
def extraSizeForChaining : ℕ := 4 + 2

/-- `sdcRow::getMinRowPieceSize`. -/
def getMinRowPieceSize : ℕ := rowHdrSize + extraSizeForChaining

/-- `idlOS::align`. -/
def align (aSize aAlign : ℕ) : ℕ := (aSize + aAlign - 1) / aAlign * aAlign

/-- The alignment of slots that rows are in. -/
def SDP_1BYTE_ALIGN_SIZE : ℕ := 1

/-- `sdpSlotDirectory::isExistUnusedSlotEntry`. -/
def isExistUnusedSlotEntry (p : PhyPage) : Bool := p.mHead ≠ SDP_INVALID_SLOT_ENTRY_NUM

/-- `sdpPhyPage::getNonFragFreeSize`: the free space between the directory and the slots. -/
def getNonFragFreeSize (p : PhyPage) : ℕ :=
  subUShort p.mFreeSpaceEndOffset p.mFreeSpaceBeginOffset

/-- What a data page needs for a new slot besides its size. -/
def extraSize4Data (p : PhyPage) (aSlotSize : ℕ) : ℕ :=
  (if isExistUnusedSlotEntry p then 0 else slotEntrySize)
    + (if aSlotSize < getMinRowPieceSize then getMinRowPieceSize - aSlotSize else 0)

/-- `sdpPhyPage::canAllocSlot`. -/
def canAllocSlot (p : PhyPage) (aSlotSize : ℕ) (aNeedAllocSlotEntry : Bool)
    (aSlotAlignValue : ℕ) : Bool :=
  if SD_PAGE_SIZE < aSlotSize then false
  else if p.mPageType = .data then
    let sExtraSize := if aNeedAllocSlotEntry then extraSize4Data p aSlotSize else 0
    align aSlotSize aSlotAlignValue + sExtraSize ≤ p.mAvailableFreeSize
  else
    let sExtraSize := if aNeedAllocSlotEntry then slotEntrySize else 0
    align aSlotSize aSlotAlignValue + sExtraSize ≤ getNonFragFreeSize p

/-- `sdpPhyPage::allocSlotSpace`: the page and the slot's offset. -/
def allocSlotSpace (p : PhyPage) (aSaveSize : ℕ) : Option (PhyPage × ℕ) :=
  if aSaveSize ≤ p.mFreeSpaceEndOffset ∧ aSaveSize ≤ p.mTotalFreeSize
      ∧ aSaveSize ≤ p.mAvailableFreeSize then
    let sSlotOffset := subUShort p.mFreeSpaceEndOffset aSaveSize
    some ({ p with
      mFreeSpaceEndOffset := sSlotOffset
      mTotalFreeSize := subUShort p.mTotalFreeSize aSaveSize
      mAvailableFreeSize := subUShort p.mAvailableFreeSize aSaveSize }, sSlotOffset)
  else none

section Compact

variable (L : PageLayout) (aGetSlotSizeFunc : ByteImage → ℕ → ℕ)

/-- `sdpSlotDirectory::getValue`: the offset of a slot in use. -/
def getValue (p : PhyPage) (aSlotNum : ℕ) : Option ℕ :=
  if aSlotNum < p.mSlotEntryCount ∧ validateSlot L p aSlotNum true = true then
    some (getOffset (entry L p aSlotNum))
  else none

/-- `setValue`; the compaction ignores its error. -/
def setValue (p : PhyPage) (aSlotNum aSlotOffset : ℕ) : PhyPage :=
  if aSlotNum < p.mSlotEntryCount ∧ validateSlot L p aSlotNum true = true then
    setEntry L p aSlotNum (setOffset (entry L p aSlotNum) aSlotOffset)
  else p

/-- `err_invalid_slotsize`: the slot does not fit below `sFreeSpaceEndOffset`, or
less space than `mTotalFreeSize` would remain. -/
def invalidSlotSize (p : PhyPage) (sFreeSpaceEndOffset sSlotSize : ℕ) : Bool :=
  (sFreeSpaceEndOffset : Int) - p.mFreeSpaceBeginOffset < sSlotSize
    || (sFreeSpaceEndOffset : Int) - sSlotSize - p.mFreeSpaceBeginOffset < p.mTotalFreeSize

/-- One used slot: its bytes move from the old image to the new offset. -/
def moveSlot (old : ByteImage) (p : PhyPage) (sSlotNum sOldSlotOffset sNewSlotOffset
    sSlotSize : ℕ) : PhyPage :=
  setValue L { p with image := copy p.image sNewSlotOffset old sOldSlotOffset sSlotSize }
    sSlotNum sNewSlotOffset

/-- The loop of `compactPage` with `k` entries left: whether it ends without an
error, the page under construction and `sFreeSpaceEndOffset`. -/
def compactLoop (old : ByteImage) : ℕ → ℕ → PhyPage → ℕ → Bool × PhyPage × ℕ
  | 0, _, p, sFreeSpaceEndOffset => (true, p, sFreeSpaceEndOffset)
  | k + 1, sSlotNum, p, sFreeSpaceEndOffset =>
      if isUnusedSlotEntry (entry L p sSlotNum) then
        if p.mPageType = .data then
          compactLoop old k (sSlotNum + 1) p sFreeSpaceEndOffset
        else (false, p, sFreeSpaceEndOffset)
      else
        match getValue L p sSlotNum with
        | none => (false, p, sFreeSpaceEndOffset)
        | some sOldSlotOffset =>
            let sSlotSize := aGetSlotSizeFunc old sOldSlotOffset
            if invalidSlotSize p sFreeSpaceEndOffset sSlotSize then
              (false, p, sFreeSpaceEndOffset)
            else
              let sNewSlotOffset := subUShort sFreeSpaceEndOffset sSlotSize
              compactLoop old k (sSlotNum + 1)
                (moveSlot L old p sSlotNum sOldSlotOffset sNewSlotOffset sSlotSize)
                sNewSlotOffset

/-- The headers come back with the old page image, which is copied over the page. -/
def restore (sOldPage p : PhyPage) : PhyPage :=
  { sOldPage with image := copy p.image 0 sOldPage.image 0 SD_PAGE_SIZE }

/-- `sdpPhyPage::compactPage`: whether it succeeds, and the page. -/
def compactPage (p : PhyPage) : Bool × PhyPage :=
  if p.mPageType = .other then (false, restore p p)
  else
    match compactLoop L aGetSlotSizeFunc p.image p.mSlotEntryCount 0 p L.footer with
    | (false, p', _) => (false, restore p p')
    | (true, p', sFreeSpaceEndOffset) =>
        if (sFreeSpaceEndOffset : Int) - p'.mFreeSpaceBeginOffset < p'.mTotalFreeSize then
          (false, restore p { p' with mFreeSpaceEndOffset := sFreeSpaceEndOffset })
        else (true, { p' with mFreeSpaceEndOffset := sFreeSpaceEndOffset })

/-- The page before slot space is taken: compacted if the free space is too
short. -/
def ensureSpace (p : PhyPage) (aSlotSize : ℕ) : Option PhyPage :=
  if getNonFragFreeSize p < aSlotSize + slotEntrySize then
    match compactPage L aGetSlotSizeFunc p with
    | (true, p') => some p'
    | (false, _) => none
  else some p

/-- The rest of the minimum row piece size, taken off the free sizes. -/
def reserve4Chaining (p : PhyPage) (aSlotSize : ℕ) : Option PhyPage :=
  if aSlotSize < getMinRowPieceSize then
    let sReserveSize4Chaining := getMinRowPieceSize - aSlotSize
    if sReserveSize4Chaining ≤ p.mAvailableFreeSize
        ∧ sReserveSize4Chaining ≤ p.mTotalFreeSize then
      some { p with
        mTotalFreeSize := subUShort p.mTotalFreeSize sReserveSize4Chaining
        mAvailableFreeSize := subUShort p.mAvailableFreeSize sReserveSize4Chaining }
    else none
  else some p

/-- `sdpPhyPage::allocSlot4SID`: the page, the slot number and its offset. -/
def allocSlot4SID (p : PhyPage) (aSlotSize : ℕ) : Option (PhyPage × ℕ × ℕ) :=
  if p.mPageType = .data ∧ canAllocSlot p aSlotSize true SDP_1BYTE_ALIGN_SIZE = true then
    match ensureSpace L aGetSlotSizeFunc p aSlotSize with
    | none => none
    | some p1 =>
        match allocSlotSpace p1 aSlotSize with
        | none => none
        | some (p2, sAllocSlotOffset) =>
            match alloc L p2 sAllocSlotOffset with
            | none => none
            | some (p3, sAllocSlotNum) =>
                match reserve4Chaining p3 aSlotSize with
                | none => none
                | some p4 => some (p4, sAllocSlotNum, sAllocSlotOffset)
  else none

/-- `sdpPhyPage::freeSlotSpace`. -/
def freeSlotSpace (p : PhyPage) (aSlotOffset aFreeSize : ℕ) : PhyPage :=
  { p with
    mFreeSpaceEndOffset :=
      if p.mFreeSpaceEndOffset = aSlotOffset then addUShort p.mFreeSpaceEndOffset aFreeSize
      else p.mFreeSpaceEndOffset
    mTotalFreeSize := addUShort p.mTotalFreeSize aFreeSize
    mAvailableFreeSize := addUShort p.mAvailableFreeSize aFreeSize }

/-- A short row gives the rest of the least row piece back as well. -/
def release4Chaining (p : PhyPage) (aSlotSize : ℕ) : PhyPage :=
  if aSlotSize < getMinRowPieceSize then
    let sReserveSize4Chaining := getMinRowPieceSize - aSlotSize
    { p with
      mTotalFreeSize := addUShort p.mTotalFreeSize sReserveSize4Chaining
      mAvailableFreeSize := addUShort p.mAvailableFreeSize sReserveSize4Chaining }
  else p

/-- `sdpPhyPage::freeSlot4SID` of the slot at `sSlotOffset`. -/
def freeSlot4SID (p : PhyPage) (sSlotOffset aSlotNum aSlotSize : ℕ) : Option PhyPage :=
  if p.mPageType = .data then
    match free L p aSlotNum with
    | none => none
    | some p' => some (release4Chaining (freeSlotSpace p' sSlotOffset aSlotSize) aSlotSize)
  else none

/-- Two pages agree on every header field and on every byte of the page. -/
def SamePage (p p' : PhyPage) : Prop :=
  p' = { p with image := p'.image } ∧ ∀ i < SD_PAGE_SIZE, p'.image i = p.image i

/-- The saved page is put back byte by byte. -/
theorem restore_same (sOldPage p : PhyPage) : SamePage sOldPage (restore sOldPage p) := by
  refine ⟨rfl, fun i hi => ?_⟩
  have hcopy : (restore sOldPage p).image i = sOldPage.image (0 + (i - 0)) :=
    copy_inside (by omega)
  rw [hcopy, Nat.zero_add, Nat.sub_zero]

/-- **A compaction that fails leaves the page as it was**, whatever the page and
the callback. -/
theorem compactPage_failure (p : PhyPage) (h : (compactPage L aGetSlotSizeFunc p).1 = false) :
    SamePage p (compactPage L aGetSlotSizeFunc p).2 := by
  revert h
  unfold compactPage
  split
  · exact fun _ => restore_same p p
  · split
    · exact fun _ => restore_same p _
    · split
      · exact fun _ => restore_same p _
      · exact fun h => Bool.noConfusion h

end Compact

/-! ## §2. The invariant. -/

section Invariant

/-- The bytes last written to each slot in use. -/
abbrev Store := ℕ → Option (List UInt8)

/-- How many bytes the slot `n` has. -/
def sizeOf (store : Store) (n : ℕ) : ℕ :=
  match store n with
  | none => 0
  | some c => c.length

/-- What a slot takes from the free sizes. -/
def slotReserve : Option (List UInt8) → ℕ
  | none => 0
  | some c => max c.length getMinRowPieceSize

/-- What the slot `n` takes from the free sizes. -/
def reserveOf (store : Store) (n : ℕ) : ℕ := slotReserve (store n)

/-- The offset that the directory has for the slot `n`. -/
def slotAt (L : PageLayout) (p : PhyPage) (n : ℕ) : ℕ := getOffset (entry L p n)

/-- **The page and what its slots hold.**  An empty slot takes no byte and may
lie anywhere. -/
structure PageInv (L : PageLayout) (p : PhyPage) (store : Store) : Prop where
  data : p.mPageType = .data
  wf : DirWF L p
  listed : UnusedListed L p
  used : ∀ n, (store n).isSome = true ↔
    n < p.mSlotEntryCount ∧ isUnusedSlotEntry (entry L p n) = false
  inPage : ∀ n c, store n = some c → slotAt L p n + c.length ≤ L.footer
  above : ∀ n c, store n = some c → c ≠ [] → p.mFreeSpaceEndOffset ≤ slotAt L p n
  content : ∀ n c, store n = some c → slice p.image (slotAt L p n) c.length = c
  apart : ∀ n m c d, n ≠ m → store n = some c → store m = some d → c ≠ [] → d ≠ [] →
    slotAt L p n + c.length ≤ slotAt L p m ∨ slotAt L p m + d.length ≤ slotAt L p n
  total : p.mTotalFreeSize + p.mFreeSpaceBeginOffset
    + ∑ n ∈ Finset.range p.mSlotEntryCount, reserveOf store n = L.footer
  avail : p.mAvailableFreeSize = p.mTotalFreeSize

variable {L : PageLayout} {p : PhyPage} {store : Store} {n m : ℕ} {c : List UInt8}

/-- The offsets in use, as the directory has them. -/
def offsetsOf (L : PageLayout) (p : PhyPage) (n : ℕ) : Option ℕ :=
  if n < p.mSlotEntryCount ∧ isUnusedSlotEntry (entry L p n) = false then some (slotAt L p n)
  else none

/-- The directory holds the offsets that are read from it. -/
theorem holds_offsetsOf : Holds L p (offsetsOf L p) := by
  intro n off
  unfold offsetsOf
  by_cases h : n < p.mSlotEntryCount ∧ isUnusedSlotEntry (entry L p n) = false
  · rw [if_pos h]
    simp [h, slotAt]
  · rw [if_neg h]
    constructor
    · intro hnone
      cases hnone
    · rintro ⟨h1, h2, -⟩
      exact absurd ⟨h1, h2⟩ h

/-- The page has a sound directory. -/
theorem PageInv.dir (h : PageInv L p store) : DirInv L p (offsetsOf L p) :=
  ⟨h.wf, h.listed, holds_offsetsOf⟩

/-- A slot with content has a used entry. -/
theorem PageInv.usedOf (h : PageInv L p store) (hc : store n = some c) :
    n < p.mSlotEntryCount ∧ isUnusedSlotEntry (entry L p n) = false :=
  (h.used n).mp (by rw [hc]; rfl)

/-- Its offset is the one in the entry. -/
theorem PageInv.offsetsOf_eq (h : PageInv L p store) (hc : store n = some c) :
    offsetsOf L p n = some (slotAt L p n) :=
  if_pos (h.usedOf hc)

/-- A number without a slot has no offset. -/
theorem PageInv.offsetsOf_none (h : PageInv L p store) :
    offsetsOf L p n = none ↔ store n = none := by
  unfold offsetsOf
  by_cases hn : n < p.mSlotEntryCount ∧ isUnusedSlotEntry (entry L p n) = false
  · have hsome := (h.used n).mpr hn
    rw [if_pos hn]
    constructor
    · intro hnone
      cases hnone
    · intro hnone
      rw [hnone] at hsome
      cases hsome
  · rw [if_neg hn]
    refine ⟨fun _ => ?_, fun _ => rfl⟩
    by_contra hne
    exact hn ((h.used n).mp (Option.isSome_iff_ne_none.mpr hne))

/-- An unused entry has no slot. -/
theorem PageInv.unusedOf (h : PageInv L p store) (hn : n < p.mSlotEntryCount) :
    isUnusedSlotEntry (entry L p n) = true ↔ store n = none := by
  rw [← h.offsetsOf_none]
  exact holds_offsetsOf.unused hn

theorem sizeOf_eq (hc : store n = some c) : sizeOf store n = c.length := by
  unfold sizeOf
  rw [hc]

theorem sizeOf_none (hc : store n = none) : sizeOf store n = 0 := by
  unfold sizeOf
  rw [hc]

/-- A slot takes at least its bytes. -/
theorem sizeOf_le_reserveOf (store : Store) (n : ℕ) : sizeOf store n ≤ reserveOf store n := by
  unfold sizeOf reserveOf
  cases store n with
  | none => exact Nat.le_refl _
  | some c => exact Nat.le_max_left _ _

/-- The slots, the directory and the free size fit into the page. -/
theorem PageInv.sizes_le (h : PageInv L p store) :
    p.mTotalFreeSize + p.mFreeSpaceBeginOffset
      + ∑ n ∈ Finset.range p.mSlotEntryCount, sizeOf store n ≤ L.footer := by
  have htotal := h.total
  have hle : ∑ n ∈ Finset.range p.mSlotEntryCount, sizeOf store n
      ≤ ∑ n ∈ Finset.range p.mSlotEntryCount, reserveOf store n :=
    Finset.sum_le_sum fun n _ => sizeOf_le_reserveOf store n
  omega

/-- More slots take no fewer bytes. -/
theorem sum_range_mono (f : ℕ → ℕ) {j k : ℕ} (h : j ≤ k) :
    ∑ n ∈ Finset.range j, f n ≤ ∑ n ∈ Finset.range k, f n :=
  Finset.sum_le_sum_of_subset (Finset.range_subset_range.mpr h)

theorem PageLayout.footer_lt (L : PageLayout) : L.footer < 8192 := L.inPage

end Invariant

/-! ## §3. Compaction. -/

section Compaction

variable {L : PageLayout} {p : PhyPage} {store : Store}
variable {aGetSlotSizeFunc : ByteImage → ℕ → ℕ}

/-- The size callback returns the size each slot was allocated with. -/
def CallbackFits (L : PageLayout) (aGetSlotSizeFunc : ByteImage → ℕ → ℕ) (p : PhyPage)
    (store : Store) : Prop :=
  ∀ n c, store n = some c → aGetSlotSizeFunc p.image (slotAt L p n) = c.length

/-- The page `q` under construction, after the first `n` entries. -/
structure Compacting (L : PageLayout) (p : PhyPage) (store : Store) (n : ℕ) (q : PhyPage)
    (fse : ℕ) : Prop where
  header : q = { p with image := q.image }
  later : ∀ m, n ≤ m → m < p.mSlotEntryCount → entry L q m = entry L p m
  unused : ∀ m < n, store m = none → entry L q m = entry L p m
  moved : ∀ m < n, ∀ c, store m = some c → isUnusedSlotEntry (entry L q m) = false
    ∧ slotAt L q m + ∑ j ∈ Finset.range (m + 1), sizeOf store j = L.footer
    ∧ slice q.image (slotAt L q m) c.length = c
  rest : fse + ∑ j ∈ Finset.range n, sizeOf store j = L.footer

/-- **One used slot moves**, below the slots that have moved and above the
directory. -/
theorem moveSlot_spec (h : PageInv L p store) {n : ℕ} {q : PhyPage} {fse : ℕ}
    (hq : Compacting L p store n q fse) (hn : n < p.mSlotEntryCount) {c : List UInt8}
    (hc : store n = some c) :
    invalidSlotSize q fse c.length = false
      ∧ Compacting L p store (n + 1)
          (moveSlot L p.image q n (slotAt L p n) (subUShort fse c.length) c.length)
          (subUShort fse c.length) := by
  have hsize := sizeOf_eq hc
  have hsum := sum_range_mono (sizeOf store) (Nat.succ_le_of_lt hn)
  have hle := h.sizes_le
  have hrest := hq.rest
  have hsucc := Finset.sum_range_succ (sizeOf store) n
  have hfooter := PageLayout.footer_lt L
  rw [Nat.succ_eq_add_one, hsucc, hsize] at hsum
  have hnew : subUShort fse c.length = fse - c.length := subUShort_eq (by omega) (by omega)
  have hbegin : q.mFreeSpaceBeginOffset = p.mFreeSpaceBeginOffset := by rw [hq.header]
  have htotal : q.mTotalFreeSize = p.mTotalFreeSize := by rw [hq.header]
  have hcount : q.mSlotEntryCount = p.mSlotEntryCount := by rw [hq.header]
  refine ⟨?_, ?_⟩
  · unfold invalidSlotSize
    rw [hbegin, htotal]
    simp only [Bool.or_eq_false_iff, decide_eq_false_iff_not]
    omega
  rw [hnew]
  -- the copy lies behind the directory
  generalize hq1 : ({ q with
    image := copy q.image (fse - c.length) p.image (slotAt L p n) c.length } : PhyPage) = q1
  have hpos : ∀ m < p.mSlotEntryCount, slotEntryPos L m + 2 ≤ fse - c.length := by
    intro m hm
    have := h.wf.pos_le (n := m + 1) (by omega)
    rw [slotEntryPos_succ] at this
    unfold slotEntrySize at this
    omega
  have hentry1 : ∀ m < p.mSlotEntryCount, entry L q1 m = entry L q m := by
    intro m hm
    rw [← hq1]
    exact readWord_copy_outside (Or.inl (hpos m hm))
  have hold : entry L q1 n = entry L p n := by
    rw [hentry1 n hn, hq.later n (Nat.le_refl n) hn]
  have hvalid : n < q1.mSlotEntryCount ∧ validateSlot L q1 n true = true := by
    refine ⟨by rw [← hq1]; exact hcount ▸ hn, ?_⟩
    unfold validateSlot
    rw [hold, (h.usedOf hc).2]
    rfl
  have hmove : moveSlot L p.image q n (slotAt L p n) (fse - c.length) c.length
      = setEntry L q1 n (setOffset (entry L q1 n) (fse - c.length)) := by
    unfold moveSlot setValue
    rw [hq1, if_pos hvalid]
  rw [hmove]
  have hself : entry L (setEntry L q1 n (setOffset (entry L q1 n) (fse - c.length))) n
      = setOffset (entry L q1 n) (fse - c.length) :=
    entry_setEntry (setOffset_lt (entry_lt q1 n) _)
  have hother : ∀ m < p.mSlotEntryCount, m ≠ n →
      entry L (setEntry L q1 n (setOffset (entry L q1 n) (fse - c.length))) m = entry L q m :=
    fun m hm hmn => (entry_setEntry_of_ne hmn).trans (hentry1 m hm)
  have hat : slotAt L (setEntry L q1 n (setOffset (entry L q1 n) (fse - c.length))) n
      = fse - c.length := by
    unfold slotAt
    rw [hself, getOffset_setOffset]
    exact Nat.mod_eq_of_lt (by omega)
  -- the directory's word is below the slots, the copy below those that have moved
  have hslice : ∀ o k, fse ≤ o → slice (setEntry L q1 n (setOffset (entry L q1 n)
      (fse - c.length))).image o k = slice q.image o k := by
    intro o k ho
    have hword : slice (setEntry L q1 n (setOffset (entry L q1 n) (fse - c.length))).image o k
        = slice q1.image o k :=
      slice_writeWord (Or.inr (by have := hpos n hn; omega))
    rw [hword, ← hq1]
    exact slice_copy_outside (Or.inr (by omega))
  refine ⟨?_, fun m hnm hm => ?_, fun m hm hnone => ?_, fun m hm d hd => ?_, ?_⟩
  · rw [← hq1, hq.header]
    rfl
  · rw [hother m hm (by omega)]
    exact hq.later m (by omega) hm
  · have hmn : m ≠ n := by
      rintro rfl
      rw [hc] at hnone
      cases hnone
    rw [hother m (by omega) hmn]
    exact hq.unused m (by omega) hnone
  · by_cases hmn : m = n
    · subst hmn
      rw [hc] at hd
      cases hd
      refine ⟨?_, ?_, ?_⟩
      · rw [hself, isUnused_setOffset, hold]
        exact (h.usedOf hc).2
      · rw [hat, hsucc, hsize]
        omega
      · rw [hat]
        have hword : slice (setEntry L q1 m (setOffset (entry L q1 m) (fse - c.length))).image
            (fse - c.length) c.length = slice q1.image (fse - c.length) c.length :=
          slice_writeWord (Or.inr (hpos m hn))
        rw [hword, ← hq1]
        exact slice_copy.trans (h.content m c hc)
    · obtain ⟨hused, hplace, hbytes⟩ := hq.moved m (by omega) d hd
      have hsame := hother m (by omega) hmn
      have hatm : slotAt L (setEntry L q1 n (setOffset (entry L q1 n) (fse - c.length))) m
          = slotAt L q m := by
        unfold slotAt
        rw [hsame]
      have hmono := sum_range_mono (sizeOf store) (show m + 1 ≤ n by omega)
      refine ⟨by rw [hsame]; exact hused, by rw [hatm]; exact hplace, ?_⟩
      rw [hatm, hslice _ _ (by omega)]
      exact hbytes
  · rw [hsucc, hsize]
    omega

/-- The loop, from a page after `n` entries to the whole directory. -/
theorem compactLoop_spec (h : PageInv L p store)
    (hfits : CallbackFits L aGetSlotSizeFunc p store) (k n : ℕ) (q : PhyPage) (fse : ℕ)
    (hk : n + k = p.mSlotEntryCount) (hq : Compacting L p store n q fse) :
    ∃ q' fse', compactLoop L aGetSlotSizeFunc p.image k n q fse = (true, q', fse')
      ∧ Compacting L p store p.mSlotEntryCount q' fse' := by
  induction k generalizing n q fse with
  | zero =>
    rw [Nat.add_zero] at hk
    rw [← hk]
    exact ⟨q, fse, rfl, hq⟩
  | succ k ih =>
    have hn : n < p.mSlotEntryCount := by omega
    have hentry := hq.later n (Nat.le_refl n) hn
    unfold compactLoop
    rw [hentry]
    cases hc : store n with
    | none =>
      -- an unused entry is passed over
      rw [if_pos ((h.unusedOf hn).mpr hc), if_pos (by rw [hq.header]; exact h.data)]
      apply ih (n + 1) q fse (by omega)
      refine ⟨hq.header, fun m hm => hq.later m (by omega), fun m hm hnone => ?_,
        fun m hm d hd => ?_, ?_⟩
      · by_cases hmn : m = n
        · rw [hmn]
          exact hentry
        · exact hq.unused m (by omega) hnone
      · refine hq.moved m ?_ d hd
        by_contra hge
        have hmn : m = n := by omega
        rw [hmn, hc] at hd
        cases hd
      · rw [Finset.sum_range_succ, sizeOf_none hc, Nat.add_zero]
        exact hq.rest
    | some c =>
      -- a slot in use is copied to the end of the space that is still free
      have hused := (h.usedOf hc).2
      have hvalue : getValue L q n = some (slotAt L p n) := by
        unfold getValue
        rw [if_pos]
        · unfold slotAt
          rw [hentry]
        · refine ⟨by rw [hq.header]; exact hn, ?_⟩
          unfold validateSlot
          rw [hentry, hused]
          rfl
      obtain ⟨hvalid, hnext⟩ := moveSlot_spec h hq hn hc
      rw [if_neg (by rw [hused]; simp), hvalue]
      dsimp only
      rw [hfits n c hc, if_neg (by rw [hvalid]; simp)]
      exact ih (n + 1) _ _ (by omega) hnext

/-- Before the first slot is moved. -/
theorem compacting_init (L : PageLayout) (p : PhyPage) (store : Store) :
    Compacting L p store 0 p L.footer :=
  ⟨rfl, fun _ _ _ => rfl, fun _ hm => absurd hm (Nat.not_lt_zero _),
    fun _ hm => absurd hm (Nat.not_lt_zero _), by simp⟩

/-- Slots that were moved one below the other are apart. -/
theorem Compacting.apart {q : PhyPage} {fse k n m : ℕ} (hq : Compacting L p store k q fse)
    (hnm : n < m) (hm : m < k) {c d : List UInt8} (hc : store n = some c) (hd : store m = some d) :
    slotAt L q m + d.length ≤ slotAt L q n := by
  have hn := (hq.moved n (by omega) c hc).2.1
  have hm' := (hq.moved m hm d hd).2.1
  have hmono := sum_range_mono (sizeOf store) (Nat.succ_le_of_lt hnm)
  rw [Nat.succ_eq_add_one] at hmono
  rw [Finset.sum_range_succ (sizeOf store) m, sizeOf_eq hd] at hm'
  omega

/-- The page after all entries is a page with the same slots. -/
theorem Compacting.pageInv (h : PageInv L p store) {q : PhyPage} {fse : ℕ}
    (hq : Compacting L p store p.mSlotEntryCount q fse) :
    PageInv L { q with mFreeSpaceEndOffset := fse } store := by
  have hle := h.sizes_le
  have hrest := hq.rest
  have hcount : q.mSlotEntryCount = p.mSlotEntryCount := by rw [hq.header]
  have hbegin : q.mFreeSpaceBeginOffset = p.mFreeSpaceBeginOffset := by rw [hq.header]
  have htotal : q.mTotalFreeSize = p.mTotalFreeSize := by rw [hq.header]
  have havail : q.mAvailableFreeSize = p.mAvailableFreeSize := by rw [hq.header]
  have hhead : q.mHead = p.mHead := by rw [hq.header]
  -- the flags of the entries are as before
  have hflag : ∀ n < p.mSlotEntryCount,
      isUnusedSlotEntry (entry L q n) = isUnusedSlotEntry (entry L p n) := by
    intro n hn
    cases hc : store n with
    | none => rw [hq.unused n hn hc]
    | some c => rw [(hq.moved n hn c hc).1, (h.usedOf hc).2]
  have hmoved : ∀ n c, store n = some c →
      slotAt L q n + ∑ j ∈ Finset.range (n + 1), sizeOf store j = L.footer
        ∧ slice q.image (slotAt L q n) c.length = c ∧ n < p.mSlotEntryCount :=
    fun n c hc => ⟨(hq.moved n (h.usedOf hc).1 c hc).2.1, (hq.moved n (h.usedOf hc).1 c hc).2.2,
      (h.usedOf hc).1⟩
  constructor
  · -- the type
    show q.mPageType = .data
    rw [hq.header]
    exact h.data
  · -- the sizes
    constructor
    · -- the directory ends where the free space begins
      show q.mFreeSpaceBeginOffset = slotEntryPos L q.mSlotEntryCount
      rw [hbegin, hcount]
      exact h.wf.begin_eq
    · -- the free space does not begin behind its end
      show q.mFreeSpaceBeginOffset ≤ fse
      omega
    · -- it ends on the page
      show fse ≤ L.footer
      omega
    · -- the total free size
      show q.mFreeSpaceBeginOffset + q.mTotalFreeSize ≤ L.footer
      rw [hbegin, htotal]
      exact h.wf.total_le
    · -- the available free size
      show q.mAvailableFreeSize ≤ q.mTotalFreeSize
      rw [havail, htotal]
      exact h.wf.avail_le
  · -- the list of the unused entries
    obtain ⟨l, hlink, hnodup, hmem⟩ := h.listed
    refine ⟨l, ?_, hnodup, fun n => ?_⟩
    · show LinkedFrom (nextUnused L q) q.mHead l
      rw [hhead]
      apply hlink.congr
      intro n hn
      obtain ⟨hlt, hunused⟩ := (hmem n).mp hn
      unfold nextUnused
      rw [hq.unused n hlt ((h.unusedOf hlt).mp hunused)]
    · show n ∈ l ↔ n < q.mSlotEntryCount ∧ isUnusedSlotEntry (entry L q n) = true
      rw [hmem n, hcount]
      constructor
      · rintro ⟨hlt, hunused⟩
        exact ⟨hlt, by rw [hflag n hlt]; exact hunused⟩
      · rintro ⟨hlt, hunused⟩
        exact ⟨hlt, by rw [← hflag n hlt]; exact hunused⟩
  · -- which slots are in use
    intro n
    show _ ↔ n < q.mSlotEntryCount ∧ isUnusedSlotEntry (entry L q n) = false
    rw [h.used n, hcount]
    constructor
    · rintro ⟨hlt, hused⟩
      exact ⟨hlt, by rw [hflag n hlt]; exact hused⟩
    · rintro ⟨hlt, hused⟩
      exact ⟨hlt, by rw [← hflag n hlt]; exact hused⟩
  · -- the slots end on the page
    intro n c hc
    show slotAt L q n + c.length ≤ L.footer
    have hplace := (hmoved n c hc).1
    rw [Finset.sum_range_succ, sizeOf_eq hc] at hplace
    omega
  · -- the slots are behind the free space
    intro n c hc _
    show fse ≤ slotAt L q n
    obtain ⟨hplace, -, hlt⟩ := hmoved n c hc
    have hmono := sum_range_mono (sizeOf store) (Nat.succ_le_of_lt hlt)
    rw [Nat.succ_eq_add_one] at hmono
    omega
  · exact fun n c hc => (hmoved n c hc).2.1
  · -- no two slots overlap
    intro n m c d hne hc hd _ _
    rcases Nat.lt_or_gt_of_ne hne with hlt | hgt
    · exact Or.inr (hq.apart hlt (hmoved m d hd).2.2 hc hd)
    · exact Or.inl (hq.apart hgt (hmoved n c hc).2.2 hd hc)
  · -- the total free size
    show q.mTotalFreeSize + q.mFreeSpaceBeginOffset
      + ∑ n ∈ Finset.range q.mSlotEntryCount, reserveOf store n = L.footer
    rw [htotal, hbegin, hcount]
    exact h.total
  · -- the available free size
    show q.mAvailableFreeSize = q.mTotalFreeSize
    rw [havail, htotal]
    exact h.avail

/-- **Compaction succeeds**: the slots lie one below the other at the page's end,
with their bytes, and the free space has the total free size. -/
theorem compactPage_spec (h : PageInv L p store)
    (hfits : CallbackFits L aGetSlotSizeFunc p store) :
    ∃ p', compactPage L aGetSlotSizeFunc p = (true, p') ∧ PageInv L p' store
      ∧ p'.mFreeSpaceBeginOffset = p.mFreeSpaceBeginOffset
      ∧ p'.mTotalFreeSize = p.mTotalFreeSize ∧ p'.mHead = p.mHead
      ∧ p'.mFreeSpaceBeginOffset + p'.mTotalFreeSize ≤ p'.mFreeSpaceEndOffset := by
  obtain ⟨q, fse, hloop, hq⟩ := compactLoop_spec h hfits p.mSlotEntryCount 0 p L.footer
    (Nat.zero_add _) (compacting_init L p store)
  have hle := h.sizes_le
  have hrest := hq.rest
  have hbegin : q.mFreeSpaceBeginOffset = p.mFreeSpaceBeginOffset := by rw [hq.header]
  have htotal : q.mTotalFreeSize = p.mTotalFreeSize := by rw [hq.header]
  have hpage : compactPage L aGetSlotSizeFunc p
      = (true, { q with mFreeSpaceEndOffset := fse }) := by
    unfold compactPage
    rw [if_neg (by rw [h.data]; simp), hloop]
    dsimp only
    rw [if_neg (by omega)]
  refine ⟨_, hpage, hq.pageInv h, hbegin, htotal, ?_, ?_⟩
  · show q.mHead = p.mHead
    rw [hq.header]
  · show q.mFreeSpaceBeginOffset + q.mTotalFreeSize ≤ fse
    omega

end Compaction

/-! ## §4. Allocation and release. -/

section Slots

variable {L : PageLayout} {p : PhyPage} {store : Store} {n : ℕ}
variable {aGetSlotSizeFunc : ByteImage → ℕ → ℕ}

/-- What `canAllocSlot` promises on a data page. -/
theorem canAllocSlot_iff (h : p.mPageType = .data) (aSlotSize : ℕ) :
    canAllocSlot p aSlotSize true SDP_1BYTE_ALIGN_SIZE = true ↔
      aSlotSize ≤ SD_PAGE_SIZE
        ∧ aSlotSize + extraSize4Data p aSlotSize ≤ p.mAvailableFreeSize := by
  unfold canAllocSlot align SDP_1BYTE_ALIGN_SIZE
  by_cases hsize : SD_PAGE_SIZE < aSlotSize
  · rw [if_pos hsize]
    constructor
    · intro hfalse
      cases hfalse
    · intro hle
      omega
  · rw [if_neg hsize, if_pos h]
    simp only [if_true, decide_eq_true_eq]
    omega

/-- **There is room for the slot**, after a compaction if need be. -/
theorem ensureSpace_spec (h : PageInv L p store)
    (hfits : CallbackFits L aGetSlotSizeFunc p store) {aSlotSize : ℕ}
    (hcan : canAllocSlot p aSlotSize true SDP_1BYTE_ALIGN_SIZE = true) :
    ∃ p', ensureSpace L aGetSlotSizeFunc p aSlotSize = some p' ∧ PageInv L p' store
      ∧ p'.mFreeSpaceBeginOffset = p.mFreeSpaceBeginOffset
      ∧ p'.mTotalFreeSize = p.mTotalFreeSize ∧ p'.mHead = p.mHead
      ∧ p'.mFreeSpaceBeginOffset + aSlotSize
          + (if p.mHead = SDP_INVALID_SLOT_ENTRY_NUM then slotEntrySize else 0)
        ≤ p'.mFreeSpaceEndOffset := by
  have hroom := ((canAllocSlot_iff h.data aSlotSize).mp hcan).2
  have havail := h.avail
  have hbegin := h.wf.begin_le
  have hend := h.wf.end_le
  have hfooter := PageLayout.footer_lt L
  have hfree : getNonFragFreeSize p = p.mFreeSpaceEndOffset - p.mFreeSpaceBeginOffset :=
    subUShort_eq hbegin (by omega)
  unfold ensureSpace
  rw [hfree]
  by_cases hshort : p.mFreeSpaceEndOffset - p.mFreeSpaceBeginOffset < aSlotSize + slotEntrySize
  · obtain ⟨p', hpage, hinv, hb, ht, hhead, hfit⟩ := compactPage_spec h hfits
    rw [if_pos hshort, hpage]
    refine ⟨p', rfl, hinv, hb, ht, hhead, ?_⟩
    unfold extraSize4Data isExistUnusedSlotEntry at hroom
    by_cases hinvalid : p.mHead = SDP_INVALID_SLOT_ENTRY_NUM
    · simp only [hinvalid, ne_eq, not_true_eq_false, decide_false, Bool.false_eq_true,
        if_false, if_true] at hroom ⊢
      omega
    · simp only [hinvalid, if_false] at hroom ⊢
      omega
  · rw [if_neg hshort]
    refine ⟨p, rfl, h, rfl, rfl, rfl, ?_⟩
    split <;> omega

/-- The sum of the reserves when one slot changes. -/
theorem sum_reserve_update (store : Store) {n k : ℕ} (hn : n < k) (v : Option (List UInt8)) :
    ∑ m ∈ Finset.range k, reserveOf (Function.update store n v) m + slotReserve (store n)
      = ∑ m ∈ Finset.range k, reserveOf store m + slotReserve v := by
  have hmem : n ∈ Finset.range k := Finset.mem_range.mpr hn
  have hupdate : reserveOf (Function.update store n v)
      = Function.update (reserveOf store) n (slotReserve v) := by
    funext m
    unfold reserveOf
    by_cases hmn : m = n
    · rw [hmn, Function.update_self, Function.update_self]
    · rw [Function.update_of_ne hmn, Function.update_of_ne hmn]
  have hsplit := Finset.sum_eq_add_sum_sdiff_singleton_of_mem hmem (reserveOf store)
  rw [hupdate, Finset.sum_update_of_mem hmem, hsplit]
  unfold reserveOf
  omega

/-- Numbers beyond the directory reserve nothing. -/
theorem sum_reserve_extend (h : PageInv L p store) {k : ℕ} (hk : p.mSlotEntryCount ≤ k) :
    ∑ m ∈ Finset.range k, reserveOf store m
      = ∑ m ∈ Finset.range p.mSlotEntryCount, reserveOf store m := by
  symm
  apply Finset.sum_subset (Finset.range_subset_range.mpr hk)
  intro m _ hm
  rw [Finset.mem_range] at hm
  have hnone : store m = none := by
    by_contra hne
    exact hm ((h.used m).mp (Option.isSome_iff_ne_none.mpr hne)).1
  unfold reserveOf
  rw [hnone]
  rfl

/-- The reserve of a short row, where the sizes cover it. -/
theorem reserve4Chaining_eq {aSlotSize : ℕ}
    (ha : getMinRowPieceSize - aSlotSize ≤ p.mAvailableFreeSize)
    (ht : getMinRowPieceSize - aSlotSize ≤ p.mTotalFreeSize)
    (hlt : p.mAvailableFreeSize < 8192 ∧ p.mTotalFreeSize < 8192) :
    reserve4Chaining p aSlotSize = some { p with
      mTotalFreeSize := p.mTotalFreeSize - (getMinRowPieceSize - aSlotSize)
      mAvailableFreeSize := p.mAvailableFreeSize - (getMinRowPieceSize - aSlotSize) } := by
  unfold reserve4Chaining
  by_cases hsize : aSlotSize < getMinRowPieceSize
  · rw [if_pos hsize]
    dsimp only
    rw [if_pos ⟨ha, ht⟩, subUShort_eq ht (by omega), subUShort_eq ha (by omega)]
  · have hzero : getMinRowPieceSize - aSlotSize = 0 := by omega
    rw [if_neg hsize, hzero, Nat.sub_zero, Nat.sub_zero]

/-- It is given back, where the sizes do not wrap. -/
theorem release4Chaining_eq {aSlotSize : ℕ}
    (ha : p.mAvailableFreeSize + (getMinRowPieceSize - aSlotSize) < 65536)
    (ht : p.mTotalFreeSize + (getMinRowPieceSize - aSlotSize) < 65536) :
    release4Chaining p aSlotSize = { p with
      mTotalFreeSize := p.mTotalFreeSize + (getMinRowPieceSize - aSlotSize)
      mAvailableFreeSize := p.mAvailableFreeSize + (getMinRowPieceSize - aSlotSize) } := by
  unfold release4Chaining
  by_cases hsize : aSlotSize < getMinRowPieceSize
  · rw [if_pos hsize]
    dsimp only
    rw [addUShort_eq ht, addUShort_eq ha]
  · have hzero : getMinRowPieceSize - aSlotSize = 0 := by omega
    rw [if_neg hsize, hzero, Nat.add_zero, Nat.add_zero]

/-- A slot's bytes lie behind the free space, or there are none. -/
theorem PageInv.slice_congr (h : PageInv L p store) {c : List UInt8} (hc : store n = some c)
    {img : ByteImage} (himg : ∀ i, p.mFreeSpaceEndOffset ≤ i → img i = p.image i) :
    slice img (slotAt L p n) c.length = c := by
  by_cases hnil : c = []
  · rw [hnil]
    rfl
  · have habove := h.above n c hc hnil
    have hsame : slice img (slotAt L p n) c.length = slice p.image (slotAt L p n) c.length :=
      Lib.slice_congr fun i _ => himg _ (by omega)
    rw [hsame]
    exact h.content n c hc

/-- The offset and the slot of a number after `alloc`. -/
theorem slotAt_of_holds {p' : PhyPage} {held : ℕ → Option ℕ} (h : Holds L p' held) {off : ℕ}
    (hn : held n = some off) :
    n < p'.mSlotEntryCount ∧ isUnusedSlotEntry (entry L p' n) = false ∧ slotAt L p' n = off :=
  (h n off).mp hn

/-- **The page with one more slot**, below all others. -/
theorem PageInv.insert (h : PageInv L p store) {p3 p4 : PhyPage} {off aSlotSize : ℕ}
    (hnone : store n = none) (hend : off + aSlotSize = p.mFreeSpaceEndOffset)
    (hend4 : p4.mFreeSpaceEndOffset = off) (hdata : p4.mPageType = .data)
    (himage : p4.image = p3.image) (hcount4 : p4.mSlotEntryCount = p3.mSlotEntryCount)
    (hcount : p.mSlotEntryCount ≤ p3.mSlotEntryCount)
    (hdir : DirInv L p3 (Function.update (offsetsOf L p) n (some off)))
    (hbytes : ∀ i, p.mFreeSpaceEndOffset ≤ i → p3.image i = p.image i)
    (hwf : DirWF L p4) (hhead : p4.mHead = p3.mHead)
    (htotal : p4.mTotalFreeSize + p4.mFreeSpaceBeginOffset + max aSlotSize getMinRowPieceSize
      = p.mTotalFreeSize + p.mFreeSpaceBeginOffset)
    (havail : p4.mAvailableFreeSize = p4.mTotalFreeSize) :
    slotAt L p4 n = off
      ∧ PageInv L p4 (Function.update store n (some (slice p4.image off aSlotSize))) := by
  have hentry : ∀ m, entry L p4 m = entry L p3 m := fun m => entry_congr himage
  have hat : ∀ m, slotAt L p4 m = slotAt L p3 m := fun m => by
    unfold slotAt
    rw [hentry m]
  have hnew := slotAt_of_holds hdir.holds (n := n) (Function.update_self _ _ _)
  have hatn : slotAt L p4 n = off := (hat n).trans hnew.2.2
  -- the other slots are where they were
  have hold : ∀ m c, m ≠ n → store m = some c → slotAt L p4 m = slotAt L p m := by
    intro m c hmn hc
    rw [hat m]
    exact (slotAt_of_holds hdir.holds (n := m)
      ((Function.update_of_ne hmn _ _).trans (h.offsetsOf_eq hc))).2.2
  have hfooter := h.wf.end_le
  refine ⟨hatn, hdata, hwf, ?_, fun m => ?_, fun m c hc => ?_, fun m c hc hne => ?_,
    fun m c hc => ?_, fun m k c d hmk hc hd hcne hdne => ?_, ?_, havail⟩
  · obtain ⟨l, hlink, hnodup, hmem⟩ := hdir.listed
    refine ⟨l, ?_, hnodup, fun m => by rw [hmem m, hcount4, hentry m]⟩
    rw [hhead]
    exact hlink.congr fun m _ => by unfold nextUnused; rw [hentry m]
  · rw [hcount4, hentry m, ← hdir.holds.isSome m]
    by_cases hmn : m = n
    · rw [hmn, Function.update_self, Function.update_self]
      simp
    · rw [Function.update_of_ne hmn, Function.update_of_ne hmn, h.used m,
        holds_offsetsOf.isSome m]
  · by_cases hmn : m = n
    · rw [hmn, Function.update_self] at hc
      cases hc
      rw [hmn, hatn, slice_length]
      omega
    · rw [Function.update_of_ne hmn] at hc
      rw [hold m c hmn hc]
      exact h.inPage m c hc
  · rw [hend4]
    by_cases hmn : m = n
    · rw [hmn, hatn]
    · rw [Function.update_of_ne hmn] at hc
      rw [hold m c hmn hc]
      have := h.above m c hc hne
      omega
  · by_cases hmn : m = n
    · rw [hmn, Function.update_self] at hc
      cases hc
      rw [hmn, hatn, slice_length]
    · rw [Function.update_of_ne hmn] at hc
      rw [hold m c hmn hc, himage]
      exact h.slice_congr hc hbytes
  · by_cases hmn : m = n
    · have hkn : k ≠ n := fun heq => hmk (hmn.trans heq.symm)
      rw [hmn, Function.update_self] at hc
      rw [Function.update_of_ne hkn] at hd
      cases hc
      left
      rw [hmn, hatn, hold k d hkn hd, slice_length]
      have := h.above k d hd hdne
      omega
    · rw [Function.update_of_ne hmn] at hc
      rw [hold m c hmn hc]
      by_cases hkn : k = n
      · rw [hkn, Function.update_self] at hd
        cases hd
        right
        rw [hkn, hatn, slice_length]
        have := h.above m c hc hcne
        omega
      · rw [Function.update_of_ne hkn] at hd
        rw [hold k d hkn hd]
        exact h.apart m k c d hmk hc hd hcne hdne
  · have hupdate := sum_reserve_update store hnew.1 (some (slice p4.image off aSlotSize))
    have hextend := sum_reserve_extend h hcount
    have hsum := h.total
    rw [hnone] at hupdate
    simp only [slotReserve, slice_length] at hupdate
    rw [hcount4]
    omega

/-- What the directory, the slot and the reserved bytes take is taken once. -/
theorem insert_sizes {t b t' b' s m : ℕ} {grow : Int} (hb : (b' : Int) - b = grow)
    (ht : ((t - s : ℕ) : Int) - t' = grow) (hs : s ≤ t) (hm : m - s ≤ t') :
    t' - (m - s) + b' + max s m = t + b := by
  have hmax : max s m = s + (m - s) := by
    rw [max_comm, Nat.add_comm, Nat.sub_add_eq_max]
  rw [hmax]
  omega

/-- **An allocation that `canAllocSlot` allows succeeds**, with a number that is
not in use. -/
theorem allocSlot4SID_spec (h : PageInv L p store)
    (hfits : CallbackFits L aGetSlotSizeFunc p store) {aSlotSize : ℕ}
    (hcan : canAllocSlot p aSlotSize true SDP_1BYTE_ALIGN_SIZE = true) :
    ∃ p' n off, allocSlot4SID L aGetSlotSizeFunc p aSlotSize = some (p', n, off)
      ∧ store n = none ∧ slotAt L p' n = off
      ∧ PageInv L p' (Function.update store n (some (slice p'.image off aSlotSize))) := by
  obtain ⟨p1, hensure, h1, hb1, ht1, hhead1, hfit⟩ := ensureSpace_spec h hfits hcan
  have hroom := ((canAllocSlot_iff h.data aSlotSize).mp hcan).2
  have ha := h.avail
  have ha1 := h1.avail
  have hend1 := h1.wf.end_le
  have hle1 := h1.wf.total_le
  have hfooter := PageLayout.footer_lt L
  have hextra : (if p.mHead = SDP_INVALID_SLOT_ENTRY_NUM then slotEntrySize else 0)
      + (getMinRowPieceSize - aSlotSize) ≤ extraSize4Data p aSlotSize := by
    unfold extraSize4Data isExistUnusedSlotEntry
    by_cases hinvalid : p.mHead = SDP_INVALID_SLOT_ENTRY_NUM
    · simp only [hinvalid, ne_eq, not_true_eq_false, decide_false, Bool.false_eq_true, if_false,
        if_true]
      split <;> omega
    · simp only [hinvalid, ne_eq, not_false_eq_true, decide_true, if_false, if_true]
      split <;> omega
  have hsize : aSlotSize ≤ p1.mTotalFreeSize := by omega
  have hinside : aSlotSize ≤ p1.mFreeSpaceEndOffset := by omega
  -- slot space
  have hspace : allocSlotSpace p1 aSlotSize = some (changeSpace p1
      (p1.mFreeSpaceEndOffset - aSlotSize) (p1.mTotalFreeSize - aSlotSize)
      (p1.mAvailableFreeSize - aSlotSize) p1.image, p1.mFreeSpaceEndOffset - aSlotSize) := by
    unfold allocSlotSpace
    rw [if_pos ⟨by omega, by omega, by omega⟩, subUShort_eq (by omega) (by omega),
      subUShort_eq (by omega) (by omega), subUShort_eq (by omega) (by omega)]
    rfl
  have hdir2 : DirInv L (changeSpace p1 (p1.mFreeSpaceEndOffset - aSlotSize)
      (p1.mTotalFreeSize - aSlotSize) (p1.mAvailableFreeSize - aSlotSize) p1.image)
      (offsetsOf L p1) :=
    changeSpace_dir h1.dir (by omega) (by omega) (by omega) (by omega) fun _ _ => rfl
  generalize hp2 : changeSpace p1 (p1.mFreeSpaceEndOffset - aSlotSize)
    (p1.mTotalFreeSize - aSlotSize) (p1.mAvailableFreeSize - aSlotSize) p1.image = p2
    at hspace hdir2
  have hhead2 : p2.mHead = p.mHead := by
    rw [← hp2]
    exact hhead1
  have hbegin2 : p2.mFreeSpaceBeginOffset = p1.mFreeSpaceBeginOffset := by
    rw [← hp2]
    rfl
  have hend2 : p2.mFreeSpaceEndOffset = p1.mFreeSpaceEndOffset - aSlotSize := by
    rw [← hp2]
    rfl
  have htotal2 : p2.mTotalFreeSize = p1.mTotalFreeSize - aSlotSize := by
    rw [← hp2]
    rfl
  have havail2 : p2.mAvailableFreeSize = p1.mAvailableFreeSize - aSlotSize := by
    rw [← hp2]
    rfl
  have hcount2 : p2.mSlotEntryCount = p1.mSlotEntryCount := by
    rw [← hp2]
    rfl
  have himage2 : p2.image = p1.image := by
    rw [← hp2]
    rfl
  have htype2 : p2.mPageType = p1.mPageType := by
    rw [← hp2]
    rfl
  -- the directory's entry
  have hroom2 : p2.mHead = SDP_INVALID_SLOT_ENTRY_NUM → RoomForEntry p2 := by
    intro hinvalid
    rw [hhead2] at hinvalid
    rw [if_pos hinvalid] at hextra hfit
    exact ⟨by omega, by omega⟩
  obtain ⟨p3, n, halloc, hheld, hsizes, hcount, hcount', honly, hdir3⟩ :=
    alloc_dir hdir2 hroom2 (show p1.mFreeSpaceEndOffset - aSlotSize < 0x8000 by omega)
  have hnone : store n = none := h1.offsetsOf_none.mp hheld
  rw [hhead2] at hcount'
  obtain ⟨hsb, hst, hsa⟩ := hsizes
  -- what the entry took fits into the extra size
  have hgrow : slotEntrySize * (p3.mSlotEntryCount - p2.mSlotEntryCount)
      ≤ (if p.mHead = SDP_INVALID_SLOT_ENTRY_NUM then slotEntrySize else 0) := by
    unfold slotEntrySize
    by_cases hinvalid : p.mHead = SDP_INVALID_SLOT_ENTRY_NUM
    · rw [if_pos hinvalid] at hcount' ⊢
      omega
    · rw [if_neg hinvalid] at hcount' ⊢
      omega
  unfold slotEntrySize at hsb hst hsa hgrow hfit hextra
  have hwf3 := hdir3.wf
  have hbegin3 := hwf3.begin_le
  have hend3 := honly.endOffset
  have ha3 := hwf3.sizes_lt
  have hbelow : p3.mFreeSpaceBeginOffset ≤ p1.mFreeSpaceEndOffset := by
    rw [hend3, hend2] at hbegin3
    exact hbegin3.trans (Nat.sub_le _ _)
  have hsame : p3.mAvailableFreeSize = p3.mTotalFreeSize := by omega
  have hneed : getMinRowPieceSize - aSlotSize ≤ p3.mTotalFreeSize
      ∧ getMinRowPieceSize - aSlotSize ≤ p3.mAvailableFreeSize := by
    rw [hsame, and_self]
    omega
  have hreserve : reserve4Chaining p3 aSlotSize = some _ :=
    reserve4Chaining_eq hneed.2 hneed.1 ⟨ha3.2.2, ha3.2.1⟩
  generalize hp4 : ({ p3 with
    mTotalFreeSize := p3.mTotalFreeSize - (getMinRowPieceSize - aSlotSize)
    mAvailableFreeSize := p3.mAvailableFreeSize - (getMinRowPieceSize - aSlotSize) } : PhyPage)
    = p4 at hreserve
  have hend4 : p4.mFreeSpaceEndOffset = p1.mFreeSpaceEndOffset - aSlotSize := by
    rw [← hp4]
    exact hend3.trans hend2
  have htotal4 : p4.mTotalFreeSize = p3.mTotalFreeSize - (getMinRowPieceSize - aSlotSize) := by
    rw [← hp4]
  have havail4 : p4.mAvailableFreeSize
      = p3.mAvailableFreeSize - (getMinRowPieceSize - aSlotSize) := by
    rw [← hp4]
  have hbegin4 : p4.mFreeSpaceBeginOffset = p3.mFreeSpaceBeginOffset := by
    rw [← hp4]
  have hwf4 : DirWF L p4 := by
    rw [← hp4]
    refine ⟨hwf3.begin_eq, hwf3.begin_le, hwf3.end_le, ?_, ?_⟩
    · exact (Nat.add_le_add_left (Nat.sub_le _ _) _).trans hwf3.total_le
    · exact Nat.sub_le_sub_right hwf3.avail_le _
  have htotal : p4.mTotalFreeSize + p4.mFreeSpaceBeginOffset + max aSlotSize getMinRowPieceSize
      = p1.mTotalFreeSize + p1.mFreeSpaceBeginOffset := by
    rw [htotal4, hbegin4]
    rw [hbegin2] at hsb
    rw [htotal2] at hst
    exact insert_sizes hsb hst hsize hneed.1
  have havail4' : p4.mAvailableFreeSize = p4.mTotalFreeSize := by
    rw [htotal4, havail4, hsame]
  have hresult : allocSlot4SID L aGetSlotSizeFunc p aSlotSize
      = some (p4, n, p1.mFreeSpaceEndOffset - aSlotSize) := by
    unfold allocSlot4SID
    rw [if_pos ⟨h.data, hcan⟩, hensure]
    dsimp only
    rw [hspace]
    dsimp only
    rw [halloc]
    dsimp only
    rw [hreserve]
  have hinsert : slotAt L p4 n = p1.mFreeSpaceEndOffset - aSlotSize ∧ PageInv L p4
      (Function.update store n (some (slice p4.image (p1.mFreeSpaceEndOffset - aSlotSize)
        aSlotSize))) := h1.insert hnone
    (Nat.sub_add_cancel hinside) hend4
    (by rw [← hp4]; exact honly.pageType.trans (htype2.trans h1.data))
    (by rw [← hp4]) (by rw [← hp4]) (hcount2 ▸ hcount) hdir3
    (fun i hi => by rw [honly.bytes i (hbelow.trans hi), himage2]) hwf4
    (by rw [← hp4]) htotal havail4'
  exact ⟨p4, n, _, hresult, hnone, hinsert⟩

/-- The free space after a slot is given back: it grows if the slot was the
lowest. -/
def endAfterFree (p : PhyPage) (aSlotOffset aFreeSize : ℕ) : ℕ :=
  if p.mFreeSpaceEndOffset = aSlotOffset then p.mFreeSpaceEndOffset + aFreeSize
  else p.mFreeSpaceEndOffset

/-- The free space grows up to the footer at most. -/
theorem endAfterFree_le (h : PageInv L p store) {c : List UInt8} (hc : store n = some c) :
    p.mFreeSpaceEndOffset ≤ endAfterFree p (slotAt L p n) c.length
      ∧ endAfterFree p (slotAt L p n) c.length ≤ L.footer := by
  have hin := h.inPage n c hc
  have hend := h.wf.end_le
  unfold endAfterFree
  split <;> omega

/-- The other slots stay behind the free space. -/
theorem endAfterFree_above (h : PageInv L p store) {c d : List UInt8} {m : ℕ}
    (hc : store n = some c) (hd : store m = some d) (hmn : m ≠ n) (hne : d ≠ []) :
    endAfterFree p (slotAt L p n) c.length ≤ slotAt L p m := by
  have habove := h.above m d hd hne
  unfold endAfterFree
  by_cases hlow : p.mFreeSpaceEndOffset = slotAt L p n
  · rw [if_pos hlow]
    by_cases hnil : c = []
    · rw [hnil]
      exact habove
    · have hlen := List.length_pos_iff.mpr hne
      rcases h.apart n m c d (Ne.symm hmn) hc hd hnil hne with hbelow | hbelow
      · omega
      · omega
  · rw [if_neg hlow]
    exact habove

/-- The space of a slot is given back, where the sizes do not wrap. -/
theorem freeSlotSpace_eq {aSlotOffset aFreeSize : ℕ}
    (he : p.mFreeSpaceEndOffset + aFreeSize < 65536) (ht : p.mTotalFreeSize + aFreeSize < 65536)
    (ha : p.mAvailableFreeSize + aFreeSize < 65536) :
    freeSlotSpace p aSlotOffset aFreeSize
      = changeSpace p (endAfterFree p aSlotOffset aFreeSize) (p.mTotalFreeSize + aFreeSize)
          (p.mAvailableFreeSize + aFreeSize) p.image := by
  unfold freeSlotSpace changeSpace endAfterFree
  rw [addUShort_eq he, addUShort_eq ht, addUShort_eq ha]

/-- **`freeSlot4SID` of a slot in use succeeds** and leaves the others alone. -/
theorem freeSlot4SID_spec (h : PageInv L p store) {c : List UInt8} (hc : store n = some c) :
    ∃ p', freeSlot4SID L p (slotAt L p n) n c.length = some p'
      ∧ PageInv L p' (Function.update store n none) := by
  -- the entry goes on the list of unused entries; the sizes of the page do not change yet
  obtain ⟨p1, hfree, hsizes, hcount, honly, hdir⟩ := free_dir h.dir (n := n)
    (fun hnone => by rw [h.offsetsOf_eq hc] at hnone; cases hnone)
  obtain ⟨hsb, hst, hsa⟩ := hsizes
  unfold slotEntrySize at hsb hst hsa
  have hlt := (h.usedOf hc).1
  have hin := h.inPage n c hc
  have hfooter := PageLayout.footer_lt L
  have havail := h.avail
  have htotal := h.total
  have hreserve : max c.length getMinRowPieceSize
      ≤ ∑ m ∈ Finset.range p.mSlotEntryCount, reserveOf store m := by
    have hle := Finset.single_le_sum (f := reserveOf store) (fun m _ => Nat.zero_le _)
      (Finset.mem_range.mpr hlt)
    unfold reserveOf at hle
    rw [hc] at hle
    exact hle
  have hbegin : p1.mFreeSpaceBeginOffset = p.mFreeSpaceBeginOffset := by omega
  have ht1 : p1.mTotalFreeSize = p.mTotalFreeSize := by omega
  have ha1 : p1.mAvailableFreeSize = p.mAvailableFreeSize := by omega
  have he1 := honly.endOffset
  have hle := endAfterFree_le h hc
  have hend := h.wf.end_le
  have hbe := h.wf.begin_le
  -- freeing the entry does not move the end of the free space
  have hsame : endAfterFree p1 (slotAt L p n) c.length
      = endAfterFree p (slotAt L p n) c.length := by
    unfold endAfterFree
    rw [he1]
  -- no size wraps: the freed bytes were part of the reserves
  have hspace : freeSlotSpace p1 (slotAt L p n) c.length = _ :=
    freeSlotSpace_eq (by omega) (by omega) (by omega)
  rw [hsame] at hspace
  have hrelease : release4Chaining (changeSpace p1 (endAfterFree p (slotAt L p n) c.length)
      (p1.mTotalFreeSize + c.length) (p1.mAvailableFreeSize + c.length) p1.image) c.length = _ :=
    release4Chaining_eq (by show p1.mAvailableFreeSize + c.length + _ < _; omega)
    (by show p1.mTotalFreeSize + c.length + _ < _; omega)
  -- the run of the code
  have hresult : freeSlot4SID L p (slotAt L p n) n c.length = some (changeSpace p1
      (endAfterFree p (slotAt L p n) c.length)
      (p1.mTotalFreeSize + c.length + (getMinRowPieceSize - c.length))
      (p1.mAvailableFreeSize + c.length + (getMinRowPieceSize - c.length)) p1.image) := by
    unfold freeSlot4SID
    rw [if_pos h.data, hfree]
    dsimp only
    rw [hspace, hrelease]
    rfl
  -- the reserves lose what the slot had
  have hsum := sum_reserve_update store hlt none
  rw [hc] at hsum
  simp only [slotReserve] at hsum
  have hdir' : DirInv L (changeSpace p1 (endAfterFree p (slotAt L p n) c.length)
      (p1.mTotalFreeSize + c.length + (getMinRowPieceSize - c.length))
      (p1.mAvailableFreeSize + c.length + (getMinRowPieceSize - c.length)) p1.image) _ :=
    changeSpace_dir hdir
    (show p1.mFreeSpaceBeginOffset ≤ endAfterFree p (slotAt L p n) c.length by omega) hle.2
    (show p1.mFreeSpaceBeginOffset
      + (p1.mTotalFreeSize + c.length + (getMinRowPieceSize - c.length)) ≤ L.footer by omega)
    (show p1.mAvailableFreeSize + c.length + (getMinRowPieceSize - c.length)
      ≤ p1.mTotalFreeSize + c.length + (getMinRowPieceSize - c.length) by omega)
    fun _ _ => rfl
  refine ⟨_, hresult, ?_⟩
  generalize hp' : changeSpace p1 (endAfterFree p (slotAt L p n) c.length)
    (p1.mTotalFreeSize + c.length + (getMinRowPieceSize - c.length))
    (p1.mAvailableFreeSize + c.length + (getMinRowPieceSize - c.length)) p1.image = p' at hdir'
  have hend' : p'.mFreeSpaceEndOffset = endAfterFree p (slotAt L p n) c.length := by
    rw [← hp']
    rfl
  have himage : p'.image = p1.image := by
    rw [← hp']
    rfl
  have hcount' : p'.mSlotEntryCount = p.mSlotEntryCount := by
    rw [← hcount, ← hp']
    rfl
  -- the other slots keep their places
  have hold : ∀ m d, m ≠ n → store m = some d → slotAt L p' m = slotAt L p m := by
    intro m d hmn hd
    exact (slotAt_of_holds hdir'.holds (n := m)
      ((Function.update_of_ne hmn _ _).trans (h.offsetsOf_eq hd))).2.2
  have hsub : ∀ m d, Function.update store n none m = some d → m ≠ n ∧ store m = some d := by
    intro m d hd
    by_cases hmn : m = n
    · rw [hmn, Function.update_self] at hd
      cases hd
    · rw [Function.update_of_ne hmn] at hd
      exact ⟨hmn, hd⟩
  constructor
  · -- the type
    rw [← hp']
    exact honly.pageType.trans h.data
  · exact hdir'.wf
  · exact hdir'.listed
  · -- which slots are in use
    intro m
    rw [← hdir'.holds.isSome m]
    by_cases hmn : m = n
    · rw [hmn, Function.update_self, Function.update_self]
      simp
    · rw [Function.update_of_ne hmn, Function.update_of_ne hmn, h.used m,
        holds_offsetsOf.isSome m]
  · -- the slots end on the page
    intro m d hd
    obtain ⟨hmn, hd⟩ := hsub m d hd
    rw [hold m d hmn hd]
    exact h.inPage m d hd
  · -- a slot above the free space stays above it
    intro m d hd hne
    obtain ⟨hmn, hd⟩ := hsub m d hd
    rw [hold m d hmn hd, hend']
    exact endAfterFree_above h hc hd hmn hne
  · -- what the slots hold
    intro m d hd
    obtain ⟨hmn, hd⟩ := hsub m d hd
    rw [hold m d hmn hd, himage]
    exact h.slice_congr hd fun i hi => honly.bytes i (by omega)
  · -- no two slots overlap
    intro m k d e hmk hd he hdne hene
    obtain ⟨hmn, hd⟩ := hsub m d hd
    obtain ⟨hkn, he⟩ := hsub k e he
    rw [hold m d hmn hd, hold k e hkn he]
    exact h.apart m k d e hmk hd he hdne hene
  · -- the total free size
    rw [hcount', ← hp']
    show p1.mTotalFreeSize + c.length + (getMinRowPieceSize - c.length)
      + p1.mFreeSpaceBeginOffset + _ = _
    omega
  · -- the available free size
    rw [← hp']
    show p1.mAvailableFreeSize + c.length + _ = p1.mTotalFreeSize + c.length + _
    omega

/-- **Writing a slot** changes only its own bytes. -/
theorem writeSlot_spec (h : PageInv L p store) {c bs : List UInt8} (hc : store n = some c)
    (hlen : bs.length = c.length) :
    PageInv L { p with image := writeBytes p.image (slotAt L p n) bs }
      (Function.update store n (some bs)) := by
  have hsum := sum_reserve_update store (h.usedOf hc).1 (some bs)
  rw [hc] at hsum
  simp only [slotReserve, hlen] at hsum
  -- the written bytes lie behind the directory
  have hentry : ∀ m < p.mSlotEntryCount,
      entry L { p with image := writeBytes p.image (slotAt L p n) bs } m = entry L p m := by
    intro m hm
    by_cases hnil : c = []
    · have hbs : bs = [] := List.length_eq_zero_iff.mp (by rw [hlen, hnil]; rfl)
      have himage : writeBytes p.image (slotAt L p n) bs = p.image := by
        funext i
        exact writeBytes_outside (by rw [hbs]; simp only [List.length_nil]; omega)
      exact entry_congr himage
    · have habove := h.above n c hc hnil
      have hbegin := h.wf.begin_le
      have hpos := h.wf.pos_le (n := m + 1) (by omega)
      rw [slotEntryPos_succ] at hpos
      unfold slotEntrySize at hpos
      apply readWord_congr
      · exact writeBytes_outside (by omega)
      · exact writeBytes_outside (by omega)
  have hat : ∀ m d, store m = some d →
      slotAt L { p with image := writeBytes p.image (slotAt L p n) bs } m = slotAt L p m := by
    intro m d hd
    exact congrArg getOffset (hentry m (h.usedOf hd).1)
  -- slots keep their sizes
  have hlens : ∀ m d, Function.update store n (some bs) m = some d →
      ∃ d', store m = some d' ∧ d'.length = d.length := by
    intro m d hd
    by_cases hmn : m = n
    · rw [hmn, Function.update_self] at hd
      cases hd
      exact ⟨c, by rw [hmn]; exact hc, hlen.symm⟩
    · rw [Function.update_of_ne hmn] at hd
      exact ⟨d, hd, rfl⟩
  have hne : ∀ {d d' : List UInt8}, d'.length = d.length → d ≠ [] → d' ≠ [] := by
    intro d d' hdd hd hd'
    rw [hd'] at hdd
    exact hd (List.length_eq_zero_iff.mp hdd.symm)
  constructor
  · exact h.data
  · exact h.wf.of_image _
  · -- the list of the unused entries
    obtain ⟨l, hlink, hnodup, hmem⟩ := h.listed
    refine ⟨l, ?_, hnodup, fun m => ?_⟩
    · apply hlink.congr
      intro m hm
      unfold nextUnused
      rw [hentry m ((hmem m).mp hm).1]
    · rw [hmem m]
      constructor
      · rintro ⟨hm, hunused⟩
        exact ⟨hm, by rw [hentry m hm]; exact hunused⟩
      · rintro ⟨hm, hunused⟩
        exact ⟨hm, by rw [← hentry m hm]; exact hunused⟩
  · -- which slots are in use
    intro m
    have hsome : (Function.update store n (some bs) m).isSome = (store m).isSome := by
      by_cases hmn : m = n
      · rw [hmn, Function.update_self, hc]
        rfl
      · rw [Function.update_of_ne hmn]
    rw [hsome, h.used m]
    constructor
    · rintro ⟨hm, hused⟩
      exact ⟨hm, by rw [hentry m hm]; exact hused⟩
    · rintro ⟨hm, hused⟩
      exact ⟨hm, by rw [← hentry m hm]; exact hused⟩
  · -- the slots end on the page
    intro m d hd
    obtain ⟨d', hd', hdd⟩ := hlens m d hd
    rw [hat m d' hd', ← hdd]
    exact h.inPage m d' hd'
  · -- the slots are behind the free space
    intro m d hd hdne
    obtain ⟨d', hd', hdd⟩ := hlens m d hd
    rw [hat m d' hd']
    exact h.above m d' hd' (hne hdd hdne)
  · -- what the slots hold
    intro m d hd
    by_cases hmn : m = n
    · rw [hmn, Function.update_self] at hd
      cases hd
      rw [hmn, hat n c hc]
      exact slice_writeBytes bs
    · rw [Function.update_of_ne hmn] at hd
      rw [hat m d hd]
      by_cases hdnil : d = []
      · rw [hdnil]
        rfl
      by_cases hcnil : c = []
      · have hbs : bs.length = 0 := by rw [hlen, hcnil]; rfl
        exact (Lib.slice_congr fun i _ => writeBytes_outside (by omega)).trans (h.content m d hd)
      · have happ := h.apart m n d c hmn hd hc hdnil hcnil
        exact (slice_writeBytes_outside (by omega)).trans (h.content m d hd)
  · -- no two slots overlap
    intro m k d e hmk hd he hdne hene
    obtain ⟨d', hd', hdd⟩ := hlens m d hd
    obtain ⟨e', he', hee⟩ := hlens k e he
    rw [hat m d' hd', hat k e' he', ← hdd, ← hee]
    exact h.apart m k d' e' hmk hd' he' (hne hdd hdne) (hne hee hene)
  · -- the total free size
    have htotal := h.total
    show p.mTotalFreeSize + p.mFreeSpaceBeginOffset
      + ∑ m ∈ Finset.range p.mSlotEntryCount, _ = _
    omega
  · exact h.avail

end Slots

/-! ## §5. The holes. -/

section Holes

variable {L : PageLayout} {p : PhyPage} {store : Store}

/-- The bytes of a slot in use. -/
def slotBytes (L : PageLayout) (p : PhyPage) (store : Store) (n : ℕ) : Finset ℕ :=
  Finset.Ico (slotAt L p n) (slotAt L p n + sizeOf store n)

/-- The bytes of all slots in use. -/
def usedBytes (L : PageLayout) (p : PhyPage) (store : Store) : Finset ℕ :=
  (Finset.range p.mSlotEntryCount).biUnion (slotBytes L p store)

/-- **The holes**: the bytes behind the free space that belong to no slot. -/
def holes (L : PageLayout) (p : PhyPage) (store : Store) : ℕ :=
  (Finset.Ico p.mFreeSpaceEndOffset L.footer \ usedBytes L p store).card

/-- The slots have no more bytes than their sizes say. -/
theorem usedBytes_card_le (L : PageLayout) (p : PhyPage) (store : Store) :
    (usedBytes L p store).card ≤ ∑ n ∈ Finset.range p.mSlotEntryCount, sizeOf store n := by
  have hunion : (usedBytes L p store).card
      ≤ ∑ n ∈ Finset.range p.mSlotEntryCount, (slotBytes L p store n).card :=
    Finset.card_biUnion_le
  have hsize : ∀ n, (slotBytes L p store n).card = sizeOf store n := by
    intro n
    unfold slotBytes
    rw [Nat.card_Ico]
    omega
  simp only [hsize] at hunion
  exact hunion

/-- **The total free size is there**, in the free space and in the holes. -/
theorem PageInv.total_le_holes (h : PageInv L p store) :
    p.mTotalFreeSize ≤ p.mFreeSpaceEndOffset - p.mFreeSpaceBeginOffset + holes L p store := by
  have hused := usedBytes_card_le L p store
  have hsizes := h.sizes_le
  have hbegin := h.wf.begin_le
  have hend := h.wf.end_le
  have hsplit : (Finset.Ico p.mFreeSpaceEndOffset L.footer).card - (usedBytes L p store).card
      ≤ holes L p store := Finset.le_card_sdiff _ _
  rw [Nat.card_Ico] at hsplit
  omega

end Holes

/-! ## §6. Runs. -/

section Runs

variable {L : PageLayout} {aGetSlotSizeFunc : ByteImage → ℕ → ℕ}

/-- The calls of the slot operations, and the writes of their callers. -/
inductive PageAction where
  | allocSlot4SID (aSlotSize : ℕ)
  | freeSlot4SID (aSlotNum : ℕ)
  | write (aSlotNum : ℕ) (bs : List UInt8)

/-- A page, and what was last written to each slot in use. -/
structure PageState where
  page : PhyPage
  store : Store

/-- A new slot holds what its bytes were; a slot is freed with its size and
written as a whole. -/
def pageStep (L : PageLayout) (aGetSlotSizeFunc : ByteImage → ℕ → ℕ) (s : PageState) :
    PageAction → Option PageState
  | .allocSlot4SID aSlotSize =>
      match allocSlot4SID L aGetSlotSizeFunc s.page aSlotSize with
      | none => none
      | some (p, n, off) =>
          some ⟨p, Function.update s.store n (some (slice p.image off aSlotSize))⟩
  | .freeSlot4SID aSlotNum =>
      match s.store aSlotNum with
      | none => none
      | some c =>
          match freeSlot4SID L s.page (slotAt L s.page aSlotNum) aSlotNum c.length with
          | none => none
          | some p => some ⟨p, Function.update s.store aSlotNum none⟩
  | .write aSlotNum bs =>
      match s.store aSlotNum with
      | none => none
      | some c =>
          if bs.length = c.length then
            some ⟨{ s.page with
              image := writeBytes s.page.image (slotAt L s.page aSlotNum) bs },
              Function.update s.store aSlotNum (some bs)⟩
          else none

/-- Runs from an empty page. -/
def pageSystem (L : PageLayout) (aGetSlotSizeFunc : ByteImage → ℕ → ℕ) (p0 : PhyPage) :
    System PageState PageAction where
  init := ⟨init p0, fun _ => none⟩
  step := pageStep L aGetSlotSizeFunc

/-- An allocation is asked for when `canAllocSlot` allows it, and the callback
knows the sizes. -/
def PageRespects (L : PageLayout) (aGetSlotSizeFunc : ByteImage → ℕ → ℕ) (s : PageState) :
    PageAction → Prop
  | .allocSlot4SID aSlotSize => canAllocSlot s.page aSlotSize true SDP_1BYTE_ALIGN_SIZE = true
      ∧ CallbackFits L aGetSlotSizeFunc s.page s.store
  | .freeSlot4SID _ => True
  | .write _ _ => True

/-- The headers of a data page whose whole room is free. -/
structure EmptyDataPage (L : PageLayout) (p : PhyPage) : Prop extends HeadersOnly L p where
  data : p.mPageType = .data
  total_eq : p.mTotalFreeSize + p.mFreeSpaceBeginOffset = L.footer
  avail_eq : p.mAvailableFreeSize = p.mTotalFreeSize

/-- A new directory has no slot. -/
theorem init_pageInv {p0 : PhyPage} (h : EmptyDataPage L p0) :
    PageInv L (init p0) fun _ => none := by
  have hdir := (init_shiftInv h.toHeadersOnly).reuse
  have heq := init_eq h.toHeadersOnly
  have hcount : (init p0).mSlotEntryCount = 0 := by rw [heq]
  have htotal : (init p0).mTotalFreeSize = p0.mTotalFreeSize - slotDirHdrSize := by rw [heq]
  have havail : (init p0).mAvailableFreeSize = p0.mAvailableFreeSize - slotDirHdrSize := by
    rw [heq]
  have hbegin : (init p0).mFreeSpaceBeginOffset
      = p0.mFreeSpaceBeginOffset + slotDirHdrSize := by rw [heq]
  constructor
  · -- the type
    rw [heq]
    exact h.data
  · exact hdir.wf
  · exact hdir.listed
  · -- which slots are in use
    intro n
    rw [hcount]
    simp
  · -- the slots end on the page
    intro n c hc
    cases hc
  · -- the slots are behind the free space
    intro n c hc
    cases hc
  · -- what the slots hold
    intro n c hc
    cases hc
  · -- no two slots overlap
    intro n m c d _ hc
    cases hc
  · -- the total free size
    have hge := h.avail_ge
    have hle := h.avail_le
    have heq' := h.total_eq
    rw [hcount, htotal, hbegin, Finset.range_zero, Finset.sum_empty]
    omega
  · rw [htotal, havail, h.avail_eq]

/-- **One step keeps the page's invariant.** -/
theorem pageStep_inv {s s' : PageState} {act : PageAction} (h : PageInv L s.page s.store)
    (hok : PageRespects L aGetSlotSizeFunc s act)
    (hst : pageStep L aGetSlotSizeFunc s act = some s') : PageInv L s'.page s'.store := by
  cases act with
  | allocSlot4SID aSlotSize =>
    obtain ⟨p', n, off, halloc, -, -, hinv⟩ := allocSlot4SID_spec h hok.2 hok.1
    simp only [pageStep, halloc] at hst
    cases hst
    exact hinv
  | freeSlot4SID aSlotNum =>
    cases hc : s.store aSlotNum with
    | none =>
      simp only [pageStep, hc] at hst
      cases hst
    | some c =>
      obtain ⟨p', hfree, hinv⟩ := freeSlot4SID_spec h hc
      simp only [pageStep, hc, hfree] at hst
      cases hst
      exact hinv
  | write aSlotNum bs =>
    cases hc : s.store aSlotNum with
    | none =>
      simp only [pageStep, hc] at hst
      cases hst
    | some c =>
      by_cases hlen : bs.length = c.length
      · simp only [pageStep, hc, hlen, if_true] at hst
        cases hst
        exact writeSlot_spec h hc hlen
      · simp only [pageStep, hc, hlen, if_false] at hst
        cases hst

/-- **The page keeps its invariant** in every run. -/
theorem page_reachable {p0 : PhyPage} (h0 : EmptyDataPage L p0) {s : PageState}
    (hs : (pageSystem L aGetSlotSizeFunc p0).ReachableBy (PageRespects L aGetSlotSizeFunc) s) :
    PageInv L s.page s.store :=
  System.Path.invariant (I := fun s : PageState => PageInv L s.page s.store) hs
    (fun _ _ _ hinv hok hst => pageStep_inv hinv hok hst) (init_pageInv h0)

/-- The number of a slot in use is in the directory, with the slot's offset, and
its bytes are those last written. -/
def SlotsHold (L : PageLayout) (p : PhyPage) (store : Store) : Prop :=
  (∀ n, (store n).isSome = true ↔
      n < p.mSlotEntryCount ∧ isUnusedSlotEntry (entry L p n) = false)
    ∧ ∀ n c, store n = some c → slice p.image (slotAt L p n) c.length = c
      ∧ slotBytes L p store n ⊆ Finset.Ico p.mFreeSpaceEndOffset L.footer

/-- Every slot has the bytes last written to it. -/
theorem PageInv.slotsHold {p : PhyPage} {store : Store} (h : PageInv L p store) :
    SlotsHold L p store := by
  refine ⟨h.used, fun n c hc => ⟨h.content n c hc, fun i hi => ?_⟩⟩
  unfold slotBytes at hi
  rw [sizeOf_eq hc, Finset.mem_Ico] at hi
  have hne : c ≠ [] := by
    rintro rfl
    rw [List.length_nil] at hi
    omega
  have habove := h.above n c hc hne
  have hin := h.inPage n c hc
  rw [Finset.mem_Ico]
  omega

/-- Two slots share no byte. -/
theorem PageInv.disjoint {p : PhyPage} {store : Store} (h : PageInv L p store) {n m : ℕ}
    (hnm : n ≠ m) : Disjoint (slotBytes L p store n) (slotBytes L p store m) := by
  rw [Finset.disjoint_left]
  intro i hn hm
  unfold slotBytes at hn hm
  rw [Finset.mem_Ico] at hn hm
  cases hc : store n with
  | none =>
    rw [sizeOf_none hc] at hn
    omega
  | some c =>
    cases hd : store m with
    | none =>
      rw [sizeOf_none hd] at hm
      omega
    | some d =>
      rw [sizeOf_eq hc] at hn
      rw [sizeOf_eq hd] at hm
      have hcne : c ≠ [] := by
        rintro rfl
        rw [List.length_nil] at hn
        omega
      have hdne : d ≠ [] := by
        rintro rfl
        rw [List.length_nil] at hm
        omega
      rcases h.apart n m c d hnm hc hd hcne hdne with hbelow | hbelow
      · omega
      · omega

/-- **The slotted page, over all runs.**  The slots in use are disjoint, lie
behind the free space and hold what was last written to them under their
numbers; the free sizes are exact and covered by the free space and the holes;
an allocation that `canAllocSlot` allows succeeds, with a number that is not in
use; freeing a slot in use succeeds; and a compaction that fails changes nothing. -/
theorem phyPage_correct (L : PageLayout) (aGetSlotSizeFunc : ByteImage → ℕ → ℕ) (p0 : PhyPage)
    (h0 : EmptyDataPage L p0) :
    (∀ s, (pageSystem L aGetSlotSizeFunc p0).ReachableBy (PageRespects L aGetSlotSizeFunc) s →
      SlotsHold L s.page s.store
      ∧ (∀ n m, n ≠ m →
          Disjoint (slotBytes L s.page s.store n) (slotBytes L s.page s.store m))
      ∧ s.page.mTotalFreeSize + s.page.mFreeSpaceBeginOffset
          + ∑ n ∈ Finset.range s.page.mSlotEntryCount, reserveOf s.store n = L.footer
      ∧ s.page.mFreeSpaceBeginOffset ≤ s.page.mFreeSpaceEndOffset
      ∧ s.page.mTotalFreeSize ≤ s.page.mFreeSpaceEndOffset - s.page.mFreeSpaceBeginOffset
          + holes L s.page s.store
      ∧ (∀ aSlotSize, CallbackFits L aGetSlotSizeFunc s.page s.store →
          canAllocSlot s.page aSlotSize true SDP_1BYTE_ALIGN_SIZE = true →
          ∃ p' n off, allocSlot4SID L aGetSlotSizeFunc s.page aSlotSize = some (p', n, off)
            ∧ s.store n = none ∧ slotAt L p' n = off)
      ∧ ∀ n c, s.store n = some c →
          (freeSlot4SID L s.page (slotAt L s.page n) n c.length).isSome = true)
    ∧ ∀ p, (compactPage L aGetSlotSizeFunc p).1 = false →
      SamePage p (compactPage L aGetSlotSizeFunc p).2 := by
  refine ⟨fun s hs => ?_, fun p => compactPage_failure L aGetSlotSizeFunc p⟩
  have h := page_reachable h0 hs
  refine ⟨h.slotsHold, fun n m hnm => h.disjoint hnm, h.total, h.wf.begin_le, h.total_le_holes,
    fun aSlotSize hfits hcan => ?_, fun n c hc => ?_⟩
  · obtain ⟨p', n, off, halloc, hnone, hat, -⟩ := allocSlot4SID_spec h hfits hcan
    exact ⟨p', n, off, halloc, hnone, hat⟩
  · obtain ⟨p', hfree, -⟩ := freeSlot4SID_spec h hc
    rw [hfree]
    rfl

/-- A page whose footer begins at 250. -/
def smallLayout : PageLayout where
  slotDirStart := 80
  footer := 250
  room := by decide
  inPage := by decide

/-- The page with nothing but its headers. -/
def smallPage : PhyPage where
  mPageType := .data
  mTotalFreeSize := 170
  mAvailableFreeSize := 170
  mFreeSpaceBeginOffset := 80
  mFreeSpaceEndOffset := 250
  mSlotEntryCount := 0
  mHead := 0
  image := fun _ => 0

/-- Every slot in use has `k` bytes. -/
def AllOfSize (k : ℕ) (store : Store) : Prop :=
  ∀ n c, store n = some c → c.length = k

/-- One more slot of the size `k`. -/
theorem AllOfSize.update {k : ℕ} {store : Store} (h : AllOfSize k store) (n : ℕ)
    {v : Option (List UInt8)} (hv : ∀ c, v = some c → c.length = k) :
    AllOfSize k (Function.update store n v) := by
  intro m c hc
  rw [Function.update_apply] at hc
  split_ifs at hc
  · exact hv c hc
  · exact h m c hc

/-- Slots of one size stay slots of that size if no other size is allocated. -/
theorem AllOfSize.step {L : PageLayout} {aGetSlotSizeFunc : ByteImage → ℕ → ℕ} {k : ℕ}
    {s s' : PageState} {act : PageAction} (h : AllOfSize k s.store)
    (hsize : ∀ m, act = .allocSlot4SID m → m = k)
    (hst : pageStep L aGetSlotSizeFunc s act = some s') : AllOfSize k s'.store := by
  cases act with
  | allocSlot4SID m =>
    simp only [pageStep] at hst
    split at hst
    · cases hst
    · cases hst
      refine h.update _ fun c hc => ?_
      cases hc
      rw [slice_length, hsize m rfl]
  | freeSlot4SID n =>
    simp only [pageStep] at hst
    split at hst
    · cases hst
    · split at hst
      · cases hst
      · cases hst
        exact h.update n fun c hc => (nomatch hc)
  | write n bs =>
    simp only [pageStep] at hst
    split at hst
    · cases hst
    · rename_i c hold
      split_ifs at hst with hlen
      cases hst
      refine h.update n fun d hd => ?_
      cases hd
      rw [hlen, h n c hold]

/-- Three slots of 40 bytes fill the page; the first one is freed and leaves a
hole, so the next allocation compacts the page, and the written slot moves with
its bytes. -/
theorem phyPage_correct_compacted :
    ∃ s, (pageSystem smallLayout (fun _ _ => 40) smallPage).ReachableBy
        (PageRespects smallLayout fun _ _ => 40) s
      ∧ slotAt smallLayout s.page 1 = 210 ∧ slice s.page.image 210 40 = List.replicate 40 7
      ∧ s.page.mTotalFreeSize + s.page.mFreeSpaceBeginOffset
        + ∑ n ∈ Finset.range s.page.mSlotEntryCount, reserveOf s.store n = 250 := by
  have h0 : EmptyDataPage smallLayout smallPage :=
    ⟨by constructor <;> decide, rfl, by decide, rfl⟩
  let Run (s : PageState) := (pageSystem smallLayout (fun _ _ => 40) smallPage).ReachableBy
    (PageRespects smallLayout fun _ _ => 40) s ∧ AllOfSize 40 s.store
  -- a step that respects the page, beside the sizes of the slots
  have next : ∀ {s s' : PageState} (act : PageAction), Run s →
      (∀ m, act = .allocSlot4SID m →
        m = 40 ∧ canAllocSlot s.page m true SDP_1BYTE_ALIGN_SIZE = true) →
      pageStep smallLayout (fun _ _ => 40) s act = some s' → Run s' := by
    intro s s' act hrun hsize hst
    refine ⟨.tail hrun.1 (a := act) ?_ hst, hrun.2.step (fun m hm => (hsize m hm).1) hst⟩
    cases act with
    | allocSlot4SID m => exact ⟨(hsize m rfl).2, fun n c hc => (hrun.2 n c hc).symm⟩
    | freeSlot4SID n => trivial
    | write n bs => trivial
  have h1 : Run _ := next (.allocSlot4SID 40) ⟨.refl, fun _ _ h => (nomatch h)⟩
    (fun m hm => by cases hm; exact ⟨rfl, by decide⟩) rfl
  have h2 : Run _ := next (.allocSlot4SID 40) h1
    (fun m hm => by cases hm; exact ⟨rfl, by decide⟩) rfl
  have h3 : Run _ := next (.allocSlot4SID 40) h2
    (fun m hm => by cases hm; exact ⟨rfl, by decide⟩) rfl
  have h4 : Run _ := next (.write 1 (List.replicate 40 7)) h3 (fun m hm => (nomatch hm)) rfl
  have h5 : Run _ := next (.freeSlot4SID 0) h4 (fun m hm => (nomatch hm)) rfl
  have h6 : Run _ := next (.allocSlot4SID 40) h5
    (fun m hm => by cases hm; exact ⟨rfl, by decide⟩) rfl
  obtain ⟨hhold, -, htotal, -⟩ :=
    (phyPage_correct smallLayout (fun _ _ => 40) smallPage h0).1 _ h6.1
  exact ⟨_, h6.1, by decide, (hhold.2 1 (List.replicate 40 7) rfl).1, htotal⟩

end Runs

end Altibase.Sdp.PhyPage
