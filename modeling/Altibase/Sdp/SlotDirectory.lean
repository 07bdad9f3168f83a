/-
  Altibase.Sdp.SlotDirectory
  ──────────────────────────
  **THE SLOT DIRECTORY OF A PAGE.**

  The directory is an array of 16-bit entries between the page headers and the
  free space.  An entry is a slot's offset, or a link of the list of unused
  entries if its top bit is set.

    * `reuse_reachable` — `alloc` and `free`: the unused entries are those of
      the list, a used entry keeps its number and its offset;
    * `shift_reachable` — `allocWithShift` and `freeWithShift`: the directory
      is the sequence of the offsets, with insertion and removal.
-/

import Altibase.Lib.ByteImage
import Altibase.Lib.System
import Mathlib.Data.List.Basic
import Mathlib.Data.List.Nodup

namespace Altibase.Sdp.SlotDirectory

open Altibase.Lib

/-! ## §1. The page. -/

/-- `SD_PAGE_SIZE`. -/
def SD_PAGE_SIZE : ℕ := 8192

/-- `SDP_INVALID_SLOT_ENTRY_NUM`: the end of the list of unused entries. -/
def SDP_INVALID_SLOT_ENTRY_NUM : ℕ := 0x7FFF

/-- `ID_SIZEOF(sdpSlotDirHdr)` and `ID_SIZEOF(sdpSlotEntry)`. -/
def slotDirHdrSize : ℕ := 4
def slotEntrySize : ℕ := 2

/-- Where the slot directory begins and where the page footer begins; both are
fixed while slots come and go. -/
structure PageLayout where
  slotDirStart : ℕ
  footer : ℕ
  room : slotDirStart + slotDirHdrSize ≤ footer
  inPage : footer < SD_PAGE_SIZE

/-- `sdpPageType`, as far as the slot operations ask for it. -/
inductive PageType where
  | data | tempTableMeta | tempTableData | other
  deriving DecidableEq, Repr

/-- The header fields that the slot operations use, the directory's header and
the bytes of the page. -/
structure PhyPage where
  mPageType : PageType
  mTotalFreeSize : ℕ
  mAvailableFreeSize : ℕ
  mFreeSpaceBeginOffset : ℕ
  mFreeSpaceEndOffset : ℕ
  mSlotEntryCount : ℕ
  mHead : ℕ
  image : ByteImage

/-- `UShort` addition and subtraction. -/
def addUShort (a b : ℕ) : ℕ := (a + b) % 65536
def subUShort (a b : ℕ) : ℕ := (a + 65536 - b % 65536) % 65536

/-- A sum that does not wrap. -/
theorem addUShort_eq {a b : ℕ} (h : a + b < 65536) : addUShort a b = a + b := by
  unfold addUShort
  omega

/-- A difference that does not wrap. -/
theorem subUShort_eq {a b : ℕ} (hb : b ≤ a) (ha : a < 65536) : subUShort a b = a - b := by
  unfold subUShort
  omega

/-! ## §2. Entries. -/

/-- `SDP_GET_OFFSET`: the low 15 bits. -/
def getOffset (w : ℕ) : ℕ := w % 0x8000

/-- `SDP_SET_OFFSET`. -/
def setOffset (w aOffset : ℕ) : ℕ := w / 0x8000 * 0x8000 + aOffset % 0x8000

/-- `SDP_IS_UNUSED_SLOT_ENTRY`: the top bit of the word. -/
def isUnusedSlotEntry (w : ℕ) : Bool := w / 0x8000 % 2 = 1

/-- `SDP_SET_UNUSED_FLAG`. -/
def setUnusedFlag (w : ℕ) : ℕ := if isUnusedSlotEntry w then w else w + 0x8000

/-- `SDP_CLR_UNUSED_FLAG`. -/
def clrUnusedFlag (w : ℕ) : ℕ := if isUnusedSlotEntry w then w - 0x8000 else w

section Model

variable (L : PageLayout)

/-- `SDP_GET_SLOT_ENTRY`. -/
def slotEntryPos (aSlotNum : ℕ) : ℕ := L.slotDirStart + slotDirHdrSize + slotEntrySize * aSlotNum

/-- The word of an entry. -/
def entry (p : PhyPage) (aSlotNum : ℕ) : ℕ := readWord p.image (slotEntryPos L aSlotNum)

/-- An entry is overwritten. -/
def setEntry (p : PhyPage) (aSlotNum w : ℕ) : PhyPage :=
  { p with image := writeWord p.image (slotEntryPos L aSlotNum) w }

/-- `validateSlot`: an error if the entry is unused as `aIsUnusedSlot` says. -/
def validateSlot (p : PhyPage) (aSlotNum : ℕ) (aIsUnusedSlot : Bool) : Bool :=
  isUnusedSlotEntry (entry L p aSlotNum) != aIsUnusedSlot

/-- `sdpSlotDirectory::init`. -/
def init (p : PhyPage) : PhyPage :=
  { p with
    mFreeSpaceBeginOffset := addUShort p.mFreeSpaceBeginOffset slotDirHdrSize
    mTotalFreeSize := subUShort p.mTotalFreeSize slotDirHdrSize
    mAvailableFreeSize := subUShort p.mAvailableFreeSize slotDirHdrSize
    mSlotEntryCount := 0
    mHead := SDP_INVALID_SLOT_ENTRY_NUM }

/-- One entry more, at the expense of the free space. -/
def growDirectory (p : PhyPage) : PhyPage :=
  { p with
    mSlotEntryCount := addUShort p.mSlotEntryCount 1
    mFreeSpaceBeginOffset := addUShort p.mFreeSpaceBeginOffset slotEntrySize
    mTotalFreeSize := subUShort p.mTotalFreeSize slotEntrySize
    mAvailableFreeSize := subUShort p.mAvailableFreeSize slotEntrySize }

/-- One entry less; the free space gets its bytes back. -/
def shrinkDirectory (p : PhyPage) : PhyPage :=
  { p with
    mSlotEntryCount := subUShort p.mSlotEntryCount 1
    mFreeSpaceBeginOffset := subUShort p.mFreeSpaceBeginOffset slotEntrySize
    mTotalFreeSize := addUShort p.mTotalFreeSize slotEntrySize
    mAvailableFreeSize := addUShort p.mAvailableFreeSize slotEntrySize }

/-- The entry becomes used, with the offset. -/
def useEntry (p : PhyPage) (aSlotNum aSlotOffset : ℕ) : PhyPage :=
  setEntry L p aSlotNum (setOffset (clrUnusedFlag (entry L p aSlotNum)) aSlotOffset)

/-- `removeFromUnusedSlotEntryList`. -/
def removeFromUnusedSlotEntryList (p : PhyPage) : Option (PhyPage × ℕ) :=
  if p.mHead = SDP_INVALID_SLOT_ENTRY_NUM then none
  else if validateSlot L p p.mHead false then
    some ({ p with mHead := getOffset (entry L p p.mHead) }, p.mHead)
  else none

/-- `addToUnusedSlotEntryList`. -/
def addToUnusedSlotEntryList (p : PhyPage) (aSlotNum : ℕ) : Option PhyPage :=
  if validateSlot L p aSlotNum false then
    some { setEntry L p aSlotNum (setOffset (entry L p aSlotNum) p.mHead) with mHead := aSlotNum }
  else none

/-- `sdpSlotDirectory::alloc`: the page and the allocated number. -/
def alloc (p : PhyPage) (aSlotOffset : ℕ) : Option (PhyPage × ℕ) :=
  if p.mHead = SDP_INVALID_SLOT_ENTRY_NUM then
    some (useEntry L (growDirectory p) p.mSlotEntryCount aSlotOffset, p.mSlotEntryCount)
  else
    match removeFromUnusedSlotEntryList L p with
    | none => none
    | some (p', sAllocSlotNum) =>
        if validateSlot L p' sAllocSlotNum false then
          some (useEntry L p' sAllocSlotNum aSlotOffset, sAllocSlotNum)
        else none

/-- `sdpSlotDirectory::free`. -/
def free (p : PhyPage) (aSlotNum : ℕ) : Option PhyPage :=
  if validateSlot L p aSlotNum true then
    addToUnusedSlotEntryList L
      (setEntry L p aSlotNum
        (setUnusedFlag (setOffset (entry L p aSlotNum) SDP_INVALID_SLOT_ENTRY_NUM)))
      aSlotNum
  else none

/-- `shiftToBottom`: the entries from `aSlotNum` to the directory's end move down
by one.  The end is `mFreeSpaceBeginOffset`. -/
def shiftToBottom (p : PhyPage) (aSlotNum : ℕ) : PhyPage :=
  let sSlotEntry := slotEntryPos L aSlotNum
  let sMoveSize := subUShort p.mFreeSpaceBeginOffset sSlotEntry
  { p with image := memmove p.image (sSlotEntry + slotEntrySize) sSlotEntry sMoveSize }

/-- `shiftToTop`: the entries behind `aSlotNum` move up by one. -/
def shiftToTop (p : PhyPage) (aSlotNum : ℕ) : PhyPage :=
  let sNxtSlotEntry := slotEntryPos L (aSlotNum + 1)
  let sMoveSize := subUShort p.mFreeSpaceBeginOffset sNxtSlotEntry
  { p with image := memmove p.image (sNxtSlotEntry - slotEntrySize) sNxtSlotEntry sMoveSize }

/-- `sdpSlotDirectory::allocWithShift`. -/
def allocWithShift (p : PhyPage) (aSlotNum aSlotOffset : ℕ) : PhyPage :=
  let p' := if aSlotNum ≠ p.mSlotEntryCount then shiftToBottom L p aSlotNum else p
  useEntry L (growDirectory p') aSlotNum aSlotOffset

/-- `sdpSlotDirectory::freeWithShift`. -/
def freeWithShift (p : PhyPage) (aSlotNum : ℕ) : Option PhyPage :=
  if validateSlot L p aSlotNum true then
    let p' := if aSlotNum ≠ subUShort p.mSlotEntryCount 1 then shiftToTop L p aSlotNum else p
    some (shrinkDirectory p')
  else none

/-- The loop of `find`, with `k` entries left. -/
def findLoop (p : PhyPage) (aSlotOffset : ℕ) : ℕ → ℕ → Option ℕ
  | 0, sSlotNum => some sSlotNum
  | k + 1, sSlotNum =>
      if getOffset (entry L p sSlotNum) = aSlotOffset then
        if validateSlot L p sSlotNum true then some sSlotNum else none
      else findLoop p aSlotOffset k (sSlotNum + 1)

/-- `sdpSlotDirectory::find`: the number of the first entry with the offset, the
entry count if there is none, and an error if that entry is unused. -/
def find (p : PhyPage) (aSlotOffset : ℕ) : Option ℕ :=
  findLoop L p aSlotOffset p.mSlotEntryCount 0

end Model

/-! ## §3. Entries, as values. -/

@[simp] theorem getOffset_setOffset (w o : ℕ) : getOffset (setOffset w o) = o % 0x8000 := by
  unfold getOffset setOffset
  omega

@[simp] theorem isUnused_setOffset (w o : ℕ) :
    isUnusedSlotEntry (setOffset w o) = isUnusedSlotEntry w := by
  have h : setOffset w o / 0x8000 = w / 0x8000 := by
    unfold setOffset
    omega
  unfold isUnusedSlotEntry
  rw [h]

@[simp] theorem isUnused_clrUnusedFlag (w : ℕ) : isUnusedSlotEntry (clrUnusedFlag w) = false := by
  unfold clrUnusedFlag
  by_cases h : isUnusedSlotEntry w = true
  · rw [if_pos h]
    simp only [isUnusedSlotEntry, decide_eq_true_eq, decide_eq_false_iff_not] at h ⊢
    omega
  · rw [if_neg h]
    simpa using h

@[simp] theorem isUnused_setUnusedFlag (w : ℕ) : isUnusedSlotEntry (setUnusedFlag w) = true := by
  unfold setUnusedFlag
  by_cases h : isUnusedSlotEntry w = true
  · rw [if_pos h]
    exact h
  · rw [if_neg h]
    simp only [isUnusedSlotEntry, decide_eq_true_eq] at h ⊢
    omega

/-- Clearing a bit makes no greater word. -/
theorem clrUnusedFlag_le (w : ℕ) : clrUnusedFlag w ≤ w := by
  unfold clrUnusedFlag
  split <;> omega

/-- A word stays a word: with another offset, -/
theorem setOffset_lt {w : ℕ} (hw : w < 65536) (o : ℕ) : setOffset w o < 65536 := by
  unfold setOffset
  omega

/-- and with the flag set. -/
theorem setUnusedFlag_lt {w : ℕ} (hw : w < 65536) : setUnusedFlag w < 65536 := by
  unfold setUnusedFlag isUnusedSlotEntry
  split
  · exact hw
  · simp only [decide_eq_true_eq] at *
    omega

/-! ## §4. Entries of a page. -/

/-- The three sizes change by the size of the change of the entry count. -/
def SizesFollow (p p' : PhyPage) : Prop :=
  (p'.mFreeSpaceBeginOffset : Int) - p.mFreeSpaceBeginOffset
      = slotEntrySize * ((p'.mSlotEntryCount : Int) - p.mSlotEntryCount)
    ∧ (p.mTotalFreeSize : Int) - p'.mTotalFreeSize
      = slotEntrySize * ((p'.mSlotEntryCount : Int) - p.mSlotEntryCount)
    ∧ (p.mAvailableFreeSize : Int) - p'.mAvailableFreeSize
      = slotEntrySize * ((p'.mSlotEntryCount : Int) - p.mSlotEntryCount)

section Entries

variable {L : PageLayout} {p : PhyPage} {n m w : ℕ}

/-- An entry is a word. -/
theorem entry_lt (p : PhyPage) (n : ℕ) : entry L p n < 65536 := readWord_lt _ _

/-- What was written is read, -/
theorem entry_setEntry (hw : w < 65536) : entry L (setEntry L p n w) n = w :=
  readWord_writeWord hw

/-- and the other entries are as they were. -/
theorem entry_setEntry_of_ne (h : m ≠ n) : entry L (setEntry L p n w) m = entry L p m := by
  apply readWord_writeWord_ne
  unfold slotEntryPos slotEntrySize
  omega

/-- A used entry's offset is what it was given. -/
theorem entry_useEntry {o : ℕ} (ho : o < 0x8000) :
    getOffset (entry L (useEntry L p n o) n) = o
      ∧ isUnusedSlotEntry (entry L (useEntry L p n o) n) = false := by
  have hlt : setOffset (clrUnusedFlag (entry L p n)) o < 65536 :=
    setOffset_lt (Nat.lt_of_le_of_lt (clrUnusedFlag_le _) (entry_lt p n)) o
  unfold useEntry
  rw [entry_setEntry hlt]
  constructor
  · rw [getOffset_setOffset]
    exact Nat.mod_eq_of_lt ho
  · simp

@[simp] theorem useEntry_mSlotEntryCount (o : ℕ) :
    (useEntry L p n o).mSlotEntryCount = p.mSlotEntryCount := rfl

@[simp] theorem useEntry_mHead (o : ℕ) : (useEntry L p n o).mHead = p.mHead := rfl

@[simp] theorem useEntry_mFreeSpaceEndOffset (o : ℕ) :
    (useEntry L p n o).mFreeSpaceEndOffset = p.mFreeSpaceEndOffset := rfl

/-- An entry in place takes no space. -/
theorem useEntry_sizesFollow {q : PhyPage} {o : ℕ} :
    SizesFollow q (useEntry L p n o) ↔ SizesFollow q p := Iff.rfl

/-- The other entries are as they were. -/
theorem entry_useEntry_of_ne {o : ℕ} (h : m ≠ n) :
    entry L (useEntry L p n o) m = entry L p m :=
  entry_setEntry_of_ne h

end Entries

/-! ## §5. The directory in the free space. -/

section Invariant

variable {L : PageLayout} {p : PhyPage} {n m w : ℕ}

/-- The directory ends where the free space begins, and the free sizes fit into
what lies behind it. -/
structure DirWF (L : PageLayout) (p : PhyPage) : Prop where
  begin_eq : p.mFreeSpaceBeginOffset = slotEntryPos L p.mSlotEntryCount
  begin_le : p.mFreeSpaceBeginOffset ≤ p.mFreeSpaceEndOffset
  end_le : p.mFreeSpaceEndOffset ≤ L.footer
  total_le : p.mFreeSpaceBeginOffset + p.mTotalFreeSize ≤ L.footer
  avail_le : p.mAvailableFreeSize ≤ p.mTotalFreeSize

/-- The free sizes allow for one more entry. -/
def RoomForEntry (p : PhyPage) : Prop :=
  slotEntrySize ≤ p.mAvailableFreeSize
    ∧ p.mFreeSpaceBeginOffset + slotEntrySize ≤ p.mFreeSpaceEndOffset

/-- No entry more, no space taken. -/
theorem SizesFollow.of_same {p' : PhyPage} (hc : p'.mSlotEntryCount = p.mSlotEntryCount)
    (hb : p'.mFreeSpaceBeginOffset = p.mFreeSpaceBeginOffset)
    (ht : p'.mTotalFreeSize = p.mTotalFreeSize)
    (ha : p'.mAvailableFreeSize = p.mAvailableFreeSize) : SizesFollow p p' := by
  unfold SizesFollow
  rw [hc, hb, ht, ha]
  omega

/-- An entry takes two bytes of a page, so there are less than 4096. -/
theorem DirWF.count_lt (h : DirWF L p) : p.mSlotEntryCount < 4096 := by
  have h1 := h.begin_eq
  have h2 := h.begin_le
  have h3 := h.end_le
  have h4 := L.inPage
  simp only [slotEntryPos, slotEntrySize, SD_PAGE_SIZE] at *
  omega

/-- The header's sizes are within the page. -/
theorem DirWF.sizes_lt (h : DirWF L p) : p.mFreeSpaceBeginOffset < 8192
    ∧ p.mTotalFreeSize < 8192 ∧ p.mAvailableFreeSize < 8192 := by
  have h2 := h.begin_le
  have h3 := h.end_le
  have h4 := L.inPage
  have h5 := h.total_le
  have h6 := h.avail_le
  simp only [SD_PAGE_SIZE] at *
  omega

/-- Entries are read from the bytes of the page. -/
theorem entry_congr {p' : PhyPage} (h : p'.image = p.image) : entry L p' n = entry L p n := by
  unfold entry
  rw [h]

/-- One entry more does not move the others. -/
theorem entry_growDirectory : entry L (growDirectory p) n = entry L p n := by
  apply entry_congr
  unfold growDirectory
  rfl

/-- Nor does one entry less. -/
theorem entry_shrinkDirectory : entry L (shrinkDirectory p) n = entry L p n := by
  apply entry_congr
  unfold shrinkDirectory
  rfl

/-- Growing by one entry, without wrapping. -/
theorem growDirectory_eq (h : DirWF L p) (hroom : RoomForEntry p) :
    growDirectory p = { p with
      mSlotEntryCount := p.mSlotEntryCount + 1
      mFreeSpaceBeginOffset := p.mFreeSpaceBeginOffset + slotEntrySize
      mTotalFreeSize := p.mTotalFreeSize - slotEntrySize
      mAvailableFreeSize := p.mAvailableFreeSize - slotEntrySize } := by
  have hc := h.count_lt
  have hs := h.sizes_lt
  have ha := h.avail_le
  have hr := hroom.1
  simp only [slotEntrySize] at hr
  unfold growDirectory slotEntrySize
  rw [addUShort_eq (by omega), addUShort_eq (by omega), subUShort_eq (by omega) (by omega),
    subUShort_eq (by omega) (by omega)]

/-- The directory grows where there is room for an entry. -/
theorem growDirectory_wf (h : DirWF L p) (hroom : RoomForEntry p) :
    DirWF L (growDirectory p) := by
  have h1 := h.begin_eq
  have h4 := h.total_le
  have h5 := h.avail_le
  have hr1 := hroom.1
  have hr2 := hroom.2
  rw [growDirectory_eq h hroom]
  unfold slotEntryPos at h1
  constructor
  · -- the directory ends where the free space begins
    show p.mFreeSpaceBeginOffset + slotEntrySize = slotEntryPos L (p.mSlotEntryCount + 1)
    unfold slotEntryPos
    rw [h1, Nat.mul_succ, Nat.add_assoc]
  · exact hr2
  · exact h.end_le
  · -- the total free size
    show p.mFreeSpaceBeginOffset + slotEntrySize + (p.mTotalFreeSize - slotEntrySize) ≤ L.footer
    omega
  · -- the available free size
    show p.mAvailableFreeSize - slotEntrySize ≤ p.mTotalFreeSize - slotEntrySize
    omega

/-- The sizes pay for the entry. -/
theorem growDirectory_sizes (h : DirWF L p) (hroom : RoomForEntry p) :
    SizesFollow p (growDirectory p) := by
  have h5 := h.avail_le
  have hr := hroom.1
  rw [growDirectory_eq h hroom]
  simp only [SizesFollow, slotEntrySize] at *
  omega

/-- Shrinking by one entry, without wrapping. -/
theorem shrinkDirectory_eq (h : DirWF L p) (hpos : 0 < p.mSlotEntryCount) :
    shrinkDirectory p = { p with
      mSlotEntryCount := p.mSlotEntryCount - 1
      mFreeSpaceBeginOffset := p.mFreeSpaceBeginOffset - slotEntrySize
      mTotalFreeSize := p.mTotalFreeSize + slotEntrySize
      mAvailableFreeSize := p.mAvailableFreeSize + slotEntrySize } := by
  have hc := h.count_lt
  have hs := h.sizes_lt
  have hb := h.begin_eq
  simp only [slotEntryPos, slotEntrySize] at hb
  unfold shrinkDirectory slotEntrySize
  rw [addUShort_eq (by omega), addUShort_eq (by omega), subUShort_eq (by omega) (by omega),
    subUShort_eq (by omega) (by omega)]

/-- It shrinks where there is an entry. -/
theorem shrinkDirectory_wf (h : DirWF L p) (hpos : 0 < p.mSlotEntryCount) :
    DirWF L (shrinkDirectory p) := by
  have h1 := h.begin_eq
  have h2 := h.begin_le
  have h4 := h.total_le
  have h5 := h.avail_le
  rw [shrinkDirectory_eq h hpos]
  simp only [slotEntryPos, slotEntrySize] at *
  constructor
  · -- the directory ends where the free space begins
    simp only [slotEntryPos, slotEntrySize]
    omega
  · -- the free space does not begin behind its end
    dsimp only
    omega
  · exact h.end_le
  · -- the total free size
    dsimp only
    omega
  · -- the available free size
    dsimp only
    omega

/-- The sizes get the entry back. -/
theorem shrinkDirectory_sizes (h : DirWF L p) (hpos : 0 < p.mSlotEntryCount) :
    SizesFollow p (shrinkDirectory p) := by
  have h1 := h.begin_eq
  rw [shrinkDirectory_eq h hpos]
  simp only [SizesFollow, slotEntryPos, slotEntrySize] at *
  omega

/-- Entries stand side by side. -/
theorem slotEntryPos_succ : slotEntryPos L (n + 1) = slotEntryPos L n + slotEntrySize := by
  unfold slotEntryPos slotEntrySize
  omega

/-- The directory's end is behind its entries. -/
theorem DirWF.pos_le (h : DirWF L p) (hn : n ≤ p.mSlotEntryCount) :
    slotEntryPos L n ≤ p.mFreeSpaceBeginOffset := by
  rw [h.begin_eq]
  unfold slotEntryPos
  have := Nat.mul_le_mul_left slotEntrySize hn
  omega

/-- The header fields do not depend on the entries. -/
theorem DirWF.of_image (h : DirWF L p) (img : ByteImage) : DirWF L { p with image := img } :=
  ⟨h.begin_eq, h.begin_le, h.end_le, h.total_le, h.avail_le⟩

/-- What stands in the entries is no matter of the headers. -/
theorem setEntry_wf (h : DirWF L p) : DirWF L (setEntry L p n w) := h.of_image _

/-- So a used entry changes nothing there. -/
theorem useEntry_wf {o : ℕ} (h : DirWF L p) : DirWF L (useEntry L p n o) := h.of_image _

/-- An entry of the directory lies below the free space. -/
theorem setEntry_bytes (h : DirWF L p) (hn : n < p.mSlotEntryCount) {i : ℕ}
    (hi : p.mFreeSpaceBeginOffset ≤ i) : (setEntry L p n w).image i = p.image i := by
  have hpos := h.pos_le (n := n + 1) (by omega)
  rw [slotEntryPos_succ] at hpos
  unfold slotEntrySize at hpos
  exact writeWord_apply_of_ne (by omega)

end Invariant

/-! ## §6. The list of unused entries. -/

section Reuse

variable {L : PageLayout} {p : PhyPage} {n m : ℕ}

/-- The numbers of `l` are linked from `head` on, up to the invalid number. -/
def LinkedFrom (next : ℕ → ℕ) : ℕ → List ℕ → Prop
  | head, [] => head = SDP_INVALID_SLOT_ENTRY_NUM
  | head, n :: rest => head = n ∧ LinkedFrom next (next n) rest

/-- A list is linked by the entries that are in it. -/
theorem LinkedFrom.congr {next next' : ℕ → ℕ} {l : List ℕ} {head : ℕ}
    (h : LinkedFrom next head l) (hsame : ∀ n ∈ l, next' n = next n) :
    LinkedFrom next' head l := by
  induction l generalizing head with
  | nil => exact h
  | cons n rest ih =>
    obtain ⟨rfl, htail⟩ := h
    refine ⟨rfl, ?_⟩
    rw [hsame head (by simp)]
    exact ih htail fun m hm => hsame m (by simp [hm])

/-- The link of an unused entry. -/
def nextUnused (L : PageLayout) (p : PhyPage) (n : ℕ) : ℕ := getOffset (entry L p n)

/-- **The unused entries are those of the acyclic list from `mHead` on.** -/
def UnusedListed (L : PageLayout) (p : PhyPage) : Prop :=
  ∃ l : List ℕ, LinkedFrom (nextUnused L p) p.mHead l ∧ l.Nodup
    ∧ ∀ n, n ∈ l ↔ n < p.mSlotEntryCount ∧ isUnusedSlotEntry (entry L p n) = true

/-- The used entries and their offsets. -/
def Holds (L : PageLayout) (p : PhyPage) (held : ℕ → Option ℕ) : Prop :=
  ∀ n off, held n = some off ↔
    n < p.mSlotEntryCount ∧ isUnusedSlotEntry (entry L p n) = false
      ∧ getOffset (entry L p n) = off

/-- The offsets in use are different and lie behind the free space. -/
def OffsetsApart (L : PageLayout) (p : PhyPage) (held : ℕ → Option ℕ) : Prop :=
  (∀ n off, held n = some off → p.mFreeSpaceEndOffset ≤ off ∧ off ≤ L.footer)
    ∧ ∀ n m off, held n = some off → held m = some off → n = m

/-- The directory with its unused entries and the offsets of the others. -/
structure DirInv (L : PageLayout) (p : PhyPage) (held : ℕ → Option ℕ) : Prop where
  wf : DirWF L p
  listed : UnusedListed L p
  holds : Holds L p held

/-- The same, and no two slots share an offset. -/
structure ReuseInv (L : PageLayout) (p : PhyPage) (held : ℕ → Option ℕ) : Prop
    extends DirInv L p held where
  apart : OffsetsApart L p held

/-- Only the directory and its sizes change. -/
structure DirectoryOnly (p p' : PhyPage) : Prop where
  pageType : p'.mPageType = p.mPageType
  endOffset : p'.mFreeSpaceEndOffset = p.mFreeSpaceEndOffset
  bytes : ∀ i, p'.mFreeSpaceBeginOffset ≤ i → p'.image i = p.image i

/-- An unused entry is one without a slot. -/
theorem Holds.unused {held : ℕ → Option ℕ} (h : Holds L p held) (hn : n < p.mSlotEntryCount) :
    isUnusedSlotEntry (entry L p n) = true ↔ held n = none := by
  cases hheld : held n with
  | none =>
    constructor
    · intro _
      rfl
    · intro _
      by_contra hused
      have := (h n _).mpr ⟨hn, by simpa using hused, rfl⟩
      rw [hheld] at this
      cases this
  | some off =>
    have := ((h n off).mp hheld).2.1
    simp [this]

/-- A slot has a used entry of the directory. -/
theorem Holds.isSome {held : ℕ → Option ℕ} (h : Holds L p held) (n : ℕ) :
    (held n).isSome = true ↔
      n < p.mSlotEntryCount ∧ isUnusedSlotEntry (entry L p n) = false := by
  constructor
  · intro hsome
    obtain ⟨off, hoff⟩ := Option.isSome_iff_exists.mp hsome
    exact ⟨((h n off).mp hoff).1, ((h n off).mp hoff).2.1⟩
  · rintro ⟨hlt, hused⟩
    rw [(h n _).mpr ⟨hlt, hused, rfl⟩]
    rfl

/-- A number in use is in the directory. -/
theorem Holds.lt {held : ℕ → Option ℕ} (h : Holds L p held) (hn : held n ≠ none) :
    n < p.mSlotEntryCount := by
  cases hheld : held n with
  | none => exact absurd hheld hn
  | some off => exact ((h n off).mp hheld).1

/-- The head of the list is a number of the directory, or there is no unused
entry. -/
theorem UnusedListed.head_cases (hwf : DirWF L p) (h : UnusedListed L p) :
    (p.mHead = SDP_INVALID_SLOT_ENTRY_NUM
        ∧ ∀ n < p.mSlotEntryCount, isUnusedSlotEntry (entry L p n) = false)
      ∨ (p.mHead ≠ SDP_INVALID_SLOT_ENTRY_NUM
        ∧ p.mHead < p.mSlotEntryCount ∧ isUnusedSlotEntry (entry L p p.mHead) = true
        ∧ ∃ rest, LinkedFrom (nextUnused L p) (nextUnused L p p.mHead) rest
          ∧ (p.mHead :: rest).Nodup
          ∧ ∀ n, n ∈ p.mHead :: rest ↔
              n < p.mSlotEntryCount ∧ isUnusedSlotEntry (entry L p n) = true) := by
  obtain ⟨l, hlink, hnodup, hmem⟩ := h
  cases l with
  | nil =>
    refine Or.inl ⟨hlink, fun n hn => ?_⟩
    by_contra hunused
    have := (hmem n).mpr ⟨hn, by simpa using hunused⟩
    cases this
  | cons n rest =>
    obtain ⟨hhead, htail⟩ := hlink
    rw [← hhead] at htail hnodup hmem
    have hlt := (hmem p.mHead).mp (by simp)
    have hcount := hwf.count_lt
    refine Or.inr ⟨?_, hlt.1, hlt.2, rest, htail, hnodup, hmem⟩
    unfold SDP_INVALID_SLOT_ENTRY_NUM
    omega

/-- What `alloc` does: the number is of an unused or a new entry. -/
theorem alloc_cases (hwf : DirWF L p) (h : UnusedListed L p) (off : ℕ) :
    (p.mHead = SDP_INVALID_SLOT_ENTRY_NUM
        ∧ alloc L p off
          = some (useEntry L (growDirectory p) p.mSlotEntryCount off, p.mSlotEntryCount))
      ∨ (p.mHead ≠ SDP_INVALID_SLOT_ENTRY_NUM
        ∧ alloc L p off
          = some (useEntry L { p with mHead := nextUnused L p p.mHead } p.mHead off, p.mHead)) := by
  rcases h.head_cases hwf with ⟨hhead, -⟩ | ⟨hne, -, hunused, -⟩
  · left
    refine ⟨hhead, ?_⟩
    unfold alloc
    rw [if_pos hhead]
  · right
    have hvalid : validateSlot L p p.mHead false = true := by
      unfold validateSlot
      rw [hunused]
      rfl
    have hvalid' : validateSlot L { p with mHead := getOffset (entry L p p.mHead) } p.mHead false
        = true := hvalid
    refine ⟨hne, ?_⟩
    unfold alloc removeFromUnusedSlotEntryList
    rw [if_neg hne, if_neg hne, if_pos hvalid]
    dsimp only
    rw [if_pos hvalid']
    rfl

/-- The guard of `alloc`: free sizes for a new entry, and an offset of its own in
the slot space. -/
def AllocRespects (L : PageLayout) (p : PhyPage) (held : ℕ → Option ℕ) (off : ℕ) : Prop :=
  (p.mHead = SDP_INVALID_SLOT_ENTRY_NUM → RoomForEntry p)
    ∧ p.mFreeSpaceEndOffset ≤ off ∧ off ≤ L.footer ∧ ∀ n, held n ≠ some off

/-- An offset of the page fits its 15 bits. -/
theorem PageLayout.offset_lt (L : PageLayout) {off : ℕ} (h : off ≤ L.footer) : off < 0x8000 := by
  have := L.inPage
  unfold SD_PAGE_SIZE at this
  omega

/-- The held offsets after one more entry is used. -/
theorem OffsetsApart.insert {p' : PhyPage} {held : ℕ → Option ℕ} {off : ℕ}
    (h : OffsetsApart L p held) (hend : p'.mFreeSpaceEndOffset = p.mFreeSpaceEndOffset)
    (hlo : p.mFreeSpaceEndOffset ≤ off) (hhi : off ≤ L.footer) (hfresh : ∀ m, held m ≠ some off)
    (n : ℕ) : OffsetsApart L p' (Function.update held n (some off)) := by
  constructor
  · intro m o hm
    rw [hend]
    by_cases hmn : m = n
    · rw [hmn, Function.update_self] at hm
      cases hm
      exact ⟨hlo, hhi⟩
    · rw [Function.update_of_ne hmn] at hm
      exact h.1 m o hm
  · intro m k o hm hk
    by_cases hmn : m = n
    · by_cases hkn : k = n
      · rw [hmn, hkn]
      · rw [hmn, Function.update_self] at hm
        rw [Function.update_of_ne hkn] at hk
        cases hm
        exact absurd hk (hfresh k)
    · rw [Function.update_of_ne hmn] at hm
      by_cases hkn : k = n
      · rw [hkn, Function.update_self] at hk
        cases hk
        exact absurd hm (hfresh m)
      · rw [Function.update_of_ne hkn] at hk
        exact h.2 m k o hm hk

/-- `alloc` of a new entry. -/
theorem alloc_new {held : ℕ → Option ℕ} {off : ℕ} (h : DirInv L p held)
    (hhead : p.mHead = SDP_INVALID_SLOT_ENTRY_NUM) (hroom : RoomForEntry p) (ho : off < 0x8000) :
    held p.mSlotEntryCount = none
      ∧ SizesFollow p (useEntry L (growDirectory p) p.mSlotEntryCount off)
      ∧ DirectoryOnly p (useEntry L (growDirectory p) p.mSlotEntryCount off)
      ∧ DirInv L (useEntry L (growDirectory p) p.mSlotEntryCount off)
          (Function.update held p.mSlotEntryCount (some off)) := by
  have hgrow := growDirectory_eq h.wf hroom
  have hlast : held p.mSlotEntryCount = none := by
    by_contra hne
    have := h.holds.lt hne
    omega
  have hentry : ∀ m, m ≠ p.mSlotEntryCount →
      entry L (useEntry L (growDirectory p) p.mSlotEntryCount off) m = entry L p m :=
    fun m hm => (entry_useEntry_of_ne hm).trans entry_growDirectory
  have hnew := entry_useEntry (L := L) (p := growDirectory p) (n := p.mSlotEntryCount) ho
  have hcount : (useEntry L (growDirectory p) p.mSlotEntryCount off).mSlotEntryCount
      = p.mSlotEntryCount + 1 := by
    rw [useEntry_mSlotEntryCount, hgrow]
  have hheadEq : (useEntry L (growDirectory p) p.mSlotEntryCount off).mHead = p.mHead := by
    rw [useEntry_mHead, hgrow]
  have hwf := growDirectory_wf h.wf hroom
  refine ⟨hlast, useEntry_sizesFollow.mpr (growDirectory_sizes h.wf hroom), ?_, ?_⟩
  · refine ⟨by rw [hgrow]; rfl, by rw [useEntry_mFreeSpaceEndOffset, hgrow], fun i hi => ?_⟩
    have hbytes := setEntry_bytes (L := L) (n := p.mSlotEntryCount) (i := i)
      (w := setOffset (clrUnusedFlag (entry L (growDirectory p) p.mSlotEntryCount)) off) hwf
      (by rw [hgrow]; exact Nat.lt_succ_self _) hi
    exact hbytes.trans (by rw [hgrow])
  · refine ⟨useEntry_wf hwf, ?_, ?_⟩
    · refine ⟨[], ?_, List.nodup_nil, fun m => ?_⟩
      · show _ = _
        rw [hheadEq]
        exact hhead
      · -- the list of unused entries is empty, so every old entry is in use
        have hall := (h.listed.head_cases h.wf).resolve_right fun hc => hc.1 hhead
        simp only [List.not_mem_nil, false_iff]
        rintro ⟨hm, hunused⟩
        rw [hcount] at hm
        by_cases hmn : m = p.mSlotEntryCount
        · rw [hmn, hnew.2] at hunused
          cases hunused
        · rw [hentry m hmn, hall.2 m (by omega)] at hunused
          cases hunused
    · intro m o
      rw [hcount]
      by_cases hmn : m = p.mSlotEntryCount
      · rw [hmn, Function.update_self, hnew.1, hnew.2]
        simp
      · rw [Function.update_of_ne hmn, hentry m hmn, h.holds m o]
        have hlt : m < p.mSlotEntryCount ↔ m < p.mSlotEntryCount + 1 := by omega
        rw [hlt]

/-- `alloc` of the head of the list. -/
theorem alloc_head {held : ℕ → Option ℕ} {off : ℕ} (h : DirInv L p held)
    (hhead : p.mHead ≠ SDP_INVALID_SLOT_ENTRY_NUM) (ho : off < 0x8000) :
    held p.mHead = none ∧ p.mHead < p.mSlotEntryCount
      ∧ DirectoryOnly p (useEntry L { p with mHead := nextUnused L p p.mHead } p.mHead off)
      ∧ DirInv L (useEntry L { p with mHead := nextUnused L p p.mHead } p.mHead off)
          (Function.update held p.mHead (some off)) := by
  rcases h.listed.head_cases h.wf with ⟨hinv, -⟩ | ⟨-, hlt, hunused, rest, hlink, hnodup, hmem⟩
  · exact absurd hinv hhead
  have hnone : held p.mHead = none := (h.holds.unused hlt).mp hunused
  have hentry : ∀ m, m ≠ p.mHead →
      entry L (useEntry L { p with mHead := nextUnused L p p.mHead } p.mHead off) m
        = entry L p m := fun m hm => entry_useEntry_of_ne hm
  have hnew := entry_useEntry (L := L) (p := { p with mHead := nextUnused L p p.mHead })
    (n := p.mHead) ho
  have hcount : (useEntry L { p with mHead := nextUnused L p p.mHead } p.mHead
      off).mSlotEntryCount = p.mSlotEntryCount := rfl
  have hwf : DirWF L { p with mHead := nextUnused L p p.mHead } :=
    ⟨h.wf.begin_eq, h.wf.begin_le, h.wf.end_le, h.wf.total_le, h.wf.avail_le⟩
  obtain ⟨hnot, hnodup'⟩ := List.nodup_cons.mp hnodup
  refine ⟨hnone, hlt, ⟨rfl, rfl, fun i hi => setEntry_bytes hwf hlt hi⟩, useEntry_wf hwf, ?_, ?_⟩
  · -- the list goes on behind the head
    refine ⟨rest, ?_, hnodup', fun m => ?_⟩
    · apply hlink.congr
      intro m hm
      have hne : m ≠ p.mHead := fun heq => hnot (heq ▸ hm)
      unfold nextUnused
      rw [← hentry m hne]
      rfl
    · rw [hcount]
      by_cases hmn : m = p.mHead
      · rw [hmn, hnew.2]
        simp [hnot]
      · rw [hentry m hmn, ← hmem m, List.mem_cons]
        simp [hmn]
  · -- the head has the new offset, the others have theirs
    intro m o
    rw [hcount]
    by_cases hmn : m = p.mHead
    · rw [hmn, Function.update_self, hnew.1, hnew.2]
      simp [hlt]
    · rw [Function.update_of_ne hmn, hentry m hmn]
      exact h.holds m o

/-- **`alloc` succeeds, with a number that is not in use**, and changes nothing
but the directory. -/
theorem alloc_dir {held : ℕ → Option ℕ} {off : ℕ} (h : DirInv L p held)
    (hroom : p.mHead = SDP_INVALID_SLOT_ENTRY_NUM → RoomForEntry p) (ho : off < 0x8000) :
    ∃ p' n, alloc L p off = some (p', n) ∧ held n = none ∧ SizesFollow p p'
      ∧ p.mSlotEntryCount ≤ p'.mSlotEntryCount
      ∧ p'.mSlotEntryCount ≤ p.mSlotEntryCount
          + (if p.mHead = SDP_INVALID_SLOT_ENTRY_NUM then 1 else 0)
      ∧ DirectoryOnly p p' ∧ DirInv L p' (Function.update held n (some off)) := by
  rcases alloc_cases h.wf h.listed off with ⟨hhead, heq⟩ | ⟨hhead, heq⟩
  · obtain ⟨hnone, hsizes, honly, hinv⟩ := alloc_new h hhead (hroom hhead) ho
    refine ⟨_, _, heq, hnone, hsizes, ?_, ?_, honly, hinv⟩
    · refine Nat.le_trans (Nat.le_succ _) (Nat.le_of_eq ?_)
      rw [useEntry_mSlotEntryCount, growDirectory_eq h.wf (hroom hhead)]
    · apply Nat.le_of_eq
      rw [if_pos hhead, useEntry_mSlotEntryCount, growDirectory_eq h.wf (hroom hhead)]
  · obtain ⟨hnone, -, honly, hinv⟩ := alloc_head h hhead ho
    exact ⟨_, _, heq, hnone, SizesFollow.of_same rfl rfl rfl rfl, Nat.le_refl _,
      Nat.le_add_right _ _, honly, hinv⟩

/-- **`alloc`**: a number that was free, and all else as it was. -/
theorem alloc_spec {held : ℕ → Option ℕ} {off : ℕ} (h : ReuseInv L p held)
    (hok : AllocRespects L p held off) :
    ∃ p' n, alloc L p off = some (p', n) ∧ held n = none ∧ SizesFollow p p'
      ∧ ReuseInv L p' (Function.update held n (some off)) := by
  obtain ⟨hroom, hlo, hhi, hfresh⟩ := hok
  obtain ⟨p', n, heq, hnone, hsizes, -, -, honly, hinv⟩ := alloc_dir h.toDirInv hroom
    (L.offset_lt hhi)
  exact ⟨p', n, heq, hnone, hsizes, hinv, h.apart.insert honly.endOffset hlo hhi hfresh n⟩

/-- The head of the list is a link or the invalid number. -/
theorem UnusedListed.mHead_lt (hwf : DirWF L p) (h : UnusedListed L p) : p.mHead < 0x8000 := by
  have hcount := hwf.count_lt
  rcases h.head_cases hwf with ⟨hinv, -⟩ | ⟨-, hlt, -⟩
  · rw [hinv]
    decide
  · omega

/-- **`free` of an entry in use succeeds**, and changes nothing but the
directory. -/
theorem free_dir {held : ℕ → Option ℕ} (h : DirInv L p held) (hn : held n ≠ none) :
    ∃ p', free L p n = some p' ∧ SizesFollow p p' ∧ p'.mSlotEntryCount = p.mSlotEntryCount
      ∧ DirectoryOnly p p' ∧ DirInv L p' (Function.update held n none) := by
  have hlt := h.holds.lt hn
  have hused : isUnusedSlotEntry (entry L p n) = false := by
    by_contra hunused
    exact hn ((h.holds.unused hlt).mp (by simpa using hunused))
  have hhead := h.listed.mHead_lt h.wf
  -- the entry is marked first and linked then
  have hw1 := setUnusedFlag_lt (setOffset_lt (entry_lt (L := L) p n) SDP_INVALID_SLOT_ENTRY_NUM)
  have hread := entry_setEntry (L := L) (p := p) (n := n) hw1
  have hvalid : validateSlot L p n true = true := by
    unfold validateSlot
    rw [hused]
    rfl
  have hvalid' : validateSlot L (setEntry L p n (setUnusedFlag (setOffset (entry L p n)
      SDP_INVALID_SLOT_ENTRY_NUM))) n false = true := by
    unfold validateSlot
    rw [hread, isUnused_setUnusedFlag]
    rfl
  have hfree : free L p n = some { setEntry L (setEntry L p n (setUnusedFlag (setOffset
      (entry L p n) SDP_INVALID_SLOT_ENTRY_NUM))) n (setOffset (setUnusedFlag (setOffset
        (entry L p n) SDP_INVALID_SLOT_ENTRY_NUM)) p.mHead) with mHead := n } := by
    unfold free addToUnusedSlotEntryList
    rw [if_pos hvalid, if_pos hvalid', hread]
    rfl
  have honly : ∀ i, p.mFreeSpaceBeginOffset ≤ i → (setEntry L (setEntry L p n (setUnusedFlag
      (setOffset (entry L p n) SDP_INVALID_SLOT_ENTRY_NUM))) n (setOffset (setUnusedFlag
        (setOffset (entry L p n) SDP_INVALID_SLOT_ENTRY_NUM)) p.mHead)).image i = p.image i :=
    fun i hi => (setEntry_bytes (setEntry_wf h.wf) hlt hi).trans (setEntry_bytes h.wf hlt hi)
  refine ⟨_, hfree, SizesFollow.of_same rfl rfl rfl rfl, rfl, ⟨rfl, rfl, honly⟩, ?_⟩
  generalize hp' : ({ setEntry L (setEntry L p n (setUnusedFlag (setOffset (entry L p n)
    SDP_INVALID_SLOT_ENTRY_NUM))) n (setOffset (setUnusedFlag (setOffset (entry L p n)
      SDP_INVALID_SLOT_ENTRY_NUM)) p.mHead) with mHead := n } : PhyPage) = p'
  have hcount : p'.mSlotEntryCount = p.mSlotEntryCount := by rw [← hp']; rfl
  have hself : entry L p' n = setOffset (setUnusedFlag (setOffset (entry L p n)
      SDP_INVALID_SLOT_ENTRY_NUM)) p.mHead := by
    rw [← hp']
    exact entry_setEntry (setOffset_lt hw1 _)
  have hother : ∀ m, m ≠ n → entry L p' m = entry L p m := by
    intro m hm
    rw [← hp']
    exact (entry_setEntry_of_ne hm).trans (entry_setEntry_of_ne hm)
  have hnext : nextUnused L p' n = p.mHead := by
    unfold nextUnused
    rw [hself, getOffset_setOffset]
    exact Nat.mod_eq_of_lt hhead
  have hmark : isUnusedSlotEntry (entry L p' n) = true := by
    rw [hself, isUnused_setOffset, isUnused_setUnusedFlag]
  obtain ⟨l, hlink, hnodup, hmem⟩ := h.listed
  have hnot : n ∉ l := by
    rw [hmem n, hused]
    simp
  constructor
  · rw [← hp']
    exact ⟨h.wf.begin_eq, h.wf.begin_le, h.wf.end_le, h.wf.total_le, h.wf.avail_le⟩
  · refine ⟨n :: l, ⟨by rw [← hp'], ?_⟩, List.nodup_cons.mpr ⟨hnot, hnodup⟩, fun m => ?_⟩
    · rw [hnext]
      apply hlink.congr
      intro m hm
      unfold nextUnused
      rw [hother m fun heq => hnot (heq ▸ hm)]
    · rw [hcount, List.mem_cons]
      by_cases hmn : m = n
      · rw [hmn, hmark]
        simp [hlt]
      · rw [hother m hmn, hmem m]
        simp [hmn]
  · intro m o
    rw [hcount]
    by_cases hmn : m = n
    · rw [hmn, Function.update_self, hmark]
      simp
    · rw [Function.update_of_ne hmn, hother m hmn]
      exact h.holds m o

/-- **`free`**: the number is free again, and all else as it was. -/
theorem free_spec {held : ℕ → Option ℕ} (h : ReuseInv L p held) (hn : held n ≠ none) :
    ∃ p', free L p n = some p' ∧ SizesFollow p p'
      ∧ ReuseInv L p' (Function.update held n none) := by
  obtain ⟨p', heq, hsizes, -, honly, hinv⟩ := free_dir h.toDirInv hn
  have hsub : ∀ m o, Function.update held n none m = some o → held m = some o := by
    intro m o hm
    by_cases hmn : m = n
    · rw [hmn, Function.update_self] at hm
      cases hm
    · rwa [Function.update_of_ne hmn] at hm
  refine ⟨p', heq, hsizes, hinv, fun m o hm => ?_,
    fun m k o hm hk => h.apart.2 m k o (hsub m o hm) (hsub k o hk)⟩
  rw [honly.endOffset]
  exact h.apart.1 m o (hsub m o hm)

/-! ## §7. Search by offset. -/

/-- The list does not leave its entries. -/
theorem LinkedFrom.next_mem {next : ℕ → ℕ} {l : List ℕ} {head : ℕ} (h : LinkedFrom next head l)
    (hn : n ∈ l) : next n = SDP_INVALID_SLOT_ENTRY_NUM ∨ next n ∈ l := by
  induction l generalizing head with
  | nil => cases hn
  | cons m rest ih =>
    obtain ⟨-, htail⟩ := h
    rcases List.mem_cons.mp hn with rfl | hn
    · cases rest with
      | nil => exact Or.inl htail
      | cons k rest =>
        right
        rw [htail.1]
        simp
    · rcases ih htail hn with hnext | hnext
      · exact Or.inl hnext
      · exact Or.inr (List.mem_cons_of_mem m hnext)

/-- **No link is a slot's offset**: links are entry numbers, and an offset lies
behind all entries. -/
theorem ReuseInv.link_ne {held : ℕ → Option ℕ} {off : ℕ} (h : ReuseInv L p held)
    (hlo : p.mFreeSpaceEndOffset ≤ off) (hhi : off ≤ L.footer) (hm : m < p.mSlotEntryCount)
    (hunused : isUnusedSlotEntry (entry L p m) = true) : getOffset (entry L p m) ≠ off := by
  obtain ⟨l, hlink, -, hmem⟩ := h.listed
  have hbegin := h.wf.begin_eq
  have hle := h.wf.begin_le
  have hpage := L.inPage
  simp only [slotEntryPos, slotEntrySize, SD_PAGE_SIZE] at hbegin hpage
  rcases hlink.next_mem ((hmem m).mpr ⟨hm, hunused⟩) with hnext | hnext
  · have hval : getOffset (entry L p m) = 0x7FFF := hnext
    omega
  · have hlt := ((hmem _).mp hnext).1
    unfold nextUnused at hlt
    omega

/-- The loop stops at the only entry with the offset. -/
theorem findLoop_eq {off : ℕ} (hused : isUnusedSlotEntry (entry L p n) = false)
    (hoff : getOffset (entry L p n) = off)
    (honly : ∀ m < n, getOffset (entry L p m) ≠ off) (k i : ℕ) (hi : i ≤ n) (hk : n < i + k) :
    findLoop L p off k i = some n := by
  induction k generalizing i with
  | zero => omega
  | succ k ih =>
    unfold findLoop
    by_cases hin : i = n
    · rw [hin, if_pos hoff, if_pos]
      unfold validateSlot
      rw [hused]
      rfl
    · rw [if_neg (honly i (by omega))]
      exact ih (i + 1) (by omega) (by omega)

/-- **`find` returns the number of the used entry with the offset.** -/
theorem find_spec {held : ℕ → Option ℕ} {off : ℕ} (h : ReuseInv L p held)
    (hn : held n = some off) : find L p off = some n := by
  obtain ⟨hlt, hused, hoff⟩ := (h.holds n off).mp hn
  obtain ⟨hlo, hhi⟩ := h.apart.1 n off hn
  unfold find
  apply findLoop_eq hused hoff _ _ _ (by omega) (by omega)
  intro m hm hmoff
  have hmused : isUnusedSlotEntry (entry L p m) = false := by
    by_contra hunused
    exact h.link_ne hlo hhi (by omega) (by simpa using hunused) hmoff
  have := h.apart.2 m n off ((h.holds m off).mpr ⟨by omega, hmused, hmoff⟩) hn
  omega

end Reuse

/-! ## §8. The directory as a sequence. -/

section Shift

variable {L : PageLayout} {p : PhyPage} {n m : ℕ} {held : List ℕ}

/-- All entries are used, and entry `n` holds the `n`-th offset. -/
structure ShiftInv (L : PageLayout) (p : PhyPage) (held : List ℕ) : Prop where
  wf : DirWF L p
  noUnused : p.mHead = SDP_INVALID_SLOT_ENTRY_NUM
  length : held.length = p.mSlotEntryCount
  entries : ∀ n off, held[n]? = some off →
    isUnusedSlotEntry (entry L p n) = false ∧ getOffset (entry L p n) = off
  inSpace : ∀ off ∈ held, p.mFreeSpaceEndOffset ≤ off ∧ off ≤ L.footer
  nodup : held.Nodup

/-- A slot of the sequence has a number below its length. -/
theorem getElem?_isSome_iff {off : ℕ} (h : held[n]? = some off) : n < held.length := by
  by_contra hge
  rw [List.getElem?_eq_none (by omega)] at h
  cases h

/-- Without `free` every entry is used. -/
theorem ShiftInv.used (h : ShiftInv L p held) (hn : n < p.mSlotEntryCount) :
    isUnusedSlotEntry (entry L p n) = false := by
  rw [← h.length] at hn
  exact (h.entries n _ (List.getElem?_eq_getElem hn)).1

/-- It is a directory without unused entries. -/
theorem ShiftInv.reuse (h : ShiftInv L p held) : ReuseInv L p (fun n => held[n]?) where
  wf := h.wf
  listed := by
    refine ⟨[], h.noUnused, List.nodup_nil, fun n => ?_⟩
    simp only [List.not_mem_nil, false_iff]
    rintro ⟨hn, hunused⟩
    rw [h.used hn] at hunused
    cases hunused
  holds n off := by
    constructor
    · intro hn
      obtain ⟨hused, hoff⟩ := h.entries n off hn
      exact ⟨h.length ▸ getElem?_isSome_iff hn, hused, hoff⟩
    · rintro ⟨hlt, -, hoff⟩
      rw [← h.length] at hlt
      show held[n]? = some off
      rw [List.getElem?_eq_getElem hlt, ← (h.entries n _ (List.getElem?_eq_getElem hlt)).2, hoff]
  apart := by
    refine ⟨fun n off hn => h.inSpace off (List.mem_of_getElem? hn), fun n m off hn hm => ?_⟩
    exact (List.getElem?_inj (getElem?_isSome_iff hn) h.nodup).mp (hn.trans hm.symm)

/-- A shift leaves the entries in front of it alone: -/
theorem entry_shiftToBottom_of_le (h : m ≤ n) :
    entry L (shiftToBottom L p n) m = entry L p m := by
  apply readWord_copy_outside
  left
  unfold slotEntryPos slotEntrySize
  omega

/-- An entry behind the gap is the one that was before it. -/
theorem entry_shiftToBottom (hwf : DirWF L p) (hn : n ≤ m) (hm : m < p.mSlotEntryCount) :
    entry L (shiftToBottom L p n) (m + 1) = entry L p m := by
  have hend := hwf.pos_le (n := m + 1) (by omega)
  have hpos := hwf.pos_le (n := n) (by omega)
  have hlt := hwf.sizes_lt.1
  have hsize : subUShort p.mFreeSpaceBeginOffset (slotEntryPos L n)
      = p.mFreeSpaceBeginOffset - slotEntryPos L n := subUShort_eq hpos (by omega)
  unfold slotEntryPos slotEntrySize at hend
  unfold entry shiftToBottom memmove
  dsimp only
  rw [hsize, readWord_copy_inside]
  · congr 1
    unfold slotEntryPos slotEntrySize
    omega
  · unfold slotEntryPos slotEntrySize at *
    omega

/-- the one for a new entry, and the one for an entry that goes. -/
theorem entry_shiftToTop_of_lt (h : m < n) : entry L (shiftToTop L p n) m = entry L p m := by
  apply readWord_copy_outside
  left
  unfold slotEntryPos slotEntrySize
  omega

/-- An entry behind the removed one moves up. -/
theorem entry_shiftToTop (hwf : DirWF L p) (hn : n ≤ m) (hm : m + 1 < p.mSlotEntryCount) :
    entry L (shiftToTop L p n) m = entry L p (m + 1) := by
  have hend := hwf.pos_le (n := m + 2) (by omega)
  have hpos := hwf.pos_le (n := n + 1) (by omega)
  have hlt := hwf.sizes_lt.1
  have hsize : subUShort p.mFreeSpaceBeginOffset (slotEntryPos L (n + 1))
      = p.mFreeSpaceBeginOffset - slotEntryPos L (n + 1) := subUShort_eq hpos (by omega)
  unfold slotEntryPos slotEntrySize at hend
  unfold entry shiftToTop memmove
  dsimp only
  rw [hsize, readWord_copy_inside]
  · congr 1
    unfold slotEntryPos slotEntrySize
    omega
  · unfold slotEntryPos slotEntrySize at *
    omega

/-- The page in which `allocWithShift` uses the entry. -/
def shiftedForAlloc (L : PageLayout) (p : PhyPage) (n : ℕ) : PhyPage :=
  if n ≠ p.mSlotEntryCount then shiftToBottom L p n else p

/-- Both shifts write bytes only: -/
theorem shiftedForAlloc_fields (n : ℕ) :
    ∃ img, shiftedForAlloc L p n = { p with image := img } := by
  unfold shiftedForAlloc shiftToBottom
  split
  · exact ⟨_, rfl⟩
  · exact ⟨p.image, rfl⟩

/-- The entries with a gap at `n`. -/
theorem entry_shiftedForAlloc (hwf : DirWF L p) :
    (∀ m < n, entry L (shiftedForAlloc L p n) m = entry L p m)
      ∧ ∀ m, n ≤ m → m < p.mSlotEntryCount →
          entry L (shiftedForAlloc L p n) (m + 1) = entry L p m := by
  unfold shiftedForAlloc
  by_cases hlast : n = p.mSlotEntryCount
  · rw [if_neg (by simp [hlast])]
    exact ⟨fun m _ => rfl, fun m h1 h2 => by omega⟩
  · rw [if_pos hlast]
    exact ⟨fun m hm => entry_shiftToBottom_of_le (by omega),
      fun m h1 h2 => entry_shiftToBottom hwf h1 h2⟩

/-- The guard of `allocWithShift`. -/
def InsertRespects (L : PageLayout) (p : PhyPage) (held : List ℕ) (n off : ℕ) : Prop :=
  n ≤ p.mSlotEntryCount ∧ RoomForEntry p ∧ p.mFreeSpaceEndOffset ≤ off ∧ off ≤ L.footer
    ∧ off ∉ held

/-- **`allocWithShift` inserts the offset.** -/
theorem allocWithShift_spec {off : ℕ} (h : ShiftInv L p held)
    (hok : InsertRespects L p held n off) :
    SizesFollow p (allocWithShift L p n off)
      ∧ ShiftInv L (allocWithShift L p n off) (held.insertIdx n off) := by
  obtain ⟨hn, hroom, hlo, hhi, hfresh⟩ := hok
  obtain ⟨img, himg⟩ := shiftedForAlloc_fields (L := L) (p := p) n
  obtain ⟨hbelow, habove⟩ := entry_shiftedForAlloc (n := n) h.wf
  have halloc : allocWithShift L p n off
      = useEntry L (growDirectory (shiftedForAlloc L p n)) n off := rfl
  have hwf : DirWF L (shiftedForAlloc L p n) := by
    rw [himg]
    exact h.wf.of_image img
  have hroom' : RoomForEntry (shiftedForAlloc L p n) := by
    rw [himg]
    exact hroom
  have hgrow := growDirectory_eq hwf hroom'
  have hcount : (shiftedForAlloc L p n).mSlotEntryCount = p.mSlotEntryCount := by rw [himg]
  -- the directory grows by one entry, the entries from `n` on have moved up
  have hsizes : SizesFollow p (growDirectory (shiftedForAlloc L p n)) := by
    have := growDirectory_sizes hwf hroom'
    rw [himg] at this ⊢
    exact this
  have hnew := entry_useEntry (L := L) (p := growDirectory (shiftedForAlloc L p n)) (n := n)
    (L.offset_lt hhi)
  have hentry : ∀ m, m ≠ n → entry L (useEntry L (growDirectory (shiftedForAlloc L p n)) n off) m
      = entry L (shiftedForAlloc L p n) m :=
    fun m hm => (entry_useEntry_of_ne hm).trans entry_growDirectory
  rw [halloc]
  refine ⟨useEntry_sizesFollow.mpr hsizes, useEntry_wf (growDirectory_wf hwf hroom'), ?_, ?_, ?_,
    ?_, ?_⟩
  · rw [useEntry_mHead, hgrow]
    show (shiftedForAlloc L p n).mHead = _
    rw [himg]
    exact h.noUnused
  · rw [useEntry_mSlotEntryCount, hgrow, List.length_insertIdx, if_pos (by rw [h.length]; exact hn),
      h.length, ← hcount]
  · intro m o hm
    rw [List.getElem?_insertIdx] at hm
    -- below the new entry, the new entry, above it
    by_cases hlt : m < n
    · rw [if_pos hlt] at hm
      rw [hentry m (by omega), hbelow m hlt]
      exact h.entries m o hm
    · rw [if_neg hlt] at hm
      by_cases heq : m = n
      · rw [if_pos heq, if_pos (by rw [h.length]; omega)] at hm
        cases hm
        rw [heq]
        exact ⟨hnew.2, hnew.1⟩
      · rw [if_neg heq] at hm
        obtain ⟨k, rfl⟩ : ∃ k, m = k + 1 := ⟨m - 1, by omega⟩
        rw [Nat.add_sub_cancel] at hm
        have hk := getElem?_isSome_iff hm
        rw [h.length] at hk
        rw [hentry (k + 1) heq, habove k (by omega) hk]
        exact h.entries k o hm
  · intro o ho
    rw [useEntry_mFreeSpaceEndOffset, hgrow]
    show (shiftedForAlloc L p n).mFreeSpaceEndOffset ≤ o ∧ _
    rw [himg]
    rcases (List.mem_insertIdx (by rw [h.length]; exact hn)).mp ho with rfl | ho
    · exact ⟨hlo, hhi⟩
    · exact h.inSpace o ho
  · rw [(List.perm_insertIdx off held (by rw [h.length]; exact hn)).nodup_iff]
    exact List.nodup_cons.mpr ⟨hfresh, h.nodup⟩

/-- The page that `freeWithShift` shortens. -/
def shiftedForFree (L : PageLayout) (p : PhyPage) (n : ℕ) : PhyPage :=
  if n ≠ subUShort p.mSlotEntryCount 1 then shiftToTop L p n else p

/-- the headers are as they were. -/
theorem shiftedForFree_fields (n : ℕ) :
    ∃ img, shiftedForFree L p n = { p with image := img } := by
  unfold shiftedForFree shiftToTop
  split
  · exact ⟨_, rfl⟩
  · exact ⟨p.image, rfl⟩

/-- The entries behind the slot get the number before theirs. -/
theorem entry_shiftedForFree (hwf : DirWF L p) (hn : n < p.mSlotEntryCount) :
    (∀ m < n, entry L (shiftedForFree L p n) m = entry L p m)
      ∧ ∀ m, n ≤ m → m + 1 < p.mSlotEntryCount →
          entry L (shiftedForFree L p n) m = entry L p (m + 1) := by
  have hlast : subUShort p.mSlotEntryCount 1 = p.mSlotEntryCount - 1 :=
    subUShort_eq (by omega) (by have := hwf.count_lt; omega)
  unfold shiftedForFree
  rw [hlast]
  by_cases hcase : n = p.mSlotEntryCount - 1
  · rw [if_neg (by simp [hcase])]
    exact ⟨fun m _ => rfl, fun m h1 h2 => by omega⟩
  · rw [if_pos hcase]
    exact ⟨fun m hm => entry_shiftToTop_of_lt hm, fun m h1 h2 => entry_shiftToTop hwf h1 h2⟩

/-- **`freeWithShift` removes the entry.** -/
theorem freeWithShift_spec (h : ShiftInv L p held) (hn : n < p.mSlotEntryCount) :
    ∃ p', freeWithShift L p n = some p' ∧ SizesFollow p p' ∧ ShiftInv L p' (held.eraseIdx n) := by
  obtain ⟨img, himg⟩ := shiftedForFree_fields (L := L) (p := p) n
  obtain ⟨hbelow, habove⟩ := entry_shiftedForFree h.wf hn
  have hvalid : validateSlot L p n true = true := by
    unfold validateSlot
    rw [h.used hn]
    rfl
  have hfree : freeWithShift L p n = some (shrinkDirectory (shiftedForFree L p n)) := by
    unfold freeWithShift
    rw [if_pos hvalid]
    rfl
  have hwf : DirWF L (shiftedForFree L p n) := by
    rw [himg]
    exact h.wf.of_image img
  have hcount : (shiftedForFree L p n).mSlotEntryCount = p.mSlotEntryCount := by rw [himg]
  have hpos : 0 < (shiftedForFree L p n).mSlotEntryCount := by
    rw [hcount]
    omega
  have hshrink := shrinkDirectory_eq hwf hpos
  have hsizes : SizesFollow p (shrinkDirectory (shiftedForFree L p n)) := by
    have := shrinkDirectory_sizes hwf hpos
    rw [himg] at this ⊢
    exact this
  refine ⟨_, hfree, hsizes, shrinkDirectory_wf hwf hpos, ?_, ?_, ?_, ?_, ?_⟩
  · -- no unused entries
    rw [hshrink]
    show (shiftedForFree L p n).mHead = _
    rw [himg]
    exact h.noUnused
  · rw [hshrink, List.length_eraseIdx, if_pos (by rw [h.length]; exact hn), h.length, ← hcount]
  · -- below the slot the entries are as they were, behind it one further on
    intro m o hm
    rw [entry_shrinkDirectory]
    rw [List.getElem?_eraseIdx] at hm
    by_cases hlt : m < n
    · rw [if_pos hlt] at hm
      rw [hbelow m hlt]
      exact h.entries m o hm
    · rw [if_neg hlt] at hm
      have hk := getElem?_isSome_iff hm
      rw [h.length] at hk
      rw [habove m (by omega) hk]
      exact h.entries (m + 1) o hm
  · -- the slots stay in their space
    intro o ho
    rw [hshrink]
    show (shiftedForFree L p n).mFreeSpaceEndOffset ≤ o ∧ _
    rw [himg]
    exact h.inSpace o (List.mem_of_mem_eraseIdx ho)
  · exact h.nodup.sublist (List.eraseIdx_sublist held n)

end Shift

/-! ## §9. Runs. -/

section Runs

variable {L : PageLayout}

/-- The rest of the page changes: slot space is taken or given back, rows are
written. -/
def changeSpace (p : PhyPage) (e t a : ℕ) (img : ByteImage) : PhyPage :=
  { p with
    mFreeSpaceEndOffset := e, mTotalFreeSize := t, mAvailableFreeSize := a, image := img }

/-- The directory is left alone, the slot space stays behind it and keeps the
slots in use. -/
def SpaceRespects (L : PageLayout) (p : PhyPage) (held : ℕ → Option ℕ) (e t a : ℕ)
    (img : ByteImage) : Prop :=
  p.mFreeSpaceBeginOffset ≤ e ∧ e ≤ L.footer ∧ (∀ n off, held n = some off → e ≤ off)
    ∧ p.mFreeSpaceBeginOffset + t ≤ L.footer ∧ a ≤ t
    ∧ ∀ i < p.mFreeSpaceBeginOffset, img i = p.image i

/-- The calls on a directory that keeps the numbers, and the other changes of its page. -/
inductive ReuseAction where
  | alloc (aSlotOffset : ℕ)
  | free (aSlotNum : ℕ)
  | space (e t a : ℕ) (img : ByteImage)

/-- A page, with the offset that each number in use was allocated for. -/
structure ReuseState where
  page : PhyPage
  held : ℕ → Option ℕ

/-- `none` is a failed assertion. -/
def reuseStep (L : PageLayout) (s : ReuseState) : ReuseAction → Option ReuseState
  | .alloc aSlotOffset =>
      match alloc L s.page aSlotOffset with
      | none => none
      | some (p, n) => some { page := p, held := Function.update s.held n (some aSlotOffset) }
  | .free aSlotNum =>
      match free L s.page aSlotNum with
      | none => none
      | some p => some { page := p, held := Function.update s.held aSlotNum none }
  | .space e t a img => some { s with page := changeSpace s.page e t a img }

/-- The runs from a new directory. -/
def reuseSystem (L : PageLayout) (p0 : PhyPage) : System ReuseState ReuseAction where
  init := { page := init p0, held := fun _ => none }
  step := reuseStep L

/-- What the callers promise: an offset of free space, a number below the count. -/
def ReuseRespects (L : PageLayout) (s : ReuseState) : ReuseAction → Prop
  | .alloc aSlotOffset => AllocRespects L s.page s.held aSlotOffset
  | .free aSlotNum => aSlotNum < s.page.mSlotEntryCount
  | .space e t a img => SpaceRespects L s.page s.held e t a img

/-- The calls on a directory that shifts its entries, and the other changes of its page. -/
inductive ShiftAction where
  | allocWithShift (aSlotNum aSlotOffset : ℕ)
  | freeWithShift (aSlotNum : ℕ)
  | space (e t a : ℕ) (img : ByteImage)

/-- A page, with the offsets of its slots in the order of the directory. -/
structure ShiftState where
  page : PhyPage
  held : List ℕ

/-- `none` is a failed assertion. -/
def shiftStep (L : PageLayout) (s : ShiftState) : ShiftAction → Option ShiftState
  | .allocWithShift aSlotNum aSlotOffset =>
      some { page := allocWithShift L s.page aSlotNum aSlotOffset
             held := s.held.insertIdx aSlotNum aSlotOffset }
  | .freeWithShift aSlotNum =>
      match freeWithShift L s.page aSlotNum with
      | none => none
      | some p => some { page := p, held := s.held.eraseIdx aSlotNum }
  | .space e t a img => some { s with page := changeSpace s.page e t a img }

/-- The runs from a new directory. -/
def shiftSystem (L : PageLayout) (p0 : PhyPage) : System ShiftState ShiftAction where
  init := { page := init p0, held := [] }
  step := shiftStep L

/-- What the callers promise: a place in the directory, an offset of free space. -/
def ShiftRespects (L : PageLayout) (s : ShiftState) : ShiftAction → Prop
  | .allocWithShift aSlotNum aSlotOffset => InsertRespects L s.page s.held aSlotNum aSlotOffset
  | .freeWithShift aSlotNum => aSlotNum < s.page.mSlotEntryCount
  | .space e t a img => SpaceRespects L s.page (fun n => s.held[n]?) e t a img

/-- The headers of a page that has no slot directory yet. -/
structure HeadersOnly (L : PageLayout) (p : PhyPage) : Prop where
  begin_eq : p.mFreeSpaceBeginOffset = L.slotDirStart
  room : L.slotDirStart + slotDirHdrSize ≤ p.mFreeSpaceEndOffset
  end_le : p.mFreeSpaceEndOffset ≤ L.footer
  total_le : p.mFreeSpaceBeginOffset + p.mTotalFreeSize ≤ L.footer
  avail_ge : slotDirHdrSize ≤ p.mAvailableFreeSize
  avail_le : p.mAvailableFreeSize ≤ p.mTotalFreeSize

/-- The headers of a new directory. -/
theorem init_eq {p0 : PhyPage} (h : HeadersOnly L p0) :
    init p0 = { p0 with
      mFreeSpaceBeginOffset := p0.mFreeSpaceBeginOffset + slotDirHdrSize
      mTotalFreeSize := p0.mTotalFreeSize - slotDirHdrSize
      mAvailableFreeSize := p0.mAvailableFreeSize - slotDirHdrSize
      mSlotEntryCount := 0
      mHead := SDP_INVALID_SLOT_ENTRY_NUM } := by
  have h1 := h.begin_eq
  have h2 := h.total_le
  have h3 := h.avail_ge
  have h4 := h.avail_le
  have h5 := h.room
  have h6 := h.end_le
  have h7 := L.inPage
  unfold SD_PAGE_SIZE at h7
  unfold slotDirHdrSize at h3 h5
  unfold init slotDirHdrSize
  rw [addUShort_eq (by omega), subUShort_eq (by omega) (by omega),
    subUShort_eq (by omega) (by omega)]

/-- A new directory is the empty sequence. -/
theorem init_shiftInv {p0 : PhyPage} (h : HeadersOnly L p0) : ShiftInv L (init p0) [] := by
  have h3 := h.avail_ge
  have h4 := h.avail_le
  have h2 := h.total_le
  rw [init_eq h]
  refine ⟨⟨?_, ?_, h.end_le, ?_, ?_⟩, rfl, rfl, fun n off hn => by simp at hn,
    fun off hoff => by simp at hoff, List.nodup_nil⟩
  · show p0.mFreeSpaceBeginOffset + slotDirHdrSize = _
    rw [h.begin_eq]
    rfl
  · show p0.mFreeSpaceBeginOffset + slotDirHdrSize ≤ _
    rw [h.begin_eq]
    exact h.room
  · show p0.mFreeSpaceBeginOffset + slotDirHdrSize + (p0.mTotalFreeSize - slotDirHdrSize) ≤ _
    omega
  · show p0.mAvailableFreeSize - slotDirHdrSize ≤ p0.mTotalFreeSize - slotDirHdrSize
    omega

/-- Entries lie below the free space. -/
theorem entry_changeSpace {p : PhyPage} {e t a n : ℕ} {img : ByteImage} (hwf : DirWF L p)
    (himg : ∀ i < p.mFreeSpaceBeginOffset, img i = p.image i) (hn : n < p.mSlotEntryCount) :
    entry L (changeSpace p e t a img) n = entry L p n := by
  have hpos := hwf.pos_le (n := n + 1) (by omega)
  rw [slotEntryPos_succ] at hpos
  unfold slotEntrySize at hpos
  apply readWord_congr
  · exact himg _ (by omega)
  · exact himg _ (by omega)

/-- The directory does not depend on the slot space. -/
theorem changeSpace_dir {p : PhyPage} {held : ℕ → Option ℕ} {e t a : ℕ} {img : ByteImage}
    (h : DirInv L p held) (hbegin : p.mFreeSpaceBeginOffset ≤ e) (hend : e ≤ L.footer)
    (htotal : p.mFreeSpaceBeginOffset + t ≤ L.footer) (havail : a ≤ t)
    (himg : ∀ i < p.mFreeSpaceBeginOffset, img i = p.image i) :
    DirInv L (changeSpace p e t a img) held := by
  have hsame : ∀ n < p.mSlotEntryCount, entry L (changeSpace p e t a img) n = entry L p n :=
    fun n hn => entry_changeSpace h.wf himg hn
  obtain ⟨l, hlink, hnodup, hmem⟩ := h.listed
  refine ⟨⟨h.wf.begin_eq, hbegin, hend, htotal, havail⟩, ⟨l, ?_, hnodup, fun n => ?_⟩,
    fun n off => ?_⟩
  · apply hlink.congr
    intro n hn
    unfold nextUnused
    rw [hsame n ((hmem n).mp hn).1]
  · rw [hmem n]
    show _ ↔ n < p.mSlotEntryCount ∧ _
    constructor
    · rintro ⟨hn, hunused⟩
      exact ⟨hn, by rw [hsame n hn]; exact hunused⟩
    · rintro ⟨hn, hunused⟩
      rw [hsame n hn] at hunused
      exact ⟨hn, hunused⟩
  · rw [h.holds n off]
    show _ ↔ n < p.mSlotEntryCount ∧ _
    constructor
    · rintro ⟨hn, hrest⟩
      exact ⟨hn, by rw [hsame n hn]; exact hrest⟩
    · rintro ⟨hn, hrest⟩
      rw [hsame n hn] at hrest
      exact ⟨hn, hrest⟩

/-- The rest of the page may change. -/
theorem changeSpace_reuseInv {p : PhyPage} {held : ℕ → Option ℕ} {e t a : ℕ} {img : ByteImage}
    (h : ReuseInv L p held) (hok : SpaceRespects L p held e t a img) :
    ReuseInv L (changeSpace p e t a img) held := by
  obtain ⟨hbegin, hend, hheld, htotal, havail, himg⟩ := hok
  refine ⟨changeSpace_dir h.toDirInv hbegin hend htotal havail himg, fun n off hn => ?_, h.apart.2⟩
  exact ⟨hheld n off hn, (h.apart.1 n off hn).2⟩

/-- **One step of `alloc`, `free` or the rest of the page.** -/
theorem reuseStep_inv {s s' : ReuseState} {act : ReuseAction} (h : ReuseInv L s.page s.held)
    (hok : ReuseRespects L s act) (hstep : reuseStep L s act = some s') :
    ReuseInv L s'.page s'.held := by
  cases act with
  | alloc off =>
    obtain ⟨p', n, heq, -, -, hinv⟩ := alloc_spec h hok
    simp only [reuseStep, heq, Option.some.injEq] at hstep
    rw [← hstep]
    exact hinv
  | free n =>
    by_cases hn : s.held n = none
    · -- the entry is unused, and `free` reports it
      have hunused := (h.holds.unused hok).mpr hn
      simp [reuseStep, free, validateSlot, hunused] at hstep
    · obtain ⟨p', heq, -, hinv⟩ := free_spec h hn
      simp only [reuseStep, heq, Option.some.injEq] at hstep
      rw [← hstep]
      exact hinv
  | space e t a img =>
    simp only [reuseStep, Option.some.injEq] at hstep
    rw [← hstep]
    exact changeSpace_reuseInv h hok

/-- **Every run keeps the directory**, with numbers that stay. -/
theorem reuse_reachable {p0 : PhyPage} (h0 : HeadersOnly L p0) {s : ReuseState}
    (hs : (reuseSystem L p0).ReachableBy (ReuseRespects L) s) : ReuseInv L s.page s.held :=
  System.Path.invariant hs (I := fun s => ReuseInv L s.page s.held)
    (fun _ _ _ hinv hok hst => reuseStep_inv hinv hok hst) (init_shiftInv h0).reuse

/-- One step of the shifting directory. -/
theorem shiftStep_inv {s s' : ShiftState} {act : ShiftAction} (h : ShiftInv L s.page s.held)
    (hok : ShiftRespects L s act) (hstep : shiftStep L s act = some s') :
    ShiftInv L s'.page s'.held := by
  cases act with
  | allocWithShift n off =>
    simp only [shiftStep, Option.some.injEq] at hstep
    rw [← hstep]
    exact (allocWithShift_spec h hok).2
  | freeWithShift n =>
    obtain ⟨p', heq, -, hinv⟩ := freeWithShift_spec h hok
    simp only [shiftStep, heq, Option.some.injEq] at hstep
    rw [← hstep]
    exact hinv
  | space e t a img =>
    simp only [shiftStep, Option.some.injEq] at hstep
    rw [← hstep]
    refine ⟨⟨h.wf.begin_eq, hok.1, hok.2.1, hok.2.2.2.1, hok.2.2.2.2.1⟩, h.noUnused, h.length,
      fun n off hn => ?_, fun off hoff => ?_, h.nodup⟩
    · have hlt := getElem?_isSome_iff hn
      rw [h.length] at hlt
      show isUnusedSlotEntry (entry L (changeSpace s.page e t a img) n) = false
        ∧ getOffset (entry L (changeSpace s.page e t a img) n) = off
      rw [entry_changeSpace h.wf hok.2.2.2.2.2 hlt]
      exact h.entries n off hn
    · obtain ⟨n, hn⟩ := List.getElem?_of_mem hoff
      exact ⟨hok.2.2.1 n off hn, (h.inSpace off hoff).2⟩

/-- **Every run keeps the sequence.** -/
theorem shift_reachable {p0 : PhyPage} (h0 : HeadersOnly L p0) {s : ShiftState}
    (hs : (shiftSystem L p0).ReachableBy (ShiftRespects L) s) : ShiftInv L s.page s.held :=
  System.Path.invariant hs (I := fun s => ShiftInv L s.page s.held)
    (fun _ _ _ hinv hok hst => shiftStep_inv hinv hok hst) (init_shiftInv h0)

/-- **The slot directory, over all runs.**  With reuse: the unused entries are
those of the list from `mHead`, an entry in use keeps its offset, `alloc` hands
out a number that is not in use, the sizes follow the entry count, and `find`
inverts the directory.  With shifting, the directory is the sequence of the
offsets. -/
theorem slotDirectory_correct (L : PageLayout) (p0 : PhyPage) (h0 : HeadersOnly L p0) :
    (∀ s, (reuseSystem L p0).ReachableBy (ReuseRespects L) s →
      UnusedListed L s.page ∧ Holds L s.page s.held
      ∧ (∀ off, AllocRespects L s.page s.held off → ∃ p' n,
          alloc L s.page off = some (p', n) ∧ s.held n = none ∧ SizesFollow s.page p')
      ∧ (∀ n, s.held n ≠ none → ∃ p', free L s.page n = some p' ∧ SizesFollow s.page p')
      ∧ ∀ n off, s.held n = some off → find L s.page off = some n)
    ∧ (∀ s, (shiftSystem L p0).ReachableBy (ShiftRespects L) s →
      UnusedListed L s.page ∧ Holds L s.page (fun n => s.held[n]?)
      ∧ (∀ n off, InsertRespects L s.page s.held n off →
          SizesFollow s.page (allocWithShift L s.page n off))
      ∧ (∀ n < s.page.mSlotEntryCount, ∃ p',
          freeWithShift L s.page n = some p' ∧ SizesFollow s.page p')
      ∧ ∀ n off, s.held[n]? = some off → find L s.page off = some n) := by
  constructor
  · intro s hs
    have h := reuse_reachable h0 hs
    refine ⟨h.listed, h.holds, fun off hok => ?_, fun n hn => ?_, fun n off hn => find_spec h hn⟩
    · obtain ⟨p', n, heq, hfresh, hsizes, -⟩ := alloc_spec h hok
      exact ⟨p', n, heq, hfresh, hsizes⟩
    · obtain ⟨p', heq, hsizes, -⟩ := free_spec h hn
      exact ⟨p', heq, hsizes⟩
  · intro s hs
    have h := shift_reachable h0 hs
    refine ⟨h.reuse.listed, h.reuse.holds, fun n off hok => (allocWithShift_spec h hok).1,
      fun n hn => ?_, fun n off hn => find_spec h.reuse hn⟩
    obtain ⟨p', heq, hsizes, -⟩ := freeWithShift_spec h hn
    exact ⟨p', heq, hsizes⟩

/-- A page of 8192 bytes. -/
def demoLayout : PageLayout where
  slotDirStart := 80
  footer := 8184
  room := by decide
  inPage := by decide

/-- The page with nothing but its headers. -/
def demoPage : PhyPage where
  mPageType := .data
  mTotalFreeSize := 8104
  mAvailableFreeSize := 8104
  mFreeSpaceBeginOffset := 80
  mFreeSpaceEndOffset := 8184
  mSlotEntryCount := 0
  mHead := 0
  image := fun _ => 0

/-- An offset that is not held is still not held after an update with another one. -/
theorem fresh_update {held : ℕ → Option ℕ} {off : ℕ} (h : ∀ m, held m ≠ some off) (n : ℕ)
    {v : Option ℕ} (hv : v ≠ some off) : ∀ m, Function.update held n v m ≠ some off := by
  intro m
  rw [Function.update_apply]
  split_ifs
  · exact hv
  · exact h m

/-- Three slots; the numbers 0 and 2 are freed, and 2 is used again.  In the
shifting directory two entries are inserted before others and one is removed. -/
theorem slotDirectory_correct_reused :
    (∃ s, (reuseSystem demoLayout demoPage).ReachableBy (ReuseRespects demoLayout) s
      ∧ UnusedListed demoLayout s.page ∧ s.page.mHead = 0
      ∧ find demoLayout s.page 8150 = some 2)
    ∧ ∃ s, (shiftSystem demoLayout demoPage).ReachableBy (ShiftRespects demoLayout) s
      ∧ s.held = [8100, 8000] ∧ find demoLayout s.page 8000 = some 1 := by
  have h0 : HeadersOnly demoLayout demoPage := by
    constructor <;> decide
  have hcorrect := slotDirectory_correct demoLayout demoPage h0
  constructor
  · let Run := (reuseSystem demoLayout demoPage).ReachableBy (ReuseRespects demoLayout)
    have hnone : ∀ off m, (reuseSystem demoLayout demoPage).init.held m ≠ some off :=
      fun _ _ h => (nomatch h)
    have h1 : Run _ := .tail (a := .space 8000 7000 7000 fun _ => 0) .refl
      ⟨by decide, by decide, fun _ _ h => (nomatch h), by decide, by decide, fun _ _ => rfl⟩ rfl
    have h2 : Run _ := .tail (a := .alloc 8000) h1
      ⟨fun _ => ⟨by decide, by decide⟩, by decide, by decide, hnone 8000⟩ rfl
    have h3 : Run _ := .tail (a := .alloc 8050) h2
      ⟨fun _ => ⟨by decide, by decide⟩, by decide, by decide,
        fresh_update (hnone 8050) _ (by decide)⟩ rfl
    have h4 : Run _ := .tail (a := .alloc 8100) h3
      ⟨fun _ => ⟨by decide, by decide⟩, by decide, by decide,
        fresh_update (fresh_update (hnone 8100) _ (by decide)) _ (by decide)⟩ rfl
    have h5 : Run _ := .tail (a := .free 0) h4 (show 0 < 3 by decide) rfl
    have h6 : Run _ := .tail (a := .free 2) h5 (show 2 < 3 by decide) rfl
    have h7 : Run _ := .tail (a := .alloc 8150) h6
      ⟨fun h => (nomatch h), by decide, by decide,
        fresh_update (fresh_update (fresh_update (fresh_update (fresh_update
          (hnone 8150) _ (by decide)) _ (by decide)) _ (by decide)) _ (by decide)) _ (by decide)⟩ rfl
    obtain ⟨hlisted, -, -, -, hfind⟩ := hcorrect.1 _ h7
    exact ⟨_, h7, hlisted, rfl, hfind 2 8150 rfl⟩
  · let Run := (shiftSystem demoLayout demoPage).ReachableBy (ShiftRespects demoLayout)
    have h1 : Run _ := .tail (a := .space 8000 7000 7000 fun _ => 0) .refl
      ⟨by decide, by decide, fun _ _ h => (nomatch h), by decide, by decide, fun _ _ => rfl⟩ rfl
    have h2 : Run _ := .tail (a := .allocWithShift 0 8000) h1
      ⟨by decide, ⟨by decide, by decide⟩, by decide, by decide, by decide⟩ rfl
    have h3 : Run _ := .tail (a := .allocWithShift 0 8050) h2
      ⟨by decide, ⟨by decide, by decide⟩, by decide, by decide, by decide⟩ rfl
    have h4 : Run _ := .tail (a := .allocWithShift 1 8100) h3
      ⟨by decide, ⟨by decide, by decide⟩, by decide, by decide, by decide⟩ rfl
    have h5 : Run _ := .tail (a := .freeWithShift 0) h4 (show 0 < 3 by decide) rfl
    exact ⟨_, h5, rfl, (hcorrect.2 _ h5).2.2.2.2 1 8000 rfl⟩

end Runs

end Altibase.Sdp.SlotDirectory
