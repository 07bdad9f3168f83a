/-
  Altibase.Sdp.ExtentPid
  ──────────────────────
  **WHERE THE PAGES OF A FILE ARE.**

  The header pages and the extents of the groups are found by arithmetic on page
  ids, in both directions: a group and a bit give the first page of an extent, and
  `freeExtsInLG` and `tryAllocExtsInGG` compute the group and the bit back.

  Main results:
    * `FileAttr.group_end` — every group lies in the file;
    * `FileAttr.extPID_inj`, `FileAttr.hdrPID_inj` — different extents, and different
      header pages, have different page ids.
-/
import Altibase.Sdp.Extent

namespace Altibase.Sdp

/-! ## §1. Where the pages of a file are. -/

/-- A page id is the file id above the bits of the page number in the file. -/
theorem sdCreatePID_eq (fid : Nat) {fpid : Nat} (h : fpid < 2 ^ sdFPIDBitSize) :
    sdCreatePID fid fpid = fid * 2 ^ sdFPIDBitSize + fpid := by
  rw [sdCreatePID, ← Nat.shiftLeft_add_eq_or_of_lt h, Nat.shiftLeft_eq]

/-- The page number is read back from a page id. -/
theorem sdMakeFPID_add (fid : Nat) {fpid : Nat} (h : fpid < 2 ^ sdFPIDBitSize) :
    sdMakeFPID (fid * 2 ^ sdFPIDBitSize + fpid) = fpid := by
  rw [sdMakeFPID, Nat.and_two_pow_sub_one_eq_mod, Nat.mul_add_mod', Nat.mod_eq_of_lt h]

/-- The file id is read back from a page id. -/
theorem sdMakeFID_add {fid fpid : Nat} (hfid : fid < 2 ^ sdFIDBitSize)
    (h : fpid < 2 ^ sdFPIDBitSize) : sdMakeFID (fid * 2 ^ sdFPIDBitSize + fpid) = fid := by
  have hdiv : (fid * 2 ^ sdFPIDBitSize + fpid) >>> sdFPIDBitSize = fid := by
    rw [Nat.shiftRight_eq_div_pow, Nat.mul_comm, Nat.mul_add_div (by decide),
      Nat.div_eq_of_lt h, Nat.add_zero]
  rw [sdMakeFID, Nat.shiftRight_and_distrib, hdiv, Nat.shiftLeft_shiftRight,
    Nat.and_two_pow_sub_one_eq_mod, Nat.mod_eq_of_lt hfid]

namespace FileAttr

variable (g : FileAttr)

/-- The pages of a group. -/
def perLG : Nat := pagesPerLG g.nBits g.mPagesPerExt

/-- The number of groups. -/
def lgCnt : Nat := (getNGroups g.nBits g.mCurrSize g.mPagesPerExt).1

/-- The valid extents of a group. -/
def extCnt (l : Nat) : Nat :=
  if l < g.lgCnt - 1 then g.nBits else getExtCntOfLastLG g.nBits g.mCurrSize g.mPagesPerExt

/-- The header page of a group. -/
def hdrPID (l : Nat) (w : AllocLGIdx) : Nat :=
  lgHdrPIDFromLGID g.nBits g.mID l w.toNat g.mPagesPerExt

/-- The first page of an extent. -/
def extPID (l j : Nat) : Nat :=
  sdCreatePID g.mID (extentStartFPIDFromLGID g.nBits l g.mPagesPerExt) + g.mPagesPerExt * j

/-- A group has the pages of its extents and two header pages. -/
theorem perLG_eq : g.perLG = g.nBits * g.mPagesPerExt + 2 := rfl

/-- A group has pages. -/
theorem perLG_pos : 0 < g.perLG := by
  rw [perLG_eq]
  omega

/-- The number of groups from the pages behind the header page of the file: a rest gives
    one more group if it holds the header pages and an extent. -/
theorem getNGroups_eq : getNGroups g.nBits g.mCurrSize g.mPagesPerExt =
    if (g.mCurrSize - 1) % g.perLG ≥ 2 + g.mPagesPerExt then
      ((g.mCurrSize - 1) / g.perLG + 1, true)
    else ((g.mCurrSize - 1) / g.perLG, false) := by
  have hpos : 0 < sdPageSize := by decide
  simp only [getNGroups, ggHdrPageCnt, lgHdrPageCnt, Nat.mul_div_mul_right _ _ hpos,
    Nat.mul_mod_mul_right, Nat.mul_div_cancel _ hpos]
  rfl

/-- The same for the first component. -/
theorem lgCnt_eq : g.lgCnt = (g.mCurrSize - 1) / g.perLG +
    if (g.mCurrSize - 1) % g.perLG ≥ 2 + g.mPagesPerExt then 1 else 0 := by
  rw [lgCnt, getNGroups_eq]
  split <;> rfl

/-- The last group has the extents that fit into the rest, or all of them where no rest
    makes a group. -/
theorem extCntOfLastLG_eq : getExtCntOfLastLG g.nBits g.mCurrSize g.mPagesPerExt =
    if (g.mCurrSize - 1) % g.perLG ≥ 2 + g.mPagesPerExt then
      ((g.mCurrSize - 1) % g.perLG - 2) / g.mPagesPerExt
    else g.nBits := rfl

/-- A file of the minimal size has a group. -/
theorem lgCnt_pos : 0 < g.lgCnt := by
  have hsize := g.size_ge
  simp only [ggHdrPageCnt, lgHdrPageCnt] at hsize
  rw [lgCnt_eq]
  by_cases hdiv : (g.mCurrSize - 1) / g.perLG = 0
  · have hlt := (Nat.div_eq_zero_iff_lt g.perLG_pos).mp hdiv
    rw [Nat.mod_eq_of_lt hlt, if_pos (by omega)]
    exact Nat.succ_pos _
  · exact Nat.add_pos_left (Nat.pos_of_ne_zero hdiv) _

/-- The bitmap of the header page has a bit for every group. -/
theorem lgCnt_le : g.lgCnt ≤ lgCntMax := g.groups_le

/-- A group has no more extents than its bitmap has bits. -/
theorem extCnt_le (l : Nat) : g.extCnt l ≤ g.nBits := by
  unfold extCnt
  split
  · exact le_rfl
  · rw [extCntOfLastLG_eq]
    split
    · have hlt := Nat.mod_lt (g.mCurrSize - 1) g.perLG_pos
      rw [Nat.div_le_iff_le_mul_add_pred g.pagesPerExt_pos]
      have hmul := g.perLG_eq
      rw [Nat.mul_comm] at hmul
      omega
    · exact le_rfl

/-- Every group has an extent. -/
theorem extCnt_pos (l : Nat) : 0 < g.extCnt l := by
  unfold extCnt
  split
  · exact g.nBits_pos
  · rw [extCntOfLastLG_eq]
    split
    · exact Nat.div_pos (by omega) g.pagesPerExt_pos
    · exact g.nBits_pos

/-- A group lies in the file. -/
theorem group_end {l : Nat} (hl : l < g.lgCnt) :
    l * g.perLG + 2 + g.mPagesPerExt * g.extCnt l ≤ g.mCurrSize - 1 := by
  -- a full group ends where the next one starts
  have hfull : ∀ k, k + 1 ≤ (g.mCurrSize - 1) / g.perLG →
      k * g.perLG + 2 + g.mPagesPerExt * g.nBits ≤ g.mCurrSize - 1 := by
    intro k hk
    have hmul := Nat.mul_le_mul_right g.perLG hk
    have hle := Nat.div_mul_le_self (g.mCurrSize - 1) g.perLG
    rw [Nat.succ_mul] at hmul
    have hper := g.perLG_eq
    rw [Nat.mul_comm] at hper
    omega
  have hcnt := g.lgCnt_eq
  unfold extCnt
  split
  · refine hfull l ?_
    split at hcnt <;> omega
  · rw [extCntOfLastLG_eq]
    split
    · rename_i hrest
      rw [if_pos hrest] at hcnt
      have hl' : l = (g.mCurrSize - 1) / g.perLG := by omega
      have hdm := Nat.div_add_mod (g.mCurrSize - 1) g.perLG
      have hle := Nat.mul_div_le ((g.mCurrSize - 1) % g.perLG - 2) g.mPagesPerExt
      rw [hl', Nat.mul_comm]
      omega
    · rename_i hrest
      rw [if_neg hrest] at hcnt
      exact hfull l (by omega)

/-- The number of a header page fits the bits of a page id. -/
theorem hdrFPID_lt {l : Nat} (hl : l < g.lgCnt) (w : AllocLGIdx) :
    1 + l * g.perLG + w.toNat < 2 ^ sdFPIDBitSize := by
  have hend := g.group_end hl
  have hsize := g.size_le
  have hge := g.size_ge
  have hw := w.toNat_le
  simp only [ggHdrPageCnt, lgHdrPageCnt] at hge
  omega

/-- So does the number of the first page of an extent. -/
theorem extFPID_lt {l j : Nat} (hl : l < g.lgCnt) (hj : j < g.extCnt l) :
    1 + l * g.perLG + 2 + g.mPagesPerExt * j < 2 ^ sdFPIDBitSize := by
  have hend := g.group_end hl
  have hsize := g.size_le
  have hge := g.size_ge
  have hmul := Nat.mul_le_mul_left g.mPagesPerExt (Nat.succ_le_of_lt hj)
  have hppe := g.pagesPerExt_pos
  rw [Nat.mul_succ] at hmul
  simp only [ggHdrPageCnt, lgHdrPageCnt] at hge
  omega

/-- The page id of a header page, written out. -/
theorem hdrPID_eq {l : Nat} (hl : l < g.lgCnt) (w : AllocLGIdx) :
    g.hdrPID l w = g.mID * 2 ^ sdFPIDBitSize + (1 + l * g.perLG + w.toNat) :=
  sdCreatePID_eq _ (g.hdrFPID_lt hl w)

/-- The page id of the first page of an extent, written out. -/
theorem extPID_eq {l j : Nat} (hl : l < g.lgCnt) (hj : j < g.extCnt l) :
    g.extPID l j = g.mID * 2 ^ sdFPIDBitSize + (1 + l * g.perLG + 2 + g.mPagesPerExt * j) := by
  have hlt := g.extFPID_lt hl hj
  show sdCreatePID g.mID (1 + l * g.perLG + 2) + _ = _
  rw [sdCreatePID_eq _ (by omega), Nat.add_assoc]

/-- The group of a page. -/
theorem lgid_of_offset (l k : Nat) (hk : k < g.perLG) : (1 + l * g.perLG + k - 1) / g.perLG = l := by
  rw [show 1 + l * g.perLG + k - 1 = g.perLG * l + k by rw [Nat.mul_comm]; omega,
    Nat.mul_add_div g.perLG_pos, Nat.div_eq_of_lt hk, Nat.add_zero]

/-- **The group of a header page** is computed back from its page id. -/
theorem getLGIDByPID_hdrPID {l : Nat} (hl : l < g.lgCnt) (w : AllocLGIdx) :
    getLGIDByPID g.nBits (g.hdrPID l w) g.mPagesPerExt = l := by
  rw [getLGIDByPID, hdrPID_eq g hl w, sdMakeFPID_add _ (g.hdrFPID_lt hl w)]
  have hw := w.toNat_le
  have hper := g.perLG_eq
  exact g.lgid_of_offset l w.toNat (by omega)

/-- An extent lies among the pages of its group. -/
theorem offset_lt {l j : Nat} (hj : j < g.extCnt l) : 2 + g.mPagesPerExt * j < g.perLG := by
  have hle := Nat.mul_le_mul_left g.mPagesPerExt (Nat.succ_le_of_lt (lt_of_lt_of_le hj (g.extCnt_le l)))
  have hppe := g.pagesPerExt_pos
  have hper := g.perLG_eq
  rw [Nat.mul_comm] at hper
  rw [Nat.mul_succ] at hle
  omega

/-- **The group of an extent** is computed back from its page id. -/
theorem getLGIDByPID_extPID {l j : Nat} (hl : l < g.lgCnt) (hj : j < g.extCnt l) :
    getLGIDByPID g.nBits (g.extPID l j) g.mPagesPerExt = l := by
  rw [getLGIDByPID, extPID_eq g hl hj, sdMakeFPID_add _ (g.extFPID_lt hl hj)]
  rw [Nat.add_assoc (1 + l * g.perLG)]
  exact g.lgid_of_offset l _ (g.offset_lt hj)

/-- The bit of an extent. -/
theorem extIdx_extPID {l j : Nat} (hl : l < g.lgCnt) (hj : j < g.extCnt l) :
    (sdMakeFPID (g.extPID l j) - extentStartFPIDFromLGID g.nBits l g.mPagesPerExt) /
      g.mPagesPerExt = j := by
  rw [extPID_eq g hl hj, sdMakeFPID_add _ (g.extFPID_lt hl hj)]
  show (1 + l * g.perLG + 2 + g.mPagesPerExt * j - (1 + l * g.perLG + 2)) / _ = _
  rw [Nat.add_sub_cancel_left, Nat.mul_div_cancel_left _ g.pagesPerExt_pos]

/-- **Different extents have different page ids.** -/
theorem extPID_inj {l j l' j' : Nat} (hl : l < g.lgCnt) (hj : j < g.extCnt l)
    (hl' : l' < g.lgCnt) (hj' : j' < g.extCnt l') (h : g.extPID l j = g.extPID l' j') :
    l = l' ∧ j = j' := by
  have hll : l = l' := by
    rw [← g.getLGIDByPID_extPID hl hj, h, g.getLGIDByPID_extPID hl' hj']
  subst hll
  refine ⟨rfl, ?_⟩
  rw [← g.extIdx_extPID hl hj, h, g.extIdx_extPID hl' hj']

/-- **Different header pages have different page ids.** -/
theorem hdrPID_inj {l l' : Nat} {w w' : AllocLGIdx} (hl : l < g.lgCnt) (hl' : l' < g.lgCnt)
    (h : g.hdrPID l w = g.hdrPID l' w') : l = l' ∧ w = w' := by
  have hll : l = l' := by
    rw [← g.getLGIDByPID_hdrPID hl w, h, g.getLGIDByPID_hdrPID hl' w']
  subst hll
  rw [hdrPID_eq g hl w, hdrPID_eq g hl w'] at h
  exact ⟨rfl, AllocLGIdx.toNat_inj (by omega)⟩

end FileAttr

end Altibase.Sdp
