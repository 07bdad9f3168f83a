/-
  Altibase.Sdp.ExtentInv
  ──────────────────────
  **WHAT THE HEADER PAGES OF A FILE AGREE ON.**

  The two bitmaps of a group, its counters and the counters of the file header are
  all updated separately.  `FileOk` says what they agree on; one lemma,
  `FileOk.setPage`, replaces one header page, and every operation is an instance of
  it.  The role of the two pages does not occur in `FileOk`, so a switch keeps it.

  Main results:
    * `clearCount_setBit`, `clearCount_clearBit` — counting after a write;
    * `FileOk.setPage` — one header page is replaced;
    * `FileOk.trySwitch` — a switch.
-/
import Mathlib.Algebra.Group.Action.Defs
import Mathlib.Algebra.Order.BigOperators.Group.Finset
import Altibase.Lib.LevelTable
import Altibase.Sdp.ExtentPid

namespace Altibase.Sdp

/-! ## §1. Counting. -/

/-- A sum in which one summand is replaced. -/
theorem sum_replace {F F' : Nat → Nat} {k n : Nat} (hk : k < n)
    (hne : ∀ l, l ≠ k → F' l = F l) :
    ∑ l ∈ Finset.range n, F' l + F k = ∑ l ∈ Finset.range n, F l + F' k := by
  have hmem : k ∈ Finset.range n := Finset.mem_range.mpr hk
  rw [← Finset.add_sum_erase _ F hmem, ← Finset.add_sum_erase _ F' hmem]
  have heq : ∑ l ∈ (Finset.range n).erase k, F' l = ∑ l ∈ (Finset.range n).erase k, F l :=
    Finset.sum_congr rfl (fun l hl => hne l (Finset.ne_of_mem_erase hl))
  rw [heq]
  omega

/-- The number of clear bits among the first `n` ones of a bitmap. -/
def clearCount (m : Mem) (n : Nat) : Nat := Nat.count (fun j => getBit m 0 j = false) n

theorem clearCount_setBit {m : Mem} {i n : Nat} (hi : i < n) (hbit : getBit m 0 i = false) :
    clearCount m n = clearCount (setBit m 0 i) n + 1 := by
  refine Lib.count_flip hi hbit ?_ ?_
  · rw [getBit_setBit]
    simp
  · intro j hj
    rw [getBit_setBit]
    simp [hj]

theorem clearCount_clearBit {m : Mem} {i n : Nat} (hi : i < n) (hbit : getBit m 0 i = true) :
    clearCount (clearBit m 0 i) n = clearCount m n + 1 := by
  refine Lib.count_flip hi ?_ (by simp [hbit]) ?_
  · rw [getBit_clearBit]
    simp
  · intro j hj
    rw [getBit_clearBit]
    simp [hj]

theorem exists_clear_of_pos {m : Mem} {n : Nat} (h : 0 < clearCount m n) :
    ∃ j < n, getBit m 0 j = false := by
  by_contra hno
  have hzero : clearCount m n = 0 := by
    rw [clearCount, Nat.count_iff_forall_not]
    intro j hj hbit
    exact hno ⟨j, hj, hbit⟩
  omega

theorem clearCount_le (m : Mem) (n : Nat) : clearCount m n ≤ n := Nat.count_le _

/-- A set bit is not a clear one. -/
theorem clearCount_lt {m : Mem} {i n : Nat} (hi : i < n) (hbit : getBit m 0 i = true) :
    clearCount m n < n := by
  have h := clearCount_clearBit hi hbit
  have hle := clearCount_le (clearBit m 0 i) n
  omega

/-! ## §2. The invariant. -/

variable {g : FileAttr} {f f' : File} {l j : Nat} {w : AllocLGIdx}

/-- A header page of the group `l`. -/
structure PageOk (g : FileAttr) (l : Nat) (h : LGHdr) : Prop where
  startPID : h.mStartPID = sdCreatePID g.mID (extentStartFPIDFromLGID g.nBits l g.mPagesPerExt)
  validBits : h.mValidBits = g.extCnt l
  free : h.mFree = clearCount h.mBitmap (g.extCnt l)
  hint_le : h.mHint ≤ g.extCnt l
  hint : ∀ j < h.mHint, getBit h.mBitmap 0 j = true

/-- The header page of the kind `w` of the group `l`. -/
def File.lgHdr (g : FileAttr) (f : File) (l : Nat) (w : AllocLGIdx) : LGHdr :=
  f.page (g.hdrPID l w)

/-- The bit of an extent in the page of the kind `w`. -/
def File.extBit (g : FileAttr) (f : File) (l : Nat) (w : AllocLGIdx) (j : Nat) : Bool :=
  getBit (f.lgHdr g l w).mBitmap 0 j

/-- What the header pages of a file agree on. -/
structure FileOk (g : FileAttr) (f : File) : Prop where
  ggid : f.ggHdr.mGGID = g.mID
  pagesPerExt : f.ggHdr.mPagesPerExt = g.mPagesPerExt
  lgCnt : f.ggHdr.mLGCnt = g.lgCnt
  page : ∀ w, ∀ l < g.lgCnt, PageOk g l (f.lgHdr g l w)
  freeExts : ∀ w, (f.ggHdr.mLGFreeness w).mFreeExts =
    ∑ l ∈ Finset.range g.lgCnt, (f.lgHdr g l w).mFree
  freeness : ∀ w, ∀ l < g.lgCnt,
    (getBit (f.ggHdr.mLGFreeness w).mBits 0 l = true ↔ 0 < (f.lgHdr g l w).mFree)
  disjoint : ∀ w, ∀ l < g.lgCnt, ∀ j < g.extCnt l,
    f.extBit g l w j = true ∨ f.extBit g l w.dealloc j = true

/-- The extents that are handed out: those with both bits set. -/
structure HeldOk (g : FileAttr) (f : File) (held : List Nat) : Prop where
  nodup : held.Nodup
  mem_iff : ∀ pid, pid ∈ held ↔
    ∃ l < g.lgCnt, ∃ j < g.extCnt l, pid = g.extPID l j ∧ ∀ w, f.extBit g l w j = true

theorem extCnt_le_size (hl : l < g.lgCnt) : g.extCnt l ≤ 2 ^ sdFPIDBitSize := by
  have hend := g.group_end hl
  have hsize := g.size_le
  have hmul := Nat.le_mul_of_pos_left (g.extCnt l) g.pagesPerExt_pos
  omega

/-- The sums fit a `ULong`. -/
theorem FileOk.freeExts_lt (hf : FileOk g f) (w : AllocLGIdx) :
    (f.ggHdr.mLGFreeness w).mFreeExts < 2 ^ 63 := by
  have hle : ∑ l ∈ Finset.range g.lgCnt, (f.lgHdr g l w).mFree ≤
      (Finset.range g.lgCnt).card • 2 ^ sdFPIDBitSize := by
    apply Finset.sum_le_card_nsmul
    intro l hl
    have hl' := Finset.mem_range.mp hl
    rw [(hf.page w l hl').free]
    exact (clearCount_le _ _).trans (extCnt_le_size hl')
  rw [hf.freeExts w]
  have hcnt := g.lgCnt_le
  simp only [Finset.card_range, smul_eq_mul, sdFPIDBitSize, lgCntMax] at hle hcnt
  omega

/-- The pages of the other groups and of the other kind stay. -/
theorem lgHdr_of_update {h : LGHdr} (hl : l < g.lgCnt)
    (hpage : f'.page = Function.update f.page (g.hdrPID l w) h) {k : Nat} (hk : k < g.lgCnt)
    (v : AllocLGIdx) :
    f'.lgHdr g k v = if k = l ∧ v = w then h else f.lgHdr g k v := by
  unfold File.lgHdr
  rw [hpage]
  by_cases hkv : k = l ∧ v = w
  · rw [if_pos hkv, hkv.1, hkv.2, Function.update_self]
  · rw [if_neg hkv, Function.update_of_ne]
    exact fun h' => hkv (g.hdrPID_inj hk hl h')

/-- **One header page is replaced**, with the counter and the bit of its group in
    the file header. -/
theorem FileOk.setPage {h : LGHdr} (hf : FileOk g f) (hl : l < g.lgCnt) (hp : PageOk g l h)
    (hpage : f'.page = Function.update f.page (g.hdrPID l w) h)
    (hggid : f'.ggHdr.mGGID = f.ggHdr.mGGID)
    (hppe : f'.ggHdr.mPagesPerExt = f.ggHdr.mPagesPerExt)
    (hcnt : f'.ggHdr.mLGCnt = f.ggHdr.mLGCnt)
    (hother : f'.ggHdr.mLGFreeness w.dealloc = f.ggHdr.mLGFreeness w.dealloc)
    (hsum : (f'.ggHdr.mLGFreeness w).mFreeExts + (f.lgHdr g l w).mFree =
      (f.ggHdr.mLGFreeness w).mFreeExts + h.mFree)
    (hbit : ∀ k < g.lgCnt, getBit (f'.ggHdr.mLGFreeness w).mBits 0 k =
      if k = l then decide (0 < h.mFree) else getBit (f.ggHdr.mLGFreeness w).mBits 0 k)
    (hdis : ∀ j < g.extCnt l, getBit h.mBitmap 0 j = true ∨ f.extBit g l w.dealloc j = true) :
    FileOk g f' := by
  have hhdr := fun k (hk : k < g.lgCnt) v => lgHdr_of_update hl hpage hk v
  -- the pages of the other kind are untouched
  have hdealloc : ∀ k < g.lgCnt, f'.lgHdr g k w.dealloc = f.lgHdr g k w.dealloc := by
    intro k hk
    rw [hhdr k hk, if_neg (fun h' => w.dealloc_ne h'.2)]
  have hsame : f'.lgHdr g l w = h := by
    rw [hhdr l hl, if_pos ⟨rfl, rfl⟩]
  have hne : ∀ k < g.lgCnt, k ≠ l → f'.lgHdr g k w = f.lgHdr g k w := by
    intro k hk hkl
    rw [hhdr k hk, if_neg (fun h' => hkl h'.1)]
  refine ⟨hggid.trans hf.ggid, hppe.trans hf.pagesPerExt, hcnt.trans hf.lgCnt, ?_, ?_, ?_, ?_⟩
  · intro v k hk
    rw [hhdr k hk v]
    split
    · rename_i hkv
      rw [hkv.1]
      exact hp
    · exact hf.page v k hk
  · intro v
    rcases w.eq_or_dealloc v with rfl | rfl
    · -- only the summand of the group `l` changes
      have hrep := @sum_replace (fun k => if k < g.lgCnt then (f.lgHdr g k v).mFree else 0)
        (fun k => if k < g.lgCnt then (f'.lgHdr g k v).mFree else 0) l g.lgCnt hl (by
          intro k hkl
          by_cases hk : k < g.lgCnt
          · simp only [if_pos hk, hne k hk hkl]
          · simp only [if_neg hk])
      have hin : ∀ F : Nat → Nat, ∑ k ∈ Finset.range g.lgCnt, (if k < g.lgCnt then F k else 0) =
          ∑ k ∈ Finset.range g.lgCnt, F k := by
        intro F
        exact Finset.sum_congr rfl (fun k hk => if_pos (Finset.mem_range.mp hk))
      have hold := hf.freeExts v
      rw [hin, hin, if_pos hl, if_pos hl, hsame] at hrep
      omega
    · rw [hother, hf.freeExts]
      exact Finset.sum_congr rfl (fun k hk => by rw [hdealloc k (Finset.mem_range.mp hk)])
  · intro v k hk
    rcases w.eq_or_dealloc v with rfl | rfl
    · rw [hbit k hk]
      by_cases hkl : k = l
      · rw [if_pos hkl, hkl, hsame, decide_eq_true_iff]
      · rw [if_neg hkl, hne k hk hkl]
        exact hf.freeness v k hk
    · rw [hother, hdealloc k hk]
      exact hf.freeness _ k hk
  · -- the two pages of one group, from either side
    have hone : ∀ k < g.lgCnt, ∀ j < g.extCnt k,
        f'.extBit g k w j = true ∨ f'.extBit g k w.dealloc j = true := by
      intro k hk j hj
      unfold File.extBit
      rw [hdealloc k hk]
      by_cases hkl : k = l
      · subst hkl
        rw [hsame]
        exact hdis j hj
      · rw [hne k hk hkl]
        exact hf.disjoint w k hk j hj
    intro v k hk j hj
    rcases w.eq_or_dealloc v with rfl | rfl
    · exact hone k hk j hj
    · rw [AllocLGIdx.dealloc_dealloc]
      exact (hone k hk j hj).symm

/-- The roles of the pages are not part of the invariant. -/
theorem FileOk.trySwitch (hf : FileOk g f) : FileOk g f.trySwitch := by
  unfold File.trySwitch
  dsimp only
  split
  · exact ⟨hf.ggid, hf.pagesPerExt, hf.lgCnt, hf.page, hf.freeExts, hf.freeness, hf.disjoint⟩
  · split
    · exact ⟨hf.ggid, hf.pagesPerExt, hf.lgCnt, hf.page, hf.freeExts, hf.freeness, hf.disjoint⟩
    · exact hf

theorem File.trySwitch_page (f : File) : f.trySwitch.page = f.page := by
  unfold File.trySwitch
  dsimp only
  split
  · rfl
  · split <;> rfl

theorem HeldOk.congr {held : List Nat} (hh : HeldOk g f held) (hpage : f'.page = f.page) :
    HeldOk g f' held := by
  refine ⟨hh.nodup, fun pid => ?_⟩
  rw [hh.mem_iff pid]
  unfold File.extBit File.lgHdr
  rw [hpage]

end Altibase.Sdp
