/-
  Altibase.Sdp.ExtentRun
  ──────────────────────
  **NO EXTENT IS HANDED OUT TWICE OR LOST.**

  `makeMetaHeaders` makes a file that keeps the invariant.  A run is any sequence of
  allocations and frees from there; the memory a search may read behind the group
  bits is arbitrary in every step.

  Main results:
    * `makeMetaHeaders_ok` — the invariant of a new file;
    * `extents_conserved` — the state of every extent in every run.
-/
import Altibase.Sdp.ExtentOps

namespace Altibase.Sdp

open Altibase.Lib

variable {g : FileAttr} {f f' : File} {l j : Nat} {w : AllocLGIdx}

/-! ## §1. A new file. -/

theorem initToByte_zero (v : Bool) (m : Mem) (aCount : Nat) :
    initToByte v m 0 aCount = (m, 0, aCount) := by
  cases aCount with
  | zero => rfl
  | succ n => rfl

/-- `initBitmapOfLG` sets the bits from the first one on. -/
theorem getBit_initBitmapOfLG (nBits : Nat) (m : Mem) (v : Bool) {aCount j : Nat}
    (hj : j < aCount) : getBit (initBitmapOfLG nBits m v 0 aCount) 0 j = v := by
  have hj8 : j % 8 < 8 := Nat.mod_lt _ (by decide)
  have hfull : ∀ k < 8, (if v then 0xFF#8 else 0x00#8 : UChar).getLsbD k = v := by
    cases v <;> decide
  rw [getBit_eq, Nat.zero_add]
  unfold initBitmapOfLG
  simp only [initToByte_zero, Nat.zero_div, Nat.zero_add]
  by_cases hbyte : j / 8 < aCount / 8
  · -- a whole byte
    have hin : ∀ m', memset m' 0 (if v then 0xFF#8 else 0x00#8) (aCount / 8) (j / 8) =
        if v then 0xFF#8 else 0x00#8 := by
      intro m'
      unfold memset
      rw [if_pos ⟨Nat.zero_le _, by omega⟩]
    rw [if_pos (show aCount / 8 > 0 by omega)]
    by_cases hrest : aCount % 8 ≠ 0
    · have hout : ¬ (aCount / 8 ≤ j / 8 ∧ j / 8 < aCount / 8 + 1) := by omega
      rw [if_pos hrest]
      unfold memset at hin ⊢
      rw [if_neg hout, hin]
      exact hfull _ hj8
    · rw [if_neg hrest, hin]
      exact hfull _ hj8
  · -- the bits of the last byte
    have hrest : aCount % 8 ≠ 0 := by omega
    have hlt : j % 8 < aCount % 8 := by omega
    rw [if_pos hrest]
    unfold memset
    rw [if_pos (by omega)]
    cases v
    · show (0xFF#8 <<< (aCount % 8)).getLsbD (j % 8) = false
      rw [getLsbD_mask _ _ hj8]
      simp only [decide_eq_false_iff_not]
      omega
    · show (~~~(0xFF#8 <<< (aCount % 8))).getLsbD (j % 8) = true
      rw [BitVec.getLsbD_not, getLsbD_mask _ _ hj8]
      simp only [hj8, decide_true, Bool.true_and, Bool.not_eq_true', decide_eq_false_iff_not]
      omega

/-- All bits of a page have the value `v`. -/
structure Fresh (g : FileAttr) (l : Nat) (v : Bool) (h : LGHdr) : Prop where
  pageOk : PageOk g l h
  free : h.mFree = if v then 0 else g.extCnt l
  bits : ∀ j < g.extCnt l, getBit h.mBitmap 0 j = v

/-- The value of the bits in a new page of either kind. -/
def AllocLGIdx.freshBit : AllocLGIdx → Bool
  | idx0 => false
  | idx1 => true

theorem clearCount_const {m : Mem} {n : Nat} {v : Bool} (h : ∀ j < n, getBit m 0 j = v) :
    clearCount m n = if v then 0 else n := by
  cases v
  · show Nat.count _ n = n
    rw [Nat.count_iff_forall]
    exact h
  · show Nat.count _ n = 0
    rw [Nat.count_iff_forall_not]
    intro j hj hbit
    rw [h j hj] at hbit
    cases hbit

/-- `logAndInitLGHdrPage` makes one new page. -/
theorem logAndInitLGHdrPage_spec (f : File) (l : Nat) (aLGType : LGType)
    (hw : w = match aLGType with
      | .alloc => f.ggHdr.mAllocLGIdx
      | .dealloc => f.ggHdr.mAllocLGIdx.dealloc) :
    ∃ h, logAndInitLGHdrPage g.nBits f g.mID l aLGType (g.extCnt l) g.mPagesPerExt =
        { f with page := Function.update f.page (g.hdrPID l w) h } ∧
      Fresh g l (aLGType = .dealloc) h := by
  refine ⟨_, by rw [hw]; rfl, ⟨rfl, rfl, ?_, ?_, ?_⟩, ?_, ?_⟩
  · dsimp only
    rw [clearCount_const (fun j hj => getBit_initBitmapOfLG _ _ _ hj)]
    cases aLGType <;> rfl
  · dsimp only
    cases aLGType
    · exact Nat.zero_le _
    · exact le_rfl
  · dsimp only
    intro j hj
    cases aLGType
    · exact absurd hj (Nat.not_lt_zero _)
    · exact getBit_initBitmapOfLG _ _ _ hj
  · cases aLGType <;> rfl
  · exact fun j hj => getBit_initBitmapOfLG _ _ _ hj

/-- What the loop over the groups has made after `n` of them. -/
structure Made (g : FileAttr) (gg : GGHdr) (n : Nat) (f : File) : Prop where
  ggid : f.ggHdr.mGGID = gg.mGGID
  pagesPerExt : f.ggHdr.mPagesPerExt = gg.mPagesPerExt
  lgCnt : f.ggHdr.mLGCnt = gg.mLGCnt
  allocLGIdx : f.ggHdr.mAllocLGIdx = .idx0
  freeExts : ∀ w, (f.ggHdr.mLGFreeness w).mFreeExts = (gg.mLGFreeness w).mFreeExts
  bits : ∀ w k, getBit (f.ggHdr.mLGFreeness w).mBits 0 k = (!w.freshBit && decide (k < n))
  page : ∀ l < n, ∀ w, Fresh g l w.freshBit (f.lgHdr g l w)

theorem Made.step {gg : GGHdr} {n : Nat} (hm : Made g gg n f) (hn : n < g.lgCnt) :
    Made g gg (n + 1)
      (makeLGHdr g.nBits f g.lgCnt g.mID g.mPagesPerExt g.mCurrSize n) := by
  have hvalid : (if n < g.lgCnt - 1 then g.nBits else
      getExtCntOfLastLG g.nBits g.mCurrSize g.mPagesPerExt) = g.extCnt n := rfl
  obtain ⟨h0, heq0, hfresh0⟩ := logAndInitLGHdrPage_spec (g := g) f n .alloc rfl
  rw [hm.allocLGIdx] at heq0
  obtain ⟨h1, heq1, hfresh1⟩ := logAndInitLGHdrPage_spec (g := g)
    { f with page := Function.update f.page (g.hdrPID n .idx0) h0 } n .dealloc rfl
  dsimp only at heq1
  rw [hm.allocLGIdx] at heq1
  unfold makeLGHdr
  simp only [hvalid, heq0, heq1, if_pos (g.extCnt_pos n), hm.allocLGIdx]
  have hself := setFreeness_self f.ggHdr .idx0 { f.ggHdr.mLGFreeness .idx0 with
    mBits := setBit (f.ggHdr.mLGFreeness .idx0).mBits 0 n }
  have hother := setFreeness_dealloc f.ggHdr .idx0 { f.ggHdr.mLGFreeness .idx0 with
    mBits := setBit (f.ggHdr.mLGFreeness .idx0).mBits 0 n }
  refine ⟨hm.ggid, hm.pagesPerExt, hm.lgCnt, hm.allocLGIdx, ?_, ?_, ?_⟩
  · intro w
    cases w
    · exact (congrArg LGFreeInfo.mFreeExts hself).trans (hm.freeExts .idx0)
    · exact (congrArg LGFreeInfo.mFreeExts hother).trans (hm.freeExts .idx1)
  · intro w k
    cases w
    · refine (congrArg (fun i => getBit (LGFreeInfo.mBits i) 0 k) hself).trans ?_
      show getBit (setBit (f.ggHdr.mLGFreeness .idx0).mBits 0 n) 0 k = decide (k < n + 1)
      rw [getBit_setBit, hm.bits .idx0 k]
      by_cases hk : k = n
      · simp [hk]
      · simp only [AllocLGIdx.freshBit, Bool.not_false, Bool.true_and, hk, decide_false,
          Bool.false_or, decide_eq_decide]
        omega
    · exact (congrArg (fun i => getBit (LGFreeInfo.mBits i) 0 k) hother).trans (hm.bits .idx1 k)
  · intro l hl w
    have hl' : l < g.lgCnt := by omega
    -- the second page is written last
    let page0 := Function.update f.page (g.hdrPID n .idx0) h0
    let page1 := Function.update page0 (g.hdrPID n .idx1) h1
    let f0 : File := ⟨f.ggHdr, page0, f.freenessOfGG⟩
    let f1 : File := ⟨f.ggHdr, page1, f.freenessOfGG⟩
    have hlook : f1.lgHdr g l w =
        if l = n ∧ w = .idx1 then h1 else if l = n ∧ w = .idx0 then h0 else f.lgHdr g l w := by
      rw [← @lgHdr_of_update g f f0 n .idx0 h0 hn rfl l hl' w]
      exact lgHdr_of_update hn rfl hl' w
    show Fresh g l w.freshBit (f1.lgHdr g l w)
    rw [hlook]
    by_cases hln : l = n
    · subst hln
      cases w
      · rw [if_neg (by simp), if_pos ⟨rfl, rfl⟩]
        exact hfresh0
      · rw [if_pos ⟨rfl, rfl⟩]
        exact hfresh1
    · rw [if_neg (fun h => hln h.1), if_neg (fun h => hln h.1)]
      exact hm.page l (by omega) w

theorem sum_extCnt (g : FileAttr) : ∑ l ∈ Finset.range g.lgCnt, g.extCnt l =
    if (getNGroups g.nBits g.mCurrSize g.mPagesPerExt).2 then
      g.nBits * (g.lgCnt - 1) + getExtCntOfLastLG g.nBits g.mCurrSize g.mPagesPerExt
    else g.nBits * g.lgCnt := by
  obtain ⟨c, hc⟩ : ∃ c, g.lgCnt = c + 1 := Nat.exists_eq_add_one.mpr g.lgCnt_pos
  have hfull : ∑ l ∈ Finset.range c, g.extCnt l = c * g.nBits := by
    rw [Finset.sum_congr rfl (g := fun _ => g.nBits)]
    · simp
    · intro l hl
      have hl' := Finset.mem_range.mp hl
      unfold FileAttr.extCnt
      rw [if_pos (by omega)]
  have hlast : g.extCnt c = getExtCntOfLastLG g.nBits g.mCurrSize g.mPagesPerExt := by
    unfold FileAttr.extCnt
    rw [if_neg (by omega)]
  rw [hc, Finset.sum_range_succ, hfull, hlast, g.getNGroups_eq, g.extCntOfLastLG_eq]
  split
  · rw [if_pos rfl, Nat.mul_comm]
    rfl
  · rw [if_neg (by simp), Nat.mul_succ, Nat.mul_comm]

theorem makeNewLGHdrs_made (g : FileAttr) {gg : GGHdr} (hm : Made g gg 0 f) :
    ∀ n ≤ g.lgCnt, Made g gg n
      (makeNewLGHdrs g.nBits f g.lgCnt g.mID g.mPagesPerExt g.mCurrSize n) := by
  intro n hn
  induction n with
  | zero => exact hm
  | succ n ih => exact (ih (by omega)).step (by omega)

/-- A new file keeps the invariant, and nothing is handed out. -/
theorem makeMetaHeaders_ok (g : FileAttr) (page : Nat → LGHdr) :
    FileOk g (makeMetaHeaders g page) ∧ HeldOk g (makeMetaHeaders g page) [] ∧
      ((makeMetaHeaders g page).ggHdr.mLGFreeness
        (makeMetaHeaders g page).ggHdr.mAllocLGIdx.dealloc).mFreeExts = 0 := by
  let gg := logAndInitGGHdrPage g.nBits g.mID g.mPagesPerExt g.lgCnt g.mCurrSize
    (getNGroups g.nBits g.mCurrSize g.mPagesPerExt).2
  let f0 : File := ⟨gg, page, true⟩
  -- the groups are made one by one
  have hm0 : Made g gg 0 f0 := by
    refine ⟨rfl, rfl, rfl, rfl, fun _ => rfl, fun w k => ?_, fun l hl => absurd hl (Nat.not_lt_zero l)⟩
    cases w <;> simp [f0, gg, logAndInitGGHdrPage, getBit]
  have hm : Made g gg g.lgCnt (makeMetaHeaders g page) :=
    makeNewLGHdrs_made g hm0 g.lgCnt le_rfl
  -- one of the two header pages of a group has all extents, the other none
  have hbit : ∀ w, ∀ l < g.lgCnt, ∀ j < g.extCnt l,
      (makeMetaHeaders g page).extBit g l w j = w.freshBit :=
    fun w l hl j hj => (hm.page l hl w).bits j hj
  refine ⟨⟨hm.ggid, hm.pagesPerExt, hm.lgCnt, fun w l hl => (hm.page l hl w).pageOk, ?_, ?_, ?_⟩,
    ⟨List.nodup_nil, fun pid => ⟨fun h => absurd h List.not_mem_nil, ?_⟩⟩, ?_⟩
  · intro w
    have hsum : ∑ l ∈ Finset.range g.lgCnt, ((makeMetaHeaders g page).lgHdr g l w).mFree =
        ∑ l ∈ Finset.range g.lgCnt, if w.freshBit then 0 else g.extCnt l :=
      Finset.sum_congr rfl (fun l hl => (hm.page l (Finset.mem_range.mp hl) w).free)
    rw [hm.freeExts w, hsum]
    cases w
    · exact (sum_extCnt g).symm
    · exact Finset.sum_const_zero.symm
  · intro w l hl
    rw [hm.bits w l, (hm.page l hl w).free]
    have hpos := g.extCnt_pos l
    cases w <;> simp [AllocLGIdx.freshBit, hl, hpos]
  · intro w l hl j hj
    rw [hbit w l hl j hj, hbit w.dealloc l hl j hj]
    cases w <;> simp [AllocLGIdx.freshBit, AllocLGIdx.dealloc]
  · rintro ⟨l, hl, j, hj, -, hboth⟩
    have h0 := hboth .idx0
    rw [hbit .idx0 l hl j hj] at h0
    cases h0
  · rw [hm.allocLGIdx]
    exact hm.freeExts .idx1

/-! ## §2. Runs. -/

/-- A file and the extents that are handed out. -/
structure ExtentState where
  file : File
  held : List Nat

/-- What is done with a file.  `behind` is the memory behind the group bits, and
    `extra` how much further the searches may read. -/
inductive ExtentAction
  | alloc (behind : Mem) (extra : Nat)
  | free (aSortedExts : List SortExtSlot) (aBeginIndex : Nat)

/-- How far the searches go at least. -/
def searchFuel (g : FileAttr) (extra : Nat) : Nat := g.nBits + lgCntMax + extra

/-- One operation.  One that fails is rolled back; a segment gives back extents it has. -/
def extentStep (g : FileAttr) (s : ExtentState) : ExtentAction → Option ExtentState
  | .alloc behind extra =>
      match s.file.tryAllocExtsInGG g.nBits (searchFuel g extra) behind with
      | .error _ => none
      | .ok r => some ⟨r.1, r.2 ++ s.held⟩
  | .free aSortedExts aBeginIndex =>
      if CallerOk g s.held (freedSlots aSortedExts aBeginIndex) then
        match s.file.freeExtsInLG g.nBits aSortedExts aBeginIndex with
        | .error _ => none
        | .ok r => some
            ⟨r.1, s.held.diff ((freedSlots aSortedExts aBeginIndex).map SortExtSlot.mExtFstPID)⟩
      else
        none

/-- A file from its creation on. -/
def extentSystem (g : FileAttr) (page : Nat → LGHdr) : System ExtentState ExtentAction where
  init := ⟨makeMetaHeaders g page, []⟩
  step := extentStep g

/-- The invariant of a run.  The last part is what the switches are for: the alloc
    pages have a free extent when any page has. -/
structure RunInv (g : FileAttr) (s : ExtentState) : Prop where
  file : FileOk g s.file
  held : HeldOk g s.file s.held
  switched : (s.file.ggHdr.mLGFreeness s.file.ggHdr.mAllocLGIdx).mFreeExts = 0 →
    (s.file.ggHdr.mLGFreeness s.file.ggHdr.mAllocLGIdx.dealloc).mFreeExts = 0

theorem trySwitch_switched (f : File) :
    (f.trySwitch.ggHdr.mLGFreeness f.trySwitch.ggHdr.mAllocLGIdx).mFreeExts = 0 →
      (f.trySwitch.ggHdr.mLGFreeness f.trySwitch.ggHdr.mAllocLGIdx.dealloc).mFreeExts = 0 := by
  unfold File.trySwitch
  dsimp only
  split
  · rename_i h
    intro hzero
    have hnew : (f.ggHdr.mLGFreeness f.ggHdr.mAllocLGIdx.dealloc).mFreeExts = 0 := hzero
    omega
  · rename_i h
    split <;> intro hzero <;> by_contra hne <;> exact h ⟨hzero, Nat.pos_of_ne_zero hne⟩

/-- Both operations end with a switch. -/
theorem tryAllocExtsInGG_switch {fuel : Nat} {behind : Mem} {r : File × List Nat}
    (h : f.tryAllocExtsInGG g.nBits fuel behind = .ok r) : ∃ f0 : File, r.1 = f0.trySwitch := by
  unfold File.tryAllocExtsInGG at h
  dsimp only at h
  split at h
  · cases h
  · split at h
    · split at h
      · cases h
      · split at h
        · cases h
        · split at h
          · split at h
            · cases h
            · cases h
              exact ⟨_, rfl⟩
          · cases h
            exact ⟨_, rfl⟩
    · split at h
      · cases h
        exact ⟨_, rfl⟩
      · cases h

theorem freeExtsInLG_switch {es : List SortExtSlot} {i : Nat} {r : File × Nat}
    (h : f.freeExtsInLG g.nBits es i = .ok r) : ∃ f0 : File, r.1 = f0.trySwitch := by
  unfold File.freeExtsInLG at h
  dsimp only at h
  split at h
  · cases h
  · split at h
    · split at h
      · cases h
      · cases h
        exact ⟨_, rfl⟩
    · cases h

theorem freeExtsInLG_nonempty {es : List SortExtSlot} {i : Nat} {r : File × Nat}
    (h : f.freeExtsInLG g.nBits es i = .ok r) : es.drop i ≠ [] := by
  intro hnil
  unfold File.freeExtsInLG at h
  rw [hnil] at h
  cases h

/-- One operation keeps the invariant. -/
theorem RunInv.step {s s' : ExtentState} {a : ExtentAction} (hi : RunInv g s)
    (h : extentStep g s a = some s') : RunInv g s' := by
  cases a with
  | alloc behind extra =>
      simp only [extentStep] at h
      cases hres : s.file.tryAllocExtsInGG g.nBits (searchFuel g extra) behind with
      | error e =>
          rw [hres] at h
          cases h
      | ok r =>
          rw [hres] at h
          cases h
          -- whether it allocates or not, the call ends with a try to switch
          obtain ⟨f0, hsw⟩ := tryAllocExtsInGG_switch hres
          have hswitched := trySwitch_switched f0
          rw [← hsw] at hswitched
          rcases tryAllocExtsInGG_spec hi.file hi.held
              (show g.nBits + lgCntMax ≤ searchFuel g extra from Nat.le_add_right _ _) behind rfl with
            ⟨l, hl, j, hj, f', -, hok, hf', hh', -⟩ | ⟨-, hno | hok⟩
          · rw [hres] at hok
            cases hok
            exact ⟨hf', hh', hswitched⟩
          · rw [hres] at hno
            cases hno
          · rw [hres] at hok
            cases hok
            exact ⟨hi.file.trySwitch, hi.held.congr (File.trySwitch_page _), hswitched⟩
  | free es i =>
      simp only [extentStep] at h
      -- extents are freed by those who hold them
      by_cases hcaller : CallerOk g s.held (freedSlots es i)
      · rw [if_pos hcaller] at h
        cases hres : s.file.freeExtsInLG g.nBits es i with
        | error e =>
            rw [hres] at h
            cases h
        | ok r =>
            rw [hres] at h
            cases h
            obtain ⟨f0, hsw⟩ := freeExtsInLG_switch hres
            have hswitched := trySwitch_switched f0
            rw [← hsw] at hswitched
            obtain ⟨f', hok, hf', hh'⟩ := freeExtsInLG_spec hi.file hi.held
              (freeExtsInLG_nonempty hres) hcaller
            rw [hres] at hok
            cases hok
            exact ⟨hf', hh', hswitched⟩
      · rw [if_neg hcaller] at h
        cases h

theorem runInv_of_reachable {page : Nat → LGHdr} {s : ExtentState}
    (hs : (extentSystem g page).Reachable s) : RunInv g s := by
  refine System.Path.invariant hs (fun s a s' hi _ h => hi.step h) ?_
  obtain ⟨hf, hh, hzero⟩ := makeMetaHeaders_ok g page
  exact ⟨hf, hh, fun _ => hzero⟩

/-- The states of an extent. -/
inductive ExtentStatus
  | allocated
  | free
  | freed
  deriving Repr, DecidableEq

/-- Its bit is set in both header pages of the group; clear in the alloc page only;
    or clear in the dealloc page only. -/
def File.ExtentIs (g : FileAttr) (f : File) (l j : Nat) : ExtentStatus → Prop
  | .allocated =>
      f.extBit g l f.ggHdr.mAllocLGIdx j = true ∧ f.extBit g l f.ggHdr.mAllocLGIdx.dealloc j = true
  | .free =>
      f.extBit g l f.ggHdr.mAllocLGIdx j = false ∧ f.extBit g l f.ggHdr.mAllocLGIdx.dealloc j = true
  | .freed =>
      f.extBit g l f.ggHdr.mAllocLGIdx j = true ∧ f.extBit g l f.ggHdr.mAllocLGIdx.dealloc j = false

/-- No extent is handed out twice or lost. -/
structure Conserved (g : FileAttr) (s : ExtentState) : Prop where
  /-- Every valid extent is in exactly one state. -/
  one_status : ∀ l < g.lgCnt, ∀ j < g.extCnt l, ∃! st, s.file.ExtentIs g l j st
  /-- The allocated ones are those that were handed out and not given back. -/
  allocated_iff : ∀ l < g.lgCnt, ∀ j < g.extCnt l,
    (s.file.ExtentIs g l j .allocated ↔ g.extPID l j ∈ s.held)
  /-- What an allocation returns was not allocated but free. -/
  fresh : ∀ behind extra r, s.file.tryAllocExtsInGG g.nBits (searchFuel g extra) behind = .ok r →
    ∀ pid ∈ r.2, pid ∉ s.held ∧
      ∃ l < g.lgCnt, ∃ j < g.extCnt l, pid = g.extPID l j ∧ s.file.ExtentIs g l j .free
  /-- As long as an extent is not allocated, an allocation returns one. -/
  not_lost : (∃ l < g.lgCnt, ∃ j < g.extCnt l, ¬ s.file.ExtentIs g l j .allocated) →
    ∀ behind extra, ∃ f' pid,
      s.file.tryAllocExtsInGG g.nBits (searchFuel g extra) behind = .ok (f', [pid])
  /-- Giving back extents that are handed out does not fail. -/
  can_free : ∀ es i, es.drop i ≠ [] → CallerOk g s.held (freedSlots es i) →
    ∃ f', s.file.freeExtsInLG g.nBits es i = .ok (f', (freedSlots es i).length)
  /-- `mFree` is the number of clear valid bits. -/
  free_count : ∀ l < g.lgCnt, ∀ w, (s.file.lgHdr g l w).mValidBits = g.extCnt l ∧
    (s.file.lgHdr g l w).mFree = clearCount (s.file.lgHdr g l w).mBitmap (g.extCnt l)
  /-- `mFreeExts` is their sum over the groups. -/
  freeExts_sum : ∀ w, (s.file.ggHdr.mLGFreeness w).mFreeExts =
    ∑ l ∈ Finset.range g.lgCnt, (s.file.lgHdr g l w).mFree
  /-- The freeness bit of a group. -/
  freeness_iff : ∀ l < g.lgCnt, ∀ w,
    (getBit (s.file.ggHdr.mLGFreeness w).mBits 0 l = true ↔ 0 < (s.file.lgHdr g l w).mFree)
  /-- Every bit below the hint is set. -/
  below_hint : ∀ l < g.lgCnt, ∀ w, ∀ j < (s.file.lgHdr g l w).mHint, s.file.extBit g l w j = true

/-- Exactly one state, since the two bits are never both clear. -/
theorem FileOk.one_status (hf : FileOk g f) (hl : l < g.lgCnt) (hj : j < g.extCnt l) :
    ∃! st, f.ExtentIs g l j st := by
  have hdis := hf.disjoint f.ggHdr.mAllocLGIdx l hl j hj
  cases ha : f.extBit g l f.ggHdr.mAllocLGIdx j with
  | true =>
      cases hd : f.extBit g l f.ggHdr.mAllocLGIdx.dealloc j with
      | true =>
          refine ⟨.allocated, ⟨ha, hd⟩, fun st hst => ?_⟩
          cases st with
          | allocated => rfl
          | free => exact absurd (ha.symm.trans hst.1) (by decide)
          | freed => exact absurd (hd.symm.trans hst.2) (by decide)
      | false =>
          refine ⟨.freed, ⟨ha, hd⟩, fun st hst => ?_⟩
          cases st with
          | allocated => exact absurd (hd.symm.trans hst.2) (by decide)
          | free => exact absurd (ha.symm.trans hst.1) (by decide)
          | freed => rfl
  | false =>
      have hd : f.extBit g l f.ggHdr.mAllocLGIdx.dealloc j = true :=
        hdis.resolve_left (by rw [ha]; decide)
      refine ⟨.free, ⟨ha, hd⟩, fun st hst => ?_⟩
      cases st with
      | allocated => exact absurd (ha.symm.trans hst.1) (by decide)
      | free => rfl
      | freed => exact absurd (ha.symm.trans hst.1) (by decide)

/-- The allocated extents are those whose bit is set in both header pages. -/
theorem HeldOk.allocated_iff {held : List Nat} (hh : HeldOk g f held) (hl : l < g.lgCnt)
    (hj : j < g.extCnt l) : g.extPID l j ∈ held ↔
      f.extBit g l f.ggHdr.mAllocLGIdx j = true ∧
        f.extBit g l f.ggHdr.mAllocLGIdx.dealloc j = true := by
  rw [hh.mem_iff]
  constructor
  · intro ⟨l', hl', j', hj', hpid, hboth⟩
    obtain ⟨rfl, rfl⟩ := g.extPID_inj hl hj hl' hj' hpid
    exact ⟨hboth _, hboth _⟩
  · intro ⟨ha, hd⟩
    refine ⟨l, hl, j, hj, rfl, fun w => ?_⟩
    rcases f.ggHdr.mAllocLGIdx.eq_or_dealloc w with rfl | rfl
    · exact ha
    · exact hd

/-- An extent that is not allocated has a clear bit, so a page of its group counts it. -/
theorem FileOk.free_of_not_allocated (hf : FileOk g f) (hl : l < g.lgCnt) (hj : j < g.extCnt l)
    (hno : ¬ f.ExtentIs g l j .allocated) : ∃ w, 0 < (f.ggHdr.mLGFreeness w).mFreeExts := by
  have hcount : ∀ w, f.extBit g l w j = false → 0 < (f.ggHdr.mLGFreeness w).mFreeExts := by
    intro w hbit
    refine (hf.freeExts_pos_iff w).mpr ⟨l, hl, ?_⟩
    have hcc := clearCount_setBit hj hbit
    rw [(hf.page w l hl).free]
    omega
  cases ha : f.extBit g l f.ggHdr.mAllocLGIdx j with
  | false => exact ⟨_, hcount _ ha⟩
  | true =>
      cases hd : f.extBit g l f.ggHdr.mAllocLGIdx.dealloc j with
      | false => exact ⟨_, hcount _ hd⟩
      | true => exact absurd ⟨ha, hd⟩ hno

/-- **No extent of a file is handed out twice or lost**, in any run of allocations,
    frees and the switches they trigger. -/
theorem extents_conserved (g : FileAttr) (page : Nat → LGHdr) {s : ExtentState}
    (hs : (extentSystem g page).Reachable s) : Conserved g s := by
  have hi := runInv_of_reachable hs
  have hfuel : ∀ extra, g.nBits + lgCntMax ≤ searchFuel g extra := fun _ => Nat.le_add_right _ _
  constructor
  · exact fun l hl j hj => hi.file.one_status hl hj
  · exact fun l hl j hj => (hi.held.allocated_iff hl hj).symm
  · -- an allocation returns a free extent
    intro behind extra r hres pid hpid
    rcases tryAllocExtsInGG_spec hi.file hi.held (hfuel extra) behind rfl with
      ⟨l, hl, j, hj, f', hbit, hok, -, -, hnot⟩ | ⟨-, hno | hok⟩
    · rw [hres] at hok
      cases hok
      have hone := List.mem_singleton.mp hpid
      subst hone
      refine ⟨hnot, l, hl, j, hj, rfl, hbit, ?_⟩
      exact (hi.file.disjoint _ l hl j hj).resolve_left (by rw [hbit]; decide)
    · rw [hres] at hno
      cases hno
    · rw [hres] at hok
      cases hok
      exact absurd hpid List.not_mem_nil
  · -- an allocation finds one as long as there is one
    rintro ⟨l, hl, j, hj, hno⟩ behind extra
    rcases tryAllocExtsInGG_spec hi.file hi.held (hfuel extra) behind rfl with
      ⟨l', -, j', -, f', -, hok, -⟩ | ⟨hzero, -⟩
    · exact ⟨f', _, hok⟩
    · -- the alloc pages have none, so after the last switch no page has
      obtain ⟨w, hpos⟩ := hi.file.free_of_not_allocated hl hj hno
      have hzero' := hi.switched hzero
      rcases s.file.ggHdr.mAllocLGIdx.eq_or_dealloc w with rfl | rfl <;> omega
  · -- a release succeeds
    intro es i hne hcaller
    obtain ⟨f', hok, -⟩ := freeExtsInLG_spec hi.file hi.held hne hcaller
    exact ⟨f', hok⟩
  · exact fun l hl w => ⟨(hi.file.page w l hl).validBits, (hi.file.page w l hl).free⟩
  · exact hi.file.freeExts
  · exact fun l hl w => hi.file.freeness w l hl
  · exact fun l hl w => (hi.file.page w l hl).hint

/-- Two groups, the last one with two of its four extents. -/
def twoGroups : FileAttr where
  nBits := 4
  mID := 3
  mPagesPerExt := 2
  mCurrSize := 17
  nBits_pos := by decide
  mID_lt := by decide
  pagesPerExt_pos := by decide
  size_ge := by decide
  size_le := by decide
  groups_le := by decide

/-- All six extents are taken, two of the first group are given back, which switches
    the pages, and one of these is taken again. -/
def twoGroupsRun : List ExtentAction :=
  List.replicate 6 (.alloc (fun _ => 0xFF#8) 0) ++
    [.free [⟨twoGroups.extPID 0 3, 0⟩, ⟨twoGroups.extPID 0 1, 0⟩] 0, .alloc (fun _ => 0xFF#8) 0]

/-- Pages that hold anything. -/
def anyPage : Nat → LGHdr := fun _ => ⟨0, 0, 7, 0, 9, fun _ => 0x5A#8⟩

theorem extents_conserved_twoGroups :
    Conserved twoGroups ((extentSystem twoGroups anyPage).after twoGroupsRun (by decide +kernel)) :=
  extents_conserved twoGroups anyPage (System.reachable_after _ _ _)

end Altibase.Sdp
