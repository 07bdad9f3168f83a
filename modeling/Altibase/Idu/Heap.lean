/-
  Altibase.Idu.Heap
  ─────────────────
  **THE BOUNDED HEAP** (`iduHeap`).

  The elements are the cells `1 .. mDataCnt` of an array.  A new element goes up
  from the end; in place of the greatest one the last goes down from the root,
  while it is still counted at its old place as well.

    * `HeapKept` — heap order, the bound, and the elements: what was accepted and
      not removed;
    * `insert_spec`, `insert_full`, `remove_spec` — the operations;
    * `iduHeap_reachable` — what every run keeps that inserts nothing into a full
      heap.  The test for a full heap lets one element too many pass, and the
      assertion behind it fails: `insert_asserts_when_full`.
-/
import Altibase.Lib.BinaryHeap
import Altibase.Lib.System
import Mathlib.Tactic.SplitIfs

namespace Altibase.Idu

open Altibase.Lib

/-! ## §1. The heap. -/

variable {α : Type}

/-- **`iduHeap`**; the array keeps its elements from index 1 on. -/
structure IduHeap (α : Type) where
  mArray : Nat → α
  mDataMaxCnt : Nat
  mDataCnt : Nat

/-- `mCompar`: the order of the user, turned round.  The source negates an `SInt`;
    the comparators give 1, 0 and -1, never `INT_MIN`, whose negation wraps. -/
def mCompar (mComparUser : α → α → Int) (a b : α) : Int := (-1) * mComparUser a b

/-- `GET_LEFT_CHILD_IDX`, of a `UInt`. -/
def getLeftChildIdx (i : Nat) : Nat := (i <<< 1) % 2 ^ 32

/-- `GET_PARENT_IDX`. -/
def getParentIdx (i : Nat) : Nat := i >>> 1

section Operations

variable (compar : α → α → Int)

/-- The loop of `maxHeapInsert`; it makes at most `fuel` rounds. -/
def insertLoop : Nat → (Nat → α) → Nat → Option (Nat → α)
  | 0, _, _ => none
  | fuel + 1, mArray, i =>
    if i > 1 then
      let sParentIdx := getParentIdx i
      if compar (mArray sParentIdx) (mArray i) ≥ 0 then some mArray
      else insertLoop fuel (swapAt mArray sParentIdx i) sParentIdx
    else some mArray

/-- The child that `IDU_HEAPSORT_MAX_HEAPIFY` compares: the right one if there is one
    and it is greater. -/
def greaterChild (aArray : Nat → α) (aArrayNum j : Nat) : Nat :=
  if j < aArrayNum ∧ compar (aArray j) (aArray (j + 1)) < 0 then j + 1 else j

/-- **`IDU_HEAPSORT_MAX_HEAPIFY`**. -/
def maxHeapify (aArrayNum : Nat) : Nat → (Nat → α) → Nat → Option (Nat → α)
  | 0, _, _ => none
  | fuel + 1, aArray, i =>
    if getLeftChildIdx i ≤ aArrayNum then
      let j := greaterChild compar aArray aArrayNum (getLeftChildIdx i)
      if compar (aArray j) (aArray i) ≤ 0 then some aArray
      else maxHeapify aArrayNum fuel (swapAt aArray i j) j
    else some aArray

/-- No index that this loop doubles is too great for it. -/
def heapifyFits (aArrayNum : Nat) : Nat → (Nat → α) → Nat → Bool
  | 0, _, _ => true
  | fuel + 1, aArray, i =>
    i < 2 ^ 31 &&
      if getLeftChildIdx i ≤ aArrayNum then
        let j := greaterChild compar aArray aArrayNum (getLeftChildIdx i)
        compar (aArray j) (aArray i) ≤ 0 || heapifyFits aArrayNum fuel (swapAt aArray i j) j
      else true

end Operations

namespace IduHeap

/-- The heap after `initialize`; `mem` is what the memory held before. -/
def initHeap (aDataMaxCnt : Nat) (mem : Nat → α) : IduHeap α := ⟨mem, aDataMaxCnt, 0⟩

variable (mComparUser : α → α → Int) (h : IduHeap α)

/-- **`maxHeapInsert`**; no result stands for the failed assertion. -/
def maxHeapInsert (aKey : α) : Option (IduHeap α) :=
  if h.mDataCnt < h.mDataMaxCnt then do
    let mDataCnt := h.mDataCnt + 1
    let mArray := Function.update h.mArray mDataCnt aKey
    let mArray ← insertLoop (mCompar mComparUser) mDataCnt mArray mDataCnt
    some { h with mArray := mArray, mDataCnt := mDataCnt }
  else none

/-- **`insert`**, with `aOverflow`. -/
def insert (aData : α) : Option (IduHeap α × Bool) :=
  if h.mDataCnt > h.mDataMaxCnt then some (h, true)
  else do
    let h ← h.maxHeapInsert mComparUser aData
    some (h, false)

/-- `remove`, from where the last element is copied over the root. -/
def lastToRoot : Nat → α :=
  if h.mDataCnt ≠ 1 then Function.update h.mArray 1 (h.mArray h.mDataCnt) else h.mArray

/-- **`remove`**; no element if `aUnderflow`. -/
def remove : Option (IduHeap α × Option α) :=
  if h.mDataCnt = 0 then some (h, none)
  else do
    let aData := h.mArray 1
    let mArray ← maxHeapify (mCompar mComparUser) h.mDataCnt h.mDataCnt h.lastToRoot 1
    some ({ h with mArray := mArray, mDataCnt := h.mDataCnt - 1 }, some aData)

/-- `empty`. -/
def empty : IduHeap α := { h with mDataCnt := 0 }

end IduHeap

/-! ## §2. Runs. -/

/-- The heap, with what it accepted and what was removed from it since it was empty. -/
structure HeapRun (α : Type) where
  heap : IduHeap α
  accepted : List α
  removed : List α

/-- The calls of the heap. -/
inductive HeapAction (α : Type) where
  | insert (aData : α)
  | remove
  | empty
  deriving DecidableEq, Repr

/-- What a call does. -/
def HeapRun.apply (mComparUser : α → α → Int) (s : HeapRun α) :
    HeapAction α → Option (HeapRun α)
  | .insert aData => do
    let (heap, aOverflow) ← s.heap.insert mComparUser aData
    some { s with heap := heap, accepted := if aOverflow then s.accepted else aData :: s.accepted }
  | .remove => do
    let (heap, aData) ← s.heap.remove mComparUser
    some { s with heap := heap, removed := aData.toList ++ s.removed }
  | .empty => some ⟨s.heap.empty, [], []⟩

/-- The runs of an initialised heap. -/
def heapSystem (mComparUser : α → α → Int) (aDataMaxCnt : Nat) (mem : Nat → α) :
    System (HeapRun α) (HeapAction α) where
  init := ⟨.initHeap aDataMaxCnt mem, [], []⟩
  step := HeapRun.apply mComparUser

/-- **The calls that stay clear of the two slips**: an insertion finds the heap not
    full, and a removal doubles no index from `2 ^ 31` on. -/
def HeapRun.fits (mComparUser : α → α → Int) (s : HeapRun α) : HeapAction α → Bool
  | .insert _ => s.heap.mDataCnt ≠ s.heap.mDataMaxCnt
  | .remove => s.heap.mDataCnt = 0 ||
      heapifyFits (mCompar mComparUser) s.heap.mDataCnt s.heap.mDataCnt s.heap.lastToRoot 1
  | .empty => true

/-! ## §3. The two loops. -/

/-- **A comparison function of a total preorder.** -/
structure TotalPreorderCompar (compar : α → α → Int) : Prop where
  sign : ∀ a b, compar a b ≤ 0 ↔ 0 ≤ compar b a
  trans : ∀ a b c, compar a b ≤ 0 → compar b c ≤ 0 → compar a c ≤ 0

/-- `a` is not above `b`. -/
def Below (compar : α → α → Int) (a b : α) : Prop := compar a b ≤ 0

section Loops

variable {compar : α → α → Int} (hc : TotalPreorderCompar compar)

include hc in
theorem TotalPreorderCompar.below_refl (a : α) : Below compar a a := by
  unfold Below
  have := hc.sign a a
  omega

include hc in
theorem TotalPreorderCompar.below_of_not_below {a b : α} (h : ¬ Below compar a b) :
    Below compar b a := by
  unfold Below at h ⊢
  have := hc.sign b a
  omega

/-- The order turned round. -/
theorem TotalPreorderCompar.mCompar (hc : TotalPreorderCompar compar) :
    TotalPreorderCompar (mCompar compar) := by
  constructor
  · intro a b
    have := hc.sign b a
    unfold Idu.mCompar
    omega
  · intro a b c hab hbc
    have h1 := (hc.sign b a).mpr (by unfold Idu.mCompar at hab; omega)
    have h2 := (hc.sign c b).mpr (by unfold Idu.mCompar at hbc; omega)
    have h3 := (hc.sign c a).mp (hc.trans c b a h2 h1)
    unfold Idu.mCompar
    omega

theorem getParentIdx_eq (i : Nat) : getParentIdx i = i / 2 := Nat.shiftRight_one i

theorem getLeftChildIdx_eq {i : Nat} (h : i < 2 ^ 31) : getLeftChildIdx i = 2 * i := by
  unfold getLeftChildIdx
  rw [Nat.shiftLeft_eq]
  omega

include hc in
/-- **The way up.** -/
theorem insertLoop_spec {n : Nat} (fuel : Nat) (a : Nat → α) (i : Nat) (h1 : 1 ≤ i) (hi : i ≤ n)
    (hfuel : i ≤ fuel) (hup : UpReady (Below compar) a n i) :
    ∃ a', insertLoop compar fuel a i = some a' ∧ HeapOrdered (Below compar) a' n ∧
      elems a' n = elems a n := by
  induction fuel generalizing a i with
  | zero => omega
  | succ fuel ih =>
    unfold insertLoop
    rw [getParentIdx_eq]
    by_cases h2 : i > 1
    · rw [if_pos h2]
      by_cases hge : compar (a (i / 2)) (a i) ≥ 0
      · exact ⟨a, if_pos hge, hup.done fun _ => (hc.sign _ _).mpr hge, rfl⟩
      · have hlt : Below compar (a (i / 2)) (a i) := by
          unfold Below
          omega
        obtain ⟨a', hloop, hord, helems⟩ :=
          ih (swapAt a (i / 2) i) (i / 2) (by omega) (by omega) (by omega)
            (hup.move hc.trans h2 hi hlt)
        refine ⟨a', ?_, hord, ?_⟩
        · show (if _ then _ else _) = _
          rw [if_neg hge]
          exact hloop
        · rw [helems]
          exact elems_swap a (by omega) (by omega) (by omega)
    · rw [if_neg h2]
      exact ⟨a, rfl, hup.done fun h => absurd h (by omega), rfl⟩

/-- The child that is compared is a child. -/
theorem greaterChild_child (a : Nat → α) {n i : Nat} (hle : 2 * i ≤ n) :
    greaterChild compar a n (2 * i) ≤ n ∧ greaterChild compar a n (2 * i) / 2 = i := by
  unfold greaterChild
  split_ifs with h <;> omega

include hc in
/-- It is the greatest one. -/
theorem greaterChild_max (a : Nat → α) {n i k : Nat} (h2 : 2 ≤ k) (hk : k ≤ n)
    (hki : k / 2 = i) : Below compar (a k) (a (greaterChild compar a n (2 * i))) := by
  unfold greaterChild
  have hcases : k = 2 * i ∨ k = 2 * i + 1 := by omega
  split_ifs with hright
  · rcases hcases with rfl | rfl
    · exact Int.le_of_lt hright.2
    · exact hc.below_refl _
  · rcases hcases with rfl | rfl
    · exact hc.below_refl _
    · have hge : 0 ≤ compar (a (2 * i)) (a (2 * i + 1)) := by
        by_contra hlt
        exact hright ⟨by omega, by omega⟩
      exact (hc.sign _ _).mpr hge

include hc in
/-- **The way down.**  A last cell that holds the same element is not reached. -/
theorem maxHeapify_spec {n : Nat} (fuel : Nat) (a : Nat → α) (i : Nat) (h1 : 1 ≤ i)
    (hi : i ≤ n) (hfuel : n + 1 - i ≤ fuel) (hfits : heapifyFits compar n fuel a i = true)
    (hdown : DownReady (Below compar) a n i) (hlast : a i = a n) :
    ∃ a', maxHeapify compar n fuel a i = some a' ∧ HeapOrdered (Below compar) a' n ∧
      elems a' n = elems a n ∧ a' n = a n := by
  induction fuel generalizing a i with
  | zero => omega
  | succ fuel ih =>
    unfold heapifyFits at hfits
    rw [Bool.and_eq_true, decide_eq_true_eq] at hfits
    obtain ⟨hsmall, hfits⟩ := hfits
    unfold maxHeapify
    rw [getLeftChildIdx_eq hsmall] at hfits ⊢
    by_cases hle : 2 * i ≤ n
    · rw [if_pos hle] at hfits ⊢
      obtain ⟨j, hj⟩ : ∃ j, j = greaterChild compar a n (2 * i) := ⟨_, rfl⟩
      obtain ⟨hjn, hji⟩ :
          greaterChild compar a n (2 * i) ≤ n ∧ greaterChild compar a n (2 * i) / 2 = i :=
        greaterChild_child a hle
      have hmax : ∀ k, 2 ≤ k → k ≤ n → k / 2 = i → Below compar (a k) (a j) := by
        rw [hj]
        exact fun k h2 hk hki => greaterChild_max hc a h2 hk hki
      simp only [← hj] at hjn hji hfits ⊢
      by_cases hstop : compar (a j) (a i) ≤ 0
      · refine ⟨a, if_pos hstop, hdown.done fun k h2 hk hki => ?_, rfl, rfl⟩
        exact hc.trans _ _ _ (hmax k h2 hk hki) hstop
      · -- the last cell is no child that is greater than what is on its way down
        have hne : j ≠ n := by
          rintro rfl
          exact hstop (hlast ▸ hc.below_refl (a j))
        have hlast' : swapAt a i j n = a n := swapAt_of_ne a (by omega) hne.symm
        have hnext : swapAt a i j j = swapAt a i j n := by
          rw [hlast', swapAt_right, hlast]
        have hfits' : heapifyFits compar n fuel (swapAt a i j) j = true := by
          rw [Bool.or_eq_true, decide_eq_true_eq] at hfits
          exact hfits.resolve_left hstop
        have hbelow : Below compar (a i) (a j) := hc.below_of_not_below hstop
        obtain ⟨a', hloop, hord, helems, hend⟩ := ih (swapAt a i j) j (by omega) hjn (by omega)
          hfits' (hdown.move h1 hjn hji hmax hbelow) hnext
        refine ⟨a', (if_neg hstop).trans hloop, hord, ?_, hend.trans hlast'⟩
        rw [helems]
        exact elems_swap a (by omega) ⟨h1, hi⟩ ⟨by omega, hjn⟩
    · rw [if_neg hle]
      exact ⟨a, rfl, hdown.done fun k h2 hk hki => absurd hk (by omega), rfl, rfl⟩

end Loops

/-! ## §4. What the heap keeps. -/

/-- **A consistent heap**: in order, within its bound, and with the elements that were
    accepted and not removed. -/
structure HeapKept (compar : α → α → Int) (s : HeapRun α) : Prop where
  ordered : HeapOrdered (Below compar) s.heap.mArray s.heap.mDataCnt
  bound : s.heap.mDataCnt ≤ s.heap.mDataMaxCnt
  elements : elems s.heap.mArray s.heap.mDataCnt + (s.removed : Multiset α) = s.accepted

section Kept

variable {mComparUser : α → α → Int} {h : IduHeap α}

/-- **A full heap** fails the assertion behind the test for it. -/
theorem insert_full (hfull : h.mDataCnt = h.mDataMaxCnt) (aData : α) :
    h.insert mComparUser aData = none := by
  unfold IduHeap.insert IduHeap.maxHeapInsert
  rw [if_neg (by omega), if_neg (by omega)]
  rfl

/-- **An insertion** into a heap with room adds the element. -/
theorem insert_spec (hc : TotalPreorderCompar mComparUser)
    (hord : HeapOrdered (Below (mCompar mComparUser)) h.mArray h.mDataCnt)
    (hroom : h.mDataCnt < h.mDataMaxCnt) (aData : α) :
    ∃ h', h.insert mComparUser aData = some (h', false) ∧
      h'.mDataMaxCnt = h.mDataMaxCnt ∧ h'.mDataCnt = h.mDataCnt + 1 ∧
      HeapOrdered (Below (mCompar mComparUser)) h'.mArray h'.mDataCnt ∧
      elems h'.mArray h'.mDataCnt = aData ::ₘ elems h.mArray h.mDataCnt := by
  obtain ⟨a, ha⟩ : ∃ a, a = Function.update h.mArray (h.mDataCnt + 1) aData := ⟨_, rfl⟩
  have hold : ∀ k, k ≤ h.mDataCnt → a k = h.mArray k := by
    intro k hk
    rw [ha]
    exact Function.update_of_ne (by omega) ..
  have hup : UpReady (Below (mCompar mComparUser)) a (h.mDataCnt + 1) (h.mDataCnt + 1) := by
    constructor
    · intro k h2 hk hne
      rw [hold k (by omega), hold (k / 2) (by omega)]
      exact hord k h2 (by omega)
    · intro _ k hk hki
      omega
  obtain ⟨a', hloop, hord', helems⟩ := insertLoop_spec hc.mCompar (h.mDataCnt + 1) a
    (h.mDataCnt + 1) (by omega) (Nat.le_refl _) (Nat.le_refl _) hup
  refine ⟨{ h with mArray := a', mDataCnt := h.mDataCnt + 1 }, ?_, rfl, rfl, hord', ?_⟩
  · unfold IduHeap.insert IduHeap.maxHeapInsert
    rw [if_neg (by omega), if_pos hroom]
    simp only [← ha, hloop, Option.bind_eq_bind, Option.bind_some]
  · rw [helems]
    show a (h.mDataCnt + 1) ::ₘ elems a h.mDataCnt = _
    rw [elems_congr fun k _ hk => hold k hk, ha, Function.update_self]

/-- An empty heap reports the underflow. -/
theorem remove_empty (hempty : h.mDataCnt = 0) : h.remove mComparUser = some (h, none) :=
  if_pos hempty

/-- The root after the last element is copied over it. -/
theorem lastToRoot_root : h.lastToRoot 1 = h.mArray h.mDataCnt := by
  unfold IduHeap.lastToRoot
  by_cases hone : h.mDataCnt = 1
  · rw [if_neg (not_not.mpr hone), hone]
  · rw [if_pos hone, Function.update_self]

theorem lastToRoot_other {k : Nat} (hk : k ≠ 1) : h.lastToRoot k = h.mArray k := by
  unfold IduHeap.lastToRoot
  split_ifs
  · exact Function.update_of_ne hk ..
  · rfl

/-- The last element is there twice, in place of the root. -/
theorem elems_lastToRoot (hpos : h.mDataCnt ≠ 0) :
    h.mArray 1 ::ₘ elems h.lastToRoot h.mDataCnt =
      h.mArray h.mDataCnt ::ₘ elems h.mArray h.mDataCnt := by
  unfold IduHeap.lastToRoot
  by_cases hone : h.mDataCnt = 1
  · rw [if_neg (not_not.mpr hone), hone]
  · rw [if_pos hone]
    exact elems_update h.mArray _ (Nat.le_refl 1) (by omega)

/-- **A removal** takes a greatest element. -/
theorem remove_spec (hc : TotalPreorderCompar mComparUser)
    (hord : HeapOrdered (Below (mCompar mComparUser)) h.mArray h.mDataCnt)
    (hpos : h.mDataCnt ≠ 0)
    (hfits : heapifyFits (mCompar mComparUser) h.mDataCnt h.mDataCnt h.lastToRoot 1 = true) :
    ∃ h' aData, h.remove mComparUser = some (h', some aData) ∧
      h'.mDataMaxCnt = h.mDataMaxCnt ∧ h'.mDataCnt + 1 = h.mDataCnt ∧
      HeapOrdered (Below (mCompar mComparUser)) h'.mArray h'.mDataCnt ∧
      aData ::ₘ elems h'.mArray h'.mDataCnt = elems h.mArray h.mDataCnt ∧
      ∀ x ∈ elems h.mArray h.mDataCnt, Below (mCompar mComparUser) x aData := by
  obtain ⟨n, hn⟩ : ∃ n, h.mDataCnt = n + 1 := ⟨h.mDataCnt - 1, by omega⟩
  have hroot := lastToRoot_root (h := h)
  have hlast : h.lastToRoot 1 = h.lastToRoot h.mDataCnt := by
    by_cases hone : h.mDataCnt = 1
    · rw [hone]
    · rw [lastToRoot_other hone, hroot]
  -- the last element is at the root, which is the only place out of order
  have hdown : DownReady (Below (mCompar mComparUser)) h.lastToRoot h.mDataCnt 1 := by
    constructor
    · intro k h2 hk hne
      rw [lastToRoot_other (by omega), lastToRoot_other hne]
      exact hord k h2 hk
    · intro h2
      omega
  obtain ⟨a', hloop, hord', helems, hend⟩ := maxHeapify_spec hc.mCompar h.mDataCnt h.lastToRoot 1
    (Nat.le_refl _) (by omega) (by omega) hfits hdown hlast
  refine ⟨{ h with mArray := a', mDataCnt := h.mDataCnt - 1 }, h.mArray 1, ?_, rfl,
    Nat.sub_add_cancel (by omega), ?_, ?_, ?_⟩
  · unfold IduHeap.remove
    rw [if_neg hpos]
    simp only [hloop, Option.bind_eq_bind, Option.bind_some]
  · intro k h2 hk
    have hk' : k ≤ h.mDataCnt - 1 := hk
    exact hord' k h2 (by omega)
  · have hdup := elems_lastToRoot hpos
    rw [hn] at helems hend hdup hlast
    have hlast' : a' (n + 1) = h.mArray (n + 1) := by
      rw [hend, ← hlast, hroot, hn]
    -- the element behind the end is the copy of the one that was moved
    have hsplit : h.mArray (n + 1) ::ₘ elems a' n = elems h.lastToRoot (n + 1) := by
      rw [← hlast']
      exact helems
    rw [← hsplit, Multiset.cons_swap] at hdup
    show h.mArray 1 ::ₘ elems a' (h.mDataCnt - 1) = elems h.mArray h.mDataCnt
    rw [hn]
    exact (Multiset.cons_inj_right _).mp hdup
  · intro x hx
    obtain ⟨k, h1, hk, rfl⟩ := exists_of_mem_elems hx
    exact hord.le_root hc.mCompar.below_refl hc.mCompar.trans k h1 hk

/-- **One call** keeps the heap consistent. -/
theorem heapKept_apply (hc : TotalPreorderCompar mComparUser) {s : HeapRun α}
    (hs : HeapKept (mCompar mComparUser) s) {action : HeapAction α}
    (hfits : s.fits mComparUser action = true) :
    ∃ s', s.apply mComparUser action = some s' ∧ HeapKept (mCompar mComparUser) s' ∧
      s'.heap.mDataMaxCnt = s.heap.mDataMaxCnt := by
  cases action with
  | insert aData =>
    have hroom : s.heap.mDataCnt < s.heap.mDataMaxCnt :=
      Nat.lt_of_le_of_ne hs.bound (of_decide_eq_true hfits)
    obtain ⟨h', hinsert, hmax, hcnt, hord, helems⟩ := insert_spec hc hs.ordered hroom aData
    refine ⟨{ s with heap := h', accepted := aData :: s.accepted }, ?_, ⟨hord, ?_, ?_⟩, hmax⟩
    · simp only [HeapRun.apply, hinsert]
      rfl
    · show h'.mDataCnt ≤ h'.mDataMaxCnt
      omega
    · show elems h'.mArray h'.mDataCnt + (s.removed : Multiset α) = (aData :: s.accepted : List α)
      rw [helems, Multiset.cons_add, hs.elements]
      rfl
  | remove =>
    -- an empty heap is left as it is
    by_cases hempty : s.heap.mDataCnt = 0
    · refine ⟨s, ?_, hs, rfl⟩
      simp only [HeapRun.apply, remove_empty hempty]
      rfl
    · have hfits' := (Bool.or_eq_true _ _ ▸ hfits).resolve_left fun e =>
        hempty (of_decide_eq_true e)
      obtain ⟨h', aData, hremove, hmax, hcnt, hord, helems, -⟩ :=
        remove_spec hc hs.ordered hempty hfits'
      have hbound := hs.bound
      refine ⟨{ s with heap := h', removed := aData :: s.removed }, ?_, ⟨hord, ?_, ?_⟩, hmax⟩
      · simp only [HeapRun.apply, hremove]
        rfl
      · show h'.mDataCnt ≤ h'.mDataMaxCnt
        omega
      · show elems h'.mArray h'.mDataCnt + ((aData :: s.removed : List α) : Multiset α) = s.accepted
        rw [← hs.elements, ← helems, Multiset.cons_add, ← Multiset.cons_coe, Multiset.add_cons]
  | empty =>
    refine ⟨⟨s.heap.empty, [], []⟩, rfl, ⟨?_, Nat.zero_le _, rfl⟩, rfl⟩
    intro k h2 hk
    have hk' : k ≤ 0 := hk
    omega

end Kept

/-- **Every run** whose calls stay clear of the two slips keeps the heap in order and its
    elements those that were accepted and not removed; every further such call succeeds,
    reports an overflow or an underflow as it should, and takes a greatest element. -/
theorem iduHeap_reachable {mComparUser : α → α → Int} (hc : TotalPreorderCompar mComparUser)
    (aDataMaxCnt : Nat) (mem : Nat → α) {s : HeapRun α}
    (hs : (heapSystem mComparUser aDataMaxCnt mem).ReachableBy
      (fun s a => s.fits mComparUser a = true) s) :
    HeapKept (mCompar mComparUser) s ∧ s.heap.mDataMaxCnt = aDataMaxCnt ∧
      (∀ aData, s.heap.mDataCnt ≠ s.heap.mDataMaxCnt →
        ∃ h', s.heap.insert mComparUser aData = some (h', false) ∧
          h'.mDataCnt = s.heap.mDataCnt + 1 ∧
          elems h'.mArray h'.mDataCnt = aData ::ₘ elems s.heap.mArray s.heap.mDataCnt) ∧
      (s.heap.mDataCnt = 0 → s.heap.remove mComparUser = some (s.heap, none)) ∧
      (s.heap.mDataCnt ≠ 0 → s.fits mComparUser .remove = true →
        ∃ h' aData, s.heap.remove mComparUser = some (h', some aData) ∧
          h'.mDataCnt + 1 = s.heap.mDataCnt ∧
          aData ::ₘ elems h'.mArray h'.mDataCnt = elems s.heap.mArray s.heap.mDataCnt ∧
          ∀ x ∈ elems s.heap.mArray s.heap.mDataCnt, Below (mCompar mComparUser) x aData) := by
  have hinv : HeapKept (mCompar mComparUser) s ∧ s.heap.mDataMaxCnt = aDataMaxCnt := by
    refine System.Path.invariant (I := fun u => HeapKept (mCompar mComparUser) u ∧
      u.heap.mDataMaxCnt = aDataMaxCnt) hs ?_ ⟨⟨?_, Nat.zero_le _, rfl⟩, rfl⟩
    · intro u a v hu hfits hstep
      obtain ⟨v', happly, hkept, hmax⟩ := heapKept_apply hc hu.1 hfits
      have hv : v' = v := Option.some.inj (happly.symm.trans hstep)
      exact ⟨hv ▸ hkept, hv ▸ hmax.trans hu.2⟩
    · intro k h2 hk
      have hk' : k ≤ 0 := hk
      omega
  refine ⟨hinv.1, hinv.2, fun aData hroom => ?_, remove_empty, fun hpos hfits => ?_⟩
  · have hlt : s.heap.mDataCnt < s.heap.mDataMaxCnt := Nat.lt_of_le_of_ne hinv.1.bound hroom
    obtain ⟨h', hinsert, -, hcnt, -, helems⟩ := insert_spec hc hinv.1.ordered hlt aData
    exact ⟨h', hinsert, hcnt, helems⟩
  · have hfits' := (Bool.or_eq_true _ _ ▸ hfits).resolve_left fun e =>
      hpos (of_decide_eq_true e)
    obtain ⟨h', aData, hremove, -, hcnt, -, helems, hmax⟩ :=
      remove_spec hc hinv.1.ordered hpos hfits'
    exact ⟨h', aData, hremove, hcnt, helems, hmax⟩

/-- The comparison of numbers. -/
def compareInt (a b : Int) : Int := if a > b then 1 else if a < b then -1 else 0

theorem compareInt_preorder : TotalPreorderCompar compareInt := by
  constructor
  · intro a b
    unfold compareInt
    split_ifs <;> omega
  · intro a b c
    unfold compareInt
    split_ifs <;> omega

/-- A run that fills a heap of three and takes two elements out. -/
def heapTrace : Option (HeapRun Int) :=
  ((heapSystem compareInt 3 fun _ => 0).restrict (·.fits compareInt)).run
    (heapSystem compareInt 3 fun _ => 0).init
    [.insert 1, .insert 3, .insert 2, .remove, .remove]

/-- The theorem at the end of that run. -/
theorem iduHeap_reachable_trace :
    ∃ s : HeapRun Int, s.removed = [2, 1] ∧ s.accepted = [2, 3, 1] ∧
      HeapKept (mCompar compareInt) s ∧ s.heap.mDataMaxCnt = 3 := by
  have hrun : heapTrace.isSome = true := by decide
  have hreach := iduHeap_reachable compareInt_preorder 3 (fun _ => 0)
    (System.path_of_restrict _ (Option.some_get hrun).symm)
  exact ⟨heapTrace.get hrun, rfl, rfl, hreach.1, hreach.2.1⟩

/-- **A full heap reports no overflow**: the test lets the element pass, and the assertion
    behind it fails. -/
theorem insert_asserts_when_full :
    ∃ s : HeapRun Int, (heapSystem compareInt 1 fun _ => 0).Reachable s ∧
      s.heap.mDataCnt = s.heap.mDataMaxCnt ∧ s.heap.insert compareInt 7 = none ∧
      ¬ ∃ h', s.heap.insert compareInt 7 = some (h', true) := by
  have hreach := System.reachable_after (heapSystem compareInt 1 fun _ => 0) [.insert 5]
    (by decide)
  exact ⟨_, hreach, by decide, rfl, by
    rintro ⟨h', hinsert⟩
    cases hinsert⟩

end Altibase.Idu
