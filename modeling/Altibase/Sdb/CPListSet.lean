/-
  Altibase.Sdb.CPListSet
  ──────────────────────
  **CHECKPOINT LISTS** (`sdbCPListSet`).

  The buffer manager keeps its dirty pages in several circular lists, each
  sorted by recovery LSN.  A page goes into the list its page id selects, or
  into the next one whose mutex can be taken.  The restart position of
  recovery is read from the heads of the lists.

  `Pool` adds what the callers keep: a page is added when it becomes dirty,
  removed when it no longer is, and its recovery LSN does not change while
  it is dirty.

    * `Consistent` — the lists as the code means them;
    * `consistent_add`, `consistent_remove` — the two operations keep it and
      meet none of their assertions;
    * `minLoop_spec`, `maxLoop_spec` — what the heads and tails of
      sorted lists are worth.
-/

import Altibase.Lib.Ring
import Altibase.Lib.System
import Mathlib.Data.List.Induction
import Mathlib.Data.List.Nodup
import Mathlib.Algebra.Group.Nat.Defs

namespace Altibase.Sdb

open Altibase.Lib (Link Links IsRing System)

/-! ## §1. Log sequence numbers. -/

/-- `smLSN`. -/
structure LSN where
  fileNo : UInt32
  offset : UInt32
  deriving DecidableEq, Repr

namespace LSN

/-- `SM_LSN_MAX`. -/
def max : LSN := ⟨0xffffffff, 0xffffffff⟩

/-- `SM_LSN_INIT`. -/
def init : LSN := ⟨0, 0⟩

/-- `smrCompareLSN::isGTE`. -/
def isGTE (a b : LSN) : Bool :=
  if a.fileNo > b.fileNo then true
  else if a.fileNo = b.fileNo then a.offset ≥ b.offset else false

/-- `smrCompareLSN::isLT`. -/
def isLT (a b : LSN) : Bool :=
  if a.fileNo < b.fileNo then true
  else if a.fileNo = b.fileNo then a.offset < b.offset else false

/-- The position of an LSN in the log. -/
def val (a : LSN) : Nat := a.fileNo.toNat * 2 ^ 32 + a.offset.toNat

theorem isGTE_iff (a b : LSN) : a.isGTE b = true ↔ b.val ≤ a.val := by
  have ha := a.offset.toNat_lt
  have hb := b.offset.toNat_lt
  unfold isGTE val
  simp only [gt_iff_lt, ge_iff_le, UInt32.lt_iff_toNat_lt, UInt32.le_iff_toNat_le,
    ← UInt32.toNat_inj]
  split_ifs with h1 h2
  · simp only [true_iff]
    omega
  · simp only [decide_eq_true_eq]
    omega
  · simp only [false_iff]
    omega

theorem isLT_iff (a b : LSN) : a.isLT b = true ↔ a.val < b.val := by
  have ha := a.offset.toNat_lt
  have hb := b.offset.toNat_lt
  unfold isLT val
  simp only [UInt32.lt_iff_toNat_lt, ← UInt32.toNat_inj]
  split_ifs with h1 h2
  · simp only [true_iff]
    omega
  · simp only [decide_eq_true_eq]
    omega
  · simp only [false_iff]
    omega

end LSN

/-! ## §2. The list set. -/

/-- A node of a list: the base of list `i`, or the item of a BCB. -/
inductive Ref where
  | base (i : Nat)
  | bcb (p : Nat)
  deriving DecidableEq, Repr

/-- `SDB_CP_LIST_NONE`. -/
def cpListNone : Nat := 2 ^ 32 - 1

/-- The fields of a BCB that the checkpoint lists use. -/
structure BCB where
  pageID : Nat
  recoveryLSN : LSN
  cpListNo : Nat
  deriving DecidableEq, Repr

/-- **`sdbCPListSet`**, with the BCBs and their list items. -/
structure CPListSet where
  listCount : Nat
  node : Ref → Link Ref
  bcb : Nat → BCB
  listLength : Nat → Nat

namespace CPListSet

/-- The search of `add` for a list: `trylock` says whether the mutex of a
    list is free at a try.  After `listCount` tries the search is back at
    the first list and waits for it. -/
def findList (listCount : Nat) (trylock : Nat → Bool) : Nat → Nat → Nat
  | 0, listNo => listNo
  | left + 1, listNo =>
    if trylock (listCount - (left + 1)) then listNo
    else findList listCount trylock left (if listNo = listCount - 1 then 0 else listNo + 1)

/-- The scan of `add` from the tail: the last node whose LSN is not above
    `lsn`, or the base.  The checks of the source fail the scan. -/
def findPosition (s : CPListSet) (listNo : Nat) (lsn : LSN) : Nat → Ref → Option Ref
  | 0, _ => none
  | _ + 1, .base i => if i = listNo then some (.base i) else none
  | fuel + 1, .bcb p =>
    if (s.bcb p).cpListNo ≠ listNo then none
    else if lsn.isGTE (s.bcb p).recoveryLSN then some (.bcb p)
    else do
      let prv ← (s.node (.bcb p)).prev
      if (s.node prv).next ≠ some (.bcb p) then none
      else findPosition s listNo lsn fuel prv

/-- **`add`** of BCB `p`; `none` stands for a failed assertion. -/
def add (s : CPListSet) (trylock : Nat → Bool) (p : Nat) : Option CPListSet := do
  let lsn := (s.bcb p).recoveryLSN
  let listNo := findList s.listCount trylock s.listCount ((s.bcb p).pageID % s.listCount)
  let last ← (s.node (.base listNo)).prev
  if (s.node last).next ≠ some (.base listNo) then none
  else do
    let sNode ← s.findPosition listNo lsn (s.listLength listNo + 1) last
    let sNxt ← (s.node sNode).next
    if (s.node sNxt).prev ≠ some sNode then none
    else do
      let node ← Lib.insertAfter s.node sNode (.bcb p)
      some { s with
        node := node
        bcb := Function.update s.bcb p { s.bcb p with cpListNo := listNo }
        listLength := Function.update s.listLength listNo (s.listLength listNo + 1) }

/-- **`remove`** of BCB `p`, with `SMU_LIST_DELETE`. -/
def remove (s : CPListSet) (p : Nat) : Option CPListSet := do
  let listNo := (s.bcb p).cpListNo
  if listNo = cpListNone then none
  else do
    let node ← Lib.delete s.node (.bcb p)
    some { s with
      node := Function.update node (.bcb p) ⟨none, none⟩
      bcb := Function.update s.bcb p { s.bcb p with cpListNo := cpListNone }
      listLength := Function.update s.listLength listNo (s.listLength listNo - 1) }

/-- The loop of `getMinRecoveryLSN` over the lists `is`. -/
def minLoop (s : CPListSet) : List Nat → LSN → Option LSN
  | [], minLSN => some minLSN
  | i :: is, minLSN =>
    match (s.node (.base i)).next with
    | some (.bcb p) =>
      minLoop s is (if (s.bcb p).recoveryLSN.isLT minLSN then (s.bcb p).recoveryLSN else minLSN)
    | some (.base j) => if j = i then minLoop s is minLSN else none
    | none => none

/-- **`getMinRecoveryLSN`**. -/
def getMinRecoveryLSN (s : CPListSet) : Option LSN := s.minLoop (List.range s.listCount) .max

/-- The loop of `getMaxRecoveryLSN` over the lists `is`. -/
def maxLoop (s : CPListSet) : List Nat → LSN → Option LSN
  | [], maxLSN => some maxLSN
  | i :: is, maxLSN =>
    match (s.node (.base i)).prev with
    | some (.bcb p) =>
      maxLoop s is (if maxLSN.isLT (s.bcb p).recoveryLSN then (s.bcb p).recoveryLSN else maxLSN)
    | some (.base j) => if j = i then maxLoop s is maxLSN else none
    | none => none

/-- **`getMaxRecoveryLSN`**. -/
def getMaxRecoveryLSN (s : CPListSet) : Option LSN := s.maxLoop (List.range s.listCount) .init

/-- The list set after `initialize`, over BCBs that are in no list. -/
def initLists (listCount : Nat) (pageID : Nat → Nat) (lsn : Nat → LSN) : CPListSet :=
  { listCount
    node := fun r => match r with
      | .base i => ⟨some (.base i), some (.base i)⟩
      | .bcb _ => ⟨none, none⟩
    bcb := fun p => ⟨pageID p, lsn p, cpListNone⟩
    listLength := fun _ => 0 }

end CPListSet

/-! ## §3. The buffer pool. -/

/-- The list set and the pages that are dirty. -/
structure Pool where
  lists : CPListSet
  dirty : Nat → Bool

/-- What the buffer manager does to a page. -/
inductive Action where
  /-- The page becomes dirty and is added. -/
  | add (p : Nat) (trylock : Nat → Bool)
  /-- The page is flushed or discarded and removed. -/
  | remove (p : Nat)
  /-- A page that is not dirty is replaced or changed. -/
  | reuse (p : Nat) (pageID : Nat) (lsn : LSN)

/-- One operation of the buffer manager. -/
def Pool.step (s : Pool) : Action → Option Pool
  | .add p trylock =>
    if s.dirty p then none
    else do
      let lists ← s.lists.add trylock p
      some ⟨lists, Function.update s.dirty p true⟩
  | .remove p =>
    if s.dirty p then do
      let lists ← s.lists.remove p
      some ⟨lists, Function.update s.dirty p false⟩
    else none
  | .reuse p pageID lsn =>
    if s.dirty p then none
    else some { s with
      lists := { s.lists with
        bcb := Function.update s.lists.bcb p { s.lists.bcb p with pageID, recoveryLSN := lsn } } }

/-- A buffer pool with `listCount` checkpoint lists. -/
def bufferPool (listCount : Nat) (pageID : Nat → Nat) (lsn : Nat → LSN) : System Pool Action where
  init := ⟨CPListSet.initLists listCount pageID lsn, fun _ => false⟩
  step := Pool.step

/-! ## §4. Consistent lists. -/

/-- The nodes of list `i` with pages `ps`, from its base to its base. -/
def ringOf (i : Nat) (ps : List Nat) : List Ref := .base i :: ps.map .bcb ++ [.base i]

/-- **The lists as the code means them**: list `i` links the pages
    `pages i` in the order of their recovery LSNs, knows their number, and
    every page that is in a list records which. -/
structure Consistent (s : CPListSet) (dirty : Nat → Bool) (pages : Nat → List Nat) : Prop where
  links : ∀ i, i < s.listCount → Links s.node (ringOf i (pages i))
  nodup : ∀ i, i < s.listCount → (pages i).Nodup
  mem_iff : ∀ i, i < s.listCount → ∀ p, p ∈ pages i ↔ dirty p = true ∧ (s.bcb p).cpListNo = i
  listed : ∀ p, dirty p = true → (s.bcb p).cpListNo < s.listCount
  sorted : ∀ i, i < s.listCount →
    (pages i).Pairwise fun p q => (s.bcb p).recoveryLSN.val ≤ (s.bcb q).recoveryLSN.val
  length : ∀ i, i < s.listCount → s.listLength i = (pages i).length
  count_le : s.listCount ≤ cpListNone

/-- A consistent list set does not see a page that is in no list. -/
theorem Consistent.reuse {s : CPListSet} {dirty : Nat → Bool} {pages : Nat → List Nat}
    (c : Consistent s dirty pages) {p : Nat} (hp : dirty p = false) (pageID : Nat) (lsn : LSN) :
    Consistent
      { s with bcb := Function.update s.bcb p { s.bcb p with pageID, recoveryLSN := lsn } }
      dirty pages := by
  have hno : ∀ q, (Function.update s.bcb p { s.bcb p with pageID, recoveryLSN := lsn } q).cpListNo
      = (s.bcb q).cpListNo := by
    intro q
    by_cases hq : q = p
    · rw [hq, Function.update_self]
    · rw [Function.update_of_ne hq]
  have hsame : ∀ i, i < s.listCount → ∀ q ∈ pages i,
      Function.update s.bcb p { s.bcb p with pageID, recoveryLSN := lsn } q = s.bcb q := by
    intro i hi q hq
    have hd := ((c.mem_iff i hi q).mp hq).1
    have hqp : q ≠ p := fun e => by rw [e, hp] at hd; exact Bool.false_ne_true hd
    rw [Function.update_of_ne hqp]
  constructor
  · exact c.links
  · exact c.nodup
  · -- a list has the dirty pages that name it
    intro i hi q
    show q ∈ pages i ↔ dirty q = true ∧ (Function.update s.bcb p _ q).cpListNo = i
    rw [hno]
    exact c.mem_iff i hi q
  · -- a dirty page names a list
    intro q hq
    show (Function.update s.bcb p _ q).cpListNo < s.listCount
    rw [hno]
    exact c.listed q hq
  · -- the LSNs are in order
    intro i hi
    apply List.Pairwise.imp_of_mem _ (c.sorted i hi)
    intro a b ha hb hab
    show (Function.update s.bcb p _ a).recoveryLSN.val ≤ (Function.update s.bcb p _ b).recoveryLSN.val
    rw [hsame i hi a ha, hsame i hi b hb]
    exact hab
  · exact c.length
  · exact c.count_le

/-! ## §5. `add`. -/

theorem findList_lt (listCount : Nat) (trylock : Nat → Bool) (left : Nat) :
    ∀ listNo, listNo < listCount →
      CPListSet.findList listCount trylock left listNo < listCount := by
  induction left with
  | zero =>
    intro listNo h
    exact h
  | succ left ih =>
    intro listNo h
    unfold CPListSet.findList
    split_ifs with h1 h2
    · exact h
    · exact ih 0 (by omega)
    · exact ih (listNo + 1) (by omega)

/-- The last of the nodes of list `i` up to the pages `ps`. -/
def lastRef (i : Nat) (ps : List Nat) : Ref := (ps.map Ref.bcb).getLastD (.base i)

@[simp] theorem lastRef_nil (i : Nat) : lastRef i [] = .base i := rfl

@[simp] theorem lastRef_concat (i : Nat) (ps : List Nat) (p : Nat) :
    lastRef i (ps ++ [p]) = .bcb p := by
  simp [lastRef, List.getLastD_eq_getLast?]

/-- The nodes up to the pages `ps` end in `lastRef i ps`. -/
theorem exists_init (i : Nat) (ps : List Nat) :
    ∃ A, Ref.base i :: ps.map Ref.bcb = A ++ [lastRef i ps] := by
  rcases List.eq_nil_or_concat ps with rfl | ⟨qs, p, rfl⟩
  · exact ⟨[], rfl⟩
  · refine ⟨.base i :: qs.map .bcb, ?_⟩
    rw [List.concat_eq_append, lastRef_concat, List.map_append]
    rfl

/-- The nodes of a list before and after a position. -/
theorem ringOf_append (i : Nat) (ps qs : List Nat) :
    ∃ A, ringOf i (ps ++ qs) = A ++ lastRef i ps :: (qs.map Ref.bcb ++ [.base i]) ∧
      Ref.base i :: ps.map Ref.bcb = A ++ [lastRef i ps] := by
  obtain ⟨A, hA⟩ := exists_init i ps
  refine ⟨A, ?_, hA⟩
  calc ringOf i (ps ++ qs)
      = (.base i :: ps.map .bcb) ++ (qs.map .bcb ++ [.base i]) := by simp [ringOf]
    _ = A ++ lastRef i ps :: (qs.map Ref.bcb ++ [.base i]) := by rw [hA]; simp

theorem nodup_ring {i : Nat} {ps : List Nat} (h : ps.Nodup) :
    (Ref.base i :: ps.map Ref.bcb).Nodup := by
  apply List.nodup_cons.mpr
  constructor
  · simp
  · exact h.map fun a b hab => Ref.bcb.inj hab

/-- **The scan from the tail** finds the place before which the pages are
    not above `lsn` and after which they are. -/
theorem findPosition_spec {s : CPListSet} {listNo : Nat} (lsn : LSN) (ps : List Nat) :
    ∀ (fuel : Nat) (qs : List Nat), ps.length < fuel → Links s.node (ringOf listNo (ps ++ qs)) →
      (∀ p ∈ ps, (s.bcb p).cpListNo = listNo) →
      ps.Pairwise (fun p q => (s.bcb p).recoveryLSN.val ≤ (s.bcb q).recoveryLSN.val) →
      ∃ pre mid, ps = pre ++ mid ∧
        s.findPosition listNo lsn fuel (lastRef listNo ps) = some (lastRef listNo pre) ∧
        (∀ p ∈ pre, (s.bcb p).recoveryLSN.val ≤ lsn.val) ∧
        ∀ p ∈ mid, lsn.val < (s.bcb p).recoveryLSN.val := by
  -- the scan goes backwards, so the induction is on the last page
  induction ps using List.reverseRecOn with
  | nil =>
    intro fuel qs hfuel _ _ _
    obtain ⟨fuel, rfl⟩ : ∃ f, fuel = f + 1 := ⟨fuel - 1, by simp at hfuel; omega⟩
    exact ⟨[], [], rfl, if_pos rfl, by simp, by simp⟩
  | append_singleton ps p ih =>
    intro fuel qs hfuel hlinks hno hsorted
    rw [List.length_append, List.length_singleton] at hfuel
    obtain ⟨fuel, rfl⟩ : ∃ f, fuel = f + 1 := ⟨fuel - 1, by omega⟩
    have hp : (s.bcb p).cpListNo = listNo := hno p (by simp)
    have hlast := List.pairwise_append.mp hsorted
    have hbefore : ∀ q ∈ ps, (s.bcb q).recoveryLSN.val ≤ (s.bcb p).recoveryLSN.val :=
      fun q hq => hlast.2.2 q hq p List.mem_cons_self
    rw [lastRef_concat]
    unfold CPListSet.findPosition
    rw [if_neg (not_not.mpr hp)]
    -- the page is not younger: its place is behind it
    by_cases hge : lsn.isGTE (s.bcb p).recoveryLSN = true
    · have hle := (LSN.isGTE_iff _ _).mp hge
      refine ⟨ps ++ [p], [], (List.append_nil _).symm, ?_, ?_, by simp⟩
      · rw [if_pos hge, lastRef_concat]
      · intro q hq
        rcases List.mem_append.mp hq with hq | hq
        · exact Nat.le_trans (hbefore q hq) hle
        · rw [List.mem_singleton.mp hq]
          exact hle
    · have hlt : lsn.val < (s.bcb p).recoveryLSN.val := by
        rw [LSN.isGTE_iff] at hge
        omega
      have hring : Links s.node (ringOf listNo (ps ++ (p :: qs))) := by
        simpa using hlinks
      -- the page's `prev` pointer leads to the end of the rest
      obtain ⟨A, hA, _⟩ := ringOf_append listNo ps (p :: qs)
      rw [hA] at hring
      have hadj := Links.adjacent hring
      obtain ⟨pre, mid, rfl, hfind, hpre, hmid⟩ := ih fuel (p :: qs) (by omega) (by simpa using hlinks)
        (fun q hq => hno q (List.mem_append_left _ hq)) hlast.1
      refine ⟨pre, mid ++ [p], by simp, ?_, hpre, ?_⟩
      · rw [if_neg hge, hadj.2]
        show (if (s.node (lastRef listNo (pre ++ mid))).next ≠ some (.bcb p) then none
          else s.findPosition listNo lsn fuel (lastRef listNo (pre ++ mid))) = _
        rw [if_neg (not_not.mpr hadj.1)]
        exact hfind
      · intro q hq
        rcases List.mem_append.mp hq with hq | hq
        · exact hmid q hq
        · rw [List.mem_singleton.mp hq]
          exact hlt

theorem bcb_mem_ringOf {i p : Nat} {ps : List Nat} : Ref.bcb p ∈ ringOf i ps ↔ p ∈ ps := by
  simp [ringOf]

theorem base_mem_ringOf {i j : Nat} {ps : List Nat} : Ref.base j ∈ ringOf i ps ↔ j = i := by
  simp [ringOf]

theorem mem_ringOf {i : Nat} {ps : List Nat} {a : Ref} :
    a ∈ ringOf i ps ↔ a ∈ Ref.base i :: ps.map Ref.bcb := by
  simp only [ringOf, List.mem_append, List.mem_cons, List.not_mem_nil, or_false]
  tauto

/-- A list of the set is a circular list. -/
theorem Consistent.isRing {s : CPListSet} {dirty : Nat → Bool} {pages : Nat → List Nat}
    (c : Consistent s dirty pages) {i : Nat} (hi : i < s.listCount) :
    IsRing s.node (.base i) ((pages i).map .bcb) :=
  ⟨c.links i hi, nodup_ring (c.nodup i hi)⟩

/-- Different lists have no node in common. -/
theorem Consistent.ring_disjoint {s : CPListSet} {dirty : Nat → Bool} {pages : Nat → List Nat}
    (c : Consistent s dirty pages) {i j : Nat} (hi : i < s.listCount) (hj : j < s.listCount)
    (hij : i ≠ j) {a : Ref} (ha : a ∈ ringOf i (pages i)) : a ∉ ringOf j (pages j) := by
  cases a with
  | base k =>
    rw [base_mem_ringOf] at ha ⊢
    omega
  | bcb p =>
    rw [bcb_mem_ringOf] at ha ⊢
    intro hp
    have h1 := ((c.mem_iff i hi p).mp ha).2
    have h2 := ((c.mem_iff j hj p).mp hp).2
    omega

/-- **`add` meets no assertion and keeps the lists consistent.** -/
theorem consistent_add {s : CPListSet} {dirty : Nat → Bool} {pages : Nat → List Nat}
    (c : Consistent s dirty pages) (hcount : 0 < s.listCount) (trylock : Nat → Bool) {p : Nat}
    (hp : dirty p = false) :
    ∃ s' pages', s.add trylock p = some s' ∧ s'.listCount = s.listCount ∧
      Consistent s' (Function.update dirty p true) pages' := by
  obtain ⟨l, hl⟩ : ∃ l, l = CPListSet.findList s.listCount trylock s.listCount
      ((s.bcb p).pageID % s.listCount) := ⟨_, rfl⟩
  have hlt : l < s.listCount := by
    rw [hl]
    exact findList_lt _ _ _ _ (Nat.mod_lt _ hcount)
  have hnot : ∀ i, i < s.listCount → p ∉ pages i := by
    intro i hi hmem
    have := ((c.mem_iff i hi p).mp hmem).1
    rw [hp] at this
    exact Bool.false_ne_true this
  -- The tail of the list and the scan from it.
  have hring := c.links l hlt
  obtain ⟨pre, post, hpages, hfind, hpre, hpost⟩ := findPosition_spec (s.bcb p).recoveryLSN
    (pages l) (s.listLength l + 1) [] (by rw [c.length l hlt]; omega)
    (by rw [List.append_nil]; exact hring) (fun q hq => ((c.mem_iff l hlt q).mp hq).2) (c.sorted l hlt)
  obtain ⟨B, hB, _⟩ := ringOf_append l (pages l) []
  rw [List.append_nil] at hB
  have htail : (s.node (lastRef l (pages l))).next = some (.base l) ∧
      (s.node (.base l)).prev = some (lastRef l (pages l)) := by
    have := hring
    rw [hB] at this
    exact Links.adjacent this
  -- The new page is linked in behind the one that was found.
  have hplace : IsRing s.node (.base l) (pre.map .bcb ++ post.map .bcb) := by
    rw [← List.map_append, ← hpages]
    exact c.isRing hlt
  have hfresh : Ref.bcb p ∉ Ref.base l :: (pre.map .bcb ++ post.map .bcb) := by
    rw [← List.map_append, ← hpages, ← mem_ringOf, bcb_mem_ringOf]
    exact hnot l hlt
  have hadj := hplace.at_place
  obtain ⟨node', hinsert, hring', hframe⟩ := hplace.insertAfter hfresh
  let s' : CPListSet := { s with
    node := node'
    bcb := Function.update s.bcb p { s.bcb p with cpListNo := l }
    listLength := Function.update s.listLength l (s.listLength l + 1) }
  have hadd : s.add trylock p = some s' := by
    have hinsert' : Lib.insertAfter s.node (lastRef l pre) (.bcb p) = some node' := hinsert
    have hnxt : (s.node (lastRef l pre)).next = some ((post.map Ref.bcb).headD (.base l)) := hadj.1
    have hprv : (s.node ((post.map Ref.bcb).headD (.base l))).prev = some (lastRef l pre) := hadj.2
    unfold CPListSet.add
    simp only [← hl, htail.2, htail.1, hfind, hnxt, hprv, hinsert', Option.bind_eq_bind,
      Option.bind_some, ne_eq, not_true_eq_false, if_false]
    rfl
  have hbcb : ∀ i, i < s.listCount → ∀ q ∈ pages i, s'.bcb q = s.bcb q := by
    intro i hi q hq
    have hqp : q ≠ p := fun e => hnot i hi (e ▸ hq)
    show Function.update s.bcb p _ q = s.bcb q
    rw [Function.update_of_ne hqp]
  have hlsn : ∀ q, (s'.bcb q).recoveryLSN = (s.bcb q).recoveryLSN := by
    intro q
    show (Function.update s.bcb p _ q).recoveryLSN = (s.bcb q).recoveryLSN
    by_cases hq : q = p
    · rw [hq, Function.update_self]
    · rw [Function.update_of_ne hq]
  refine ⟨s', Function.update pages l (pre ++ p :: post), hadd, rfl, ?_⟩
  constructor
  · -- the rings
    intro i hi
    show Links node' (ringOf i (Function.update pages l (pre ++ p :: post) i))
    by_cases hil : i = l
    · rw [hil, Function.update_self]
      unfold ringOf
      rw [List.map_append, List.map_cons]
      exact hring'.links
    · rw [Function.update_of_ne hil]
      refine ((c.isRing hi).congr fun a ha => hframe a ?_).links
      rw [← List.map_append, ← hpages]
      have ha_mem := mem_ringOf.mpr ha
      have hdis := c.ring_disjoint hi hlt hil ha_mem
      rintro (_ | ⟨_, hmem⟩)
      · exact hnot i hi (bcb_mem_ringOf.mp ha_mem)
      · exact hdis (mem_ringOf.mpr hmem)
  · -- no page is on a list twice
    intro i hi
    by_cases hil : i = l
    · rw [hil, Function.update_self, List.nodup_middle]
      exact List.nodup_cons.mpr ⟨hpages ▸ hnot l hlt, hpages ▸ c.nodup l hlt⟩
    · rw [Function.update_of_ne hil]
      exact c.nodup i hi
  · -- a list has the dirty pages that name it
    intro i hi q
    show q ∈ Function.update pages l (pre ++ p :: post) i ↔
      Function.update dirty p true q = true ∧ (Function.update s.bcb p _ q).cpListNo = i
    by_cases hqp : q = p
    · rw [hqp, Function.update_self, Function.update_self]
      by_cases hil : i = l
      · rw [hil, Function.update_self]
        simp
      · rw [Function.update_of_ne hil]
        have := hnot i hi
        simp [this, Ne.symm hil]
    · rw [Function.update_of_ne hqp, Function.update_of_ne hqp, ← c.mem_iff i hi q]
      by_cases hil : i = l
      · rw [hil, Function.update_self, hpages]
        simp [hqp]
      · rw [Function.update_of_ne hil]
  · -- a dirty page names a list
    intro q hq
    show (Function.update s.bcb p _ q).cpListNo < s.listCount
    by_cases hqp : q = p
    · rw [hqp, Function.update_self]
      exact hlt
    · rw [Function.update_of_ne hqp] at hq ⊢
      exact c.listed q hq
  · -- the LSNs are in order
    intro i hi
    simp only [hlsn]
    by_cases hil : i = l
    · rw [hil, Function.update_self]
      have hs := hpages ▸ c.sorted l hlt
      have hs' := List.pairwise_append.mp hs
      apply List.pairwise_append.mpr
      refine ⟨hs'.1, List.pairwise_cons.mpr ⟨?_, hs'.2.1⟩, ?_⟩
      · intro q hq
        exact Nat.le_of_lt (hpost q hq)
      · intro a ha b hb
        rcases List.mem_cons.mp hb with rfl | hb
        · exact hpre a ha
        · exact hs'.2.2 a ha b hb
    · rw [Function.update_of_ne hil]
      exact c.sorted i hi
  · -- the lengths
    intro i hi
    show Function.update s.listLength l (s.listLength l + 1) i = _
    by_cases hil : i = l
    · rw [hil, Function.update_self, Function.update_self, c.length l hlt, hpages]
      simp only [List.length_append, List.length_cons]
      omega
    · rw [Function.update_of_ne hil, Function.update_of_ne hil]
      exact c.length i hi
  · exact c.count_le

/-! ## §6. `remove`. -/

/-- **`remove` meets no assertion and keeps the lists consistent.** -/
theorem consistent_remove {s : CPListSet} {dirty : Nat → Bool} {pages : Nat → List Nat}
    (c : Consistent s dirty pages) {p : Nat} (hp : dirty p = true) :
    ∃ s' pages', s.remove p = some s' ∧ s'.listCount = s.listCount ∧
      Consistent s' (Function.update dirty p false) pages' := by
  obtain ⟨l, hl⟩ : ∃ l, l = (s.bcb p).cpListNo := ⟨_, rfl⟩
  have hlt : l < s.listCount := hl ▸ c.listed p hp
  have hmem : p ∈ pages l := (c.mem_iff l hlt p).mpr ⟨hp, hl.symm⟩
  have honly : ∀ i, i < s.listCount → i ≠ l → p ∉ pages i := by
    intro i hi hil h
    have := ((c.mem_iff i hi p).mp h).2
    omega
  obtain ⟨pre, post, hpages⟩ := List.append_of_mem hmem
  have hplace : IsRing s.node (.base l) (pre.map .bcb ++ Ref.bcb p :: post.map .bcb) := by
    rw [← List.map_cons, ← List.map_append, ← hpages]
    exact c.isRing hlt
  obtain ⟨node', hdelete, hring', hframe⟩ := hplace.delete
  let s' : CPListSet := { s with
    node := Function.update node' (.bcb p) ⟨none, none⟩
    bcb := Function.update s.bcb p { s.bcb p with cpListNo := cpListNone }
    listLength := Function.update s.listLength l (s.listLength l - 1) }
  have hremove : s.remove p = some s' := by
    have hne : l ≠ cpListNone := by
      have := c.count_le
      omega
    unfold CPListSet.remove
    simp only [← hl, if_neg hne, hdelete, Option.bind_eq_bind, Option.bind_some]
    rfl
  -- the item that is reset is in no list any more
  have hreset : ∀ a, a ≠ Ref.bcb p → s'.node a = node' a := fun a ha =>
    Function.update_of_ne ha _ _
  have hlsn : ∀ q, (s'.bcb q).recoveryLSN = (s.bcb q).recoveryLSN := by
    intro q
    show (Function.update s.bcb p _ q).recoveryLSN = (s.bcb q).recoveryLSN
    by_cases hq : q = p
    · rw [hq, Function.update_self]
    · rw [Function.update_of_ne hq]
  have hnodup_l : p ∉ pre ++ post := by
    have := c.nodup l hlt
    rw [hpages] at this
    exact (List.nodup_middle.mp this).notMem
  refine ⟨s', Function.update pages l (pre ++ post), hremove, rfl, ?_⟩
  constructor
  · -- the rings
    intro i hi
    show Links s'.node (ringOf i (Function.update pages l (pre ++ post) i))
    by_cases hil : i = l
    · rw [hil, Function.update_self]
      unfold ringOf
      rw [List.map_append]
      refine (hring'.congr fun a ha => hreset a ?_).links
      rintro rfl
      rw [← List.map_append, ← mem_ringOf, bcb_mem_ringOf] at ha
      exact hnodup_l ha
    · rw [Function.update_of_ne hil]
      refine ((c.isRing hi).congr fun a ha => ?_).links
      have ha_mem := mem_ringOf.mpr ha
      have hdis := c.ring_disjoint hi hlt hil ha_mem
      rw [hreset a, hframe a]
      · rw [← List.map_append, ← mem_ringOf]
        intro hmem
        apply hdis
        cases a with
        | base k => exact base_mem_ringOf.mpr (base_mem_ringOf.mp hmem)
        | bcb q =>
          have hq := bcb_mem_ringOf.mp hmem
          rw [bcb_mem_ringOf, hpages]
          exact (List.Sublist.append_left (List.sublist_cons_self p post) pre).subset hq
      · rintro rfl
        exact honly i hi hil (bcb_mem_ringOf.mp ha_mem)
  · -- no page is on a list twice
    intro i hi
    by_cases hil : i = l
    · rw [hil, Function.update_self]
      have := c.nodup l hlt
      rw [hpages] at this
      exact (List.nodup_middle.mp this).of_cons
    · rw [Function.update_of_ne hil]
      exact c.nodup i hi
  · -- a list has the dirty pages that name it
    intro i hi q
    show q ∈ Function.update pages l (pre ++ post) i ↔
      Function.update dirty p false q = true ∧ (Function.update s.bcb p _ q).cpListNo = i
    by_cases hqp : q = p
    · rw [hqp, Function.update_self]
      by_cases hil : i = l
      · rw [hil, Function.update_self]
        simpa using hnodup_l
      · rw [Function.update_of_ne hil]
        simpa using honly i hi hil
    · rw [Function.update_of_ne hqp, Function.update_of_ne hqp, ← c.mem_iff i hi q]
      by_cases hil : i = l
      · rw [hil, Function.update_self, hpages]
        simp [hqp]
      · rw [Function.update_of_ne hil]
  · -- a dirty page names a list
    intro q hq
    show (Function.update s.bcb p _ q).cpListNo < s.listCount
    by_cases hqp : q = p
    · rw [hqp, Function.update_self] at hq
      exact absurd hq Bool.false_ne_true
    · rw [Function.update_of_ne hqp] at hq ⊢
      exact c.listed q hq
  · -- the LSNs are in order
    intro i hi
    simp only [hlsn]
    by_cases hil : i = l
    · rw [hil, Function.update_self]
      have hs := hpages ▸ c.sorted l hlt
      have hsub : (pre ++ post).Sublist (pre ++ p :: post) :=
        List.Sublist.append_left (List.sublist_cons_self p post) pre
      exact hs.sublist hsub
    · rw [Function.update_of_ne hil]
      exact c.sorted i hi
  · -- the lengths
    intro i hi
    show Function.update s.listLength l (s.listLength l - 1) i = _
    by_cases hil : i = l
    · rw [hil, Function.update_self, Function.update_self, c.length l hlt, hpages]
      simp only [List.length_append, List.length_cons]
      omega
    · rw [Function.update_of_ne hil, Function.update_of_ne hil]
      exact c.length i hi
  · exact c.count_le

/-! ## §7. The restart position. -/

section Restart

variable {s : CPListSet} {dirty : Nat → Bool} {pages : Nat → List Nat}

/-- The first node behind the base of a list. -/
theorem Consistent.first (c : Consistent s dirty pages) {i : Nat} (hi : i < s.listCount) :
    (s.node (.base i)).next = some ((pages i).head?.elim (.base i) .bcb) := by
  have h := c.links i hi
  cases hp : pages i with
  | nil =>
    rw [hp] at h
    exact h.1
  | cons p ps =>
    rw [hp] at h
    exact h.1

/-- The last node before the base of a list. -/
theorem Consistent.last (c : Consistent s dirty pages) {i : Nat} (hi : i < s.listCount) :
    (s.node (.base i)).prev = some (lastRef i (pages i)) := by
  obtain ⟨A, hA, _⟩ := ringOf_append i (pages i) []
  rw [List.append_nil] at hA
  have h := c.links i hi
  rw [hA] at h
  exact (Links.adjacent h).2

/-- **The loop of `getMinRecoveryLSN`** ends at most at what it starts from
    and at most at the LSN of every page of its lists; it does not move when
    these are empty. -/
theorem minLoop_spec (c : Consistent s dirty pages) (is : List Nat) :
    ∀ minLSN, (∀ i ∈ is, i < s.listCount) →
      ∃ r, s.minLoop is minLSN = some r ∧ r.val ≤ minLSN.val ∧
        (∀ i ∈ is, ∀ p ∈ pages i, r.val ≤ (s.bcb p).recoveryLSN.val) ∧
        ((∀ i ∈ is, pages i = []) → r = minLSN) := by
  induction is with
  | nil =>
    intro minLSN _
    exact ⟨minLSN, rfl, Nat.le_refl _, by simp, fun _ => rfl⟩
  | cons i is ih =>
    intro minLSN hlt
    have hi : i < s.listCount := hlt i List.mem_cons_self
    have hrest : ∀ j ∈ is, j < s.listCount := fun j hj => hlt j (List.mem_cons_of_mem i hj)
    have hfirst := c.first hi
    -- a list is in order, so its first page has the least LSN of it
    cases hp : pages i with
    | nil =>
      obtain ⟨r, hr, hle, hall, hnone⟩ := ih minLSN hrest
      refine ⟨r, ?_, hle, ?_, ?_⟩
      · rw [hp] at hfirst
        unfold CPListSet.minLoop
        rw [hfirst]
        exact (if_pos rfl).trans hr
      · intro j hj p hpj
        rcases List.mem_cons.mp hj with rfl | hj
        · rw [hp] at hpj
          exact absurd hpj List.not_mem_nil
        · exact hall j hj p hpj
      · intro h
        exact hnone fun j hj => h j (List.mem_cons_of_mem i hj)
    | cons p ps =>
      obtain ⟨m, hm⟩ : ∃ m, m = if (s.bcb p).recoveryLSN.isLT minLSN then (s.bcb p).recoveryLSN
        else minLSN := ⟨_, rfl⟩
      have hmle : m.val ≤ minLSN.val ∧ m.val ≤ (s.bcb p).recoveryLSN.val := by
        rw [hm]
        split_ifs with hlt'
        · have := (LSN.isLT_iff _ _).mp hlt'
          omega
        · rw [LSN.isLT_iff] at hlt'
          omega
      obtain ⟨r, hr, hle, hall, _⟩ := ih m hrest
      have hsorted := c.sorted i hi
      rw [hp] at hsorted
      refine ⟨r, ?_, by omega, ?_, ?_⟩
      · rw [hp] at hfirst
        unfold CPListSet.minLoop
        rw [hfirst]
        show s.minLoop is (if _ then _ else _) = some r
        rw [← hm]
        exact hr
      · intro j hj q hq
        rcases List.mem_cons.mp hj with rfl | hj
        · rw [hp] at hq
          rcases List.mem_cons.mp hq with rfl | hq
          · omega
          · have := (List.pairwise_cons.mp hsorted).1 q hq
            omega
        · exact hall j hj q hq
      · intro h
        have := h i List.mem_cons_self
        rw [hp] at this
        exact absurd this (List.cons_ne_nil p ps)

/-- **The loop of `getMaxRecoveryLSN`** ends at least at the LSN of every
    page of its lists. -/
theorem maxLoop_spec (c : Consistent s dirty pages) (is : List Nat) :
    ∀ maxLSN, (∀ i ∈ is, i < s.listCount) →
      ∃ r, s.maxLoop is maxLSN = some r ∧ maxLSN.val ≤ r.val ∧
        ∀ i ∈ is, ∀ p ∈ pages i, (s.bcb p).recoveryLSN.val ≤ r.val := by
  induction is with
  | nil =>
    intro maxLSN _
    exact ⟨maxLSN, rfl, Nat.le_refl _, by simp⟩
  | cons i is ih =>
    intro maxLSN hlt
    have hi : i < s.listCount := hlt i List.mem_cons_self
    have hrest : ∀ j ∈ is, j < s.listCount := fun j hj => hlt j (List.mem_cons_of_mem i hj)
    have hlast := c.last hi
    -- the last page of a list has its greatest LSN
    rcases List.eq_nil_or_concat (pages i) with hp | ⟨ps, p, hp⟩
    · obtain ⟨r, hr, hle, hall⟩ := ih maxLSN hrest
      refine ⟨r, ?_, hle, ?_⟩
      · rw [hp] at hlast
        unfold CPListSet.maxLoop
        rw [hlast]
        exact (if_pos rfl).trans hr
      · intro j hj q hq
        rcases List.mem_cons.mp hj with rfl | hj
        · rw [hp] at hq
          exact absurd hq List.not_mem_nil
        · exact hall j hj q hq
    · rw [List.concat_eq_append] at hp
      -- the greatest LSN so far
      obtain ⟨m, hm⟩ : ∃ m, m = if maxLSN.isLT (s.bcb p).recoveryLSN then (s.bcb p).recoveryLSN
        else maxLSN := ⟨_, rfl⟩
      have hmle : maxLSN.val ≤ m.val ∧ (s.bcb p).recoveryLSN.val ≤ m.val := by
        rw [hm]
        split_ifs with hlt'
        · have := (LSN.isLT_iff _ _).mp hlt'
          omega
        · rw [LSN.isLT_iff] at hlt'
          omega
      obtain ⟨r, hr, hle, hall⟩ := ih m hrest
      have hsorted := c.sorted i hi
      rw [hp] at hsorted
      refine ⟨r, ?_, by omega, ?_⟩
      · rw [hp, lastRef_concat] at hlast
        unfold CPListSet.maxLoop
        rw [hlast]
        show s.maxLoop is (if _ then _ else _) = some r
        rw [← hm]
        exact hr
      · intro j hj q hq
        rcases List.mem_cons.mp hj with rfl | hj
        · rw [hp] at hq
          rcases List.mem_append.mp hq with hq | hq
          · have := (List.pairwise_append.mp hsorted).2.2 q hq p List.mem_cons_self
            omega
          · rw [List.mem_singleton.mp hq]
            omega
        · exact hall j hj q hq

end Restart

/-! ## §8. Every run. -/

theorem consistent_init (listCount : Nat) (pageID : Nat → Nat) (lsn : Nat → LSN)
    (hcount : listCount ≤ cpListNone) :
    Consistent (CPListSet.initLists listCount pageID lsn) (fun _ => false) (fun _ => []) := by
  constructor
  · -- the rings
    intro i _
    exact ⟨rfl, rfl, trivial⟩
  · -- no page is on a list twice
    intro i _
    exact List.nodup_nil
  · -- a list has the dirty pages that name it
    intro i _ p
    simp
  · -- a dirty page names a list
    intro p hp
    exact absurd hp Bool.false_ne_true
  · -- the LSNs are in order
    intro i _
    exact List.Pairwise.nil
  · -- the lengths
    intro i _
    rfl
  · exact hcount

/-- The pool is consistent for some contents of its lists. -/
def PoolOk (listCount : Nat) (s : Pool) : Prop :=
  s.lists.listCount = listCount ∧ ∃ pages, Consistent s.lists s.dirty pages

/-- **One operation** keeps the lists consistent. -/
theorem poolOk_step {listCount : Nat} (hcount : 0 < listCount) {s s' : Pool} {a : Action}
    (h : PoolOk listCount s) (hstep : s.step a = some s') : PoolOk listCount s' := by
  obtain ⟨hc, pages, c⟩ := h
  cases a with
  | add p trylock =>
    cases hp : s.dirty p with
    | true => simp [Pool.step, hp] at hstep
    | false =>
      obtain ⟨lists, pages', hadd, hcount', c'⟩ :=
        consistent_add c (by omega) trylock hp
      have heq : s' = ⟨lists, Function.update s.dirty p true⟩ := by
        simpa [Pool.step, hp, hadd] using hstep.symm
      rw [heq]
      exact ⟨hcount'.trans hc, pages', c'⟩
  | remove p =>
    cases hp : s.dirty p with
    | false => simp [Pool.step, hp] at hstep
    | true =>
      obtain ⟨lists, pages', hremove, hcount', c'⟩ := consistent_remove c hp
      have heq : s' = ⟨lists, Function.update s.dirty p false⟩ := by
        simpa [Pool.step, hp, hremove] using hstep.symm
      rw [heq]
      exact ⟨hcount'.trans hc, pages', c'⟩
  | reuse p pageID lsn =>
    cases hp : s.dirty p with
    | true => simp [Pool.step, hp] at hstep
    | false =>
      have heq := hstep
      simp only [Pool.step, hp, Bool.false_eq_true, if_false, Option.some.injEq] at heq
      rw [← heq]
      exact ⟨hc, pages, c.reuse hp pageID lsn⟩

/-- **Checkpoint lists in every reachable state.**  Every dirty page is in
    exactly one list, the one it records; every list is linked both ways,
    sorted by recovery LSN and knows its length; `add` and `remove` meet no
    assertion; the minimum and maximum recovery LSN bound those of all
    listed pages, and the minimum is the greatest LSN when there is none. -/
theorem cpLists_reachable (listCount : Nat) (pageID : Nat → Nat) (lsn : Nat → LSN)
    (hpos : 0 < listCount) (hcount : listCount ≤ cpListNone) {s : Pool}
    (h : (bufferPool listCount pageID lsn).Reachable s) :
    ∃ pages : Nat → List Nat,
      (∀ p, s.dirty p = true → ∃! i, i < listCount ∧ p ∈ pages i) ∧
      (∀ i, i < listCount → ∀ p ∈ pages i, s.dirty p = true ∧ (s.lists.bcb p).cpListNo = i) ∧
      (∀ i, i < listCount → Links s.lists.node (ringOf i (pages i)) ∧ (pages i).Nodup ∧
        (pages i).Pairwise (fun p q =>
          (s.lists.bcb p).recoveryLSN.val ≤ (s.lists.bcb q).recoveryLSN.val) ∧
        s.lists.listLength i = (pages i).length) ∧
      (∀ p trylock, s.dirty p = false → (s.lists.add trylock p).isSome = true) ∧
      (∀ p, s.dirty p = true → (s.lists.remove p).isSome = true) ∧
      (∃ r, s.lists.getMinRecoveryLSN = some r ∧
        (∀ p, s.dirty p = true → r.val ≤ (s.lists.bcb p).recoveryLSN.val) ∧
        ((∀ p, s.dirty p = false) → r = .max)) ∧
      ∃ r, s.lists.getMaxRecoveryLSN = some r ∧
        ∀ p, s.dirty p = true → (s.lists.bcb p).recoveryLSN.val ≤ r.val := by
  -- the invariant, from the empty lists
  have hok : PoolOk listCount s := by
    apply h.invariant
    · intro u a u' hu _ hstep
      exact poolOk_step hpos hu hstep
    · exact ⟨rfl, fun _ => [], consistent_init listCount pageID lsn hcount⟩
  obtain ⟨hc, pages, c⟩ := hok
  -- a dirty page is on the list that its BCB names, and on no other
  have hlist : ∀ p, s.dirty p = true →
      (s.lists.bcb p).cpListNo < listCount ∧ p ∈ pages (s.lists.bcb p).cpListNo := by
    intro p hp
    have hlt := c.listed p hp
    exact ⟨hc ▸ hlt, (c.mem_iff _ hlt p).mpr ⟨hp, rfl⟩⟩
  have hrange : ∀ i ∈ List.range s.lists.listCount, i < s.lists.listCount :=
    fun i hi => List.mem_range.mp hi
  refine ⟨pages, ?_, ?_, ?_, ?_, ?_, ?_, ?_⟩
  · intro p hp
    refine ⟨(s.lists.bcb p).cpListNo, hlist p hp, ?_⟩
    intro i hi
    exact ((c.mem_iff i (hc ▸ hi.1) p).mp hi.2).2.symm
  · intro i hi p hp
    exact (c.mem_iff i (hc ▸ hi) p).mp hp
  · intro i hi
    have hi' : i < s.lists.listCount := hc ▸ hi
    exact ⟨c.links i hi', c.nodup i hi', c.sorted i hi', c.length i hi'⟩
  · intro p trylock hp
    obtain ⟨lists, _, hadd, _⟩ := consistent_add c (hc ▸ hpos) trylock hp
    rw [hadd]
    rfl
  · intro p hp
    obtain ⟨lists, _, hremove, _⟩ := consistent_remove c hp
    rw [hremove]
    rfl
  · obtain ⟨r, hr, _, hall, hnone⟩ := minLoop_spec c (List.range s.lists.listCount) .max hrange
    refine ⟨r, hr, ?_, ?_⟩
    · intro p hp
      exact hall _ (List.mem_range.mpr (hc ▸ (hlist p hp).1)) p (hlist p hp).2
    · intro hclean
      apply hnone
      intro i hi
      apply List.eq_nil_iff_forall_not_mem.mpr
      intro p hp
      have := ((c.mem_iff i (hrange i hi) p).mp hp).1
      rw [hclean p] at this
      exact Bool.false_ne_true this
  · obtain ⟨r, hr, _, hall⟩ := maxLoop_spec c (List.range s.lists.listCount) .init hrange
    refine ⟨r, hr, ?_⟩
    intro p hp
    exact hall _ (List.mem_range.mpr (hc ▸ (hlist p hp).1)) p (hlist p hp).2

/-- Two lists, three pages: the second page finds its list locked, the third
    one belongs between the other two, and one page is flushed. -/
def threePages : List Action :=
  [.add 0 (fun _ => true), .add 1 (fun i => i ≠ 0), .add 2 (fun _ => true), .remove 0]

/-- The runs of a pool with two lists. -/
def twoLists : System Pool Action := bufferPool 2 id (fun p => ⟨1, 10 - p.toUInt32⟩)

theorem threePages_runs : (twoLists.run twoLists.init threePages).isSome = true := by
  decide

/-- After this run recovery restarts at or before both pages that are still
    dirty. -/
theorem cpLists_reachable_threePages :
    0 < 2 ∧ 2 ≤ cpListNone ∧
      ∃ r, (twoLists.after threePages threePages_runs).lists.getMinRecoveryLSN = some r ∧
        ∀ p, (twoLists.after threePages threePages_runs).dirty p = true →
          r.val ≤ ((twoLists.after threePages threePages_runs).lists.bcb p).recoveryLSN.val := by
  refine ⟨by decide, by decide, ?_⟩
  obtain ⟨_, _, _, _, _, _, ⟨r, hr, hall, _⟩, _⟩ := cpLists_reachable 2 id
    (fun p => ⟨1, 10 - p.toUInt32⟩) (by decide) (by decide)
    (System.reachable_after twoLists threePages threePages_runs)
  exact ⟨r, hr, hall⟩

end Altibase.Sdb
