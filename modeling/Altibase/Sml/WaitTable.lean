/-
  Altibase.Sml.WaitTable
  ──────────────────────
  **THE WAIT-FOR TABLE AS A CHAINED MATRIX.**

  Row `i` of `mWaitForTable` lists the slots that slot `i` waits for: the list
  starts at `mArrOfLockList[i].mFstWaitTblTransItem`, runs through the
  `mNxtWaitTransItem` of the entries and ends at `SML_END_ITEM`; an entry that
  is not linked has the mark `ID_USHORT_MAX` there.  `isCycle` searches for a
  wait cycle in place: it pushes every slot it reaches on the row of the
  waiter, with the length of the path, and `revertWaitItemColsOfTrans` takes
  them off again.

  The search on the chained matrix is the search of `Altibase.Sml.Cycle` on
  lists (`levels_sim`); so it ends, it is exact, and what it leaves can be
  reverted:

    * `row_push` — linking an entry in front of a row;
    * `represents_registRecordLockWait`, `represents_registTblLockWaitListByReq`,
      `represents_registTblLockWaitListByGrant` — registering a wait;
    * `revert_sim` — reverting gives the table back as it was.
-/

import Altibase.Sml.Cycle

namespace Altibase.Sml

/-! ## §1. The table. -/

/-- `ID_USHORT_MAX`: the entry is not linked. -/
def notLinked : Nat := 65535

/-- `SML_END_ITEM`: the end of a list. -/
def endItem : Nat := 65534

/-- `smlLockMatrixItem`. -/
structure LockMatrixItem where
  index : Nat
  nxtWaitTransItem : Nat
  nxtWaitRecTransItem : Nat
  deriving DecidableEq, Repr

/-- The list heads and tails of `smlTransLockList` that waits use. -/
structure TransLockList where
  fstWaitTblTransItem : Nat
  fstWaitRecTransItem : Nat
  lstWaitRecTransItem : Nat
  deriving DecidableEq, Repr

/-- `mWaitForTable`, `mArrOfLockList` and `mTransCnt`. -/
@[ext]
structure WaitTable where
  transCnt : Nat
  waitForTable : Nat → Nat → LockMatrixItem
  arrOfLockList : Nat → TransLockList

namespace WaitTable

/-- The table after `initialize`: no waits. -/
def empty (transCnt : Nat) : WaitTable where
  transCnt
  waitForTable := fun _ _ => ⟨0, notLinked, notLinked⟩
  arrOfLockList := fun _ => ⟨endItem, endItem, endItem⟩

/-- Writes the entry `(i, j)`. -/
def setItem (t : WaitTable) (i j : Nat) (item : LockMatrixItem) : WaitTable :=
  { t with
    waitForTable := Function.update t.waitForTable i (Function.update (t.waitForTable i) j item) }

/-- Writes the heads and tails of slot `i`. -/
def setList (t : WaitTable) (i : Nat) (l : TransLockList) : WaitTable :=
  { t with arrOfLockList := Function.update t.arrOfLockList i l }

/-- Links the entry `(i, j)` in front of row `i`, with path length `index`. -/
def push (t : WaitTable) (i j index : Nat) : WaitTable :=
  (t.setItem i j
    { t.waitForTable i j with
      index, nxtWaitTransItem := (t.arrOfLockList i).fstWaitTblTransItem }).setList i
    { t.arrOfLockList i with fstWaitTblTransItem := j }

/-! ## §2. Registering a wait. -/

/-- The record lock part of `registRecordLockWait`: `slot` goes to the end of
    the list of those that wait for `waitSlot`. -/
def linkRecordWait (t : WaitTable) (slot waitSlot : Nat) : Option WaitTable :=
  let item := t.waitForTable slot waitSlot
  if item.nxtWaitRecTransItem = notLinked then
    let t := t.setItem slot waitSlot { item with nxtWaitRecTransItem := endItem }
    let l := t.arrOfLockList waitSlot
    if l.fstWaitRecTransItem = endItem then
      if l.lstWaitRecTransItem = endItem then
        some (t.setList waitSlot
          { l with fstWaitRecTransItem := slot, lstWaitRecTransItem := slot })
      else none
    else if l.lstWaitRecTransItem = endItem then none
    else
      let lstSlot := l.lstWaitRecTransItem
      some ((t.setItem lstSlot waitSlot
        { t.waitForTable lstSlot waitSlot with nxtWaitRecTransItem := slot }).setList waitSlot
        { l with lstWaitRecTransItem := slot })
  else some t

/-- `registRecordLockWait`; `none` is a failed `IDE_ASSERT`. -/
def registRecordLockWait (t : WaitTable) (slot waitSlot : Nat) : Option WaitTable :=
  if (t.waitForTable slot waitSlot).index = 0 ∧
      (t.arrOfLockList slot).fstWaitTblTransItem = endItem then
    ((t.setItem slot waitSlot { t.waitForTable slot waitSlot with index := 1 }).linkRecordWait
      slot waitSlot).bind fun t =>
        if (t.arrOfLockList slot).fstWaitTblTransItem = endItem then
          some (t.push slot waitSlot (t.waitForTable slot waitSlot).index)
        else none
  else none

/-- `registTblLockWaitListByReq` over the slots of the lock nodes. -/
def registTblLockWaitListByReq (slot : Nat) : List Nat → WaitTable → Option WaitTable
  | [], t => some t
  | transSlot :: nodes, t =>
    if slot ≠ transSlot then
      if (t.waitForTable slot transSlot).nxtWaitTransItem = notLinked then
        registTblLockWaitListByReq slot nodes (t.push slot transSlot 1)
      else none
    else registTblLockWaitListByReq slot nodes t

/-- `registTblLockWaitListByGrant` over the slots of the lock nodes. -/
def registTblLockWaitListByGrant (slot : Nat) : List Nat → WaitTable → WaitTable
  | [], t => t
  | transSlot :: nodes, t =>
    if slot ≠ transSlot ∧ (t.waitForTable slot transSlot).nxtWaitTransItem = notLinked then
      registTblLockWaitListByGrant slot nodes (t.push slot transSlot 1)
    else registTblLockWaitListByGrant slot nodes t

/-! ## §3. `isCycle` on the table. -/

/-- What deadlock detection reads of the table: path lengths, and through
    `trans` the transactions.  Nothing else runs meanwhile, so an entry that is
    read a second time is still the same. -/
def node (t : WaitTable) (trans : Nat → Trans) (rows : Nat → List Nat) : Node where
  transCnt := t.transCnt
  index := fun i j => (t.waitForTable i j).index
  items := rows
  recheck := fun i j => (t.waitForTable i j).index
  trans
  transLater := trans

end WaitTable

/-- The variables of `isCycle`: the table, the waiter's row of
    `mTxList4DistDeadlock` and `sExitPathFlag`. -/
structure CycleSearch where
  table : WaitTable
  txList : Nat → TxEntry
  exitPathFlag : Bool

namespace CycleSearch

variable (trans : Nat → Trans) (slot : Nat) (ready : Bool)

/-- Slot `j`, for which slot `i` waits, is linked into the row of `slot`. -/
def link (pathLen i j : Nat) (s : CycleSearch) : CycleSearch where
  table := s.table.push slot j (pathLen + 1)
  txList :=
    if ready then
      Function.update s.txList j
        ((s.table.node trans (fun _ => [])).nextEntry i j (s.txList i) (s.txList j))
    else s.txList
  exitPathFlag := if slot = j then s.exitPathFlag else true

/-- The loop over the direct waits `j` of slot `i`.  The flag is
    `return ID_TRUE`; `none` is a failed `IDE_ASSERT`, or that `fuel`
    iterations are not enough. -/
def scanRow (pathLen i : Nat) : Nat → Nat → CycleSearch → Option (CycleSearch × Bool)
  | 0, _, _ => none
  | fuel + 1, j, s =>
    if j < endItem then
      if (s.table.waitForTable i j).index = 1 ∧
          (s.table.waitForTable slot j).nxtWaitTransItem = notLinked then
        if j < s.table.transCnt then
          let s := s.link trans slot ready pathLen i j
          if slot = j then some (s, true)
          else scanRow pathLen i fuel (s.table.waitForTable i j).nxtWaitTransItem s
        else none
      else scanRow pathLen i fuel (s.table.waitForTable i j).nxtWaitTransItem s
    else some (s, false)

/-- Sets the entry of a slot at distance one for deadlock detection. -/
def mark (pathLen i : Nat) (s : CycleSearch) : CycleSearch :=
  if pathLen = 1 ∧ ready then
    { s with
      txList := Function.update s.txList i
        ((s.table.node trans (fun _ => [])).directEntry slot i) }
  else s

/-- The loop over the row of the waiter. -/
def scanLevel (rowFuel pathLen : Nat) : Nat → Nat → CycleSearch → Option (CycleSearch × Bool)
  | 0, _, _ => none
  | fuel + 1, i, s =>
    if i ≠ endItem ∧ (s.table.waitForTable slot slot).nxtWaitTransItem = notLinked then
      if i < s.table.transCnt then
        if (s.table.waitForTable slot i).index = pathLen then
          match scanRow trans slot ready pathLen i rowFuel
              (s.table.arrOfLockList i).fstWaitTblTransItem
              (s.mark trans slot ready pathLen i) with
          | some (s, false) =>
            scanLevel rowFuel pathLen fuel (s.table.waitForTable slot i).nxtWaitTransItem s
          | r => r
        else scanLevel rowFuel pathLen fuel (s.table.waitForTable slot i).nxtWaitTransItem s
      else none
    else some (s, false)

/-- The `while` loop over the path lengths. -/
def levels (rowFuel : Nat) : Nat → Nat → CycleSearch → Option (CycleSearch × Bool)
  | 0, _, _ => none
  | fuel + 1, pathLen, s =>
    if s.exitPathFlag = true ∧ (s.table.waitForTable slot slot).index = 0 ∧
        pathLen < s.table.transCnt then
      match scanLevel trans slot ready rowFuel pathLen rowFuel
          (s.table.arrOfLockList slot).fstWaitTblTransItem { s with exitPathFlag := false } with
      | some (s, false) => levels rowFuel fuel (pathLen + 1) s
      | r => r
    else some (s, (s.table.waitForTable slot slot).index ≠ 0)

end CycleSearch

namespace WaitTable

/-- **`isCycle`** with `fuel` iterations for each of its loops: whether `slot`
    waits for itself, and what is left behind. -/
def isCycle (trans : Nat → Trans) (t : WaitTable) (slot : Nat) (ready : Bool) (fuel : Nat) :
    Option (CycleSearch × Bool) :=
  CycleSearch.levels trans slot ready fuel fuel 1
    ⟨t, fun _ => ⟨.nonDistInfo, nullTID⟩, true⟩

/-! ## §4. Undoing it. -/

/-- The loop of `clearWaitItemColsOfTrans`. -/
def clearLoop (doInit : Bool) (slot : Nat) : Nat → Nat → WaitTable → Option WaitTable
  | 0, _, _ => none
  | fuel + 1, cur, t =>
    if cur ≠ endItem then
      let nxt := (t.waitForTable slot cur).nxtWaitTransItem
      clearLoop doInit slot fuel nxt (t.setItem slot cur
        { t.waitForTable slot cur with
          index := 0, nxtWaitTransItem := if doInit then notLinked else nxt })
    else some t

/-- `clearWaitItemColsOfTrans`. -/
def clearWaitItemColsOfTrans (doInit : Bool) (slot fuel : Nat) (t : WaitTable) :
    Option WaitTable :=
  (clearLoop doInit slot fuel (t.arrOfLockList slot).fstWaitTblTransItem t).map fun t =>
    if doInit then t.setList slot { t.arrOfLockList slot with fstWaitTblTransItem := endItem }
    else t

/-- The loop of `revertWaitItemColsOfTrans`; it also returns where it stopped. -/
def revertLoop (slot : Nat) : Nat → Nat → WaitTable → Option (WaitTable × Nat)
  | 0, _, _ => none
  | fuel + 1, cur, t =>
    if cur ≠ endItem ∧ 1 < (t.waitForTable slot cur).index then
      revertLoop slot fuel (t.waitForTable slot cur).nxtWaitTransItem (t.setItem slot cur
        { t.waitForTable slot cur with index := 0, nxtWaitTransItem := notLinked })
    else some (t, cur)

/-- **`revertWaitItemColsOfTrans`**. -/
def revertWaitItemColsOfTrans (slot fuel : Nat) (t : WaitTable) : Option WaitTable :=
  (revertLoop slot fuel (t.arrOfLockList slot).fstWaitTblTransItem t).map fun (t, cur) =>
    if cur ≠ endItem then
      t.setList slot { t.arrOfLockList slot with fstWaitTblTransItem := cur }
    else t

end WaitTable

/-! ## §5. Rows. -/

/-- Following `next` from `a` visits `l` and then arrives at the end. -/
def Chain (next : Nat → Nat) : Nat → List Nat → Prop
  | a, [] => a = endItem
  | a, x :: xs => a = x ∧ Chain next (next x) xs

/-- A chain only depends on the links of its members. -/
theorem Chain.congr {next next' : Nat → Nat} {l : List Nat} :
    ∀ {a : Nat}, Chain next a l → (∀ x ∈ l, next' x = next x) → Chain next' a l := by
  induction l with
  | nil =>
    intro a h _
    exact h
  | cons x xs ih =>
    intro a h heq
    constructor
    · exact h.1
    · rw [heq x List.mem_cons_self]
      exact ih h.2 (fun y hy => heq y (List.mem_cons_of_mem x hy))

/-- The link of an entry of row `i`. -/
def WaitTable.nxt (t : WaitTable) (i j : Nat) : Nat := (t.waitForTable i j).nxtWaitTransItem

/-- **Row `i` links exactly the slots of `l`, in this order.** -/
structure Row (t : WaitTable) (i : Nat) (l : List Nat) : Prop where
  chain : Chain (t.nxt i) (t.arrOfLockList i).fstWaitTblTransItem l
  nodup : l.Nodup
  lt : ∀ j ∈ l, j < t.transCnt
  linked : ∀ j < t.transCnt, (j ∈ l ↔ t.nxt i j ≠ notLinked)

theorem Row.length_le {t : WaitTable} {i : Nat} {l : List Nat} (h : Row t i l) :
    l.length ≤ t.transCnt := by
  have hsub : l.toFinset ⊆ Finset.range t.transCnt := by
    intro j hj
    exact Finset.mem_range.mpr (h.lt j (List.mem_toFinset.mp hj))
  have := Finset.card_le_card hsub
  rwa [Finset.card_range, List.toFinset_card_of_nodup h.nodup] at this

/-- The head of a row is never the mark of an unlinked entry. -/
theorem Row.head_ne {t : WaitTable} {i : Nat} {l : List Nat} (h : Row t i l)
    (hcnt : t.transCnt ≤ endItem) : (t.arrOfLockList i).fstWaitTblTransItem ≠ notLinked := by
  unfold endItem at hcnt
  unfold notLinked
  have hc := h.chain
  cases l with
  | nil =>
    unfold Chain endItem at hc
    omega
  | cons x xs =>
    have := h.lt x List.mem_cons_self
    have := hc.1
    omega

section Push

variable (t : WaitTable) (i j index : Nat)

theorem push_same :
    (t.push i j index).waitForTable i j =
      { t.waitForTable i j with
        index, nxtWaitTransItem := (t.arrOfLockList i).fstWaitTblTransItem } := by
  simp [WaitTable.push, WaitTable.setItem, WaitTable.setList]

theorem push_of_ne {a : Nat} (h : a ≠ j) :
    (t.push i j index).waitForTable i a = t.waitForTable i a := by
  simp [WaitTable.push, WaitTable.setItem, WaitTable.setList, h]

theorem push_other {a : Nat} (h : a ≠ i) :
    (t.push i j index).waitForTable a = t.waitForTable a ∧
    (t.push i j index).arrOfLockList a = t.arrOfLockList a := by
  simp [WaitTable.push, WaitTable.setItem, WaitTable.setList, h]

theorem push_list :
    (t.push i j index).arrOfLockList i =
      { t.arrOfLockList i with fstWaitTblTransItem := j } := by
  simp [WaitTable.push, WaitTable.setItem, WaitTable.setList]

end Push

/-- **Linking a slot in front of a row.** -/
theorem row_push {t : WaitTable} {i j : Nat} {l : List Nat} (h : Row t i l)
    (hcnt : t.transCnt ≤ endItem) (hj : j ∉ l) (hlt : j < t.transCnt) (index : Nat) :
    Row (t.push i j index) i (j :: l) := by
  have hkeep : ∀ x ∈ l, (t.push i j index).nxt i x = t.nxt i x := by
    intro x hx
    unfold WaitTable.nxt
    rw [push_of_ne]
    intro e
    exact hj (e ▸ hx)
  constructor
  · rw [push_list]
    constructor
    · rfl
    · have hnxt : (t.push i j index).nxt i j = (t.arrOfLockList i).fstWaitTblTransItem := by
        unfold WaitTable.nxt
        rw [push_same]
      rw [hnxt]
      exact h.chain.congr hkeep
  · exact List.nodup_cons.mpr ⟨hj, h.nodup⟩
  · intro a ha
    rcases List.mem_cons.mp ha with rfl | ha
    · exact hlt
    · exact h.lt a ha
  · intro a hlta
    by_cases haj : a = j
    · subst haj
      unfold WaitTable.nxt
      rw [push_same]
      simp [h.head_ne hcnt]
    · unfold WaitTable.nxt
      rw [push_of_ne _ _ _ _ haj, List.mem_cons, h.linked a hlta]
      unfold WaitTable.nxt
      simp [haj]

theorem row_push_other {t : WaitTable} {i j a index : Nat} {l : List Nat} (ha : a ≠ i)
    (h : Row t a l) : Row (t.push i j index) a l := by
  have hother := push_other t i j index ha
  constructor
  · unfold WaitTable.nxt
    rw [hother.1, hother.2]
    exact h.chain
  · exact h.nodup
  · exact h.lt
  · unfold WaitTable.nxt
    rw [hother.1]
    exact h.linked

/-- **The table represents the direct waits of `slot`.**  Every row is a list;
    the row of `slot` links its direct waits and nothing else. -/
structure Represents (t : WaitTable) (slot : Nat) (rows : Nat → List Nat) : Prop where
  cnt_le : t.transCnt ≤ endItem
  slot_lt : slot < t.transCnt
  row : ∀ i < t.transCnt, Row t i (rows i)
  direct : ∀ j ∈ rows slot, (t.waitForTable slot j).index = 1
  rest : ∀ j < t.transCnt, j ∉ rows slot → (t.waitForTable slot j).index = 0

theorem fresh_node {t : WaitTable} {slot : Nat} {rows : Nat → List Nat}
    (h : Represents t slot rows) (trans : Nat → Trans) : (t.node trans rows).Fresh slot where
  nodup := (h.row slot h.slot_lt).nodup
  direct := h.direct
  rest := h.rest
  lt := fun i hi => (h.row i hi).lt
  slot_lt := h.slot_lt

/-! ## §6. Registering keeps the table a representation. -/

section Regist

variable {t t' : WaitTable} {slot : Nat} {rows : Nat → List Nat}

theorem represents_push (h : Represents t slot rows) {j : Nat} (hlt : j < t.transCnt)
    (hj : j ∉ rows slot) :
    Represents (t.push slot j 1) slot (Function.update rows slot (j :: rows slot)) := by
  constructor
  · exact h.cnt_le
  · exact h.slot_lt
  · -- the rows
    intro i hi
    by_cases his : i = slot
    · subst his
      rw [Function.update_self]
      exact row_push (h.row i hi) h.cnt_le hj hlt 1
    · rw [Function.update_of_ne his]
      exact row_push_other his (h.row i hi)
  · -- the direct waits
    intro a ha
    rw [Function.update_self] at ha
    rcases List.mem_cons.mp ha with rfl | hmem
    · rw [push_same]
    · rw [push_of_ne]
      · exact h.direct a hmem
      · intro e
        exact hj (e ▸ hmem)
  · -- the other entries
    intro a hlta ha
    rw [Function.update_self, List.mem_cons, not_or] at ha
    rw [push_of_ne _ _ _ _ ha.1]
    exact h.rest a hlta ha.2

/-- Waiting for the holders of a lock item: the row grows by those that are not
    linked yet. -/
theorem represents_registTblLockWaitListByGrant (nodes : List Nat) :
    ∀ {t : WaitTable} {rows : Nat → List Nat}, Represents t slot rows →
      (∀ j ∈ nodes, j < t.transCnt) →
      ∃ rows', Represents (t.registTblLockWaitListByGrant slot nodes) slot rows' := by
  induction nodes with
  | nil =>
    intro t rows h _
    exact ⟨rows, h⟩
  | cons j nodes ih =>
    intro t rows h hlt
    have hrest : ∀ a ∈ nodes, a < t.transCnt := fun a ha => hlt a (List.mem_cons_of_mem j ha)
    have hj := hlt j List.mem_cons_self
    unfold WaitTable.registTblLockWaitListByGrant
    split_ifs with hc
    · have hnot : j ∉ rows slot := by
        intro hmem
        exact ((h.row slot h.slot_lt).linked j hj).mp hmem hc.2
      exact ih (represents_push h hj hnot) hrest
    · exact ih h hrest

/-- Waiting for the requests in front: a slot may stand there only once. -/
theorem represents_registTblLockWaitListByReq (nodes : List Nat) :
    ∀ {t : WaitTable} {rows : Nat → List Nat}, Represents t slot rows →
      (∀ j ∈ nodes, j < t.transCnt) → t.registTblLockWaitListByReq slot nodes = some t' →
      ∃ rows', Represents t' slot rows' := by
  induction nodes with
  | nil =>
    intro t rows h _ hrun
    obtain rfl : t = t' := Option.some.inj hrun
    exact ⟨rows, h⟩
  | cons j nodes ih =>
    intro t rows h hlt hrun
    have hrest : ∀ a ∈ nodes, a < t.transCnt := fun a ha => hlt a (List.mem_cons_of_mem j ha)
    have hj := hlt j List.mem_cons_self
    unfold WaitTable.registTblLockWaitListByReq at hrun
    split_ifs at hrun with hs hc
    · have hnot : j ∉ rows slot := by
        intro hmem
        exact ((h.row slot h.slot_lt).linked j hj).mp hmem hc
      exact ih (represents_push h hj hnot) hrest hrun
    · exact ih h hrest hrun

/-- The two tables link the same slots in their rows. -/
structure SameLinks (t t' : WaitTable) : Prop where
  cnt : t'.transCnt = t.transCnt
  nxt : ∀ i, t'.nxt i = t.nxt i
  fst : ∀ i, (t'.arrOfLockList i).fstWaitTblTransItem = (t.arrOfLockList i).fstWaitTblTransItem

theorem SameLinks.row (hs : SameLinks t t') {i : Nat} {l : List Nat} (h : Row t i l) :
    Row t' i l := by
  constructor
  · rw [hs.nxt i, hs.fst i]
    exact h.chain
  · exact h.nodup
  · rw [hs.cnt]
    exact h.lt
  · rw [hs.cnt, hs.nxt i]
    exact h.linked

/-- The list of those that wait for a record is kept apart from the rows. -/
structure SameRows (t t' : WaitTable) : Prop extends SameLinks t t' where
  index : ∀ i j, (t'.waitForTable i j).index = (t.waitForTable i j).index

theorem SameRows.trans {a b c : WaitTable} (h : SameRows a b) (h' : SameRows b c) :
    SameRows a c where
  cnt := h'.cnt.trans h.cnt
  nxt := fun i => (h'.nxt i).trans (h.nxt i)
  fst := fun i => (h'.fst i).trans (h.fst i)
  index := fun i j => (h'.index i j).trans (h.index i j)

theorem sameRows_setItem (t : WaitTable) (i j r : Nat) :
    SameRows t (t.setItem i j { t.waitForTable i j with nxtWaitRecTransItem := r }) := by
  have hitem : ∀ a b, (t.setItem i j
      { t.waitForTable i j with nxtWaitRecTransItem := r }).waitForTable a b =
      if a = i ∧ b = j then { t.waitForTable i j with nxtWaitRecTransItem := r }
      else t.waitForTable a b := by
    intro a b
    unfold WaitTable.setItem
    by_cases ha : a = i
    · subst ha
      by_cases hb : b = j
      · subst hb
        simp
      · simp [hb]
    · simp [ha]
  constructor
  · constructor
    · rfl
    · intro a
      funext b
      unfold WaitTable.nxt
      rw [hitem a b]
      split_ifs with h
      · rw [h.1, h.2]
      · rfl
    · intro a
      rfl
  · intro a b
    rw [hitem a b]
    split_ifs with h
    · rw [h.1, h.2]
    · rfl

theorem sameRows_setList (t : WaitTable) (i f l : Nat) :
    SameRows t (t.setList i
      { t.arrOfLockList i with fstWaitRecTransItem := f, lstWaitRecTransItem := l }) := by
  constructor
  · constructor
    · rfl
    · intro a
      rfl
    · intro a
      unfold WaitTable.setList
      by_cases ha : a = i
      · subst ha
        simp
      · simp [ha]
  · intro a b
    rfl

theorem sameRows_linkRecordWait {waitSlot : Nat}
    (h : t.linkRecordWait slot waitSlot = some t') : SameRows t t' := by
  unfold WaitTable.linkRecordWait at h
  dsimp only at h
  split_ifs at h
  · rw [← Option.some.inj h]
    exact (sameRows_setItem t slot waitSlot endItem).trans (sameRows_setList _ waitSlot slot slot)
  · rw [← Option.some.inj h]
    exact ((sameRows_setItem t slot waitSlot endItem).trans (sameRows_setItem _ _ _ slot)).trans
      (sameRows_setList _ waitSlot _ slot)
  · rw [← Option.some.inj h]
    exact ⟨⟨rfl, fun _ => rfl, fun _ => rfl⟩, fun _ _ => rfl⟩

/-- Setting the path length alone links nothing. -/
theorem sameLinks_setIndex (t : WaitTable) (i j index : Nat) :
    SameLinks t (t.setItem i j { t.waitForTable i j with index }) := by
  constructor
  · rfl
  · intro a
    funext b
    unfold WaitTable.nxt WaitTable.setItem
    by_cases ha : a = i
    · subst ha
      by_cases hb : b = j
      · subst hb
        simp
      · simp [hb]
    · simp [ha]
  · intro a
    rfl

/-- Waiting for a record: the row of `slot` links `waitSlot` alone. -/
theorem represents_registRecordLockWait {waitSlot : Nat} (h : Represents t slot rows)
    (hwait : waitSlot < t.transCnt) (hempty : rows slot = [])
    (hrun : t.registRecordLockWait slot waitSlot = some t') :
    Represents t' slot (Function.update rows slot [waitSlot]) := by
  unfold WaitTable.registRecordLockWait at hrun
  split_ifs at hrun with ha
  obtain ⟨t₂, hlink, hrun⟩ := Option.bind_eq_some_iff.mp hrun
  split_ifs at hrun with hb
  obtain rfl := Option.some.inj hrun
  have hset := sameLinks_setIndex t slot waitSlot 1
  have hrec := sameRows_linkRecordWait hlink
  have hcnt : t₂.transCnt = t.transCnt := hrec.cnt.trans hset.cnt
  have hrow : ∀ i < t.transCnt, Row t₂ i (rows i) :=
    fun i hi => hrec.toSameLinks.row (hset.row (h.row i hi))
  have hindex : ∀ a, (t₂.waitForTable slot a).index =
      if a = waitSlot then 1 else (t.waitForTable slot a).index := by
    intro a
    rw [hrec.index]
    unfold WaitTable.setItem
    by_cases haw : a = waitSlot
    · subst haw
      simp
    · simp [haw]
  constructor
  · exact hcnt ▸ h.cnt_le
  · exact hcnt ▸ h.slot_lt
  · -- the rows
    intro i hi
    have hlt : i < t.transCnt := by
      rw [← hcnt]
      exact hi
    by_cases his : i = slot
    · subst his
      rw [Function.update_self, ← hempty]
      apply row_push (hrow i hlt) (hcnt ▸ h.cnt_le) _ (hcnt ▸ hwait)
      rw [hempty]
      exact List.not_mem_nil
    · rw [Function.update_of_ne his]
      exact row_push_other his (hrow i hlt)
  · -- the direct waits
    intro a ha
    rw [Function.update_self] at ha
    obtain rfl := List.mem_singleton.mp ha
    rw [push_same]
    simp [hindex]
  · -- the other entries
    intro a hlt ha
    have hlt : a < t.transCnt := hcnt ▸ hlt
    rw [Function.update_self, List.mem_singleton] at ha
    rw [push_of_ne _ _ _ _ ha, hindex, if_neg ha]
    apply h.rest a hlt
    rw [hempty]
    exact List.not_mem_nil

end Regist

/-! ## §7. The search on the table is the search on lists. -/

/-- **The table while `isCycle` runs**, beside the row `w` as a list: the slots
    that were linked by the search stand in front, everything else of the table
    is as it was. -/
structure Sim (t₀ : WaitTable) (slot : Nat) (rows : Nat → List Nat) (s : CycleSearch) (w : Walk) :
    Prop where
  cnt : s.table.transCnt = t₀.transCnt
  others : ∀ i, i ≠ slot → s.table.waitForTable i = t₀.waitForTable i ∧
    s.table.arrOfLockList i = t₀.arrOfLockList i
  row : Row s.table slot w.items
  index : ∀ j, (s.table.waitForTable slot j).index = w.index j
  added : ∃ new, w.items = new ++ rows slot ∧ ∀ j ∈ new, 1 < w.index j
  kept : ∀ j, j ∈ rows slot ∨ j ∉ w.items →
    s.table.waitForTable slot j = t₀.waitForTable slot j
  recItem : ∀ j, (s.table.waitForTable slot j).nxtWaitRecTransItem =
    (t₀.waitForTable slot j).nxtWaitRecTransItem
  heads : ∃ fst, s.table.arrOfLockList slot =
    { t₀.arrOfLockList slot with fstWaitTblTransItem := fst }
  txList : s.txList = w.txList
  flag : s.exitPathFlag = w.exitPathFlag
  found : w.found = true → slot ∈ w.items

section Sim

variable {t₀ : WaitTable} {slot : Nat} {rows : Nat → List Nat} {trans : Nat → Trans}
  {ready : Bool} {pathLen i : Nat} {s : CycleSearch} {w : Walk}

theorem Sim.index_ne_zero (hr : Represents t₀ slot rows) (h : Sim t₀ slot rows s w) {j : Nat}
    (hj : j ∈ w.items) : w.index j ≠ 0 := by
  obtain ⟨new, hitems, hnew⟩ := h.added
  rw [hitems] at hj
  rcases List.mem_append.mp hj with hj | hj
  · have := hnew j hj
    omega
  · rw [← h.index j, h.kept j (.inl hj), hr.direct j hj]
    exact one_ne_zero

theorem nextEntry_eq (h : Sim t₀ slot rows s w) (hi : i ≠ slot) (j : Nat) :
    (s.table.node trans (fun _ => [])).nextEntry i j (s.txList i) (s.txList j) =
      (t₀.node trans rows).nextEntry i j (w.txList i) (w.txList j) := by
  have hrow := (h.others i hi).1
  rw [h.txList]
  unfold Node.nextEntry Node.firstEntry WaitTable.node
  simp only [hrow]

variable (trans ready) in
/-- Linking a slot. -/
theorem sim_link (hr : Represents t₀ slot rows) (h : Sim t₀ slot rows s w) (hpos : 0 < pathLen)
    (hi : i ≠ slot) {j : Nat} (hj : j ∉ w.items) (hlt : j < t₀.transCnt) :
    Sim t₀ slot rows (s.link trans slot ready pathLen i j)
      ((t₀.node trans rows).linkHolder slot ready pathLen i w j) := by
  constructor
  · exact h.cnt
  · -- the other rows
    intro a ha
    -- the push is on the row of `slot` alone
    have := push_other s.table slot j (pathLen + 1) ha
    exact ⟨this.1.trans (h.others a ha).1, this.2.trans (h.others a ha).2⟩
  · -- the row of the slot
    apply row_push h.row _ hj
    · rw [h.cnt]
      exact hlt
    · rw [h.cnt]
      exact hr.cnt_le
  · -- the indexes are the marks
    intro a
    show ((s.table.push slot j (pathLen + 1)).waitForTable slot a).index
      = Function.update w.index j (pathLen + 1) a
    by_cases haj : a = j
    · subst haj
      rw [push_same, Function.update_self]
    · rw [push_of_ne _ _ _ _ haj, Function.update_of_ne haj]
      exact h.index a
  · -- an entry that is linked by the search has an index above 1
    obtain ⟨new, hitems, hnew⟩ := h.added
    refine ⟨j :: new, congrArg (j :: ·) hitems, ?_⟩
    intro a ha
    show 1 < Function.update w.index j (pathLen + 1) a
    rcases List.mem_cons.mp ha with rfl | ha
    · rw [Function.update_self]
      omega
    · rw [Function.update_of_ne]
      · exact hnew a ha
      · intro e
        apply hj
        rw [hitems, ← e]
        exact List.mem_append_left _ ha
  · -- the entries it has not touched
    intro a ha
    have haj : a ≠ j := by
      intro e
      rcases ha with ha | ha
      · obtain ⟨new, hitems, -⟩ := h.added
        apply hj
        rw [hitems, ← e]
        exact List.mem_append_right _ ha
      · exact ha (e ▸ List.mem_cons_self)
    refine (push_of_ne _ _ _ _ haj).trans (h.kept a (ha.imp id ?_))
    intro hnot hmem
    exact hnot (List.mem_cons_of_mem j hmem)
  · -- the links of the record waits
    intro a
    refine Eq.trans ?_ (h.recItem a)
    show ((s.table.push slot j (pathLen + 1)).waitForTable slot a).nxtWaitRecTransItem = _
    by_cases haj : a = j
    · subst haj
      rw [push_same]
    · rw [push_of_ne _ _ _ _ haj]
  · -- the heads of the lists
    obtain ⟨fst, hheads⟩ := h.heads
    refine ⟨j, (push_list _ _ _ _).trans ?_⟩
    rw [hheads]
  · -- the list of transactions
    show (if ready then _ else _) = if ready then _ else _
    rw [nextEntry_eq h hi, h.txList]
  · -- the flag
    show (if slot = j then s.exitPathFlag else true) = if slot = j then w.exitPathFlag else true
    rw [h.flag]
  · -- the waiter was met
    intro hf
    have hsj : slot = j := by simpa [Node.linkHolder] using hf
    exact hsj ▸ List.mem_cons_self

/-- Once the waiter has been found nothing more is linked. -/
theorem foldl_visitHolder_found {n : Node} (hf : w.found = true) (l : List Nat) :
    l.foldl (n.visitHolder slot ready pathLen i) w = w := by
  induction l with
  | nil => rfl
  | cons j l ih =>
    rw [List.foldl_cons]
    have hstep : n.visitHolder slot ready pathLen i w j = w := by
      unfold Node.visitHolder
      rw [if_pos hf]
    rw [hstep]
    exact ih

theorem foldl_visitItem_of_mem {n : Node} (hs : slot ∈ w.items) (l : List Nat) :
    l.foldl (n.visitItem slot ready pathLen) w = w := by
  induction l with
  | nil => rfl
  | cons j l ih =>
    rw [List.foldl_cons, visitItem_of_mem hs]
    exact ih

/-- The links of the slots in the row do not change while others are linked. -/
def Steady (slot : Nat) (items : List Nat) (t t' : WaitTable) : Prop :=
  ∀ x ∈ items, t'.waitForTable slot x = t.waitForTable slot x

/-- The inner loop. -/
theorem scanRow_sim (hr : Represents t₀ slot rows) (hpos : 0 < pathLen) (hi : i ≠ slot)
    (l : List Nat) :
    ∀ fuel j s w, Chain (t₀.nxt i) j l → (∀ x ∈ l, x < t₀.transCnt) → l.length < fuel →
      Sim t₀ slot rows s w → w.found = false →
      ∃ s', CycleSearch.scanRow trans slot ready pathLen i fuel j s =
          some (s', (l.foldl ((t₀.node trans rows).visitHolder slot ready pathLen i) w).found) ∧
        Sim t₀ slot rows s'
          (l.foldl ((t₀.node trans rows).visitHolder slot ready pathLen i) w) ∧
        Steady slot w.items s.table s'.table ∧
        (∀ x ∈ w.items,
          x ∈ (l.foldl ((t₀.node trans rows).visitHolder slot ready pathLen i) w).items) := by
  induction l with
  | nil =>
    intro fuel j s w hc _ hfuel h hf
    obtain ⟨fuel, rfl⟩ : ∃ k, fuel = k + 1 := ⟨fuel - 1, by simp at hfuel; omega⟩
    have hj : j = endItem := hc
    refine ⟨s, ?_, h, fun x _ => rfl, fun x hx => hx⟩
    unfold CycleSearch.scanRow
    rw [if_neg (by omega), List.foldl_nil, hf]
  | cons x l ih =>
    intro fuel j s w hc hlt hfuel h hf
    obtain ⟨rfl, hc⟩ := hc
    obtain ⟨fuel, rfl⟩ : ∃ k, fuel = k + 1 := ⟨fuel - 1, by simp at hfuel; omega⟩
    have hjlt := hlt j List.mem_cons_self
    have hend : j < endItem := lt_of_lt_of_le hjlt hr.cnt_le
    have hfuel' : l.length < fuel := by
      simp only [List.length_cons] at hfuel
      omega
    have hlt' : ∀ y ∈ l, y < t₀.transCnt := fun y hy => hlt y (List.mem_cons_of_mem j hy)
    have hrow := (h.others i hi).1
    have hmem : j ∈ w.items ↔ s.table.nxt slot j ≠ notLinked :=
      h.row.linked j (h.cnt ▸ hjlt)
    unfold CycleSearch.scanRow
    rw [if_pos hend, List.foldl_cons]
    -- the code tests the entry and the mark of the row, the search tests the edge and its list
    by_cases hv : (t₀.waitForTable i j).index = 1 ∧ j ∉ w.items
    · have hlink : (t₀.node trans rows).visitHolder slot ready pathLen i w j =
          (t₀.node trans rows).linkHolder slot ready pathLen i w j := by
        unfold Node.visitHolder
        rw [if_neg (by simp [hf])]
        exact if_pos hv
      have hcond : (s.table.waitForTable i j).index = 1 ∧
          (s.table.waitForTable slot j).nxtWaitTransItem = notLinked := by
        rw [hrow]
        refine ⟨hv.1, ?_⟩
        by_contra hne
        exact hv.2 (hmem.mpr hne)
      have hsim := sim_link trans ready hr h hpos hi hv.2 hjlt
      have hsteady : Steady slot w.items s.table
          (s.link trans slot ready pathLen i j).table := by
        intro y hy
        apply push_of_ne
        intro e
        exact hv.2 (e ▸ hy)
      rw [if_pos hcond, if_pos (h.cnt ▸ hjlt), hlink]
      -- the code leaves the row at once when it meets the slot itself
      by_cases hsj : slot = j
      · have hfound : ((t₀.node trans rows).linkHolder slot ready pathLen i w j).found = true := by
          simp [Node.linkHolder, hsj]
        rw [foldl_visitHolder_found hfound, hfound]
        simp only [if_pos hsj]
        exact ⟨_, rfl, hsim, hsteady, fun y hy => List.mem_cons_of_mem j hy⟩
      · have hfound : ((t₀.node trans rows).linkHolder slot ready pathLen i w j).found = false := by
          simp [Node.linkHolder, hsj]
        simp only [if_neg hsj]
        have hnext : ((s.link trans slot ready pathLen i j).table.waitForTable i j).nxtWaitTransItem
            = t₀.nxt i j := by
          rw [(hsim.others i hi).1]
          rfl
        rw [hnext]
        -- linking wrote the row of `slot` only, so the rest of this row is as before
        obtain ⟨s', hrun, hsim', hst, hsub⟩ := ih fuel _ _ _ hc hlt' hfuel' hsim hfound
        refine ⟨s', hrun, hsim', ?_, ?_⟩
        · intro y hy
          exact (hst y (List.mem_cons_of_mem j hy)).trans (hsteady y hy)
        · intro y hy
          exact hsub y (List.mem_cons_of_mem j hy)
    · have hskip : (t₀.node trans rows).visitHolder slot ready pathLen i w j = w := by
        unfold Node.visitHolder
        rw [if_neg (by simp [hf])]
        exact if_neg hv
      have hcond : ¬ ((s.table.waitForTable i j).index = 1 ∧
          (s.table.waitForTable slot j).nxtWaitTransItem = notLinked) := by
        rw [hrow]
        intro hboth
        exact hv ⟨hboth.1, fun hj => hmem.mp hj hboth.2⟩
      rw [if_neg hcond, hskip, hrow]
      exact ih fuel _ s w hc hlt' hfuel' h hf

/-- A chain through slots of the row survives when others are linked. -/
theorem Steady.chain {items l : List Nat} {t t' : WaitTable} (h : Steady slot items t t')
    (hsub : ∀ x ∈ l, x ∈ items) {a : Nat} (hc : Chain (t.nxt slot) a l) :
    Chain (t'.nxt slot) a l := by
  apply hc.congr
  intro x hx
  unfold WaitTable.nxt
  rw [h x (hsub x hx)]

theorem mark_table : (s.mark trans slot ready pathLen i).table = s.table := by
  unfold CycleSearch.mark
  split_ifs <;> rfl

variable (slot ready pathLen i w) in
theorem markDirect_items (n : Node) :
    (n.markDirect slot ready pathLen i w).items = w.items ∧
    (n.markDirect slot ready pathLen i w).found = w.found := by
  unfold Node.markDirect
  split_ifs <;> exact ⟨rfl, rfl⟩

/-- A direct wait stands in the row as it did before the search. -/
theorem directEntry_eq_of_sim (h : Sim t₀ slot rows s w) (hi : i ∈ w.items)
    (hidx : w.index i = 1) :
    (s.table.node trans (fun _ => [])).directEntry slot i =
      (t₀.node trans rows).directEntry slot i := by
  have hold : i ∈ rows slot := by
    obtain ⟨new, hitems, hnew⟩ := h.added
    rw [hitems] at hi
    rcases List.mem_append.mp hi with hi | hi
    · have := hnew i hi
      omega
    · exact hi
  have hkept := h.kept i (.inl hold)
  unfold Node.directEntry Node.firstEntry WaitTable.node
  simp only [hkept]

variable (trans ready) in
theorem sim_mark (h : Sim t₀ slot rows s w) (hi : i ∈ w.items) (hidx : w.index i = pathLen) :
    Sim t₀ slot rows (s.mark trans slot ready pathLen i)
      ((t₀.node trans rows).markDirect slot ready pathLen i w) := by
  unfold CycleSearch.mark Node.markDirect
  by_cases hd : pathLen = 1 ∧ ready = true
  · rw [if_pos hd, if_pos hd]
    have htx : Function.update s.txList i
        ((s.table.node trans (fun _ => [])).directEntry slot i) =
        Function.update w.txList i ((t₀.node trans rows).directEntry slot i) := by
      rw [h.txList, directEntry_eq_of_sim h hi (hidx.trans hd.1)]
    exact ⟨h.cnt, h.others, h.row, h.index, h.added, h.kept, h.recItem, h.heads, htx, h.flag,
      h.found⟩
  · rw [if_neg hd, if_neg hd]
    exact h

variable (trans ready) in
/-- The outer loop. -/
theorem scanLevel_sim (hr : Represents t₀ slot rows) (hpos : 0 < pathLen) {rowFuel : Nat}
    (hrowFuel : t₀.transCnt < rowFuel) (l : List Nat) :
    ∀ fuel a s w, Chain (s.table.nxt slot) a l → (∀ x ∈ l, x ∈ w.items) → l.length < fuel →
      Sim t₀ slot rows s w → w.found = false →
      ∃ s', CycleSearch.scanLevel trans slot ready rowFuel pathLen fuel a s =
          some (s', (l.foldl ((t₀.node trans rows).visitItem slot ready pathLen) w).found) ∧
        Sim t₀ slot rows s' (l.foldl ((t₀.node trans rows).visitItem slot ready pathLen) w) := by
  induction l with
  | nil =>
    intro fuel a s w hc _ hfuel h hf
    obtain ⟨fuel, rfl⟩ : ∃ k, fuel = k + 1 := ⟨fuel - 1, by simp at hfuel; omega⟩
    have ha : a = endItem := hc
    refine ⟨s, ?_, h⟩
    unfold CycleSearch.scanLevel
    rw [if_neg (fun hboth => hboth.1 ha), List.foldl_nil, hf]
  | cons i l ih =>
    intro fuel a s w hc hsub hfuel h hf
    obtain ⟨rfl, hc⟩ := hc
    obtain ⟨fuel, rfl⟩ : ∃ k, fuel = k + 1 := ⟨fuel - 1, by simp at hfuel; omega⟩
    have hamem := hsub a List.mem_cons_self
    have halt : a < t₀.transCnt := h.cnt ▸ h.row.lt a hamem
    have hfuel' : l.length < fuel := by
      simp only [List.length_cons] at hfuel
      omega
    have hsub' : ∀ x ∈ l, x ∈ w.items := fun x hx => hsub x (List.mem_cons_of_mem a hx)
    have hslot : slot ∈ w.items ↔ s.table.nxt slot slot ≠ notLinked :=
      h.row.linked slot (h.cnt ▸ hr.slot_lt)
    unfold CycleSearch.scanLevel
    -- the loop ends as soon as the slot is in its own list
    by_cases hs : slot ∈ w.items
    · rw [foldl_visitItem_of_mem hs, if_neg (fun hboth => hslot.mp hs hboth.2), hf]
      exact ⟨s, rfl, h⟩
    · have haend : a ≠ endItem := by
        have := hr.cnt_le
        omega
      have hunlinked : (s.table.waitForTable slot slot).nxtWaitTransItem = notLinked := by
        by_contra hne
        exact hs (hslot.mpr hne)
      rw [if_pos ⟨haend, hunlinked⟩, if_pos (h.cnt ▸ halt), List.foldl_cons]
      -- only the entries of the last level are followed
      by_cases hp : w.index a = pathLen
      · have hne : a ≠ slot := fun e => hs (e ▸ hamem)
        have hitem : (t₀.node trans rows).visitItem slot ready pathLen w a =
            (rows a).foldl ((t₀.node trans rows).visitHolder slot ready pathLen a)
              ((t₀.node trans rows).markDirect slot ready pathLen a w) := by
          unfold Node.visitItem
          rw [if_neg hs, if_neg (not_not.mpr hp)]
          rfl
        have hrowa := hr.row a halt
        have hmark := sim_mark trans ready h hamem hp
        have hmarked := markDirect_items slot ready pathLen a w (t₀.node trans rows)
        -- the inner loop adds at the front: the list from here on is the same
        obtain ⟨s₁, hrun, hsim, hst, hkeep⟩ := scanRow_sim hr hpos hne (rows a) rowFuel _ _ _
          hrowa.chain hrowa.lt (lt_of_le_of_lt hrowa.length_le hrowFuel) hmark
          (hmarked.2.trans hf)
        rw [← hitem] at hrun hsim hkeep
        rw [hmarked.1, mark_table] at hst
        rw [hmarked.1] at hkeep
        rw [if_pos ((h.index a).trans hp), (h.others a hne).2, hrun]
        by_cases hfound : ((t₀.node trans rows).visitItem slot ready pathLen w a).found = true
        · rw [foldl_visitItem_of_mem (hsim.found hfound), hfound]
          exact ⟨s₁, rfl, hsim⟩
        · rw [Bool.not_eq_true] at hfound
          rw [hfound]
          have hnext : (s₁.table.waitForTable slot a).nxtWaitTransItem = s.table.nxt slot a := by
            rw [hst a hamem]
            rfl
          show ∃ s', CycleSearch.scanLevel trans slot ready rowFuel pathLen fuel
            (s₁.table.waitForTable slot a).nxtWaitTransItem s₁ = _ ∧ _
          rw [hnext]
          exact ih fuel _ s₁ _ (hst.chain hsub' hc) (fun x hx => hkeep x (hsub' x hx)) hfuel'
            hsim hfound
      · have hitem : (t₀.node trans rows).visitItem slot ready pathLen w a = w := by
          unfold Node.visitItem
          rw [if_neg hs, if_pos hp]
        rw [if_neg (fun e => hp ((h.index a).symm.trans e)), hitem]
        exact ih fuel _ s w hc hsub' hfuel' h hf

variable (trans ready) in
/-- **The whole search.** -/
theorem levels_sim (hr : Represents t₀ slot rows) {rowFuel : Nat}
    (hrowFuel : t₀.transCnt < rowFuel) (left : Nat) :
    ∀ fuel pathLen s w, left < fuel → left + pathLen = t₀.transCnt → 0 < pathLen →
      Sim t₀ slot rows s w → w.found = false →
      ∃ s', CycleSearch.levels trans slot ready rowFuel fuel pathLen s =
          some (s', decide
            (((t₀.node trans rows).walk slot ready left pathLen w).index slot ≠ 0)) ∧
        Sim t₀ slot rows s' ((t₀.node trans rows).walk slot ready left pathLen w) := by
  induction left with
  | zero =>
    intro fuel pathLen s w hfuel hsum _ h _
    obtain ⟨fuel, rfl⟩ : ∃ k, fuel = k + 1 := ⟨fuel - 1, by omega⟩
    refine ⟨s, ?_, h⟩
    unfold CycleSearch.levels
    rw [if_neg, h.index slot]
    · rfl
    · rintro ⟨-, -, hlt⟩
      rw [h.cnt] at hlt
      omega
  | succ left ih =>
    intro fuel pathLen s w hfuel hsum hpos h hf
    obtain ⟨fuel, rfl⟩ : ∃ k, fuel = k + 1 := ⟨fuel - 1, by omega⟩
    unfold CycleSearch.levels Node.walk
    by_cases hgo : w.exitPathFlag = true ∧ w.index slot = 0
    · have hcond : s.exitPathFlag = true ∧ (s.table.waitForTable slot slot).index = 0 ∧
          pathLen < s.table.transCnt := by
        rw [h.flag, h.index slot, h.cnt]
        exact ⟨hgo.1, hgo.2, by omega⟩
      have h₀ : Sim t₀ slot rows { s with exitPathFlag := false }
          { w with exitPathFlag := false } :=
        ⟨h.cnt, h.others, h.row, h.index, h.added, h.kept, h.recItem, h.heads, h.txList, rfl,
          h.found⟩
      have hlen : w.items.length < rowFuel := by
        have := h.row.length_le
        rw [h.cnt] at this
        omega
      obtain ⟨s₁, hrun, hsim⟩ := scanLevel_sim trans ready hr hpos hrowFuel
        w.items rowFuel _ { s with exitPathFlag := false } { w with exitPathFlag := false }
        h.row.chain (fun x hx => hx) hlen h₀ hf
      have hsim : Sim t₀ slot rows s₁ ((t₀.node trans rows).visitItems slot ready pathLen w) :=
        hsim
      rw [if_pos hcond, if_pos hgo, hrun]
      by_cases hfound : ((t₀.node trans rows).visitItems slot ready pathLen w).found = true
      · -- The waiter has just been linked: `return ID_TRUE`.
        have hne := hsim.index_ne_zero hr (hsim.found hfound)
        rw [walk_stop (fun hboth => hne hboth.2)]
        refine ⟨s₁, ?_, hsim⟩
        have hfound' : (w.items.foldl ((t₀.node trans rows).visitItem slot ready pathLen)
            { w with exitPathFlag := false }).found = true := hfound
        rw [hfound']
        simp only [Option.some.injEq, Prod.mk.injEq, true_and]
        exact (decide_eq_true hne).symm
      · rw [Bool.not_eq_true] at hfound
        have hfound' : (w.items.foldl ((t₀.node trans rows).visitItem slot ready pathLen)
            { w with exitPathFlag := false }).found = false := hfound
        rw [hfound']
        exact ih fuel (pathLen + 1) s₁ _ (by omega) (by omega) (by omega) hsim hfound
    · have hcond : ¬ (s.exitPathFlag = true ∧ (s.table.waitForTable slot slot).index = 0 ∧
          pathLen < s.table.transCnt) := by
        rw [h.flag, h.index slot]
        exact fun hall => hgo ⟨hall.1, hall.2.1⟩
      rw [if_neg hcond, if_neg hgo, h.index slot]
      exact ⟨s, by simp, h⟩

theorem sim_start (hr : Represents t₀ slot rows) :
    Sim t₀ slot rows ⟨t₀, fun _ => ⟨.nonDistInfo, nullTID⟩, true⟩
      ((t₀.node trans rows).walkInit slot) where
  cnt := rfl
  others := fun _ _ => ⟨rfl, rfl⟩
  row := hr.row slot hr.slot_lt
  index := fun _ => rfl
  added := ⟨[], rfl, fun _ hj => absurd hj List.not_mem_nil⟩
  kept := fun _ _ => rfl
  recItem := fun _ => rfl
  heads := ⟨_, rfl⟩
  txList := rfl
  flag := rfl
  found := fun hf => nomatch hf

variable (trans ready) in
/-- **`isCycle` on the table is `isCycle` on lists**, and `transCnt + 1`
    iterations are enough for each loop. -/
theorem isCycle_sim (hr : Represents t₀ slot rows) {fuel : Nat} (hfuel : t₀.transCnt < fuel) :
    ∃ s, t₀.isCycle trans slot ready fuel =
        some (s, ((t₀.node trans rows).isCycle slot ready).1) ∧
      Sim t₀ slot rows s ((t₀.node trans rows).isCycle slot ready).2 := by
  have hpos := hr.slot_lt
  exact levels_sim trans ready hr hfuel (t₀.transCnt - 1) fuel 1 _ _
    (by omega) (by omega) (by omega) (sim_start hr) rfl

/-! ## §8. Reverting. -/

/-- An entry that the revert takes off. -/
def unlink (t : WaitTable) (slot j : Nat) : WaitTable :=
  t.setItem slot j { t.waitForTable slot j with index := 0, nxtWaitTransItem := notLinked }

theorem unlink_same (t : WaitTable) (slot j : Nat) :
    (unlink t slot j).waitForTable slot j =
      { t.waitForTable slot j with index := 0, nxtWaitTransItem := notLinked } := by
  simp [unlink, WaitTable.setItem]

theorem unlink_of_ne (t : WaitTable) {slot j a : Nat} (h : a ≠ j) :
    (unlink t slot j).waitForTable slot a = t.waitForTable slot a := by
  simp [unlink, WaitTable.setItem, h]

theorem unlink_other (t : WaitTable) {slot j a : Nat} (h : a ≠ slot) :
    (unlink t slot j).waitForTable a = t.waitForTable a := by
  simp [unlink, WaitTable.setItem, h]

/-- **The table with the entries of `new` taken off** the row of `slot`. -/
structure Unlinked (slot : Nat) (new : List Nat) (t t' : WaitTable) : Prop where
  cnt : t'.transCnt = t.transCnt
  lists : t'.arrOfLockList = t.arrOfLockList
  others : ∀ i, i ≠ slot → t'.waitForTable i = t.waitForTable i
  off : ∀ j ∈ new, t'.waitForTable slot j =
    { t.waitForTable slot j with index := 0, nxtWaitTransItem := notLinked }
  on : ∀ j, j ∉ new → t'.waitForTable slot j = t.waitForTable slot j

/-- The loop takes the indirect entries off and stops at the direct ones. -/
theorem revertLoop_eq (slot : Nat) (old : List Nat) (new : List Nat) :
    ∀ fuel cur (t : WaitTable), Chain (t.nxt slot) cur (new ++ old) → (new ++ old).Nodup →
      (∀ j ∈ new, j ≠ endItem) → (∀ j ∈ new, 1 < (t.waitForTable slot j).index) →
      (∀ j ∈ old, (t.waitForTable slot j).index = 1) → new.length < fuel →
      ∃ t', WaitTable.revertLoop slot fuel cur t = some (t', old.headD endItem) ∧
        Unlinked slot new t t' := by
  induction new with
  | nil =>
    intro fuel cur t hc _ _ _ hold hfuel
    obtain ⟨fuel, rfl⟩ : ∃ k, fuel = k + 1 := ⟨fuel - 1, by simp at hfuel; omega⟩
    have hcur : cur = old.headD endItem := by
      cases old with
      | nil => exact hc
      | cons x xs => exact hc.1
    refine ⟨t, ?_, rfl, rfl, fun _ _ => rfl, fun _ hj => absurd hj List.not_mem_nil,
      fun _ _ => rfl⟩
    unfold WaitTable.revertLoop
    rw [if_neg, hcur]
    -- the loop stops: at the end of the list, or at a direct entry
    rintro ⟨hend, hidx⟩
    cases old with
    | nil => exact hend hcur
    | cons x xs =>
      rw [show cur = x from hcur, hold x List.mem_cons_self] at hidx
      omega
  | cons x new ih =>
    intro fuel cur t hc hnd hend hnew hold hfuel
    obtain ⟨rfl, hc⟩ := hc
    obtain ⟨fuel, rfl⟩ : ∃ k, fuel = k + 1 := ⟨fuel - 1, by simp at hfuel; omega⟩
    have hmem := List.mem_cons_self (a := cur) (l := new)
    obtain ⟨hnot, hnd⟩ := List.nodup_cons.mp hnd
    have hne : ∀ y ∈ new ++ old, y ≠ cur := fun y hy e => hnot (e ▸ hy)
    have hkeep : ∀ y ∈ new ++ old,
        (unlink t slot cur).waitForTable slot y = t.waitForTable slot y :=
      fun y hy => unlink_of_ne t (hne y hy)
    -- unlinking one entry leaves the links behind it
    have hc' : Chain ((unlink t slot cur).nxt slot) (t.nxt slot cur) (new ++ old) := by
      apply hc.congr
      intro y hy
      unfold WaitTable.nxt
      rw [hkeep y hy]
    obtain ⟨t', hrun, hu⟩ := ih fuel _ (unlink t slot cur) hc' hnd
      (fun j hj => hend j (List.mem_cons_of_mem cur hj))
      (fun j hj => by
        rw [hkeep j (List.mem_append_left _ hj)]
        exact hnew j (List.mem_cons_of_mem cur hj))
      (fun j hj => by
        rw [hkeep j (List.mem_append_right _ hj)]
        exact hold j hj)
      (by simp only [List.length_cons] at hfuel; omega)
    refine ⟨t', ?_, ?_⟩
    · unfold WaitTable.revertLoop
      rw [if_pos ⟨hend cur hmem, hnew cur hmem⟩]
      exact hrun
    · constructor
      · exact hu.cnt
      · exact hu.lists
      · -- the other rows
        intro i hi
        rw [hu.others i hi, unlink_other t hi]
      · -- the entries that are taken off
        intro j hj
        by_cases hjc : j = cur
        · subst hjc
          rw [hu.on j (fun hm => hnot (List.mem_append_left _ hm)), unlink_same]
        · have hjn := (List.mem_cons.mp hj).resolve_left hjc
          rw [hu.off j hjn, unlink_of_ne t hjc]
      · -- the other entries of the row
        intro j hj
        rw [List.mem_cons, not_or] at hj
        rw [hu.on j hj.2, unlink_of_ne t hj.1]

theorem chain_head {next : Nat → Nat} {a : Nat} {l : List Nat} (h : Chain next a l) :
    a = l.headD endItem := by
  cases l with
  | nil => exact h
  | cons x xs => exact h.1

/-- **Reverting gives the table back as it was.** -/
theorem revert_sim (hr : Represents t₀ slot rows) (h : Sim t₀ slot rows s w)
    (hnil : rows slot = [] → w.items = []) {fuel : Nat} (hfuel : t₀.transCnt < fuel) :
    s.table.revertWaitItemColsOfTrans slot fuel = some t₀ := by
  obtain ⟨new, hitems, hnew⟩ := h.added
  have hrow := h.row
  rw [hitems] at hrow
  have hdisj := List.disjoint_of_nodup_append hrow.nodup
  have hlen : new.length < fuel := by
    have := hrow.length_le
    rw [List.length_append, h.cnt] at this
    omega
  obtain ⟨t', hrun, hu⟩ := revertLoop_eq slot (rows slot) new fuel _ s.table
    hrow.chain hrow.nodup
    (fun j hj => by
      have := hrow.lt j (List.mem_append_left _ hj)
      have := hr.cnt_le
      rw [h.cnt] at *
      omega)
    (fun j hj => by
      rw [h.index j]
      exact hnew j hj)
    (fun j hj => by
      rw [h.kept j (.inl hj)]
      exact hr.direct j hj)
    hlen
  have htable : t'.waitForTable = t₀.waitForTable := by
    funext i j
    by_cases hi : i = slot
    · subst hi
      by_cases hj : j ∈ new
      · have hrec := h.recItem j
        have hjlt : j < t₀.transCnt := h.cnt ▸ hrow.lt j (List.mem_append_left _ hj)
        have hjrow : j ∉ rows i := fun hm => hdisj hj hm
        have hidx := hr.rest j hjlt hjrow
        have hnxt : (t₀.waitForTable i j).nxtWaitTransItem = notLinked := by
          by_contra hne
          exact hjrow (((hr.row i hr.slot_lt).linked j hjlt).mpr hne)
        rw [hu.off j hj, ← hidx, ← hnxt]
        simp only [hrec]
      · rw [hu.on j hj]
        apply h.kept
        by_cases hm : j ∈ rows i
        · exact .inl hm
        · right
          rw [hitems, List.mem_append]
          exact fun hor => hor.elim hj hm
    · rw [hu.others i hi, (h.others i hi).1]
  obtain ⟨fst, hheads⟩ := h.heads
  have hfst := chain_head (hr.row slot hr.slot_lt).chain
  have hothers : ∀ i, i ≠ slot → t'.arrOfLockList i = t₀.arrOfLockList i := by
    intro i hi
    rw [hu.lists, (h.others i hi).2]
  have hcnt : t'.transCnt = t₀.transCnt := hu.cnt.trans h.cnt
  unfold WaitTable.revertWaitItemColsOfTrans
  rw [hrun]
  simp only [Option.map_some, Option.some.injEq]
  by_cases hend : (rows slot).headD endItem = endItem
  · -- No direct wait: nothing had been linked, and the head is untouched.
    have hempty : rows slot = [] := by
      cases hrows : rows slot with
      | nil => rfl
      | cons x xs =>
        have hlt := (hr.row slot hr.slot_lt).lt x (by rw [hrows]; exact List.mem_cons_self)
        have := hr.cnt_le
        rw [hrows] at hend
        have hx : x = endItem := hend
        omega
    have hhead := chain_head h.row.chain
    rw [hnil hempty, hheads] at hhead
    rw [if_neg (not_not.mpr hend)]
    have hlists : t'.arrOfLockList = t₀.arrOfLockList := by
      funext i
      by_cases hi : i = slot
      · have hfst' : fst = (t₀.arrOfLockList slot).fstWaitTblTransItem :=
          hhead.trans (hend.symm.trans hfst.symm)
        rw [hi, hu.lists, hheads, hfst']
      · exact hothers i hi
    exact WaitTable.ext hcnt htable hlists
  · rw [if_pos hend]
    have hlists : Function.update t'.arrOfLockList slot
        { t'.arrOfLockList slot with fstWaitTblTransItem := (rows slot).headD endItem } =
        t₀.arrOfLockList := by
      funext i
      by_cases hi : i = slot
      · subst hi
        rw [Function.update_self, hu.lists, hheads, ← hfst]
      · rw [Function.update_of_ne hi]
        exact hothers i hi
    unfold WaitTable.setList
    rw [hlists, htable, hcnt]

end Sim

/-! ## §9. The search and its revert. -/

/-- Slot `i` waits for slot `j` directly. -/
def WaitTable.Waits (t : WaitTable) (rows : Nat → List Nat) (i j : Nat) : Prop :=
  j ∈ rows i ∧ (t.waitForTable i j).index = 1

/-- **`isCycle` finds exactly the cycles through the waiter, and can be
    reverted.**  Whatever the rows of the other slots look like, the search
    ends, answers whether `slot` lies on a cycle of direct waits, and
    `revertWaitItemColsOfTrans` then gives the table back as it was. -/
theorem isCycle_exact (trans : Nat → Trans) (t : WaitTable) (slot : Nat) (ready : Bool)
    (rows : Nat → List Nat) (h : Represents t slot rows) {fuel : Nat} (hfuel : t.transCnt < fuel) :
    ∃ s found, t.isCycle trans slot ready fuel = some (s, found) ∧
      (found = true ↔ Relation.TransGen (t.Waits rows) slot slot) ∧
      s.table.revertWaitItemColsOfTrans slot fuel = some t := by
  have hn := fresh_node h trans
  obtain ⟨s, hrun, hsim⟩ := isCycle_sim trans ready h hfuel
  refine ⟨s, _, hrun, isCycle_iff hn ready, revert_sim h hsim ?_ hfuel⟩
  intro hnil
  -- Without direct waits nothing can be reached, so nothing was linked.
  apply List.eq_nil_iff_forall_not_mem.mpr
  intro j hj
  have hreach := (complete_isCycle hn ready).reach j hj
  obtain ⟨a, hw, -⟩ := Relation.TransGen.head'_iff.mp hreach
  have hmem : a ∈ rows slot := hw.1
  rw [hnil] at hmem
  exact List.not_mem_nil hmem

/-- A triangle of waits: 0 waits for 1, 1 for 2, 2 for 0. -/
def triangle : WaitTable :=
  (((WaitTable.empty 3).push 0 1 1).push 1 2 1).push 2 0 1

/-- Whom each slot of the triangle waits for. -/
def triangleRows (i : Nat) : List Nat := [(i + 1) % 3]

theorem represents_triangle : Represents triangle 0 triangleRows where
  cnt_le := by decide
  slot_lt := by decide
  row := by
    have hchain : ∀ i < 3, (triangle.arrOfLockList i).fstWaitTblTransItem = (i + 1) % 3 ∧
        triangle.nxt i ((i + 1) % 3) = endItem := by decide
    have hlinked : ∀ i < 3, ∀ j < 3, (j ∈ triangleRows i ↔ triangle.nxt i j ≠ notLinked) := by
      decide
    intro i hi
    constructor
    · exact hchain i hi
    · exact List.nodup_singleton _
    · intro j hj
      rw [List.mem_singleton.mp hj]
      exact Nat.mod_lt _ (by decide)
    · exact hlinked i hi
  direct := by decide
  rest := by
    have h : ∀ j < 3, j ∉ triangleRows 0 → (triangle.waitForTable 0 j).index = 0 := by decide
    exact h

theorem isCycle_exact_triangle :
    ∃ s found, triangle.isCycle (fun _ => ⟨nullTID, .begin, crossTx 0⟩) 0 true 4 =
        some (s, found) ∧
      (found = true ↔ Relation.TransGen (triangle.Waits triangleRows) 0 0) ∧
      s.table.revertWaitItemColsOfTrans 0 4 = some triangle :=
  isCycle_exact _ triangle 0 true triangleRows represents_triangle (by decide)

end Altibase.Sml
