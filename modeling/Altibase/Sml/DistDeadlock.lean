/-
  Altibase.Sml.DistDeadlock
  ─────────────────────────
  **DISTRIBUTED DEADLOCK DETECTION.**

  A waiting transaction first walks the wait-for table of its own node
  (`isCycle`) and, on the way, marks the holders that distributed deadlock
  detection must look at; `detectDistDeadlock` then compares itself with
  each of them.  Nodes never talk to each other about a deadlock: each
  waiter decides alone, from the keys of the two transactions.

  The model is what one thread reads while it checks its wait.  Other
  threads run meanwhile, so the table entries that `isCycle` reads a second
  time and the transactions that `detectDistDeadlock` reads are separate
  fields of `Node`.

    * `isCycle_marks` — a direct, distributed holder is marked, or a local
      cycle is reported;
    * `scanHolders_detected` — a marked holder that the rule detects is
      reported, whatever else the waiter waits for;
    * `some_edge_detected` — around a cycle of waits of any length, some
      member does not defer.
-/

import Altibase.Sml.DistTx
import Mathlib.Logic.Function.Basic

namespace Altibase.Sml

/-! ## §1. What a waiter reads. -/

/-- `smlDistDeadlockTxType`. -/
inductive DistTxType where
  | nonDistInfo
  | firstDistInfo
  | unknown
  deriving DecidableEq, Repr

/-- `SM_NULL_TID`. -/
def nullTID : UInt32 := 0x7fffffff

/-- An entry of `mTxList4DistDeadlock`. -/
structure TxEntry where
  distTxType : DistTxType
  transID : UInt32
  deriving DecidableEq, Repr

/-- `smxStatus`. -/
inductive TxStatus where
  | begin
  | precommit
  | commitInMemory
  | commit
  | abort
  | blocked
  | end
  | prepared
  deriving DecidableEq, Repr

/-- The fields of `smxTrans` that deadlock detection reads. -/
structure Trans where
  transID : UInt32
  status : TxStatus
  distTxInfo : DistTxInfo
  deriving DecidableEq, Repr

/-- **What one thread reads while it checks its wait.**  `index i j` is
    `mWaitForTable[i][j].mIndex` and `items i` the list of slots linked in
    row `i`; `recheck` is the index as read again after an entry was set,
    `transLater` the transactions as `detectDistDeadlock` finds them. -/
structure Node where
  transCnt : Nat
  index : Nat → Nat → Nat
  items : Nat → List Nat
  recheck : Nat → Nat → Nat
  trans : Nat → Trans
  transLater : Nat → Trans

/-! ## §2. `isCycle`. -/

/-- The waiter's own row while `isCycle` extends it, with its row of
    `mTxList4DistDeadlock`. -/
structure Walk where
  index : Nat → Nat
  items : List Nat
  txList : Nat → TxEntry
  exitPathFlag : Bool
  found : Bool

namespace Node

/-- The entry of slot `j`, set for the wait of `i`: it is withdrawn when the
    wait has meanwhile disappeared, for the slot may then be reused. -/
def firstEntry (n : Node) (i j : Nat) : TxEntry :=
  if n.recheck i j ≠ 1 then ⟨.unknown, nullTID⟩
  else ⟨.firstDistInfo, (n.trans j).transID⟩

/-- The entry of a slot `j` that is reached through slot `i`. -/
def nextEntry (n : Node) (i j : Nat) (entry old : TxEntry) : TxEntry :=
  match entry.distTxType with
  | .firstDistInfo | .unknown => ⟨.unknown, nullTID⟩
  | .nonDistInfo =>
    if (n.trans j).distTxInfo.distLevel.isValid then n.firstEntry i j else old

/-- Slot `j`, for which slot `i` waits, is linked into the row of `slot`.
    Linking `slot` itself ends the search. -/
def linkHolder (n : Node) (slot : Nat) (ready : Bool) (pathLen i : Nat) (w : Walk) (j : Nat) :
    Walk :=
  { index := Function.update w.index j (pathLen + 1)
    items := j :: w.items
    txList :=
      if ready then Function.update w.txList j (n.nextEntry i j (w.txList i) (w.txList j))
      else w.txList
    exitPathFlag := if slot = j then w.exitPathFlag else true
    found := slot = j }

/-- The body of the inner loop at slot `j`. -/
def visitHolder (n : Node) (slot : Nat) (ready : Bool) (pathLen i : Nat) (w : Walk) (j : Nat) :
    Walk :=
  if w.found then w
  else if n.index i j = 1 ∧ j ∉ w.items then n.linkHolder slot ready pathLen i w j
  else w

/-- The entry of a slot `i` at distance one from `slot`. -/
def directEntry (n : Node) (slot i : Nat) : TxEntry :=
  if (n.trans i).distTxInfo.distLevel.isValid then n.firstEntry slot i
  else ⟨.nonDistInfo, nullTID⟩

/-- Sets the entry of a slot at distance one. -/
def markDirect (n : Node) (slot : Nat) (ready : Bool) (pathLen i : Nat) (w : Walk) : Walk :=
  if pathLen = 1 ∧ ready then
    { w with txList := Function.update w.txList i (n.directEntry slot i) }
  else w

/-- The body of the outer `for` loop at slot `i` of the row. -/
def visitItem (n : Node) (slot : Nat) (ready : Bool) (pathLen : Nat) (w : Walk) (i : Nat) : Walk :=
  if slot ∈ w.items then w
  else if w.index i ≠ pathLen then w
  else (n.items i).foldl (n.visitHolder slot ready pathLen i) (n.markDirect slot ready pathLen i w)

/-- The outer `for` loop.  New slots are linked in front of the row, so the
    loop sees the row as it was at its start. -/
def visitItems (n : Node) (slot : Nat) (ready : Bool) (pathLen : Nat) (w : Walk) : Walk :=
  w.items.foldl (n.visitItem slot ready pathLen) { w with exitPathFlag := false }

/-- The `while` loop, with `transCnt - pathLen` iterations left. -/
def walk (n : Node) (slot : Nat) (ready : Bool) : Nat → Nat → Walk → Walk
  | 0, _, w => w
  | left + 1, pathLen, w =>
    if w.exitPathFlag ∧ w.index slot = 0 then
      walk n slot ready left (pathLen + 1) (n.visitItems slot ready pathLen w)
    else w

/-- The row of `slot` when `isCycle` starts; `clearTxList4DistDeadlock` has
    reset the entries. -/
def walkInit (n : Node) (slot : Nat) : Walk :=
  { index := n.index slot
    items := n.items slot
    txList := fun _ => ⟨.nonDistInfo, nullTID⟩
    exitPathFlag := true
    found := false }

/-- **`isCycle`**: whether `slot` waits for itself on this node, and the row
    that is left behind. -/
def isCycle (n : Node) (slot : Nat) (ready : Bool) : Bool × Walk :=
  let w := n.walk slot ready (n.transCnt - 1) 1 (n.walkInit slot)
  (w.index slot ≠ 0, w)

end Node

/-! ## §3. `detectDistDeadlock`. -/

/-- `smlDistDeadlockRiskType`. -/
inductive Risk where
  | none
  | low
  | mid
  | high
  deriving DecidableEq, Repr

/-- `mDistDeadlockRisk[waiter][holder]`. -/
def distDeadlockRisk : DistLevel → DistLevel → Risk
  | .init, _ => .none
  | _, .init => .none
  | .single, _ => .low
  | .multi, .single => .low
  | .multi, .multi => .low
  | .multi, .parallel => .mid
  | .parallel, .single => .mid
  | .parallel, .multi => .mid
  | .parallel, .parallel => .high

/-- The properties `DISTRIBUTION_DEADLOCK_RISK_*_WAIT_TIME`, in
    microseconds. -/
structure WaitTimes where
  low : UInt64
  mid : UInt64
  high : UInt64

/-- `getDistDeadlockWaitTime`. -/
def WaitTimes.ofRisk (times : WaitTimes) : Risk → UInt64
  | .low => times.low
  | .mid => times.mid
  | .high => times.high
  | .none => 0

/-- The variables of the loop of `detectDistDeadlock`. -/
structure Scan where
  maxDistLevel : DistLevel
  firstDetection : Detection
  deriving DecidableEq, Repr

/-- Records a detection: the first one is kept. -/
def Scan.detect (s : Scan) (maxDistLevel : DistLevel) (detected : Detection) : Scan :=
  { maxDistLevel
    firstDetection := if s.firstDetection = .none then detected else s.firstDetection }

/-- The body of the loop at slot `i`; the flag is its `break`. -/
def scanHolder (trans : Nat → Trans) (waitSlot : Nat) (w : Walk) (s : Scan) (i : Nat) :
    Scan × Bool :=
  let hold := trans i
  if i = waitSlot then (s, false)
  else if w.index i = 0 then (s, false)
  else if hold.distTxInfo.distLevel.isValid = false then (s, false)
  else
    let maxDistLevel :=
      if hold.distTxInfo.distLevel.toNat > s.maxDistLevel.toNat then hold.distTxInfo.distLevel
      else s.maxDistLevel
    if (w.txList i).distTxType ≠ .firstDistInfo then ({ s with maxDistLevel }, false)
    else
      let detected := compareTx4DistDeadlock (trans waitSlot).distTxInfo hold.distTxInfo
      -- The holder was reused during the comparison: its level is taken back.
      if hold.status = .end ∨ (w.txList i).transID ≠ hold.transID then (s, false)
      else if detected ≠ .none then
        (s.detect maxDistLevel detected, maxDistLevel = .parallel)
      else ({ s with maxDistLevel }, false)

/-- The loop of `detectDistDeadlock` over the slots that are left. -/
def scanHolders (trans : Nat → Trans) (waitSlot : Nat) (w : Walk) : List Nat → Scan → Scan
  | [], s => s
  | i :: slots, s =>
    let r := scanHolder trans waitSlot w s i
    if r.2 then r.1 else scanHolders trans waitSlot w slots r.1

/-- **`detectDistDeadlock`**: the first detection and the time the waiter
    may still wait before it fails. -/
def Node.detectDistDeadlock (n : Node) (times : WaitTimes) (waitSlot : Nat) (w : Walk) :
    Detection × UInt64 :=
  let s := scanHolders n.transLater waitSlot w (List.range n.transCnt) ⟨.init, .none⟩
  let level := (n.transLater waitSlot).distTxInfo.distLevel
  (s.firstDetection,
   if s.firstDetection ≠ .none then times.ofRisk (distDeadlockRisk level s.maxDistLevel) else 0)

/-- How a wait goes on once its deadlock check is over. -/
inductive Verdict where
  /-- A cycle on this node: the request fails at once. -/
  | deadlock
  /-- A distributed deadlock: the request fails when the time is over. -/
  | dieWait (cause : Detection) (waitTime : UInt64)
  /-- The ordinary lock wait. -/
  | lockWait
  deriving DecidableEq, Repr

/-- **The deadlock check of `smxTransMgr::waitForLock`.** -/
def Node.checkWait (n : Node) (times : WaitTimes) (enable : Bool) (slot : Nat) : Verdict :=
  let checkDistDeadlock := enable && (n.trans slot).distTxInfo.distLevel.isValid
  let (cycle, w) := n.isCycle slot checkDistDeadlock
  if cycle then .deadlock
  else if checkDistDeadlock then
    match n.detectDistDeadlock times slot w with
    | (.none, _) => .lockWait
    | (cause, waitTime) => .dieWait cause waitTime
  else .lockWait

/-! ## §4. What `isCycle` leaves behind. -/

/-- Slot `j` is linked in the row as a direct wait. -/
structure Linked (j : Nat) (w : Walk) : Prop where
  mem : j ∈ w.items
  index : w.index j = 1

/-- Slot `j` is a direct wait and its entry is `entry`. -/
structure Marked (j : Nat) (entry : TxEntry) (w : Walk) : Prop extends Linked j w where
  entry : w.txList j = entry

/-- The waiter is linked in its own row only with a positive index. -/
def SelfIndexed (slot : Nat) (w : Walk) : Prop :=
  slot ∈ w.items → w.index slot ≠ 0

/-- What the walk writes for a distributed holder that stays. -/
def Node.entryOf (n : Node) (j : Nat) : TxEntry := ⟨.firstDistInfo, (n.trans j).transID⟩

theorem directEntry_eq {n : Node} {slot j : Nat}
    (hlevel : (n.trans j).distTxInfo.distLevel.isValid = true)
    (hrecheck : n.recheck slot j = 1) : n.directEntry slot j = n.entryOf j := by
  unfold Node.directEntry Node.firstEntry
  rw [if_pos hlevel, if_neg (not_not.mpr hrecheck)]
  rfl

section Walk

variable {n : Node} {slot j pathLen i : Nat} {ready : Bool} {entry : TxEntry} {w : Walk}

theorem selfIndexed_visitHolder (h : SelfIndexed slot w) (a : Nat) :
    SelfIndexed slot (n.visitHolder slot ready pathLen i w a) := by
  unfold Node.visitHolder
  split_ifs with hf hl
  · exact h
  · intro hmem
    show Function.update w.index a (pathLen + 1) slot ≠ 0
    by_cases ha : slot = a
    · rw [ha, Function.update_self]
      omega
    · rw [Function.update_of_ne ha]
      exact h ((List.mem_cons.mp hmem).resolve_left ha)
  · exact h

/-- Linking another slot leaves a linked slot alone. -/
theorem linked_visitHolder (h : Linked j w) (a : Nat) :
    Linked j (n.visitHolder slot ready pathLen i w a) := by
  unfold Node.visitHolder
  split_ifs with hf hl
  · exact h
  · have hja : j ≠ a := fun e => hl.2 (e ▸ h.mem)
    constructor
    · exact List.mem_cons_of_mem a h.mem
    · show Function.update w.index a (pathLen + 1) j = 1
      rw [Function.update_of_ne hja]
      exact h.index
  · exact h

theorem marked_visitHolder (h : Marked j entry w) (a : Nat) :
    Marked j entry (n.visitHolder slot ready pathLen i w a) := by
  constructor
  · exact linked_visitHolder h.toLinked a
  · unfold Node.visitHolder
    split_ifs with hf hl
    · exact h.entry
    · have hja : j ≠ a := fun e => hl.2 (e ▸ h.mem)
      unfold Node.linkHolder
      split_ifs with hr
      all_goals
        first
          | exact h.entry
          | exact (Function.update_of_ne hja _ _).trans h.entry
    · exact h.entry

theorem linked_markDirect (h : Linked j w) :
    Linked j (n.markDirect slot ready pathLen i w) := by
  unfold Node.markDirect
  split_ifs
  · exact ⟨h.mem, h.index⟩
  · exact h

theorem selfIndexed_markDirect (h : SelfIndexed slot w) :
    SelfIndexed slot (n.markDirect slot ready pathLen i w) := by
  unfold Node.markDirect
  split_ifs
  · exact h
  · exact h

/-- Once the waiter is linked in its own row the walk stands still. -/
theorem visitItem_of_mem (h : slot ∈ w.items) (a : Nat) :
    n.visitItem slot ready pathLen w a = w :=
  if_pos h

theorem selfIndexed_visitItem (h : SelfIndexed slot w) (a : Nat) :
    SelfIndexed slot (n.visitItem slot ready pathLen w a) := by
  unfold Node.visitItem
  split_ifs
  · exact h
  · exact h
  · apply List.foldlRecOn
    · exact selfIndexed_markDirect h
    · intro w' h' b _
      exact selfIndexed_visitHolder h' b

theorem linked_visitItem (h : Linked j w) (a : Nat) :
    Linked j (n.visitItem slot ready pathLen w a) := by
  unfold Node.visitItem
  split_ifs
  · exact h
  · exact h
  · apply List.foldlRecOn
    · exact linked_markDirect h
    · intro w' h' b _
      exact linked_visitHolder h' b

/-- Marking a slot at distance one never harms the mark of `j`: another slot
    has another entry, and `j` itself is marked the same way again. -/
theorem marked_markDirect (hlevel : (n.trans j).distTxInfo.distLevel.isValid = true)
    (hrecheck : n.recheck slot j = 1) (h : Marked j (n.entryOf j) w) :
    Marked j (n.entryOf j) (n.markDirect slot ready pathLen i w) := by
  unfold Node.markDirect
  split_ifs with hd
  · constructor
    · exact ⟨h.mem, h.index⟩
    · show Function.update w.txList i _ j = n.entryOf j
      by_cases hji : j = i
      · subst hji
        rw [Function.update_self]
        exact directEntry_eq hlevel hrecheck
      · rw [Function.update_of_ne hji]
        exact h.entry
  · exact h

theorem marked_visitItem (hlevel : (n.trans j).distTxInfo.distLevel.isValid = true)
    (hrecheck : n.recheck slot j = 1) (h : Marked j (n.entryOf j) w) (a : Nat) :
    Marked j (n.entryOf j) (n.visitItem slot ready pathLen w a) := by
  unfold Node.visitItem
  split_ifs
  · exact h
  · exact h
  · apply List.foldlRecOn
    · exact marked_markDirect hlevel hrecheck h
    · intro w' h' b _
      exact marked_visitHolder h' b

/-- Visiting the direct holder `j` in the first round marks it. -/
theorem visitItem_marks (hlevel : (n.trans j).distTxInfo.distLevel.isValid = true)
    (hrecheck : n.recheck slot j = 1) (hslot : slot ∉ w.items) (h : Linked j w) :
    Marked j (n.entryOf j) (n.visitItem slot true 1 w j) := by
  unfold Node.visitItem
  rw [if_neg hslot, if_neg (not_not.mpr h.index)]
  apply List.foldlRecOn
  · constructor
    · exact linked_markDirect h
    · show Function.update w.txList j (n.directEntry slot j) j = n.entryOf j
      rw [Function.update_self]
      exact directEntry_eq hlevel hrecheck
  · intro w' h' b _
    exact marked_visitHolder h' b

/-- The state of `j` once it has been visited: it is marked, or the walk has
    already come back to the waiter. -/
def Settled (n : Node) (slot j : Nat) (w : Walk) : Prop :=
  slot ∈ w.items ∨ Marked j (n.entryOf j) w

theorem settled_visitItem (hlevel : (n.trans j).distTxInfo.distLevel.isValid = true)
    (hrecheck : n.recheck slot j = 1) (h : Settled n slot j w) (a : Nat) :
    Settled n slot j (n.visitItem slot ready pathLen w a) := by
  rcases h with hslot | hm
  · left
    rw [visitItem_of_mem hslot]
    exact hslot
  · right
    exact marked_visitItem hlevel hrecheck hm a

/-- A pass over slots that include the direct holder `j` settles it. -/
theorem settled_foldl (hlevel : (n.trans j).distTxInfo.distLevel.isValid = true)
    (hrecheck : n.recheck slot j = 1) (slots : List Nat) (hmem : j ∈ slots) (h : Linked j w) :
    Settled n slot j (slots.foldl (n.visitItem slot true 1) w) := by
  obtain ⟨before, after, hsplit⟩ := List.append_of_mem hmem
  rw [hsplit, List.foldl_append, List.foldl_cons]
  have hbefore : Linked j (before.foldl (n.visitItem slot true 1) w) := by
    apply List.foldlRecOn
    · exact h
    · intro w' h' b _
      exact linked_visitItem h' b
  apply List.foldlRecOn
  · by_cases hslot : slot ∈ (before.foldl (n.visitItem slot true 1) w).items
    · left
      rw [visitItem_of_mem hslot]
      exact hslot
    · right
      exact visitItem_marks hlevel hrecheck hslot hbefore
  · intro w' h' b _
    exact settled_visitItem hlevel hrecheck h' b

/-- **The first round settles every direct distributed holder.** -/
theorem settled_visitItems (hlevel : (n.trans j).distTxInfo.distLevel.isValid = true)
    (hrecheck : n.recheck slot j = 1) (h : Linked j w) :
    Settled n slot j (n.visitItems slot true 1 w) :=
  settled_foldl hlevel hrecheck w.items h.mem ⟨h.mem, h.index⟩

theorem selfIndexed_visitItems (h : SelfIndexed slot w) :
    SelfIndexed slot (n.visitItems slot ready pathLen w) := by
  unfold Node.visitItems
  apply List.foldlRecOn
  · exact h
  · intro w' h' b _
    exact selfIndexed_visitItem h' b

/-- Later rounds keep what the first one settled. -/
theorem settled_walk (hlevel : (n.trans j).distTxInfo.distLevel.isValid = true)
    (hrecheck : n.recheck slot j = 1) (left : Nat) :
    ∀ (pathLen : Nat) (w : Walk), Settled n slot j w → SelfIndexed slot w →
      Settled n slot j (n.walk slot ready left pathLen w) ∧
      SelfIndexed slot (n.walk slot ready left pathLen w) := by
  induction left with
  | zero =>
    intro pathLen w h hself
    exact ⟨h, hself⟩
  | succ left ih =>
    intro pathLen w h hself
    unfold Node.walk
    split_ifs with hgo
    · apply ih
      · unfold Node.visitItems
        apply List.foldlRecOn
        · exact h.imp id (fun hm => ⟨⟨hm.mem, hm.index⟩, hm.entry⟩)
        · intro w' h' b _
          exact settled_visitItem hlevel hrecheck h' b
      · exact selfIndexed_visitItems hself
    · exact ⟨h, hself⟩

end Walk

/-! ## §5. What `detectDistDeadlock` reports. -/

/-- A detection comes with the level of some distributed holder. -/
def Scan.Levelled (s : Scan) : Prop :=
  s.firstDetection ≠ .none → s.maxDistLevel.isValid = true

/-- Slot `i` is a marked holder that is still the same transaction and that
    the victim rule detects. -/
structure Detectable (trans : Nat → Trans) (waitSlot : Nat) (w : Walk) (i : Nat) : Prop where
  ne : i ≠ waitSlot
  index : w.index i ≠ 0
  valid : (trans i).distTxInfo.distLevel.isValid = true
  first : (w.txList i).distTxType = .firstDistInfo
  active : (trans i).status ≠ .end
  same : (w.txList i).transID = (trans i).transID
  detected : compareTx4DistDeadlock (trans waitSlot).distTxInfo (trans i).distTxInfo ≠ .none

section Scan

variable {trans : Nat → Trans} {waitSlot : Nat} {w : Walk}

theorem isValid_max {a b : DistLevel} (h : a.isValid = true) :
    (if a.toNat > b.toNat then a else b).isValid = true := by
  cases a <;> cases b <;> first | rfl | exact absurd h (by decide)

theorem levelled_scanHolder (s : Scan) (i : Nat) (h : s.Levelled) :
    (scanHolder trans waitSlot w s i).1.Levelled := by
  unfold scanHolder
  extract_lets hold maxDistLevel detected
  split
  · exact h
  split
  · exact h
  split
  · exact h
  next hvalid =>
    have hmax : maxDistLevel.isValid = true := isValid_max (Bool.not_eq_false _ ▸ hvalid)
    split
    · exact fun _ => hmax
    split
    · exact h
    split
    · exact fun _ => hmax
    · exact fun _ => hmax

theorem Scan.detect_ne_none (s : Scan) (level : DistLevel) {detected : Detection}
    (h : detected ≠ .none) : (s.detect level detected).firstDetection ≠ .none := by
  show (if s.firstDetection = .none then detected else s.firstDetection) ≠ .none
  split
  · exact h
  · assumption

/-- A detection is never taken back. -/
theorem scanHolder_keeps (s : Scan) (i : Nat) (h : s.firstDetection ≠ .none) :
    (scanHolder trans waitSlot w s i).1.firstDetection ≠ .none := by
  unfold scanHolder
  extract_lets hold maxDistLevel detected
  split
  · exact h
  split
  · exact h
  split
  · exact h
  split
  · exact h
  split
  · exact h
  split
  · next hd => exact s.detect_ne_none maxDistLevel hd
  · exact h

/-- The loop breaks only after a detection. -/
theorem scanHolder_break (s : Scan) (i : Nat) :
    (scanHolder trans waitSlot w s i).2 = true →
    (scanHolder trans waitSlot w s i).1.firstDetection ≠ .none := by
  unfold scanHolder
  extract_lets hold maxDistLevel detected
  split
  · exact fun h => absurd h (by simp)
  split
  · exact fun h => absurd h (by simp)
  split
  · exact fun h => absurd h (by simp)
  split
  · exact fun h => absurd h (by simp)
  split
  · exact fun h => absurd h (by simp)
  split
  · next hd => exact fun _ => s.detect_ne_none maxDistLevel hd
  · exact fun h => absurd h (by simp)

/-- A detectable holder is detected when the loop comes to it. -/
theorem Detectable.scanHolder {i : Nat} (d : Detectable trans waitSlot w i) (s : Scan) :
    (scanHolder trans waitSlot w s i).1.firstDetection ≠ .none := by
  unfold Altibase.Sml.scanHolder
  have hreused : ¬ ((trans i).status = .end ∨ (w.txList i).transID ≠ (trans i).transID) := by
    rintro (hend | hid)
    · exact d.active hend
    · exact hid d.same
  have hvalid : ¬ (trans i).distTxInfo.distLevel.isValid = false := by
    rw [d.valid]
    simp
  simp only [if_neg d.ne, if_neg d.index, if_neg hvalid, if_neg (not_not.mpr d.first),
    if_neg hreused, if_pos d.detected]
  exact s.detect_ne_none _ d.detected

theorem levelled_scanHolders (slots : List Nat) :
    ∀ s : Scan, s.Levelled → (scanHolders trans waitSlot w slots s).Levelled := by
  induction slots with
  | nil =>
    intro s h
    exact h
  | cons i slots ih =>
    intro s h
    have hstep : (scanHolder trans waitSlot w s i).1.Levelled := levelled_scanHolder s i h
    unfold scanHolders
    extract_lets r
    split
    · exact hstep
    · exact ih r.1 hstep

theorem scanHolders_keeps (slots : List Nat) :
    ∀ s : Scan, s.firstDetection ≠ .none →
      (scanHolders trans waitSlot w slots s).firstDetection ≠ .none := by
  induction slots with
  | nil =>
    intro s h
    exact h
  | cons i slots ih =>
    intro s h
    have hstep : (scanHolder trans waitSlot w s i).1.firstDetection ≠ .none :=
      scanHolder_keeps s i h
    unfold scanHolders
    extract_lets r
    split
    · exact hstep
    · exact ih r.1 hstep

/-- **A detectable holder is reported**, whatever else the waiter waits for:
    the loop reaches it or breaks on an earlier detection. -/
theorem scanHolders_detected {j : Nat} (d : Detectable trans waitSlot w j) (slots : List Nat) :
    ∀ s : Scan, j ∈ slots → (scanHolders trans waitSlot w slots s).firstDetection ≠ .none := by
  induction slots with
  | nil =>
    intro s hj
    exact absurd hj List.not_mem_nil
  | cons i slots ih =>
    intro s hj
    unfold scanHolders
    extract_lets r
    split
    · next hbreak => exact scanHolder_break s i hbreak
    · rcases List.mem_cons.mp hj with rfl | hmem
      · exact scanHolders_keeps slots r.1 (d.scanHolder s)
      · exact ih r.1 hmem

end Scan

/-- Two distributed levels carry a risk, so the wait time is a configured
    one. -/
theorem distDeadlockRisk_ne_none {a b : DistLevel} (ha : a.isValid = true)
    (hb : b.isValid = true) : distDeadlockRisk a b ≠ .none := by
  cases a <;> cases b <;> first | exact absurd ha (by decide) | exact absurd hb (by decide) | decide

/-! ## §6. A wait of one distributed transaction for another. -/

/-- **An edge of a distributed deadlock.**  On node `n` a transaction with
    key `waitKey` waits directly for one with key `holdKey`; both are
    distributed, and the holder has not ended when the waiter compares
    itself with it. -/
structure WaitEdge (n : Node) (waitKey holdKey : TxKey) where
  waitSlot : Nat
  holdSlot : Nat
  waitSlot_lt : waitSlot < n.transCnt
  holdSlot_lt : holdSlot < n.transCnt
  ne : holdSlot ≠ waitSlot
  linked : holdSlot ∈ n.items waitSlot
  index : n.index waitSlot holdSlot = 1
  recheck : n.recheck waitSlot holdSlot = 1
  not_self : waitSlot ∉ n.items waitSlot
  self_index : n.index waitSlot waitSlot = 0
  wait_valid : (n.trans waitSlot).distTxInfo.distLevel.isValid = true
  hold_valid : (n.trans holdSlot).distTxInfo.distLevel.isValid = true
  wait_valid_later : (n.transLater waitSlot).distTxInfo.distLevel.isValid = true
  hold_valid_later : (n.transLater holdSlot).distTxInfo.distLevel.isValid = true
  wait_key : (n.transLater waitSlot).distTxInfo.key = waitKey
  hold_key : (n.transLater holdSlot).distTxInfo.key = holdKey
  hold_same : (n.transLater holdSlot).transID = (n.trans holdSlot).transID
  hold_active : (n.transLater holdSlot).status ≠ .end

namespace WaitEdge

variable {n : Node} {waitKey holdKey : TxKey}

/-- **The holder of an edge is marked**, unless `isCycle` reports a cycle on
    the node itself. -/
theorem isCycle_marks (e : WaitEdge n waitKey holdKey)
    (h : (n.isCycle e.waitSlot true).1 = false) :
    Marked e.holdSlot (n.entryOf e.holdSlot) (n.isCycle e.waitSlot true).2 := by
  have hself : SelfIndexed e.waitSlot (n.walkInit e.waitSlot) :=
    fun hmem => absurd hmem e.not_self
  obtain ⟨left, hleft⟩ : ∃ left, n.transCnt - 1 = left + 1 := by
    have h1 := e.waitSlot_lt
    have h2 := e.holdSlot_lt
    have h3 := e.ne
    exact ⟨n.transCnt - 2, by omega⟩
  have hrun : n.walk e.waitSlot true (n.transCnt - 1) 1 (n.walkInit e.waitSlot)
      = n.walk e.waitSlot true left 2 (n.visitItems e.waitSlot true 1 (n.walkInit e.waitSlot)) := by
    rw [hleft]
    exact if_pos ⟨rfl, e.self_index⟩
  obtain ⟨hsettled, hindexed⟩ := settled_walk e.hold_valid e.recheck left 2
    (n.visitItems e.waitSlot true 1 (n.walkInit e.waitSlot))
    (settled_visitItems e.hold_valid e.recheck ⟨e.linked, e.index⟩) (selfIndexed_visitItems hself)
  rw [← hrun] at hsettled hindexed
  have hzero : (n.walk e.waitSlot true (n.transCnt - 1) 1 (n.walkInit e.waitSlot)).index
      e.waitSlot = 0 := by
    simpa [Node.isCycle] using h
  exact hsettled.resolve_left fun hmem => hindexed hmem hzero

/-- The answer of the victim rule for the edge. -/
def classify (e : WaitEdge n waitKey holdKey) : Detection :=
  compareTx4DistDeadlock (n.transLater e.waitSlot).distTxInfo (n.transLater e.holdSlot).distTxInfo

theorem classify_eq_none (e : WaitEdge n waitKey holdKey) :
    e.classify = .none ↔ holdKey < waitKey := by
  unfold classify
  rw [compareTx4DistDeadlock_eq_none, e.wait_key, e.hold_key]

theorem detectable (e : WaitEdge n waitKey holdKey) (hc : e.classify ≠ .none)
    (h : (n.isCycle e.waitSlot true).1 = false) :
    Detectable n.transLater e.waitSlot (n.isCycle e.waitSlot true).2 e.holdSlot := by
  have hm := e.isCycle_marks h
  constructor
  · exact e.ne
  · rw [hm.index]
    exact one_ne_zero
  · exact e.hold_valid_later
  · rw [hm.entry]
    rfl
  · exact e.hold_active
  · rw [hm.entry]
    exact e.hold_same.symm
  · exact hc

/-- **A detected edge ends in a die wait.** -/
theorem detectDistDeadlock_detected (e : WaitEdge n waitKey holdKey) (times : WaitTimes)
    (hc : e.classify ≠ .none) (h : (n.isCycle e.waitSlot true).1 = false) :
    (n.detectDistDeadlock times e.waitSlot (n.isCycle e.waitSlot true).2).1 ≠ .none ∧
    ∃ risk, risk ≠ Risk.none ∧
      (n.detectDistDeadlock times e.waitSlot (n.isCycle e.waitSlot true).2).2
        = times.ofRisk risk := by
  have hfirst := scanHolders_detected (e.detectable hc h) (List.range n.transCnt)
    ⟨.init, .none⟩ (List.mem_range.mpr e.holdSlot_lt)
  have hlevel : (scanHolders n.transLater e.waitSlot (n.isCycle e.waitSlot true).2
      (List.range n.transCnt) ⟨.init, .none⟩).Levelled :=
    levelled_scanHolders _ _ (fun hne => absurd rfl hne)
  constructor
  · exact hfirst
  · exact ⟨_, distDeadlockRisk_ne_none e.wait_valid_later (hlevel hfirst), if_pos hfirst⟩

end WaitEdge

/-! ## §7. Around a cycle. -/

/-- The wait does not go on as an ordinary lock wait: it fails at once, or
    when the time set for the risk is over. -/
inductive Verdict.Bounded (times : WaitTimes) : Verdict → Prop where
  | deadlock : Bounded times .deadlock
  | dieWait (cause : Detection) (risk : Risk) (hcause : cause ≠ .none) (hrisk : risk ≠ .none) :
    Bounded times (.dieWait cause (times.ofRisk risk))

theorem WaitEdge.bounded_checkWait {n : Node} {waitKey holdKey : TxKey}
    (e : WaitEdge n waitKey holdKey) (times : WaitTimes) (hc : e.classify ≠ .none) :
    (n.checkWait times true e.waitSlot).Bounded times := by
  unfold Node.checkWait
  simp only [Bool.true_and, e.wait_valid, if_true]
  by_cases hcycle : (n.isCycle e.waitSlot true).1 = true
  · rw [if_pos hcycle]
    exact .deadlock
  · rw [if_neg hcycle]
    obtain ⟨hcause, risk, hrisk, htime⟩ :=
      e.detectDistDeadlock_detected times hc (Bool.not_eq_true _ ▸ hcycle)
    split
    · next waitTime heq =>
      rw [heq] at hcause
      exact absurd rfl hcause
    · next cause waitTime hne heq =>
      rw [heq] at hcause htime
      rw [show waitTime = times.ofRisk risk from htime]
      exact .dieWait cause risk hcause hrisk

/-- **Detection is never symmetric around a cycle.**  Distributed
    transactions wait for each other in a cycle of any length, each wait on
    a node of its own and with any keys: some edge is classified as a
    deadlock, and its waiter does not go on waiting for a lock. -/
theorem some_edge_detected {k : Nat} (times : WaitTimes) (key : Fin (k + 1) → TxKey)
    (node : Fin (k + 1) → Node) (edge : ∀ i, WaitEdge (node i) (key i) (key (i + 1))) :
    ∃ i, (edge i).classify ≠ .none ∧
      ((node i).checkWait times true (edge i).waitSlot).Bounded times := by
  obtain ⟨i, hi⟩ := exists_not_next_lt key
  have hc : (edge i).classify ≠ .none := by
    intro h
    exact hi ((edge i).classify_eq_none.mp h)
  exact ⟨i, hc, (edge i).bounded_checkWait times hc⟩

/-! ### A cycle over two nodes. -/

/-- Slot 0 waits for slot 1. -/
def crossNode (waiter holder : DistTxInfo) : Node :=
  { transCnt := 2
    index := fun i j => if i = 0 ∧ j = 1 then 1 else 0
    items := fun i => if i = 0 then [1] else []
    recheck := fun i j => if i = 0 ∧ j = 1 then 1 else 0
    trans := fun i => ⟨100 + i.toUInt32, .begin, if i = 0 then waiter else holder⟩
    transLater := fun i => ⟨100 + i.toUInt32, .begin, if i = 0 then waiter else holder⟩ }

/-- The wait of slot 0 for slot 1. -/
def crossEdge (waiter holder : DistTxInfo) (hw : waiter.distLevel.isValid = true)
    (hh : holder.distLevel.isValid = true) :
    WaitEdge (crossNode waiter holder) waiter.key holder.key where
  waitSlot := 0
  holdSlot := 1
  waitSlot_lt := Nat.zero_lt_two
  holdSlot_lt := Nat.one_lt_two
  ne := by decide
  linked := by simp [crossNode]
  index := rfl
  recheck := rfl
  not_self := by simp [crossNode]
  self_index := rfl
  wait_valid := hw
  hold_valid := hh
  wait_valid_later := hw
  hold_valid_later := hh
  wait_key := rfl
  hold_key := rfl
  hold_same := rfl
  hold_active := by simp [crossNode]

/-- Two transactions that differ in the start time of their first statement
    only. -/
def crossTx (i : Fin 2) : DistTxInfo := ⟨7, ⟨10, i.val⟩, 0, .multi⟩

/-- Of two such transactions that wait for each other on two nodes, one is
    bounded. -/
theorem some_edge_detected_crossNode :
    ∃ i : Fin 2, (crossEdge (crossTx i) (crossTx (i + 1)) rfl rfl).classify ≠ .none ∧
      ((crossNode (crossTx i) (crossTx (i + 1))).checkWait ⟨1000, 2000, 3000⟩ true 0).Bounded
        ⟨1000, 2000, 3000⟩ :=
  some_edge_detected ⟨1000, 2000, 3000⟩ (fun i : Fin 2 => (crossTx i).key)
    (fun i => crossNode (crossTx i) (crossTx (i + 1)))
    (fun i => crossEdge (crossTx i) (crossTx (i + 1)) rfl rfl)

end Altibase.Sml
