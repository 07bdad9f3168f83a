/-
  Altibase.Sml.LockMgr
  ────────────────────
  **THE LOCK MANAGER AS A TRANSITION SYSTEM.**

  Any number of transactions run `lockTable` and `unlockTable` on any number of
  items.  One action of the system is a section of the code under its mutexes:

    • the node-list mutex of a transaction is held while its counter is at
      `lightLock` or `lightUnlock`, that is from the test of the item's `mFlag`
      to the end of the light path;
    • the item mutex is held across steps by the transaction that rebuilds the
      grant list (`collect`), which takes the node-list mutexes one by one;
    • a waiting transaction has left the item mutex (`waitForLock`); it comes
      back when it was resumed, or because it gives up.

  Light locks of other transactions can come in once more inside an action: a
  release under the item mutex (`unlockInternal`, `waitFail`) goes back to light
  mode before it unlinks its node.  Altibase.Sml.Unlink splits the action there.

  `partialItemUnlock`, `freeAllItemLock` and `freeAllItemLockExceptIS` are
  sequences of the `unlockTable` actions below.  A failure of memory allocation
  is not modelled.
-/
import Altibase.Lib.System
import Altibase.Sml.LockItem

namespace Altibase.Sml

open Altibase.Lib

/-! ## §1. The state. -/

/-- The address of a lock item. -/
abbrev ItemId := Nat

/-- A linked `smlLockSlot`: the slot of mode `lockMode` in the array of a node.
    A slot that is not linked has `mLockSequence` 0. -/
structure LockSlot where
  item : ItemId
  node : NodeId
  lockMode : LockMode
  lockSequence : Nat
  deriving Repr, DecidableEq

/-- The mode a slot stands for, if it is a slot of this node. -/
def LockSlot.modeAt (x : ItemId) (c : NodeId) (l : LockSlot) : Option LockMode :=
  if l.item = x ∧ l.node = c then some l.lockMode else none

/-- The modes of the slots that a slot list holds on a node. -/
def slotModes (x : ItemId) (c : NodeId) (slots : List LockSlot) : List LockMode :=
  slots.filterMap (LockSlot.modeAt x c)

/-- `addLockSlot`: to the tail of the transaction's slot list, with the next
    sequence number (the list header counts as 0). -/
def addLockSlot (x : ItemId) (c : NodeId) (m : LockMode) (slots : List LockSlot) :
    List LockSlot :=
  slots ++ [⟨x, c, m, (slots.getLast?.map LockSlot.lockSequence).getD 0 + 1⟩]

/-- `removeLockSlot`; `none` is a null slot pointer. -/
def removeLockSlot (x : ItemId) (c : NodeId) (lockSlot : Option LockMode)
    (slots : List LockSlot) : List LockSlot :=
  match lockSlot with
  | some m => slots.filter (fun l => l.modeAt x c ≠ some m)
  | none => slots

/-- The return code of a call. -/
inductive IdeRc
  | success
  | failure
  deriving Repr, DecidableEq

/-- Where a transaction is in the lock manager. -/
inductive Pc
  | idle
  | lightLock (x : ItemId) (r : LockReq) (cur : Option NodeId)
  | lockInternal (x : ItemId) (r : LockReq) (cur : Option NodeId)
  | collect (x : ItemId) (r : LockReq) (cur : Option NodeId) (i : TxSlot)
  | waitForLock (x : ItemId) (r : LockReq) (cur : Option NodeId) (new : NodeId)
  | lightUnlock (x : ItemId) (c : NodeId) (lockSlot : Option LockMode)
  | unlockInternal (x : ItemId) (c : NodeId) (lockSlot : Option LockMode)
  deriving Repr, DecidableEq

namespace Pc

/-- The transaction holds the mutex of its own node list. -/
def holdsNodeList : Pc → Bool
  | lightLock .. => true
  | lightUnlock .. => true
  | _ => false

/-- The counter as far as one item is concerned: `idle` unless it is about it. -/
def atItem (x : ItemId) : Pc → Pc
  | lightLock y r cur => if y = x then lightLock y r cur else idle
  | lockInternal y r cur => if y = x then lockInternal y r cur else idle
  | collect y r cur i => if y = x then collect y r cur i else idle
  | waitForLock y r cur new => if y = x then waitForLock y r cur new else idle
  | lightUnlock y c l => if y = x then lightUnlock y c l else idle
  | unlockInternal y c l => if y = x then unlockInternal y c l else idle
  | idle => idle

end Pc

/-- The lock manager: the items, each transaction's slot list, its position and
    the result of its last call. -/
structure State where
  item : ItemId → LockItem
  slots : TxSlot → List LockSlot
  pc : TxSlot → Pc
  rc : TxSlot → IdeRc

namespace State

/-- No item is locked and nobody is in a call. -/
def init : State where
  item := fun _ => .initLockItem
  slots := fun _ => []
  pc := fun _ => .idle
  rc := fun _ => .success

/-- Item `x`, the slots of `t` and the counter of `t` after a step of `t`. -/
def put (s : State) (t : TxSlot) (x : ItemId) (it : LockItem) (slots : List LockSlot) (p : Pc) :
    State :=
  { s with
    item := Function.update s.item x it
    slots := Function.update s.slots t slots
    pc := Function.update s.pc t p }

/-- The call of `t` returns. -/
def ret (s : State) (t : TxSlot) (rc : IdeRc) : State :=
  { s with rc := Function.update s.rc t rc }

/-- `setLockModeAndAddLockSlot` for a granted lock, and the successful return. -/
def lockDone (s : State) (t : TxSlot) (x : ItemId) (r : LockReq) (c : NodeId) (it : LockItem) :
    State :=
  (s.put t x (it.addFlag c r.lockMode) (addLockSlot x c r.lockMode (s.slots t)) .idle).ret t
    .success

/-- Leaving the item mutex section of `lockTableInternal`. -/
def lockOutcome (s : State) (t : TxSlot) (x : ItemId) (r : LockReq) (cur : Option NodeId) :
    LockOutcome × LockItem → State
  | (.granted c, it) => s.lockDone t x r c it
  | (.waiting new, it) => s.put t x it (s.slots t) (.waitForLock x r cur new)
  | (.refused, it) => (s.put t x it (s.slots t) .idle).ret t .failure

end State

/-! ## §2. The actions. -/

/-- Why a wait ends without the lock. -/
inductive WaitFailure
  | timeout
  | deadlock
  | sessionEvent
  deriving Repr, DecidableEq

/-- A section of the code under its mutexes, as a step of the transaction. -/
inductive Action
  /-- `lockTable` up to the test of the item's flag. -/
  | lockTable (t : TxSlot) (x : ItemId) (r : LockReq) (lockEnable : Bool)
  /-- The light path of `lockTable`. -/
  | lockLight (t : TxSlot)
  /-- `lockTableInternal` takes the item mutex. -/
  | lockInternal (t : TxSlot)
  /-- It looks at the next transaction's node list. -/
  | collect (t : TxSlot)
  /-- It has seen all node lists and goes on. -/
  | collected (t : TxSlot)
  /-- `waitForLock` returns because the transaction was resumed. -/
  | resume (t : TxSlot)
  /-- `waitForLock` fails. -/
  | waitFail (t : TxSlot) (why : WaitFailure)
  /-- `unlockTable` of a node (`lockSlot` null) or of one slot, up to the test of the flag. -/
  | unlockTable (t : TxSlot) (x : ItemId) (c : NodeId) (lockSlot : Option LockMode)
  /-- The light path of `unlockTable`. -/
  | unlockLight (t : TxSlot)
  /-- `unlockTableInternal` under the item mutex. -/
  | unlockInternal (t : TxSlot)
  /-- `initTransLockList` for the next transaction in the slot. -/
  | initTransLockList (t : TxSlot)
  deriving Repr, DecidableEq

/-- The mode is `SML_ISLOCK` or `SML_IXLOCK`. -/
def LockMode.isIntent (m : LockMode) : Bool :=
  m = .islock || m = .ixlock

/-- The early return of `lockTable`: the held mode already covers the request,
    and an IS request finds its slot in use. -/
def alreadyLocked (it : LockItem) (x : ItemId) (slots : List LockSlot) (r : LockReq) :
    Option NodeId → Bool
  | some c => conversionTBL (it.nodes c).lockMode r.lockMode = (it.nodes c).lockMode
      && ! (r.lockMode = .islock && ! (slotModes x c slots).contains .islock)
  | none => false

namespace State

/-- `lockTable` up to the test of the item's flag. -/
def lockTable (s : State) (t : TxSlot) (x : ItemId) (r : LockReq) (lockEnable : Bool) : State :=
  let it := s.item x
  let cur := it.findLockNode t
  if lockEnable = false then s.ret t (if r.lockMode.isIntent then .success else .failure)
  else if alreadyLocked it x (s.slots t) r cur then s.ret t .success
  else if r.lockMode.isIntent && it.flag = flagLightMode then
    s.put t x it (s.slots t) (.lightLock x r cur)
  else s.put t x it (s.slots t) (.lockInternal x r cur)

/-- `lockTableInternal` takes the item mutex: a light item is locked at once or made heavy. -/
def lockInternal (s : State) (t : TxSlot) (x : ItemId) (r : LockReq) (cur : Option NodeId) :
    State :=
  let it := s.item x
  if it.flag = flagLightMode then
    if r.lockMode.isIntent then
      let (c, it) := it.lockLight t r cur
      s.lockDone t x r c it
    else s.put t x { it with flag := 0, mutex := some t } (s.slots t) (.collect x r cur 0)
  else s.lockOutcome t x r cur (it.lockHeavy t r cur false)

/-- Waking up in `lockTableInternal`: a request that converted a granted node is
    freed, any other one has become the granted node. -/
def resume (s : State) (t : TxSlot) (x : ItemId) (r : LockReq) (new : NodeId) : State :=
  let it := s.item x
  match (it.nodes new).cvsLockNode with
  | some c => s.lockDone t x r c it
  | none => s.lockDone t x r new it

/-- `waitForLock` fails: the transaction is running again and gives its request
    back through `unlockTable`, the item mutex held. -/
def waitFail (s : State) (t : TxSlot) (x : ItemId) (new : NodeId) : State :=
  let it := (s.item x).resumeTrans t
  (s.put t x (it.unlockTableInternal t new none) (s.slots t) .idle).ret t .failure

/-- `unlockTable` up to the test of the flag. -/
def unlockTable (s : State) (t : TxSlot) (x : ItemId) (c : NodeId)
    (lockSlot : Option LockMode) : State :=
  let it := s.item x
  if (it.nodes c).doRemove = false ∧ it.flag = flagLightMode then
    s.put t x it (s.slots t) (.lightUnlock x c lockSlot)
  else s.put t x it (s.slots t) (.unlockInternal x c lockSlot)

/-- The lock slot goes, and `unlockTable` returns. -/
def unlockDone (s : State) (t : TxSlot) (x : ItemId) (c : NodeId) (lockSlot : Option LockMode)
    (it : LockItem) : State :=
  (s.put t x it (removeLockSlot x c lockSlot (s.slots t)) .idle).ret t .success

/-- `initTransLockList`: the slot's node lists and lock slots are emptied. -/
def initTransLockList (s : State) (t : TxSlot) : State :=
  { s with
    item := fun x => { s.item x with
      transLockNode := Function.update (s.item x).transLockNode t [] }
    slots := Function.update s.slots t [] }

end State

/-- One step of a system with `transCnt` transaction slots; `none` when the
    action is not enabled.  The guards are the mutexes, the position of the
    transaction, and what the callers promise: one of the five lock modes is
    requested, an unlocked node is the transaction's own and a slot is linked,
    and a slot list is only reset when all its nodes have been freed. -/
def step (transCnt : Nat) (s : State) : Action → Option State
  | .lockTable t x r lockEnable =>
      if t < transCnt ∧ s.pc t = .idle ∧ r.lockMode ≠ .nlock then
        some (s.lockTable t x r lockEnable)
      else none
  | .lockLight t => match s.pc t with
      | .lightLock x r cur =>
          let (c, it) := (s.item x).lockLight t r cur
          some (s.lockDone t x r c it)
      | _ => none
  | .lockInternal t => match s.pc t with
      | .lockInternal x r cur =>
          if (s.item x).mutex = none then some (s.lockInternal t x r cur) else none
      | _ => none
  -- the rebuild goes through the transaction slots, each list under its own mutex
  | .collect t => match s.pc t with
      | .collect x r cur i =>
          if i < transCnt ∧ (s.pc i).holdsNodeList = false then
            some (s.put t x ((s.item x).collectTransNode i) (s.slots t) (.collect x r cur (i + 1)))
          else none
      | _ => none
  | .collected t => match s.pc t with
      | .collect x r cur i =>
          if i = transCnt then
            some (s.lockOutcome t x r cur
              ({ s.item x with mutex := none }.lockHeavy t r cur true))
          else none
      | _ => none
  -- the waiter finds that it is blocked no longer
  | .resume t => match s.pc t with
      | .waitForLock x r _ new =>
          if (s.item x).mutex = none ∧ (s.item x).blocked t = false then some (s.resume t x r new)
          else none
      | _ => none
  -- a wait ends by a session event, or by a time-out of a waiter that is still blocked
  | .waitFail t why => match s.pc t with
      | .waitForLock x _ _ new =>
          if (s.item x).mutex = none ∧ (why = .sessionEvent ∨ (s.item x).blocked t = true) then
            some (s.waitFail t x new)
          else none
      | _ => none
  | .unlockTable t x c lockSlot =>
      if s.pc t = .idle ∧ c ∈ (s.item x).transLockNode t
          ∧ (∀ m ∈ lockSlot, m ∈ slotModes x c (s.slots t)) then
        some (s.unlockTable t x c lockSlot)
      else none
  | .unlockLight t => match s.pc t with
      | .lightUnlock x c lockSlot =>
          some (s.unlockDone t x c lockSlot ((s.item x).unlockLight t c lockSlot))
      | _ => none
  | .unlockInternal t => match s.pc t with
      | .unlockInternal x c lockSlot =>
          if (s.item x).mutex = none then
            some (s.unlockDone t x c lockSlot ((s.item x).unlockTableInternal t c lockSlot))
          else none
      | _ => none
  -- a transaction slot is handed on when no node of its lock slots is linked
  | .initTransLockList t =>
      if s.pc t = .idle ∧ ∀ l ∈ s.slots t, l.node ∉ (s.item l.item).transLockNode t then
        some (s.initTransLockList t)
      else none

/-- The lock manager with `transCnt` transaction slots. -/
def lockMgr (transCnt : Nat) : System State Action where
  init := .init
  step := step transCnt

end Altibase.Sml
