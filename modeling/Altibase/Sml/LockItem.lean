/-
  Altibase.Sml.LockItem
  ─────────────────────
  **ONE LOCK ITEM, AND WHAT THE LOCK MANAGER DOES TO IT.**

  `LockItem` is `smlLockItem` together with what hangs from it: the lock nodes
  of the item (`smlLockNode`; `mLockItem` never changes, so the nodes live with
  their item), for each transaction the part of its `mLockNodeHeader` ring that
  belongs to this item, whether a transaction sleeps in `waitForLock` on it, and
  who holds `mMutex` across steps.  Node ids are never used twice: a freed node
  stays behind as garbage that nothing reaches.

  The functions below are the bodies of smlLockMgr.cpp, in the order of the
  source.  The wait-for table (`mWaitForTable`), `mLockCnt`, `mOldMode`,
  `mNewMode` and the statistics are left out: no modelled decision reads them.
-/
import Altibase.Sml.LockMode

namespace Altibase.Sml

/-! ## §1. Nodes and items. -/

/-- The address of a lock node of an item. -/
abbrev NodeId := Nat

/-- A transaction's slot number (`aSlot`, `mSlotID`). -/
abbrev TxSlot := Nat

/-- `smlLockNode`. -/
structure LockNode where
  slotID : TxSlot := 0
  lockMode : LockMode := .nlock
  flag : Mask := 0
  beGrant : Bool := false
  doRemove : Bool := false
  cvsLockNode : Option NodeId := none
  isExplicitLock : Bool := false
  deriving Repr, DecidableEq

/-- `smlLockItem`, its nodes, and the transactions' links to them.  `grant` and
    `request` are the lists from `mFstLockGrant` and `mFstLockRequest`. -/
structure LockItem where
  grantLockMode : LockMode
  grantCnt : Int
  requestCnt : Int
  flag : Mask
  arrLockCount : LockMode → Int
  grant : List NodeId
  request : List NodeId
  nodes : NodeId → LockNode
  nextNode : NodeId
  /-- The nodes of this item in the transaction's `mLockNodeHeader` ring, from
      its head to its tail. -/
  transLockNode : TxSlot → List NodeId
  /-- `mStatus == SMX_TX_BLOCKED` on this item. -/
  blocked : TxSlot → Bool
  /-- The holder of `mMutex` between two steps. -/
  mutex : Option TxSlot

/-- What one call of `lockTable` asks for. -/
structure LockReq where
  lockMode : LockMode
  lockWaitMicroSec : Nat
  isExplicit : Bool
  deriving Repr, DecidableEq

/-- How `lockTableInternal` leaves the item mutex section. -/
inductive LockOutcome
  | granted (c : NodeId)
  | waiting (new : NodeId)
  | refused
  deriving Repr, DecidableEq

namespace LockItem

/-- `clearLockItem`. -/
def clearLockItem (s : LockItem) : LockItem :=
  { s with
    grantLockMode := .nlock
    grant := []
    request := []
    grantCnt := 0
    requestCnt := 0
    flag := flagLightMode
    arrLockCount := fun _ => 0 }

/-- `initLockItem`: a cleared item that no transaction has touched. -/
def initLockItem : LockItem where
  grantLockMode := .nlock
  grantCnt := 0
  requestCnt := 0
  flag := flagLightMode
  arrLockCount := fun _ => 0
  grant := []
  request := []
  nodes := fun _ => {}
  nextNode := 0
  transLockNode := fun _ => []
  blocked := fun _ => false
  mutex := none

/-! ## §2. Node, list and counter primitives. -/

/-- Assign to fields of one node. -/
def setNode (s : LockItem) (c : NodeId) (f : LockNode → LockNode) : LockItem :=
  { s with nodes := Function.update s.nodes c (f (s.nodes c)) }

/-- `aNode->mLockMode = m`. -/
def setLockMode (s : LockItem) (c : NodeId) (m : LockMode) : LockItem :=
  s.setNode c (fun nd => { nd with lockMode := m })

/-- `aNode->mFlag |= mLockModeToMask[m]`. -/
def addFlag (s : LockItem) (c : NodeId) (m : LockMode) : LockItem :=
  s.setNode c (fun nd => { nd with flag := nd.flag ||| lockModeToMask m })

/-- `allocLockNodeAndInit` (with `initLockNode`); `mBeGrant` is set by the caller. -/
def allocLockNodeAndInit (s : LockItem) (slot : TxSlot) (mode : LockMode)
    (explicit : Bool) : NodeId × LockItem :=
  (s.nextNode,
    { s with
      nodes := Function.update s.nodes s.nextNode
        { slotID := slot
          lockMode := mode
          flag := lockModeToMask mode
          isExplicitLock := explicit }
      nextNode := s.nextNode + 1 })

/-- `findLockNode`: the ring is searched from its tail. -/
def findLockNode (s : LockItem) (slot : TxSlot) : Option NodeId :=
  (s.transLockNode slot).getLast?

/-- `addLockNode`: to the tail of the transaction's ring. -/
def addLockNode (s : LockItem) (c : NodeId) (slot : TxSlot) : LockItem :=
  { s with transLockNode := Function.update s.transLockNode slot (s.transLockNode slot ++ [c]) }

/-- `removeLockNode` from the ring of the node's transaction, if it is linked there. -/
def removeLockNode (s : LockItem) (c : NodeId) (slot : TxSlot) : LockItem :=
  { s with transLockNode := Function.update s.transLockNode slot ((s.transLockNode slot).erase c) }

/-- `addLockNodeToTail` on the grant list, with `mGrantCnt++`. -/
def addGrant (s : LockItem) (c : NodeId) : LockItem :=
  { s with grant := s.grant ++ [c], grantCnt := s.grantCnt + 1 }

/-- `removeLockNode` on the grant list, with `mGrantCnt--`. -/
def removeGrant (s : LockItem) (c : NodeId) : LockItem :=
  { s with grant := s.grant.erase c, grantCnt := s.grantCnt - 1 }

/-- `removeLockNode` on the request list. -/
def removeRequest (s : LockItem) (r : NodeId) : LockItem :=
  { s with request := s.request.erase r }

/-- `decTblLockModeAndTryUpdate`. -/
def decTblLockModeAndTryUpdate (s : LockItem) (m : LockMode) : LockItem :=
  { s with
    arrLockCount := Function.update s.arrLockCount m (s.arrLockCount m - 1)
    flag := if s.arrLockCount m - 1 = 0 then s.flag &&& ~~~ lockModeToMask m else s.flag }

/-- `incTblLockModeAndUpdate`. -/
def incTblLockModeAndUpdate (s : LockItem) (m : LockMode) : LockItem :=
  { s with
    arrLockCount := Function.update s.arrLockCount m (s.arrLockCount m + 1)
    flag := s.flag ||| lockModeToMask m }

/-- `resumeTrans`: the sleeper's status is no longer blocked. -/
def resumeTrans (s : LockItem) (slot : TxSlot) : LockItem :=
  { s with blocked := Function.update s.blocked slot false }

/-! ## §3. `toLightMode` and `wakeupRequestLockNodeInLockItem`. -/

/-- One round of `toLightMode`'s loop over the request list. -/
def lightRequest (s : LockItem) (r : NodeId) : LockItem :=
  let s := s.removeRequest r
  let s := match (s.nodes r).cvsLockNode with
    | some c =>
        let s := s.setLockMode c (conversionTBL (s.nodes c).lockMode (s.nodes r).lockMode)
        s.setNode r (fun nd => { nd with doRemove := true })
    | none =>
        let s := s.setNode r (fun nd => { nd with beGrant := true })
        s.addLockNode r (s.nodes r).slotID
  s.resumeTrans (s.nodes r).slotID

/-- `toLightMode`. -/
def toLightMode (s : LockItem) : LockItem :=
  let s := if s.grantCnt > 0 then s.grant.foldl removeGrant s else s
  let s := s.request.foldl lightRequest s
  s.clearLockItem

/-- One round of `wakeupRequestLockNodeInLockItem`'s loop at the head `r` of the
    request list; `none` is its `break`. -/
def wakeupHead (s : LockItem) (r : NodeId) : Option LockItem :=
  if compatibleTBL (s.nodes r).lockMode s.grantLockMode then
    -- compatible with all that is granted
    let s := s.removeRequest r
    let s := { s with grantLockMode := conversionTBL s.grantLockMode (s.nodes r).lockMode }
    match (s.nodes r).cvsLockNode with
    | some c =>
        let s := s.decTblLockModeAndTryUpdate (s.nodes c).lockMode
        let s := s.setLockMode c (conversionTBL (s.nodes c).lockMode (s.nodes r).lockMode)
        let s := s.incTblLockModeAndUpdate (s.nodes c).lockMode
        some (s.setNode r (fun nd => { nd with doRemove := true }))
    | none =>
        let s := s.incTblLockModeAndUpdate (s.nodes r).lockMode
        let s := s.addGrant r
        let s := s.setNode r (fun nd => { nd with beGrant := true })
        some (s.addLockNode r (s.nodes r).slotID)
  else if s.grantCnt = 1 then
    -- a conversion by the only holder
    match (s.nodes r).cvsLockNode with
    | some c =>
        let s := s.decTblLockModeAndTryUpdate (s.nodes c).lockMode
        let s := { s with grantLockMode := conversionTBL s.grantLockMode (s.nodes r).lockMode }
        let s := s.setLockMode c s.grantLockMode
        let s := s.incTblLockModeAndUpdate s.grantLockMode
        let s := s.removeRequest r
        some (s.setNode r (fun nd => { nd with doRemove := true }))
    | none => none
  else none

/-- The loop of `wakeupRequestLockNodeInLockItem`. -/
def wakeupLoop : List NodeId → LockItem → LockItem
  | [], s => s
  | r :: rest, s => match wakeupHead s r with
    | none => s
    | some s' =>
        wakeupLoop rest
          ({ s' with requestCnt := s'.requestCnt - 1 }.resumeTrans (s'.nodes r).slotID)

/-- `wakeupRequestLockNodeInLockItem`. -/
def wakeupRequestLockNodeInLockItem (s : LockItem) : LockItem :=
  wakeupLoop s.request s

/-! ## §4. `lockTable` and `lockTableInternal`. -/

/-- The light-mode grant of `lockTable` and of `lockTableInternal`: only the
    transaction's own ring is touched. -/
def lockLight (s : LockItem) (slot : TxSlot) (r : LockReq) (cur : Option NodeId) :
    NodeId × LockItem :=
  match cur with
  | some c => (c, s.setLockMode c (conversionTBL (s.nodes c).lockMode r.lockMode))
  | none =>
      let (c, s) := s.allocLockNodeAndInit slot r.lockMode r.isExplicit
      let s := s.setNode c (fun nd => { nd with beGrant := true })
      (c, s.addLockNode c slot)

/-- One round of the loop that rebuilds the grant list when an S, X or SIX
    request finds the item in light mode. -/
def collectTransNode (s : LockItem) (i : TxSlot) : LockItem :=
  match s.findLockNode i with
  | none => s
  | some c =>
      let s := s.addGrant c
      let s := s.incTblLockModeAndUpdate (s.nodes c).lockMode
      { s with grantLockMode := conversionTBL s.grantLockMode (s.nodes c).lockMode }

/-- The conversion that ends the compatible case of `lockTableInternal`. -/
def convertCompatible (s : LockItem) (c : NodeId) (m : LockMode) : LockItem :=
  let s := s.setLockMode c (conversionTBL (s.nodes c).lockMode m)
  let s := s.incTblLockModeAndUpdate (s.nodes c).lockMode
  { s with grantLockMode := conversionTBL s.grantLockMode m }

/-- The compatible case of `lockTableInternal`; `none` jumps to `lock_conflict`. -/
def lockCompatible (s : LockItem) (slot : TxSlot) (r : LockReq) (cur : Option NodeId) :
    Option (NodeId × LockItem) :=
  match cur with
  | some c =>
      let s := s.decTblLockModeAndTryUpdate (s.nodes c).lockMode
      some (c, s.convertCompatible c r.lockMode)
  | none =>
      if s.requestCnt ≠ 0 then none
      else
        let (c, s) := s.allocLockNodeAndInit slot r.lockMode r.isExplicit
        let s := s.addGrant c
        let s := s.setNode c (fun nd => { nd with beGrant := true })
        some (c, (s.addLockNode c slot).convertCompatible c r.lockMode)

/-- The request of a transaction that has to wait: a conversion goes to the head
    of the request list, any other request to its tail. -/
def addRequest (s : LockItem) (slot : TxSlot) (r : LockReq) (cur : Option NodeId) :
    NodeId × LockItem :=
  let (new, s) := s.allocLockNodeAndInit slot r.lockMode r.isExplicit
  let s := match cur with
    | some c =>
        let s := s.setNode new (fun nd => { nd with cvsLockNode := some c })
        { s with request := new :: s.request }
    | none => { s with request := s.request ++ [new] }
  let s := { s with requestCnt := s.requestCnt + 1 }
  (new, { s with blocked := Function.update s.blocked slot true })

/-- The `lock_conflict` case of `lockTableInternal`, up to the wait. -/
def lockConflict (s : LockItem) (slot : TxSlot) (r : LockReq) (cur : Option NodeId)
    (isFirstDDL : Bool) : LockOutcome × LockItem :=
  match s.grantCnt == 1, cur with
  | true, some c =>
      let s := s.decTblLockModeAndTryUpdate (s.nodes c).lockMode
      let s := s.setLockMode c (conversionTBL (s.nodes c).lockMode r.lockMode)
      let s := { s with grantLockMode := conversionTBL s.grantLockMode r.lockMode }
      (.granted c, s.incTblLockModeAndUpdate (s.nodes c).lockMode)
  | _, _ =>
      if r.lockWaitMicroSec ≠ 0 then
        let (new, s) := s.addRequest slot r cur
        (.waiting new, s)
      else
        (.refused, if isFirstDDL then s.toLightMode else s)

/-- `lockTableInternal` from the first compatibility test on. -/
def lockHeavy (s : LockItem) (slot : TxSlot) (r : LockReq) (cur : Option NodeId)
    (isFirstDDL : Bool) : LockOutcome × LockItem :=
  if compatibleTBL s.grantLockMode r.lockMode then
    match s.lockCompatible slot r cur with
    | some (c, s') => (.granted c, s')
    | none => s.lockConflict slot r cur isFirstDDL
  else s.lockConflict slot r cur isFirstDDL

/-! ## §5. `unlockTable` and `unlockTableInternal`. -/

/-- The light-mode release of `unlockTable` and of `unlockTableInternal`. -/
def unlockLight (s : LockItem) (slot : TxSlot) (c : NodeId) (lockSlot : Option LockMode) :
    LockItem :=
  match lockSlot with
  | some m =>
      let s := s.setNode c (fun nd => { nd with flag := nd.flag &&& ~~~ lockModeToMask m })
      if (s.nodes c).flag ≠ 0 then s.setLockMode c (getDecision (s.nodes c).flag)
      else s.removeLockNode c slot
  | none => s.removeLockNode c slot

/-- Whether every lock left on the item and every waiting request is N, IS or IX. -/
def unlinkAll (s : LockItem) : Bool :=
  decide (s.grantLockMode = .islock ∨ s.grantLockMode = .ixlock ∨ s.grantLockMode = .nlock)
    && s.request.all (fun r =>
      ! decide ((s.nodes r).lockMode = .xlock ∨ (s.nodes r).lockMode = .slock
        ∨ (s.nodes r).lockMode = .sixlock))

/-- The end of a heavy release: back to light mode, or wake the waiters. -/
def toLightOrWakeup (s : LockItem) : LockItem :=
  if s.unlinkAll then s.toLightMode else s.wakeupRequestLockNodeInLockItem

/-- The grant- or request-list part of a heavy release; the flag returned is
    `sDoFreeLockNode`. -/
def releaseHeavy (s : LockItem) (c : NodeId) (lockSlot : Option LockMode) : Bool × LockItem :=
  if (s.nodes c).beGrant then
    let s := s.decTblLockModeAndTryUpdate (s.nodes c).lockMode
    let (doFree, s) := match lockSlot with
      | some m =>
          let s := s.setNode c (fun nd => { nd with flag := nd.flag &&& ~~~ lockModeToMask m })
          if (s.nodes c).flag ≠ 0 then
            let s := s.setLockMode c (getDecision (s.nodes c).flag)
            (false, s.incTblLockModeAndUpdate (s.nodes c).lockMode)
          else (true, s.removeGrant c)
      | none => (true, s.removeGrant c)
    (doFree, { s with grantLockMode := getDecision s.flag })
  else
    (true, { s.removeRequest c with requestCnt := s.requestCnt - 1 })

/-- `unlockTableInternal` under the item mutex. -/
def unlockTableInternal (s : LockItem) (slot : TxSlot) (c : NodeId)
    (lockSlot : Option LockMode) : LockItem :=
  if (s.nodes c).doRemove then s.removeLockNode c slot
  else if s.flag = flagLightMode then s.unlockLight slot c lockSlot
  else
    let (doFree, s) := s.releaseHeavy c lockSlot
    let s := s.toLightOrWakeup
    if doFree then s.removeLockNode c slot else s

end LockItem

end Altibase.Sml
