/-
  Altibase.Sml.Unlink
  ───────────────────
  **A RELEASED NODE THAT IS STILL LINKED.**

  `unlockTableInternal` takes a node off the lists of its item, goes back to
  light mode or wakes the waiters, and only then, at `unlock_COMPLETE`, unlinks
  the node from the ring of its transaction.  The item mutex is held all the
  time, but light locks of other transactions do not take it.  `lateMgr` is the
  lock manager with the two halves of such a release as two steps:

    • `settled` — the state once every release that has begun is completed;
    • `lateMgr_refines` — completing the releases of a reachable state of
      `lateMgr` gives a reachable state of `lockMgr`;
    • `holders_compatible` — holders of an item are compatible, except for a
      node that is about to be unlinked;
    • `holders_not_compatible` — not so for such a node.
-/
import Altibase.Sml.Safety

namespace Altibase.Sml

open Altibase.Lib

variable {n : Nat} {t u w : TxSlot} {x : ItemId} {c : NodeId}

/-! ## §1. The two halves of a release. -/

namespace LockItem

/-- The light-mode release of `unlockTableInternal`, up to `unlock_COMPLETE`; the flag
    returned is `sDoFreeLockNode`. -/
def releaseLight (s : LockItem) (c : NodeId) (lockSlot : Option LockMode) : Bool × LockItem :=
  match lockSlot with
  | some m =>
      let s := s.setNode c (fun nd => { nd with flag := nd.flag &&& ~~~ lockModeToMask m })
      if (s.nodes c).flag ≠ 0 then (false, s.setLockMode c (getDecision (s.nodes c).flag))
      else (true, s)
  | none => (true, s)

/-- `unlockTableInternal` up to `unlock_COMPLETE`. -/
def unlockUpToComplete (s : LockItem) (c : NodeId) (lockSlot : Option LockMode) :
    Bool × LockItem :=
  if (s.nodes c).doRemove then (true, s)
  else if s.flag = flagLightMode then s.releaseLight c lockSlot
  else
    let (doFree, s) := s.releaseHeavy c lockSlot
    (doFree, s.toLightOrWakeup)

/-- In light mode both halves together are the release. -/
theorem unlockLight_eq (s : LockItem) (slot : TxSlot) (c : NodeId) (lockSlot : Option LockMode) :
    s.unlockLight slot c lockSlot
      = if (s.releaseLight c lockSlot).1 then (s.releaseLight c lockSlot).2.removeLockNode c slot
        else (s.releaseLight c lockSlot).2 := by
  cases lockSlot with
  | none => rfl
  | some m =>
      unfold unlockLight releaseLight
      dsimp only
      split_ifs <;> first | rfl | contradiction

/-- Both halves together are the release. -/
theorem unlockTableInternal_eq (s : LockItem) (slot : TxSlot) (c : NodeId)
    (lockSlot : Option LockMode) :
    s.unlockTableInternal slot c lockSlot
      = if (s.unlockUpToComplete c lockSlot).1 then
          (s.unlockUpToComplete c lockSlot).2.removeLockNode c slot
        else (s.unlockUpToComplete c lockSlot).2 := by
  unfold unlockTableInternal unlockUpToComplete
  by_cases hrem : (s.nodes c).doRemove = true
  · simp only [if_pos hrem, if_true]
  · by_cases hf : s.flag = flagLightMode
    · simp only [if_neg hrem, if_pos hf]
      exact unlockLight_eq s slot c lockSlot
    · simp only [if_neg hrem, if_neg hf]

end LockItem

/-! ## §2. The lock manager with both halves. -/

/-- What is left to do of a release: the node, whether it is freed (`sDoFreeLockNode`), and
    the result of the call. -/
structure Unlinking where
  item : ItemId
  node : NodeId
  doFree : Bool
  rc : IdeRc
  deriving Repr, DecidableEq

/-- `unlockTableInternal` from `unlock_COMPLETE` on. -/
def Unlinking.complete (u : Unlinking) (t : TxSlot) (it : LockItem) : LockItem :=
  { (if u.doFree then it.removeLockNode u.node t else it) with mutex := none }

/-- The lock manager, and what each transaction has left to do of a release. -/
structure LateState where
  mgr : State
  left : TxSlot → Option Unlinking

/-- The actions, with a release under the item mutex in two halves. -/
inductive LateAction
  /-- Any action but a release under the item mutex. -/
  | mgr (a : Action)
  /-- `unlockTableInternal` up to `unlock_COMPLETE`. -/
  | unlockInternal (t : TxSlot)
  /-- `waitForLock` fails, and the request is given back up to there. -/
  | waitFail (t : TxSlot) (why : WaitFailure)
  /-- The rest of the release. -/
  | unlockComplete (t : TxSlot)
  deriving Repr, DecidableEq

/-- A release under the item mutex. -/
def Action.isRelease : Action → Bool
  | .unlockInternal _ => true
  | .waitFail _ _ => true
  | _ => false

namespace LateState

/-- No release has begun. -/
def init : LateState where
  mgr := .init
  left := fun _ => none

/-- The first half of a release of node `c` of item `x`, which is `it` now. -/
def unlockUpToComplete (s : LateState) (t : TxSlot) (x : ItemId) (it : LockItem) (c : NodeId)
    (lockSlot : Option LockMode) (rc : IdeRc) : LateState :=
  let (doFree, it) := it.unlockUpToComplete c lockSlot
  { mgr := s.mgr.put t x { it with mutex := some t } (removeLockSlot x c lockSlot (s.mgr.slots t))
      (s.mgr.pc t)
    left := Function.update s.left t (some ⟨x, c, doFree, rc⟩) }

/-- The second half. -/
def unlockComplete (s : LateState) (t : TxSlot) (u : Unlinking) : LateState where
  mgr := (s.mgr.put t u.item (u.complete t (s.mgr.item u.item)) (s.mgr.slots t) .idle).ret t u.rc
  left := Function.update s.left t none

end LateState

/-- One step.  A transaction in between the halves holds the item mutex and has not moved
    on, so none of its other actions is enabled. -/
def lateStep (transCnt : Nat) (s : LateState) : LateAction → Option LateState
  | .mgr a =>
      if a.isRelease then none
      else (step transCnt s.mgr a).map fun m => { s with mgr := m }
  | .unlockInternal t => match s.mgr.pc t with
      | .unlockInternal x c lockSlot =>
          if (s.mgr.item x).mutex = none then
            some (s.unlockUpToComplete t x (s.mgr.item x) c lockSlot .success)
          else none
      | _ => none
  | .waitFail t why => match s.mgr.pc t with
      | .waitForLock x _ _ new =>
          if (s.mgr.item x).mutex = none
              ∧ (why = .sessionEvent ∨ (s.mgr.item x).blocked t = true) then
            some (s.unlockUpToComplete t x ((s.mgr.item x).resumeTrans t) new none .failure)
          else none
      | _ => none
  | .unlockComplete t => (s.left t).map (s.unlockComplete t)

/-- The lock manager in which a released node is unlinked in a step of its own. -/
def lateMgr (transCnt : Nat) : System LateState LateAction where
  init := .init
  step := lateStep transCnt

/-! ## §3. Completing what has begun. -/

/-- An item after the release of its mutex holder is completed, if one has begun. -/
def finish (left : TxSlot → Option Unlinking) (x : ItemId) (it : LockItem) : LockItem :=
  match it.mutex with
  | none => it
  | some t => match left t with
    | none => it
    | some u => if u.item = x then u.complete t it else it

/-- **The state once every release that has begun is completed.** -/
def LateState.settled (s : LateState) : State where
  item x := finish s.left x (s.mgr.item x)
  slots := s.mgr.slots
  pc t := match s.left t with
    | none => s.mgr.pc t
    | some _ => .idle
  rc t := match s.left t with
    | none => s.mgr.rc t
    | some u => u.rc

/-- A release of a node of item `x` starts here. -/
def Pc.releases (x : ItemId) : Pc → Prop
  | .unlockInternal y _ _ => y = x
  | .waitForLock y _ _ _ => y = x
  | _ => False

/-- Whoever is in between the halves of a release holds the mutex of the item, and
    stands where the release began. -/
def LateState.Held (s : LateState) : Prop :=
  ∀ t u, s.left t = some u →
    (s.mgr.item u.item).mutex = some t ∧ (s.mgr.pc t).releases u.item

section Finish

variable {left : TxSlot → Option Unlinking} {it : LockItem}

/-- Where the mutex is free no release is under way. -/
theorem finish_of_free (h : it.mutex = none) : finish left x it = it := by
  unfold finish
  rw [h]

/-- The mutex holder releases nothing of this item. -/
theorem finish_of_other (h : it.mutex = some t) (hleft : ∀ u, left t = some u → u.item ≠ x) :
    finish left x it = it := by
  unfold finish
  rw [h]
  cases ht : left t with
  | none => simp only [ht]
  | some u => simp only [ht, if_neg (hleft u ht)]

/-- The mutex holder's release is completed. -/
theorem finish_of_left {u : Unlinking} (h : it.mutex = some t) (hleft : left t = some u)
    (hx : u.item = x) : finish left x it = u.complete t it := by
  unfold finish
  simp only [h, hleft, if_pos hx]

/-- An item is as it is, or a release is completed. -/
theorem finish_cases (left : TxSlot → Option Unlinking) (x : ItemId) (it : LockItem) :
    finish left x it = it
      ∨ ∃ t u, it.mutex = some t ∧ left t = some u ∧ u.item = x
        ∧ finish left x it = u.complete t it := by
  cases hmx : it.mutex with
  | none => exact Or.inl (finish_of_free hmx)
  | some t =>
      cases hl : left t with
      | none =>
          exact Or.inl (finish_of_other hmx fun u hu => by rw [hl] at hu; cases hu)
      | some u =>
          by_cases hx : u.item = x
          · exact Or.inr ⟨t, u, rfl, hl, hx, finish_of_left hmx hl hx⟩
          · refine Or.inl (finish_of_other hmx fun v hv => ?_)
            rw [hl] at hv
            cases hv
            exact hx

/-- The second half leaves the nodes, -/
theorem complete_nodes (u : Unlinking) (t : TxSlot) (it : LockItem) :
    (u.complete t it).nodes = it.nodes := by
  unfold Unlinking.complete
  split <;> rfl

/-- the flag, -/
theorem complete_flag (u : Unlinking) (t : TxSlot) (it : LockItem) :
    (u.complete t it).flag = it.flag := by
  unfold Unlinking.complete
  split <;> rfl

/-- the next node, -/
theorem complete_next (u : Unlinking) (t : TxSlot) (it : LockItem) :
    (u.complete t it).nextNode = it.nextNode := by
  unfold Unlinking.complete
  split <;> rfl

/-- and the rings of the other transactions. -/
theorem complete_ring (u : Unlinking) (t : TxSlot) (it : LockItem) (hw : w ≠ t) :
    (u.complete t it).transLockNode w = it.transLockNode w := by
  unfold Unlinking.complete
  split
  · exact Function.update_of_ne hw _ _
  · rfl

/-- So the nodes of an item are read as they are, -/
@[simp] theorem finish_nodes : (finish left x it).nodes = it.nodes := by
  rcases finish_cases left x it with h | ⟨t, u, -, -, -, h⟩
  · rw [h]
  · rw [h, complete_nodes]

/-- and its flag, -/
@[simp] theorem finish_flag : (finish left x it).flag = it.flag := by
  rcases finish_cases left x it with h | ⟨t, u, -, -, -, h⟩
  · rw [h]
  · rw [h, complete_flag]

/-- its next node, -/
theorem finish_next : (finish left x it).nextNode = it.nextNode := by
  rcases finish_cases left x it with h | ⟨t, u, -, -, -, h⟩
  · rw [h]
  · rw [h, complete_next]

/-- and the ring of a transaction that has nothing left to do. -/
theorem finish_ring (ht : left t = none) :
    (finish left x it).transLockNode t = it.transLockNode t := by
  rcases finish_cases left x it with h | ⟨w, u, -, hw, -, h⟩
  · rw [h]
  · rw [h]
    refine complete_ring u w it ?_
    rintro rfl
    rw [ht] at hw
    cases hw

/-- What a transaction does to an item without its mutex: other transactions' rings are
    left alone. -/
def LightEffect (t : TxSlot) (f : LockItem → LockItem) : Prop :=
  ∀ it, (f it).mutex = it.mutex ∧
    ∀ (u : Unlinking) (w : TxSlot), w ≠ t → u.complete w (f it) = f (u.complete w it)

/-- **A light action commutes with what is left of the releases of others.** -/
theorem finish_light {f : LockItem → LockItem} (hf : LightEffect t f) (ht : left t = none) :
    finish left x (f it) = f (finish left x it) := by
  obtain ⟨hmx, hcomm⟩ := hf it
  cases hw : it.mutex with
  | none => rw [finish_of_free hw, finish_of_free (hmx.trans hw)]
  | some w =>
      -- what is left to do is another transaction's, as `t` has nothing left
      by_cases hu : ∃ u, left w = some u ∧ u.item = x
      · obtain ⟨u, hu, hx⟩ := hu
        have hwt : w ≠ t := by
          rintro rfl
          rw [ht] at hu
          cases hu
        rw [finish_of_left hw hu hx, finish_of_left (hmx.trans hw) hu hx, hcomm u w hwt]
      · have hne : ∀ u, left w = some u → u.item ≠ x := fun u hu' hx => hu ⟨u, hu', hx⟩
        rw [finish_of_other hw hne, finish_of_other (hmx.trans hw) hne]

end Finish

/-! ## §4. Actions beside a release. -/

section Settled

variable {s : LateState} {m : State}

/-- A state is given by its items, slots, positions and results. -/
theorem state_ext {m' : State} (hi : ∀ x, m.item x = m'.item x) (hs : m.slots = m'.slots)
    (hp : ∀ t, m.pc t = m'.pc t) (hr : ∀ t, m.rc t = m'.rc t) : m = m' := by
  cases m
  cases m'
  congr
  · exact funext hi
  · exact funext hp
  · exact funext hr

/-- With nothing left to do, a transaction is where it is, -/
theorem settled_pc (ht : s.left t = none) : s.settled.pc t = s.mgr.pc t := by
  show (match s.left t with
    | none => s.mgr.pc t
    | some _ => Pc.idle) = s.mgr.pc t
  rw [ht]

/-- and its result is the last one. -/
theorem settled_rc (ht : s.left t = none) : s.settled.rc t = s.mgr.rc t := by
  show (match s.left t with
    | none => s.mgr.rc t
    | some u => u.rc) = s.mgr.rc t
  rw [ht]

/-- In between the halves it counts as done, -/
theorem settled_pc_left {u : Unlinking} (ht : s.left t = some u) : s.settled.pc t = .idle := by
  show (match s.left t with
    | none => s.mgr.pc t
    | some _ => Pc.idle) = .idle
  rw [ht]

/-- with the result of the release. -/
theorem settled_rc_left {u : Unlinking} (ht : s.left t = some u) : s.settled.rc t = u.rc := by
  show (match s.left t with
    | none => s.mgr.rc t
    | some u => u.rc) = u.rc
  rw [ht]

/-- Positions and results are read where nothing is left to do, and else are those of
    the completed release. -/
theorem settled_congr (s s' : LateState) {t : TxSlot} (hleft : s'.left t = s.left t)
    (hpc : s'.mgr.pc t = s.mgr.pc t) (hrc : s'.mgr.rc t = s.mgr.rc t) :
    s'.settled.pc t = s.settled.pc t ∧ s'.settled.rc t = s.settled.rc t := by
  cases hl : s.left t with
  | none =>
      rw [hl] at hleft
      rw [settled_pc hl, settled_pc hleft, settled_rc hl, settled_rc hleft]
      exact ⟨hpc, hrc⟩
  | some u =>
      rw [hl] at hleft
      rw [settled_pc_left hl, settled_pc_left hleft, settled_rc_left hl, settled_rc_left hleft]
      exact ⟨rfl, rfl⟩

/-- An action of a transaction that has nothing left to do. -/
theorem settled_put (ht : s.left t = none) (it : LockItem) (slots : List LockSlot) (p : Pc) :
    LateState.settled ⟨s.mgr.put t x it slots p, s.left⟩
      = s.settled.put t x (finish s.left x it) slots p := by
  apply state_ext
  · intro y
    show finish s.left y (Function.update s.mgr.item x it y)
      = Function.update s.settled.item x (finish s.left x it) y
    by_cases hy : y = x
    · subst hy
      rw [Function.update_self, Function.update_self]
    · rw [Function.update_of_ne hy, Function.update_of_ne hy]
      rfl
  · rfl
  · intro v
    show _ = Function.update s.settled.pc t p v
    by_cases hv : v = t
    · subst hv
      rw [Function.update_self]
      exact (settled_pc (s := ⟨s.mgr.put v x it slots p, s.left⟩) ht).trans
        (Function.update_self ..)
    · rw [Function.update_of_ne hv]
      exact (settled_congr s ⟨s.mgr.put t x it slots p, s.left⟩ rfl (Function.update_of_ne hv _ _)
        rfl).1
  · intro v
    rfl

/-- The return of a transaction that has nothing left to do. -/
theorem settled_ret (ht : s.left t = none) (m : State) (rc : IdeRc) :
    LateState.settled ⟨m.ret t rc, s.left⟩ = (LateState.settled ⟨m, s.left⟩).ret t rc := by
  apply state_ext
  · intro y
    rfl
  · rfl
  · intro v
    rfl
  · intro v
    show _ = Function.update (LateState.settled ⟨m, s.left⟩).rc t rc v
    by_cases hv : v = t
    · subst hv
      rw [Function.update_self]
      exact (settled_rc (s := ⟨m.ret v rc, s.left⟩) ht).trans (Function.update_self ..)
    · rw [Function.update_of_ne hv]
      exact (settled_congr ⟨m, s.left⟩ ⟨m.ret t rc, s.left⟩ rfl rfl
        (Function.update_of_ne hv _ _)).2

/-- Who is elsewhere has nothing left to do. -/
theorem LateState.Held.left_none (h : s.Held) (ht : ∀ x, ¬ (s.mgr.pc t).releases x) :
    s.left t = none := by
  cases hl : s.left t with
  | none => rfl
  | some u => exact absurd (h t u hl).2 (ht u.item)

/-- An action of another transaction keeps who holds the mutex, if the item it writes
    has the holder's mutex. -/
theorem LateState.Held.put (h : s.Held) (ht : s.left t = none) {it : LockItem}
    (hmx : ∀ w u, s.left w = some u → u.item = x → it.mutex = some w) (slots : List LockSlot)
    (p : Pc) : LateState.Held ⟨s.mgr.put t x it slots p, s.left⟩ := by
  intro w u hw
  obtain ⟨hw₁, hw₂⟩ := h w u hw
  constructor
  · show (Function.update s.mgr.item x it u.item).mutex = some w
    by_cases hx : u.item = x
    · rw [hx, Function.update_self]
      exact hmx w u hw hx
    · rw [Function.update_of_ne hx]
      exact hw₁
  · show (Function.update s.mgr.pc t p w).releases u.item
    rw [Function.update_of_ne]
    · exact hw₂
    · rintro rfl
      rw [ht] at hw
      cases hw

/-- A light action keeps the mutex, so it keeps who holds it. -/
theorem LateState.Held.put_light (h : s.Held) (ht : s.left t = none) {it : LockItem}
    (hmx : it.mutex = (s.mgr.item x).mutex) (slots : List LockSlot) (p : Pc) :
    LateState.Held ⟨s.mgr.put t x it slots p, s.left⟩ := by
  refine h.put ht (fun w u hw hx => ?_) slots p
  rw [hmx, ← hx]
  exact (h w u hw).1

/-! The light actions. -/

/-- Two transactions unlink their nodes in any order. -/
theorem removeLockNode_comm (it : LockItem) (d : NodeId) {w : TxSlot} (hw : w ≠ t) :
    (it.removeLockNode c t).removeLockNode d w = (it.removeLockNode d w).removeLockNode c t := by
  unfold LockItem.removeLockNode
  simp only [Function.update_of_ne hw, Function.update_of_ne (Ne.symm hw), Function.update_comm hw]

/-- The light grant, with the slot's bit in the flag of the node. -/
theorem lightEffect_lockLight (t : TxSlot) (r : LockReq) (cur : Option NodeId) :
    LightEffect t
      (fun it => (it.lockLight t r cur).2.addFlag (it.lockLight t r cur).1 r.lockMode) := by
  intro it
  cases cur with
  | some c =>
      refine ⟨rfl, fun u w _ => ?_⟩
      unfold Unlinking.complete
      split <;> rfl
  | none =>
      refine ⟨rfl, fun u w hw => ?_⟩
      unfold Unlinking.complete
      split
      · unfold LockItem.lockLight LockItem.removeLockNode LockItem.addLockNode
        simp only [LockItem.addFlag, LockItem.setNode, LockItem.allocLockNodeAndInit,
          Function.update_of_ne hw, Function.update_of_ne (Ne.symm hw), Function.update_comm hw]
      · rfl

/-- A node changes before or after another one is unlinked. -/
theorem complete_setNode (u : Unlinking) (w : TxSlot) (it : LockItem) (c : NodeId)
    (f : LockNode → LockNode) :
    u.complete w (it.setNode c f) = (u.complete w it).setNode c f := by
  unfold Unlinking.complete
  split <;> rfl

/-- The light release, whether the node stays or is unlinked. -/
theorem lightEffect_unlockLight (t : TxSlot) (c : NodeId) (l : Option LockMode) :
    LightEffect t (fun it => it.unlockLight t c l) := by
  have hremove : LightEffect t (fun it => it.removeLockNode c t) := by
    intro it
    refine ⟨rfl, fun u w hw => ?_⟩
    unfold Unlinking.complete
    split
    · exact congrArg (fun it : LockItem => { it with mutex := none })
        (removeLockNode_comm it u.node hw)
    · rfl
  cases l with
  | none => exact hremove
  | some m =>
      intro it
      dsimp only
      let f : LockNode → LockNode := fun nd => { nd with flag := nd.flag &&& ~~~ lockModeToMask m }
      -- whether modes are left on the node is seen in the node alone
      by_cases hflag : ((it.setNode c f).nodes c).flag ≠ 0
      · have heq : ∀ it' : LockItem, it'.nodes = it.nodes → it'.unlockLight t c (some m)
            = (it'.setNode c f).setLockMode c (getDecision ((it'.setNode c f).nodes c).flag) := by
          intro it' hn
          refine if_pos ?_
          show (Function.update it'.nodes c (f (it'.nodes c)) c).flag ≠ 0
          rw [hn]
          exact hflag
        refine ⟨by rw [heq it rfl]; rfl, fun u w _ => ?_⟩
        rw [heq it rfl, heq _ (complete_nodes u w it), ← complete_setNode]
        unfold LockItem.setLockMode
        rw [complete_setNode, complete_nodes]
      · have heq : ∀ it' : LockItem, it'.nodes = it.nodes → it'.unlockLight t c (some m)
            = (it'.setNode c f).removeLockNode c t := by
          intro it' hn
          refine if_neg ?_
          show ¬ (Function.update it'.nodes c (f (it'.nodes c)) c).flag ≠ 0
          rw [hn]
          exact hflag
        refine ⟨by rw [heq it rfl]; rfl, fun u w hw => ?_⟩
        rw [heq it rfl, heq _ (complete_nodes u w it), ← complete_setNode]
        exact (hremove (it.setNode c f)).2 u w hw

/-- The light grant of a transaction that has nothing left to do, -/
theorem settled_lockLight (ht : s.left t = none) (r : LockReq) (cur : Option NodeId) :
    LateState.settled ⟨s.mgr.lockDone t x r ((s.mgr.item x).lockLight t r cur).1
        ((s.mgr.item x).lockLight t r cur).2, s.left⟩
      = s.settled.lockDone t x r ((s.settled.item x).lockLight t r cur).1
        ((s.settled.item x).lockLight t r cur).2 := by
  have hfst : ((s.settled.item x).lockLight t r cur).1 = ((s.mgr.item x).lockLight t r cur).1 := by
    cases cur with
    | some c => rfl
    | none => exact finish_next
  unfold State.lockDone
  rw [settled_ret ht, settled_put ht, finish_light (lightEffect_lockLight t r cur) ht, ← hfst]
  rfl

/-- its light release, -/
theorem settled_unlockLight (ht : s.left t = none) (c : NodeId) (l : Option LockMode) :
    LateState.settled ⟨s.mgr.unlockDone t x c l ((s.mgr.item x).unlockLight t c l), s.left⟩
      = s.settled.unlockDone t x c l ((s.settled.item x).unlockLight t c l) := by
  unfold State.unlockDone
  rw [settled_ret ht, settled_put ht, finish_light (lightEffect_unlockLight t c l) ht]
  rfl

/-- the start of its `lockTable`, which reads its own ring, the nodes and the flag, -/
theorem settled_lockTable (ht : s.left t = none) (r : LockReq) (lockEnable : Bool) :
    LateState.settled ⟨s.mgr.lockTable t x r lockEnable, s.left⟩
      = s.settled.lockTable t x r lockEnable := by
  have hfind : (s.settled.item x).findLockNode t = (s.mgr.item x).findLockNode t :=
    congrArg List.getLast? (finish_ring ht)
  have halready : alreadyLocked (s.settled.item x) x (s.settled.slots t) r
      = alreadyLocked (s.mgr.item x) x (s.mgr.slots t) r := by
    funext cur
    cases cur with
    | none => rfl
    | some c =>
        unfold alreadyLocked
        rw [show (s.settled.item x).nodes = (s.mgr.item x).nodes from finish_nodes]
        rfl
  have hflag : (s.settled.item x).flag = (s.mgr.item x).flag := finish_flag
  unfold State.lockTable
  dsimp only
  rw [hfind, halready, hflag]
  split_ifs
  · exact settled_ret ht _ _
  · exact settled_ret ht _ _
  · exact settled_ret ht _ _
  · exact settled_put ht _ _ _
  · exact settled_put ht _ _ _

/-- and the start of its `unlockTable`. -/
theorem settled_unlockTable (ht : s.left t = none) (c : NodeId) (l : Option LockMode) :
    LateState.settled ⟨s.mgr.unlockTable t x c l, s.left⟩ = s.settled.unlockTable t x c l := by
  have hnodes : (s.settled.item x).nodes = (s.mgr.item x).nodes := finish_nodes
  have hflag : (s.settled.item x).flag = (s.mgr.item x).flag := finish_flag
  unfold State.unlockTable
  dsimp only
  rw [hnodes, hflag]
  split_ifs
  · exact settled_put ht _ _ _
  · exact settled_put ht _ _ _

/-- The reset of a slot list empties the ring of the transaction in every item. -/
theorem settled_reset (ht : s.left t = none) :
    LateState.settled ⟨s.mgr.initTransLockList t, s.left⟩ = s.settled.initTransLockList t := by
  have heffect : LightEffect t
      (fun it => { it with transLockNode := Function.update it.transLockNode t [] }) := by
    intro it
    refine ⟨rfl, fun u w hw => ?_⟩
    unfold Unlinking.complete
    split
    · unfold LockItem.removeLockNode
      simp only [Function.update_of_ne hw, Function.update_comm hw]
    · rfl
  unfold LateState.settled State.initTransLockList
  congr 1
  funext y
  exact finish_light heffect ht

/-! The actions under the item mutex. -/

/-- No release of a node of item `x` has begun. -/
def LateState.NoneLeft (s : LateState) (x : ItemId) : Prop :=
  ∀ w u, s.left w = some u → u.item ≠ x

/-- A free mutex says that no release of the item has begun. -/
theorem LateState.Held.noneLeft_of_free (h : s.Held) (hmx : (s.mgr.item x).mutex = none) :
    s.NoneLeft x := by
  intro w u hw hx
  have hm := (h w u hw).1
  rw [hx, hmx] at hm
  cases hm

/-- Who would release a node of such an item has nothing left to do. -/
theorem LateState.Held.left_none_of_releases (h : s.Held) (hx : s.NoneLeft x)
    (hrel : (s.mgr.pc t).releases x) : s.left t = none := by
  cases hl : s.left t with
  | none => rfl
  | some u =>
      have hu := (h t u hl).2
      have hux : u.item = x := by
        cases hpc : s.mgr.pc t with
        | unlockInternal y c l =>
            rw [hpc] at hu hrel
            exact hu.symm.trans hrel
        | waitForLock y r cur new =>
            rw [hpc] at hu hrel
            exact hu.symm.trans hrel
        | _ => rw [hpc] at hu; exact hu.elim
      exact absurd hux (hx t u hl)

/-- A transaction that collects holds the mutex, so no release is under way. -/
theorem LateState.Held.noneLeft_of_collect (h : s.Held) (hinv : Inv n False s.settled)
    {r : LockReq} {cur : Option NodeId} {i : TxSlot} (ht : s.left t = none)
    (hpc : s.mgr.pc t = .collect x r cur i) : s.NoneLeft x := by
  intro w u hw hx
  have hat : s.settled.pcAt x t = .collect x r cur i := by
    unfold State.pcAt
    rw [settled_pc ht, hpc]
    simp [Pc.atItem]
  -- the collector holds the mutex, which a completed release would have freed
  have hmx := ((hinv.item x).collector t x r cur i hat).1
  have hm := (h w u hw).1
  rw [hx] at hm
  have hfree : (s.settled.item x).mutex = none := by
    show (finish s.left x (s.mgr.item x)).mutex = none
    rw [finish_of_left hm hw hx]
    rfl
  rw [hfree] at hmx
  cases hmx

/-- Such an item is as it is, -/
theorem LateState.NoneLeft.item (h : s.NoneLeft x) : s.settled.item x = s.mgr.item x := by
  rcases finish_cases s.left x (s.mgr.item x) with heq | ⟨t, u, -, hl, hx, -⟩
  · exact heq
  · exact absurd hx (h t u hl)

/-- also with other contents. -/
theorem LateState.NoneLeft.finish (h : s.NoneLeft x) (it : LockItem) : finish s.left x it = it := by
  rcases finish_cases s.left x it with heq | ⟨t, u, -, hl, hx, -⟩
  · exact heq
  · exact absurd hx (h t u hl)

/-- An action under the mutex of such an item, -/
theorem settled_heavy (ht : s.left t = none) (hx : s.NoneLeft x) (it : LockItem)
    (slots : List LockSlot) (p : Pc) :
    LateState.settled ⟨s.mgr.put t x it slots p, s.left⟩ = s.settled.put t x it slots p := by
  rw [settled_put ht, hx.finish]

/-- and the outcome of a request there. -/
theorem settled_lockOutcome (ht : s.left t = none) (hx : s.NoneLeft x) (r : LockReq)
    (cur : Option NodeId) (o : LockOutcome × LockItem) :
    LateState.settled ⟨s.mgr.lockOutcome t x r cur o, s.left⟩
      = s.settled.lockOutcome t x r cur o := by
  obtain ⟨o, it⟩ := o
  cases o with
  | granted c =>
      unfold State.lockOutcome State.lockDone
      dsimp only
      rw [settled_ret ht, settled_heavy ht hx]
      rfl
  | waiting new => exact settled_heavy ht hx it _ _
  | refused =>
      unfold State.lockOutcome
      dsimp only
      rw [settled_ret ht, settled_heavy ht hx]
      rfl

/-- Neither half of a release is on a light path. -/
theorem LateState.Held.holdsNodeList (h : s.Held) (i : TxSlot) :
    (s.settled.pc i).holdsNodeList = (s.mgr.pc i).holdsNodeList := by
  cases hl : s.left i with
  | none => rw [settled_pc hl]
  | some u =>
      have hrel := (h i u hl).2
      rw [settled_pc_left hl]
      cases hpc : s.mgr.pc i with
      | lightLock => rw [hpc] at hrel; exact hrel.elim
      | lightUnlock => rw [hpc] at hrel; exact hrel.elim
      | _ => rfl

/-- Under the mutex of such an item nobody else holds it. -/
theorem LateState.Held.put_heavy (h : s.Held) (ht : s.left t = none) (hx : s.NoneLeft x)
    (it : LockItem) (slots : List LockSlot) (p : Pc) :
    LateState.Held ⟨s.mgr.put t x it slots p, s.left⟩ :=
  h.put ht (fun w u hw hux => absurd hux (hx w u hw)) slots p

/-- Nor after the outcome of a request. -/
theorem LateState.Held.lockOutcome (h : s.Held) (ht : s.left t = none) (hx : s.NoneLeft x)
    (r : LockReq) (cur : Option NodeId) (o : LockOutcome × LockItem) :
    LateState.Held ⟨s.mgr.lockOutcome t x r cur o, s.left⟩ := by
  obtain ⟨o, it⟩ := o
  cases o with
  | granted c => exact h.put_heavy ht hx _ (addLockSlot x c r.lockMode (s.mgr.slots t)) _
  | waiting new => exact h.put_heavy ht hx _ _ _
  | refused => exact h.put_heavy ht hx _ (s.mgr.slots t) _

/-- **An action beside the releases is the same action of the lock manager** once the
    releases are completed. -/
theorem settled_step (h : s.Held) (hinv : Inv n False s.settled) {a : Action}
    (ha : a.isRelease = false) (hst : step n s.mgr a = some m) :
    step n s.settled a = some (LateState.settled ⟨m, s.left⟩) ∧ LateState.Held ⟨m, s.left⟩ := by
  cases a with
  | lockTable t x r lockEnable =>
      simp only [step, Option.ite_none_right_eq_some, Option.some.injEq] at hst
      obtain ⟨hguard, rfl⟩ := hst
      -- an idle transaction has left no node
      have ht : s.left t = none := h.left_none fun y => by simp [hguard.2.1, Pc.releases]
      rw [settled_lockTable ht]
      refine ⟨?_, ?_⟩
      · simp only [step, settled_pc ht]
        exact if_pos hguard
      · unfold State.lockTable
        dsimp only
        split_ifs
        · exact h
        · exact h
        · exact h
        · exact h.put_light ht rfl _ _
        · exact h.put_light ht rfl _ _
  | lockLight t =>
      cases hpc : s.mgr.pc t with
      | lightLock x r cur =>
          simp only [step, hpc, Option.some.injEq] at hst
          subst hst
          have ht : s.left t = none := h.left_none fun y => by simp [hpc, Pc.releases]
          refine ⟨?_, h.put_light ht (lightEffect_lockLight t r cur _).1
            (addLockSlot x ((s.mgr.item x).lockLight t r cur).1 r.lockMode (s.mgr.slots t)) _⟩
          rw [settled_lockLight ht]
          simp only [step, settled_pc ht, hpc]
      | _ => simp [step, hpc] at hst
  | lockInternal t =>
      cases hpc : s.mgr.pc t with
      | lockInternal x r cur =>
          simp only [step, hpc, Option.ite_none_right_eq_some, Option.some.injEq] at hst
          obtain ⟨hmx, rfl⟩ := hst
          have ht : s.left t = none := h.left_none fun y => by simp [hpc, Pc.releases]
          -- the item mutex is free, so nobody is between the two halves of a release of this
          -- item
          have hx := h.noneLeft_of_free hmx
          have heq : LateState.settled ⟨s.mgr.lockInternal t x r cur, s.left⟩
              = s.settled.lockInternal t x r cur := by
            unfold State.lockInternal
            dsimp only
            rw [hx.item]
            split_ifs
            · exact settled_lockOutcome ht hx r cur (.granted _, _)
            · exact settled_heavy ht hx _ _ _
            · exact settled_lockOutcome ht hx r cur _
          refine ⟨?_, ?_⟩
          · rw [heq]
            simp only [step, settled_pc ht, hpc, hx.item]
            exact if_pos hmx
          · unfold State.lockInternal
            dsimp only
            split_ifs
            · exact h.lockOutcome ht hx r cur (.granted _, _)
            · exact h.put_heavy ht hx _ _ _
            · exact h.lockOutcome ht hx r cur _
      | _ => simp [step, hpc] at hst
  | collect t =>
      cases hpc : s.mgr.pc t with
      | collect x r cur i =>
          simp only [step, hpc, Option.ite_none_right_eq_some, Option.some.injEq] at hst
          obtain ⟨hguard, rfl⟩ := hst
          have ht : s.left t = none := h.left_none fun y => by simp [hpc, Pc.releases]
          -- the collector holds the item mutex, and its own release is not under way
          have hx := h.noneLeft_of_collect hinv ht hpc
          refine ⟨?_, h.put_heavy ht hx _ _ _⟩
          rw [settled_heavy ht hx]
          simp only [step, settled_pc ht, hpc, hx.item, h.holdsNodeList]
          exact if_pos hguard
      | _ => simp [step, hpc] at hst
  | collected t =>
      cases hpc : s.mgr.pc t with
      | collect x r cur i =>
          simp only [step, hpc, Option.ite_none_right_eq_some, Option.some.injEq] at hst
          obtain ⟨rfl, rfl⟩ := hst
          have ht : s.left t = none := h.left_none fun y => by simp [hpc, Pc.releases]
          have hx := h.noneLeft_of_collect hinv ht hpc
          refine ⟨?_, h.lockOutcome ht hx r cur _⟩
          rw [settled_lockOutcome ht hx]
          simp only [step, settled_pc ht, hpc, hx.item, if_true]
      | _ => simp [step, hpc] at hst
  | resume t =>
      cases hpc : s.mgr.pc t with
      | waitForLock x r cur new =>
          simp only [step, hpc, Option.ite_none_right_eq_some, Option.some.injEq] at hst
          obtain ⟨hguard, rfl⟩ := hst
          have hx := h.noneLeft_of_free hguard.1
          -- a waiter may release later, but it has begun no release
          have hrel : (s.mgr.pc t).releases x := by rw [hpc]; rfl
          have ht := h.left_none_of_releases hx hrel
          rw [resume_eq s.mgr t x r cur new]
          refine ⟨?_, h.lockOutcome ht hx r cur _⟩
          rw [settled_lockOutcome ht hx]
          simp only [step, settled_pc ht, hpc, hx.item]
          rw [if_pos hguard, resume_eq s.settled t x r cur new, hx.item]
      | _ => simp [step, hpc] at hst
  | waitFail t why => cases ha
  | unlockTable t x c l =>
      simp only [step, Option.ite_none_right_eq_some, Option.some.injEq] at hst
      obtain ⟨⟨hidle, hc, hl⟩, rfl⟩ := hst
      have ht : s.left t = none := h.left_none fun y => by simp [hidle, Pc.releases]
      have hring : (s.settled.item x).transLockNode t = (s.mgr.item x).transLockNode t :=
        finish_ring ht
      refine ⟨?_, ?_⟩
      · rw [settled_unlockTable ht]
        simp only [step, settled_pc ht, hring]
        exact if_pos ⟨hidle, hc, hl⟩
      · unfold State.unlockTable
        dsimp only
        split_ifs
        · exact h.put_light ht rfl _ _
        · exact h.put_light ht rfl _ _
  | unlockLight t =>
      cases hpc : s.mgr.pc t with
      | lightUnlock x c l =>
          simp only [step, hpc, Option.some.injEq] at hst
          subst hst
          have ht : s.left t = none := h.left_none fun y => by simp [hpc, Pc.releases]
          refine ⟨?_, h.put_light ht (lightEffect_unlockLight t c l _).1
            (removeLockSlot x c l (s.mgr.slots t)) _⟩
          rw [settled_unlockLight ht]
          simp only [step, settled_pc ht, hpc]
      | _ => simp [step, hpc] at hst
  | unlockInternal t => cases ha
  | initTransLockList t =>
      simp only [step, Option.ite_none_right_eq_some, Option.some.injEq] at hst
      obtain ⟨⟨hidle, hfree⟩, rfl⟩ := hst
      have ht : s.left t = none := h.left_none fun y => by simp [hidle, Pc.releases]
      refine ⟨?_, fun w u hw => h w u hw⟩
      rw [settled_reset ht]
      simp only [step, settled_pc ht]
      refine if_pos ⟨hidle, fun l hl => ?_⟩
      rw [show (s.settled.item l.item).transLockNode t = _ from finish_ring ht]
      exact hfree l hl

/-! ## §5. The two halves of a release. -/

/-- What `t` has left to do of another item does not show in an item. -/
theorem finish_update {left : TxSlot → Option Unlinking} {o : Option Unlinking} (it : LockItem)
    (hbefore : ∀ u, left t = some u → u.item ≠ x) (hafter : ∀ u, o = some u → u.item ≠ x) :
    finish (Function.update left t o) x it = finish left x it := by
  cases hmx : it.mutex with
  | none => rw [finish_of_free hmx, finish_of_free hmx]
  | some w =>
      by_cases hw : w = t
      · rw [hw] at hmx
        rw [finish_of_other hmx hbefore, finish_of_other hmx]
        intro u hu
        rw [Function.update_self] at hu
        exact hafter u hu
      · unfold finish
        simp only [hmx, Function.update_of_ne hw]

/-- The second half frees the mutex whoever holds it. -/
theorem complete_mutex (u : Unlinking) (t : TxSlot) (it : LockItem) (o : Option TxSlot) :
    u.complete t { it with mutex := o }
      = { (if u.doFree then it.removeLockNode u.node t else it) with mutex := none } := by
  unfold Unlinking.complete
  split <;> rfl

/-- A free mutex is freed. -/
theorem free_eq {it : LockItem} (h : it.mutex = none) : { it with mutex := none } = it := by
  cases it
  cases h
  rfl

/-- **After the first half** the release is over as soon as it is completed. -/
theorem settled_unlockUpToComplete (ht : s.left t = none) {it : LockItem} {l : Option LockMode}
    {rc : IdeRc} (hfree : (it.unlockTableInternal t c l).mutex = none) :
    (s.unlockUpToComplete t x it c l rc).settled
      = (s.settled.put t x (it.unlockTableInternal t c l)
          (removeLockSlot x c l (s.settled.slots t)) .idle).ret t rc := by
  have hleft : (s.unlockUpToComplete t x it c l rc).left t
      = some ⟨x, c, (it.unlockUpToComplete c l).1, rc⟩ := Function.update_self ..
  apply state_ext
  · intro y
    -- the items: at `x` the release is completed, the others do not have it
    show finish _ y (Function.update s.mgr.item x
        { (it.unlockUpToComplete c l).2 with mutex := some t } y)
      = Function.update s.settled.item x (it.unlockTableInternal t c l) y
    by_cases hy : y = x
    · subst hy
      rw [Function.update_self, Function.update_self, finish_of_left rfl hleft rfl,
        complete_mutex ⟨y, c, (it.unlockUpToComplete c l).1, rc⟩ t (it.unlockUpToComplete c l).2]
      dsimp only
      rw [← LockItem.unlockTableInternal_eq, free_eq hfree]
    · rw [Function.update_of_ne hy, Function.update_of_ne hy]
      refine finish_update _ (fun u hu => ?_) (fun u hu => ?_)
      · rw [ht] at hu
        cases hu
      · cases hu
        exact Ne.symm hy
  · rfl
  · intro v
    -- the counters
    show _ = Function.update s.settled.pc t .idle v
    by_cases hv : v = t
    · subst hv
      rw [Function.update_self, settled_pc_left hleft]
    · rw [Function.update_of_ne hv]
      exact (settled_congr s (s.unlockUpToComplete t x it c l rc) (Function.update_of_ne hv _ _)
        (Function.update_of_ne hv _ _) rfl).1
  · intro v
    -- the results
    show _ = Function.update s.settled.rc t rc v
    by_cases hv : v = t
    · subst hv
      rw [Function.update_self, settled_rc_left hleft]
    · rw [Function.update_of_ne hv]
      exact (settled_congr s (s.unlockUpToComplete t x it c l rc) (Function.update_of_ne hv _ _)
        (Function.update_of_ne hv _ _) rfl).2

/-- After the first half the transaction holds the mutex and stands where it began. -/
theorem LateState.Held.unlockUpToComplete (h : s.Held) (hmx : (s.mgr.item x).mutex = none)
    (hrel : (s.mgr.pc t).releases x) (it : LockItem) (c : NodeId) (l : Option LockMode)
    (rc : IdeRc) : (s.unlockUpToComplete t x it c l rc).Held := by
  intro w u hw
  by_cases hwt : w = t
  · subst hwt
    have hself : (s.unlockUpToComplete w x it c l rc).left w
        = some ⟨x, c, (it.unlockUpToComplete c l).1, rc⟩ := Function.update_self ..
    rw [hself] at hw
    cases hw
    constructor
    · show (Function.update s.mgr.item x
        { (it.unlockUpToComplete c l).2 with mutex := some w } x).mutex = some w
      rw [Function.update_self]
    · show (Function.update s.mgr.pc w (s.mgr.pc w) w).releases x
      rw [Function.update_self]
      exact hrel
  · have hw' : s.left w = some u := (Function.update_of_ne hwt _ _).symm.trans hw
    have hx : u.item ≠ x := h.noneLeft_of_free hmx w u hw'
    obtain ⟨hm, hp⟩ := h w u hw'
    refine ⟨(congrArg LockItem.mutex (Function.update_of_ne hx _ _)).trans hm, ?_⟩
    show (Function.update s.mgr.pc t (s.mgr.pc t) w).releases u.item
    rw [Function.update_of_ne hwt]
    exact hp

/-- **The second half** changes nothing once the release is completed. -/
theorem settled_unlockComplete (h : s.Held) {u : Unlinking} (ht : s.left t = some u) :
    (s.unlockComplete t u).settled = s.settled := by
  have hleft : (s.unlockComplete t u).left t = none := Function.update_self ..
  apply state_ext
  · intro y
    show finish (Function.update s.left t none) y (Function.update s.mgr.item u.item
        (u.complete t (s.mgr.item u.item)) y) = finish s.left y (s.mgr.item y)
    by_cases hy : y = u.item
    · subst hy
      rw [Function.update_self, finish_of_left (h t u ht).1 ht rfl]
      exact finish_of_free rfl
    · rw [Function.update_of_ne hy]
      refine finish_update _ (fun v hv => ?_) (fun v hv => ?_)
      · rw [ht] at hv
        cases hv
        exact Ne.symm hy
      · cases hv
  · funext v
    by_cases hv : v = t
    · subst hv
      exact Function.update_self ..
    · exact Function.update_of_ne hv _ _
  · intro v
    by_cases hv : v = t
    · subst hv
      rw [settled_pc hleft, settled_pc_left ht]
      exact Function.update_self ..
    · exact (settled_congr s (s.unlockComplete t u) (Function.update_of_ne hv _ _)
        (Function.update_of_ne hv _ _) (Function.update_of_ne hv _ _)).1
  · intro v
    by_cases hv : v = t
    · subst hv
      rw [settled_rc hleft, settled_rc_left ht]
      exact Function.update_self ..
    · exact (settled_congr s (s.unlockComplete t u) (Function.update_of_ne hv _ _)
        (Function.update_of_ne hv _ _) (Function.update_of_ne hv _ _)).2

/-- After the second half nobody else has lost a mutex. -/
theorem LateState.Held.unlockComplete (h : s.Held) {u : Unlinking} (ht : s.left t = some u) :
    (s.unlockComplete t u).Held := by
  intro w v hw
  have hwt : w ≠ t := by
    rintro rfl
    rw [show (s.unlockComplete w u).left w = none from Function.update_self ..] at hw
    cases hw
  have hw' : s.left w = some v := (Function.update_of_ne hwt _ _).symm.trans hw
  obtain ⟨hm, hp⟩ := h w v hw'
  -- two transactions do not hold the mutex of one item
  have hx : v.item ≠ u.item := by
    intro hx
    have ht' := (h t u ht).1
    rw [← hx, hm] at ht'
    exact hwt (Option.some.inj ht')
  refine ⟨(congrArg LockItem.mutex (Function.update_of_ne hx _ _)).trans hm, ?_⟩
  show (Function.update s.mgr.pc t .idle w).releases v.item
  rw [Function.update_of_ne hwt]
  exact hp

/-! ## §6. The refinement. -/

/-- After a release under the item mutex the mutex is free. -/
theorem mutex_of_inv {m m' : State} (h : Inv n False m) (h' : Inv n False m')
    (hmx : (m.item x).mutex = none) (hpc : ∀ w, w ≠ t → m'.pc w = m.pc w)
    (hidle : m'.pc t = .idle) : (m'.item x).mutex = none := by
  cases (h'.item x).phase with
  | light hl => exact hl.mutex
  | heavy hv => exact hv.mutex
  | collect w y q cur i _ hcol =>
      -- who collects now would have been collecting before
      by_cases hw : w = t
      · unfold State.pcAt at hcol
        rw [hw, hidle] at hcol
        cases hcol
      · refine absurd ?_ ((h.item x).no_collect hmx w y q cur i)
        unfold State.pcAt at hcol ⊢
        rwa [hpc w hw] at hcol

/-- **The first half is the release**, for the lock manager. -/
theorem reachable_unlockUpToComplete (h : s.Held) (hreach : (lockMgr n).Reachable s.settled)
    (ht : s.left t = none) (hmx : (s.mgr.item x).mutex = none) (hrel : (s.mgr.pc t).releases x)
    {it : LockItem} {l : Option LockMode} {rc : IdeRc} {a : Action}
    (hst : step n s.settled a = some ((s.settled.put t x (it.unlockTableInternal t c l)
      (removeLockSlot x c l (s.settled.slots t)) .idle).ret t rc)) :
    (s.unlockUpToComplete t x it c l rc).Held
      ∧ (lockMgr n).Reachable (s.unlockUpToComplete t x it c l rc).settled := by
  have hnext : (lockMgr n).Reachable _ := .tail hreach trivial hst
  have hmx' : (s.settled.item x).mutex = none := by
    rw [(h.noneLeft_of_free hmx).item]
    exact hmx
  have hfree := mutex_of_inv (x := x) (inv_reachable hreach) (inv_reachable hnext) hmx'
    (t := t) (fun w hw => Function.update_of_ne hw _ _) (Function.update_self ..)
  have hitem : (it.unlockTableInternal t c l).mutex = none :=
    (congrArg LockItem.mutex (Function.update_self ..)).symm.trans hfree
  -- completed, it is the state that the whole release leads to
  refine ⟨h.unlockUpToComplete hmx hrel it c l rc, ?_⟩
  rw [settled_unlockUpToComplete ht hitem]
  exact hnext

/-- **One step**: a whole action, the release for its first half, nothing for its
    second. -/
theorem lateMgr_step (h : s.Held) (hreach : (lockMgr n).Reachable s.settled) {a : LateAction}
    {s' : LateState} (hst : lateStep n s a = some s') :
    s'.Held ∧ (lockMgr n).Reachable s'.settled := by
  cases a with
  | mgr a =>
      simp only [lateStep] at hst
      split_ifs at hst with ha
      obtain ⟨m, hm, rfl⟩ := Option.map_eq_some_iff.mp hst
      obtain ⟨hstep, hheld⟩ := settled_step h (inv_reachable hreach) (by simpa using ha) hm
      exact ⟨hheld, .tail hreach trivial hstep⟩
  | unlockInternal t =>
      cases hpc : s.mgr.pc t with
      | unlockInternal x c l =>
          simp only [lateStep, hpc, Option.ite_none_right_eq_some, Option.some.injEq] at hst
          obtain ⟨hmx, rfl⟩ := hst
          have hx := h.noneLeft_of_free hmx
          have hrel : (s.mgr.pc t).releases x := by rw [hpc]; rfl
          have ht := h.left_none_of_releases hx hrel
          refine reachable_unlockUpToComplete (a := .unlockInternal t) h hreach ht hmx hrel ?_
          simp only [step, settled_pc ht, hpc, hx.item]
          exact if_pos hmx
      | _ => simp [lateStep, hpc] at hst
  | waitFail t why =>
      cases hpc : s.mgr.pc t with
      | waitForLock x r cur new =>
          simp only [lateStep, hpc, Option.ite_none_right_eq_some, Option.some.injEq] at hst
          obtain ⟨hguard, rfl⟩ := hst
          have hx := h.noneLeft_of_free hguard.1
          have hrel : (s.mgr.pc t).releases x := by rw [hpc]; rfl
          have ht := h.left_none_of_releases hx hrel
          refine reachable_unlockUpToComplete (a := .waitFail t why) h hreach ht hguard.1 hrel ?_
          simp only [step, settled_pc ht, hpc, hx.item]
          rw [if_pos hguard]
          unfold State.waitFail
          rw [hx.item]
          rfl
      | _ => simp [lateStep, hpc] at hst
  | unlockComplete t =>
      -- the release has been counted as done since its first half
      obtain ⟨u, hu, rfl⟩ := Option.map_eq_some_iff.mp hst
      refine ⟨h.unlockComplete hu, ?_⟩
      rw [settled_unlockComplete h hu]
      exact hreach

/-- **`lateMgr` refines `lockMgr`**: with the releases that have begun completed, a
    reachable state is reachable by whole releases. -/
theorem lateMgr_refines (h : (lateMgr n).Reachable s) :
    s.Held ∧ (lockMgr n).Reachable s.settled := by
  refine h.refine (f := LateState.settled) ?_ ?_ fun _ _ _ hh hr hst => lateMgr_step hh hr hst
  · rfl
  · intro t u hu
    cases hu

end Settled

/-! ## §7. Compatible holders. -/

/-- The transaction has released the node `c`, which has left the lists of the item, and
    is about to unlink it. -/
def LateState.BeingUnlinked (s : LateState) (t : TxSlot) (x : ItemId) (c : NodeId) : Prop :=
  ∃ u, s.left t = some u ∧ u.item = x ∧ u.node = c ∧ u.doFree = true

/-- A granted node stays one when the release under way is completed, unless it is the
    one that is released. -/
theorem granted_settled {s : LateState} (hc : (s.mgr.item x).Granted t c)
    (hnot : ¬ s.BeingUnlinked t x c) : (s.settled.item x).Granted t c := by
  rcases finish_cases s.left x (s.mgr.item x) with heq | ⟨w, u, -, hw, hx, heq⟩
  · rw [show s.settled.item x = s.mgr.item x from heq]
    exact hc
  · rw [show s.settled.item x = u.complete w (s.mgr.item x) from heq]
    unfold LockItem.Granted at hc ⊢
    rw [complete_nodes]
    rcases hc with hc | hc
    · -- in the ring: only its own transaction could unlink it
      left
      by_cases hwt : t = w
      · subst hwt
        unfold Unlinking.complete
        split
        · next hfree =>
          have hne : c ≠ u.node := fun hcu => hnot ⟨u, hw, hx, hcu.symm, hfree⟩
          show c ∈ Function.update (s.mgr.item x).transLockNode t _ t
          rw [Function.update_self]
          exact (List.mem_erase_of_ne hne).2 hc
        · exact hc
      · rw [complete_ring u w _ hwt]
        exact hc
    · -- in the grant list, which the second half does not touch
      right
      refine ⟨?_, hc.2⟩
      unfold Unlinking.complete
      split
      · exact hc.1
      · exact hc.1

/-- **Distinct holders of an item hold compatible modes**, in every reachable state, but
    for a node that has been released and is only still linked. -/
theorem holders_compatible {s : LateState} (h : (lateMgr n).Reachable s) (x : ItemId) (htu : t ≠ u)
    {d : NodeId} (hc : (s.mgr.item x).Granted t c) (hd : (s.mgr.item x).Granted u d)
    (hct : ¬ s.BeingUnlinked t x c) (hdu : ¬ s.BeingUnlinked u x d) :
    compatibleTBL ((s.mgr.item x).nodes c).lockMode ((s.mgr.item x).nodes d).lockMode = true := by
  have hcompat := granted_compatible (lateMgr_refines h).2 x htu (granted_settled hc hct)
    (granted_settled hd hdu)
  rwa [show (s.settled.item x).nodes = (s.mgr.item x).nodes from finish_nodes] at hcompat

/-- Transaction 0 converts its IS lock to X and releases it up to `unlock_COMPLETE`;
    transaction 1 takes an IX lock and transaction 2 an IS lock. -/
def releaseRun : List LateAction :=
  [.mgr (.lockTable 0 0 ⟨.islock, 0, false⟩ true), .mgr (.lockLight 0),
    .mgr (.lockTable 0 0 ⟨.xlock, 0, false⟩ true), .mgr (.lockInternal 0), .mgr (.collect 0),
    .mgr (.collect 0), .mgr (.collect 0), .mgr (.collected 0),
    .mgr (.unlockTable 0 0 0 none), .unlockInternal 0,
    .mgr (.lockTable 1 0 ⟨.ixlock, 0, false⟩ true), .mgr (.lockLight 1),
    .mgr (.lockTable 2 0 ⟨.islock, 0, false⟩ true), .mgr (.lockLight 2)]

/-- The run can be made. -/
theorem releaseRun_isSome : ((lateMgr 3).run LateState.init releaseRun).isSome = true := by
  decide

/-- The holders that `releaseRun` adds are compatible. -/
theorem holders_compatible_releaseRun :
    compatibleTBL ((((lateMgr 3).after releaseRun releaseRun_isSome).mgr.item 0).nodes 1).lockMode
      ((((lateMgr 3).after releaseRun releaseRun_isSome).mgr.item 0).nodes 2).lockMode = true := by
  have hdone : ∀ t c, ((lateMgr 3).after releaseRun releaseRun_isSome).left t = none →
      ¬ ((lateMgr 3).after releaseRun releaseRun_isSome).BeingUnlinked t 0 c := by
    rintro t c hnone ⟨u, hu, -⟩
    rw [hnone] at hu
    cases hu
  exact holders_compatible (System.reachable_after (lateMgr 3) releaseRun releaseRun_isSome) 0
    (t := 1) (u := 2) (by decide) (Or.inl (by decide)) (Or.inl (by decide))
    (hdone 1 1 (by decide)) (hdone 2 2 (by decide))

/-- **Two holders that are not compatible**: the X lock of transaction 0 is off the lists
    of the item, but its granted node still hangs from the transaction's own list when
    transaction 1 has its IX lock. -/
theorem holders_not_compatible :
    ∃ s, (lateMgr 3).Reachable s
      ∧ (s.mgr.item 0).Granted 0 0 ∧ ((s.mgr.item 0).nodes 0).beGrant = true
      ∧ (s.mgr.item 0).Granted 1 1 ∧ ((s.mgr.item 0).nodes 1).beGrant = true
      ∧ compatibleTBL ((s.mgr.item 0).nodes 0).lockMode ((s.mgr.item 0).nodes 1).lockMode = false :=
  ⟨(lateMgr 3).after releaseRun releaseRun_isSome,
    System.reachable_after (lateMgr 3) releaseRun releaseRun_isSome,
    Or.inl (by decide), by decide, Or.inl (by decide), by decide, by decide⟩

end Altibase.Sml
