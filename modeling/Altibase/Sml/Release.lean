/-
  Altibase.Sml.Release
  ────────────────────
  **A RELEASE IS A WITHDRAWAL FOLLOWED BY A WAKE-UP.**

  `unlockTableInternal` releases a slot, a granted node or a waiting request.
  Whatever it releases, and in light and heavy mode alike, on the lock queue of
  the item it is `withdraw` followed by `wake` (`Released`); the transactions
  that are not woken do not notice.

    * `released_unlock` — a slot or a granted node is released;
    * `released_waitFail` — a wait is given up: the request is still queued, or
      it was granted behind its owner's back;
    * `walkAway_waitFail` — a wait is given up after the request was merged into
      the node it converts: nothing is taken back.
-/
import Altibase.Sml.ItemSteps

namespace Altibase.Sml

open Altibase.Lib

variable {n : Nat} {clean : Prop} {s s' : LockItem} {pc : TxSlot → Pc}
  {sl : TxSlot → NodeId → List LockMode} {t : TxSlot} {c : NodeId}

/-! ## §1. Back to light mode, or a wake-up. -/

/-- The step of `t` leaves every transaction alone that it does not wake up. -/
def Frame (s s' : LockItem) (t : TxSlot) : Prop :=
  ∀ u, u ≠ t → (∀ r ∈ s.request, (s.nodes r).slotID = u → r ∈ s'.request) → AgreeOn s s' u

theorem Frame.of_agree (h : ∀ u, u ≠ t → AgreeOn s s' u) : Frame s s' t :=
  fun u hu _ => h u hu

/-- **The end of a heavy release** restores the invariant, whatever was released. -/
theorem inv_toLightOrWakeup (h : Own n clean s pc sl) (hv : Heavy s) (hsafe : Safe s.held)
    (hq : Quiet pc) :
    ItemInv n clean s.toLightOrWakeup pc sl ∧ s.toLightOrWakeup.queue = s.queue.wake := by
  obtain ⟨hwk, hph⟩ := toLightOrWakeup_spec h hv
  have hqueue := hwk.queue_eq_wake
  refine ⟨.of_quiet hwk.own ?_ ?_ hq, hqueue⟩
  · have hheld : s.toLightOrWakeup.held = s.queue.wake.held := by
      rw [← hqueue]
      rfl
    rw [hheld]
    exact safe_wakeList _ _ hsafe
  · rcases hph with hl | ⟨hv', hd⟩
    · exact .light hl
    · refine .heavy hv' hd ?_
      rw [hqueue]
      exact settled_wake _

/-- What a release by `t` that keeps the mode `m` does. -/
structure Released (n : Nat) (clean : Prop) (pc : TxSlot → Pc)
    (sl : TxSlot → NodeId → List LockMode) (s : LockItem) (t : TxSlot)
    (slt : NodeId → List LockMode) (m : LockMode) (s' : LockItem) : Prop where
  inv : ItemInv n clean s' (Function.update pc t .idle) (Function.update sl t slt)
  queue : s'.queue = (s.queue.withdraw t m).wake
  frame : Frame s s' t

/-! ## §2. A slot or a granted node. -/

/-- The lock queue after the ring and the node of a transaction were changed. -/
theorem queue_of_agree {m : LockMode} (h : Own n clean s pc sl)
    (hheld : s'.held = Function.update s.held t m) (hreq : s'.request = s.request)
    (hagree : ∀ u, u ≠ t → AgreeOn s s' u) (hno : ∀ r ∈ s.request, (s.nodes r).slotID ≠ t) :
    s'.queue = s.queue.withdraw t m := by
  unfold LockItem.queue LockQueue.withdraw
  rw [hheld, hreq]
  congr 1
  rw [List.filter_eq_self.2]
  · refine List.map_congr_left fun r hr => ?_
    obtain ⟨_, _, _, _, _, hlt, _⟩ := h.waiter hr
    rw [(hagree _ (hno r hr)).nodes r hlt rfl]
  · intro r' hr'
    obtain ⟨r, hr, rfl⟩ := List.mem_map.1 hr'
    simpa using hno r hr

theorem queue_unlockLight (h : Own n clean s pc sl) {l : Option LockMode}
    (hrel : Releasable s t c l (sl t)) :
    (s.unlockLight t c l).queue = s.queue.withdraw t (keptMode (s.nodes c).flag l) :=
  queue_of_agree h (held_unlockLight h hrel.mem l) (request_unlockLight s t c l)
    (fun _ hu => agreeOn_unlockLight h hrel.mem l hu) hrel.notOwner

/-- The heavy release with the ring link removed before the wake-up. -/
theorem unlockTableInternal_heavy (h : Own n clean s pc sl) (hv : Heavy s)
    {l : Option LockMode} (hrel : Releasable s t c l (sl t)) :
    s.unlockTableInternal t c l = LockItem.toLightOrWakeup
      (if (s.releaseHeavy c l).1 then (s.releaseHeavy c l).2.removeLockNode c t
        else (s.releaseHeavy c l).2) := by
  have hgc := (h.tx t).node c hrel.mem
  obtain ⟨hsame, -⟩ := releaseHeavy_spec h hv hrel.mem l
  have hf : s.flag ≠ flagLightMode := hv.group.flag_ne_light
  unfold LockItem.unlockTableInternal
  simp only [hgc.doRemove, hf, Bool.false_eq_true, if_false]
  cases hfree : (s.releaseHeavy c l).1 with
  | false => rfl
  | true =>
      rw [hfree, if_pos rfl] at hsame
      show LockItem.removeLockNode _ c t = _
      rw [if_pos rfl, toLightOrWakeup_removeLockNode]
      -- no waiting node is one of the releasing transaction
      intro r hr
      have hr' : r ∈ s.request := by
        rw [← request_unlockLight s t c l, ← hsame.request]
        exact hr
      obtain ⟨_, _, _, _, _, hlt, _⟩ := h.waiter hr'
      have hnode : (s.releaseHeavy c l).2.nodes r = s.nodes r :=
        (congrFun hsame.nodes r).trans
          ((agreeOn_unlockLight h hrel.mem l (hrel.notOwner r hr')).nodes r hlt rfl)
      rw [hnode]
      exact hrel.notOwner r hr'

/-- **A slot or a granted node is released under the item mutex.** -/
theorem released_unlock (h : ItemInv n clean s pc sl) (hmx : s.mutex = none)
    {l : Option LockMode} (hrel : Releasable s t c l (sl t)) :
    Released n clean pc sl s t (slRemove (sl t) c l) (keptMode (s.nodes c).flag l)
      (s.unlockTableInternal t c l) := by
  have hgc := (h.own.tx t).node c hrel.mem
  have hqueue := queue_unlockLight h.own hrel
  have hagree : ∀ u, u ≠ t → AgreeOn s (s.unlockLight t c l) u :=
    fun u hu => agreeOn_unlockLight h.own hrel.mem l hu
  by_cases hf : s.flag = flagLightMode
  · -- the item went light in the meantime: nobody waits
    have hl := h.phase.light_of_flag hf
    have hdef : s.unlockTableInternal t c l = s.unlockLight t c l := by
      unfold LockItem.unlockTableInternal
      simp [hgc.doRemove, hf]
    rw [hdef]
    refine ⟨inv_unlockLight h hrel (h.no_collect hmx t) (Or.inl hf), ?_, .of_agree hagree⟩
    have hnil : (s.queue.withdraw t (keptMode (s.nodes c).flag l)).waiting = [] := by
      unfold LockItem.queue LockQueue.withdraw
      rw [hl.request]
      rfl
    rw [hqueue, wake_of_settled]
    intro r hr
    rw [hnil] at hr
    cases hr
  · obtain ⟨hv, -, -⟩ := h.phase.heavy_of_flag hmx hf
    -- the node leaves the group, then the test for light mode, or the waiters are woken
    obtain ⟨hsame, hv₂⟩ := releaseHeavy_spec h.own hv hrel.mem l
    rw [unlockTableInternal_heavy h.own hv hrel]
    have hown := (own_unlockLight h.own hrel).of_same hsame
    have hsafe := safe_mono h.safe (held_unlockLight_le h.own hrel.mem l)
    have hq : Quiet (Function.update pc t .idle) :=
      (h.quiet hmx hf).update' rfl (fun _ _ _ _ => by simp)
    obtain ⟨hinv, hw⟩ := inv_toLightOrWakeup hown hv₂ (by rw [hsame.held]; exact hsafe) hq
    obtain ⟨hwk, -⟩ := toLightOrWakeup_spec hown hv₂
    refine ⟨hinv, ?_, fun u hu hkept => ?_⟩
    · rw [hw, ← hqueue]
      unfold LockItem.queue
      rw [hsame.held, hsame.request, hsame.nodes]
    · refine ((hagree u hu).trans (.of_same hsame u)).trans (hwk.frame u fun r hr hru => ?_)
      rw [hsame.request, request_unlockLight] at hr
      obtain ⟨_, _, _, _, _, hlt, _⟩ := h.own.waiter hr
      refine hkept r hr ?_
      rw [hsame.nodes, (hagree _ (hrel.notOwner r hr)).nodes r hlt rfl] at hru
      exact hru

/-- What the releasing transaction itself is left with. -/
theorem agreeOn_unlock_self (h : ItemInv n clean s pc sl) (hmx : s.mutex = none)
    {l : Option LockMode} (hrel : Releasable s t c l (sl t)) :
    AgreeOn (s.unlockLight t c l) (s.unlockTableInternal t c l) t := by
  have hgc := (h.own.tx t).node c hrel.mem
  by_cases hf : s.flag = flagLightMode
  · have hdef : s.unlockTableInternal t c l = s.unlockLight t c l := by
      unfold LockItem.unlockTableInternal
      simp [hgc.doRemove, hf]
    rw [hdef]
    exact .refl _ t
  · obtain ⟨hv, -, -⟩ := h.phase.heavy_of_flag hmx hf
    obtain ⟨hsame, hv₂⟩ := releaseHeavy_spec h.own hv hrel.mem l
    have hown := (own_unlockLight h.own hrel).of_same hsame
    obtain ⟨hwk, -⟩ := toLightOrWakeup_spec hown hv₂
    rw [unlockTableInternal_heavy h.own hv hrel]
    refine (AgreeOn.of_same hsame t).trans (hwk.frame t fun r hr hrt => absurd hrt ?_)
    rw [hsame.request, request_unlockLight] at hr
    obtain ⟨_, _, _, _, _, hlt, _⟩ := h.own.waiter hr
    have hno := hrel.notOwner r hr
    rw [hsame.nodes, (agreeOn_unlockLight h.own hrel.mem l hno).nodes r hlt rfl]
    exact hno

/-! ## §3. A wait that is given up. -/

theorem resumeTrans_of_not_blocked (hb : s.blocked t = false) : s.resumeTrans t = s := by
  unfold LockItem.resumeTrans
  rw [← hb, Function.update_eq_self]

theorem removeLockNode_of_not_mem (hc : c ∉ s.transLockNode t) : s.removeLockNode c t = s := by
  unfold LockItem.removeLockNode
  rw [List.erase_of_not_mem hc, Function.update_eq_self]

/-- The request list without the only request of `t`. -/
theorem erase_eq_filter (h : Own n clean s pc sl) {r : NodeId} (hr : r ∈ s.request)
    (ht : (s.nodes r).slotID = t) :
    (s.request.erase r).map s.requestOf
      = (s.request.map s.requestOf).filter (fun q => q.owner ≠ t) := by
  rw [List.filter_map, h.reqNodup.erase_eq_filter]
  refine congrArg (List.map s.requestOf) (List.filter_congr fun d hd => ?_)
  by_cases hdr : d = r
  · subst hdr
    simp [LockItem.requestOf, ht]
  · have hdt : (s.nodes d).slotID ≠ t := fun e => hdr (h.eq_of_slotID hd hr (e.trans ht.symm))
    simp [LockItem.requestOf, hdr, hdt]

/-- The item after a queued request was taken off the list. -/
def LockItem.dropRequest (s : LockItem) (t : TxSlot) (new : NodeId) : LockItem :=
  { (s.resumeTrans t).removeRequest new with requestCnt := s.requestCnt - 1 }

/-- Who is left in the list after a request was taken off it. -/
theorem mem_dropRequest (h : Own n clean s pc sl) {r new : NodeId} (hreq : new ∈ s.request)
    (hslot : (s.nodes new).slotID = t) (hr : r ∈ (s.dropRequest t new).request) :
    r ∈ s.request ∧ (s.nodes r).slotID ≠ t := by
  have hr' : r ∈ s.request.erase new := hr
  refine ⟨List.mem_of_mem_erase hr', fun hrt => ?_⟩
  rw [h.eq_of_slotID (List.mem_of_mem_erase hr') hreq (hrt.trans hslot.symm)] at hr'
  exact h.reqNodup.not_mem_erase hr'

/-- `unlockTableInternal` of a queued request. -/
theorem unlockTableInternal_giveUp (h : Own n clean s pc sl) {new : NodeId}
    (hreq : new ∈ s.request) (hslot : (s.nodes new).slotID = t) (hf : s.flag ≠ flagLightMode) :
    (s.resumeTrans t).unlockTableInternal t new none
      = (s.dropRequest t new).toLightOrWakeup := by
  obtain ⟨_, q, cur, -, -, -, -, -, -, hnode⟩ := h.waiter hreq
  have hbg : ((s.resumeTrans t).nodes new).beGrant = false := by
    show (s.nodes new).beGrant = false
    rw [hnode]
    rfl
  have hdr : ((s.resumeTrans t).nodes new).doRemove = false := by
    show (s.nodes new).doRemove = false
    rw [hnode]
    rfl
  have hf' : (s.resumeTrans t).flag ≠ flagLightMode := hf
  have hnotring : new ∉ (s.dropRequest t new).transLockNode t :=
    fun hc => h.ne_of_mem_request (t := t) hc hreq rfl
  unfold LockItem.unlockTableInternal LockItem.releaseHeavy
  simp only [hdr, hbg, hf', Bool.false_eq_true, if_false, if_true]
  show LockItem.removeLockNode (LockItem.toLightOrWakeup (s.dropRequest t new)) new t = _
  rw [← toLightOrWakeup_removeLockNode (fun r hr => (mem_dropRequest h hreq hslot hr).2),
    removeLockNode_of_not_mem hnotring]

theorem Heavy.dropRequest (hv : Heavy s) {new : NodeId} (hreq : new ∈ s.request) :
    Heavy (s.dropRequest t new) := by
  refine ⟨hv.mutex, hv.group, hv.mem, ?_⟩
  show s.requestCnt - 1 = ((s.request.erase new).length : Int)
  have hpos := List.length_pos_of_mem hreq
  rw [List.length_erase_of_mem hreq, hv.reqCnt]
  omega

/-- **A queued request is taken back.** -/
theorem released_giveUp (h : ItemInv n clean s pc sl) (hmx : s.mutex = none) {x : ItemId}
    {q : LockReq} {cur : Option NodeId} {new : NodeId} (hpc : pc t = .waitForLock x q cur new)
    (hreq : new ∈ s.request) :
    Released n clean pc sl s t (sl t) (s.held t)
      ((s.resumeTrans t).unlockTableInternal t new none) := by
  have hslot : (s.nodes new).slotID = t := by
    have hat := (h.own.tx t).pc
    rw [hpc] at hat
    exact hat.2.2.2.slotID
  -- a light item has no requests
  have hf : s.flag ≠ flagLightMode := by
    intro hf
    rw [(h.phase.light_of_flag hf).request] at hreq
    cases hreq
  obtain ⟨hv, -, -⟩ := h.phase.heavy_of_flag hmx hf
  have hown : Own n clean (s.dropRequest t new) (Function.update pc t .idle) sl :=
    (own_giveUp h.own hpc hreq).of_same ⟨rfl, rfl, rfl, rfl, rfl⟩
  have hv₂ : Heavy (s.dropRequest t new) := hv.dropRequest hreq
  have hheld : (s.dropRequest t new).held = s.held := rfl
  have hq : Quiet (Function.update pc t .idle) :=
    (h.quiet hmx hf).update' rfl (fun _ _ _ _ => by simp)
  -- the others do not see that the request is gone
  have hagree : ∀ u, u ≠ t → AgreeOn s (s.dropRequest t new) u := by
    intro u hu
    refine ⟨rfl, fun _ _ _ => rfl, fun d _ hd => List.mem_erase_of_ne ?_,
      Function.update_of_ne hu _ _, le_rfl⟩
    intro hdn
    rw [hdn, hslot] at hd
    exact hu hd.symm
  -- then the test for light mode, or the waiters are woken
  obtain ⟨hinv, hw⟩ := inv_toLightOrWakeup hown hv₂ (by rw [hheld]; exact h.safe) hq
  obtain ⟨hwk, -⟩ := toLightOrWakeup_spec hown hv₂
  rw [unlockTableInternal_giveUp h.own hreq hslot hf]
  refine ⟨?_, ?_, fun u hu hkept => (hagree u hu).trans (hwk.frame u fun r hr hru => ?_)⟩
  · rw [Function.update_eq_self]
    exact hinv
  · rw [hw]
    congr 1
    unfold LockQueue.withdraw
    show LockQueue.mk (s.dropRequest t new).held _
      = LockQueue.mk (Function.update s.held t (s.held t)) _
    rw [hheld, Function.update_eq_self]
    congr 1
    exact erase_eq_filter h.own hreq hslot
  · exact hkept r (mem_dropRequest h.own hreq hslot hr).1 hru

/-- What the transaction itself is left with. -/
theorem agreeOn_giveUp_self (h : ItemInv n clean s pc sl) (hmx : s.mutex = none) {x : ItemId}
    {q : LockReq} {cur : Option NodeId} {new : NodeId} (hpc : pc t = .waitForLock x q cur new)
    (hreq : new ∈ s.request) (hslot : (s.nodes new).slotID = t) :
    AgreeOn (s.dropRequest t new) ((s.resumeTrans t).unlockTableInternal t new none) t := by
  have hf : s.flag ≠ flagLightMode := by
    intro hf
    rw [(h.phase.light_of_flag hf).request] at hreq
    cases hreq
  obtain ⟨hv, -, -⟩ := h.phase.heavy_of_flag hmx hf
  have hown : Own n clean (s.dropRequest t new) (Function.update pc t .idle) sl :=
    (own_giveUp h.own hpc hreq).of_same ⟨rfl, rfl, rfl, rfl, rfl⟩
  obtain ⟨hwk, -⟩ := toLightOrWakeup_spec hown (hv.dropRequest hreq)
  rw [unlockTableInternal_giveUp h.own hreq hslot hf]
  exact hwk.frame t fun r hr hrt => absurd hrt (mem_dropRequest h.own hreq hslot hr).2

/-- **A wait is given up before its conversion was merged**: the request leaves
    the queue, or the node that was granted behind its owner's back goes. -/
theorem released_waitFail (h : ItemInv n clean s pc sl) (hmx : s.mutex = none) {x : ItemId}
    {q : LockReq} {cur : Option NodeId} {new : NodeId} (hpc : pc t = .waitForLock x q cur new)
    (hnm : (s.nodes new).doRemove = false) :
    Released n clean pc sl s t (sl t) (if new ∈ s.request then s.held t else .nlock)
      ((s.resumeTrans t).unlockTableInternal t new none) := by
  have hat := (h.own.tx t).pc
  rw [hpc] at hat
  obtain ⟨-, -, -, hw⟩ := hat
  cases hw with
  | blocked hreq =>
      rw [if_pos hreq]
      exact released_giveUp h hmx hpc hreq
  | granted hreq hb _ hring _ =>
      have hmem : new ∈ s.transLockNode t := by rw [hring]; exact List.mem_singleton_self new
      rw [if_neg hreq, resumeTrans_of_not_blocked hb]
      refine released_unlock (l := none) h hmx ⟨hmem, fun r hr hrt => ?_, fun m hm => by cases hm⟩
      obtain ⟨x', q', cur', hp⟩ := h.own.req r hr
      rw [hrt, hpc] at hp
      cases hp
      exact hreq hr
  | merged c _ _ _ _ _ hnode =>
      rw [hnode] at hnm
      cases hnm

/-- **A wait is given up after its conversion was merged**: the item stays as it
    is, with the merged mode on the converted node. -/
theorem walkAway_waitFail (h : ItemInv n clean s pc sl) (hmx : s.mutex = none) {x : ItemId}
    {q : LockReq} {cur : Option NodeId} {new : NodeId} (hpc : pc t = .waitForLock x q cur new)
    (hm : (s.nodes new).doRemove = true) :
    (s.resumeTrans t).unlockTableInternal t new none = s
      ∧ (¬ clean → ItemInv n clean s (Function.update pc t .idle) sl) := by
  have hat := (h.own.tx t).pc
  rw [hpc] at hat
  obtain ⟨-, -, -, hw⟩ := hat
  cases hw with
  | blocked _ _ _ hnode => rw [hnode] at hm; cases hm
  | granted _ _ _ _ hnode => rw [hnode] at hm; cases hm
  | merged c hreq hb hcur hring _ hnode =>
      have hnc : new ∉ s.transLockNode t := by
        intro hmem
        have := ((h.own.tx t).node new hmem).doRemove
        rw [hm] at this
        cases this
      refine ⟨?_, fun hcl => ?_⟩
      · rw [resumeTrans_of_not_blocked hb]
        unfold LockItem.unlockTableInternal
        rw [if_pos hm, removeLockNode_of_not_mem hnc]
      · subst hcur
        have hnotc : ∀ x q cur i, pc t ≠ .collect x q cur i := h.no_collect hmx t
        obtain ⟨hcol, hlight⟩ := h.positions s (p := .idle) (t := t) rfl rfl hnotc
          (fun _ _ _ _ => by simp) (fun hp => by cases hp)
        exact ⟨own_walkAway h.own hcl hpc hreq, h.safe, h.phase.congr_pc hnotc .idle, hcol, hlight⟩

end Altibase.Sml
