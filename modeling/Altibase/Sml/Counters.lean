/-
  Altibase.Sml.Counters
  ─────────────────────
  **IN HEAVY MODE THE COUNTERS, FLAGS AND MODES OF AN ITEM ARE RIGHT.**

  `heavy_counters` is about every run.  A waiting transaction that has been
  handed its lock, but has not run yet, is visible in its node: the slot of the
  request is linked only when the transaction resumes.  `wokenRun` is such a
  state.
-/
import Altibase.Sml.LockInv

namespace Altibase.Sml

open Altibase.Lib

variable {n : Nat} {s : State} {t : TxSlot} {c : NodeId}

/-! ## §1. What the counters should say. -/

/-- The counters and the flag of an item summarise its two lists. -/
structure Counted (s : LockItem) : Prop where
  grantCnt : s.grantCnt = s.grant.length
  requestCnt : s.requestCnt = s.request.length
  count : ∀ m, s.arrLockCount m = (s.grant.map (fun c => (s.nodes c).lockMode)).count m
  bit : ∀ m, m ≠ .nlock → (s.flag &&& lockModeToMask m ≠ 0 ↔ 0 < s.arrLockCount m)
  decision : s.grantLockMode = getDecision s.flag
  join : s.grantLockMode = joinOf (s.grant.map (fun c => (s.nodes c).lockMode))

/-- The node's flag is the union of the masks of the slots its transaction holds on it. -/
def FlagIsSlots (s : State) (x : ItemId) (t : TxSlot) (c : NodeId) : Prop :=
  ((s.item x).nodes c).flag = maskOf (slotModes x c (s.slots t))

/-- The node's mode is the decision of its flag. -/
def ModeIsDecision (s : State) (x : ItemId) (c : NodeId) : Prop :=
  ((s.item x).nodes c).lockMode = getDecision ((s.item x).nodes c).flag

/-- `c` was granted to `t` while it waits for its first lock on the item: the flag is
    the mask of the requested mode, whose slot is not linked yet. -/
def GrantedAsleep (s : State) (x : ItemId) (t : TxSlot) (c : NodeId) : Prop :=
  ∃ q, s.pc t = .waitForLock x q none c ∧ slotModes x c (s.slots t) = []
    ∧ ((s.item x).nodes c).flag = lockModeToMask q.lockMode

/-- The request of `t` was merged into `c` while `t` waits: the mode has the requested
    mode joined in, the flag has not. -/
def MergedAsleep (s : State) (x : ItemId) (t : TxSlot) (c : NodeId) : Prop :=
  ∃ q new, s.pc t = .waitForLock x q (some c) new ∧ new ∉ (s.item x).request
    ∧ ((s.item x).nodes c).lockMode = getDecision ((s.item x).nodes c).flag ⊔ q.lockMode

theorem Group.counted {s : LockItem}
    (h : Group s.grant s.grantCnt s.arrLockCount s.flag s.grantLockMode
      (fun c => (s.nodes c).lockMode)) (hreq : s.requestCnt = s.request.length) : Counted s where
  grantCnt := h.cnt
  requestCnt := hreq
  count := h.tally.count
  bit m hm := by
    rw [h.tally.flag, maskOf_bit hm, h.tally.count m]
    have hpos := List.count_pos_iff (a := m) (l := s.grant.map fun c => (s.nodes c).lockMode)
    rw [← hpos]
    omega
  decision := h.group_eq_decision
  join := h.group

/-- A transaction that waits at an item waits for a lock of that item. -/
theorem pc_of_pcAt {x y : ItemId} {q : LockReq} {cur : Option NodeId} {new : NodeId}
    (h : s.pcAt x t = .waitForLock y q cur new) : s.pc t = .waitForLock x q cur new := by
  unfold State.pcAt at h
  rcases atItem_cases x (s.pc t) with hself | hidle
  · rw [hself] at h
    rw [h] at hself ⊢
    have hyx : y = x := by
      by_contra hne
      simp [Pc.atItem, hne] at hself
    rw [hyx]
  · rw [hidle] at h
    cases h

/-- **The counters, the flags and the modes of an item in heavy mode.**  Everywhere the
    counters summarise the lists, slot lists are in order, and a granted node's flag is
    the union of its slots' masks unless it was granted to a sleeper; where no wait was
    given up after its conversion was merged, a granted node's mode is the decision of
    its flag unless a sleeper's request was merged into it. -/
theorem heavy_counters (h : (lockMgr n).Reachable s) (x : ItemId)
    (hf : (s.item x).flag ≠ flagLightMode) :
    Counted (s.item x)
      ∧ (∀ t, SlotsOrdered (s.slots t))
      ∧ (∀ t, ∀ c ∈ (s.item x).transLockNode t, FlagIsSlots s x t c ∨ GrantedAsleep s x t c)
      ∧ ((lockMgr n).ReachableBy (fun u a => ¬ GivesUpMerged u a) s →
        ∀ t, ∀ c ∈ (s.item x).transLockNode t, ModeIsDecision s x c ∨ MergedAsleep s x t c) := by
  have hinv := inv_reachable h
  have hx := hinv.item x
  refine ⟨?_, hinv.slots, fun t c hc => ?_, fun hclean t c hc => ?_⟩
  · cases hx.phase with
    | light hl => exact absurd hl.flag hf
    | collect _ _ _ _ _ _ _ hgroup _ hreq hcnt =>
        refine hgroup.counted ?_
        rw [hcnt, hreq]
        rfl
    | heavy hv => exact hv.group.counted hv.reqCnt
  · rcases (hx.own.tx t).slotFlag c hc with hfl | ⟨hnil, y, q, hp⟩
    · exact Or.inl hfl
    · refine Or.inr ⟨q, pc_of_pcAt hp, hnil, ?_⟩
      have hat := hx.own.pcAt hp
      obtain ⟨-, -, -, hw⟩ := hat
      cases hw with
      | blocked _ _ _ hnode => rw [hnode]; rfl
      | granted _ _ _ _ hnode => rw [hnode]; rfl
      | merged d _ _ hcur => cases hcur
  · have hy := (inv_clean hclean).item x
    rcases (hy.own.tx t).exact trivial c hc with he | ⟨y, q, new, hp, hreq, he⟩
    · exact Or.inl he
    · exact Or.inr ⟨q, new, pc_of_pcAt hp, hreq, he⟩

/-! ## §2. A sleeper that holds its lock. -/

/-- Transaction 1 waits for an S lock beside the X lock of transaction 0, which then
    releases its node. -/
def wokenRun : List Action :=
  [.lockTable 0 0 ⟨.xlock, 0, false⟩ true, .lockInternal 0, .collect 0, .collect 0, .collected 0,
    .lockTable 1 0 ⟨.slock, 1, false⟩ true, .lockInternal 1,
    .unlockTable 0 0 0 none, .unlockInternal 0]

theorem wokenRun_isSome : ((lockMgr 2).run State.init wokenRun).isSome = true := by
  decide

/-- The counters of `wokenRun` are right. -/
theorem heavy_counters_wokenRun :
    Counted (((lockMgr 2).after wokenRun wokenRun_isSome).item 0) :=
  (heavy_counters (System.reachable_after (lockMgr 2) wokenRun wokenRun_isSome) 0
    (by decide)).1

/-- **A node that was granted to a sleeper has a flag without a slot.** -/
theorem flag_without_slot :
    ¬ ∀ (n : Nat) (s : State), (lockMgr n).Reachable s → ∀ x,
      (s.item x).flag ≠ flagLightMode →
      Counted (s.item x) ∧ (∀ t, SlotsOrdered (s.slots t))
        ∧ ∀ t, ∀ c ∈ (s.item x).transLockNode t, ModeIsDecision s x c ∧ FlagIsSlots s x t c := by
  intro hall
  have hrun := hall 2 _ (System.reachable_after (lockMgr 2) wokenRun wokenRun_isSome) 0 (by decide)
  have hnode := (hrun.2.2 1 1 (by decide)).2
  revert hnode
  unfold FlagIsSlots
  decide

end Altibase.Sml
