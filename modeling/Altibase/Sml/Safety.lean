/-
  Altibase.Sml.Safety
  ───────────────────
  **HOLDERS ARE COMPATIBLE, AND NO WAKE-UP IS LOST.**

  Two results about every run of the lock manager, whatever the transactions
  and the order of their steps:

    • `granted_compatible` — two transactions that hold a granted node of an
      item hold compatible modes (Altibase.Sml.Unlink says what becomes of that
      inside a release);
    • `no_lost_wakeup` — the head of a request list fails the code's own grant
      test, and an item that has waiters is in heavy mode.
-/
import Altibase.Sml.LockInv

namespace Altibase.Sml

open Altibase.Lib

variable {n : Nat} {s : State} {t u : TxSlot} {c d : NodeId}

/-! ## §1. Compatible holders. -/

/-- `c` is a granted node of `t`: it hangs from the transaction's own list, or it
    is in the grant list under the transaction's slot number. -/
def LockItem.Granted (s : LockItem) (t : TxSlot) (c : NodeId) : Prop :=
  c ∈ s.transLockNode t ∨ (c ∈ s.grant ∧ (s.nodes c).slotID = t)

/-- The grant list only has nodes that hang from their transaction's list. -/
theorem ItemInv.mem_ring {clean : Prop} {s : LockItem} {pc : TxSlot → Pc}
    {sl : TxSlot → NodeId → List LockMode} (h : ItemInv n clean s pc sl) (hc : s.Granted t c) :
    c ∈ s.transLockNode t := by
  rcases hc with hc | ⟨hc, ht⟩
  · exact hc
  · have hring : ∃ v, c ∈ s.transLockNode v := by
      cases h.phase with
      | light hl => rw [hl.grant] at hc; cases hc
      | collect _ _ _ _ _ _ _ _ hmem =>
          obtain ⟨v, -, hv⟩ := (hmem c).1 hc
          exact ⟨v, hv⟩
      | heavy hv => exact (hv.mem c).1 hc
    obtain ⟨v, hv⟩ := hring
    rw [← ht, h.own.slotID_of_mem hv]
    exact hv

/-- **Distinct holders of an item hold compatible modes**, in every reachable state. -/
theorem granted_compatible (h : (lockMgr n).Reachable s) (x : ItemId) (htu : t ≠ u)
    (hc : (s.item x).Granted t c) (hd : (s.item x).Granted u d) :
    compatibleTBL ((s.item x).nodes c).lockMode ((s.item x).nodes d).lockMode = true := by
  have hx := (inv_reachable h).item x
  have hsafe := hx.safe t u htu
  rw [hx.own.held_of_mem (hx.mem_ring hc), hx.own.held_of_mem (hx.mem_ring hd)] at hsafe
  exact hsafe

/-! ## §2. No lost wake-up. -/

/-- **The head of a request list cannot be granted**, in every reachable state: the
    wake-up loop stops at it, its mode is incompatible with `mGrantLockMode` and it
    does not convert the node of the only holder.  The item is not in light mode. -/
theorem no_lost_wakeup (h : (lockMgr n).Reachable s) (x : ItemId) {r : NodeId}
    (hr : r ∈ (s.item x).request.head?) :
    (s.item x).flag ≠ flagLightMode
      ∧ (s.item x).wakeupHead r = none
      ∧ compatibleTBL ((s.item x).nodes r).lockMode (s.item x).grantLockMode = false
      ∧ ¬ ((s.item x).grantCnt = 1 ∧ ((s.item x).nodes r).cvsLockNode.isSome = true) := by
  have hx := (inv_reachable h).item x
  have hmem : r ∈ (s.item x).request := List.mem_of_mem_head? hr
  have hnone : (s.item x).flag ≠ flagLightMode ∧ (s.item x).canGrant r = false := by
    cases hx.phase with
    | light hl => rw [hl.request] at hmem; cases hmem
    | collect _ _ _ _ _ _ _ _ _ hreq => rw [hreq] at hmem; cases hmem
    | heavy hv hd hs =>
        refine ⟨hv.group.flag_ne_light, ?_⟩
        have hng : ¬ Grantable (s.item x).held ((s.item x).requestOf r) := by
          refine hs _ ?_
          show (s.item x).requestOf r ∈ ((s.item x).request.map (s.item x).requestOf).head?
          rw [List.head?_map]
          exact Option.mem_map_of_mem _ hr
        rw [← hv.canGrant_iff hx.own hmem] at hng
        simpa using hng
  obtain ⟨hf, hg⟩ := hnone
  refine ⟨hf, (wakeupHead_eq_none r).2 hg, ?_⟩
  unfold LockItem.canGrant at hg
  rw [Bool.or_eq_false_iff, Bool.and_eq_false_iff] at hg
  refine ⟨hg.1, fun ⟨hcnt, hcvs⟩ => ?_⟩
  rcases hg.2 with h1 | h2
  · rw [hcnt] at h1
    cases h1
  · rw [hcvs] at h2
    cases h2

/-- Transaction 1 waits for an IX lock beside the S lock of transaction 0. -/
def waitingRun : List Action :=
  [.lockTable 0 0 ⟨.slock, 0, false⟩ true, .lockInternal 0, .collect 0, .collect 0, .collected 0,
    .lockTable 1 0 ⟨.ixlock, 1, false⟩ true, .lockInternal 1]

theorem waitingRun_isSome : ((lockMgr 2).run State.init waitingRun).isSome = true := by
  decide

/-- The waiter of `waitingRun` cannot be granted. -/
theorem no_lost_wakeup_waitingRun :
    (((lockMgr 2).after waitingRun waitingRun_isSome).item 0).flag ≠ flagLightMode
      ∧ (((lockMgr 2).after waitingRun waitingRun_isSome).item 0).wakeupHead 1 = none
      ∧ compatibleTBL ((((lockMgr 2).after waitingRun waitingRun_isSome).item 0).nodes 1).lockMode
          (((lockMgr 2).after waitingRun waitingRun_isSome).item 0).grantLockMode = false
      ∧ ¬ ((((lockMgr 2).after waitingRun waitingRun_isSome).item 0).grantCnt = 1
        ∧ ((((lockMgr 2).after waitingRun waitingRun_isSome).item 0).nodes 1).cvsLockNode.isSome
          = true) :=
  no_lost_wakeup (System.reachable_after (lockMgr 2) waitingRun waitingRun_isSome) 0 (by decide)

end Altibase.Sml
