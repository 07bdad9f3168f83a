/-
  Altibase.Sml.Wakeup
  ───────────────────
  **`toLightMode` AND `wakeupRequestLockNodeInLockItem` REFINE `wake`.**

  A heavy release ends by switching the item back to light mode or by waking
  the head of the request list.  Both loops are followed round by round: one
  round hands a blocked transaction its lock (`own_lightRequest`), which on the
  lock queue of the item is one `grant`; the whole of it is `LockQueue.wake`
  (`toLightOrWakeup_spec`).

  `Heavy` is the heavy-mode half of the item invariant: the counters summarise
  the grant list and the grant list holds every granted node.
-/
import Altibase.Sml.Own
import Altibase.Sml.Group

namespace Altibase.Sml

open Altibase.Lib

variable {n : Nat} {clean : Prop} {s s' : LockItem} {pc : TxSlot → Pc}
  {sl : TxSlot → NodeId → List LockMode}

/-! ## §1. One waiter gets its lock: the ownership side. -/

theorem lightRequest_none {r : NodeId} {w : TxSlot} (hslot : (s.nodes r).slotID = w)
    (h : (s.nodes r).cvsLockNode = none) (hring : s.transLockNode w = []) :
    s.lightRequest r = { s with
      request := s.request.erase r
      nodes := Function.update s.nodes r { s.nodes r with beGrant := true }
      transLockNode := Function.update s.transLockNode w [r]
      blocked := Function.update s.blocked w false } := by
  unfold LockItem.lightRequest
  simp only [LockItem.removeRequest, h, LockItem.setNode, LockItem.addLockNode,
    LockItem.resumeTrans, Function.update_self, hslot, hring, List.nil_append]

theorem lightRequest_some {r c : NodeId} {w : TxSlot} (hslot : (s.nodes r).slotID = w)
    (h : (s.nodes r).cvsLockNode = some c) (hcr : c ≠ r) :
    s.lightRequest r = { s with
      request := s.request.erase r
      nodes := Function.update
        (Function.update s.nodes c
          { s.nodes c with
            lockMode := conversionTBL (s.nodes c).lockMode (s.nodes r).lockMode })
        r { s.nodes r with doRemove := true }
      blocked := Function.update s.blocked w false } := by
  unfold LockItem.lightRequest
  simp only [LockItem.removeRequest, h, LockItem.setNode, LockItem.setLockMode,
    LockItem.resumeTrans, Function.update_self, Function.update_of_ne (Ne.symm hcr), hslot]

/-- The other transactions do not notice. -/
theorem agreeOn_lightRequest (h : Own n clean s pc sl) {r : NodeId} (hr : r ∈ s.request)
    {u : TxSlot} (hu : u ≠ (s.nodes r).slotID) : AgreeOn s (s.lightRequest r) u := by
  obtain ⟨x, q, cur, -, -, -, -, -, hring, hnode⟩ := h.waiter hr
  obtain ⟨w, hslot⟩ : ∃ w, (s.nodes r).slotID = w := ⟨_, rfl⟩
  rw [hslot] at hring hnode hu
  have hner : ∀ d, (s.nodes d).slotID = u → d ≠ r := by
    rintro d hd rfl
    exact hu (hd.symm.trans hslot)
  cases cur with
  | none =>
      rw [lightRequest_none hslot (by rw [hnode]; rfl) hring]
      exact ⟨Function.update_of_ne hu _ _, fun d _ hd => Function.update_of_ne (hner d hd) _ _,
        fun d _ hd => List.mem_erase_of_ne (hner d hd), Function.update_of_ne hu _ _, le_rfl⟩
  | some c =>
      have hc : c ∈ s.transLockNode w := by rw [hring]; exact List.mem_singleton_self c
      have hnec : ∀ d, (s.nodes d).slotID = u → d ≠ c := by
        rintro d hd rfl
        exact hu (hd.symm.trans (h.slotID_of_mem hc))
      rw [lightRequest_some hslot (by rw [hnode]; rfl) (h.ne_of_mem_request hc hr)]
      refine ⟨rfl, fun d _ hd => ?_, fun d _ hd => List.mem_erase_of_ne (hner d hd),
        Function.update_of_ne hu _ _, le_rfl⟩
      show Function.update (Function.update _ _ _) _ _ d = _
      rw [Function.update_of_ne (hner d hd), Function.update_of_ne (hnec d hd)]

/-- A request without a granted node becomes one. -/
private theorem lightRequest_grants {r : NodeId} {w : TxSlot} {q : LockReq}
    (hnode : s.nodes r = waitNode w q none) (hring : s.transLockNode w = []) :
    (s.lightRequest r).request = s.request.erase r
      ∧ (s.lightRequest r).transLockNode w = [r]
      ∧ (s.lightRequest r).nodes r = { waitNode w q none with beGrant := true }
      ∧ (s.lightRequest r).blocked w = false
      ∧ (s.lightRequest r).nextNode = s.nextNode := by
  rw [lightRequest_none (w := w) (by rw [hnode]; rfl) (by rw [hnode]; rfl) hring]
  refine ⟨rfl, Function.update_self .., ?_, Function.update_self .., rfl⟩
  show Function.update _ _ _ r = _
  rw [Function.update_self, hnode]

/-- A conversion is merged into the node it converts. -/
private theorem lightRequest_merges {r c : NodeId} {w : TxSlot} {q : LockReq}
    (hnode : s.nodes r = waitNode w q (some c)) (hring : s.transLockNode w = [c]) (hcr : c ≠ r) :
    (s.lightRequest r).request = s.request.erase r
      ∧ (s.lightRequest r).transLockNode w = [c]
      ∧ (s.lightRequest r).nodes c
          = { s.nodes c with lockMode := (s.nodes c).lockMode ⊔ q.lockMode }
      ∧ (s.lightRequest r).nodes r = { waitNode w q (some c) with doRemove := true }
      ∧ (s.lightRequest r).blocked w = false
      ∧ (s.lightRequest r).nextNode = s.nextNode := by
  rw [lightRequest_some (w := w) (by rw [hnode]; rfl) (by rw [hnode]; rfl) hcr]
  refine ⟨rfl, hring, ?_, ?_, Function.update_self .., rfl⟩
  · show Function.update (Function.update _ _ _) _ _ c = _
    rw [Function.update_of_ne hcr, Function.update_self, hnode]
    rfl
  · show Function.update _ _ _ r = _
    rw [Function.update_self, hnode]

/-- **Handing a blocked transaction its lock keeps the ownership invariant.** -/
theorem own_lightRequest (h : Own n clean s pc sl) {r : NodeId} (hr : r ∈ s.request) :
    Own n clean (s.lightRequest r) pc sl := by
  have hagree : ∀ u, u ≠ (s.nodes r).slotID → AgreeOn s (s.lightRequest r) u :=
    fun u hu => agreeOn_lightRequest h hr hu
  obtain ⟨x, q, cur, hpc, hq, hlt, hsl, hb, hring, hnode⟩ := h.waiter hr
  obtain ⟨w, hslot⟩ : ∃ w, (s.nodes r).slotID = w := ⟨_, rfl⟩
  rw [hslot] at hpc hsl hb hring hnode hagree
  have hw := h.tx w
  have hnr : r ∉ s.request.erase r := h.reqNodup.not_mem_erase
  -- the other requests are of other transactions
  have hold : ∀ d ∈ s.request.erase r, d ∈ s.request ∧ (s.nodes d).slotID ≠ w := by
    intro d hd
    refine ⟨List.mem_of_mem_erase hd, fun hdw => hnr ?_⟩
    obtain ⟨y, q', cur', hpc'⟩ := h.req d (List.mem_of_mem_erase hd)
    rw [hdw, hpc] at hpc'
    cases hpc'
    exact hd
  have hwn : w < n := hw.lt (Or.inl (by rw [hpc]; simp))
  rw [← Function.update_eq_self w pc, ← Function.update_eq_self w sl]
  cases cur with
  | none =>
      -- the node of the request becomes the granted node
      obtain ⟨hreq, hring', hnode', hb', hnext⟩ := lightRequest_grants hnode hring
      refine h.step w hagree ?_ (hreq ▸ h.reqNodup.erase r)
        (fun d hd => Or.inl (hold d (hreq ▸ hd)))
      refine .of_singleton hwn hring' (grantedNode_of_request (hnext ▸ hlt) hq hnode') ?_
        (Or.inr ⟨hsl, x, q, hpc⟩) (hnext ▸ hw.slotFresh) ?_
      · rw [hpc]
        exact ⟨hq, hnext ▸ hlt, hsl, .granted (hreq ▸ hnr) hb' rfl hring' hnode'⟩
      · intro _
        rw [hnode']
        exact Or.inl (getDecision_lockModeToMask _).symm
  | some c =>
      have hc : c ∈ s.transLockNode w := by rw [hring]; exact List.mem_singleton_self c
      have hgc := hw.node c hc
      -- a conversion: the mode goes into the node that is held
      obtain ⟨hreq, hring', hnodec, hnoder, hb', hnext⟩ :=
        lightRequest_merges hnode hring (h.ne_of_mem_request hc hr)
      refine h.step w hagree ?_ (hreq ▸ h.reqNodup.erase r)
        (fun d hd => Or.inl (hold d (hreq ▸ hd)))
      refine .of_singleton hwn hring' ?_ ?_ ?_ (hnext ▸ hw.slotFresh) ?_
      · refine ⟨hnext ▸ hgc.lt, ?_, ?_, ?_, ?_, ?_, ?_, ?_⟩ <;> rw [hnodec]
        · exact hgc.slotID
        · exact hgc.beGrant
        · exact hgc.doRemove
        · exact hgc.cvs
        · exact hgc.decision_ne
        · exact hgc.flag_light
        · exact le_trans hgc.decision_le le_sup_left
      · rw [hpc]
        refine ⟨hq, hnext ▸ hlt, hsl, .merged c (hreq ▸ hnr) hb' rfl hring' ?_ hnoder⟩
        rw [hnodec]
        exact le_sup_right
      · rw [hnodec]
        exact hw.slotFlag c hc
      · intro hcl
        rw [hnodec]
        rcases hw.exact hcl c hc with he | ⟨_, _, new, hp, hnew, _⟩
        · exact Or.inr ⟨x, q, r, hpc, hreq ▸ hnr, by rw [← he]⟩
        · rw [hpc] at hp
          cases hp
          exact absurd hr hnew

/-- **On the lock queue it is one grant.** -/
theorem held_lightRequest (h : Own n clean s pc sl) {r : NodeId} (hr : r ∈ s.request) :
    (s.lightRequest r).held = grant s.held ⟨(s.nodes r).slotID, (s.nodes r).lockMode⟩ := by
  funext u
  obtain ⟨x, q, cur, -, -, -, -, -, hring, hnode⟩ := h.waiter hr
  unfold grant
  by_cases hu : u = (s.nodes r).slotID
  · rw [← hu] at hring hnode ⊢
    rw [Function.update_self]
    have hmode : (s.nodes r).lockMode = q.lockMode := by rw [hnode]; rfl
    cases cur with
    | none =>
        obtain ⟨-, hring', hnode', -, -⟩ := lightRequest_grants hnode hring
        rw [held_of_singleton hring', held_of_nil hring, hnode', hmode]
        exact (bot_sup_eq _).symm
    | some c =>
        have hc : c ∈ s.transLockNode u := by rw [hring]; exact List.mem_singleton_self c
        obtain ⟨-, hring', hnodec, -, -, -⟩ :=
          lightRequest_merges hnode hring (h.ne_of_mem_request hc hr)
        rw [held_of_singleton hring', h.held_of_mem hc, hnodec, hmode]
  · rw [Function.update_of_ne hu]
    exact (agreeOn_lightRequest h hr hu).held (h.tx u)

/-! ## §2. Heavy mode: the counters and the two grant tests. -/

/-- The heavy-mode half of the item invariant. -/
structure Heavy (s : LockItem) : Prop where
  mutex : s.mutex = none
  group : Group s.grant s.grantCnt s.arrLockCount s.flag s.grantLockMode
    (fun c => (s.nodes c).lockMode)
  mem : ∀ c, c ∈ s.grant ↔ ∃ t, c ∈ s.transLockNode t
  reqCnt : s.requestCnt = s.request.length

/-- **The test against `mGrantLockMode` is the test against every holder.** -/
theorem Heavy.compatible_iff (hv : Heavy s) (h : Own n clean s pc sl) (m : LockMode) :
    compatibleTBL s.grantLockMode m = true ↔ ∀ t, Compat.compat (s.held t) m := by
  rw [hv.group.compatible_iff m]
  constructor
  · intro hall t
    obtain ⟨o, ho⟩ := (h.tx t).ring
    cases o with
    | none =>
        rw [held_of_nil ho]
        exact bot_compat m
    | some c =>
        have hc : c ∈ s.transLockNode t := by rw [ho]; exact List.mem_singleton_self c
        rw [h.held_of_mem hc]
        exact hall c ((hv.mem c).2 ⟨t, hc⟩)
  · intro hall c hc
    obtain ⟨t, hct⟩ := (hv.mem c).1 hc
    have := hall t
    rw [h.held_of_mem hct] at this
    exact this

/-- **`mGrantCnt == 1` says that a holder is the only one.** -/
theorem Heavy.sole_iff (hv : Heavy s) (h : Own n clean s pc sl) {w : TxSlot} {c : NodeId}
    (hc : c ∈ s.transLockNode w) : s.grantCnt = 1 ↔ ∀ t, t ≠ w → s.held t = ⊥ := by
  have hcg : c ∈ s.grant := (hv.mem c).2 ⟨w, hc⟩
  rw [hv.group.cnt]
  constructor
  · intro hlen t htw
    rw [h.held_eq_bot]
    obtain ⟨o, ho⟩ := (h.tx t).ring
    cases o with
    | none => exact ho
    | some d =>
        have hd : d ∈ s.transLockNode t := by rw [ho]; exact List.mem_singleton_self d
        have hdg : d ∈ s.grant := (hv.mem d).2 ⟨t, hd⟩
        obtain ⟨e, he⟩ := List.length_eq_one_iff.1 (show s.grant.length = 1 by omega)
        rw [he, List.mem_singleton] at hcg hdg
        have hdw : (s.nodes d).slotID = w := by rw [hdg, ← hcg]; exact h.slotID_of_mem hc
        exact absurd ((h.slotID_of_mem hd).symm.trans hdw) htw
  · intro hall
    have hsub : s.grant ⊆ [c] := by
      intro d hd
      obtain ⟨t, hdt⟩ := (hv.mem d).1 hd
      by_cases htw : t = w
      · subst htw
        rw [← h.ring_of_mem hc]
        exact hdt
      · rw [h.held_eq_bot.1 (hall t htw)] at hdt
        cases hdt
    have hle := (List.subperm_of_subset hv.group.nodup hsub).length_le
    have hpos := List.length_pos_of_mem hcg
    simp only [List.length_singleton] at hle
    omega

/-- The lock-queue request of a node. -/
def LockItem.requestOf (s : LockItem) (r : NodeId) : Request TxSlot LockMode :=
  ⟨(s.nodes r).slotID, (s.nodes r).lockMode⟩

/-- The code's grant test for the head of the request list. -/
def LockItem.canGrant (s : LockItem) (r : NodeId) : Bool :=
  compatibleTBL (s.nodes r).lockMode s.grantLockMode
    || (s.grantCnt == 1 && (s.nodes r).cvsLockNode.isSome)

/-- **The code's grant test is the lock queue's.** -/
theorem Heavy.canGrant_iff (hv : Heavy s) (h : Own n clean s pc sl) {r : NodeId}
    (hr : r ∈ s.request) : s.canGrant r = true ↔ Grantable s.held (s.requestOf r) := by
  obtain ⟨x, q, cur, -, -, -, -, -, hring, hnode⟩ := h.waiter hr
  have hcvs : (s.nodes r).cvsLockNode = cur := by rw [hnode]; rfl
  have hcomp : compatibleTBL (s.nodes r).lockMode s.grantLockMode = true
      ↔ ∀ t, Compat.compat (s.held t) (s.nodes r).lockMode := by
    rw [← hv.compatible_iff h, ← compat_iff, ← compat_iff, compat_comm]
  unfold LockItem.canGrant Grantable LockItem.requestOf
  rw [Bool.or_eq_true, hcomp, hcvs]
  refine or_congr Iff.rfl ?_
  cases cur with
  | none => simp [held_of_nil hring, nlock_eq_bot]
  | some c =>
      have hc : c ∈ s.transLockNode (s.nodes r).slotID := by
        rw [hring]; exact List.mem_singleton_self c
      have hne : s.held (s.nodes r).slotID ≠ ⊥ := by
        rw [h.held_of_mem hc]
        exact ((h.tx _).node c hc).mode_ne
      rw [Option.isSome_some, Bool.and_true, beq_iff_eq, hv.sole_iff h hc]
      exact ⟨fun hs => ⟨hne, hs⟩, And.right⟩

/-! ## §3. One round of the wake-up. -/

/-- The item after a granted round, with `mRequestCnt--` and `resumeTrans`. -/
def wakeRound (s' : LockItem) (r : NodeId) : LockItem :=
  { s' with requestCnt := s'.requestCnt - 1 }.resumeTrans (s'.nodes r).slotID

theorem wakeupHead_eq_none (r : NodeId) : s.wakeupHead r = none ↔ s.canGrant r = false := by
  unfold LockItem.wakeupHead LockItem.canGrant
  cases hcomp : compatibleTBL (s.nodes r).lockMode s.grantLockMode with
  | true =>
      simp only [↓reduceIte, Bool.true_or, reduceCtorEq, iff_false]
      split <;> simp
  | false =>
      by_cases hcnt : s.grantCnt = 1
      · cases hcvs : (s.nodes r).cvsLockNode <;> simp [hcnt]
      · simp [hcnt]

/-- The head joins the grant list. -/
private theorem wakeRound_grants (h : Own n clean s pc sl) (hv : Heavy s) {r : NodeId}
    (hr : r ∈ s.request) (hcvs : (s.nodes r).cvsLockNode = none) (e : s.wakeupHead r = some s') :
    SameOwn (s.lightRequest r) (wakeRound s' r) ∧ Heavy (wakeRound s' r)
      ∧ (wakeRound s' r).grantLockMode = s.grantLockMode ⊔ (s.nodes r).lockMode := by
  obtain ⟨x, q, cur, -, -, -, -, -, hring, hnode⟩ := h.waiter hr
  obtain ⟨w, hslot⟩ : ∃ w, (s.nodes r).slotID = w := ⟨_, rfl⟩
  have hcur : cur = none := by rw [← hcvs, hnode]; rfl
  subst hcur
  rw [hslot] at hring
  -- a waiting node is not granted yet
  have hng : r ∉ s.grant := by
    intro hg
    obtain ⟨t, ht⟩ := (hv.mem r).1 hg
    exact h.ne_of_mem_request ht hr rfl
  unfold LockItem.wakeupHead at e
  cases hcomp : compatibleTBL (s.nodes r).lockMode s.grantLockMode with
  | false => simp [hcomp, hcvs] at e
  | true =>
      simp only [hcomp, ↓reduceIte, LockItem.removeRequest, hcvs, Option.some.injEq] at e
      subst e
      -- the modes are not touched
      have hmode : ∀ c, (Function.update s.nodes r { s.nodes r with beGrant := true } c).lockMode
          = (s.nodes c).lockMode := by
        intro c
        by_cases hcr : c = r
        · subst hcr; rw [Function.update_self]
        · rw [Function.update_of_ne hcr]
      refine ⟨?_, ⟨hv.mutex, (hv.group.add hng rfl).congr (fun c _ => hmode c), ?_, ?_⟩, rfl⟩
      · -- the owners see a light request that is granted
        rw [lightRequest_none hslot hcvs hring]
        refine ⟨rfl, ?_, rfl, ?_, rfl⟩ <;>
          simp [wakeRound, LockItem.resumeTrans, LockItem.addLockNode, LockItem.setNode,
            LockItem.addGrant, LockItem.incTblLockModeAndUpdate, hslot, hring]
      · intro c
        show c ∈ s.grant ++ [r] ↔ _
        simp only [wakeRound, LockItem.resumeTrans, LockItem.addLockNode, LockItem.setNode,
          LockItem.addGrant, LockItem.incTblLockModeAndUpdate, Function.update_self, hslot, hring,
          List.mem_append, List.mem_singleton, hv.mem]
        -- the node is in its transaction's list from now on
        constructor
        · rintro (⟨t, ht⟩ | rfl)
          · have htw : t ≠ w := by rintro rfl; rw [hring] at ht; cases ht
            exact ⟨t, by rwa [Function.update_of_ne htw]⟩
          · exact ⟨w, by rw [Function.update_self]; exact List.mem_singleton_self c⟩
        · rintro ⟨t, ht⟩
          by_cases htw : t = w
          · subst htw
            rw [Function.update_self] at ht
            exact Or.inr (List.mem_singleton.1 ht)
          · rw [Function.update_of_ne htw] at ht
            exact Or.inl ⟨t, ht⟩
      · show s.requestCnt - 1 = ((s.request.erase r).length : Int)
        have hpos := List.length_pos_of_mem hr
        rw [List.length_erase_of_mem hr, hv.reqCnt]
        omega

/-- The head is merged into the node it converts. -/
private theorem wakeRound_merges (h : Own n clean s pc sl) (hv : Heavy s) {r c : NodeId}
    (hr : r ∈ s.request) (hcvs : (s.nodes r).cvsLockNode = some c)
    (e : s.wakeupHead r = some s') :
    SameOwn (s.lightRequest r) (wakeRound s' r) ∧ Heavy (wakeRound s' r)
      ∧ (wakeRound s' r).grantLockMode = s.grantLockMode ⊔ (s.nodes r).lockMode := by
  obtain ⟨x, q, cur, -, -, -, -, -, hring, hnode⟩ := h.waiter hr
  obtain ⟨w, hslot⟩ : ∃ w, (s.nodes r).slotID = w := ⟨_, rfl⟩
  have hcur : cur = some c := by rw [← hcvs, hnode]; rfl
  subst hcur
  rw [hslot] at hring
  have hc : c ∈ s.transLockNode w := by rw [hring]; exact List.mem_singleton_self c
  have hcg : c ∈ s.grant := (hv.mem c).2 ⟨w, hc⟩
  have hcr : c ≠ r := h.ne_of_mem_request hc hr
  have hmode : ∀ N N' : LockNode, N.lockMode = (s.nodes c).lockMode ⊔ (s.nodes r).lockMode →
      N'.lockMode = (s.nodes r).lockMode →
      ∀ d, (Function.update (Function.update s.nodes c N) r N' d).lockMode
        = Function.update (fun d => (s.nodes d).lockMode) c
            ((s.nodes c).lockMode ⊔ (s.nodes r).lockMode) d := by
    intro N N' hN hN' d
    by_cases hdr : d = r
    · subst hdr
      rw [Function.update_self, Function.update_of_ne (Ne.symm hcr), hN']
    · rw [Function.update_of_ne hdr]
      by_cases hdc : d = c
      · subst hdc
        rw [Function.update_self, Function.update_self, hN]
      · rw [Function.update_of_ne hdc, Function.update_of_ne hdc]
  have hreq : s.requestCnt - 1 = ((s.request.erase r).length : Int) := by
    have hpos := List.length_pos_of_mem hr
    rw [List.length_erase_of_mem hr, hv.reqCnt]
    omega
  have hG := hv.group.convert hcg (s.nodes r).lockMode
  rw [lightRequest_some hslot hcvs hcr]
  unfold LockItem.wakeupHead at e
  cases hcomp : compatibleTBL (s.nodes r).lockMode s.grantLockMode with
  | true =>
      simp only [hcomp, ↓reduceIte, LockItem.removeRequest, LockItem.decTblLockModeAndTryUpdate,
        LockItem.setLockMode, LockItem.setNode, LockItem.incTblLockModeAndUpdate, hcvs,
        Option.some.injEq, Function.update_self, Function.update_of_ne (Ne.symm hcr)] at e
      subst e
      refine ⟨⟨?_, rfl, rfl, ?_, rfl⟩,
        ⟨hv.mutex, hG.congr (fun d _ => by refine hmode _ _ ?_ ?_ d <;> rfl), hv.mem, hreq⟩, rfl⟩ <;>
        simp [wakeRound, LockItem.resumeTrans, hslot, hcvs]
  | false =>
      by_cases hcnt : s.grantCnt = 1
      · -- the only holder: the group mode is the mode of the converted node
        have hsole : s.grantLockMode = (s.nodes c).lockMode := hv.group.group_eq_of_sole hcnt hcg
        simp only [hcomp, hcnt, ↓reduceIte, LockItem.removeRequest,
          LockItem.decTblLockModeAndTryUpdate, LockItem.setLockMode, LockItem.setNode,
          LockItem.incTblLockModeAndUpdate, hcvs, Option.some.injEq,
          Function.update_of_ne (Ne.symm hcr), Bool.false_eq_true] at e
        subst e
        rw [hsole, hcnt] at hG
        rw [hsole]
        refine ⟨⟨?_, rfl, rfl, ?_, rfl⟩,
          ⟨hv.mutex, hG.congr (fun d _ => by refine hmode _ _ ?_ ?_ d <;> rfl), hv.mem, hreq⟩, rfl⟩ <;>
          simp [wakeRound, LockItem.resumeTrans, hslot, hcvs]
      · simp [hcomp, hcnt] at e

/-- **One round of the wake-up**: on the ownership side it is `lightRequest`, the
    counters follow, and the group mode is joined with the granted mode. -/
theorem wakeRound_spec (h : Own n clean s pc sl) (hv : Heavy s) {r : NodeId}
    (hr : r ∈ s.request) (e : s.wakeupHead r = some s') :
    SameOwn (s.lightRequest r) (wakeRound s' r) ∧ Heavy (wakeRound s' r)
      ∧ (wakeRound s' r).grantLockMode = s.grantLockMode ⊔ (s.nodes r).lockMode := by
  cases hcvs : (s.nodes r).cvsLockNode with
  | none => exact wakeRound_grants h hv hr hcvs e
  | some c => exact wakeRound_merges h hv hr hcvs e

/-! ## §4. The loops. -/

theorem AgreeOn.refl (s : LockItem) (u : TxSlot) : AgreeOn s s u :=
  ⟨rfl, fun _ _ _ => rfl, fun _ _ _ => Iff.rfl, rfl, le_rfl⟩

theorem AgreeOn.trans {s'' : LockItem} {u : TxSlot} (e : AgreeOn s s' u) (e' : AgreeOn s' s'' u) :
    AgreeOn s s'' u where
  ring := e'.ring.trans e.ring
  nodes c hlt hc := by
    have hc' := e.nodes c hlt hc
    rw [e'.nodes c (lt_of_lt_of_le hlt e.next) (hc' ▸ hc), hc']
  request c hlt hc := by
    have hc' := e.nodes c hlt hc
    rw [e'.request c (lt_of_lt_of_le hlt e.next) (hc' ▸ hc), e.request c hlt hc]
  blocked := e'.blocked.trans e.blocked
  next := le_trans e.next e'.next

theorem AgreeOn.of_same (e : SameOwn s s') (u : TxSlot) : AgreeOn s s' u :=
  ⟨by rw [e.ring], fun _ _ _ => by rw [e.nodes], fun _ _ _ => by rw [e.request],
    by rw [e.blocked], e.next.ge⟩

theorem SameOwn.held (e : SameOwn s s') : s'.held = s.held :=
  funext fun t => held_congr (by rw [e.ring]) (fun _ _ => by rw [e.nodes])

/-- Two requests of one transaction are the same. -/
theorem Own.eq_of_slotID (h : Own n clean s pc sl) {r d : NodeId} (hr : r ∈ s.request)
    (hd : d ∈ s.request) (e : (s.nodes r).slotID = (s.nodes d).slotID) : r = d := by
  obtain ⟨_, _, _, hpr⟩ := h.req r hr
  obtain ⟨_, _, _, hpd⟩ := h.req d hd
  rw [e, hpd] at hpr
  cases hpr
  rfl

/-- Handing out one lock leaves the other waiting nodes as they are. -/
theorem nodes_lightRequest (h : Own n clean s pc sl) {r d : NodeId} (hr : r ∈ s.request)
    (hd : d ∈ s.request) (hdr : d ≠ r) : (s.lightRequest r).nodes d = s.nodes d := by
  obtain ⟨_, _, _, _, _, hlt, _⟩ := h.waiter hd
  exact (agreeOn_lightRequest h hr (fun e => hdr (h.eq_of_slotID hd hr e))).nodes d hlt rfl

theorem request_lightRequest (r : NodeId) : (s.lightRequest r).request = s.request.erase r := by
  unfold LockItem.lightRequest
  simp only [LockItem.resumeTrans]
  split <;> rfl

/-- The rest of the queue keeps its requests when its head gets its lock. -/
theorem map_requestOf_lightRequest (h : Own n clean s pc sl) {r : NodeId} {rest : List NodeId}
    (hreq : s.request = r :: rest) :
    rest.map (s.lightRequest r).requestOf = rest.map s.requestOf := by
  have hnd := h.reqNodup
  rw [hreq, List.nodup_cons] at hnd
  refine List.map_congr_left fun d hd => ?_
  have hdr : d ≠ r := by rintro rfl; exact hnd.1 hd
  unfold LockItem.requestOf
  rw [nodes_lightRequest h (by rw [hreq]; simp) (by rw [hreq]; simp [hd]) hdr]

/-- Something on the item is neither IS nor IX: it may not be in light mode. -/
def LockItem.NeedsHeavy (s : LockItem) : Prop :=
  ¬ s.grantLockMode ≤ .ixlock ∨ ∃ r ∈ s.request, ¬ (s.nodes r).lockMode ≤ .ixlock

/-- What waking the waiters `rs` of `s` leads to. -/
structure Woken (n : Nat) (clean : Prop) (pc : TxSlot → Pc)
    (sl : TxSlot → NodeId → List LockMode) (s : LockItem) (rs : List NodeId)
    (s' : LockItem) : Prop where
  own : Own n clean s' pc sl
  queue : s'.queue = wakeList s.held (rs.map s.requestOf)
  sub : ∀ r ∈ s'.request, r ∈ rs
  frame : ∀ t, (∀ r ∈ rs, (s.nodes r).slotID = t → r ∈ s'.request) → AgreeOn s s' t

/-- **`wakeupRequestLockNodeInLockItem` is the queue's wake-up.** -/
theorem wakeupLoop_spec : ∀ (rs : List NodeId) (s : LockItem), Own n clean s pc sl → Heavy s →
    s.request = rs → s.NeedsHeavy →
    Woken n clean pc sl s rs (LockItem.wakeupLoop rs s) ∧ Heavy (LockItem.wakeupLoop rs s)
      ∧ (LockItem.wakeupLoop rs s).NeedsHeavy := by
  intro rs
  induction rs with
  | nil =>
      intro s h hv hreq hd
      refine ⟨⟨h, ?_, fun r hr => hreq ▸ hr, fun t _ => .refl s t⟩, hv, hd⟩
      show LockItem.queue s = _
      unfold LockItem.queue
      rw [hreq]
      rfl
  | cons r rest ih =>
      intro s h hv hreq hd
      have hr : r ∈ s.request := by rw [hreq]; exact List.mem_cons_self
      rw [LockItem.wakeupLoop]
      cases e : s.wakeupHead r with
      | none =>
          -- the head is blocked: the loop ends, as in the queue
          have hng : ¬ Grantable s.held (s.requestOf r) := by
            rw [← hv.canGrant_iff h hr, (wakeupHead_eq_none r).1 e]
            exact Bool.false_ne_true
          refine ⟨⟨h, ?_, fun r hr => hreq ▸ hr, fun t _ => .refl s t⟩, hv, hd⟩
          show LockItem.queue s = _
          rw [List.map_cons, wakeList, if_neg hng]
          unfold LockItem.queue
          rw [hreq]
          rfl
      | some s₁ =>
          have hg : Grantable s.held (s.requestOf r) := by
            rw [← hv.canGrant_iff h hr]
            cases hc : s.canGrant r with
            | true => rfl
            | false => rw [(wakeupHead_eq_none r).2 hc] at e; cases e
          -- the head is granted, and the rest goes on with what is held now
          obtain ⟨hsame, hv', hG⟩ := wakeRound_spec h hv hr e
          have h' := (own_lightRequest h hr).of_same hsame
          have hreq' : (wakeRound s₁ r).request = rest := by
            rw [hsame.request, request_lightRequest, hreq, List.erase_cons_head]
          have hnd := h.reqNodup
          rw [hreq, List.nodup_cons] at hnd
          -- the item stays heavy: the request that made it so is still queued, or it is granted
          have hd' : (wakeRound s₁ r).NeedsHeavy := by
            rcases hd with hd | ⟨d, hdm, hdd⟩
            · exact Or.inl (fun hle => hd (le_trans (hG ▸ le_sup_left) hle))
            · by_cases hdr : d = r
              · subst hdr
                exact Or.inl (fun hle => hdd (le_trans (hG ▸ le_sup_right) hle))
              · refine Or.inr ⟨d, ?_, ?_⟩
                · rw [hsame.request, request_lightRequest]
                  exact (List.mem_erase_of_ne hdr).2 hdm
                · rw [hsame.nodes, nodes_lightRequest h hr hdm hdr]
                  exact hdd
          obtain ⟨hwk, hv'', hd''⟩ := ih (wakeRound s₁ r) h' hv' hreq' hd'
          refine ⟨⟨hwk.own, ?_, fun d hd => List.mem_cons_of_mem _ (hwk.sub d hd), ?_⟩, hv'', hd''⟩
          · have hmap : rest.map (wakeRound s₁ r).requestOf = rest.map s.requestOf := by
              rw [← map_requestOf_lightRequest h hreq]
              refine List.map_congr_left fun d _ => ?_
              unfold LockItem.requestOf
              rw [hsame.nodes]
            show (LockItem.wakeupLoop rest (wakeRound s₁ r)).queue = _
            rw [hwk.queue, hmap, hsame.held, held_lightRequest h hr, List.map_cons, wakeList,
              if_pos hg]
            rfl
          · intro t ht
            -- each transaction has one request at most, so the later rounds are about others
            have hrt : t ≠ (s.nodes r).slotID := fun hrt =>
              hnd.1 (hwk.sub r (ht r List.mem_cons_self hrt.symm))
            have hag := (agreeOn_lightRequest h hr hrt).trans (.of_same hsame t)
            refine hag.trans (hwk.frame t fun d hd hdt => ?_)
            have hdr : d ≠ r := by rintro rfl; exact hnd.1 hd
            have hdm : d ∈ s.request := by rw [hreq]; exact List.mem_cons_of_mem _ hd
            rw [hsame.nodes, nodes_lightRequest h hr hdm hdr] at hdt
            exact ht d (List.mem_cons_of_mem _ hd) hdt

/-- The light-mode half of the item invariant: a cleared item, and only
    intention modes in the rings. -/
structure Light (s : LockItem) : Prop where
  mutex : s.mutex = none
  flag : s.flag = flagLightMode
  group : s.grantLockMode = .nlock
  grant : s.grant = []
  request : s.request = []
  grantCnt : s.grantCnt = 0
  requestCnt : s.requestCnt = 0
  count : s.arrLockCount = fun _ => 0
  modes : ∀ t, s.held t ≤ .ixlock

theorem foldl_removeGrant : ∀ (cs : List NodeId) (s : LockItem),
    SameOwn s (cs.foldl LockItem.removeGrant s)
      ∧ (cs.foldl LockItem.removeGrant s).mutex = s.mutex
  | [], _ => ⟨⟨rfl, rfl, rfl, rfl, rfl⟩, rfl⟩
  | c :: cs, s => by
      obtain ⟨e, hm⟩ := foldl_removeGrant cs (s.removeGrant c)
      exact ⟨⟨e.nodes, e.ring, e.request, e.blocked, e.next⟩, hm⟩

theorem mutex_lightRequest (r : NodeId) : (s.lightRequest r).mutex = s.mutex := by
  unfold LockItem.lightRequest
  simp only [LockItem.resumeTrans]
  split <;> rfl

/-- An intention request can be granted beside intention locks. -/
theorem grantable_of_intent {held : TxSlot → LockMode} {r : Request TxSlot LockMode}
    (hh : ∀ t, held t ≤ .ixlock) (hr : r.mode ≤ .ixlock) : Grantable held r :=
  Or.inl (fun t => compat_of_le_ixlock (hh t) hr)

theorem grant_le_ixlock {held : TxSlot → LockMode} {r : Request TxSlot LockMode}
    (hh : ∀ t, held t ≤ .ixlock) (hr : r.mode ≤ .ixlock) (t : TxSlot) :
    grant held r t ≤ .ixlock := by
  unfold grant
  by_cases ht : t = r.owner
  · subst ht
    rw [Function.update_self]
    exact sup_le (hh _) hr
  · rw [Function.update_of_ne ht]
    exact hh t

private theorem foldl_lightRequest_spec : ∀ (rs : List NodeId) (s : LockItem),
    Own n clean s pc sl → s.request = rs → (∀ t, s.held t ≤ .ixlock) →
    (∀ r ∈ rs, (s.nodes r).lockMode ≤ .ixlock) →
    Woken n clean pc sl s rs (rs.foldl LockItem.lightRequest s)
      ∧ (rs.foldl LockItem.lightRequest s).request = []
      ∧ (rs.foldl LockItem.lightRequest s).mutex = s.mutex
      ∧ ∀ t, (rs.foldl LockItem.lightRequest s).held t ≤ .ixlock := by
  intro rs
  -- on the waiting requests: each is an intention, so each is granted
  induction rs with
  | nil =>
      intro s h hreq hh _
      refine ⟨⟨h, ?_, fun r hr => hreq ▸ hr, fun t _ => .refl s t⟩, hreq, rfl, hh⟩
      show LockItem.queue s = _
      unfold LockItem.queue
      rw [hreq]
      rfl
  | cons r rest ih =>
      intro s h hreq hh hm
      have hr : r ∈ s.request := by rw [hreq]; exact List.mem_cons_self
      have hnd := h.reqNodup
      rw [hreq, List.nodup_cons] at hnd
      have hrm : (s.requestOf r).mode ≤ .ixlock := hm r List.mem_cons_self
      have hreq' : (s.lightRequest r).request = rest := by
        rw [request_lightRequest, hreq, List.erase_cons_head]
      -- the requests behind it are as they were
      have hnode : ∀ d ∈ rest, (s.lightRequest r).nodes d = s.nodes d := fun d hd =>
        nodes_lightRequest h hr (by rw [hreq]; exact List.mem_cons_of_mem _ hd)
          (by rintro rfl; exact hnd.1 hd)
      obtain ⟨hwk, hnil, hmx, hle⟩ := ih (s.lightRequest r) (own_lightRequest h hr) hreq'
        (by rw [held_lightRequest h hr]; exact grant_le_ixlock hh hrm)
        (fun d hd => by rw [hnode d hd]; exact hm d (List.mem_cons_of_mem _ hd))
      rw [List.foldl_cons]
      refine ⟨⟨hwk.own, ?_, fun d hd => List.mem_cons_of_mem _ (hwk.sub d hd), ?_⟩, hnil,
        hmx.trans (mutex_lightRequest r), hle⟩
      · rw [hwk.queue, map_requestOf_lightRequest h hreq, held_lightRequest h hr, List.map_cons,
          wakeList, if_pos (grantable_of_intent hh hrm)]
        rfl
      · intro t ht
        have hrt : t ≠ (s.nodes r).slotID := fun hrt =>
          hnd.1 (hwk.sub r (ht r List.mem_cons_self hrt.symm))
        refine (agreeOn_lightRequest h hr hrt).trans (hwk.frame t fun d hd hdt => ?_)
        rw [hnode d hd] at hdt
        exact ht d (List.mem_cons_of_mem _ hd) hdt

/-- **`toLightMode` wakes everybody**, when only intention locks are held and
    asked for. -/
theorem toLightMode_spec (h : Own n clean s pc sl) (hmx : s.mutex = none)
    (hh : ∀ t, s.held t ≤ .ixlock) (hm : ∀ r ∈ s.request, (s.nodes r).lockMode ≤ .ixlock) :
    Woken n clean pc sl s s.request s.toLightMode ∧ Light s.toLightMode := by
  obtain ⟨s₁, hs₁, e, hmx₁⟩ : ∃ s₁, (if s.grantCnt > 0 then s.grant.foldl LockItem.removeGrant s
      else s) = s₁ ∧ SameOwn s s₁ ∧ s₁.mutex = s.mutex := by
    refine ⟨_, rfl, ?_⟩
    split
    · exact foldl_removeGrant s.grant s
    · exact ⟨⟨rfl, rfl, rfl, rfl, rfl⟩, rfl⟩
  have hreqOf : s₁.requestOf = s.requestOf := by
    funext r
    unfold LockItem.requestOf
    rw [e.nodes]
  obtain ⟨hwk, hnil, hmx₂, hle⟩ := foldl_lightRequest_spec s.request s₁ (h.of_same e) e.request
    (by rw [e.held]; exact hh) (fun r hr => by rw [e.nodes]; exact hm r hr)
  have hdef : s.toLightMode = (s.request.foldl LockItem.lightRequest s₁).clearLockItem := by
    unfold LockItem.toLightMode
    simp only [hs₁, e.request]
  have e' : SameOwn (s.request.foldl LockItem.lightRequest s₁) s.toLightMode := by
    rw [hdef]
    exact ⟨rfl, rfl, hnil.symm, rfl, rfl⟩
  refine ⟨⟨hwk.own.of_same e', ?_, fun r hr => ?_, fun t ht => ?_⟩, ?_⟩
  · have hq : s.toLightMode.queue = (s.request.foldl LockItem.lightRequest s₁).queue := by
      unfold LockItem.queue
      rw [e'.held, e'.request, e'.nodes]
    rw [hq, hwk.queue, e.held, hreqOf]
  · rw [e'.request, hnil] at hr
    cases hr
  · refine ((AgreeOn.of_same e t).trans (hwk.frame t fun r hr hrt => ?_)).trans (.of_same e' t)
    have := ht r hr (by rw [← hrt, e.nodes])
    rwa [e'.request] at this
  · rw [hdef] at e' ⊢
    exact ⟨hmx₂.trans (hmx₁.trans hmx), rfl, rfl, rfl, rfl, rfl, rfl, rfl,
      fun t => by rw [e'.held]; exact hle t⟩

/-! ## §5. The end of a heavy release. -/

theorem unlinkAll_iff (s : LockItem) : s.unlinkAll = true ↔ ¬ s.NeedsHeavy := by
  unfold LockItem.unlinkAll LockItem.NeedsHeavy
  rw [Bool.and_eq_true, decide_eq_true_eq, List.all_eq_true, not_or, not_not, le_ixlock_iff]
  refine and_congr Iff.rfl ?_
  simp only [not_exists, not_and, not_not, Bool.not_eq_true', decide_eq_false_iff_not,
    ← not_le_ixlock_iff]

/-- **`toLightMode` or `wakeupRequestLockNodeInLockItem` at the end of a release is
    `wake` on the lock queue**, and it leaves an item that is in light mode, or in
    heavy mode for a reason. -/
theorem toLightOrWakeup_spec (h : Own n clean s pc sl) (hv : Heavy s) :
    Woken n clean pc sl s s.request s.toLightOrWakeup
      ∧ (Light s.toLightOrWakeup
        ∨ (Heavy s.toLightOrWakeup ∧ s.toLightOrWakeup.NeedsHeavy)) := by
  unfold LockItem.toLightOrWakeup
  cases hu : s.unlinkAll with
  | true =>
      have hd := (unlinkAll_iff s).1 hu
      unfold LockItem.NeedsHeavy at hd
      push Not at hd
      have hheld : ∀ t, s.held t ≤ .ixlock := by
        intro t
        obtain ⟨o, ho⟩ := (h.tx t).ring
        cases o with
        | none => rw [held_of_nil ho]; exact bot_le
        | some c =>
            have hc : c ∈ s.transLockNode t := by rw [ho]; exact List.mem_singleton_self c
            rw [h.held_of_mem hc]
            exact le_trans (hv.group.mode_le_group ((hv.mem c).2 ⟨t, hc⟩)) hd.1
      obtain ⟨hwk, hl⟩ := toLightMode_spec h hv.mutex hheld hd.2
      exact ⟨hwk, Or.inl hl⟩
  | false =>
      have hd : s.NeedsHeavy := by
        by_contra hd
        rw [(unlinkAll_iff s).2 hd] at hu
        cases hu
      obtain ⟨hwk, hv', hd'⟩ := wakeupLoop_spec s.request s h hv rfl hd
      exact ⟨hwk, Or.inr ⟨hv', hd'⟩⟩

theorem Woken.queue_eq_wake (hw : Woken n clean pc sl s s.request s') : s'.queue = s.queue.wake :=
  hw.queue

end Altibase.Sml
