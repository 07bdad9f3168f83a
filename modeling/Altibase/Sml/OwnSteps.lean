/-
  Altibase.Sml.OwnSteps
  ─────────────────────
  **WHAT A LOCK, A WAIT AND A RELEASE DO TO THE OWNERSHIP INVARIANT.**

  Every grant of `lockTable` — in light mode, beside compatible holders, or by
  the only holder — changes the rings and nodes as `lockLight` does; the heavy
  paths add counter updates on top (`SameOwn`).  The lemmas here are about
  these common effects:

    * `own_lockDone` — a grant followed by `setLockModeAndAddLockSlot`;
    * `own_enqueue` — a request node enters the request list;
    * `own_unlockLight` — a slot or the whole node of a transaction goes;
    * `own_giveUp` — a waiting transaction takes its request back.
-/
import Altibase.Sml.Wakeup

namespace Altibase.Sml

open Altibase.Lib

variable {n : Nat} {clean : Prop} {s s' : LockItem} {pc : TxSlot → Pc}
  {sl : TxSlot → NodeId → List LockMode} {t : TxSlot} {c : NodeId}

/-! ## §1. Slots of one item. -/

/-- The slots of a transaction after `addLockSlot`. -/
def slAdd (slt : NodeId → List LockMode) (c : NodeId) (m : LockMode) : NodeId → List LockMode :=
  Function.update slt c (slt c ++ [m])

/-- The slots of a transaction after `removeLockSlot`. -/
def slRemove (slt : NodeId → List LockMode) (c : NodeId) : Option LockMode → NodeId → List LockMode
  | some m => Function.update slt c ((slt c).filter (· ≠ m))
  | none => slt

theorem slRemove_some (slt : NodeId → List LockMode) (m : LockMode) :
    slRemove slt c (some m) = Function.update slt c ((slt c).filter (· ≠ m)) := rfl

/-- A new slot adds its mode to those of its node, -/
theorem slotModes_add (x : ItemId) (m : LockMode) (slots : List LockSlot) :
    (fun d => slotModes x d (addLockSlot x c m slots))
      = slAdd (fun d => slotModes x d slots) c m := by
  funext d
  unfold slAdd slotModes addLockSlot
  rw [List.filterMap_append]
  by_cases hd : d = c
  · subst hd
    rw [Function.update_self]
    simp [LockSlot.modeAt]
  · rw [Function.update_of_ne hd]
    simp [LockSlot.modeAt, Ne.symm hd]

/-- and leaves those of other items. -/
theorem slotModes_add_other {x y : ItemId} (hxy : y ≠ x) (m : LockMode) (slots : List LockSlot)
    (d : NodeId) : slotModes y d (addLockSlot x c m slots) = slotModes y d slots := by
  unfold slotModes addLockSlot
  rw [List.filterMap_append]
  simp [LockSlot.modeAt, Ne.symm hxy]

/-- A removed slot takes its mode away, -/
theorem slotModes_remove (x : ItemId) (l : Option LockMode) (slots : List LockSlot) :
    (fun d => slotModes x d (removeLockSlot x c l slots))
      = slRemove (fun d => slotModes x d slots) c l := by
  cases l with
  | none => rfl
  | some m =>
      funext d
      rw [slRemove_some]
      unfold slotModes removeLockSlot
      simp only [List.filterMap_filter]
      by_cases hd : d = c
      · subst hd
        rw [Function.update_self, List.filter_filterMap]
        congr 1
        funext l
        unfold LockSlot.modeAt
        by_cases hl : l.item = x ∧ l.node = d <;> by_cases hm : l.lockMode = m <;>
          simp [hl, hm, Option.filter]
      · rw [Function.update_of_ne hd]
        refine List.filterMap_congr fun l _ => ?_
        unfold LockSlot.modeAt
        by_cases hl : l.item = x ∧ l.node = d
        · simp [hl, hd]
        · simp [hl]

/-- and leaves those of other items. -/
theorem slotModes_remove_other {x y : ItemId} (hxy : y ≠ x) (l : Option LockMode)
    (slots : List LockSlot) (d : NodeId) :
    slotModes y d (removeLockSlot x c l slots) = slotModes y d slots := by
  cases l with
  | none => rfl
  | some m =>
      unfold slotModes removeLockSlot
      simp only [List.filterMap_filter]
      refine List.filterMap_congr fun l _ => ?_
      unfold LockSlot.modeAt
      by_cases hl : l.item = y ∧ l.node = d
      · simp [hl, hxy]
      · simp [hl]

/-- Nodes that are not in use have no slots afterwards. -/
theorem slRemove_fresh {slt : NodeId → List LockMode} {b : NodeId} (l : Option LockMode)
    (h : ∀ d, b ≤ d → slt d = []) (d : NodeId) (hd : b ≤ d) : slRemove slt c l d = [] := by
  cases l with
  | none => exact h d hd
  | some m =>
      rw [slRemove_some]
      by_cases hdc : d = c
      · subst hdc
        rw [Function.update_self, h d hd]
        rfl
      · rw [Function.update_of_ne hdc]
        exact h d hd

/-! ## §2. A granted lock. -/

/-- A change of one's own node is not seen by another transaction. -/
theorem agreeOn_setNode {f : LockNode → LockNode} {u : TxSlot} (hu : u ≠ (s.nodes c).slotID) :
    AgreeOn s (s.setNode c f) u where
  ring := rfl
  nodes d _ hd := Function.update_of_ne (by rintro rfl; exact hu hd.symm) _ _
  request _ _ _ := Iff.rfl
  blocked := rfl
  next := le_rfl

/-- `setLockModeAndAddLockSlot` on the node that has just been granted. -/
theorem OwnAt.lockDone {m : LockMode} {slt : NodeId → List LockMode} (hlt : t < n)
    (hring : s.transLockNode t = [c]) (hg : GrantedNode s t c) (hm : m ≤ (s.nodes c).lockMode)
    (hflag : (s.nodes c).flag = maskOf (slt c)
      ∨ (slt c = [] ∧ (s.nodes c).flag = lockModeToMask m))
    (hfresh : ∀ d, s.nextNode ≤ d → slt d = [])
    (hex : clean → (s.nodes c).lockMode = getDecision (s.nodes c).flag ⊔ m) :
    OwnAt n clean (s.addFlag c m) t
      .idle (slAdd slt c m) := by
  have hnode : (s.addFlag c m).nodes c
      = { s.nodes c with flag := (s.nodes c).flag ||| lockModeToMask m } :=
    Function.update_self ..
  refine .of_singleton hlt hring ?_ trivial (Or.inl ?_) (fun d hd => ?_) (fun hcl => Or.inl ?_)
  · refine ⟨hg.lt, ?_, ?_, ?_, ?_, ?_, ?_, ?_⟩ <;> rw [hnode]
    · exact hg.slotID
    · exact hg.beGrant
    · exact hg.doRemove
    · exact hg.cvs
    · simp only [getDecision_or_mask hg.flag_light]
      exact sup_ne_nlock hg.decision_ne
    · exact and_light_or hg.flag_light m
    · simp only [getDecision_or_mask hg.flag_light]
      exact sup_le hg.decision_le hm
  · rw [hnode]
    simp only [slAdd, Function.update_self]
    rcases hflag with hf | ⟨hnil, hf⟩
    · rw [hf, maskOf_append, maskOf_singleton]
    · rw [hnil, hf, BitVec.or_self, List.nil_append, maskOf_singleton]
  · have hdc : d ≠ c := by
      rintro rfl
      exact absurd hg.lt (Nat.not_lt.2 hd)
    unfold slAdd
    rw [Function.update_of_ne hdc]
    exact hfresh d hd
  · rw [hnode]
    simp only [getDecision_or_mask hg.flag_light]
    exact hex hcl

/-- What `lockLight` does, as far as the others and the counters can tell. -/
structure LockedBy (s : LockItem) (t : TxSlot) (q : LockReq) (slt : NodeId → List LockMode)
    (clean : Prop) (c : NodeId) (s' : LockItem) : Prop where
  agree : ∀ u, u ≠ t → AgreeOn s s' u
  ring : s'.transLockNode t = [c]
  node : GrantedNode s' t c
  le : q.lockMode ≤ (s'.nodes c).lockMode
  flag : (s'.nodes c).flag = maskOf (slt c)
    ∨ (slt c = [] ∧ (s'.nodes c).flag = lockModeToMask q.lockMode)
  exact : clean → (s'.nodes c).lockMode = getDecision (s'.nodes c).flag ⊔ q.lockMode
  request : s'.request = s.request
  next : s.nextNode ≤ s'.nextNode
  held : s'.held = Function.update s.held t (s.held t ⊔ q.lockMode)

/-- **What the light grant does.** -/
theorem lockLight_spec (h : Own n clean s pc sl) {q : LockReq} {cur : Option NodeId}
    (hring : s.transLockNode t = cur.toList) (hq : q.lockMode ≠ .nlock)
    (hnw : ∀ x q' cur' new, pc t ≠ .waitForLock x q' cur' new) :
    LockedBy s t q (sl t) clean (s.lockLight t q cur).1 (s.lockLight t q cur).2 := by
  have ht := h.tx t
  cases cur with
  | some c =>
      have hc : c ∈ s.transLockNode t := by rw [hring]; exact List.mem_singleton_self c
      have hgc := ht.node c hc
      -- a conversion: the mode of the granted node is raised
      have hnode : (s.lockLight t q (some c)).2.nodes c
          = { s.nodes c with lockMode := (s.nodes c).lockMode ⊔ q.lockMode } :=
        Function.update_self ..
      have hagree : ∀ u, u ≠ t → AgreeOn s (s.lockLight t q (some c)).2 u := by
        intro u hu
        show AgreeOn s (s.setLockMode c _) u
        exact agreeOn_setNode (by rw [hgc.slotID]; exact hu)
      refine ⟨hagree, hring, ?_, ?_, ?_, fun hcl => ?_, rfl, le_rfl, ?_⟩
      · refine ⟨hgc.lt, ?_, ?_, ?_, ?_, ?_, ?_, ?_⟩ <;> show _ <;>
          rw [show (s.lockLight t q (some c)).1 = c from rfl, hnode]
        · exact hgc.slotID
        · exact hgc.beGrant
        · exact hgc.doRemove
        · exact hgc.cvs
        · exact hgc.decision_ne
        · exact hgc.flag_light
        · exact le_trans hgc.decision_le le_sup_left
      · rw [show (s.lockLight t q (some c)).1 = c from rfl, hnode]
        exact le_sup_right
      · rw [show (s.lockLight t q (some c)).1 = c from rfl, hnode]
        rcases ht.slotFlag c hc with hf | ⟨_, x, q', hp⟩
        · exact Or.inl hf
        · exact absurd hp (hnw _ _ _ _)
      · rw [show (s.lockLight t q (some c)).1 = c from rfl, hnode]
        rcases ht.exact hcl c hc with he | ⟨x, q', new, hp, _⟩
        · rw [← he]
        · exact absurd hp (hnw _ _ _ _)
      · funext u
        by_cases hu : u = t
        · subst hu
          rw [Function.update_self, h.held_of_mem hc,
            held_of_singleton (s := (s.lockLight u q (some c)).2) (c := c) hring, hnode]
        · rw [Function.update_of_ne hu]
          exact (hagree u hu).held (h.tx u)
  | none =>
      -- a new node, granted and linked at once
      have hnode : (s.lockLight t q none).2.nodes s.nextNode
          = { waitNode t q none with beGrant := true } := by
        simp [LockItem.lockLight, LockItem.allocLockNodeAndInit, LockItem.setNode,
          LockItem.addLockNode, waitNode]
      have hring' : (s.lockLight t q none).2.transLockNode t = [s.nextNode] := by
        show Function.update s.transLockNode t (s.transLockNode t ++ [s.nextNode]) t = _
        rw [Function.update_self, hring]
        rfl
      have hagree : ∀ u, u ≠ t → AgreeOn s (s.lockLight t q none).2 u := by
        intro u hu
        refine ⟨Function.update_of_ne hu _ _, fun d hd _ => ?_, fun _ _ _ => Iff.rfl, rfl,
          Nat.le_succ _⟩
        show Function.update (Function.update _ _ _) _ _ d = _
        rw [Function.update_of_ne (Nat.ne_of_lt hd), Function.update_of_ne (Nat.ne_of_lt hd)]
      refine ⟨hagree, hring', grantedNode_of_request (Nat.lt_succ_self _) hq hnode, ?_, ?_,
        fun _ => ?_, rfl, Nat.le_succ _, ?_⟩
      · rw [show (s.lockLight t q none).1 = s.nextNode from rfl, hnode]
        exact le_rfl
      · rw [show (s.lockLight t q none).1 = s.nextNode from rfl, hnode]
        exact Or.inr ⟨ht.slotFresh _ le_rfl, rfl⟩
      · rw [show (s.lockLight t q none).1 = s.nextNode from rfl, hnode]
        show q.lockMode = getDecision (lockModeToMask q.lockMode) ⊔ q.lockMode
        rw [getDecision_lockModeToMask, sup_idem]
      · funext u
        by_cases hu : u = t
        · subst hu
          rw [Function.update_self, held_of_singleton hring', held_of_nil hring, hnode]
          exact (bot_sup_eq _).symm
        · rw [Function.update_of_ne hu]
          exact (hagree u hu).held (h.tx u)

/-- The other transactions do not notice a grant and its slot. -/
theorem LockedBy.agreeOn_addFlag {q : LockReq} {slt : NodeId → List LockMode}
    (hl : LockedBy s t q slt clean c s') {u : TxSlot} (hu : u ≠ t) :
    AgreeOn s (s'.addFlag c q.lockMode) u := by
  refine (hl.agree u hu).trans (agreeOn_setNode ?_)
  rw [hl.node.slotID]
  exact hu

/-- **A granted request with its slot keeps the ownership invariant.** -/
theorem own_lockDone (h : Own n clean s pc sl) {q : LockReq}
    (hl : LockedBy s t q (sl t) clean c s') (hlt : t < n)
    (hnw : ∀ x q' cur' new, pc t ≠ .waitForLock x q' cur' new) :
    Own n clean (s'.addFlag c q.lockMode)
      (Function.update pc t .idle) (Function.update sl t (slAdd (sl t) c q.lockMode)) := by
  refine h.step t (fun u hu => hl.agreeOn_addFlag hu) ?_ ?_ (fun r hr => Or.inl ?_)
  · exact .lockDone hlt hl.ring hl.node hl.le hl.flag
      (fun d hd => (h.tx t).slotFresh d (le_trans hl.next hd)) hl.exact
  · show s'.request.Nodup
    rw [hl.request]
    exact h.reqNodup
  · have hr' : r ∈ s.request := hl.request ▸ hr
    refine ⟨hr', fun hrt => ?_⟩
    obtain ⟨x, q', cur', hp⟩ := h.req r hr'
    rw [hrt] at hp
    exact hnw _ _ _ _ hp

/-! ## §3. A transaction moves on, waits, and wakes up. -/

/-- A transaction that is not waiting goes to another place; its ring and nodes
    are as before. -/
theorem OwnAt.move {p p' : Pc} {slt : NodeId → List LockMode} (h : OwnAt n clean s t p slt)
    (hnw : ∀ x q cur new, p ≠ .waitForLock x q cur new)
    (hring : s'.transLockNode t = s.transLockNode t)
    (hnodes : ∀ c ∈ s.transLockNode t, s'.nodes c = s.nodes c) (hnext : s.nextNode ≤ s'.nextNode)
    (hlt : p' ≠ .idle → t < n) (hpc : PcAt s' slt t p') : OwnAt n clean s' t p' slt where
  lt hp := hp.elim hlt (fun hr => h.lt (Or.inr (hring ▸ hr)))
  ring := hring ▸ h.ring
  node c hc := by
    rw [hring] at hc
    exact (h.node c hc).congr (hnodes c hc) hnext
  pc := hpc
  slotFlag c hc := by
    rw [hring] at hc
    rw [hnodes c hc]
    rcases h.slotFlag c hc with hf | ⟨_, x, q, hp⟩
    · exact Or.inl hf
    · exact absurd hp (hnw _ _ _ _)
  slotFresh c hc := h.slotFresh c (le_trans hnext hc)
  exact hcl c hc := by
    rw [hring] at hc
    rw [hnodes c hc]
    rcases h.exact hcl c hc with he | ⟨x, q, new, hp, _⟩
    · exact Or.inl he
    · exact absurd hp (hnw _ _ _ _)

/-- A transaction that is not waiting has no request in the list. -/
theorem Own.not_owner (h : Own n clean s pc sl)
    (hnw : ∀ x q cur new, pc t ≠ .waitForLock x q cur new) {r : NodeId} (hr : r ∈ s.request) :
    (s.nodes r).slotID ≠ t := by
  intro hrt
  obtain ⟨x, q, cur, hp⟩ := h.req r hr
  rw [hrt] at hp
  exact hnw _ _ _ _ hp

/-- A transaction may move on without touching the item. -/
theorem own_move (h : Own n clean s pc sl) {p' : Pc}
    (hnw : ∀ x q cur new, pc t ≠ .waitForLock x q cur new)
    (hlt : p' ≠ .idle → t < n) (hpc : PcAt s (sl t) t p') :
    Own n clean s (Function.update pc t p') sl := by
  rw [← Function.update_eq_self t sl]
  exact h.step t (fun u _ => .refl s u)
    ((h.tx t).move hnw rfl (fun _ _ => rfl) le_rfl hlt hpc) h.reqNodup
    (fun r hr => Or.inl ⟨hr, h.not_owner hnw hr⟩)

/-- **What a new request does** to the lists of the item and to its nodes. -/
theorem addRequest_spec (s : LockItem) (t : TxSlot) (q : LockReq) (cur : Option NodeId) :
    let s' := (s.addRequest t q cur).2
    (s.addRequest t q cur).1 = s.nextNode ∧ s'.nextNode = s.nextNode + 1
      ∧ s'.nodes = Function.update s.nodes s.nextNode (waitNode t q cur)
      ∧ s'.transLockNode = s.transLockNode
      ∧ s'.request = (match cur with
          | some _ => s.nextNode :: s.request
          | none => s.request ++ [s.nextNode])
      ∧ s'.blocked = Function.update s.blocked t true := by
  cases cur with
  | none => exact ⟨rfl, rfl, rfl, rfl, rfl, rfl⟩
  | some c =>
      refine ⟨rfl, rfl, ?_, rfl, rfl, rfl⟩
      simp [LockItem.addRequest, LockItem.allocLockNodeAndInit, LockItem.setNode, waitNode]

/-- The new node joins the request list, -/
theorem mem_request_addRequest (s : LockItem) (t : TxSlot) (q : LockReq) (cur : Option NodeId)
    (r : NodeId) : r ∈ (s.addRequest t q cur).2.request ↔ r = s.nextNode ∨ r ∈ s.request := by
  obtain ⟨-, -, -, -, hreq, -⟩ := addRequest_spec s t q cur
  rw [hreq]
  cases cur with
  | none => simp [or_comm]
  | some c => simp

/-- and the nodes in use stay. -/
theorem nodes_addRequest (s : LockItem) (t : TxSlot) (q : LockReq) (cur : Option NodeId)
    {d : NodeId} (hd : d < s.nextNode) : (s.addRequest t q cur).2.nodes d = s.nodes d := by
  obtain ⟨-, -, hnodes, -, -, -⟩ := addRequest_spec s t q cur
  rw [hnodes, Function.update_of_ne (Nat.ne_of_lt hd)]

/-- The other transactions do not notice a new request. -/
theorem agreeOn_addRequest (s : LockItem) (q : LockReq) (cur : Option NodeId) {u : TxSlot}
    (hu : u ≠ t) : AgreeOn s (s.addRequest t q cur).2 u := by
  obtain ⟨-, hnext, -, hring, -, hb⟩ := addRequest_spec s t q cur
  refine ⟨by rw [hring], fun d hd _ => nodes_addRequest s t q cur hd, fun d hd _ => ?_, ?_, ?_⟩
  · rw [mem_request_addRequest]
    exact or_iff_right (Nat.ne_of_lt hd)
  · rw [hb, Function.update_of_ne hu]
  · rw [hnext]
    exact Nat.le_succ _

/-- **A request that has to wait.** -/
theorem own_enqueue (h : Own n clean s pc sl) {x : ItemId} {q : LockReq} {cur : Option NodeId}
    (hring : s.transLockNode t = cur.toList) (hq : q.lockMode ≠ .nlock) (hlt : t < n)
    (hnw : ∀ x q' cur' new, pc t ≠ .waitForLock x q' cur' new) :
    Own n clean (s.addRequest t q cur).2
      (Function.update pc t (.waitForLock x q cur (s.addRequest t q cur).1)) sl := by
  obtain ⟨hid, hnext, hnodes, hring', hreq, hb⟩ := addRequest_spec s t q cur
  have hmem := mem_request_addRequest s t q cur
  have hnode : (s.addRequest t q cur).2.nodes s.nextNode = waitNode t q cur := by
    rw [hnodes, Function.update_self]
  have hfresh : s.nextNode ∉ s.request := by
    intro hr
    obtain ⟨_, _, _, _, _, hlt, _⟩ := h.waiter hr
    exact Nat.lt_irrefl _ hlt
  rw [← Function.update_eq_self t sl, hid]
  refine h.step t (fun u hu => agreeOn_addRequest s q cur hu) ?_ ?_ ?_
  · refine (h.tx t).move hnw (by rw [hring'])
      (fun d hd => nodes_addRequest s t q cur ((h.tx t).node d hd).lt)
      (by rw [hnext]; exact Nat.le_succ _) (fun _ => hlt) ?_
    refine ⟨hq, by rw [hnext]; exact Nat.lt_succ_self _, (h.tx t).slotFresh _ le_rfl,
      .blocked ((hmem _).2 (Or.inl rfl)) ?_ ?_ hnode⟩
    · rw [hb, Function.update_self]
    · rw [hring', hring]
  · rw [hreq]
    cases cur with
    | none =>
        exact List.nodup_append.2 ⟨h.reqNodup, List.nodup_singleton _, by
          intro a ha b hb'
          rw [List.mem_singleton.1 hb']
          rintro rfl
          exact hfresh ha⟩
    | some c => exact List.nodup_cons.2 ⟨hfresh, h.reqNodup⟩
  · intro r hr
    rcases (hmem r).1 hr with rfl | hr
    · exact Or.inr ⟨by rw [hnode]; rfl, x, q, cur, rfl⟩
    · exact Or.inl ⟨hr, h.not_owner hnw hr⟩

/-- **A resumed transaction takes its lock**: the node is the one it converted,
    or the one that was granted behind its back. -/
theorem own_resume (h : Own n clean s pc sl) {x : ItemId} {q : LockReq} {cur : Option NodeId}
    {new : NodeId} (hpc : pc t = .waitForLock x q cur new) (hb : s.blocked t = false) :
    ∃ c, c = ((s.nodes new).cvsLockNode).getD new ∧ s.transLockNode t = [c]
      ∧ Own n clean
        (s.addFlag c q.lockMode)
        (Function.update pc t .idle) (Function.update sl t (slAdd (sl t) c q.lockMode)) := by
  have ht := h.tx t
  have hat := ht.pc
  rw [hpc] at hat
  obtain ⟨hq, hlt, hsl, hw⟩ := hat
  have htn : t < n := ht.lt (Or.inl (by rw [hpc]; simp))
  have hnotreq : new ∉ s.request := by
    cases hw with
    | blocked _ hb' => rw [hb] at hb'; cases hb'
    | granted hreq => exact hreq
    | merged _ hreq => exact hreq
  -- no request of the queue is of the transaction that resumes
  have hothers : ∀ r ∈ s.request, r ∈ s.request ∧ (s.nodes r).slotID ≠ t := by
    intro r hr
    refine ⟨hr, fun hrt => ?_⟩
    obtain ⟨x', q', cur', hp⟩ := h.req r hr
    rw [hrt, hpc] at hp
    cases hp
    exact hnotreq hr
  cases hw with
  | blocked _ hb' => rw [hb] at hb'; cases hb'
  -- its own node was granted
  | granted hreq _ hcur hring hnode =>
      have hc : new ∈ s.transLockNode t := by rw [hring]; exact List.mem_singleton_self _
      refine ⟨new, by rw [hnode]; rfl, hring, h.step t (fun u hu => agreeOn_setNode ?_) ?_
        h.reqNodup (fun r hr => Or.inl (hothers r hr))⟩
      · rw [h.slotID_of_mem hc]
        exact hu
      · refine .lockDone htn hring (ht.node new hc) ?_ (Or.inr ⟨hsl, ?_⟩) ht.slotFresh
          (fun _ => ?_) <;> rw [hnode]
        · exact le_rfl
        · rfl
        · show q.lockMode = getDecision (lockModeToMask q.lockMode) ⊔ q.lockMode
          rw [getDecision_lockModeToMask, sup_idem]
  -- its request was merged into the node it held
  | merged c hreq _ hcur hring hle hnode =>
      have hc : c ∈ s.transLockNode t := by rw [hring]; exact List.mem_singleton_self _
      refine ⟨c, by rw [hnode]; rfl, hring, h.step t (fun u hu => agreeOn_setNode ?_) ?_
        h.reqNodup (fun r hr => Or.inl (hothers r hr))⟩
      · rw [h.slotID_of_mem hc]
        exact hu
      · refine .lockDone htn hring (ht.node c hc) hle ?_ ht.slotFresh (fun hcl => ?_)
        · rcases ht.slotFlag c hc with hf | ⟨_, x', q', hp⟩
          · exact Or.inl hf
          · rw [hpc, hcur] at hp
            cases hp
        · rcases ht.exact hcl c hc with he | ⟨x', q', new', hp, _, he⟩
          · rw [he] at hle ⊢
            exact (sup_eq_left.2 hle).symm
          · rw [hpc] at hp
            cases hp
            exact he

/-! ## §4. A release. -/

/-- The mode that is left on a node when a slot, or the whole node, is released. -/
def keptMode (flag : Mask) : Option LockMode → LockMode
  | some m => getDecision (flag &&& ~~~ lockModeToMask m)
  | none => .nlock

/-- What is kept of a mode lies below it. -/
theorem keptMode_le {flag : Mask} (hf : flag &&& flagLightMode = 0) (l : Option LockMode) :
    keptMode flag l ≤ getDecision flag := by
  cases l with
  | none => exact bot_le
  | some m => exact getDecision_mono_clear flag hf m

/-- The ring of a transaction with one node is empty afterwards. -/
theorem removeLockNode_ring (s : LockItem) (hring : s.transLockNode t = [c]) :
    (s.removeLockNode c t).transLockNode t = [] := by
  show Function.update _ _ _ t = _
  rw [Function.update_self, hring]
  simp

/-- Unlinking is not seen by another transaction. -/
theorem agreeOn_removeLockNode {u : TxSlot} (hu : u ≠ t) : AgreeOn s (s.removeLockNode c t) u :=
  ⟨Function.update_of_ne hu _ _, fun _ _ _ => rfl, fun _ _ _ => Iff.rfl, rfl, le_rfl⟩

/-- The light-mode release, seen from the outside: the node is gone, or its flag
    and mode went down. -/
theorem unlockLight_cases (s : LockItem) (t : TxSlot) (c : NodeId) (l : Option LockMode)
    (hf : (s.nodes c).flag &&& flagLightMode = 0) :
    (∃ N, s.unlockLight t c l = ({ s with nodes := Function.update s.nodes c N } :
        LockItem).removeLockNode c t ∧ N.slotID = (s.nodes c).slotID
        ∧ keptMode (s.nodes c).flag l = .nlock)
    ∨ (∃ m, l = some m ∧ keptMode (s.nodes c).flag l ≠ .nlock
      ∧ s.unlockLight t c l = { s with
          nodes := Function.update s.nodes c { s.nodes c with
            flag := (s.nodes c).flag &&& ~~~ lockModeToMask m
            lockMode := keptMode (s.nodes c).flag l } }) := by
  cases l with
  | none =>
      refine Or.inl ⟨s.nodes c, ?_, rfl, rfl⟩
      rw [Function.update_eq_self]
      rfl
  | some m =>
      have hfl := and_light_clear hf m
      by_cases h0 : (s.nodes c).flag &&& ~~~ lockModeToMask m = 0
      · refine Or.inl ⟨{ s.nodes c with flag := (s.nodes c).flag &&& ~~~ lockModeToMask m },
          ?_, rfl, ?_⟩
        · simp [LockItem.unlockLight, LockItem.setNode, h0]
        · show getDecision _ = _
          rw [h0]
          rfl
      · refine Or.inr ⟨m, rfl, fun hk => h0 (getDecision_eq_nlock hfl hk), ?_⟩
        have h0' : (s.nodes c).flag &&& ~~~ lockModeToMask m ≠ 0#6 := h0
        simp [LockItem.unlockLight, LockItem.setNode, LockItem.setLockMode, h0', keptMode]

/-- What a release starts from: a granted node of a transaction that does not
    wait; where one slot is released, the node's flag is the mask of its slots. -/
structure Releasable (s : LockItem) (t : TxSlot) (c : NodeId) (l : Option LockMode)
    (slt : NodeId → List LockMode) : Prop where
  mem : c ∈ s.transLockNode t
  notOwner : ∀ r ∈ s.request, (s.nodes r).slotID ≠ t
  flag : ∀ m ∈ l, (s.nodes c).flag = maskOf (slt c)

/-- A node in the ring of a transaction that does not wait can be released. -/
theorem Own.releasable (h : Own n clean s pc sl) (hc : c ∈ s.transLockNode t)
    (hnw : ∀ x q cur new, pc t ≠ .waitForLock x q cur new) (l : Option LockMode) :
    Releasable s t c l (sl t) where
  mem := hc
  notOwner _ hr := h.not_owner hnw hr
  flag m _ := by
    rcases (h.tx t).slotFlag c hc with hf | ⟨_, x, q, hp⟩
    · exact hf
    · exact absurd hp (hnw _ _ _ _)

/-- **A release keeps the ownership invariant**, the slot being unlinked with it. -/
theorem own_unlockLight (h : Own n clean s pc sl) {l : Option LockMode}
    (hrel : Releasable s t c l (sl t)) :
    Own n clean (s.unlockLight t c l) (Function.update pc t .idle)
      (Function.update sl t (slRemove (sl t) c l)) := by
  have ht := h.tx t
  have hc := hrel.mem
  have hgc := ht.node c hc
  have hring := h.ring_of_mem hc
  have hfresh := slRemove_fresh (c := c) l ht.slotFresh
  have hothers : ∀ r ∈ s.request, r ∈ s.request ∧ (s.nodes r).slotID ≠ t :=
    fun r hr => ⟨hr, hrel.notOwner r hr⟩
  have hagree : ∀ N : LockNode, ∀ u, u ≠ t →
      AgreeOn s { s with nodes := Function.update s.nodes c N } u := by
    intro N u hu
    refine agreeOn_setNode (f := fun _ => N) ?_
    rw [hgc.slotID]
    exact hu
  rcases unlockLight_cases s t c l hgc.flag_light with ⟨N, e, -, -⟩ | ⟨m, rfl, hne, e⟩
  · -- the last slot goes, and the node with it
    rw [e]
    refine h.step t (fun u hu => (hagree N u hu).trans (agreeOn_removeLockNode hu)) ?_ h.reqNodup
      (fun r hr => Or.inl (hothers r hr))
    exact .of_nil (by simp) (removeLockNode_ring _ hring) trivial hfresh
  · -- another slot is left: the node has its mode from now on
    rw [e]
    refine h.step t (hagree _) ?_ h.reqNodup (fun r hr => Or.inl (hothers r hr))
    have hnode : Function.update s.nodes c { s.nodes c with
          flag := (s.nodes c).flag &&& ~~~ lockModeToMask m
          lockMode := keptMode (s.nodes c).flag (some m) } c
        = { s.nodes c with
          flag := (s.nodes c).flag &&& ~~~ lockModeToMask m
          lockMode := keptMode (s.nodes c).flag (some m) } := Function.update_self ..
    refine .of_singleton (ht.lt (Or.inr (List.ne_nil_of_mem hc))) hring ?_ trivial (Or.inl ?_)
      hfresh (fun _ => Or.inl ?_)
    · refine ⟨hgc.lt, ?_, ?_, ?_, ?_, ?_, ?_, ?_⟩ <;> simp only [hnode]
      · exact hgc.slotID
      · exact hgc.beGrant
      · exact hgc.doRemove
      · exact hgc.cvs
      · exact hne
      · exact and_light_clear hgc.flag_light m
      · exact le_rfl
    · simp only [hnode]
      rw [slRemove_some, Function.update_self, maskOf_filter_ne, hrel.flag m rfl]
    · simp only [hnode]
      rfl

/-- **On the lock queue a release lowers what the transaction holds.** -/
theorem held_unlockLight (h : Own n clean s pc sl) (hc : c ∈ s.transLockNode t)
    (l : Option LockMode) :
    (s.unlockLight t c l).held = Function.update s.held t (keptMode (s.nodes c).flag l) := by
  have hgc := (h.tx t).node c hc
  have hring := h.ring_of_mem hc
  have hother : ∀ N : LockNode, ∀ u, u ≠ t → ∀ d ∈ s.transLockNode u,
      Function.update s.nodes c N d = s.nodes d := by
    intro N u hu d hd
    refine Function.update_of_ne ?_ _ _
    rintro rfl
    exact hu ((h.slotID_of_mem hd).symm.trans hgc.slotID)
  funext u
  rcases unlockLight_cases s t c l hgc.flag_light with ⟨N, e, -, hk⟩ | ⟨m, rfl, hne, e⟩
  · rw [e, hk]
    by_cases hu : u = t
    · subst hu
      rw [Function.update_self]
      exact held_of_nil (removeLockNode_ring _ hring)
    · rw [Function.update_of_ne hu]
      exact held_congr (Function.update_of_ne hu _ _) (hother N u hu)
  · rw [e]
    by_cases hu : u = t
    · subst hu
      rw [Function.update_self]
      refine held_of_ring (c := c) (by exact hring) ?_
      simp only [Function.update_self]
    · rw [Function.update_of_ne hu]
      exact held_congr rfl (hother _ u hu)

/-- **The counters follow a heavy release**: up to them it is the light-mode
    release, the transaction's own ring included. -/
theorem releaseHeavy_spec (h : Own n clean s pc sl) (hv : Heavy s) (hc : c ∈ s.transLockNode t)
    (l : Option LockMode) :
    let s₂ := if (s.releaseHeavy c l).1 then (s.releaseHeavy c l).2.removeLockNode c t
      else (s.releaseHeavy c l).2
    SameOwn (s.unlockLight t c l) s₂ ∧ Heavy s₂ := by
  have hgc := (h.tx t).node c hc
  have hring := h.ring_of_mem hc
  have hcg : c ∈ s.grant := (hv.mem c).2 ⟨t, hc⟩
  -- the grant list without the node is the union of the lists of all transactions without it
  have hmem : ∀ d, d ∈ s.grant.erase c ↔
      ∃ u, d ∈ Function.update s.transLockNode t ((s.transLockNode t).erase c) u := by
    intro d
    rw [hv.group.nodup.mem_erase_iff, hv.mem]
    constructor
    · rintro ⟨hdc, u, hu⟩
      refine ⟨u, ?_⟩
      by_cases hut : u = t
      · subst hut
        rw [hring, List.mem_singleton] at hu
        exact absurd hu hdc
      · rwa [Function.update_of_ne hut]
    · rintro ⟨u, hu⟩
      by_cases hut : u = t
      · subst hut
        rw [Function.update_self, hring] at hu
        simp at hu
      · rw [Function.update_of_ne hut] at hu
        refine ⟨?_, u, hu⟩
        rintro rfl
        exact hut ((h.slotID_of_mem hu).symm.trans hgc.slotID)
  unfold LockItem.releaseHeavy
  simp only [hgc.beGrant, ↓reduceIte]
  cases l with
  | none =>
      refine ⟨⟨rfl, rfl, rfl, rfl, rfl⟩, ⟨hv.mutex, hv.group.remove hcg, hmem, hv.reqCnt⟩⟩
  | some m =>
      -- the last slot of the node is released, or others keep the node with a lower mode
      by_cases h0 : (s.nodes c).flag &&& ~~~ lockModeToMask m = 0
      · have e : s.unlockLight t c (some m) = (s.setNode c (fun nd => { nd with
            flag := nd.flag &&& ~~~ lockModeToMask m })).removeLockNode c t := by
          simp [LockItem.unlockLight, LockItem.setNode, h0]
        rw [e]
        simp only [LockItem.setNode, Function.update_self, LockItem.decTblLockModeAndTryUpdate, h0,
          ne_eq, not_true_eq_false, ↓reduceIte]
        refine ⟨⟨rfl, rfl, rfl, rfl, rfl⟩, ⟨hv.mutex, (hv.group.remove hcg).congr ?_, hmem,
          hv.reqCnt⟩⟩
        intro d hd
        refine congrArg LockNode.lockMode (Function.update_of_ne ?_ _ _)
        rintro rfl
        exact hv.group.nodup.not_mem_erase hd
      · have e : s.unlockLight t c (some m) = (s.setNode c (fun nd => { nd with
            flag := nd.flag &&& ~~~ lockModeToMask m })).setLockMode c
              (getDecision ((s.nodes c).flag &&& ~~~ lockModeToMask m)) := by
          have h0' : (s.nodes c).flag &&& ~~~ lockModeToMask m ≠ 0#6 := h0
          simp [LockItem.unlockLight, LockItem.setNode, h0']
        rw [e]
        simp only [LockItem.setNode, LockItem.setLockMode, Function.update_self,
          LockItem.decTblLockModeAndTryUpdate, LockItem.incTblLockModeAndUpdate, h0,
          ne_eq, not_false_eq_true, ↓reduceIte, Bool.false_eq_true, Function.update_idem]
        refine ⟨⟨rfl, rfl, rfl, rfl, rfl⟩, ⟨hv.mutex, (hv.group.lower hcg _).congr ?_, hv.mem,
          hv.reqCnt⟩⟩
        intro d _
        by_cases hdc : d = c
        · subst hdc
          simp only [Function.update_self]
        · simp only [Function.update_of_ne hdc]

/-! ## §5. A wait that is given up. -/

/-- **A blocked transaction takes its request back.** -/
theorem own_giveUp (h : Own n clean s pc sl) {x : ItemId} {q : LockReq} {cur : Option NodeId}
    {new : NodeId} (hpc : pc t = .waitForLock x q cur new) (hreq : new ∈ s.request) :
    Own n clean ((s.resumeTrans t).removeRequest new) (Function.update pc t .idle) sl := by
  have ht := h.tx t
  have hslot : (s.nodes new).slotID = t := by
    have hat := ht.pc
    rw [hpc] at hat
    exact hat.2.2.2.slotID
  obtain ⟨x', q', cur', hpc', hq, hlt, hsl, hb, hring, hnode⟩ := h.waiter hreq
  rw [hslot] at hpc' hsl hb hring hnode
  rw [hpc] at hpc'
  cases hpc'
  -- the others have other requests
  have hne : ∀ d, (s.nodes d).slotID ≠ t → d ≠ new := by
    rintro d hd rfl
    exact hd hslot
  rw [← Function.update_eq_self t sl]
  refine h.step t (fun u hu => ?_) ?_ (h.reqNodup.erase new) (fun r hr => Or.inl ?_)
  · refine ⟨rfl, fun _ _ _ => rfl, fun d _ hd => List.mem_erase_of_ne (hne d (by rwa [hd])),
      Function.update_of_ne hu _ _, le_rfl⟩
  · -- a transaction without a node is left with nothing
    cases cur with
    | none => exact .of_nil (by simp) hring trivial ht.slotFresh
    | some c =>
        have hc : c ∈ s.transLockNode t := by rw [hring]; exact List.mem_singleton_self _
        refine .of_singleton (ht.lt (Or.inr (List.ne_nil_of_mem hc))) hring
          ((ht.node c hc).congr rfl le_rfl) trivial (Or.inl ?_) ht.slotFresh (fun hcl => Or.inl ?_)
        · rcases ht.slotFlag c hc with hf | ⟨_, x', q', hp⟩
          · exact hf
          · rw [hpc] at hp
            cases hp
        · rcases ht.exact hcl c hc with he | ⟨x', q', new', hp, hnew, _⟩
          · exact he
          · rw [hpc] at hp
            cases hp
            exact absurd hreq hnew
  · -- it has no second request in the list
    have hr₀ : r ∈ s.request.erase new := hr
    have hr' : r ∈ s.request := List.mem_of_mem_erase hr₀
    refine ⟨hr', fun hrt => ?_⟩
    rw [h.eq_of_slotID hr' hreq (hrt.trans hslot.symm)] at hr₀
    exact h.reqNodup.not_mem_erase hr₀

/-- A transaction whose conversion was merged walks away: allowed only where node
    modes need not be exact. -/
theorem own_walkAway (h : Own n clean s pc sl) (hcl : ¬ clean) {x : ItemId} {q : LockReq}
    {c new : NodeId} (hpc : pc t = .waitForLock x q (some c) new) (hreq : new ∉ s.request) :
    Own n clean s (Function.update pc t .idle) sl := by
  have ht := h.tx t
  rw [← Function.update_eq_self t sl]
  refine h.step t (fun u _ => .refl s u) ?_ h.reqNodup (fun r hr => Or.inl ⟨hr, fun hrt => ?_⟩)
  · refine ⟨fun hp => ht.lt (hp.elim (fun h => absurd rfl h) Or.inr), ht.ring, ht.node, trivial,
      fun d hd => ?_, ht.slotFresh, fun hcl' => absurd hcl' hcl⟩
    rcases ht.slotFlag d hd with hf | ⟨_, x', q', hp⟩
    · exact Or.inl hf
    · rw [hpc] at hp
      cases hp
  · obtain ⟨x', q', cur', hp⟩ := h.req r hr
    rw [hrt, hpc] at hp
    cases hp
    exact hreq hr

/-! ## §6. The ring is unlinked last. -/

/-- A change that keeps the owner of a node keeps all owners. -/
theorem slotID_setNode {f : LockNode → LockNode} (hf : ∀ nd, (f nd).slotID = nd.slotID)
    (d : NodeId) : ((s.setNode c f).nodes d).slotID = (s.nodes d).slotID := by
  unfold LockItem.setNode
  by_cases hd : d = c
  · subst hd
    simp only [Function.update_self, hf]
  · simp only [Function.update_of_ne hd]

theorem slotID_setLockMode (m : LockMode) (d : NodeId) :
    ((s.setLockMode c m).nodes d).slotID = (s.nodes d).slotID :=
  slotID_setNode (f := fun nd => { nd with lockMode := m }) (fun _ => rfl) d

theorem slotID_setDoRemove (d : NodeId) :
    ((s.setNode c (fun nd => { nd with doRemove := true })).nodes d).slotID = (s.nodes d).slotID :=
  slotID_setNode (f := fun nd => { nd with doRemove := true }) (fun _ => rfl) d

theorem slotID_setBeGrant (d : NodeId) :
    ((s.setNode c (fun nd => { nd with beGrant := true })).nodes d).slotID = (s.nodes d).slotID :=
  slotID_setNode (f := fun nd => { nd with beGrant := true }) (fun _ => rfl) d

/-- Owners stay in a wakeup to light mode, -/
theorem slotID_lightRequest (r d : NodeId) :
    ((s.lightRequest r).nodes d).slotID = (s.nodes d).slotID := by
  unfold LockItem.lightRequest
  simp only [LockItem.resumeTrans]
  split
  · exact (slotID_setDoRemove d).trans (slotID_setLockMode _ d)
  · exact slotID_setBeGrant d

/-- which commutes with unlinking another transaction's node. -/
theorem lightRequest_removeLockNode {r : NodeId} (hr : (s.nodes r).slotID ≠ t) :
    (s.removeLockNode c t).lightRequest r = (s.lightRequest r).removeLockNode c t := by
  have hnodes : (s.removeLockNode c t).nodes = s.nodes := rfl
  unfold LockItem.lightRequest
  cases hcvs : (s.nodes r).cvsLockNode with
  | none =>
      simp only [LockItem.removeRequest, hnodes, hcvs, LockItem.setNode, Function.update_self]
      simp only [LockItem.removeLockNode, LockItem.addLockNode, LockItem.resumeTrans,
        Function.update_of_ne hr, Function.update_of_ne (Ne.symm hr)]
      rw [Function.update_comm hr]
  | some d => simp only [LockItem.removeRequest, hnodes, hcvs]; rfl

/-- Owners stay in a round of the wakeup, -/
theorem slotID_wakeRound {r : NodeId} (e : s.wakeupHead r = some s') (d : NodeId) :
    ((wakeRound s' r).nodes d).slotID = (s.nodes d).slotID := by
  show (s'.nodes d).slotID = _
  unfold LockItem.wakeupHead at e
  split at e
  · dsimp only at e
    split at e <;> cases e
    · exact (slotID_setDoRemove d).trans (slotID_setLockMode _ d)
    · exact slotID_setBeGrant d
  · split at e
    · split at e <;> cases e
      exact (slotID_setDoRemove d).trans (slotID_setLockMode _ d)
    · cases e

/-- and the test of the next waiter does not see the unlinked node. -/
theorem wakeupHead_removeLockNode {r : NodeId} (hr : (s.nodes r).slotID ≠ t) :
    (s.removeLockNode c t).wakeupHead r
      = (s.wakeupHead r).map (fun s' => s'.removeLockNode c t) := by
  have hnodes : (s.removeLockNode c t).nodes = s.nodes := rfl
  have hG : (s.removeLockNode c t).grantLockMode = s.grantLockMode := rfl
  have hcnt : (s.removeLockNode c t).grantCnt = s.grantCnt := rfl
  unfold LockItem.wakeupHead
  simp only [hnodes, hG, hcnt]
  cases hcvs : (s.nodes r).cvsLockNode with
  | none =>
      by_cases hcomp : compatibleTBL (s.nodes r).lockMode s.grantLockMode = true
      · simp only [hcomp, ↓reduceIte, LockItem.removeRequest, hnodes, hcvs, Option.map_some,
          LockItem.incTblLockModeAndUpdate, LockItem.addGrant, LockItem.setNode,
          Function.update_self]
        simp only [LockItem.removeLockNode, LockItem.addLockNode, Function.update_of_ne hr,
          Function.update_of_ne (Ne.symm hr)]
        rw [Function.update_comm hr]
      · simp [hcomp]
  | some d =>
      by_cases hcomp : compatibleTBL (s.nodes r).lockMode s.grantLockMode = true
      · simp only [hcomp, ↓reduceIte, LockItem.removeRequest, hnodes, hcvs, Option.map_some]
        rfl
      · by_cases h1 : s.grantCnt = 1
        · simp only [hcomp, h1, ↓reduceIte, Option.map_some, Bool.false_eq_true]
          rfl
        · simp [hcomp, h1]

/-- The whole wakeup commutes with unlinking another transaction's node, -/
private theorem wakeupLoop_removeLockNode : ∀ (rs : List NodeId) (s : LockItem),
    (∀ r ∈ rs, (s.nodes r).slotID ≠ t) →
    LockItem.wakeupLoop rs (s.removeLockNode c t) = (LockItem.wakeupLoop rs s).removeLockNode c t
  | [], _, _ => rfl
  | r :: rest, s, h => by
      have hr := h r List.mem_cons_self
      rw [LockItem.wakeupLoop, LockItem.wakeupLoop, wakeupHead_removeLockNode hr]
      cases e : s.wakeupHead r with
      | none => rfl
      | some s' =>
          refine wakeupLoop_removeLockNode rest (wakeRound s' r) fun d hd => ?_
          rw [slotID_wakeRound e]
          exact h d (List.mem_cons_of_mem _ hd)

/-- and so does the wakeup to light mode -/
private theorem foldl_lightRequest_removeLockNode : ∀ (rs : List NodeId) (s : LockItem),
    (∀ r ∈ rs, (s.nodes r).slotID ≠ t) →
    rs.foldl LockItem.lightRequest (s.removeLockNode c t)
      = (rs.foldl LockItem.lightRequest s).removeLockNode c t
  | [], _, _ => rfl
  | r :: rest, s, h => by
      rw [List.foldl_cons, List.foldl_cons, lightRequest_removeLockNode (h r List.mem_cons_self)]
      refine foldl_lightRequest_removeLockNode rest (s.lightRequest r) fun d hd => ?_
      rw [slotID_lightRequest]
      exact h d (List.mem_cons_of_mem _ hd)

/-- and the emptying of the grant list. -/
private theorem foldl_removeGrant_removeLockNode : ∀ (cs : List NodeId) (s : LockItem),
    cs.foldl LockItem.removeGrant (s.removeLockNode c t)
      = (cs.foldl LockItem.removeGrant s).removeLockNode c t
  | [], _ => rfl
  | d :: cs, s => foldl_removeGrant_removeLockNode cs (s.removeGrant d)

/-- Emptying the grant list keeps the nodes. -/
private theorem nodes_foldl_removeGrant : ∀ (cs : List NodeId) (s : LockItem),
    (cs.foldl LockItem.removeGrant s).nodes = s.nodes
  | [], _ => rfl
  | d :: cs, s => nodes_foldl_removeGrant cs (s.removeGrant d)

/-- **The node leaves its ring after the wake-up in the source; it makes no
    difference to do it before.** -/
theorem toLightOrWakeup_removeLockNode (h : ∀ r ∈ s.request, (s.nodes r).slotID ≠ t) :
    (s.removeLockNode c t).toLightOrWakeup = s.toLightOrWakeup.removeLockNode c t := by
  have hu : (s.removeLockNode c t).unlinkAll = s.unlinkAll := rfl
  unfold LockItem.toLightOrWakeup
  rw [hu]
  split
  · unfold LockItem.toLightMode
    have hreq : ∀ cs : List NodeId, (cs.foldl LockItem.removeGrant s).request = s.request := by
      intro cs
      exact (foldl_removeGrant cs s).1.request
    have hcnt : (s.removeLockNode c t).grantCnt = s.grantCnt := rfl
    have hgrant : (s.removeLockNode c t).grant = s.grant := rfl
    rw [hcnt, hgrant]
    by_cases hpos : s.grantCnt > 0
    · simp only [hpos, ↓reduceIte, foldl_removeGrant_removeLockNode]
      show LockItem.clearLockItem (List.foldl _ _ (s.grant.foldl LockItem.removeGrant s).request) = _
      rw [foldl_lightRequest_removeLockNode]
      · rfl
      · rw [hreq, nodes_foldl_removeGrant]
        exact h
    · simp only [hpos, ↓reduceIte]
      show LockItem.clearLockItem (List.foldl _ _ s.request) = _
      rw [foldl_lightRequest_removeLockNode _ _ h]
      rfl
  · exact wakeupLoop_removeLockNode s.request s h

end Altibase.Sml
