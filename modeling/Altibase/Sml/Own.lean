/-
  Altibase.Sml.Own
  ────────────────
  **WHO OWNS WHICH NODE: THE INVARIANT OF RINGS, WAITERS AND SLOTS.**

  `Own` relates the nodes of one item to the transactions: a transaction has at
  most one granted node of an item (`GrantedNode`), a waiting transaction is in
  one of three situations (`WaitAt`: still blocked, granted behind its back, or
  merged into the node it converts), and a node's flag is the union of the
  masks of its linked slots.

  The invariant is local: `OwnAt` of a transaction reads only its own ring, its
  own nodes and its own place in the request list.  `OwnAt.congr` is the frame
  rule (`AgreeOn`), and `Own.step` assembles the invariant after one
  transaction's data changed.
-/
import Altibase.Sml.LockMgr

namespace Altibase.Sml

open Altibase.Lib

/-! ## §1. One transaction. -/

/-- `c` is a granted node of transaction `t`. -/
structure GrantedNode (s : LockItem) (t : TxSlot) (c : NodeId) : Prop where
  lt : c < s.nextNode
  slotID : (s.nodes c).slotID = t
  beGrant : (s.nodes c).beGrant = true
  doRemove : (s.nodes c).doRemove = false
  cvs : (s.nodes c).cvsLockNode = none
  decision_ne : getDecision (s.nodes c).flag ≠ .nlock
  flag_light : (s.nodes c).flag &&& flagLightMode = 0
  decision_le : getDecision (s.nodes c).flag ≤ (s.nodes c).lockMode

/-- The node that a request puts into the request list. -/
def waitNode (t : TxSlot) (q : LockReq) (cur : Option NodeId) : LockNode where
  slotID := t
  lockMode := q.lockMode
  flag := lockModeToMask q.lockMode
  cvsLockNode := cur
  isExplicitLock := q.isExplicit

/-- The three situations of a transaction in `waitForLock`. -/
inductive WaitAt (s : LockItem) (t : TxSlot) (q : LockReq) (cur : Option NodeId)
    (new : NodeId) : Prop
  | blocked (hreq : new ∈ s.request) (hb : s.blocked t = true)
      (hring : s.transLockNode t = cur.toList) (hnode : s.nodes new = waitNode t q cur)
  | granted (hreq : new ∉ s.request) (hb : s.blocked t = false) (hcur : cur = none)
      (hring : s.transLockNode t = [new])
      (hnode : s.nodes new = { waitNode t q none with beGrant := true })
  | merged (c : NodeId) (hreq : new ∉ s.request) (hb : s.blocked t = false) (hcur : cur = some c)
      (hring : s.transLockNode t = [c]) (hle : q.lockMode ≤ (s.nodes c).lockMode)
      (hnode : s.nodes new = { waitNode t q (some c) with doRemove := true })

/-- What the position of a transaction says about its ring. -/
def PcAt (s : LockItem) (sl : NodeId → List LockMode) (t : TxSlot) : Pc → Prop
  | .idle => True
  | .lightLock _ q cur => s.transLockNode t = cur.toList ∧ q.lockMode.isIntent = true
  | .lockInternal _ q cur => s.transLockNode t = cur.toList ∧ q.lockMode ≠ .nlock
  | .collect _ q cur _ => s.transLockNode t = cur.toList ∧ ¬ q.lockMode ≤ .ixlock
  | .waitForLock _ q cur new =>
      q.lockMode ≠ .nlock ∧ new < s.nextNode ∧ sl new = [] ∧ WaitAt s t q cur new
  | .lightUnlock _ c l => c ∈ s.transLockNode t ∧ ∀ m ∈ l, m ∈ sl c
  | .unlockInternal _ c l => c ∈ s.transLockNode t ∧ ∀ m ∈ l, m ∈ sl c

/-- The invariant of transaction `t` at an item: `p` is its position, `sl` the
    modes of its slots on each node.  `clean` marks the runs in which no wait is
    given up after its conversion was merged; only there a node's mode is exactly
    the decision of its flag. -/
structure OwnAt (n : Nat) (clean : Prop) (s : LockItem) (t : TxSlot) (p : Pc)
    (sl : NodeId → List LockMode) : Prop where
  lt : p ≠ .idle ∨ s.transLockNode t ≠ [] → t < n
  ring : ∃ o : Option NodeId, s.transLockNode t = o.toList
  node : ∀ c ∈ s.transLockNode t, GrantedNode s t c
  pc : PcAt s sl t p
  slotFlag : ∀ c ∈ s.transLockNode t, (s.nodes c).flag = maskOf (sl c)
    ∨ (sl c = [] ∧ ∃ x q, p = .waitForLock x q none c)
  slotFresh : ∀ c, s.nextNode ≤ c → sl c = []
  exact : clean → ∀ c ∈ s.transLockNode t,
    (s.nodes c).lockMode = getDecision (s.nodes c).flag
      ∨ ∃ x q new, p = .waitForLock x q (some c) new ∧ new ∉ s.request
        ∧ (s.nodes c).lockMode = getDecision (s.nodes c).flag ⊔ q.lockMode

/-- The two items agree on everything that belongs to transaction `u`. -/
structure AgreeOn (s s' : LockItem) (u : TxSlot) : Prop where
  ring : s'.transLockNode u = s.transLockNode u
  nodes : ∀ c, c < s.nextNode → (s.nodes c).slotID = u → s'.nodes c = s.nodes c
  request : ∀ c, c < s.nextNode → (s.nodes c).slotID = u → (c ∈ s'.request ↔ c ∈ s.request)
  blocked : s'.blocked u = s.blocked u
  next : s.nextNode ≤ s'.nextNode

/-- A granted node stays granted while it is not written. -/
theorem GrantedNode.congr {s s' : LockItem} {t : TxSlot} {c : NodeId} (h : GrantedNode s t c)
    (e : s'.nodes c = s.nodes c) (hn : s.nextNode ≤ s'.nextNode) : GrantedNode s' t c where
  lt := lt_of_lt_of_le h.lt hn
  slotID := e ▸ h.slotID
  beGrant := e ▸ h.beGrant
  doRemove := e ▸ h.doRemove
  cvs := e ▸ h.cvs
  decision_ne := e ▸ h.decision_ne
  flag_light := e ▸ h.flag_light
  decision_le := e ▸ h.decision_le

/-- A granted node has a mode. -/
theorem GrantedNode.mode_ne {s : LockItem} {t : TxSlot} {c : NodeId} (h : GrantedNode s t c) :
    (s.nodes c).lockMode ≠ .nlock := by
  intro hm
  have hle := h.decision_le
  rw [hm] at hle
  exact h.decision_ne (le_bot_iff.1 hle)

/-- The request a transaction waits with is its own. -/
theorem WaitAt.slotID {s : LockItem} {t : TxSlot} {q : LockReq} {cur : Option NodeId}
    {new : NodeId} (h : WaitAt s t q cur new) : (s.nodes new).slotID = t := by
  cases h with
  | blocked _ _ _ hnode => rw [hnode]; rfl
  | granted _ _ _ _ hnode => rw [hnode]; rfl
  | merged _ _ _ _ _ _ hnode => rw [hnode]; rfl

/-- **The frame rule.**  What another transaction does leaves this one's
    invariant alone. -/
theorem OwnAt.congr {n : Nat} {clean : Prop} {s s' : LockItem} {u : TxSlot} {p : Pc}
    {sl : NodeId → List LockMode} (h : OwnAt n clean s u p sl) (e : AgreeOn s s' u) :
    OwnAt n clean s' u p sl := by
  -- the transaction's own nodes are not written
  have hnode : ∀ c ∈ s.transLockNode u, s'.nodes c = s.nodes c := fun c hc =>
    e.nodes c (h.node c hc).lt (h.node c hc).slotID
  refine ⟨fun hp => h.lt (e.ring ▸ hp), e.ring ▸ h.ring, fun c hc => ?_, ?_, fun c hc => ?_,
    fun c hc => h.slotFresh c (le_trans e.next hc), fun hcl c hc => ?_⟩
  · rw [e.ring] at hc
    exact (h.node c hc).congr (hnode c hc) e.next
  · have hpc := h.pc
    cases p with
    | idle => trivial
    | lightLock x q cur => exact ⟨e.ring ▸ hpc.1, hpc.2⟩
    | lockInternal x q cur => exact ⟨e.ring ▸ hpc.1, hpc.2⟩
    | collect x q cur i => exact ⟨e.ring ▸ hpc.1, hpc.2⟩
    | lightUnlock x c l => exact ⟨e.ring ▸ hpc.1, hpc.2⟩
    | unlockInternal x c l => exact ⟨e.ring ▸ hpc.1, hpc.2⟩
    -- of the waiting positions also the request is looked at
    | waitForLock x q cur new =>
        obtain ⟨hq, hlt, hsl, hw⟩ := hpc
        have hnew := e.nodes new hlt hw.slotID
        have hreq' := e.request new hlt hw.slotID
        refine ⟨hq, lt_of_lt_of_le hlt e.next, hsl, ?_⟩
        cases hw with
        | blocked hreq hb hring hn =>
            exact .blocked (hreq'.2 hreq) (e.blocked ▸ hb) (e.ring ▸ hring) (hnew ▸ hn)
        | granted hreq hb hcur hring hn =>
            exact .granted (fun hc => hreq (hreq'.1 hc)) (e.blocked ▸ hb) hcur (e.ring ▸ hring)
              (hnew ▸ hn)
        | merged c hreq hb hcur hring hle hn =>
            have hc : c ∈ s.transLockNode u := by rw [hring]; exact List.mem_singleton_self c
            exact .merged c (fun hc => hreq (hreq'.1 hc)) (e.blocked ▸ hb) hcur (e.ring ▸ hring)
              ((hnode c hc).symm ▸ hle) (hnew ▸ hn)
  · rw [e.ring] at hc
    rw [hnode c hc]
    exact h.slotFlag c hc
  · rw [e.ring] at hc
    rw [hnode c hc]
    rcases h.exact hcl c hc with he | ⟨x, q, new, rfl, hreq, hm⟩
    · exact Or.inl he
    · have hw := h.pc.2.2.2.slotID
      exact Or.inr ⟨x, q, new, rfl, fun hc => hreq ((e.request new h.pc.2.1 hw).1 hc), hm⟩

/-- A transaction without a granted node. -/
theorem OwnAt.of_nil {n : Nat} {clean : Prop} {s : LockItem} {t : TxSlot} {p : Pc}
    {sl : NodeId → List LockMode} (hlt : p ≠ .idle → t < n) (hring : s.transLockNode t = [])
    (hpc : PcAt s sl t p) (hfresh : ∀ c, s.nextNode ≤ c → sl c = []) :
    OwnAt n clean s t p sl where
  lt h := hlt (h.resolve_right (fun h => h hring))
  ring := ⟨none, hring⟩
  node c hc := by rw [hring] at hc; cases hc
  pc := hpc
  slotFlag c hc := by rw [hring] at hc; cases hc
  slotFresh := hfresh
  exact _ c hc := by rw [hring] at hc; cases hc

/-- A transaction with one granted node. -/
theorem OwnAt.of_singleton {n : Nat} {clean : Prop} {s : LockItem} {t : TxSlot} {p : Pc}
    {sl : NodeId → List LockMode} {c : NodeId} (hlt : t < n) (hring : s.transLockNode t = [c])
    (hnode : GrantedNode s t c) (hpc : PcAt s sl t p)
    (hflag : (s.nodes c).flag = maskOf (sl c) ∨ (sl c = [] ∧ ∃ x q, p = .waitForLock x q none c))
    (hfresh : ∀ c, s.nextNode ≤ c → sl c = [])
    (hexact : clean → (s.nodes c).lockMode = getDecision (s.nodes c).flag
      ∨ ∃ x q new, p = .waitForLock x q (some c) new ∧ new ∉ s.request
        ∧ (s.nodes c).lockMode = getDecision (s.nodes c).flag ⊔ q.lockMode) :
    OwnAt n clean s t p sl where
  lt _ := hlt
  ring := ⟨some c, hring⟩
  node d hd := by rw [hring, List.mem_singleton] at hd; exact hd ▸ hnode
  pc := hpc
  slotFlag d hd := by rw [hring, List.mem_singleton] at hd; exact hd ▸ hflag
  slotFresh := hfresh
  exact hcl d hd := by rw [hring, List.mem_singleton] at hd; exact hd ▸ hexact hcl

/-- A freshly granted request is a granted node. -/
theorem grantedNode_of_request {s : LockItem} {t : TxSlot} {q : LockReq} {c : NodeId}
    (hlt : c < s.nextNode) (hq : q.lockMode ≠ .nlock)
    (hnode : s.nodes c = { waitNode t q none with beGrant := true }) : GrantedNode s t c where
  lt := hlt
  slotID := by rw [hnode]; rfl
  beGrant := by rw [hnode]
  doRemove := by rw [hnode]; rfl
  cvs := by rw [hnode]; rfl
  decision_ne := by rw [hnode]; exact (getDecision_lockModeToMask _).trans_ne hq
  flag_light := by rw [hnode]; exact and_light_lockModeToMask _
  decision_le := by rw [hnode]; exact (getDecision_lockModeToMask _).le

/-! ## §2. All transactions. -/

/-- Rings, waiters and slots of one item fit together. -/
structure Own (n : Nat) (clean : Prop) (s : LockItem) (pc : TxSlot → Pc)
    (sl : TxSlot → NodeId → List LockMode) : Prop where
  tx : ∀ t, OwnAt n clean s t (pc t) (sl t)
  reqNodup : s.request.Nodup
  req : ∀ r ∈ s.request, ∃ x q cur, pc (s.nodes r).slotID = .waitForLock x q cur r

variable {n : Nat} {clean : Prop} {s s' : LockItem} {pc : TxSlot → Pc}
  {sl : TxSlot → NodeId → List LockMode}

/-- The transaction whose request is in the list is blocked. -/
theorem Own.waiter (h : Own n clean s pc sl) {r : NodeId} (hr : r ∈ s.request) :
    ∃ x q cur, pc (s.nodes r).slotID = .waitForLock x q cur r
      ∧ q.lockMode ≠ .nlock ∧ r < s.nextNode ∧ sl (s.nodes r).slotID r = []
      ∧ s.blocked (s.nodes r).slotID = true
      ∧ s.transLockNode (s.nodes r).slotID = cur.toList
      ∧ s.nodes r = waitNode (s.nodes r).slotID q cur := by
  obtain ⟨x, q, cur, hpc⟩ := h.req r hr
  have hat := (h.tx (s.nodes r).slotID).pc
  rw [hpc] at hat
  obtain ⟨hq, hlt, hsl, hw⟩ := hat
  cases hw with
  | blocked _ hb hring hnode => exact ⟨x, q, cur, hpc, hq, hlt, hsl, hb, hring, hnode⟩
  | granted hreq => exact absurd hr hreq
  | merged _ hreq => exact absurd hr hreq

/-- **One transaction changes its data.**  The others agree on theirs, and the
    requests left are old ones of others or the new one of `t`. -/
theorem Own.step (h : Own n clean s pc sl) (t : TxSlot) {p : Pc} {slt : NodeId → List LockMode}
    (hagree : ∀ u, u ≠ t → AgreeOn s s' u) (ht : OwnAt n clean s' t p slt)
    (hnodup : s'.request.Nodup)
    (hreq : ∀ r ∈ s'.request, (r ∈ s.request ∧ (s.nodes r).slotID ≠ t)
      ∨ ((s'.nodes r).slotID = t ∧ ∃ x q cur, p = .waitForLock x q cur r)) :
    Own n clean s' (Function.update pc t p) (Function.update sl t slt) where
  tx u := by
    by_cases hu : u = t
    · subst hu
      rw [Function.update_self, Function.update_self]
      exact ht
    · rw [Function.update_of_ne hu, Function.update_of_ne hu]
      exact (h.tx u).congr (hagree u hu)
  reqNodup := hnodup
  req r hr := by
    rcases hreq r hr with ⟨hold, hne⟩ | ⟨hslot, hp⟩
    · obtain ⟨x, q, cur, hpc, _, hlt, _⟩ := h.waiter hold
      rw [(hagree _ hne).nodes r hlt rfl, Function.update_of_ne hne]
      exact ⟨x, q, cur, hpc⟩
    · rw [hslot, Function.update_self]
      exact hp

/-- The two items differ only in what the counters summarise. -/
structure SameOwn (s s' : LockItem) : Prop where
  nodes : s'.nodes = s.nodes
  ring : s'.transLockNode = s.transLockNode
  request : s'.request = s.request
  blocked : s'.blocked = s.blocked
  next : s'.nextNode = s.nextNode

/-- What the transactions hold and ask for is all that counts. -/
theorem Own.of_same (h : Own n clean s pc sl) (e : SameOwn s s') : Own n clean s' pc sl where
  tx t := (h.tx t).congr ⟨by rw [e.ring], fun _ _ _ => by rw [e.nodes],
    fun _ _ _ => by rw [e.request], by rw [e.blocked], e.next.ge⟩
  reqNodup := e.request ▸ h.reqNodup
  req r hr := by
    rw [e.nodes]
    exact h.req r (e.request ▸ hr)

/-- A granted node is not in the request list. -/
theorem Own.ne_of_mem_request (h : Own n clean s pc sl) {t : TxSlot} {c r : NodeId}
    (hc : c ∈ s.transLockNode t) (hr : r ∈ s.request) : c ≠ r := by
  rintro rfl
  obtain ⟨_, _, _, _, _, _, _, _, _, hnode⟩ := h.waiter hr
  have := ((h.tx t).node c hc).beGrant
  rw [hnode] at this
  cases this

/-! ## §3. What a transaction holds. -/

/-- The mode that `t` holds on the item: the mode of its granted node. -/
def LockItem.held (s : LockItem) (t : TxSlot) : LockMode :=
  match s.findLockNode t with
  | some c => (s.nodes c).lockMode
  | none => .nlock

/-- The item as a lock queue: what is held, and who waits for what. -/
def LockItem.queue (s : LockItem) : LockQueue TxSlot LockMode where
  held := s.held
  waiting := s.request.map (fun r => ⟨(s.nodes r).slotID, (s.nodes r).lockMode⟩)

/-- A list of at most one node has only that to find. -/
theorem findLockNode_of_ring {t : TxSlot} {o : Option NodeId}
    (h : s.transLockNode t = o.toList) : s.findLockNode t = o := by
  unfold LockItem.findLockNode
  rw [h]
  cases o <;> rfl

/-- Without a node nothing is held. -/
theorem held_of_nil {t : TxSlot} (h : s.transLockNode t = []) : s.held t = .nlock := by
  unfold LockItem.held
  rw [findLockNode_of_ring (o := none) h]

/-- With one node its mode is held. -/
theorem held_of_singleton {t : TxSlot} {c : NodeId} (h : s.transLockNode t = [c]) :
    s.held t = (s.nodes c).lockMode := by
  unfold LockItem.held
  rw [findLockNode_of_ring (o := some c) h]

/-- The same, from the mode. -/
theorem held_of_ring {t : TxSlot} {c : NodeId} {m : LockMode} (h : s.transLockNode t = [c])
    (hm : (s.nodes c).lockMode = m) : s.held t = m := by
  rw [held_of_singleton h, hm]

/-- A transaction has one node on an item at most. -/
theorem Own.ring_of_mem (h : Own n clean s pc sl) {t : TxSlot} {c : NodeId}
    (hc : c ∈ s.transLockNode t) : s.transLockNode t = [c] := by
  obtain ⟨o, ho⟩ := (h.tx t).ring
  rw [ho] at hc ⊢
  cases o with
  | none => cases hc
  | some d => rw [List.mem_singleton.1 hc]; rfl

/-- Its mode is what the transaction holds. -/
theorem Own.held_of_mem (h : Own n clean s pc sl) {t : TxSlot} {c : NodeId}
    (hc : c ∈ s.transLockNode t) : s.held t = (s.nodes c).lockMode :=
  held_of_singleton (h.ring_of_mem hc)

/-- A transaction holds a mode exactly when it has a granted node. -/
theorem Own.held_eq_bot (h : Own n clean s pc sl) {t : TxSlot} :
    s.held t = ⊥ ↔ s.transLockNode t = [] := by
  obtain ⟨o, ho⟩ := (h.tx t).ring
  cases o with
  | none => exact iff_of_true (held_of_nil ho) ho
  | some c =>
      have hc : c ∈ s.transLockNode t := by rw [ho]; exact List.mem_singleton_self c
      rw [h.held_of_mem hc]
      refine iff_of_false ((h.tx t).node c hc).mode_ne ?_
      rw [ho]
      simp

/-- The owner of a granted node is the transaction in whose ring it is. -/
theorem Own.slotID_of_mem (h : Own n clean s pc sl) {t : TxSlot} {c : NodeId}
    (hc : c ∈ s.transLockNode t) : (s.nodes c).slotID = t :=
  ((h.tx t).node c hc).slotID

/-- The held mode is read from the transaction's list only. -/
theorem held_congr {t : TxSlot} (hr : s'.transLockNode t = s.transLockNode t)
    (hn : ∀ c ∈ s.transLockNode t, s'.nodes c = s.nodes c) : s'.held t = s.held t := by
  unfold LockItem.held LockItem.findLockNode
  rw [hr]
  cases hl : (s.transLockNode t).getLast? with
  | none => rfl
  | some c => simp only [hn c (List.mem_of_getLast? hl)]

/-- Where a step agrees with the old state, the held mode is the same. -/
theorem AgreeOn.held {u : TxSlot} (e : AgreeOn s s' u)
    (h : OwnAt n clean s u (pc u) (sl u)) : s'.held u = s.held u :=
  held_congr e.ring (fun c hc => e.nodes c (h.node c hc).lt (h.node c hc).slotID)

end Altibase.Sml
