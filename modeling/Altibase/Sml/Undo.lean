/-
  Altibase.Sml.Undo
  ─────────────────
  **WHAT A FAILED `lockTable` LEAVES BEHIND.**

  A call of `lockTable` runs from its first step to the step in which it
  returns, with any steps of other transactions in between.  `Calling` is what
  holds all along the way; `FailedCall` is a call that returns a failure, and
  `AsIfNotMade` says that nothing of the request is left: not on the requester,
  not in the queue of the item, and where nobody else touched the item, nowhere
  in the item.

  `failed_lockTable` is the exact result.  The one call that leaves something
  behind is a conversion whose request another session's release had merged
  into the granted node before the wait was given up: `mDoRemove` is then set,
  `unlockTableInternal` takes nothing back, and the requester keeps the mode
  that it was refused.
-/
import Altibase.Sml.LockInv

namespace Altibase.Sml

open Altibase.Lib

variable {n : Nat} {s₀ s₁ s s' : State} {t u : TxSlot} {x : ItemId} {q : LockReq} {alone : Prop}

/-! ## §1. As if the request had not been made. -/

/-- What `t` has at an item is what it had: its ring, and the modes and flags of the
    nodes in it. -/
structure Kept (s₀ s : LockItem) (t : TxSlot) : Prop where
  ring : s.transLockNode t = s₀.transLockNode t
  nodes : ∀ c ∈ s₀.transLockNode t, s.nodes c = s₀.nodes c

/-- The two items are the same up to nodes that were allocated and freed. -/
structure SameItem (s₀ s : LockItem) : Prop where
  group : s.grantLockMode = s₀.grantLockMode
  grantCnt : s.grantCnt = s₀.grantCnt
  requestCnt : s.requestCnt = s₀.requestCnt
  flag : s.flag = s₀.flag
  count : s.arrLockCount = s₀.arrLockCount
  grant : s.grant = s₀.grant
  request : s.request = s₀.request
  ring : s.transLockNode = s₀.transLockNode
  mutex : s.mutex = s₀.mutex
  nodes : ∀ c, c < s₀.nextNode → s.nodes c = s₀.nodes c

/-- A call of `lockTable` that returns a failure in the step `a` from `s` to `s'`;
    until then every step satisfies `ok`. -/
inductive FailedCall (n : Nat) (ok : State → Action → Prop) (t : TxSlot) (x : ItemId) (q : LockReq)
    (s₀ : State) : State → Action → State → Prop
  | atOnce {s' : State} (lockEnable : Bool)
      (hcall : step n s₀ (.lockTable t x q lockEnable) = some s') (hret : s'.pc t = .idle)
      (hfail : s'.rc t = .failure) :
      FailedCall n ok t x q s₀ s₀ (.lockTable t x q lockEnable) s'
  | later {s₁ s s' : State} {a : Action} (lockEnable : Bool)
      (hcall : step n s₀ (.lockTable t x q lockEnable) = some s₁)
      (hpath : (lockMgr n).Path (fun u a => u.pc t ≠ .idle ∧ ok u a) s₁ s)
      (hbusy : s.pc t ≠ .idle) (hstep : step n s a = some s') (hret : s'.pc t = .idle)
      (hfail : s'.rc t = .failure) : FailedCall n ok t x q s₀ s a s'

/-- The step is one of `t`, or it leaves the item alone. -/
def Undisturbed (n : Nat) (t : TxSlot) (x : ItemId) (s : State) (a : Action) : Prop :=
  a.slot = t ∨ ∀ s', step n s a = some s' → s'.item x = s.item x

/-- **Nothing is left of the request.**  `s₀` is the state of the call, `s` and `s'` are
    the states around the step that returns. -/
structure AsIfNotMade (n : Nat) (t : TxSlot) (x : ItemId) (q : LockReq) (s₀ s : State)
    (a : Action) (s' : State) : Prop where
  own : ∀ y, Kept (s₀.item y) (s'.item y) t
  slots : s'.slots t = s₀.slots t
  noRequest : ∀ y, ∀ r ∈ (s'.item y).request, ((s'.item y).nodes r).slotID ≠ t
  queue : (s'.item x).queue = ((s.item x).queue.withdraw t ((s₀.item x).held t)).wake
  elsewhere : ∀ y, y ≠ x → s'.item y = s.item y
  restored : FailedCall n (Undisturbed n t x) t x q s₀ s a s' →
    SameItem (s₀.item x) (s'.item x)

theorem Kept.refl (s : LockItem) (t : TxSlot) : Kept s s t :=
  ⟨rfl, fun _ _ => rfl⟩

theorem SameItem.refl (s : LockItem) : SameItem s s :=
  ⟨rfl, rfl, rfl, rfl, rfl, rfl, rfl, rfl, rfl, fun _ _ => rfl⟩

/-- The transaction holds what it held. -/
theorem Kept.held {s₀ s : LockItem} (h : Kept s₀ s t) : s.held t = s₀.held t :=
  held_congr h.ring h.nodes

section Item

variable {s₀ s s' base : LockItem} {pc : TxSlot → Pc} {sl : TxSlot → NodeId → List LockMode}

/-- A step that agrees with the old state about the transaction keeps it. -/
theorem Kept.agree (h : Kept s₀ s t) (hown : Own n False s pc sl) (e : AgreeOn s s' t) :
    Kept s₀ s' t where
  ring := e.ring.trans h.ring
  nodes c hc := by
    have hc' : c ∈ s.transLockNode t := by
      rw [h.ring]
      exact hc
    have hg := (hown.tx t).node c hc'
    rw [e.nodes c hg.lt hg.slotID, h.nodes c hc]

/-- So does one that changes nothing that counts. -/
theorem Kept.of_same (h : Kept s₀ s t) (e : SameOwn s s') : Kept s₀ s' t where
  ring := by rw [e.ring, h.ring]
  nodes c hc := by rw [e.nodes, h.nodes c hc]

/-- In every phase of an item no waiting request could be granted. -/
theorem ItemInv.settled (h : ItemInv n False s pc sl) : s.queue.Settled := by
  cases h.phase with
  | light hl => exact settled_of_nil hl.request
  | collect _ _ _ _ _ _ _ _ _ hreq => exact settled_of_nil hreq
  | heavy _ _ hs => exact hs

/-- A withdrawal of nothing. -/
theorem queue_withdraw_self (h : Own n False s pc sl) (hno : ∀ r ∈ s.request, (s.nodes r).slotID ≠ t) :
    s.queue.withdraw t (s.held t) = s.queue :=
  (queue_of_agree h (Function.update_eq_self t s.held).symm rfl (fun u _ => .refl s u) hno).symm

/-- Two light items with the same lists and nodes. -/
theorem SameItem.of_light (h₀ : Light s₀) (h : Light s) (hring : s.transLockNode = s₀.transLockNode)
    (hnodes : ∀ c, c < s₀.nextNode → s.nodes c = s₀.nodes c) : SameItem s₀ s :=
  ⟨by rw [h.group, h₀.group], by rw [h.grantCnt, h₀.grantCnt], by rw [h.requestCnt, h₀.requestCnt],
    by rw [h.flag, h₀.flag], by rw [h.count, h₀.count], by rw [h.grant, h₀.grant],
    by rw [h.request, h₀.request], hring, by rw [h.mutex, h₀.mutex], hnodes⟩

/-- `toLightMode` with nobody waiting only clears the counters. -/
theorem toLightMode_of_nil (hreq : s.request = []) : SameOwn s s.toLightMode := by
  obtain ⟨s₁, hs₁, e⟩ : ∃ s₁, (if s.grantCnt > 0 then s.grant.foldl LockItem.removeGrant s
      else s) = s₁ ∧ SameOwn s s₁ := by
    refine ⟨_, rfl, ?_⟩
    split
    · exact (foldl_removeGrant s.grant s).1
    · exact ⟨rfl, rfl, rfl, rfl, rfl⟩
  have hdef : s.toLightMode = s₁.clearLockItem := by
    unfold LockItem.toLightMode
    simp only [hs₁, e.request, hreq, List.foldl_nil]
  rw [hdef]
  exact ⟨e.nodes, e.ring, hreq.symm, e.blocked, e.next⟩

end Item

/-! ## §2. While the call is under way. -/

/-- The grant list was rebuilt for the request, or the item was in heavy mode. -/
inductive Base (s₀ : LockItem) : LockItem → Prop
  | heavy (hv : Heavy s₀) (hd : s₀.NeedsHeavy) (hs : s₀.queue.Settled) : Base s₀ s₀
  | rebuilt {s : LockItem} (hl : Light s₀) (hsame : SameOwn s₀ s) (hv : Heavy s) : Base s₀ s

/-- What holds at the item of the call while `t` is at a position of the call.  Where
    nobody else touches the item (`alone`), it is known up to the call's own doings. -/
inductive CallAt (s₀ s : LockItem) (t : TxSlot) (x : ItemId) (q : LockReq) (alone : Prop) :
    Pc → Prop
  | light (cur : Option NodeId) : CallAt s₀ s t x q alone (.lightLock x q cur)
  | internal (cur : Option NodeId) (hk : Kept s₀ s t) (hs : alone → s = s₀) :
      CallAt s₀ s t x q alone (.lockInternal x q cur)
  | collect (cur : Option NodeId) (i : TxSlot) (hk : Kept s₀ s t)
      (hs : alone → Light s₀ ∧ SameOwn s₀ s) : CallAt s₀ s t x q alone (.collect x q cur i)
  | wait (cur : Option NodeId) (new : NodeId) (hcur : s₀.transLockNode t = cur.toList)
      (hnew : ∀ c ∈ s₀.transLockNode t, ¬ q.lockMode ≤ (s₀.nodes c).lockMode)
      (hk : new ∈ s.request → Kept s₀ s t)
      (hs : alone → new ∈ s.request ∧ ∃ base, Base s₀ base ∧ s = (base.addRequest t q cur).2
        ∧ new = base.nextNode) :
      CallAt s₀ s t x q alone (.waitForLock x q cur new)

/-- The call is under way. -/
structure Calling (s₀ s : State) (t : TxSlot) (x : ItemId) (q : LockReq) (alone : Prop) :
    Prop where
  slots : s.slots t = s₀.slots t
  elsewhere : ∀ y, y ≠ x → Kept (s₀.item y) (s.item y) t
  here : CallAt (s₀.item x) (s.item x) t x q alone (s.pc t)

/-- A request that `lockTable` did not answer at once is for a mode that is not held
    yet, or for IS. -/
def NotHeld (s₀ : State) (t : TxSlot) (x : ItemId) (q : LockReq) : Prop :=
  ∀ c ∈ (s₀.item x).transLockNode t, q.lockMode ≤ ((s₀.item x).nodes c).lockMode →
    q.lockMode = .islock

/-- **Another transaction's step is not noticed** at an item where it wakes nobody up. -/
theorem agree_other (h : Inv n False s) (hst : Stepped n False s u s') (htu : t ≠ u) (y : ItemId)
    (hkept : ∀ r ∈ (s.item y).request, ((s.item y).nodes r).slotID = t → r ∈ (s'.item y).request) :
    AgreeOn (s.item y) (s'.item y) t := by
  cases hst with
  | on x a hst he hi hp hs hrc =>
      by_cases hy : y = x
      · subst hy
        rw [hi] at hkept ⊢
        exact frame_itemStep (h.item y) hst t htu hkept
      · rw [he.item y hy]
        exact .refl _ t
  | returns rc hidle he =>
      subst he
      exact .refl _ t
  | reset hidle hfree he =>
      subst he
      rw [item_reset h hidle hfree y]
      exact .refl _ t

/-- A step of another transaction leaves this one's counter and slots alone. -/
theorem other_same (hst : Stepped n False s u s') (htu : t ≠ u) :
    s'.pc t = s.pc t ∧ s'.slots t = s.slots t := by
  cases hst with
  | on x a hst he hi hp hs hrc => exact ⟨(he.others t htu).1, (he.others t htu).2.1⟩
  | returns rc hidle he =>
      subst he
      exact ⟨rfl, rfl⟩
  | reset hidle hfree he =>
      subst he
      exact ⟨rfl, Function.update_of_ne htu _ _⟩

/-- A transaction that does not wait at an item does not notice what others do there. -/
theorem agree_of_not_waiting (h : Inv n False s) (hst : Stepped n False s u s') (htu : t ≠ u)
    (y : ItemId) (hnw : ∀ z q cur new, s.pcAt y t ≠ .waitForLock z q cur new) :
    AgreeOn (s.item y) (s'.item y) t :=
  agree_other h hst htu y fun _ hr hrt => absurd hrt ((h.item y).own.not_owner hnw hr)

/-- The call is about one item only. -/
theorem Calling.pc_item (hc : Calling s₀ s t x q alone) :
    (s.pc t).atItem x = s.pc t ∧ s.pc t ≠ .idle := by
  have hhere := hc.here
  cases hpc : s.pc t with
  | idle => rw [hpc] at hhere; cases hhere
  | lightLock => rw [hpc] at hhere; cases hhere; exact ⟨by simp [Pc.atItem], by simp⟩
  | lockInternal => rw [hpc] at hhere; cases hhere; exact ⟨by simp [Pc.atItem], by simp⟩
  | collect => rw [hpc] at hhere; cases hhere; exact ⟨by simp [Pc.atItem], by simp⟩
  | waitForLock => rw [hpc] at hhere; cases hhere; exact ⟨by simp [Pc.atItem], by simp⟩
  | lightUnlock => rw [hpc] at hhere; cases hhere
  | unlockInternal => rw [hpc] at hhere; cases hhere

/-- The call is about the item `x`. -/
theorem Calling.pcAt_self (hc : Calling s₀ s t x q alone) : s.pcAt x t = s.pc t :=
  hc.pc_item.1

/-- It is idle for the other items. -/
theorem Calling.pcAt_other (hc : Calling s₀ s t x q alone) {y : ItemId} (hy : y ≠ x) :
    s.pcAt y t = .idle :=
  atItem_other hc.pc_item.1 hy

/-- **A step of another transaction keeps the call going as it was.** -/
theorem calling_other (h : Inv n False s) (hc : Calling s₀ s t x q alone)
    (hst : Stepped n False s u s') (htu : t ≠ u)
    (halone : alone → s'.item x = s.item x) : Calling s₀ s' t x q alone := by
  obtain ⟨hpc, hslots⟩ := other_same hst htu
  refine ⟨hslots.trans hc.slots, fun y hy => ?_, ?_⟩
  · refine (hc.elsewhere y hy).agree (h.item y).own (agree_of_not_waiting h hst htu y ?_)
    rw [hc.pcAt_other hy]
    simp
  · have hhere := hc.here
    have hself := hc.pcAt_self
    have hx := (h.item x).own
    rw [hpc]
    cases hp : s.pc t with
    | idle => rw [hp] at hhere; cases hhere
    | lightUnlock => rw [hp] at hhere; cases hhere
    | unlockInternal => rw [hp] at hhere; cases hhere
    | lightLock y q' cur =>
        rw [hp] at hhere
        cases hhere
        exact .light cur
    | lockInternal y q' cur =>
        rw [hp] at hhere
        have e := agree_of_not_waiting h hst htu x (by rw [hself, hp]; simp)
        cases hhere with
        | internal cur hk hs => exact .internal cur (hk.agree hx e) fun ha => by rw [halone ha, hs ha]
    | collect y q' cur i =>
        rw [hp] at hhere
        have e := agree_of_not_waiting h hst htu x (by rw [hself, hp]; simp)
        cases hhere with
        | collect cur i hk hs =>
            exact .collect cur i (hk.agree hx e) fun ha => by rw [halone ha]; exact hs ha
    | waitForLock y q' cur new =>
        rw [hp] at hhere
        cases hhere with
        | wait cur new hcur hnew hk hs =>
            refine .wait cur new hcur hnew (fun hreq => ?_) fun ha => by rw [halone ha]; exact hs ha
            have hat : PcAt (s.item x) (s.slotsAt x t) t (.waitForLock x q cur new) := by
              rw [← hp, ← hself]
              exact (hx.tx t).pc
            have hslot := hat.2.2.2.slotID
            -- the request is still there: `t` was not woken
            have hreq₀ : new ∈ (s.item x).request := by
              by_contra hno
              have e := agree_other h hst htu x fun r hr hrt => by
                obtain ⟨z, q', cur', hpr⟩ := hx.req r hr
                rw [hrt, hself, hp] at hpr
                cases hpr
                exact absurd hr hno
              exact hno ((e.request new hat.2.1 hslot).1 hreq)
            refine (hk hreq₀).agree hx (agree_other h hst htu x fun r hr hrt => ?_)
            rw [hx.eq_of_slotID hr hreq₀ (hrt.trans hslot.symm)]
            exact hreq

/-- A transaction in a call is at some item. -/
theorem exists_atItem {p : Pc} (hp : p ≠ .idle) : ∃ y, p.atItem y = p := by
  cases p with
  | idle => exact absurd rfl hp
  | lightLock y q cur => exact ⟨y, by simp [Pc.atItem]⟩
  | lockInternal y q cur => exact ⟨y, by simp [Pc.atItem]⟩
  | collect y q cur i => exact ⟨y, by simp [Pc.atItem]⟩
  | waitForLock y q cur new => exact ⟨y, by simp [Pc.atItem]⟩
  | lightUnlock y c l => exact ⟨y, by simp [Pc.atItem]⟩
  | unlockInternal y c l => exact ⟨y, by simp [Pc.atItem]⟩

/-- **A step of the caller itself is a step on the item of the call.** -/
theorem step_here {clean : Prop} (hc : Calling s₀ s t x q alone) (hst : Stepped n clean s t s') :
    ∃ a, ItemStep n clean x t (s.item x) (s.pcAt x) (s.slotsAt x t) a ∧ Elsewhere s s' t x
      ∧ s'.item x = a.item ∧ s'.pc t = a.pc ∧ s'.slots t = a.op.run x (s.slots t)
      ∧ s'.rc t = a.rc.getD (s.rc t) := by
  obtain ⟨hself, hbusy⟩ := hc.pc_item
  cases hst with
  | returns rc hidle he => exact absurd hidle hbusy
  | reset hidle hfree he => exact absurd hidle hbusy
  | on y a hst he hi hp hs hrc =>
      have hyx : y = x := by
        by_contra hy
        have hidle : s.pcAt y t = .idle := hc.pcAt_other hy
        have hpc : s'.pc t = s.pc t := by
          have hx := he.pc x (Ne.symm hy)
          rw [hself] at hx
          rcases atItem_cases x (s'.pc t) with hs' | hs'
          · rw [← hs', hx]
          · rw [hs'] at hx
            exact absurd hx.symm hbusy
        have ha : a.pc = .idle := by
          rw [← hp]
          unfold State.pcAt
          rw [hpc]
          exact hidle
        -- only entering a path is possible from `idle`, and that is not idle
        cases hst <;> simp_all
      subst hyx
      refine ⟨a, hst, he, hi, ?_, hs, hrc⟩
      rcases atItem_cases y (s'.pc t) with hs' | hs'
      · rw [← hp, State.pcAt, hs']
      · have hidle : s'.pc t = .idle := by
          by_contra hne
          obtain ⟨z, hz⟩ := exists_atItem hne
          by_cases hzy : z = y
          · rw [hzy, hs'] at hz
            exact hne hz.symm
          · have hother := he.pc z hzy
            rw [hz] at hother
            have hpz := hc.pcAt_other hzy
            unfold State.pcAt at hpz
            exact hne (hother.trans hpz)
        rw [← hp, State.pcAt, hs', hidle]

/-- A conversion only waits for a mode that is not held yet. -/
theorem not_held_of_blocked {s : LockItem} {pc : TxSlot → Pc} {sl : TxSlot → NodeId → List LockMode}
    (h : Own n False s pc sl) (hsafe : Safe s.held) {cur : Option NodeId}
    (hring : s.transLockNode t = cur.toList)
    (hblocked : (cur = none → s.request = []) → ¬ Grantable s.held ⟨t, q.lockMode⟩)
    (hnh : ∀ c ∈ s.transLockNode t, q.lockMode ≤ (s.nodes c).lockMode → q.lockMode = .islock) :
    ∀ c ∈ s.transLockNode t, ¬ q.lockMode ≤ (s.nodes c).lockMode := by
  intro c hc hle
  have hcur : cur ≠ none := by
    intro hn
    rw [hring, hn] at hc
    cases hc
  refine hblocked (fun hn => absurd hn hcur) ?_
  have his := hnh c hc hle
  have hheld := h.held_of_mem hc
  have hne : s.held t ≠ ⊥ := by
    rw [hheld]
    exact ((h.tx t).node c hc).mode_ne
  have hX : ∀ m, compatibleTBL .xlock m = true → m = .nlock := by decide
  have hIS : ∀ m, m ≠ .xlock → compatibleTBL m .islock = true := by decide
  by_cases hx : s.held t = .xlock
  · refine Or.inr ⟨hne, fun v hv => ?_⟩
    have hcomp := hsafe t v (Ne.symm hv)
    rw [hx] at hcomp
    exact hX _ hcomp
  · refine Or.inl fun v => ?_
    show Compat.compat (s.held v) q.lockMode
    by_cases hv : v = t
    · rw [hv, his]
      exact hIS _ hx
    · refine compat_of_le_right (hsafe v t hv) ?_
      rw [hheld]
      exact hle

/-- The request of the call enters the queue. -/
theorem callAt_wait {s₀ s base : LockItem} {pc : TxSlot → Pc}
    {sl : TxSlot → NodeId → List LockMode} {cur : Option NodeId} (h : Own n False base pc sl)
    (hsafe : Safe base.held) (hring : base.transLockNode t = cur.toList) (hk : Kept s₀ base t)
    (hnh : ∀ c ∈ s₀.transLockNode t, q.lockMode ≤ (s₀.nodes c).lockMode → q.lockMode = .islock)
    (hblocked : (cur = none → base.request = []) → ¬ Grantable base.held ⟨t, q.lockMode⟩)
    (hs : s = (base.addRequest t q cur).2) (hbase : alone → Base s₀ base) :
    CallAt s₀ s t x q alone (.waitForLock x q cur (base.addRequest t q cur).1) := by
  obtain ⟨hid, -, -, hring', -, -⟩ := addRequest_spec base t q cur
  have hnew : ∀ c ∈ s₀.transLockNode t, ¬ q.lockMode ≤ (s₀.nodes c).lockMode := by
    intro c hc
    rw [← hk.nodes c hc]
    refine not_held_of_blocked h hsafe hring hblocked (fun d hd => ?_) c (by rw [hk.ring]; exact hc)
    rw [hk.ring] at hd
    rw [hk.nodes d hd]
    exact hnh d hd
  subst hs
  refine .wait cur _ (by rw [← hk.ring, hring]) hnew (fun _ => ⟨?_, fun c hc => ?_⟩) fun ha => ?_
  · rw [hring', hk.ring]
  · have hlt := ((h.tx t).node c (by rw [hk.ring]; exact hc)).lt
    rw [nodes_addRequest base t q cur hlt, hk.nodes c hc]
  · refine ⟨?_, base, hbase ha, rfl, hid⟩
    rw [mem_request_addRequest]
    exact Or.inl hid

/-- **A step of the caller that does not return keeps the call going.** -/
theorem calling_self (h : Inv n False s) (hc : Calling s₀ s t x q alone)
    (hnh : NotHeld s₀ t x q) (hst : Stepped n False s t s') (hbusy : s'.pc t ≠ .idle) :
    Calling s₀ s' t x q alone := by
  obtain ⟨a, hst, he, hi, hp, hs, -⟩ := step_here hc hst
  have hx := h.item x
  have hself := hc.pcAt_self
  have hhere := hc.here
  rw [hp] at hbusy
  rw [← hself] at hhere
  -- a busy caller takes one of the steps inside `lockTable`; the others start from idle or end
  -- the call
  have key : a.op = .keep ∧ CallAt (s₀.item x) a.item t x q alone a.pc := by
    cases hst with
    | enterLight _ _ hidle => rw [hidle] at hhere; cases hhere
    | enterInternal _ _ hidle => rw [hidle] at hhere; cases hhere
    | enterUnlockLight _ _ hidle => rw [hidle] at hhere; cases hhere
    | enterUnlockInternal _ _ hidle => rw [hidle] at hhere; cases hhere
    | unlockLight _ _ hpc => rw [hpc] at hhere; cases hhere
    | unlockInternal _ _ hpc => rw [hpc] at hhere; cases hhere
    | lockLight => exact absurd rfl hbusy
    | lockInternal => exact absurd rfl hbusy
    | resume => exact absurd rfl hbusy
    | waitFail => exact absurd rfl hbusy
    -- the rebuild starts
    | beginCollect q' cur hpc hmx hf hq =>
        rw [hpc] at hhere
        cases hhere with
        | internal cur hk hal =>
            have hsame : SameOwn (s.item x) { s.item x with flag := 0, mutex := some t } :=
              ⟨rfl, rfl, rfl, rfl, rfl⟩
            refine ⟨rfl, .collect cur 0 (hk.of_same hsame) fun ha => ?_⟩
            rw [← hal ha]
            exact ⟨hx.phase.light_of_flag hf, hsame⟩
    | collect q' cur i hpc hi hfree =>
        rw [hpc] at hhere
        cases hhere with
        | collect cur i hk hal =>
            have hsame := (sameOwn_collectTransNode (s.item x) i).1
            refine ⟨rfl, .collect cur (i + 1) (hk.of_same hsame) fun ha => ?_⟩
            obtain ⟨hl, e⟩ := hal ha
            exact ⟨hl, hsame.nodes.trans e.nodes, hsame.ring.trans e.ring,
              hsame.request.trans e.request, hsame.blocked.trans e.blocked, hsame.next.trans e.next⟩
    -- the call goes on only if the request is queued
    | lockHeavy q' cur hpc hmx hf =>
        have hat := hx.own.pcAt hpc
        rw [hpc] at hhere
        have ho := heavyOutcome_of_flag (q := q') hx hmx hf hat.1
        generalize (s.item x).lockHeavy t q' cur false = o at ho hbusy hi hp hs ⊢
        cases hhere with
        | internal cur hk hal =>
            cases ho with
            | granted => exact absurd rfl hbusy
            | refused => exact absurd rfl hbusy
            | waiting hwait hblocked =>
                refine ⟨rfl, callAt_wait hx.own hx.safe hat.1 hk hnh hblocked rfl fun ha => ?_⟩
                rw [hal ha]
                obtain ⟨hv, hd, hset⟩ := hx.phase.heavy_of_flag hmx hf
                rw [hal ha] at hv hd hset
                exact .heavy hv hd hset
    | collected q' cur hpc =>
        obtain ⟨hv, -, -, -⟩ := hx.collected hpc
        have hat := hx.own.pcAt hpc
        have hsame : SameOwn (s.item x) { s.item x with mutex := none } := ⟨rfl, rfl, rfl, rfl, rfl⟩
        have hown := hx.own.of_same hsame
        rw [hpc] at hhere
        have ho := heavyOutcome_of_collected hx hpc
        generalize { s.item x with mutex := none }.lockHeavy t q' cur true = o at ho hbusy hi hp hs ⊢
        cases hhere with
        | collect cur i hk hal =>
            cases ho with
            | granted => exact absurd rfl hbusy
            | refused => exact absurd rfl hbusy
            | waiting hwait hblocked =>
                refine ⟨rfl, callAt_wait hown hx.safe hat.1 (hk.of_same hsame) hnh hblocked rfl
                  fun ha => ?_⟩
                obtain ⟨hl, e⟩ := hal ha
                exact .rebuilt hl ⟨e.nodes, e.ring, e.request, e.blocked, e.next⟩ hv
  refine ⟨?_, fun y hy => ?_, ?_⟩
  · rw [hs, key.1]
    exact hc.slots
  · rw [he.item y hy]
    exact hc.elsewhere y hy
  · rw [hi, hp]
    exact key.2

/-! ## §3. The first and the last step of the call. -/

/-- **The first step of a call that does not return at once.** -/
theorem calling_start (alone : Prop) (h : Inv n False s₀) {lockEnable : Bool}
    (hst : step n s₀ (.lockTable t x q lockEnable) = some s) (hbusy : s.pc t ≠ .idle) :
    Calling s₀ s t x q alone ∧ NotHeld s₀ t x q := by
  simp only [step, Option.ite_none_right_eq_some, Option.some.injEq] at hst
  obtain ⟨⟨-, hidle, -⟩, rfl⟩ := hst
  have hring := (h.item x).own.ring_find t
  have hput : ∀ p, CallAt (s₀.item x) (s₀.item x) t x q alone p →
      Calling s₀ (s₀.put t x (s₀.item x) (s₀.slots t) p) t x q alone := by
    intro p hp
    refine ⟨Function.update_self .., fun y hy => ?_, ?_⟩
    · show Kept (s₀.item y) (Function.update s₀.item x (s₀.item x) y) t
      rw [Function.update_of_ne hy]
      exact .refl _ t
    · show CallAt (s₀.item x) (Function.update s₀.item x (s₀.item x) x) t x q alone
        (Function.update s₀.pc t p t)
      rw [Function.update_self, Function.update_self]
      exact hp
  have hnot : alreadyLocked (s₀.item x) x (s₀.slots t) q ((s₀.item x).findLockNode t) = false →
      NotHeld s₀ t x q := by
    intro ha c hc hle
    have hfind : (s₀.item x).findLockNode t = some c :=
      findLockNode_of_ring ((h.item x).own.ring_of_mem hc)
    rw [hfind] at ha
    unfold alreadyLocked at ha
    have hle' : conversionTBL ((s₀.item x).nodes c).lockMode q.lockMode
        = ((s₀.item x).nodes c).lockMode := hle
    simp only [hle', decide_true, Bool.true_and, Bool.not_eq_false', Bool.and_eq_true,
      decide_eq_true_eq] at ha
    exact ha.1
  unfold State.lockTable at hbusy ⊢
  dsimp only at hbusy ⊢
  split_ifs at hbusy ⊢ with he hi ha hl
  · exact absurd hidle hbusy
  · exact absurd hidle hbusy
  · exact absurd hidle hbusy
  · exact ⟨hput _ (.light _), hnot (by simpa using ha)⟩
  · exact ⟨hput _ (.internal _ (.refl _ t) fun _ => rfl), hnot (by simpa using ha)⟩

/-- **The last step of a call that fails**, its conversion not having been merged. -/
inductive FailedAt (n : Nat) (s s' : State) (t : TxSlot) (x : ItemId) (q : LockReq) : Prop
  | refused (cur : Option NodeId) (hpc : s.pc t = .lockInternal x q cur)
      (hi : s'.item x = s.item x)
  | refusedFirst (cur : Option NodeId) (hpc : s.pc t = .collect x q cur n)
      (hi : s'.item x = { s.item x with mutex := none }.toLightMode)
  | waitFail (cur : Option NodeId) (new : NodeId) (hpc : s.pc t = .waitForLock x q cur new)
      (hmx : (s.item x).mutex = none) (hnm : ((s.item x).nodes new).doRemove = false)
      (hi : s'.item x = ((s.item x).resumeTrans t).unlockTableInternal t new none)

/-- **The step at which the call fails**: what it leaves at the item, and that nothing changes
elsewhere. -/
theorem failedAt (h : Inv n False s) (hc : Calling s₀ s t x q alone) (hst : Stepped n True s t s')
    (hret : s'.pc t = .idle) (hfail : s'.rc t = .failure) :
    s'.slots t = s.slots t ∧ Elsewhere s s' t x ∧ FailedAt n s s' t x q := by
  obtain ⟨a, hst, he, hi, hp, hs, hrc⟩ := step_here hc hst
  have hx := h.item x
  have hself := hc.pcAt_self
  have hhere := hc.here
  rw [hp] at hret
  rw [hfail] at hrc
  rw [← hself] at hhere
  -- the other steps end the call with success or do not end it
  cases hst with
  | enterLight => cases hret
  | enterInternal => cases hret
  | enterUnlockLight => cases hret
  | enterUnlockInternal => cases hret
  | beginCollect => cases hret
  | collect => cases hret
  | unlockLight => cases hrc
  | unlockInternal => cases hrc
  | lockLight => cases hrc
  | lockInternal => cases hrc
  | resume => cases hrc
  -- refused at a heavy item
  | lockHeavy q' cur hpc hmx hf =>
      have hat := hx.own.pcAt hpc
      have ho := heavyOutcome_of_flag (q := q') hx hmx hf hat.1
      generalize (s.item x).lockHeavy t q' cur false = o at ho hret hi hs hrc
      rw [hpc] at hhere
      cases hhere
      cases ho with
      | granted => cases hrc
      | waiting => cases hret
      | refused => exact ⟨hs, he, .refused cur (hself ▸ hpc) hi⟩
  -- refused after the light locks were collected
  | collected q' cur hpc =>
      have ho := heavyOutcome_of_collected hx hpc
      generalize { s.item x with mutex := none }.lockHeavy t q' cur true = o at ho hret hi hs hrc
      rw [hpc] at hhere
      cases hhere
      cases ho with
      | granted => cases hrc
      | waiting => cases hret
      | refused => exact ⟨hs, he, .refusedFirst cur (hself ▸ hpc) hi⟩
  -- the wait failed
  | waitFail q' cur new hpc hmx hm =>
      rw [hpc] at hhere
      cases hhere
      exact ⟨hs, he, .waitFail cur new (hself ▸ hpc) hmx (hm trivial) hi⟩

/-! ## §4. Nothing is left. -/

/-- The queue sees no difference. -/
theorem SameOwn.queue {s s' : LockItem} (e : SameOwn s s') : s'.queue = s.queue := by
  unfold LockItem.queue
  rw [e.held, e.request, e.nodes]

/-- **The requester and the queue after a failed call.** -/
theorem kept_failedAt (h : Inv n False s) (hc : Calling s₀ s t x q alone)
    (hf : FailedAt n s s' t x q) :
    Kept (s₀.item x) (s'.item x) t
      ∧ (s'.item x).queue = ((s.item x).queue.withdraw t ((s₀.item x).held t)).wake := by
  have hx := h.item x
  have hself := hc.pcAt_self
  have hhere := hc.here
  -- where the call never queued, the queue is as it was, and nobody is left to wake
  have hstay : (∀ z q cur new, s.pcAt x t ≠ .waitForLock z q cur new) →
      Kept (s₀.item x) (s.item x) t →
      (s.item x).queue = ((s.item x).queue.withdraw t ((s₀.item x).held t)).wake := by
    intro hnw hk
    rw [← hk.held, queue_withdraw_self hx.own fun r hr => hx.own.not_owner hnw hr,
      wake_of_settled hx.settled]
  cases hf with
  | refused cur hpc hi =>
      rw [hpc] at hhere hself
      rw [hi]
      cases hhere with
      | internal cur hk hal => exact ⟨hk, hstay (by rw [hself]; simp) hk⟩
  | refusedFirst cur hpc hi =>
      rw [hpc] at hhere hself
      obtain ⟨-, hreq, -, -⟩ := hx.collected hself
      have hsame : SameOwn (s.item x) { s.item x with mutex := none } := ⟨rfl, rfl, rfl, rfl, rfl⟩
      have hlast := toLightMode_of_nil (s := { s.item x with mutex := none }) hreq
      rw [hi]
      cases hhere with
      | collect cur i hk hal =>
          refine ⟨(hk.of_same hsame).of_same hlast, ?_⟩
          rw [hlast.queue, hsame.queue]
          exact hstay (by rw [hself]; simp) hk
  | waitFail cur new hpc hmx hnm hi =>
      rw [hpc] at hhere hself
      have hat := hx.own.pcAt hself
      have hslot := hat.2.2.2.slotID
      have hrel := released_waitFail hx hmx hself hnm
      rw [hi]
      cases hhere with
      | wait cur new hcur hnew hk hal =>
          obtain ⟨-, -, -, hw⟩ := hat
          cases hw with
          -- the request is still queued: it is taken out
          | blocked hreq =>
              have hk' := hk hreq
              have e := agreeOn_giveUp_self hx hmx hself hreq hslot
              refine ⟨⟨e.ring.trans hk'.ring, fun c hc => ?_⟩, ?_⟩
              · have hg := (hx.own.tx t).node c (by rw [hk'.ring]; exact hc)
                rw [e.nodes c hg.lt hg.slotID]
                exact hk'.nodes c hc
              · rw [hrel.queue, if_pos hreq, hk'.held]
          -- the lock was granted after the wait had failed: it is given back
          | granted hreq hb hcur' hring _ =>
              have hmem : new ∈ (s.item x).transLockNode t := by
                rw [hring]
                exact List.mem_singleton_self new
              have hnil : (s₀.item x).transLockNode t = [] := by rw [hcur, hcur']; rfl
              have hrel' : Releasable (s.item x) t new none (s.slotsAt x t) := by
                refine ⟨hmem, fun r hr hrt => ?_, fun m hm => by cases hm⟩
                obtain ⟨z, q', cur', hp⟩ := hx.own.req r hr
                rw [hrt, hself] at hp
                cases hp
                exact hreq hr
              have e := agreeOn_unlock_self hx hmx hrel'
              rw [← resumeTrans_of_not_blocked hb] at e
              refine ⟨⟨?_, fun c hc => ?_⟩, ?_⟩
              · rw [e.ring, hnil, resumeTrans_of_not_blocked hb]
                exact removeLockNode_ring _ hring
              · rw [hnil] at hc
                cases hc
              · rw [hrel.queue, if_neg hreq, held_of_nil hnil]
          -- a merged conversion is the case that the hypothesis excludes
          | merged _ _ _ _ _ _ hnode =>
              rw [hnode] at hnm
              cases hnm

section GiveUp

variable {s₀ base s d : LockItem} {pc pc₀ : TxSlot → Pc}
  {sl sl₀ : TxSlot → NodeId → List LockMode} {new : NodeId} {cur : Option NodeId}

/-- Without the request an item is what the request was added to. -/
theorem sameItem_dropRequest (hnd : s.request.Nodup) (hs : s = (base.addRequest t q cur).2)
    (hnew : new = base.nextNode) : SameItem base (s.dropRequest t new) := by
  obtain ⟨-, -, -, hring, hreqs, -⟩ := addRequest_spec base t q cur
  rw [hs, hreqs] at hnd
  have hr : (s.dropRequest t new).request = base.request := by
    show s.request.erase new = _
    rw [hs, hreqs, hnew]
    cases cur with
    | none =>
        have hni : base.nextNode ∉ base.request := by
          intro hin
          exact (List.nodup_append.1 hnd).2.2 _ hin _ (List.mem_singleton_self _) rfl
        rw [List.erase_append_right _ hni]
        simp
    | some c => exact List.erase_cons_head ..
  have hn : ∀ c, c < base.nextNode → (s.dropRequest t new).nodes c = base.nodes c := by
    intro c hc
    show s.nodes c = _
    rw [hs, nodes_addRequest base t q cur hc]
  have hcnt : s.requestCnt - 1 = base.requestCnt := by
    have hone : s.requestCnt = base.requestCnt + 1 := by
      rw [hs]
      cases cur <;> rfl
    omega
  subst hs
  refine ⟨?_, ?_, hcnt, ?_, ?_, ?_, hr, hring, ?_, hn⟩ <;> cases cur <;> rfl

/-- The end of a release does nothing to an item that it owes nothing. -/
theorem toLightOrWakeup_of_settled (h₀ : Own n False s₀ pc₀ sl₀) (hv : Heavy s₀)
    (hd : s₀.NeedsHeavy) (hset : s₀.queue.Settled) (e : SameItem s₀ d) : d.toLightOrWakeup = d := by
  have hlt : ∀ r ∈ s₀.request, r < s₀.nextNode := by
    intro r hr
    obtain ⟨_, _, _, _, _, hlt, _⟩ := h₀.waiter hr
    exact hlt
  have hd' : d.NeedsHeavy := by
    rcases hd with hd | ⟨r, hr, hm⟩
    · exact Or.inl (by rw [e.group]; exact hd)
    · refine Or.inr ⟨r, by rw [e.request]; exact hr, ?_⟩
      rw [e.nodes r (hlt r hr)]
      exact hm
  have hu : d.unlinkAll = false := by
    cases hu : d.unlinkAll with
    | false => rfl
    | true => exact absurd hd' ((unlinkAll_iff d).1 hu)
  unfold LockItem.toLightOrWakeup LockItem.wakeupRequestLockNodeInLockItem
  rw [hu, if_neg Bool.false_ne_true, e.request]
  cases hr : s₀.request with
  | nil => rfl
  | cons r rest =>
      have hr₀ : r ∈ s₀.request := by rw [hr]; exact List.mem_cons_self
      have hg : s₀.canGrant r = false := by
        have hng : ¬ Grantable s₀.held (s₀.requestOf r) := by
          refine hset _ ?_
          show s₀.requestOf r ∈ (s₀.request.map s₀.requestOf).head?
          rw [hr]
          rfl
        rw [← hv.canGrant_iff h₀ hr₀] at hng
        simpa using hng
      have hg' : d.canGrant r = false := by
        rw [← hg]
        unfold LockItem.canGrant
        rw [e.nodes r (hlt r hr₀), e.group, e.grantCnt]
      rw [LockItem.wakeupLoop, (wakeupHead_eq_none r).2 hg']

/-- The end of a release takes an item back to light mode whose grant list was only
    rebuilt for the request. -/
theorem toLightOrWakeup_of_rebuilt (h₀ : Own n False s₀ pc₀ sl₀) (hl : Light s₀)
    (hsame : SameOwn s₀ base) (e : SameItem base d) (hown : Own n False d pc sl) (hv : Heavy d) :
    SameItem s₀ d.toLightOrWakeup := by
  have hnil : d.request = [] := by rw [e.request, hsame.request, hl.request]
  have hheld : ∀ v, d.held v ≤ .ixlock := by
    intro v
    have hv' : d.held v = base.held v := by
      refine held_congr (by rw [e.ring]) fun c hc => e.nodes c ?_
      rw [hsame.ring] at hc
      rw [hsame.next]
      exact ((h₀.tx v).node c hc).lt
    rw [hv', hsame.held]
    exact hl.modes v
  have hu : d.unlinkAll = true := by
    rw [unlinkAll_iff]
    intro hd
    rcases hd with hd | ⟨r, hr, -⟩
    · refine hd (hv.group.group_le_iff.2 fun c hc => ?_)
      obtain ⟨v, hcv⟩ := (hv.mem c).1 hc
      rw [← hown.held_of_mem hcv]
      exact hheld v
    · rw [hnil] at hr
      cases hr
  obtain ⟨-, hl'⟩ := toLightMode_spec hown hv.mutex hheld fun r hr => by
    rw [hnil] at hr
    cases hr
  have hlast := toLightMode_of_nil hnil
  unfold LockItem.toLightOrWakeup
  rw [hu, if_pos rfl]
  refine .of_light hl hl' ?_ fun c hc => ?_
  · rw [hlast.ring, e.ring, hsame.ring]
  · rw [hlast.nodes, e.nodes c (by rw [hsame.next]; exact hc), hsame.nodes]

/-- **A request that was queued up and taken back leaves the item as it was.** -/
theorem sameItem_giveUp (h₀ : ItemInv n False s₀ pc₀ sl₀) (h : ItemInv n False s pc sl)
    (hmx : s.mutex = none) (hpc : pc t = .waitForLock x q cur new) (hreq : new ∈ s.request)
    (hbase : Base s₀ base) (hs : s = (base.addRequest t q cur).2) (hnew : new = base.nextNode) :
    SameItem s₀ ((s.resumeTrans t).unlockTableInternal t new none) := by
  have hslot : (s.nodes new).slotID = t := (h.own.pcAt hpc).2.2.2.slotID
  have hf : s.flag ≠ flagLightMode := by
    intro hf
    rw [(h.phase.light_of_flag hf).request] at hreq
    cases hreq
  obtain ⟨hv, -, -⟩ := h.phase.heavy_of_flag hmx hf
  have hown : Own n False (s.dropRequest t new) (Function.update pc t .idle) sl :=
    (own_giveUp h.own hpc hreq).of_same ⟨rfl, rfl, rfl, rfl, rfl⟩
  have hdrop := sameItem_dropRequest h.own.reqNodup hs hnew
  rw [unlockTableInternal_giveUp h.own hreq hslot hf]
  cases hbase with
  | heavy hv₀ hd hset =>
      rw [toLightOrWakeup_of_settled h₀.own hv₀ hd hset hdrop]
      exact hdrop
  | rebuilt hl hsame _ =>
      exact toLightOrWakeup_of_rebuilt h₀.own hl hsame hdrop hown (hv.dropRequest hreq)

end GiveUp

/-- **Where nobody else touched the item, it is as it was.** -/
theorem sameItem_failedAt (h₀ : Inv n False s₀) (h : Inv n False s)
    (hc : Calling s₀ s t x q True) (hf : FailedAt n s s' t x q) :
    SameItem (s₀.item x) (s'.item x) := by
  have hx := h.item x
  have hself := hc.pcAt_self
  have hhere := hc.here
  cases hf with
  -- refused at a heavy item: nothing was written
  | refused cur hpc hi =>
      rw [hpc] at hhere
      cases hhere with
      | internal cur hk hal =>
          rw [hi, hal trivial]
          exact .refl _
  -- refused after collecting: the item goes back to light mode
  | refusedFirst cur hpc hi =>
      rw [hpc] at hhere hself
      cases hhere with
      | collect cur i hk hal =>
          obtain ⟨hl, hsame⟩ := hal trivial
          obtain ⟨hv, hreq, hm, -⟩ := hx.collected hself
          have hown : Own n False { s.item x with mutex := none } (s.pcAt x) (s.slotsAt x) :=
            hx.own.of_same ⟨rfl, rfl, rfl, rfl, rfl⟩
          obtain ⟨-, hl'⟩ := toLightMode_spec hown hv.mutex hm
            (fun r hr => by
              have hr' : r ∈ (s.item x).request := hr
              rw [hreq] at hr'
              cases hr')
          have hlast := toLightMode_of_nil (s := { s.item x with mutex := none }) hreq
          rw [hi]
          refine .of_light hl hl' ?_ fun c _ => ?_
          · rw [hlast.ring]
            exact hsame.ring
          · rw [hlast.nodes]
            exact congrFun hsame.nodes c
  -- the request is taken out of the list again
  | waitFail cur new hpc hmx hnm hi =>
      rw [hpc] at hhere hself
      cases hhere with
      | wait cur new hcur hnew hk hal =>
          obtain ⟨hreq, base, hbase, hs, hid⟩ := hal trivial
          rw [hi]
          exact sameItem_giveUp (h₀.item x) hx hmx hself hreq hbase hs hid

/-! ## §5. The result. -/

/-- **All along the call.** -/
theorem calling_path {ok : State → Action → Prop} (h₁ : Inv n False s₁)
    (hc₁ : s₁.pc t ≠ .idle → Calling s₀ s₁ t x q alone) (hnh : s₁.pc t ≠ .idle → NotHeld s₀ t x q)
    (hok : ∀ u a, ok u a → alone → Undisturbed n t x u a)
    (hpath : (lockMgr n).Path (fun u a => u.pc t ≠ .idle ∧ ok u a) s₁ s) (hbusy₁ : s₁.pc t ≠ .idle) :
    Inv n False s ∧ (s.pc t ≠ .idle → Calling s₀ s t x q alone) := by
  refine hpath.invariant (I := fun s => Inv n False s ∧ (s.pc t ≠ .idle → Calling s₀ s t x q alone))
    (fun u a v hu hok' hst => ?_) ⟨h₁, hc₁⟩
  obtain ⟨hinv, hcall⟩ := hu
  have hstep := step_cases False hst (fun hf => hf.elim)
  have hc := hcall hok'.1
  refine ⟨inv_stepped hinv hstep, fun hbusy => ?_⟩
  by_cases ha : t = a.slot
  · rw [← ha] at hstep
    exact calling_self hinv hc (hnh hbusy₁) hstep hbusy
  · refine calling_other hinv hc hstep ha fun hal => ?_
    rcases hok u a hok'.2 hal with hat | hitem
    · exact absurd hat.symm ha
    · exact hitem v hst

/-- The step in which a call returns is one of its own. -/
theorem slot_of_return {a : Action} (hst : step n s a = some s') (hbusy : s.pc t ≠ .idle)
    (hret : s'.pc t = .idle) : a.slot = t := by
  by_contra ha
  have hstep := step_cases False hst (fun hf => hf.elim)
  exact hbusy ((other_same hstep (Ne.symm ha)).1.symm.trans hret)

/-- A refusal at once changes nothing but the return code. -/
theorem ret_of_atOnce {lockEnable : Bool}
    (hst : step n s₀ (.lockTable t x q lockEnable) = some s') (hret : s'.pc t = .idle) :
    s'.item = s₀.item ∧ s'.slots = s₀.slots ∧ s'.pc = s₀.pc := by
  simp only [step, Option.ite_none_right_eq_some, Option.some.injEq] at hst
  obtain ⟨-, rfl⟩ := hst
  unfold State.lockTable at hret ⊢
  dsimp only at hret ⊢
  split_ifs at hret ⊢ with he hi ha hl
  · exact ⟨rfl, rfl, rfl⟩
  · exact ⟨rfl, rfl, rfl⟩
  · exact ⟨rfl, rfl, rfl⟩
  · have hp : (s₀.put t x (s₀.item x) (s₀.slots t)
        (.lightLock x q ((s₀.item x).findLockNode t))).pc t = .lightLock x q _ :=
      Function.update_self ..
    rw [hp] at hret
    cases hret
  · have hp : (s₀.put t x (s₀.item x) (s₀.slots t)
        (.lockInternal x q ((s₀.item x).findLockNode t))).pc t = .lockInternal x q _ :=
      Function.update_self ..
    rw [hp] at hret
    cases hret

/-- A call begins when the transaction is idle. -/
theorem idle_of_lockTable {lockEnable : Bool}
    (hst : step n s₀ (.lockTable t x q lockEnable) = some s') : s₀.pc t = .idle := by
  simp only [step, Option.ite_none_right_eq_some] at hst
  exact hst.1.2.1

/-- A call that is refused at once has done nothing. -/
theorem asIfNotMade_atOnce {a : Action} (h₀ : Inv n False s₀) (hitem : s'.item = s₀.item)
    (hslots : s'.slots = s₀.slots) (hidle : s₀.pc t = .idle) :
    AsIfNotMade n t x q s₀ s₀ a s' := by
  have hno : ∀ y, ∀ r ∈ (s₀.item y).request, ((s₀.item y).nodes r).slotID ≠ t := by
    intro y r hr
    refine (h₀.item y).own.not_owner (fun z q' cur new hp => ?_) hr
    unfold State.pcAt at hp
    rw [hidle] at hp
    cases hp
  refine ⟨fun y => ?_, by rw [hslots], fun y => ?_, ?_, fun y _ => by rw [hitem], fun _ => ?_⟩
  · rw [hitem]
    exact .refl _ t
  · rw [hitem]
    exact hno y
  · rw [hitem, queue_withdraw_self (h₀.item x).own (hno x), wake_of_settled (h₀.item x).settled]
  · rw [hitem]
    exact .refl _

/-- A call that returns later is under way until then. -/
theorem calling_of_path (alone : Prop) {ok : State → Action → Prop} {lockEnable : Bool}
    (h₀ : Inv n False s₀) (hok : ∀ u a, ok u a → alone → Undisturbed n t x u a)
    (hcall : step n s₀ (.lockTable t x q lockEnable) = some s₁)
    (hpath : (lockMgr n).Path (fun u a => u.pc t ≠ .idle ∧ ok u a) s₁ s) (hbusy : s.pc t ≠ .idle) :
    Inv n False s ∧ Calling s₀ s t x q alone := by
  have h₁ : Inv n False s₁ := inv_stepped h₀ (step_cases False hcall (fun hf => hf.elim))
  have hbusy₁ : s₁.pc t ≠ .idle := by
    cases hpath.eq_or_head with
    | inl he => rw [he]; exact hbusy
    | inr hh => obtain ⟨_, _, hok', _, _⟩ := hh; exact hok'.1
  obtain ⟨h, hc⟩ := calling_path h₁ (fun hb => (calling_start alone h₀ hcall hb).1)
    (fun hb => (calling_start alone h₀ hcall hb).2) hok hpath hbusy₁
  exact ⟨h, hc hbusy⟩

/-- **A failed call leaves nothing behind, unless it gave up a merged conversion.** -/
theorem asIfNotMade_of_failed {a : Action} (h₀ : Inv n False s₀)
    (hf : FailedCall n (fun _ _ => True) t x q s₀ s a s') (hm : ¬ GivesUpMerged s a) :
    AsIfNotMade n t x q s₀ s a s' := by
  cases hf with
  | atOnce lockEnable hcall hret hfail =>
      obtain ⟨hitem, hslots, hpc⟩ := ret_of_atOnce hcall hret
      exact asIfNotMade_atOnce h₀ hitem hslots (by rw [← hpc]; exact hret)
  | later lockEnable hcall hpath hbusy hstep hret hfail =>
      obtain ⟨h, hc⟩ := calling_of_path False h₀ (fun _ _ _ hal => hal.elim) hcall hpath hbusy
      have hslot := slot_of_return hstep hbusy hret
      have hst := step_cases True hstep fun _ => hm
      rw [hslot] at hst
      obtain ⟨hslots, he, hfa⟩ := failedAt h hc hst hret hfail
      have h' : Inv n False s' := inv_stepped h (step_cases False hstep fun hf => hf.elim)
      obtain ⟨hk, hq⟩ := kept_failedAt h hc hfa
      refine ⟨fun y => ?_, hslots.trans hc.slots, fun y r hr => ?_, hq, he.item, fun hal => ?_⟩
      · by_cases hy : y = x
        · rw [hy]
          exact hk
        · rw [he.item y hy]
          exact hc.elsewhere y hy
      · refine (h'.item y).own.not_owner (fun z q' cur new hp => ?_) hr
        unfold State.pcAt at hp
        rw [hret] at hp
        cases hp
      · cases hal with
        | atOnce => exact absurd (idle_of_lockTable hcall) hbusy
        | later lockEnable' hcall' hpath' hbusy' hstep' hret' hfail' =>
            obtain ⟨-, hc'⟩ := calling_of_path True h₀ (fun _ _ hu _ => hu) hcall' hpath' hbusy
            exact sameItem_failedAt h₀ h hc' hfa

/-- **A merged conversion that is given up stays on the node.** -/
theorem not_asIfNotMade_of_merged {a : Action} (h₀ : Inv n False s₀)
    (hf : FailedCall n (fun _ _ => True) t x q s₀ s a s') (hm : GivesUpMerged s a) :
    ¬ AsIfNotMade n t x q s₀ s a s' := by
  intro has
  cases hf with
  | atOnce => exact hm
  | later lockEnable hcall hpath hbusy hstep hret hfail =>
      obtain ⟨h, hc⟩ := calling_of_path False h₀ (fun _ _ _ hal => hal.elim) hcall hpath hbusy
      have hslot := slot_of_return hstep hbusy hret
      have hx := h.item x
      have hself := hc.pcAt_self
      have hhere := hc.here
      cases a with
      | waitFail t' why =>
          have ht : t' = t := hslot
          subst ht
          cases hpc : s.pc t' with
          | waitForLock y q' cur new =>
              simp only [step, hpc, Option.ite_none_right_eq_some, Option.some.injEq] at hstep
              obtain ⟨⟨hmx, -⟩, rfl⟩ := hstep
              rw [hpc] at hhere hself
              cases hhere with
              | wait cur new hcur hnew hk hal =>
                  have hdr := hm x q cur new hpc
                  obtain ⟨-, -, -, hw⟩ := hx.own.pcAt hself
                  cases hw with
                  -- a request that waits, or was granted as such, is not marked
                  | blocked _ _ _ hnode => rw [hnode] at hdr; cases hdr
                  | granted _ _ _ _ hnode => rw [hnode] at hdr; cases hdr
                  -- the node keeps the merged mode, which the transaction did not hold
                  | merged c _ _ hcur' hring hle _ =>
                      have hc₀ : c ∈ (s₀.item x).transLockNode t' := by
                        rw [hcur, hcur']
                        exact List.mem_singleton_self c
                      have hitem : (s.waitFail t' x new).item x = s.item x := by
                        show Function.update s.item x _ x = _
                        rw [Function.update_self]
                        exact (walkAway_waitFail hx hmx hself hdr).1
                      have hnode := (has.own x).nodes c hc₀
                      rw [hitem] at hnode
                      rw [hnode] at hle
                      exact hnew c hc₀ hle
          | _ => simp [step, hpc] at hstep
      | _ => exact hm

/-- **What a failed `lockTable` leaves behind**, in every run: nothing, exactly when the
    step that fails is not the end of a wait whose conversion had been merged. -/
theorem failed_lockTable {a : Action} (h₀ : (lockMgr n).Reachable s₀)
    (hf : FailedCall n (fun _ _ => True) t x q s₀ s a s') :
    AsIfNotMade n t x q s₀ s a s' ↔ ¬ GivesUpMerged s a :=
  ⟨fun has hm => not_asIfNotMade_of_merged (inv_reachable h₀) hf hm has,
    asIfNotMade_of_failed (inv_reachable h₀) hf⟩

/-! ## §6. Two runs. -/

/-- A wait that times out: transaction 1 asks for IX beside the S lock of transaction 0. -/
def timeoutCall : Action :=
  .lockTable 1 0 ⟨.ixlock, 1, false⟩ true

/-- Transaction 0 holds S. -/
def beforeTimeout : List Action :=
  [.lockTable 0 0 ⟨.slock, 0, false⟩ true, .lockInternal 0, .collect 0, .collect 0, .collected 0]

theorem beforeTimeout_isSome : ((lockMgr 2).run State.init beforeTimeout).isSome = true := by
  decide

theorem timeoutCall_isSome :
    ((lockMgr 2).run State.init (beforeTimeout ++ [timeoutCall])).isSome = true := by
  decide

theorem timeoutWait_isSome : ((lockMgr 2).run State.init
    (beforeTimeout ++ [timeoutCall, .lockInternal 1])).isSome = true := by
  decide

theorem timeoutFail_isSome : ((lockMgr 2).run State.init
    (beforeTimeout ++ [timeoutCall, .lockInternal 1, .waitFail 1 .timeout])).isSome = true := by
  decide

/-- The steps of a call in which its transaction is busy. -/
def busy (t : TxSlot) (s : State) (_ : Action) : Bool :=
  s.pc t ≠ .idle

/-- A run in which the transaction stays in its call. -/
theorem path_busy (as : List Action) (h : ((lockMgr n).restrict (busy t)).run s₁ as = some s) :
    (lockMgr n).Path (fun u _ => u.pc t ≠ .idle ∧ True) s₁ s :=
  (System.path_of_restrict as h).mono fun _ _ hb => ⟨of_decide_eq_true hb, trivial⟩

/-- Transaction 1 is in its call until the wait times out. -/
theorem timeout_path : (lockMgr 2).Path (fun u _ => u.pc 1 ≠ .idle ∧ True)
    ((lockMgr 2).after _ timeoutCall_isSome) ((lockMgr 2).after _ timeoutWait_isSome) :=
  path_busy [.lockInternal 1] rfl

/-- Nothing is left of the timed-out request. -/
theorem failed_lockTable_timeout :
    AsIfNotMade 2 1 0 ⟨.ixlock, 1, false⟩ ((lockMgr 2).after beforeTimeout beforeTimeout_isSome)
        ((lockMgr 2).after _ timeoutWait_isSome) (.waitFail 1 .timeout)
        ((lockMgr 2).after _ timeoutFail_isSome)
      ↔ ¬ GivesUpMerged ((lockMgr 2).after _ timeoutWait_isSome) (.waitFail 1 .timeout) :=
  failed_lockTable (System.reachable_after (lockMgr 2) beforeTimeout beforeTimeout_isSome)
    (.later true rfl timeout_path (by decide) rfl (by decide) (by decide))

/-- Transaction 0 holds IS and transaction 1 holds S. -/
def beforeMerge : List Action :=
  [.lockTable 0 0 ⟨.islock, 0, false⟩ true, .lockLight 0,
    .lockTable 1 0 ⟨.slock, 0, false⟩ true, .lockInternal 1, .collect 1, .collect 1, .collected 1]

/-- Transaction 0 asks for IX and waits; transaction 1 unlocks, which merges the request. -/
def mergeWait : List Action :=
  [.lockInternal 0, .unlockTable 1 0 1 none, .unlockInternal 1]

/-- Transaction 0, which holds IS, asks for IX. -/
def mergeCall : Action :=
  .lockTable 0 0 ⟨.ixlock, 1, false⟩ true

theorem beforeMerge_isSome : ((lockMgr 2).run State.init beforeMerge).isSome = true := by
  decide

theorem mergeCall_isSome :
    ((lockMgr 2).run State.init (beforeMerge ++ [mergeCall])).isSome = true := by
  decide

theorem mergeWait_isSome :
    ((lockMgr 2).run State.init (beforeMerge ++ mergeCall :: mergeWait)).isSome = true := by
  decide

theorem mergeFail_isSome : ((lockMgr 2).run State.init
    (beforeMerge ++ mergeCall :: (mergeWait ++ [.waitFail 0 .sessionEvent]))).isSome = true := by
  decide

/-- Transaction 0 is in its call until the wait fails. -/
theorem merge_path : (lockMgr 2).Path (fun u _ => u.pc 0 ≠ .idle ∧ True)
    ((lockMgr 2).after _ mergeCall_isSome) ((lockMgr 2).after _ mergeWait_isSome) :=
  path_busy mergeWait rfl

/-- **A cancelled conversion stays on the node**: the request of transaction 0 fails, and
    its node holds IX although its flag and its slots say IS. -/
theorem merged_conversion_stays :
    ¬ ∀ (n : Nat) (t : TxSlot) (x : ItemId) (q : LockReq) (s₀ s : State) (a : Action) (s' : State),
      (lockMgr n).Reachable s₀ → FailedCall n (fun _ _ => True) t x q s₀ s a s' →
      AsIfNotMade n t x q s₀ s a s' := by
  intro hall
  have has := hall 2 0 0 ⟨.ixlock, 1, false⟩ ((lockMgr 2).after beforeMerge beforeMerge_isSome)
    ((lockMgr 2).after _ mergeWait_isSome) (.waitFail 0 .sessionEvent)
    ((lockMgr 2).after _ mergeFail_isSome) (System.reachable_after _ _ _)
    (.later true rfl merge_path (by decide) rfl (by decide) (by decide))
  have hnode := (has.own 0).nodes 0 (by decide)
  revert hnode
  decide

end Altibase.Sml
