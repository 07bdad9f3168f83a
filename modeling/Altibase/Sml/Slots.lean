/-
  Altibase.Sml.Slots
  ──────────────────
  **THE SLOTS OF A TRANSACTION THAT HAS NOT BEGUN TO END.**

  A node has one slot for each lock mode.  `lockTable` never links a slot that
  is linked already: it returns early when the held mode covers the request,
  and the slot of an IS request is looked at by itself.  While a transaction
  releases its locks slot by slot only, every linked slot belongs to a node
  that the transaction still holds.

    * `Tidy` — both facts, for one transaction at one item;
    * `tidy_itemStep` — the steps of the transaction itself;
    * `tidy_other` — the steps of the others, also while it waits;
    * `tidy_step` — all of them.
-/
import Altibase.Sml.Undo

namespace Altibase.Sml

open Altibase.Lib

variable {n : Nat} {t : TxSlot} {x : ItemId} {c : NodeId}

/-! ## §1. One transaction at one item. -/

/-- The request that a transaction is in, and the node it had before. -/
def Pc.request : Pc → Option (LockReq × Option NodeId)
  | .lightLock _ q cur => some (q, cur)
  | .lockInternal _ q cur => some (q, cur)
  | .collect _ q cur _ => some (q, cur)
  | .waitForLock _ q cur _ => some (q, cur)
  | _ => none

/-- The transaction releases a whole node. -/
def Pc.freesNode : Pc → Bool
  | .lightUnlock _ _ l => l.isNone
  | .unlockInternal _ _ l => l.isNone
  | _ => false

/-- **The slots of a transaction on the nodes of an item.** -/
structure Tidy (s : LockItem) (t : TxSlot) (p : Pc) (slt : NodeId → List LockMode) : Prop where
  linked : ∀ c, slt c ≠ [] → c ∈ s.transLockNode t
  distinct : ∀ c, (slt c).Nodup
  modes : ∀ c, ∀ m ∈ slt c, m ≠ .nlock
  pending : ∀ q cur, p.request = some (q, cur) → ∀ c ∈ cur, q.lockMode ∉ slt c
  bySlot : p.freesNode = false

section Item

variable {s s' : LockItem} {pc : TxSlot → Pc} {sl : TxSlot → NodeId → List LockMode} {p p' : Pc}
  {slt : NodeId → List LockMode}

/-- The ring stays, the request is the same or over. -/
theorem Tidy.move (h : Tidy s t p slt) (hring : s'.transLockNode t = s.transLockNode t)
    (hreq : ∀ q cur, p'.request = some (q, cur) → ∀ c ∈ cur, q.lockMode ∉ slt c)
    (hfree : p'.freesNode = false) : Tidy s' t p' slt where
  linked c hc := by
    rw [hring]
    exact h.linked c hc
  distinct := h.distinct
  modes := h.modes
  pending := hreq
  bySlot := hfree

/-- A transaction without slots. -/
theorem Tidy.of_nil (hnil : ∀ c, slt c = []) (hfree : p.freesNode = false) :
    Tidy s t p slt where
  linked c hc := absurd (hnil c) hc
  distinct c := by
    rw [hnil c]
    exact .nil
  modes c m hm := by
    rw [hnil c] at hm
    cases hm
  pending _ _ _ c _ hm := by
    rw [hnil c] at hm
    cases hm
  bySlot := hfree

/-- A granted request: its slot is a new one, of the only node with slots. -/
theorem Tidy.granted (h : Tidy s t p slt) {m : LockMode} (hm : m ≠ .nlock) (hnew : m ∉ slt c)
    (honly : ∀ d, slt d ≠ [] → d = c) (hring : s'.transLockNode t = [c]) :
    Tidy (s'.addFlag c m) t .idle (slAdd slt c m) where
  linked d hd := by
    show d ∈ s'.transLockNode t
    rw [hring, List.mem_singleton]
    by_contra hne
    refine hne (honly d ?_)
    unfold slAdd at hd
    rw [Function.update_of_ne hne] at hd
    exact hd
  distinct d := by
    unfold slAdd
    by_cases hd : d = c
    · subst hd
      rw [Function.update_self]
      exact List.nodup_append.mpr ⟨h.distinct d, List.nodup_singleton m,
        fun a ha b hb => by rw [List.mem_singleton.mp hb]; exact fun e => hnew (e ▸ ha)⟩
    · rw [Function.update_of_ne hd]
      exact h.distinct d
  modes d a ha := by
    unfold slAdd at ha
    by_cases hd : d = c
    · subst hd
      rw [Function.update_self] at ha
      rcases List.mem_append.mp ha with hold | hlast
      · exact h.modes d a hold
      · rw [List.mem_singleton.mp hlast]
        exact hm
    · rw [Function.update_of_ne hd] at ha
      exact h.modes d a ha
  pending _ _ hp := by cases hp
  bySlot := rfl

/-- The slots that a ring of at most one node can have. -/
theorem Tidy.only_of_ring (h : Tidy s t p slt) (hring : s.transLockNode t = [c]) (d : NodeId)
    (hd : slt d ≠ []) : d = c := by
  have hmem := h.linked d hd
  rw [hring] at hmem
  exact List.mem_singleton.mp hmem

theorem Tidy.nil_of_ring (h : Tidy s t p slt) (hring : s.transLockNode t = []) (d : NodeId) :
    slt d = [] := by
  by_contra hd
  have hmem := h.linked d hd
  rw [hring] at hmem
  cases hmem

/-- A mode is covered by the decision of the slots it is among. -/
theorem le_decision_of_mem {m : LockMode} {l : List LockMode} (hm : m ∈ l) :
    m ≤ getDecision (maskOf l) := by
  rw [getDecision_maskOf]
  induction l with
  | nil => cases hm
  | cons a l ih =>
    rw [List.foldr_cons]
    rcases List.mem_cons.mp hm with rfl | hmem
    · exact le_sup_left
    · exact le_trans (ih hmem) le_sup_right

/-- What is left of a node when one of its slots is released. -/
theorem tidy_unlockLight (h : Own n False s pc sl) (ht : Tidy s t p (sl t)) {m : LockMode}
    (hrel : Releasable s t c (some m) (sl t)) :
    Tidy (s.unlockLight t c (some m)) t .idle (slRemove (sl t) c (some m)) := by
  have hgc := (h.tx t).node c hrel.mem
  have hring := h.ring_of_mem hrel.mem
  refine ⟨fun d hd => ?_, fun d => ?_, fun d a ha => ?_, (by simp [Pc.request]), rfl⟩
  · have hdc : d = c := by
      by_contra hne
      rw [slRemove_some, Function.update_of_ne hne] at hd
      exact hne (ht.only_of_ring hring d hd)
    subst hdc
    rw [slRemove_some, Function.update_self] at hd
    rcases unlockLight_cases s t d (some m) hgc.flag_light with ⟨N, -, -, hk⟩ | ⟨m', -, -, e⟩
    · -- A slot is left, so the decision is not N.
      obtain ⟨a, ha⟩ := List.exists_mem_of_ne_nil _ hd
      have hle := le_decision_of_mem ha
      rw [maskOf_filter_ne, ← hrel.flag m rfl] at hle
      have hkept : getDecision ((s.nodes d).flag &&& ~~~ lockModeToMask m) = .nlock := hk
      rw [hkept] at hle
      exact absurd (le_bot_iff.mp hle) (ht.modes d a (List.mem_of_mem_filter ha))
    · rw [e]
      show d ∈ s.transLockNode t
      exact hrel.mem
  · rw [slRemove_some]
    by_cases hd : d = c
    · subst hd
      rw [Function.update_self]
      exact (ht.distinct d).filter _
    · rw [Function.update_of_ne hd]
      exact ht.distinct d
  · rw [slRemove_some] at ha
    by_cases hd : d = c
    · subst hd
      rw [Function.update_self] at ha
      exact ht.modes d a (List.mem_of_mem_filter ha)
    · rw [Function.update_of_ne hd] at ha
      exact ht.modes d a ha

/-- A granted request, the ring and the node known from `LockedBy`. -/
theorem Tidy.lockedBy (h : Tidy s t p (sl t)) (hown : Own n False s pc sl) {q : LockReq}
    {cur : Option NodeId} (hreq : p.request = some (q, cur)) (hq : q.lockMode ≠ .nlock)
    (hring : s.transLockNode t = cur.toList) (hc : c = (s.lockLight t q cur).1)
    (hl : LockedBy s t q (sl t) False c s') :
    Tidy (s'.addFlag c q.lockMode) t .idle (slAdd (sl t) c q.lockMode) := by
  cases cur with
  | none =>
    -- The node is a new one.
    have hfresh : sl t c = [] := (hown.tx t).slotFresh c (Nat.le_of_eq hc.symm)
    refine h.granted hq (by rw [hfresh]; exact List.not_mem_nil) (fun d hd => ?_) hl.ring
    exact absurd (h.nil_of_ring hring d) hd
  | some d =>
    obtain rfl : c = d := hc
    exact h.granted hq (h.pending q (some c) hreq c rfl) (h.only_of_ring hring) hl.ring

/-- The heavy path of a request, whatever its outcome. -/
theorem tidy_heavyOutcome (hown : Own n False s pc sl) (ht : Tidy s t (pc t) (sl t))
    {q : LockReq} {cur : Option NodeId} (first : Bool)
    (hreq : (pc t).request = some (q, cur)) (hq : q.lockMode ≠ .nlock)
    (hring : s.transLockNode t = cur.toList)
    (hnw : ∀ x q' cur' new, pc t ≠ .waitForLock x q' cur' new)
    (hnil : first = true → s.request = []) {o : LockOutcome × LockItem}
    (ho : HeavyOutcome s t q cur first o) :
    Tidy (After.ofOutcome x q cur o).item t (After.ofOutcome x q cur o).pc
      ((After.ofOutcome x q cur o).op.at (sl t)) := by
  cases ho with
  | granted c s' hg _ _ =>
    refine ht.lockedBy hown hreq hq hring hg.id ?_
    rw [hg.id]
    exact (lockLight_spec hown hring hq hnw).of_same hg.same
  | waiting _ _ =>
    refine ht.move ?_ ?_ rfl
    · exact congrFun (addRequest_spec s t q cur).2.2.2.1 t
    · intro q' cur' hp
      cases hp
      exact ht.pending q cur hreq
  | refused _ _ =>
    refine ht.move ?_ (fun _ _ hp => by cases hp) rfl
    show (if first then s.toLightMode else s).transLockNode t = _
    cases first with
    | false => rfl
    | true => exact congrFun (toLightMode_of_nil (hnil rfl)).ring t

/-- **The steps of the transaction itself.**  A request that it enters is for a
    mode without a slot. -/
theorem tidy_itemStep {a : After} (h : ItemInv n False s pc sl)
    (hst : ItemStep n False x t s pc (sl t) a) (ht : Tidy s t (pc t) (sl t))
    (hreq : pc t = .idle → ∀ q cur, a.pc.request = some (q, cur) → ∀ c ∈ cur, q.lockMode ∉ sl t c)
    (hfree : pc t = .idle → a.pc.freesNode = false) :
    Tidy a.item t a.pc (a.op.at (sl t)) := by
  have hown := h.own
  cases hst with
  | enterLight q hlt hidle hq hf => exact ht.move rfl (hreq hidle) (hfree hidle)
  | enterInternal q hlt hidle hq => exact ht.move rfl (hreq hidle) (hfree hidle)
  | enterUnlockLight c l hidle hc hl hf => exact ht.move rfl (hreq hidle) (hfree hidle)
  | enterUnlockInternal c l hidle hc hl => exact ht.move rfl (hreq hidle) (hfree hidle)
  | lockLight q cur hpc =>
    have hat := hown.pcAt hpc
    exact ht.lockedBy hown (by rw [hpc]; rfl) (isIntent_le hat.2).2 hat.1 rfl
      (lockLight_spec hown hat.1 (isIntent_le hat.2).2 (by simp [hpc]))
  | lockInternal q cur hpc hmx hf hq =>
    have hat := hown.pcAt hpc
    exact ht.lockedBy hown (by rw [hpc]; rfl) (isIntent_le hq).2 hat.1 rfl
      (lockLight_spec hown hat.1 (isIntent_le hq).2 (by simp [hpc]))
  | beginCollect q cur hpc hmx hf hq =>
    refine ht.move rfl (fun q' cur' hp => ?_) rfl
    cases hp
    exact ht.pending q cur (by rw [hpc]; rfl)
  | collect q cur i hpc hi hfree' =>
    refine ht.move (congrFun (sameOwn_collectTransNode s i).1.ring t) (fun q' cur' hp => ?_) rfl
    cases hp
    exact ht.pending q cur (by rw [hpc]; rfl)
  | lockHeavy q cur hpc hmx hf =>
    have hat := hown.pcAt hpc
    exact tidy_heavyOutcome hown ht false (by rw [hpc]; rfl) hat.2 hat.1 (by simp [hpc])
      (fun hp => by cases hp) (heavyOutcome_of_flag h hmx hf hat.1)
  | collected q cur hpc =>
    obtain ⟨hv, hnil, hmodes, -⟩ := h.collected hpc
    have hat := hown.pcAt hpc
    have hown' : Own n False { s with mutex := none } pc sl :=
      hown.of_same ⟨rfl, rfl, rfl, rfl, rfl⟩
    have ht' : Tidy { s with mutex := none } t (pc t) (sl t) := ⟨ht.1, ht.2, ht.3, ht.4, ht.5⟩
    exact tidy_heavyOutcome hown' ht' true (by rw [hpc]; rfl) (hown.collect_ne_nlock hpc) hat.1
      (by simp [hpc]) (fun _ => hnil) (heavyOutcome_of_collected h hpc)
  | resume q cur new hpc hb =>
    have hat := hown.pcAt hpc
    obtain ⟨hq, -, hnil, hw⟩ := hat
    obtain ⟨c, hc, hring, -⟩ := own_resume hown hpc hb
    show Tidy (s.addFlag _ _) t .idle (slAdd (sl t) _ q.lockMode)
    rw [← hc]
    refine ht.granted hq ?_ (ht.only_of_ring hring) hring
    cases hw with
    | blocked hreq' hb' => rw [hb] at hb'; cases hb'
    | granted _ _ _ hring' _ =>
      obtain rfl := List.singleton_inj.mp (hring.symm.trans hring')
      rw [hnil]
      exact List.not_mem_nil
    | merged d _ _ hcur hring' _ _ =>
      obtain rfl := List.singleton_inj.mp (hring.symm.trans hring')
      exact ht.pending q cur (by rw [hpc]; rfl) c hcur
  | waitFail q cur new hpc hmx hm =>
    have hat := hown.pcAt hpc
    obtain ⟨-, -, hnil, hw⟩ := hat
    cases hw with
    | blocked hreq' _ hring hnode =>
      have hslot : (s.nodes new).slotID = t := by rw [hnode]; rfl
      have hself := agreeOn_giveUp_self h hmx hpc hreq' hslot
      exact ht.move hself.ring (fun _ _ hp => by cases hp) rfl
    | granted hreq' hb' _ hring _ =>
      -- The only node is the one that was granted behind its back: no slots.
      refine .of_nil (fun d => ?_) rfl
      by_contra hd
      obtain rfl := ht.only_of_ring hring d hd
      exact hd hnil
    | merged d _ hb' _ _ _ hnode =>
      have hdr : (s.nodes new).doRemove = true := by rw [hnode]
      refine ht.move ?_ (fun _ _ hp => by cases hp) rfl
      exact congrArg (fun i : LockItem => i.transLockNode t) (walkAway_waitFail h hmx hpc hdr).1
  | unlockLight c l hpc =>
    cases l with
    | none =>
      have hno := ht.bySlot
      rw [hpc] at hno
      cases hno
    | some m =>
      exact tidy_unlockLight hown ht (hown.releasable (hown.pcAt hpc).1 (by simp [hpc]) (some m))
  | unlockInternal c l hpc hmx =>
    cases l with
    | none =>
      have hno := ht.bySlot
      rw [hpc] at hno
      cases hno
    | some m =>
      have hrel := hown.releasable (hown.pcAt hpc).1 (by simp [hpc]) (some m)
      exact (tidy_unlockLight hown ht hrel).move (agreeOn_unlock_self h hmx hrel).ring
        (fun _ _ hp => by cases hp) rfl

/-- **The steps of the others.**  A waiting transaction may be granted a node
    while it has no slots at the item. -/
theorem tidy_other (h : PcAt s slt t p) (h' : PcAt s' slt t p) (ht : Tidy s t p slt)
    (hring : (∀ x q cur new, p ≠ .waitForLock x q cur new) →
      s'.transLockNode t = s.transLockNode t) : Tidy s' t p slt := by
  by_cases hw : ∀ x q cur new, p ≠ .waitForLock x q cur new
  · exact ht.move (hring hw) ht.pending ht.bySlot
  · push Not at hw
    obtain ⟨x, q, cur, new, rfl⟩ := hw
    obtain ⟨-, -, hnil, hat⟩ := h
    obtain ⟨-, -, -, hat'⟩ := h'
    cases cur with
    | some d =>
      have hold : ∀ {i : LockItem}, WaitAt i t q (some d) new → i.transLockNode t = [d] := by
        intro i hi
        cases hi with
        | blocked _ _ hr _ => exact hr
        | granted _ _ hcur _ _ => cases hcur
        | merged e _ _ hcur hr _ _ =>
          cases hcur
          exact hr
      exact ht.move ((hold hat').trans (hold hat).symm) ht.pending ht.bySlot
    | none =>
      have hno : ∀ d, slt d = [] := by
        intro d
        cases hat with
        | blocked _ _ hr _ => exact ht.nil_of_ring hr d
        | granted _ _ _ hr _ =>
          by_contra hd
          obtain rfl := ht.only_of_ring hr d hd
          exact hd hnil
        | merged e _ _ hcur _ _ _ => cases hcur
      exact .of_nil hno ht.bySlot

end Item

/-! ## §2. All items. -/

variable {s s' : State}

/-- The slots of a transaction on the nodes of every item. -/
def TidyAll (s : State) (t : TxSlot) : Prop :=
  ∀ x, Tidy (s.item x) t (s.pcAt x t) (s.slotsAt x t)

/-- A transaction without slots, at rest. -/
theorem tidyAll_of_nil (hidle : s.pc t = .idle) (hnil : s.slots t = []) : TidyAll s t := by
  intro x
  refine .of_nil (fun c => ?_) ?_
  · unfold State.slotsAt
    rw [hnil]
    rfl
  · unfold State.pcAt
    rw [hidle]
    rfl

/-- A request that is not answered at once is for a mode without a slot. -/
theorem not_mem_slots (h : Inv n False s) (hidle : s.pc t = .idle) {q : LockReq}
    (hno : alreadyLocked (s.item x) x (s.slots t) q ((s.item x).findLockNode t) = false) :
    ∀ c ∈ (s.item x).findLockNode t, q.lockMode ∉ slotModes x c (s.slots t) := by
  intro c hc hm
  have ht := (h.item x).own.tx t
  have hring : (s.item x).transLockNode t = [c] := by
    rw [(h.item x).own.ring_find t, hc]
    rfl
  have hmem : c ∈ (s.item x).transLockNode t := by
    rw [hring]
    exact List.mem_singleton_self c
  have hflag : ((s.item x).nodes c).flag = maskOf (slotModes x c (s.slots t)) := by
    rcases ht.slotFlag c hmem with hf | ⟨-, y, q', hp⟩
    · exact hf
    · unfold State.pcAt at hp
      rw [hidle] at hp
      cases hp
  have hle : q.lockMode ≤ ((s.item x).nodes c).lockMode := by
    refine le_trans ?_ (ht.node c hmem).decision_le
    rw [hflag]
    exact le_decision_of_mem hm
  -- The held mode covers the request, and an IS slot is seen.
  have hlocked : alreadyLocked (s.item x) x (s.slots t) q (some c) = true := by
    have hconv := (le_iff_conversion _ _).mp hle
    by_cases his : q.lockMode = .islock
    · rw [his] at hconv hm
      simp [alreadyLocked, his, hconv, hm]
    · simp [alreadyLocked, hconv, his]
  rw [hc, hlocked] at hno
  cases hno

/-- A request or a release at one item is not seen at the others. -/
theorem pcAt_put (s : State) (t : TxSlot) (y : ItemId) (it : LockItem) (slots : List LockSlot)
    (p : Pc) : (s.put t y it slots p).pcAt x t = p.atItem x := by
  show (Function.update s.pc t p t).atItem x = _
  rw [Function.update_self]

/-- What a transaction at rest can enter. -/
theorem entry_of_step {a : Action} (h : Inv n False s) (hst : step n s a = some s')
    (hidle : s.pc a.slot = .idle) (hno : ∀ x c, a ≠ .unlockTable a.slot x c none) :
    (∀ q cur, (s'.pcAt x a.slot).request = some (q, cur) →
      ∀ c ∈ cur, q.lockMode ∉ slotModes x c (s.slots a.slot))
    ∧ (s'.pcAt x a.slot).freesNode = false := by
  have hrest : ∀ s'' : State, s''.pc a.slot = .idle →
      (∀ q cur, (s''.pcAt x a.slot).request = some (q, cur) →
        ∀ c ∈ cur, q.lockMode ∉ slotModes x c (s.slots a.slot))
      ∧ (s''.pcAt x a.slot).freesNode = false := by
    intro s'' hid
    unfold State.pcAt
    rw [hid]
    exact ⟨fun _ _ hp => (by cases hp), rfl⟩
  cases a with
  | lockTable t y q lockEnable =>
    simp only [step, Option.ite_none_right_eq_some, Option.some.injEq] at hst
    obtain ⟨⟨-, hid, -⟩, rfl⟩ := hst
    -- It enters one of the two paths.
    have hentry : ∀ p : Pc, p = .lightLock y q ((s.item y).findLockNode t)
        ∨ p = .lockInternal y q ((s.item y).findLockNode t) →
        (∀ c ∈ (s.item y).findLockNode t, q.lockMode ∉ slotModes y c (s.slots t)) →
        (∀ q' cur, ((s.put t y (s.item y) (s.slots t) p).pcAt x t).request = some (q', cur) →
          ∀ c ∈ cur, q'.lockMode ∉ slotModes x c (s.slots t))
        ∧ ((s.put t y (s.item y) (s.slots t) p).pcAt x t).freesNode = false := by
      intro p hp hnew
      rw [pcAt_put]
      by_cases hy : y = x
      · subst hy
        rcases hp with rfl | rfl
        all_goals
          refine ⟨fun q' cur hreq => ?_, by simp [Pc.atItem, Pc.freesNode]⟩
          simp only [Pc.atItem, Pc.request, if_true, Option.some.injEq, Prod.mk.injEq] at hreq
          obtain ⟨rfl, rfl⟩ := hreq
          exact hnew
      · rcases hp with rfl | rfl <;> simp [Pc.atItem, hy, Pc.request, Pc.freesNode]
    unfold State.lockTable
    dsimp only
    split_ifs with he hi ha hl
    · exact hrest _ hid
    · exact hrest _ hid
    · exact hrest _ hid
    · exact hentry _ (Or.inl rfl) (not_mem_slots h hid (by simpa using ha))
    · exact hentry _ (Or.inr rfl) (not_mem_slots h hid (by simpa using ha))
  | unlockTable t y c l =>
    simp only [step, Option.ite_none_right_eq_some, Option.some.injEq] at hst
    obtain ⟨⟨hid, -, -⟩, rfl⟩ := hst
    cases l with
    | none => exact absurd rfl (hno y c)
    | some m =>
      unfold State.unlockTable
      dsimp only
      split_ifs with hf <;> by_cases hy : y = x <;>
        simp [Action.slot, pcAt_put, Pc.atItem, hy, Pc.request, Pc.freesNode]
  | initTransLockList t =>
    simp only [step, Option.ite_none_right_eq_some, Option.some.injEq] at hst
    obtain ⟨⟨hid, -⟩, rfl⟩ := hst
    exact hrest _ hid
  | lockLight t => simp [step, show s.pc t = .idle from hidle] at hst
  | lockInternal t => simp [step, show s.pc t = .idle from hidle] at hst
  | collect t => simp [step, show s.pc t = .idle from hidle] at hst
  | collected t => simp [step, show s.pc t = .idle from hidle] at hst
  | resume t => simp [step, show s.pc t = .idle from hidle] at hst
  | waitFail t why => simp [step, show s.pc t = .idle from hidle] at hst
  | unlockLight t => simp [step, show s.pc t = .idle from hidle] at hst
  | unlockInternal t => simp [step, show s.pc t = .idle from hidle] at hst

/-- What a transaction can enter at an item where it is not busy. -/
theorem entry_at {a : Action} (h : Inv n False s) (hst : step n s a = some s')
    (he : Elsewhere s s' a.slot x) (hidle : s.pcAt x a.slot = .idle)
    (hno : ∀ x c, a ≠ .unlockTable a.slot x c none) :
    (∀ q cur, (s'.pcAt x a.slot).request = some (q, cur) →
      ∀ c ∈ cur, q.lockMode ∉ slotModes x c (s.slots a.slot))
    ∧ (s'.pcAt x a.slot).freesNode = false := by
  by_cases hpc : s.pc a.slot = .idle
  · exact entry_of_step h hst hpc hno
  · -- It is busy at another item, and stays so.
    obtain ⟨y, hy⟩ := exists_atItem hpc
    have hyx : y ≠ x := by
      intro hyx
      rw [hyx] at hy
      unfold State.pcAt at hidle
      rw [hy] at hidle
      exact hpc hidle
    have hsame : (s'.pc a.slot).atItem y = s.pc a.slot := (he.pc y hyx).trans hy
    have hself : (s'.pc a.slot).atItem y = s'.pc a.slot := by
      rcases atItem_cases y (s'.pc a.slot) with hs | hs
      · exact hs
      · rw [hs] at hsame
        exact absurd hsame.symm hpc
    have hat : s'.pcAt x a.slot = .idle := atItem_other hself hyx.symm
    rw [hat]
    exact ⟨fun _ _ hp => (by cases hp), rfl⟩

/-- **Every step keeps the slots tidy**, as long as the transaction itself does
    not release a whole node. -/
theorem tidy_step {a : Action} (h : Inv n False s) (hst : step n s a = some s')
    (ht : TidyAll s t) (hno : ∀ x c, a ≠ .unlockTable t x c none) : TidyAll s' t := by
  have hs : Stepped n False s a.slot s' := step_cases False hst (fun hf => hf.elim)
  have h' := inv_stepped h hs
  -- a step of the transaction itself
  by_cases hat : a.slot = t
  · subst hat
    cases hs with
    | on x b hb he hi hp hsl hrc =>
      intro y
      by_cases hy : y = x
      · subst hy
        have hslots : s'.slotsAt y a.slot = b.op.at (s.slotsAt y a.slot) := by
          unfold State.slotsAt
          rw [hsl]
          exact slotOp_at y (s.slots a.slot) b.op
        have hentry := entry_at h hst he
        rw [hp] at hentry
        rw [hi, hp, hslots]
        exact tidy_itemStep (h.item y) hb (ht y) (fun hid => (hentry hid hno).1)
          fun hid => (hentry hid hno).2
      · rw [he.item y hy, he.pcAt_of_ne hy, he.slotsAt_of_ne hsl hy]
        exact ht y
    | returns rc hidle he =>
      subst he
      exact ht
    | reset hidle hfree he =>
      subst he
      exact tidyAll_of_nil hidle (Function.update_self ..)
  · -- a step of another one
    obtain ⟨hpc, hslots⟩ := other_same hs (Ne.symm hat)
    intro y
    have hp : s'.pcAt y t = s.pcAt y t := by
      unfold State.pcAt
      rw [hpc]
    have hsl : s'.slotsAt y t = s.slotsAt y t := by
      unfold State.slotsAt
      rw [hslots]
    have hat' := ((h'.item y).own.tx t).pc
    rw [hp, hsl] at hat' ⊢
    exact tidy_other ((h.item y).own.tx t).pc hat' (ht y) fun hw =>
      (agree_of_not_waiting h hs (Ne.symm hat) y hw).ring

end Altibase.Sml
