/-
  Altibase.Sml.LockInv
  ────────────────────
  **THE INVARIANT OF THE LOCK MANAGER, IN EVERY REACHABLE STATE.**

  `step_cases` inverts the step function once: a step is the effect of one
  action on one item (`ItemStep`), an early return, or the reset of a slot list.
  `Inv` is the invariant of every item together with the order of every slot
  list.  `inv_reachable` holds in every run; `inv_clean` says more of the runs
  in which no wait is given up after its conversion was merged.
-/
import Altibase.Sml.Step

namespace Altibase.Sml

open Altibase.Lib

variable {n : Nat} {clean : Prop} {s s' : State} {t : TxSlot} {x : ItemId}

/-! ## §1. A step, inverted. -/

/-- The transaction that takes the step. -/
def Action.slot : Action → TxSlot
  | .lockTable t .. => t
  | .lockLight t => t
  | .lockInternal t => t
  | .collect t => t
  | .collected t => t
  | .resume t => t
  | .waitFail t _ => t
  | .unlockTable t .. => t
  | .unlockLight t => t
  | .unlockInternal t => t
  | .initTransLockList t => t

/-- The step gives a wait up whose conversion has been merged already. -/
def GivesUpMerged (s : State) : Action → Prop
  | .waitFail t _ => ∀ x q cur new, s.pc t = .waitForLock x q cur new →
      ((s.item x).nodes new).doRemove = true
  | _ => False

/-- What a step of `t` on item `x` does not touch. -/
structure Elsewhere (s s' : State) (t : TxSlot) (x : ItemId) : Prop where
  item : ∀ y, y ≠ x → s'.item y = s.item y
  others : ∀ u, u ≠ t → s'.pc u = s.pc u ∧ s'.slots u = s.slots u ∧ s'.rc u = s.rc u
  pc : ∀ y, y ≠ x → (s'.pc t).atItem y = (s.pc t).atItem y

/-- The slot list of the transaction after a step on item `x`. -/
def SlotOp.run (x : ItemId) (slots : List LockSlot) : SlotOp → List LockSlot
  | .keep => slots
  | .add c m => addLockSlot x c m slots
  | .remove c l => removeLockSlot x c l slots

/-- What an operation does to the slots of the item it is about. -/
theorem slotOp_at (x : ItemId) (slots : List LockSlot) (op : SlotOp) :
    (fun c => slotModes x c (op.run x slots)) = op.at (fun c => slotModes x c slots) := by
  cases op with
  | keep => rfl
  | add c m => exact slotModes_add x m slots
  | remove c l => exact slotModes_remove x l slots

/-- It leaves those of other items alone. -/
theorem slotOp_other {y : ItemId} (hy : y ≠ x) (slots : List LockSlot) (op : SlotOp) (c : NodeId) :
    slotModes y c (op.run x slots) = slotModes y c slots := by
  cases op with
  | keep => rfl
  | add d m => exact slotModes_add_other hy m slots c
  | remove d l => exact slotModes_remove_other hy l slots c

/-- The positions at an item. -/
def State.pcAt (s : State) (x : ItemId) (t : TxSlot) : Pc :=
  (s.pc t).atItem x

/-- The slots of a transaction on the nodes of an item. -/
def State.slotsAt (s : State) (x : ItemId) (t : TxSlot) (c : NodeId) : List LockMode :=
  slotModes x c (s.slots t)

/-- **What a step of `t` does.** -/
inductive Stepped (n : Nat) (clean : Prop) (s : State) (t : TxSlot) (s' : State) : Prop
  | on (x : ItemId) (a : After)
      (hst : ItemStep n clean x t (s.item x) (s.pcAt x) (s.slotsAt x t) a)
      (he : Elsewhere s s' t x) (hi : s'.item x = a.item) (hp : s'.pcAt x t = a.pc)
      (hs : s'.slots t = a.op.run x (s.slots t)) (hrc : s'.rc t = a.rc.getD (s.rc t))
  | returns (rc : IdeRc) (hidle : s.pc t = .idle) (he : s' = s.ret t rc)
  | reset (hidle : s.pc t = .idle)
      (hfree : ∀ l ∈ s.slots t, l.node ∉ (s.item l.item).transLockNode t)
      (he : s' = s.initTransLockList t)

/-- A position is about at most one item. -/
theorem atItem_of_ne {x y : ItemId} {p : Pc} (hp : p.atItem x = p) (hne : p ≠ .idle) (hxy : y ≠ x) :
    p.atItem y = .idle := by
  cases p <;> simp only [Pc.atItem, ite_eq_left_iff, reduceCtorEq, imp_false, not_not] at hp hne ⊢
    <;> simp [hp, Ne.symm hxy]

/-- Seen from an item, a position is itself or `idle`. -/
theorem atItem_cases (x : ItemId) (p : Pc) : p.atItem x = p ∨ p.atItem x = .idle := by
  cases p <;> simp only [Pc.atItem, or_self] <;> split <;> simp

/-- A counter about one item is idle for the others. -/
theorem atItem_other {x y : ItemId} {p : Pc} (hp : p.atItem x = p) (hxy : y ≠ x) :
    p.atItem y = .idle := by
  by_cases hne : p = .idle
  · rw [hne]
    rfl
  · exact atItem_of_ne hp hne hxy

/-- Without the node-list mutex, without it at every item. -/
theorem holdsNodeList_atItem {p : Pc} (hp : p.holdsNodeList = false) :
    (p.atItem x).holdsNodeList = false := by
  rcases atItem_cases x p with hself | hidle
  · rw [hself]
    exact hp
  · rw [hidle]
    rfl

/-- A step that writes the item, the slots and the position. -/
theorem stepped_put {a : After} (hbefore : (s.pc t).atItem x = s.pc t) (hp : a.pc.atItem x = a.pc)
    (hst : ItemStep n clean x t (s.item x) (s.pcAt x) (s.slotsAt x t) a)
    (hs' : s' = (s.put t x a.item (a.op.run x (s.slots t)) a.pc).ret t (a.rc.getD (s.rc t))) :
    Stepped n clean s t s' := by
  subst hs'
  refine .on x a hst ⟨fun y hy => ?_, fun u hu => ⟨?_, ?_, ?_⟩, fun y hy => ?_⟩ ?_ ?_ ?_ ?_
  · exact Function.update_of_ne hy _ _
  · exact Function.update_of_ne hu _ _
  · exact Function.update_of_ne hu _ _
  · exact Function.update_of_ne hu _ _
  · show (Function.update s.pc t a.pc t).atItem y = _
    rw [Function.update_self, atItem_other hp hy, atItem_other hbefore hy]
  · exact Function.update_self ..
  · show (Function.update s.pc t a.pc t).atItem x = a.pc
    rw [Function.update_self, hp]
  · exact Function.update_self ..
  · exact Function.update_self ..

/-- To return the result that is there changes nothing. -/
theorem ret_rc (s : State) (t : TxSlot) : s.ret t (s.rc t) = s := by
  unfold State.ret
  rw [Function.update_eq_self]

/-- Leaving the item mutex section of `lockTableInternal`, or being resumed. -/
theorem stepped_outcome {q : LockReq} {cur : Option NodeId} {o : LockOutcome × LockItem}
    (hbefore : (s.pc t).atItem x = s.pc t)
    (hst : ItemStep n clean x t (s.item x) (s.pcAt x) (s.slotsAt x t) (.ofOutcome x q cur o)) :
    Stepped n clean s t (s.lockOutcome t x q cur o) := by
  obtain ⟨o, it⟩ := o
  cases o with
  | granted c => exact stepped_put hbefore rfl hst rfl
  | waiting new =>
      exact stepped_put hbefore (by simp [After.ofOutcome, Pc.atItem]) hst (ret_rc _ t).symm
  | refused => exact stepped_put hbefore rfl hst rfl

/-- A step that only moves the position, or that keeps the slots. -/
theorem stepped_enter {p : Pc} (hbefore : (s.pc t).atItem x = s.pc t) (hp : p.atItem x = p)
    {it : LockItem}
    (hst : ItemStep n clean x t (s.item x) (s.pcAt x) (s.slotsAt x t) ⟨it, p, .keep, none⟩) :
    Stepped n clean s t (s.put t x it (s.slots t) p) :=
  stepped_put hbefore hp hst (ret_rc _ t).symm

/-- A release with its slot. -/
theorem stepped_unlockDone {c : NodeId} {l : Option LockMode} {it : LockItem}
    (hbefore : (s.pc t).atItem x = s.pc t)
    (hst : ItemStep n clean x t (s.item x) (s.pcAt x) (s.slotsAt x t)
      ⟨it, .idle, .remove c l, some .success⟩) :
    Stepped n clean s t (s.unlockDone t x c l it) :=
  stepped_put hbefore rfl hst rfl

/-- The start of `lockTable` is a step at its item. -/
theorem stepped_lockTable {q : LockReq} {lockEnable : Bool} (hlt : t < n) (hidle : s.pc t = .idle)
    (hq : q.lockMode ≠ .nlock) : Stepped n clean s t (s.lockTable t x q lockEnable) := by
  have hbefore : (s.pc t).atItem x = s.pc t := by
    rw [hidle]
    rfl
  have hat : s.pcAt x t = .idle := by
    unfold State.pcAt
    rw [hidle]
    rfl
  unfold State.lockTable
  dsimp only
  split_ifs with he hi ha hl
  · exact .returns _ hidle rfl
  · exact .returns _ hidle rfl
  · exact .returns _ hidle rfl
  · rw [Bool.and_eq_true, decide_eq_true_eq] at hl
    exact stepped_enter hbefore (by simp [Pc.atItem]) (.enterLight q hlt hat hl.1 hl.2)
  · exact stepped_enter hbefore (by simp [Pc.atItem]) (.enterInternal q hlt hat hq)

/-- So is the entry into `lockTableInternal`, -/
theorem stepped_lockInternal {q : LockReq} {cur : Option NodeId}
    (hpc : s.pc t = .lockInternal x q cur) (hmx : (s.item x).mutex = none) :
    Stepped n clean s t (s.lockInternal t x q cur) := by
  have hbefore : (s.pc t).atItem x = s.pc t := by simp [hpc, Pc.atItem]
  have hat : s.pcAt x t = .lockInternal x q cur := by simp [State.pcAt, hpc, Pc.atItem]
  unfold State.lockInternal
  dsimp only
  split_ifs with hf hq
  · exact stepped_outcome (o := (.granted _, _)) hbefore (.lockInternal q cur hat hmx hf hq)
  · exact stepped_enter hbefore (by simp [Pc.atItem])
      (.beginCollect q cur hat hmx hf (by simpa using hq))
  · exact stepped_outcome hbefore (.lockHeavy q cur hat hmx hf)

/-- and the start of `unlockTable`. -/
theorem stepped_unlockTable {c : NodeId} {l : Option LockMode} (hidle : s.pc t = .idle)
    (hc : c ∈ (s.item x).transLockNode t) (hl : ∀ m ∈ l, m ∈ slotModes x c (s.slots t)) :
    Stepped n clean s t (s.unlockTable t x c l) := by
  have hbefore : (s.pc t).atItem x = s.pc t := by
    rw [hidle]
    rfl
  have hat : s.pcAt x t = .idle := by
    unfold State.pcAt
    rw [hidle]
    rfl
  unfold State.unlockTable
  dsimp only
  split_ifs with hf
  · exact stepped_enter hbefore (by simp [Pc.atItem]) (.enterUnlockLight c l hat hc hl hf.2)
  · exact stepped_enter hbefore (by simp [Pc.atItem]) (.enterUnlockInternal c l hat hc hl)

/-- Waking up ends the call as a grant does. -/
theorem resume_eq (s : State) (t : TxSlot) (x : ItemId) (q : LockReq) (cur : Option NodeId)
    (new : NodeId) :
    s.resume t x q new = s.lockOutcome t x q cur
      (.granted ((((s.item x).nodes new).cvsLockNode).getD new), s.item x) := by
  unfold State.resume State.lockOutcome
  cases hcvs : ((s.item x).nodes new).cvsLockNode <;> simp only [hcvs, Option.getD]

/-- **A step of the lock manager, inverted.** -/
theorem step_cases (clean : Prop) {a : Action} (h : step n s a = some s')
    (hok : clean → ¬ GivesUpMerged s a) :
    Stepped n clean s a.slot s' := by
  cases a with
  | lockTable t x q lockEnable =>
      simp only [step, Option.ite_none_right_eq_some, Option.some.injEq] at h
      obtain ⟨⟨hlt, hidle, hq⟩, rfl⟩ := h
      exact stepped_lockTable hlt hidle hq
  | lockLight t =>
      cases hpc : s.pc t with
      | lightLock x q cur =>
          simp only [step, hpc, Option.some.injEq] at h
          subst h
          exact stepped_outcome (o := (.granted _, _)) (by simp [hpc, Action.slot, Pc.atItem])
            (.lockLight q cur (by simp [State.pcAt, hpc, Action.slot, Pc.atItem]))
      | _ => simp [step, hpc] at h
  | lockInternal t =>
      cases hpc : s.pc t with
      | lockInternal x q cur =>
          simp only [step, hpc, Option.ite_none_right_eq_some, Option.some.injEq] at h
          obtain ⟨hmx, rfl⟩ := h
          exact stepped_lockInternal hpc hmx
      | _ => simp [step, hpc] at h
  | collect t =>
      cases hpc : s.pc t with
      | collect x q cur i =>
          simp only [step, hpc, Option.ite_none_right_eq_some, Option.some.injEq] at h
          obtain ⟨⟨hi, hfree⟩, rfl⟩ := h
          exact stepped_enter (by simp [hpc, Action.slot, Pc.atItem]) (by simp [Pc.atItem])
            (.collect q cur i (by simp [State.pcAt, hpc, Action.slot, Pc.atItem]) hi
              (holdsNodeList_atItem hfree))
      | _ => simp [step, hpc] at h
  | collected t =>
      cases hpc : s.pc t with
      | collect x q cur i =>
          simp only [step, hpc, Option.ite_none_right_eq_some, Option.some.injEq] at h
          obtain ⟨rfl, rfl⟩ := h
          exact stepped_outcome (by simp [hpc, Action.slot, Pc.atItem])
            (.collected q cur (by simp [State.pcAt, hpc, Action.slot, Pc.atItem]))
      | _ => simp [step, hpc] at h
  | resume t =>
      cases hpc : s.pc t with
      | waitForLock x q cur new =>
          simp only [step, hpc, Option.ite_none_right_eq_some, Option.some.injEq] at h
          obtain ⟨⟨hmx, hb⟩, rfl⟩ := h
          rw [resume_eq s t x q cur new]
          exact stepped_outcome (by simp [hpc, Action.slot, Pc.atItem])
            (.resume q cur new (by simp [State.pcAt, hpc, Action.slot, Pc.atItem]) hb)
      | _ => simp [step, hpc] at h
  | waitFail t why =>
      cases hpc : s.pc t with
      | waitForLock x q cur new =>
          simp only [step, hpc, Option.ite_none_right_eq_some, Option.some.injEq] at h
          obtain ⟨⟨hmx, -⟩, rfl⟩ := h
          refine stepped_put (by simp [hpc, Action.slot, Pc.atItem]) rfl
            (.waitFail q cur new (by simp [State.pcAt, hpc, Action.slot, Pc.atItem]) hmx ?_) rfl
          -- a merged conversion is given up in no run that is `clean`
          intro hcl
          cases hm : ((s.item x).nodes new).doRemove with
          | false => rfl
          | true =>
              refine absurd ?_ (hok hcl)
              intro x' q' cur' new' hp
              rw [hpc] at hp
              cases hp
              exact hm
      | _ => simp [step, hpc] at h
  | unlockTable t x c l =>
      simp only [step, Option.ite_none_right_eq_some, Option.some.injEq] at h
      obtain ⟨⟨hidle, hc, hl⟩, rfl⟩ := h
      exact stepped_unlockTable hidle hc hl
  | unlockLight t =>
      cases hpc : s.pc t with
      | lightUnlock x c l =>
          simp only [step, hpc, Option.some.injEq] at h
          subst h
          exact stepped_unlockDone (by simp [hpc, Action.slot, Pc.atItem])
            (.unlockLight c l (by simp [State.pcAt, hpc, Action.slot, Pc.atItem]))
      | _ => simp [step, hpc] at h
  | unlockInternal t =>
      cases hpc : s.pc t with
      | unlockInternal x c l =>
          simp only [step, hpc, Option.ite_none_right_eq_some, Option.some.injEq] at h
          obtain ⟨hmx, rfl⟩ := h
          exact stepped_unlockDone (by simp [hpc, Action.slot, Pc.atItem])
            (.unlockInternal c l (by simp [State.pcAt, hpc, Action.slot, Pc.atItem]) hmx)
      | _ => simp [step, hpc] at h
  | initTransLockList t =>
      simp only [step, Option.ite_none_right_eq_some, Option.some.injEq] at h
      obtain ⟨⟨hidle, hfree⟩, rfl⟩ := h
      exact .reset hidle hfree rfl

/-! ## §2. The invariant of the system. -/

/-- The slot list is in the order of its sequence numbers, which are positive. -/
def SlotsOrdered (slots : List LockSlot) : Prop :=
  slots.Pairwise (fun a b => a.lockSequence < b.lockSequence) ∧ ∀ l ∈ slots, 0 < l.lockSequence

/-- **The invariant of the lock manager.** -/
structure Inv (n : Nat) (clean : Prop) (s : State) : Prop where
  item : ∀ x, ItemInv n clean (s.item x) (s.pcAt x) (s.slotsAt x)
  slots : ∀ t, SlotsOrdered (s.slots t)

/-- A new slot comes last, with the next number. -/
theorem slotsOrdered_add {slots : List LockSlot} (h : SlotsOrdered slots) (x : ItemId) (c : NodeId)
    (m : LockMode) : SlotsOrdered (addLockSlot x c m slots) := by
  obtain ⟨hp, hpos⟩ := h
  have hlast : ∀ l ∈ slots,
      l.lockSequence < (slots.getLast?.map LockSlot.lockSequence).getD 0 + 1 := by
    intro l hl
    obtain ⟨front, last, rfl⟩ := (List.eq_nil_or_concat slots).resolve_left (List.ne_nil_of_mem hl)
    simp only [List.concat_eq_append, List.getLast?_append, List.getLast?_singleton,
      Option.some_or, Option.map_some, Option.getD_some]
    rw [List.concat_eq_append, List.mem_append, List.mem_singleton] at hl
    rw [List.concat_eq_append, List.pairwise_append] at hp
    rcases hl with hl | rfl
    · exact Nat.lt_succ_of_lt (hp.2.2 l hl last (List.mem_singleton_self _))
    · exact Nat.lt_succ_self _
  unfold addLockSlot
  refine ⟨List.pairwise_append.2 ⟨hp, List.pairwise_singleton _ _, ?_⟩, ?_⟩
  · intro a ha b hb
    rw [List.mem_singleton.1 hb]
    exact hlast a ha
  · intro l hl
    rcases List.mem_append.1 hl with hl | hl
    · exact hpos l hl
    · rw [List.mem_singleton.1 hl]
      exact Nat.succ_pos _

/-- Every operation keeps the order of the slots. -/
theorem slotsOrdered_run {slots : List LockSlot} (h : SlotsOrdered slots) (x : ItemId)
    (op : SlotOp) : SlotsOrdered (op.run x slots) := by
  cases op with
  | keep => exact h
  | add c m => exact slotsOrdered_add h x c m
  | remove c l =>
      cases l with
      | none => exact h
      | some m => exact ⟨h.1.filter _, fun l hl => h.2 l (List.mem_filter.1 hl).1⟩

/-- Before the first call. -/
theorem inv_init (n : Nat) (clean : Prop) : Inv n clean State.init where
  item x := by
    have hown : Own n clean .initLockItem (State.init.pcAt x) (State.init.slotsAt x) := by
      refine ⟨fun t => .of_nil (fun hp => absurd rfl hp) rfl trivial (fun _ _ => rfl), .nil, ?_⟩
      intro r hr
      cases hr
    refine .of_quiet hown (fun t u _ => Compat.compat_bot _) (.light ?_) (fun u => ⟨rfl, ?_⟩)
    · exact ⟨rfl, rfl, rfl, rfl, rfl, rfl, rfl, rfl, fun _ => bot_le⟩
    · intro x' q cur i hp
      cases hp
  slots t := ⟨.nil, fun l hl => by cases hl⟩

/-- The positions and the slots at an item after a step of `t` there. -/
theorem Elsewhere.pcAt (he : Elsewhere s s' t x) (y : ItemId) :
    s'.pcAt y = Function.update (s.pcAt y) t (s'.pcAt y t) := by
  funext u
  by_cases hu : u = t
  · rw [hu, Function.update_self]
  · rw [Function.update_of_ne hu]
    unfold State.pcAt
    rw [(he.others u hu).1]

/-- At an item the step changes its own transaction's slots only. -/
theorem Elsewhere.slotsAt (he : Elsewhere s s' t x) (y : ItemId) :
    s'.slotsAt y = Function.update (s.slotsAt y) t (s'.slotsAt y t) := by
  funext u
  by_cases hu : u = t
  · rw [hu, Function.update_self]
  · rw [Function.update_of_ne hu]
    unfold State.slotsAt
    rw [(he.others u hu).2.1]

/-- At other items the counters stay. -/
theorem Elsewhere.pcAt_of_ne (he : Elsewhere s s' t x) {y : ItemId} (hy : y ≠ x) :
    s'.pcAt y = s.pcAt y := by
  rw [he.pcAt y]
  unfold State.pcAt
  rw [he.pc y hy]
  exact Function.update_eq_self t (s.pcAt y)

/-- At other items the slots stay. -/
theorem Elsewhere.slotsAt_of_ne (he : Elsewhere s s' t x) {op : SlotOp}
    (hs : s'.slots t = op.run x (s.slots t)) {y : ItemId} (hy : y ≠ x) :
    s'.slotsAt y = s.slotsAt y := by
  have hself : s'.slotsAt y t = s.slotsAt y t := by
    funext c
    unfold State.slotsAt
    rw [hs, slotOp_other hy]
  rw [he.slotsAt y, hself, Function.update_eq_self]

/-- A slot list that may be reset stands beside empty rings. -/
theorem Inv.ring_nil (h : Inv n clean s) (hidle : s.pc t = .idle)
    (hfree : ∀ l ∈ s.slots t, l.node ∉ (s.item l.item).transLockNode t) (x : ItemId) :
    (s.item x).transLockNode t = [] := by
  have ht := (h.item x).own.tx t
  obtain ⟨o, ho⟩ := ht.ring
  cases o with
  | none => exact ho
  | some c =>
      have hc : c ∈ (s.item x).transLockNode t := by rw [ho]; exact List.mem_singleton_self c
      have hflag : ((s.item x).nodes c).flag = maskOf (s.slotsAt x t c) := by
        rcases ht.slotFlag c hc with hf | ⟨_, y, q, hp⟩
        · exact hf
        · unfold State.pcAt at hp
          rw [hidle] at hp
          cases hp
      have hne : s.slotsAt x t c ≠ [] := by
        intro hnil
        refine (ht.node c hc).decision_ne ?_
        rw [hflag, hnil]
        rfl
      obtain ⟨m, hm⟩ := List.exists_mem_of_ne_nil _ hne
      obtain ⟨l, hl, hlm⟩ := List.mem_filterMap.1 hm
      unfold LockSlot.modeAt at hlm
      split at hlm
      next hat =>
        refine absurd ?_ (hfree l hl)
        rw [hat.1, hat.2]
        exact hc
      next => cases hlm

/-- The reset of a slot list leaves the items as they are. -/
theorem item_reset (h : Inv n clean s) (hidle : s.pc t = .idle)
    (hfree : ∀ l ∈ s.slots t, l.node ∉ (s.item l.item).transLockNode t) (y : ItemId) :
    (s.initTransLockList t).item y = s.item y := by
  show { s.item y with transLockNode := Function.update (s.item y).transLockNode t [] } = _
  rw [← h.ring_nil hidle hfree y, Function.update_eq_self]

/-- **The slot list of a slot whose locks are all freed is reset.** -/
theorem inv_reset (h : Inv n clean s) (hidle : s.pc t = .idle)
    (hfree : ∀ l ∈ s.slots t, l.node ∉ (s.item l.item).transLockNode t) :
    Inv n clean (s.initTransLockList t) where
  item y := by
    have hnil := h.ring_nil hidle hfree y
    -- the slots of the transaction are gone, at every item
    have hslots : (s.initTransLockList t).slotsAt y
        = Function.update (s.slotsAt y) t (fun _ => []) := by
      funext u
      unfold State.slotsAt
      by_cases hu : u = t
      · rw [hu, Function.update_self]
        show (fun c => slotModes y c (Function.update s.slots t [] t)) = _
        rw [Function.update_self]
        rfl
      · rw [Function.update_of_ne hu]
        show (fun c => slotModes y c (Function.update s.slots t [] u)) = _
        rw [Function.update_of_ne hu]
    have hy := h.item y
    -- it has no node there, so nothing is about them
    have hown : Own n clean (s.item y) (s.pcAt y) (Function.update (s.slotsAt y) t fun _ => []) := by
      rw [← Function.update_eq_self t (s.pcAt y)]
      refine hy.own.step t (fun u _ => .refl _ u) ?_ hy.own.reqNodup (fun r hr => Or.inl ⟨hr, ?_⟩)
      · refine .of_nil (fun hp => (hy.own.tx t).lt (Or.inl hp)) hnil ?_ (fun _ _ => rfl)
        unfold State.pcAt
        rw [hidle]
        trivial
      · refine hy.own.not_owner ?_ hr
        intro x' q cur new hp
        unfold State.pcAt at hp
        rw [hidle] at hp
        cases hp
    rw [item_reset h hidle hfree y, hslots]
    exact ⟨hown, hy.safe, hy.phase, hy.collector, hy.lightSeen⟩
  slots u := by
    show SlotsOrdered (Function.update s.slots t [] u)
    by_cases hu : u = t
    · rw [hu, Function.update_self]
      exact ⟨.nil, fun l hl => by cases hl⟩
    · rw [Function.update_of_ne hu]
      exact h.slots u

/-- **Every step keeps the invariant.** -/
theorem inv_stepped (h : Inv n clean s) (hst : Stepped n clean s t s') : Inv n clean s' := by
  cases hst with
  | on x a hst he hi hp hs hrc =>
      have hsl : s'.slotsAt x t = a.op.at (s.slotsAt x t) := by
        unfold State.slotsAt
        rw [hs]
        exact slotOp_at x (s.slots t) a.op
      refine ⟨fun y => ?_, fun u => ?_⟩
      · by_cases hy : y = x
        · subst hy
          rw [he.pcAt y, he.slotsAt y, hi, hp, hsl]
          exact inv_itemStep (h.item y) hst
        · rw [he.item y hy, he.pcAt_of_ne hy, he.slotsAt_of_ne hs hy]
          exact h.item y
      · by_cases hu : u = t
        · rw [hu, hs]
          exact slotsOrdered_run (h.slots t) x a.op
        · rw [(he.others u hu).2.1]
          exact h.slots u
  | returns rc hidle he =>
      subst he
      exact ⟨h.item, h.slots⟩
  | reset hidle hfree he =>
      subst he
      exact inv_reset h hidle hfree

/-- **The invariant holds in every reachable state.** -/
theorem inv_reachable (h : (lockMgr n).Reachable s) : Inv n False s :=
  h.invariant (fun _ _ _ hi _ hst => inv_stepped hi (step_cases _ hst (fun hf => hf.elim)))
    (inv_init n False)

/-- In a run without a merged conversion given up, node modes are exact as well. -/
theorem inv_clean (h : (lockMgr n).ReachableBy (fun u a => ¬ GivesUpMerged u a) s) :
    Inv n True s :=
  h.invariant (fun _ _ _ hi hok hst => inv_stepped hi (step_cases _ hst (fun _ => hok)))
    (inv_init n True)

end Altibase.Sml
