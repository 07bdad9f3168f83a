/-
  Altibase.Sml.PartialUnlock
  ──────────────────────────
  **ROLLING BACK TO A SAVEPOINT RELEASES THE LOCKS TAKEN SINCE.**

  `partialItemUnlock` walks the slot list of a transaction from its end and
  releases every slot whose sequence number is above that of the savepoint.
  Other transactions run between any two of its steps.

    * `partialItemUnlock` — the loop, as a transition system over the lock
      manager;
    * `Progress`, `PartialAt` — what holds between two releases, and wherever
      the loop is;
    * `partialItemUnlock_releases` — what is left when it returns, in every run;
    * `partialAt_returns` — it does return.
-/
import Altibase.Sml.Slots
import Altibase.Sml.Counters

namespace Altibase.Sml

open Altibase.Lib

/-! ## §1. The loop. -/

/-- Where `partialItemUnlock` is: at the test of its loop with `sCurLockSlot`,
    inside `unlockTable` with `sPrvLockNode`, or back.  The header of the slot
    list is `none`. -/
inductive PartialPc
  | loop (sCurLockSlot : Option LockSlot)
  | unlocking (sPrvLockNode : Option LockSlot)
  | done
  deriving Repr, DecidableEq

/-- `mPrvLockSlot`. -/
def prvLockSlot (l : LockSlot) (slots : List LockSlot) : Option LockSlot :=
  (slots.takeWhile fun k => k ≠ l).getLast?

/-- Whether the loop releases a slot above the sequence number: all of them on
    a rollback; at the end of a statement implicit IS locks, and IX locks of
    temporary tablespaces. -/
def releasesSlot (isTempTableSpace : ItemId → Bool) (aIsSeveralLock : Bool) (s : State)
    (l : LockSlot) : Bool :=
  if aIsSeveralLock = false then true
  else if l.lockMode = .islock then ! ((s.item l.item).nodes l.node).isExplicitLock
  else if l.lockMode = .ixlock then isTempTableSpace l.item
  else false

/-- A step of the loop itself.  The header has the sequence number 0. -/
def partialLoop (isTempTableSpace : ItemId → Bool) (n : Nat) (t : TxSlot) (aLockSequence : Nat)
    (aIsSeveralLock : Bool) (s : State) : PartialPc → Option (State × PartialPc)
  | .loop none => some (s, .done)
  | .loop (some l) =>
      if l.lockSequence > aLockSequence then
        if releasesSlot isTempTableSpace aIsSeveralLock s l then
          (step n s (.unlockTable t l.item l.node (some l.lockMode))).map
            fun s' => (s', .unlocking (prvLockSlot l (s.slots t)))
        else some (s, .loop (prvLockSlot l (s.slots t)))
      else some (s, .done)
  | .unlocking prv => if s.pc t = .idle then some (s, .loop prv) else none
  | .done => none

/-- The transaction is inside `unlockTable`. -/
def PartialPc.inUnlock : PartialPc → Bool
  | .unlocking _ => true
  | _ => false

/-- **`partialItemUnlock`**, called by `t` in state `s₀`.  A step is one of the
    loop, one of `unlockTable` below it, or one of another transaction. -/
def partialItemUnlock (isTempTableSpace : ItemId → Bool) (n : Nat) (t : TxSlot)
    (aLockSequence : Nat) (aIsSeveralLock : Bool) (s₀ : State) :
    System (State × PartialPc) (Option Action) where
  init := (s₀, .loop (s₀.slots t).getLast?)
  step
    | (s, p), none => partialLoop isTempTableSpace n t aLockSequence aIsSeveralLock s p
    | (s, p), some a =>
        if a.slot ≠ t ∨ (p.inUnlock = true ∧ s.pc t ≠ .idle) then
          (step n s a).map fun s' => (s', p)
        else none

theorem step_loop (isTempTableSpace : ItemId → Bool) (n : Nat) (t : TxSlot) (q : Nat)
    (several : Bool) (s₀ s : State) (p : PartialPc) :
    (partialItemUnlock isTempTableSpace n t q several s₀).step (s, p) none
      = partialLoop isTempTableSpace n t q several s p := rfl

theorem step_call (isTempTableSpace : ItemId → Bool) (n : Nat) (t : TxSlot) (q : Nat)
    (several : Bool) (s₀ s : State) (p : PartialPc) (a : Action) :
    (partialItemUnlock isTempTableSpace n t q several s₀).step (s, p) (some a)
      = if a.slot ≠ t ∨ (p.inUnlock = true ∧ s.pc t ≠ .idle) then
          (step n s a).map fun s' => (s', p)
        else none := rfl

/-! ## §2. One release. -/

variable {n : Nat} {t : TxSlot} {x : ItemId} {c : NodeId} {q : Nat} {s₀ s s' : State}

section Item

variable {i i' : LockItem} {pc : TxSlot → Pc} {sl : TxSlot → NodeId → List LockMode}

/-- A node that survives the release of a slot has the decision of its flag. -/
theorem exact_unlockLight (h : Own n False i pc sl) (hc : c ∈ i.transLockNode t) (m : LockMode)
    {d : NodeId} (hd : d ∈ (i.unlockLight t c (some m)).transLockNode t) :
    ((i.unlockLight t c (some m)).nodes d).lockMode
      = getDecision ((i.unlockLight t c (some m)).nodes d).flag := by
  have hgc := (h.tx t).node c hc
  have hring := h.ring_of_mem hc
  rcases unlockLight_cases i t c (some m) hgc.flag_light with ⟨N, e, -, -⟩ | ⟨m', hm, -, e⟩
  · rw [e] at hd
    have hnil := removeLockNode_ring { i with nodes := Function.update i.nodes c N } hring
    rw [hnil] at hd
    cases hd
  · cases hm
    rw [e] at hd ⊢
    have hdc : d = c := by
      have hd' : d ∈ i.transLockNode t := hd
      rw [hring] at hd'
      exact List.mem_singleton.mp hd'
    subst hdc
    simp only [Function.update_self]
    rfl

end Item

/-- The last slot is the only one of its mode on its node. -/
theorem removeLockSlot_last {kept : List LockSlot} {l : LockSlot}
    (hnodup : (slotModes l.item l.node (kept ++ [l])).Nodup) :
    removeLockSlot l.item l.node (some l.lockMode) (kept ++ [l]) = kept := by
  have hself : l.modeAt l.item l.node = some l.lockMode := by simp [LockSlot.modeAt]
  have hkept : ∀ k ∈ kept, k.modeAt l.item l.node ≠ some l.lockMode := by
    intro k hk hmode
    unfold slotModes at hnodup
    rw [List.filterMap_append, List.filterMap_cons_some hself] at hnodup
    have hdis := (List.nodup_append.mp hnodup).2.2
    exact hdis l.lockMode (List.mem_filterMap.mpr ⟨k, hk, hmode⟩) l.lockMode List.mem_cons_self rfl
  unfold removeLockSlot
  show List.filter _ (kept ++ [l]) = kept
  rw [List.filter_append, List.filter_eq_self.mpr fun k hk => decide_eq_true (hkept k hk),
    List.filter_cons_of_neg (by simpa using hself), List.filter_nil, List.append_nil]

/-- The slot before the last one. -/
theorem prvLockSlot_last {kept : List LockSlot} {l : LockSlot} (h : SlotsOrdered (kept ++ [l])) :
    prvLockSlot l (kept ++ [l]) = kept.getLast? := by
  have hne : ∀ k ∈ kept, decide (k ≠ l) = true := by
    intro k hk
    have hlt := (List.pairwise_append.mp h.1).2.2 k hk l (List.mem_singleton_self l)
    exact decide_eq_true fun e => absurd (e ▸ hlt) (Nat.lt_irrefl _)
  unfold prvLockSlot
  rw [List.takeWhile_append_of_pos hne, List.takeWhile_cons_of_neg (by simp), List.append_nil]

/-! ## §3. What holds while the loop runs. -/

/-- **Between two releases**: the slots `kept` are still linked, the slots
    `released` are not. -/
structure Progress (n : Nat) (t : TxSlot) (q : Nat) (s₀ s : State)
    (kept released : List LockSlot) : Prop where
  inv : Inv n False s
  tidy : TidyAll s t
  slots : s.slots t = kept
  split : s₀.slots t = kept ++ released
  above : ∀ l ∈ released, q < l.lockSequence
  exact : ∀ l ∈ released, l.node ∈ (s.item l.item).transLockNode t →
    ModeIsDecision s l.item l.node
  untouched : ∀ x, (∀ l ∈ released, l.item ≠ x) → Kept (s₀.item x) (s.item x) t

/-- The position of a transaction that releases slot `l`. -/
def ReleasesAt (p : Pc) (l : LockSlot) : Prop :=
  p = .lightUnlock l.item l.node (some l.lockMode)
    ∨ p = .unlockInternal l.item l.node (some l.lockMode)

/-- **Wherever the loop is.** -/
inductive PartialAt (n : Nat) (t : TxSlot) (q : Nat) (s₀ s : State) : PartialPc → Prop
  | loop (kept released : List LockSlot) (hp : Progress n t q s₀ s kept released)
      (hidle : s.pc t = .idle) : PartialAt n t q s₀ s (.loop kept.getLast?)
  | unlocking (kept released : List LockSlot) (l : LockSlot)
      (hp : Progress n t q s₀ s (kept ++ [l]) released) (hpc : ReleasesAt (s.pc t) l)
      (habove : q < l.lockSequence) : PartialAt n t q s₀ s (.unlocking kept.getLast?)
  | unlocked (kept released : List LockSlot) (hp : Progress n t q s₀ s kept released)
      (hidle : s.pc t = .idle) : PartialAt n t q s₀ s (.unlocking kept.getLast?)
  | done (kept released : List LockSlot) (hp : Progress n t q s₀ s kept released)
      (hidle : s.pc t = .idle) (hle : ∀ l ∈ kept, l.lockSequence ≤ q) :
      PartialAt n t q s₀ s .done

theorem ReleasesAt.not_waiting {p : Pc} {l : LockSlot} (h : ReleasesAt p l) (x : ItemId) :
    ∀ z q' cur new, p.atItem x ≠ .waitForLock z q' cur new := by
  intro z q' cur new
  rcases atItem_cases x p with hself | hidle
  · rw [hself]
    rcases h with rfl | rfl <;> simp
  · rw [hidle]
    simp

/-- Another transaction's step, while the transaction does not wait. -/
theorem Progress.other {kept released : List LockSlot} (h : Progress n t q s₀ s kept released)
    {a : Action} (hst : step n s a = some s') (hat : a.slot ≠ t)
    (hnw : ∀ x z q' cur new, s.pcAt x t ≠ .waitForLock z q' cur new) :
    Progress n t q s₀ s' kept released ∧ s'.pc t = s.pc t := by
  have hs : Stepped n False s a.slot s' := step_cases False hst (fun hf => hf.elim)
  obtain ⟨hpc, hslots⟩ := other_same hs (Ne.symm hat)
  have hagree : ∀ x, AgreeOn (s.item x) (s'.item x) t := fun x =>
    agree_of_not_waiting h.inv hs (Ne.symm hat) x (hnw x)
  refine ⟨⟨inv_stepped h.inv hs, ?_, hslots.trans h.slots, h.split, h.above, ?_, ?_⟩, hpc⟩
  · exact tidy_step h.inv hst h.tidy fun x c e => hat (by rw [e]; rfl)
  · intro l hl hmem
    rw [(hagree l.item).ring] at hmem
    have hg := ((h.inv.item l.item).own.tx t).node l.node hmem
    unfold ModeIsDecision
    rw [(hagree l.item).nodes l.node hg.lt hg.slotID]
    exact h.exact l hl hmem
  · intro x hx
    exact (h.untouched x hx).agree (h.inv.item x).own (hagree x)

/-- `unlockTable` is entered; no item changes. -/
theorem Progress.enter {kept released : List LockSlot} {l : LockSlot}
    (h : Progress n t q s₀ s (kept ++ [l]) released)
    (hst : step n s (.unlockTable t l.item l.node (some l.lockMode)) = some s') :
    Progress n t q s₀ s' (kept ++ [l]) released ∧ ReleasesAt (s'.pc t) l := by
  have hs : Stepped n False s t s' := step_cases False hst (fun hf => hf.elim)
  have htidy := tidy_step h.inv hst h.tidy fun x c e => by cases e
  have hdef : s' = s.unlockTable t l.item l.node (some l.lockMode) := by
    simp only [step, Option.ite_none_right_eq_some, Option.some.injEq] at hst
    exact hst.2.symm
  have hput : ∃ p, ReleasesAt p l ∧ s' = s.put t l.item (s.item l.item) (s.slots t) p := by
    rw [hdef]
    unfold State.unlockTable
    dsimp only
    split_ifs with hf
    · exact ⟨_, Or.inl rfl, rfl⟩
    · exact ⟨_, Or.inr rfl, rfl⟩
  obtain ⟨p, hp, rfl⟩ := hput
  have hitem : (s.put t l.item (s.item l.item) (s.slots t) p).item = s.item :=
    Function.update_eq_self ..
  refine ⟨⟨inv_stepped h.inv hs, htidy, ?_, h.split, h.above, ?_, ?_⟩, ?_⟩
  · show Function.update s.slots t (s.slots t) t = _
    rw [Function.update_self]
    exact h.slots
  · intro k hk hmem
    unfold ModeIsDecision
    rw [hitem] at hmem ⊢
    exact h.exact k hk hmem
  · intro x hx
    rw [hitem]
    exact h.untouched x hx
  · show ReleasesAt (Function.update s.pc t p t) l
    rw [Function.update_self]
    exact hp

/-- The step that ends a release, and what it leaves of the transaction's data
    on the item. -/
theorem release_step (h : Inv n False s) {l : LockSlot} (hpc : ReleasesAt (s.pc t) l) {a : Action}
    (hat : a.slot = t) (hst : step n s a = some s') :
    (∀ x c, a ≠ .unlockTable t x c none) ∧
    ∃ it, s' = s.unlockDone t l.item l.node (some l.lockMode) it ∧
      AgreeOn ((s.item l.item).unlockLight t l.node (some l.lockMode)) it t ∧
      Own n False ((s.item l.item).unlockLight t l.node (some l.lockMode))
        (Function.update (s.pcAt l.item) t .idle)
        (Function.update (s.slotsAt l.item) t
          (slRemove (s.slotsAt l.item t) l.node (some l.lockMode))) ∧
      l.node ∈ (s.item l.item).transLockNode t := by
  have hx := h.item l.item
  have hself : s.pcAt l.item t = s.pc t := by
    unfold State.pcAt
    rcases hpc with hp | hp <;> rw [hp] <;> simp [Pc.atItem]
  have hmem : l.node ∈ (s.item l.item).transLockNode t := by
    have hat' := (hx.own.tx t).pc
    rw [hself] at hat'
    rcases hpc with hp | hp <;> rw [hp] at hat' <;> exact hat'.1
  have hrel := hx.own.releasable hmem (fun z q' cur new => hpc.not_waiting l.item z q' cur new)
    (some l.lockMode)
  have hown := own_unlockLight hx.own hrel
  subst hat
  rcases hpc with hp | hp
  · obtain ⟨u, rfl⟩ : ∃ u, a = .unlockLight u := by
      cases a <;> first | exact ⟨_, rfl⟩ | (simp only [Action.slot] at hp; simp [step, hp] at hst)
    simp only [step, show s.pc u = _ from hp, Option.some.injEq] at hst
    exact ⟨fun _ _ e => (by cases e), _, hst.symm, .refl _ _, hown, hmem⟩
  · obtain ⟨u, rfl⟩ : ∃ u, a = .unlockInternal u := by
      cases a <;> first | exact ⟨_, rfl⟩ | (simp only [Action.slot] at hp; simp [step, hp] at hst)
    simp only [step, show s.pc u = _ from hp, Option.ite_none_right_eq_some,
      Option.some.injEq] at hst
    exact ⟨fun _ _ e => (by cases e), _, hst.2.symm, agreeOn_unlock_self hx hst.1 hrel, hown, hmem⟩

/-- **One slot is released.** -/
theorem Progress.release {kept released : List LockSlot} {l : LockSlot}
    (h : Progress n t q s₀ s (kept ++ [l]) released) (hpc : ReleasesAt (s.pc t) l)
    (habove : q < l.lockSequence) {a : Action} (hat : a.slot = t)
    (hst : step n s a = some s') :
    Progress n t q s₀ s' kept (l :: released) ∧ s'.pc t = .idle := by
  have hs : Stepped n False s a.slot s' := step_cases False hst (fun hf => hf.elim)
  obtain ⟨hno, it, hdef, hagree, hown, hmem⟩ := release_step h.inv hpc hat hst
  have htidy := tidy_step h.inv hst h.tidy hno
  have hinv := inv_stepped h.inv hs
  subst hdef
  have hhere : (s.unlockDone t l.item l.node (some l.lockMode) it).item l.item = it :=
    Function.update_self ..
  have helse : ∀ y, y ≠ l.item →
      (s.unlockDone t l.item l.node (some l.lockMode) it).item y = s.item y := fun y hy =>
    Function.update_of_ne hy _ _
  refine ⟨⟨hinv, htidy, ?_, ?_, ?_, ?_, ?_⟩, Function.update_self ..⟩
  · show Function.update s.slots t _ t = kept
    have hnodup := (h.tidy l.item).distinct l.node
    unfold State.slotsAt at hnodup
    rw [h.slots] at hnodup
    rw [Function.update_self, h.slots]
    exact removeLockSlot_last hnodup
  · rw [h.split, List.append_assoc, List.singleton_append]
  · intro k hk
    rcases List.mem_cons.mp hk with rfl | hmem'
    · exact habove
    · exact h.above k hmem'
  · intro k hk hring
    by_cases hx : k.item = l.item
    · -- On the item of the release there is at most this one node.
      unfold ModeIsDecision
      rw [hx, hhere] at hring ⊢
      rw [hagree.ring] at hring
      have hg := (hown.tx t).node k.node hring
      rw [hagree.nodes k.node hg.lt hg.slotID]
      exact exact_unlockLight (h.inv.item l.item).own hmem l.lockMode hring
    · have hk' : k ∈ released := by
        rcases List.mem_cons.mp hk with rfl | hmem'
        · exact absurd rfl hx
        · exact hmem'
      unfold ModeIsDecision
      rw [helse k.item hx] at hring ⊢
      exact h.exact k hk' hring
  · intro x hx
    rw [helse x fun e => hx l List.mem_cons_self e.symm]
    exact h.untouched x fun k hk => hx k (List.mem_cons_of_mem l hk)

/-! ## §4. The loop keeps it. -/

section Loop

variable {isTempTableSpace : ItemId → Bool} {p p' : PartialPc}

/-- **A step of the loop, of `unlockTable` below it or of another transaction.** -/
theorem partialAt_step {a : Option Action} (h : PartialAt n t q s₀ s p)
    (hst : (partialItemUnlock isTempTableSpace n t q false s₀).step (s, p) a = some (s', p')) :
    PartialAt n t q s₀ s' p' := by
  cases a with
  | none =>
    have hloop := hst
    rw [step_loop] at hloop
    cases h with
    | loop kept released hp hidle =>
      rcases List.eq_nil_or_concat kept with rfl | ⟨front, l, rfl⟩
      · simp only [List.getLast?_nil, partialLoop, Option.some.injEq, Prod.mk.injEq] at hloop
        obtain ⟨rfl, rfl⟩ := hloop
        exact .done [] released hp hidle (fun _ hl => by cases hl)
      · rw [List.concat_eq_append] at hp hloop
        have hord : SlotsOrdered (front ++ [l]) := hp.slots ▸ hp.inv.slots t
        rw [List.getLast?_append, List.getLast?_singleton, Option.some_or] at hloop
        simp only [partialLoop, releasesSlot, if_true] at hloop
        split_ifs at hloop with habove
        · -- The slot is released.
          obtain ⟨s'', hunlock, heq⟩ := Option.map_eq_some_iff.mp hloop
          obtain ⟨rfl, rfl⟩ := Prod.mk.inj heq
          obtain ⟨hp', hpc⟩ := hp.enter hunlock
          rw [hp.slots, prvLockSlot_last hord]
          exact .unlocking front released l hp' hpc habove
        · obtain ⟨rfl, rfl⟩ := Prod.mk.inj (Option.some.inj hloop)
          refine .done _ released hp hidle fun k hk => ?_
          -- Sequence numbers grow along the list.
          rcases List.mem_append.mp hk with hfront | hlast
          · have hlt := (List.pairwise_append.mp hord.1).2.2 k hfront l (List.mem_singleton_self l)
            omega
          · rw [List.mem_singleton.mp hlast]
            omega
    | unlocking kept released l hp hpc habove =>
      simp only [partialLoop] at hloop
      rw [if_neg (by rcases hpc with hpc | hpc <;> rw [hpc] <;> simp)] at hloop
      cases hloop
    | unlocked kept released hp hidle =>
      simp only [partialLoop] at hloop
      rw [if_pos hidle] at hloop
      obtain ⟨rfl, rfl⟩ := Prod.mk.inj (Option.some.inj hloop)
      exact .loop kept released hp hidle
    | done kept released hp hidle hle => cases hloop
  | some a =>
    have hact := hst
    rw [step_call, Option.ite_none_right_eq_some] at hact
    obtain ⟨hwho, hmap⟩ := hact
    obtain ⟨s'', hstep, heq⟩ := Option.map_eq_some_iff.mp hmap
    obtain ⟨rfl, rfl⟩ := Prod.mk.inj heq
    by_cases hat : a.slot = t
    · -- It is the release itself.
      have hwho' := hwho.resolve_left (fun hne => hne hat)
      cases h with
      | loop kept released hp hidle => exact absurd hwho'.1 (by simp [PartialPc.inUnlock])
      | unlocking kept released l hp hpc habove =>
        obtain ⟨hp', hidle⟩ := hp.release hpc habove hat hstep
        exact .unlocked kept (l :: released) hp' hidle
      | unlocked kept released hp hidle => exact absurd hidle hwho'.2
      | done kept released hp hidle hle => exact absurd hwho'.1 (by simp [PartialPc.inUnlock])
    · have hidleNot : s.pc t = .idle →
          ∀ x z q' cur new, s.pcAt x t ≠ .waitForLock z q' cur new := by
        intro hidle x z q' cur new
        unfold State.pcAt
        rw [hidle]
        simp [Pc.atItem]
      cases h with
      | loop kept released hp hidle =>
        obtain ⟨hp', hpc⟩ := hp.other hstep hat (hidleNot hidle)
        exact .loop kept released hp' (hpc.trans hidle)
      | unlocking kept released l hp hpc habove =>
        obtain ⟨hp', hpc'⟩ := hp.other hstep hat fun x => hpc.not_waiting x
        exact .unlocking kept released l hp' (hpc'.symm ▸ hpc) habove
      | unlocked kept released hp hidle =>
        obtain ⟨hp', hpc⟩ := hp.other hstep hat (hidleNot hidle)
        exact .unlocked kept released hp' (hpc.trans hidle)
      | done kept released hp hidle hle =>
        obtain ⟨hp', hpc⟩ := hp.other hstep hat (hidleNot hidle)
        exact .done kept released hp' (hpc.trans hidle) hle

end Loop

/-! ## §5. When it returns. -/

/-- **A node follows the slots that are left of it**: it is gone with the last
    one, and otherwise has their masks and the decision of these. -/
structure NodeSettled (s : State) (t : TxSlot) (x : ItemId) (c : NodeId) : Prop where
  held : c ∈ (s.item x).transLockNode t ↔ slotModes x c (s.slots t) ≠ []
  flag : c ∈ (s.item x).transLockNode t → FlagIsSlots s x t c
  mode : c ∈ (s.item x).transLockNode t → ModeIsDecision s x c

/-- **The counters, the flag and the mode of an item are those of its grants.**
    In light mode they are cleared and every grant is for IS or IX; otherwise
    they summarise the grant list, which has every granted node unless some
    transaction is rebuilding it. -/
inductive GrantsSummarised (i : LockItem) : Prop
  | light (hl : Light i)
  | heavy (hf : i.flag ≠ flagLightMode) (hc : Counted i)
      (hall : i.mutex = none → ∀ c, c ∈ i.grant ↔ ∃ u, c ∈ i.transLockNode u)

theorem grantsSummarised {pc : TxSlot → Pc} {sl : TxSlot → NodeId → List LockMode} {i : LockItem}
    (h : ItemInv n False i pc sl) : GrantsSummarised i := by
  cases h.phase with
  | light hl => exact .light hl
  | collect _ _ _ _ _ hmx _ hgroup _ hreq hcnt =>
    refine .heavy hgroup.flag_ne_light (hgroup.counted ?_) fun hfree => ?_
    · rw [hcnt, hreq]
      rfl
    · rw [hmx] at hfree
      cases hfree
  | heavy hv => exact .heavy hv.group.flag_ne_light (hv.group.counted hv.reqCnt) fun _ => hv.mem

/-- The slots of a node, as a list of slots. -/
theorem slotModes_ne_nil {slots : List LockSlot} {l : LockSlot} (hl : l ∈ slots) :
    slotModes l.item l.node slots ≠ [] := by
  refine List.ne_nil_of_mem (a := l.lockMode) (List.mem_filterMap.mpr ⟨l, hl, ?_⟩)
  simp [LockSlot.modeAt]

/-- What holds when the loop is over. -/
theorem Progress.settled {kept released : List LockSlot} (h : Progress n t q s₀ s kept released)
    (hidle : s.pc t = .idle) {l : LockSlot} (hl : l ∈ released) :
    NodeSettled s t l.item l.node := by
  have ht := (h.inv.item l.item).own.tx t
  have hflag : l.node ∈ (s.item l.item).transLockNode t → FlagIsSlots s l.item t l.node := by
    intro hmem
    rcases ht.slotFlag l.node hmem with hf | ⟨-, y, q', hp⟩
    · exact hf
    · unfold State.pcAt at hp
      rw [hidle] at hp
      cases hp
  refine ⟨⟨fun hmem hnil => ?_, (h.tidy l.item).linked l.node⟩, hflag, h.exact l hl⟩
  have hf := hflag hmem
  unfold FlagIsSlots at hf
  rw [hnil] at hf
  refine (ht.node l.node hmem).decision_ne ?_
  rw [hf]
  rfl

section Result

variable {isTempTableSpace : ItemId → Bool}

/-- The loop is where it should be, in every run of it. -/
theorem partialAt_reachable (h : Inv n False s₀) (ht : TidyAll s₀ t) (hidle : s₀.pc t = .idle)
    {p : PartialPc}
    (hrun : (partialItemUnlock isTempTableSpace n t q false s₀).Reachable (s, p)) :
    PartialAt n t q s₀ s p := by
  have hinv : ∀ u : State × PartialPc,
      (partialItemUnlock isTempTableSpace n t q false s₀).Reachable u →
        PartialAt n t q s₀ u.1 u.2 := by
    intro u hu
    refine hu.invariant (I := fun u => PartialAt n t q s₀ u.1 u.2) ?_ ?_
    · intro u a u' hI _ hst
      exact partialAt_step hI hst
    · refine .loop (s₀.slots t) [] ⟨h, ht, rfl, (List.append_nil _).symm, ?_, ?_, ?_⟩ hidle
      · intro l hl
        cases hl
      · intro l hl
        cases hl
      · intro x _
        exact .refl _ t
  exact hinv (s, p) hrun

/-- A transaction that has only ever released slots, since it had none. -/
theorem tidyAll_of_path {s₁ : State} (h₁ : (lockMgr n).Reachable s₁) (hidle : s₁.pc t = .idle)
    (hnil : s₁.slots t = [])
    (hpath : (lockMgr n).Path (fun _ a => ∀ x c, a ≠ .unlockTable t x c none) s₁ s₀) :
    Inv n False s₀ ∧ TidyAll s₀ t :=
  hpath.invariant (I := fun u => Inv n False u ∧ TidyAll u t)
    (fun _ _ _ hI hok hst => ⟨inv_stepped hI.1 (step_cases False hst fun hf => hf.elim),
      tidy_step hI.1 hst hI.2 hok⟩)
    ⟨inv_reachable h₁, tidyAll_of_nil hidle hnil⟩

/-- **What a rollback to a savepoint leaves.** -/
structure RolledBack (s₀ s : State) (t : TxSlot) (q : Nat) : Prop where
  /-- The slots up to the savepoint are linked, in the same order. -/
  slots : s.slots t = (s₀.slots t).filter (fun l => l.lockSequence ≤ q)
  /-- Their nodes are held. -/
  held : ∀ l ∈ s.slots t, l.node ∈ (s.item l.item).transLockNode t
  /-- The node of a released slot follows the slots that are left of it. -/
  settled : ∀ l ∈ s₀.slots t, q < l.lockSequence → NodeSettled s t l.item l.node
  /-- On other items the transaction's node is as it was. -/
  untouched : ∀ x, (∀ l ∈ s₀.slots t, q < l.lockSequence → l.item ≠ x) →
    Kept (s₀.item x) (s.item x) t
  /-- Every item counts its grants. -/
  counted : ∀ x, GrantsSummarised (s.item x)

theorem PartialAt.rolledBack (h : PartialAt n t q s₀ s .done) : RolledBack s₀ s t q := by
  cases h with
  | done kept released hp hidle hle =>
    have hreleased : ∀ l ∈ s₀.slots t, q < l.lockSequence → l ∈ released := by
      intro l hl hlt
      rw [hp.split] at hl
      rcases List.mem_append.mp hl with hk | hr
      · exact absurd (hle l hk) (Nat.not_le.mpr hlt)
      · exact hr
    refine ⟨?_, fun l hl => ?_, fun l hl hlt => hp.settled hidle (hreleased l hl hlt), ?_, ?_⟩
    · rw [hp.split, List.filter_append, List.filter_eq_self.mpr fun l hl => by simpa using hle l hl,
        List.filter_eq_nil_iff.mpr fun l hl => by simpa using hp.above l hl, List.append_nil]
      exact hp.slots
    · exact (hp.tidy l.item).linked l.node (slotModes_ne_nil hl)
    · intro x hx
      refine hp.untouched x fun l hl => hx l ?_ (hp.above l hl)
      rw [hp.split]
      exact List.mem_append_right kept hl
    · intro x
      exact grantsSummarised (hp.inv.item x)

/-! ## §6. It returns. -/

/-- A release leaves every item mutex free. -/
theorem mutex_release (h : Inv n False s) (h' : Inv n False s')
    (hothers : ∀ u, u ≠ t → s'.pc u = s.pc u) (hidle : s'.pc t = .idle)
    (hmx : (s.item x).mutex = none) : (s'.item x).mutex = none := by
  cases (h'.item x).phase with
  | light hl => exact hl.mutex
  | heavy hv => exact hv.mutex
  | collect u y q' cur i hmx' hpc =>
    -- Whoever collects now did so before.
    by_cases hu : u = t
    · unfold State.pcAt at hpc
      rw [hu, hidle] at hpc
      cases hpc
    · unfold State.pcAt at hpc
      rw [hothers u hu] at hpc
      have hsome := ((h.item x).collector u y q' cur i hpc).1
      rw [hmx] at hsome
      cases hsome

/-- With the item mutexes free, the release under way is carried out. -/
theorem release_enabled {kept released : List LockSlot} {l : LockSlot}
    (h : Progress n t q s₀ s (kept ++ [l]) released) (hpc : ReleasesAt (s.pc t) l)
    (habove : q < l.lockSequence) (hmx : ∀ x, (s.item x).mutex = none) :
    ∃ a s', a.slot = t ∧ step n s a = some s' ∧ Progress n t q s₀ s' kept (l :: released)
      ∧ s'.pc t = .idle ∧ ∀ x, (s'.item x).mutex = none := by
  obtain ⟨a, s', hat, hst⟩ : ∃ a s', a.slot = t ∧ step n s a = some s' := by
    rcases hpc with hp | hp
    · have hst : step n s (.unlockLight t) = some (s.unlockDone t l.item l.node (some l.lockMode)
          ((s.item l.item).unlockLight t l.node (some l.lockMode))) := by
        simp only [step, hp]
      exact ⟨_, _, rfl, hst⟩
    · have hst : step n s (.unlockInternal t) = some (s.unlockDone t l.item l.node (some l.lockMode)
          ((s.item l.item).unlockTableInternal t l.node (some l.lockMode))) := by
        simp only [step, hp, if_pos (hmx l.item)]
      exact ⟨_, _, rfl, hst⟩
  obtain ⟨hp', hidle⟩ := h.release hpc habove hat hst
  refine ⟨a, s', hat, hst, hp', hidle, fun x => ?_⟩
  refine mutex_release h.inv hp'.inv (fun u hu => ?_) hidle (hmx x)
  exact (other_same (step_cases False hst fun hf => hf.elim) (by rw [hat]; exact hu)).1

variable (isTempTableSpace) in
/-- From the test of the loop, by induction on the slots that are left. -/
theorem loop_returns (k : Nat) : ∀ (s : State) (kept released : List LockSlot), kept.length = k →
    Progress n t q s₀ s kept released → s.pc t = .idle → (∀ x, (s.item x).mutex = none) →
      ∃ s', (partialItemUnlock isTempTableSpace n t q false s₀).Path (fun _ _ => True)
        (s, .loop kept.getLast?) (s', .done) := by
  induction k with
  | zero =>
    intro s kept released hlen hp hidle hmx
    rw [List.eq_nil_of_length_eq_zero hlen]
    exact ⟨s, .head (a := none) trivial rfl .refl⟩
  | succ k ih =>
    intro s kept released hlen hp hidle hmx
    rcases List.eq_nil_or_concat kept with rfl | ⟨front, l, rfl⟩
    · cases hlen
    · rw [List.concat_eq_append] at hp hlen ⊢
      have hord : SlotsOrdered (front ++ [l]) := hp.slots ▸ hp.inv.slots t
      rw [List.getLast?_append, List.getLast?_singleton, Option.some_or]
      by_cases habove : l.lockSequence > q
      · -- `unlockTable` is entered, carried out and left.
        have hmem : l ∈ s.slots t := by
          rw [hp.slots]
          exact List.mem_append_right front (List.mem_singleton_self l)
        have hring := (hp.tidy l.item).linked l.node (slotModes_ne_nil hmem)
        have hmode : l.lockMode ∈ slotModes l.item l.node (s.slots t) :=
          List.mem_filterMap.mpr ⟨l, hmem, by simp [LockSlot.modeAt]⟩
        have henter : step n s (.unlockTable t l.item l.node (some l.lockMode))
            = some (s.unlockTable t l.item l.node (some l.lockMode)) := by
          simp [step, hidle, hring, hmode]
        obtain ⟨hp₁, hpc⟩ := hp.enter henter
        have hmx₁ : ∀ x,
            ((s.unlockTable t l.item l.node (some l.lockMode)).item x).mutex = none := by
          intro x
          unfold State.unlockTable
          dsimp only
          split_ifs <;> simp [State.put, hmx x]
        obtain ⟨a, s₂, hat, hst, hp₂, hidle₂, hmx₂⟩ := release_enabled hp₁ hpc habove hmx₁
        have hlen₂ : front.length = k := by simpa using hlen
        obtain ⟨s', hpath⟩ := ih s₂ front (l :: released) hlen₂ hp₂ hidle₂ hmx₂
        have hbusy : (s.unlockTable t l.item l.node (some l.lockMode)).pc t ≠ .idle := by
          rcases hpc with hpc | hpc <;> rw [hpc] <;> simp
        have hfirst : (partialItemUnlock isTempTableSpace n t q false s₀).step
            (s, .loop (some l)) none = some
              (s.unlockTable t l.item l.node (some l.lockMode), .unlocking front.getLast?) := by
          rw [step_loop]
          simp only [partialLoop, if_pos habove, releasesSlot, if_true, henter, Option.map_some,
            hp.slots, prvLockSlot_last hord]
        have hsecond : (partialItemUnlock isTempTableSpace n t q false s₀).step
            (s.unlockTable t l.item l.node (some l.lockMode), .unlocking front.getLast?) (some a)
              = some (s₂, .unlocking front.getLast?) := by
          rw [step_call, if_pos (Or.inr ⟨rfl, hbusy⟩), hst]
          rfl
        have hthird : (partialItemUnlock isTempTableSpace n t q false s₀).step
            (s₂, .unlocking front.getLast?) none = some (s₂, .loop front.getLast?) := by
          rw [step_loop]
          simp only [partialLoop, if_pos hidle₂]
        exact ⟨s', .head trivial hfirst (.head trivial hsecond (.head trivial hthird hpath))⟩
      · refine ⟨s, .head (a := none) trivial ?_ .refl⟩
        rw [step_loop]
        simp only [partialLoop, if_neg habove]

/-- **The call can always be completed** from a state in which no other
    transaction holds an item mutex. -/
theorem partialAt_returns {p : PartialPc} (h : PartialAt n t q s₀ s p)
    (hmx : ∀ x, (s.item x).mutex = none) :
    ∃ s', (partialItemUnlock isTempTableSpace n t q false s₀).Path (fun _ _ => True)
      (s, p) (s', .done) := by
  have hleave : ∀ (u : State) (kept released : List LockSlot),
      Progress n t q s₀ u kept released → u.pc t = .idle → (∀ x, (u.item x).mutex = none) →
      ∃ s', (partialItemUnlock isTempTableSpace n t q false s₀).Path (fun _ _ => True)
        (u, .unlocking kept.getLast?) (s', .done) := by
    intro u kept released hp hidle hfree
    obtain ⟨s', hpath⟩ := loop_returns isTempTableSpace kept.length u kept released rfl hp
      hidle hfree
    refine ⟨s', .head (a := none) trivial ?_ hpath⟩
    rw [step_loop]
    simp only [partialLoop, if_pos hidle]
  cases h with
  | loop kept released hp hidle => 
    exact loop_returns isTempTableSpace kept.length s kept released rfl hp hidle hmx
  | unlocked kept released hp hidle => exact hleave s kept released hp hidle hmx
  | done kept released hp hidle hle => exact ⟨s, .refl⟩
  | unlocking kept released l hp hpc habove =>
    obtain ⟨a, s₂, -, hst, hp₂, hidle₂, hmx₂⟩ := release_enabled hp hpc habove hmx
    obtain ⟨s', hpath⟩ := hleave s₂ kept (l :: released) hp₂ hidle₂ hmx₂
    have hbusy : s.pc t ≠ .idle := by
      rcases hpc with hpc | hpc <;> rw [hpc] <;> simp
    refine ⟨s', .head (a := some a) trivial ?_ hpath⟩
    rw [step_call, if_pos (Or.inr ⟨rfl, hbusy⟩), hst]
    rfl

variable (isTempTableSpace) in
/-- **Rolling back to a savepoint releases exactly the slots taken since.**  A
    transaction that began without slots, and has taken locks and released
    single slots in any order and beside any others, calls `partialItemUnlock`
    with a sequence number.  Whenever the call is back, the transaction's locks
    are those up to that number; and it can be completed from wherever it is,
    once the other transactions have left the item mutexes. -/
theorem partialItemUnlock_releases {s₁ : State} (h₁ : (lockMgr n).Reachable s₁)
    (hbegin : s₁.pc t = .idle ∧ s₁.slots t = [])
    (hlocks : (lockMgr n).Path (fun _ a => ∀ x c, a ≠ .unlockTable t x c none) s₁ s₀)
    (hidle : s₀.pc t = .idle) (q : Nat) :
    (∀ s, (partialItemUnlock isTempTableSpace n t q false s₀).Reachable (s, .done) →
      RolledBack s₀ s t q)
    ∧ ∀ s p, (partialItemUnlock isTempTableSpace n t q false s₀).Reachable (s, p) →
        (∀ x, (s.item x).mutex = none) →
        ∃ s', (partialItemUnlock isTempTableSpace n t q false s₀).Path (fun _ _ => True)
          (s, p) (s', .done) := by
  obtain ⟨hinv, htidy⟩ := tidyAll_of_path h₁ hbegin.1 hbegin.2 hlocks
  constructor
  · intro s hrun
    exact (partialAt_reachable hinv htidy hidle hrun).rolledBack
  · intro s p hrun hmx
    exact partialAt_returns (partialAt_reachable hinv htidy hidle hrun) hmx

end Result

/-- Transaction 0 locks table 0 in IS and table 1 in IX mode; after a savepoint
    it upgrades table 0 to S and table 1 to X. -/
def upgradeRun : List Action :=
  [.lockTable 0 0 ⟨.islock, 0, false⟩ true, .lockLight 0,
    .lockTable 0 1 ⟨.ixlock, 0, false⟩ true, .lockLight 0,
    .lockTable 0 0 ⟨.slock, 0, false⟩ true, .lockInternal 0, .collect 0, .collect 0, .collected 0,
    .lockTable 0 1 ⟨.xlock, 0, false⟩ true, .lockInternal 0, .collect 0, .collect 0, .collected 0]

/-- The action is no release of a whole node by `t`. -/
def Action.slotwise (t : TxSlot) : Action → Bool
  | .unlockTable u _ _ none => u ≠ t
  | _ => true

theorem upgradeRun_isSome :
    ((lockMgr 2).run State.init upgradeRun).isSome = true := by
  decide

theorem upgradeRun_path : (lockMgr 2).Path (fun _ a => ∀ x c, a ≠ .unlockTable 0 x c none)
    State.init ((lockMgr 2).after upgradeRun upgradeRun_isSome) := by
  have hrun : ((lockMgr 2).restrict fun _ a => a.slotwise 0).run State.init upgradeRun
      = some ((lockMgr 2).after upgradeRun upgradeRun_isSome) := by
    rfl
  refine (System.path_of_restrict upgradeRun hrun).mono fun _ a ha x c e => ?_
  rw [e] at ha
  simp [Action.slotwise] at ha

/-- Both upgrades are taken back, each under the mutex of its item. -/
def rollbackSteps : List (Option Action) :=
  [none, some (.unlockInternal 0), none, none, some (.unlockInternal 0), none, none]

theorem rollbackSteps_isSome : ((partialItemUnlock (fun _ => false) 2 0 2 false
    ((lockMgr 2).after upgradeRun upgradeRun_isSome)).run
      (partialItemUnlock (fun _ => false) 2 0 2 false
        ((lockMgr 2).after upgradeRun upgradeRun_isSome)).init rollbackSteps).isSome = true := by
  decide

example : ((partialItemUnlock (fun _ => false) 2 0 2 false
    ((lockMgr 2).after upgradeRun upgradeRun_isSome)).after rollbackSteps
      rollbackSteps_isSome).1.slots 0 = [⟨0, 0, .islock, 1⟩, ⟨1, 0, .ixlock, 2⟩] := by
  decide

/-- The locks of `upgradeRun` after a rollback to sequence number 2. -/
theorem partialItemUnlock_releases_upgradeRun :
    RolledBack ((lockMgr 2).after upgradeRun upgradeRun_isSome)
      ((partialItemUnlock (fun _ => false) 2 0 2 false
        ((lockMgr 2).after upgradeRun upgradeRun_isSome)).after rollbackSteps
          rollbackSteps_isSome).1 0 2 := by
  refine (partialItemUnlock_releases (fun _ => false) .refl ⟨rfl, rfl⟩ upgradeRun_path (by decide)
    2).1 _ ?_
  exact System.reachable_after _ rollbackSteps rollbackSteps_isSome

end Altibase.Sml
