/-
  Altibase.Sml.ItemInv
  ────────────────────
  **THE INVARIANT OF A LOCK ITEM, STEP BY STEP.**

  An item is in light mode, or a transaction holding its mutex is rebuilding the
  grant list, or it is in heavy mode (`Phase`).  In every phase the ownership
  invariant holds and distinct holders are compatible (`ItemInv`).  One lemma
  for each kind of step shows that the invariant is kept; together with the
  lock-queue view of the step they carry all results about runs.
-/
import Altibase.Sml.OwnSteps

namespace Altibase.Sml

open Altibase.Lib

variable {n : Nat} {clean : Prop} {s s' : LockItem} {pc : TxSlot → Pc}
  {sl : TxSlot → NodeId → List LockMode} {t : TxSlot} {c : NodeId}

/-! ## §1. The invariant. -/

/-- The three phases of an item. -/
inductive Phase (s : LockItem) (pc : TxSlot → Pc) : Prop
  | light (h : Light s)
  | collect (u : TxSlot) (x : ItemId) (q : LockReq) (cur : Option NodeId) (i : TxSlot)
      (hmx : s.mutex = some u) (hpc : pc u = .collect x q cur i)
      (hgroup : Group s.grant s.grantCnt s.arrLockCount s.flag s.grantLockMode
        (fun c => (s.nodes c).lockMode))
      (hmem : ∀ c, c ∈ s.grant ↔ ∃ v, v < i ∧ c ∈ s.transLockNode v)
      (hreq : s.request = []) (hcnt : s.requestCnt = 0) (hmodes : ∀ v, s.held v ≤ .ixlock)
  | heavy (hv : Heavy s) (hd : s.NeedsHeavy) (hs : s.queue.Settled)

/-- The item was seen in light mode by the holder of node list `t`, and no
    collector has looked at that list since. -/
def LightSeen (s : LockItem) (pc : TxSlot → Pc) (t : TxSlot) : Prop :=
  s.flag = flagLightMode
    ∨ ∃ u x q cur i, s.mutex = some u ∧ pc u = .collect x q cur i ∧ i ≤ t

/-- **The invariant of an item**: what the transactions own of it, compatible holders,
    one of the three phases, and who can be collecting or on a light path in it. -/
structure ItemInv (n : Nat) (clean : Prop) (s : LockItem) (pc : TxSlot → Pc)
    (sl : TxSlot → NodeId → List LockMode) : Prop where
  own : Own n clean s pc sl
  safe : Safe s.held
  phase : Phase s pc
  collector : ∀ t x q cur i, pc t = .collect x q cur i → s.mutex = some t ∧ i ≤ n
  lightSeen : ∀ t, (pc t).holdsNodeList = true → LightSeen s pc t

/-- The flag of light mode is set in the light phase only. -/
theorem Phase.light_of_flag (h : Phase s pc) (hf : s.flag = flagLightMode) : Light s := by
  cases h with
  | light h => exact h
  | collect _ _ _ _ _ _ _ hgroup => exact absurd hf hgroup.flag_ne_light
  | heavy hv => exact absurd hf hv.group.flag_ne_light

/-- With its mutex free, an item without the flag of light mode is in the heavy phase. -/
theorem Phase.heavy_of_flag (h : Phase s pc) (hmx : s.mutex = none) (hf : s.flag ≠ flagLightMode) :
    Heavy s ∧ s.NeedsHeavy ∧ s.queue.Settled := by
  cases h with
  | light h => exact absurd h.flag hf
  | collect _ _ _ _ _ hmx' => rw [hmx] at hmx'; cases hmx'
  | heavy hv hd hs => exact ⟨hv, hd, hs⟩

/-- With the item mutex free and the item heavy, no transaction is on a light path. -/
theorem ItemInv.no_light (h : ItemInv n clean s pc sl) (hmx : s.mutex = none)
    (hf : s.flag ≠ flagLightMode) (t : TxSlot) : (pc t).holdsNodeList = false := by
  by_contra hl
  rcases h.lightSeen t (by simpa using hl) with hlight | ⟨u, x, q, cur, i, hu, -⟩
  · exact hf hlight
  · rw [hmx] at hu
    cases hu

/-- With the item mutex free, no transaction is collecting. -/
theorem ItemInv.no_collect (h : ItemInv n clean s pc sl) (hmx : s.mutex = none) (t : TxSlot) :
    ∀ x q cur i, pc t ≠ .collect x q cur i := by
  intro x q cur i hp
  have := (h.collector t x q cur i hp).1
  rw [hmx] at this
  cases this

/-! ## §2. Small steps of the fields. -/

/-- A change of a node that keeps its mode does not change what is held. -/
theorem held_setNode {f : LockNode → LockNode} (hf : ∀ nd, (f nd).lockMode = nd.lockMode) :
    (s.setNode c f).held = s.held := by
  funext u
  unfold LockItem.held
  have hfind : (s.setNode c f).findLockNode u = s.findLockNode u := rfl
  rw [hfind]
  cases s.findLockNode u with
  | none => rfl
  | some d =>
      show (Function.update s.nodes c (f (s.nodes c)) d).lockMode = _
      by_cases hd : d = c
      · subst hd
        rw [Function.update_self, hf]
      · rw [Function.update_of_ne hd]

/-- A change of a node that keeps its mode keeps the mode of every node. -/
theorem mode_setNode {f : LockNode → LockNode} (hf : ∀ nd, (f nd).lockMode = nd.lockMode)
    (d : NodeId) : ((s.setNode c f).nodes d).lockMode = (s.nodes d).lockMode := by
  show (Function.update s.nodes c (f (s.nodes c)) d).lockMode = _
  by_cases hd : d = c
  · subst hd
    rw [Function.update_self, hf]
  · rw [Function.update_of_ne hd]

/-- It keeps the heavy phase, -/
theorem Heavy.setNode (hv : Heavy s) {f : LockNode → LockNode}
    (hf : ∀ nd, (f nd).lockMode = nd.lockMode) : Heavy (s.setNode c f) :=
  ⟨hv.mutex, hv.group.congr (fun d _ => mode_setNode hf d), hv.mem, hv.reqCnt⟩

/-- the reason for the heavy phase, -/
theorem NeedsHeavy.setNode (hd : s.NeedsHeavy) {f : LockNode → LockNode}
    (hf : ∀ nd, (f nd).lockMode = nd.lockMode) : (s.setNode c f).NeedsHeavy := by
  rcases hd with hd | ⟨r, hr, hm⟩
  · exact Or.inl hd
  · refine Or.inr ⟨r, hr, ?_⟩
    rw [mode_setNode hf]
    exact hm

/-- and, where it keeps the slot as well, the lock queue. -/
theorem queue_setNode {f : LockNode → LockNode} (hf : ∀ nd, (f nd).lockMode = nd.lockMode)
    (hs : ∀ nd, (f nd).slotID = nd.slotID) : (s.setNode c f).queue = s.queue := by
  unfold LockItem.queue
  rw [held_setNode hf]
  congr 1
  refine List.map_congr_left fun r _ => ?_
  rw [slotID_setNode hs, mode_setNode hf]

/-- A flag that a conversion sets in its node does not change what is held. -/
theorem held_addFlag (s : LockItem) (c : NodeId) (m : LockMode) : (s.addFlag c m).held = s.held :=
  held_setNode (fun _ => rfl)

/-- It keeps the heavy phase, -/
theorem Heavy.addFlag (hv : Heavy s) (c : NodeId) (m : LockMode) : Heavy (s.addFlag c m) :=
  hv.setNode (fun _ => rfl)

/-- the reason for the heavy phase, -/
theorem NeedsHeavy.addFlag (hd : s.NeedsHeavy) (c : NodeId) (m : LockMode) :
    (s.addFlag c m).NeedsHeavy :=
  NeedsHeavy.setNode hd (fun _ => rfl)

/-- and the lock queue. -/
theorem queue_addFlag (s : LockItem) (c : NodeId) (m : LockMode) :
    (s.addFlag c m).queue = s.queue :=
  queue_setNode (fun _ => rfl) (fun _ => rfl)

/-- The counters, the grant list and the mutex are the same. -/
structure SameCnt (s s' : LockItem) : Prop where
  group : s'.grantLockMode = s.grantLockMode
  grantCnt : s'.grantCnt = s.grantCnt
  requestCnt : s'.requestCnt = s.requestCnt
  flag : s'.flag = s.flag
  count : s'.arrLockCount = s.arrLockCount
  grant : s'.grant = s.grant
  mutex : s'.mutex = s.mutex

/-- The light phase stays while counters, lists and mutex are the same and all modes
    held are intention modes. -/
theorem Light.of_same (h : Light s) (e : SameCnt s s') (hreq : s'.request = s.request)
    (hm : ∀ t, s'.held t ≤ .ixlock) : Light s' where
  mutex := e.mutex.trans h.mutex
  flag := e.flag.trans h.flag
  group := e.group.trans h.group
  grant := e.grant.trans h.grant
  request := hreq.trans h.request
  grantCnt := e.grantCnt.trans h.grantCnt
  requestCnt := e.requestCnt.trans h.requestCnt
  count := e.count.trans h.count
  modes := hm

/-- While the lists are being collected, a list that has not been looked at may
    change: the collected part of the item does not notice. -/
theorem Phase.step_light (h : Phase s pc) (hown : Own n clean s pc sl)
    (hagree : ∀ u, u ≠ t → AgreeOn s s' u) (e : SameCnt s s') (hreq : s'.request = s.request)
    (hseen : LightSeen s pc t) (hnc : ∀ x q cur i, pc t ≠ .collect x q cur i) (p : Pc)
    (hm : (∀ v, s.held v ≤ .ixlock) → ∀ v, s'.held v ≤ .ixlock) :
    Phase s' (Function.update pc t p) := by
  cases h with
  | light h => exact .light (h.of_same e hreq (hm h.modes))
  | collect u x q cur i hmx hpc hgroup hmem hreq₀ hcnt hmodes =>
      have hut : u ≠ t := by rintro rfl; exact hnc _ _ _ _ hpc
      have hit : i ≤ t := by
        rcases hseen with hf | ⟨u', x', q', cur', i', hmx', hpc', hi'⟩
        · exact absurd hf hgroup.flag_ne_light
        · rw [hmx] at hmx'
          cases hmx'
          rw [hpc] at hpc'
          cases hpc'
          exact hi'
      have hring : ∀ v, v < i → s'.transLockNode v = s.transLockNode v := fun v hv =>
        (hagree v (Nat.ne_of_lt (lt_of_lt_of_le hv hit))).ring
      refine .collect u x q cur i (e.mutex.trans hmx) (by rw [Function.update_of_ne hut, hpc]) ?_
        (fun c => ?_) (hreq.trans hreq₀) (e.requestCnt.trans hcnt) (hm hmodes)
      · rw [e.grant, e.grantCnt, e.count, e.flag, e.group]
        refine hgroup.congr fun c hc => ?_
        obtain ⟨v, hv, hcv⟩ := (hmem c).1 hc
        have hg := (hown.tx v).node c hcv
        rw [(hagree v (Nat.ne_of_lt (lt_of_lt_of_le hv hit))).nodes c hg.lt hg.slotID]
      · rw [e.grant, hmem]
        constructor <;> rintro ⟨v, hv, hcv⟩ <;> refine ⟨v, hv, ?_⟩
        · rw [hring v hv]; exact hcv
        · rw [hring v hv] at hcv; exact hcv
  | heavy hv =>
      rcases hseen with hf | ⟨u, x, q, cur, i, hmx, -⟩
      · exact absurd hf hv.group.flag_ne_light
      · rw [hv.mutex] at hmx
        cases hmx

/-- The bookkeeping of positions after a step of `t` that neither starts nor ends
    a collection. -/
theorem ItemInv.positions (h : ItemInv n clean s pc sl) (s' : LockItem) (hmx : s'.mutex = s.mutex)
    (hflag : s'.flag = s.flag) (hnc : ∀ x q cur i, pc t ≠ .collect x q cur i) {p : Pc}
    (hpc : ∀ x q cur i, p ≠ .collect x q cur i)
    (hpl : p.holdsNodeList = true → s.flag = flagLightMode) :
    (∀ u x q cur i, Function.update pc t p u = .collect x q cur i → s'.mutex = some u ∧ i ≤ n)
      ∧ ∀ u, (Function.update pc t p u).holdsNodeList = true →
        LightSeen s' (Function.update pc t p) u := by
  constructor
  · intro u x q cur i hu
    by_cases hut : u = t
    · subst hut
      rw [Function.update_self] at hu
      exact absurd hu (hpc _ _ _ _)
    · rw [Function.update_of_ne hut] at hu
      rw [hmx]
      exact h.collector u x q cur i hu
  · intro u hu
    by_cases hut : u = t
    · subst hut
      rw [Function.update_self] at hu
      exact Or.inl (hflag.trans (hpl hu))
    · rw [Function.update_of_ne hut] at hu
      rcases h.lightSeen u hu with hf | ⟨v, x, q, cur, i, hv, hpv, hi⟩
      · exact Or.inl (hflag.trans hf)
      · refine Or.inr ⟨v, x, q, cur, i, hmx.trans hv, ?_, hi⟩
        rw [Function.update_of_ne, hpv]
        rintro rfl
        exact hnc _ _ _ _ hpv

end Altibase.Sml
