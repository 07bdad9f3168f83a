/-
  Altibase.Sml.ItemSteps
  ──────────────────────
  **EVERY STEP KEEPS THE INVARIANT OF THE ITEM.**

  One lemma for each action of the transition system, on one item: entering a
  path (`inv_enter`), the light lock (`inv_lockLight`), the collection
  (`inv_beginCollect`, `inv_collect`), the heavy lock (`inv_lockHeavy`), waking
  up (`inv_resume`) and the light release (`inv_unlockLight`).
-/
import Altibase.Sml.ItemInv

namespace Altibase.Sml

open Altibase.Lib

variable {n : Nat} {clean : Prop} {s s' : LockItem} {pc : TxSlot → Pc}
  {sl : TxSlot → NodeId → List LockMode} {t : TxSlot} {c : NodeId}

/-! ## §1. Positions. -/

/-- No transaction is on a light path or collecting. -/
def Quiet (pc : TxSlot → Pc) : Prop :=
  ∀ u, (pc u).holdsNodeList = false ∧ ∀ x q cur i, pc u ≠ .collect x q cur i

/-- At a heavy item whose mutex is free nobody is on a light path and nobody collects. -/
theorem ItemInv.quiet (h : ItemInv n clean s pc sl) (hmx : s.mutex = none)
    (hf : s.flag ≠ flagLightMode) : Quiet pc :=
  fun u => ⟨h.no_light hmx hf u, h.no_collect hmx u⟩

/-- The others are quiet, and `t` goes to a quiet position. -/
theorem Quiet.update (h : ∀ u, u ≠ t → (pc u).holdsNodeList = false
      ∧ ∀ x q cur i, pc u ≠ .collect x q cur i) {p : Pc} (hp : p.holdsNodeList = false)
    (hc : ∀ x q cur i, p ≠ .collect x q cur i) : Quiet (Function.update pc t p) := by
  intro u
  by_cases hu : u = t
  · rw [hu, Function.update_self]
    exact ⟨hp, hc⟩
  · rw [Function.update_of_ne hu]
    exact h u hu

/-- The same where `t` was quiet before. -/
theorem Quiet.update' (h : Quiet pc) {p : Pc} (hp : p.holdsNodeList = false)
    (hc : ∀ x q cur i, p ≠ .collect x q cur i) : Quiet (Function.update pc t p) :=
  Quiet.update (fun u _ => h u) hp hc

/-- The invariant at a quiet item. -/
theorem ItemInv.of_quiet (hown : Own n clean s pc sl) (hsafe : Safe s.held) (hph : Phase s pc)
    (hq : Quiet pc) : ItemInv n clean s pc sl where
  own := hown
  safe := hsafe
  phase := hph
  collector u x q cur i hu := absurd hu ((hq u).2 _ _ _ _)
  lightSeen u hu := by
    rw [(hq u).1] at hu
    cases hu

/-- The phase of an item is not seen from a transaction that does not collect. -/
theorem Phase.congr_pc (h : Phase s pc) (hnc : ∀ x q cur i, pc t ≠ .collect x q cur i) (p : Pc) :
    Phase s (Function.update pc t p) := by
  cases h with
  | light h => exact .light h
  | collect u x q cur i hmx hpc hgroup hmem hreq hcnt hmodes =>
      have hut : u ≠ t := by
        intro hut
        rw [hut] at hpc
        exact hnc _ _ _ _ hpc
      exact .collect u x q cur i hmx (by rw [Function.update_of_ne hut, hpc]) hgroup hmem hreq hcnt
        hmodes
  | heavy hv hd hs => exact .heavy hv hd hs

/-- **A call enters one of its paths.** -/
theorem inv_enter (h : ItemInv n clean s pc sl) (hidle : pc t = .idle) {p : Pc} (hlt : t < n)
    (hpc : PcAt s (sl t) t p) (hnc : ∀ x q cur i, p ≠ .collect x q cur i)
    (hpl : p.holdsNodeList = true → s.flag = flagLightMode) :
    ItemInv n clean s (Function.update pc t p) sl := by
  have hnc₀ : ∀ x q cur i, pc t ≠ .collect x q cur i := by
    intro x q cur i hp
    rw [hidle] at hp
    cases hp
  have hnw : ∀ x q cur new, pc t ≠ .waitForLock x q cur new := by
    intro x q cur new hp
    rw [hidle] at hp
    cases hp
  obtain ⟨hcol, hlight⟩ := h.positions s rfl rfl hnc₀ hnc hpl
  exact ⟨own_move h.own hnw (fun _ => hlt) hpc, h.safe, h.phase.congr_pc hnc₀ p, hcol, hlight⟩

/-! ## §2. Light locks and light releases. -/

/-- Where the item was seen in light mode, all locks are intention locks. -/
theorem ItemInv.modes_of_seen (h : ItemInv n clean s pc sl) (hseen : LightSeen s pc t) :
    ∀ v, s.held v ≤ .ixlock := by
  cases h.phase with
  | light hl => exact hl.modes
  | collect _ _ _ _ _ _ _ _ _ _ _ hmodes => exact hmodes
  | heavy hv =>
      rcases hseen with hf | ⟨u, x, q, cur, i, hmx, -⟩
      · exact absurd hf hv.group.flag_ne_light
      · rw [hv.mutex] at hmx
        cases hmx

/-- IS and IX are compatible with each other. -/
theorem safe_of_modes {held : TxSlot → LockMode} (h : ∀ v, held v ≤ .ixlock) : Safe held :=
  fun t u _ => compat_of_le_ixlock (h t) (h u)

/-- A light lock leaves the counters of the item as they are, -/
theorem sameCnt_lockLight (s : LockItem) (t : TxSlot) (q : LockReq) (cur : Option NodeId) :
    SameCnt s (s.lockLight t q cur).2 := by
  cases cur with
  | none => exact ⟨rfl, rfl, rfl, rfl, rfl, rfl, rfl⟩
  | some c => exact ⟨rfl, rfl, rfl, rfl, rfl, rfl, rfl⟩

/-- and so does a light unlock. -/
theorem sameCnt_unlockLight (s : LockItem) (t : TxSlot) (c : NodeId) (l : Option LockMode) :
    SameCnt s (s.unlockLight t c l) := by
  cases l with
  | none => exact ⟨rfl, rfl, rfl, rfl, rfl, rfl, rfl⟩
  | some m =>
      unfold LockItem.unlockLight
      dsimp only
      split
      · exact ⟨rfl, rfl, rfl, rfl, rfl, rfl, rfl⟩
      · exact ⟨rfl, rfl, rfl, rfl, rfl, rfl, rfl⟩

/-- An intention mode is below IX. -/
theorem isIntent_le {m : LockMode} (h : m.isIntent = true) : m ≤ .ixlock ∧ m ≠ .nlock := by
  revert m; decide

/-- **The light grant.** -/
theorem inv_lockLight (h : ItemInv n clean s pc sl) {q : LockReq} {cur : Option NodeId}
    (hring : s.transLockNode t = cur.toList) (hq : q.lockMode.isIntent = true) (hlt : t < n)
    (hnw : ∀ x q' cur' new, pc t ≠ .waitForLock x q' cur' new)
    (hnc : ∀ x q' cur' i, pc t ≠ .collect x q' cur' i) (hseen : LightSeen s pc t) :
    ItemInv n clean ((s.lockLight t q cur).2.addFlag (s.lockLight t q cur).1 q.lockMode)
      (Function.update pc t .idle)
      (Function.update sl t (slAdd (sl t) (s.lockLight t q cur).1 q.lockMode)) := by
  have hl := lockLight_spec h.own hring (isIntent_le hq).2 hnw
  have hm := h.modes_of_seen hseen
  have hcnt := sameCnt_lockLight s t q cur
  -- the slot only adds to the node's flag, so the modes are those after the grant
  have hheld : ((s.lockLight t q cur).2.addFlag (s.lockLight t q cur).1 q.lockMode).held
      = Function.update s.held t (s.held t ⊔ q.lockMode) := by
    rw [held_addFlag, hl.held]
  have hm' : ∀ v, Function.update s.held t (s.held t ⊔ q.lockMode) v ≤ .ixlock := by
    intro v
    by_cases hv : v = t
    · rw [hv, Function.update_self]
      exact sup_le (hm t) (isIntent_le hq).1
    · rw [Function.update_of_ne hv]
      exact hm v
  obtain ⟨hcol, hlight⟩ := h.positions _ (p := .idle) (t := t) hcnt.mutex hcnt.flag hnc
    (fun _ _ _ _ => by simp) (fun hp => by cases hp)
  refine ⟨own_lockDone h.own hl hlt hnw, ?_, ?_, hcol, hlight⟩
  · rw [hheld]
    exact safe_of_modes hm'
  · refine h.phase.step_light h.own (fun _ hu => hl.agreeOn_addFlag hu)
      ⟨hcnt.group, hcnt.grantCnt, hcnt.requestCnt, hcnt.flag, hcnt.count, hcnt.grant, hcnt.mutex⟩
      hl.request hseen hnc .idle (fun _ => ?_)
    rw [hheld]
    exact hm'

/-- A light unlock is seen by its own transaction only. -/
theorem agreeOn_unlockLight (h : Own n clean s pc sl) (hc : c ∈ s.transLockNode t)
    (l : Option LockMode) {u : TxSlot} (hu : u ≠ t) : AgreeOn s (s.unlockLight t c l) u := by
  have hgc := (h.tx t).node c hc
  have hset : ∀ N : LockNode, AgreeOn s { s with nodes := Function.update s.nodes c N } u := by
    intro N
    refine agreeOn_setNode (f := fun _ => N) ?_
    rw [hgc.slotID]
    exact hu
  rcases unlockLight_cases s t c l hgc.flag_light with ⟨N, e, -, -⟩ | ⟨m, -, -, e⟩
  · rw [e]
    exact (hset N).trans (agreeOn_removeLockNode hu)
  · rw [e]
    exact hset _

/-- It leaves the request list alone. -/
theorem request_unlockLight (s : LockItem) (t : TxSlot) (c : NodeId) (l : Option LockMode) :
    (s.unlockLight t c l).request = s.request := by
  cases l with
  | none => rfl
  | some m =>
      unfold LockItem.unlockLight
      dsimp only
      split <;> rfl

/-- A release never raises a mode. -/
theorem held_unlockLight_le (h : Own n clean s pc sl) (hc : c ∈ s.transLockNode t)
    (l : Option LockMode) (v : TxSlot) : (s.unlockLight t c l).held v ≤ s.held v := by
  have hgc := (h.tx t).node c hc
  rw [held_unlockLight h hc]
  by_cases hv : v = t
  · rw [hv, Function.update_self, h.held_of_mem hc]
    exact le_trans (keptMode_le hgc.flag_light l) hgc.decision_le
  · rw [Function.update_of_ne hv]

/-- **The light release.** -/
theorem inv_unlockLight (h : ItemInv n clean s pc sl) {l : Option LockMode}
    (hrel : Releasable s t c l (sl t)) (hnc : ∀ x q cur i, pc t ≠ .collect x q cur i)
    (hseen : LightSeen s pc t) :
    ItemInv n clean (s.unlockLight t c l) (Function.update pc t .idle)
      (Function.update sl t (slRemove (sl t) c l)) := by
  have hcnt := sameCnt_unlockLight s t c l
  obtain ⟨hcol, hlight⟩ := h.positions _ (p := .idle) (t := t) hcnt.mutex hcnt.flag hnc
    (fun _ _ _ _ => by simp) (fun hp => by cases hp)
  refine ⟨own_unlockLight h.own hrel, ?_, ?_, hcol, hlight⟩
  · exact safe_mono h.safe (held_unlockLight_le h.own hrel.mem l)
  · exact h.phase.step_light h.own (fun u hu => agreeOn_unlockLight h.own hrel.mem l hu) hcnt
      (request_unlockLight s t c l) hseen hnc .idle
      (fun hm v => le_trans (held_unlockLight_le h.own hrel.mem l v) (hm v))

/-! ## §3. The collection. -/

/-- **An S, X or SIX request finds the item in light mode.** -/
theorem inv_beginCollect (h : ItemInv n clean s pc sl) {x : ItemId} {q : LockReq}
    {cur : Option NodeId} (hpc : pc t = .lockInternal x q cur) (hq : ¬ q.lockMode ≤ .ixlock)
    (hf : s.flag = flagLightMode) :
    ItemInv n clean { s with flag := 0, mutex := some t }
      (Function.update pc t (.collect x q cur 0)) sl := by
  have hl := h.phase.light_of_flag hf
  have hnw : ∀ x' q' cur' new, pc t ≠ .waitForLock x' q' cur' new := by simp [hpc]
  have hat := (h.own.tx t).pc
  rw [hpc] at hat
  have hlt : t < n := (h.own.tx t).lt (Or.inl (by simp [hpc]))
  have hown : Own n clean s (Function.update pc t (.collect x q cur 0)) sl :=
    own_move h.own hnw (fun _ => hlt) ⟨hat.1, hq⟩
  refine ⟨hown.of_same ⟨rfl, rfl, rfl, rfl, rfl⟩, h.safe, ?_, ?_, ?_⟩
  · refine .collect t x q cur 0 rfl (Function.update_self ..) ?_ (fun c => ?_) hl.request
      hl.requestCnt hl.modes
    · show Group s.grant s.grantCnt s.arrLockCount 0 s.grantLockMode _
      rw [hl.grant, hl.grantCnt, hl.count, hl.group]
      exact .nil
    · show c ∈ s.grant ↔ _
      rw [hl.grant]
      simp
  · intro u x' q' cur' i hu
    by_cases hut : u = t
    · subst hut
      rw [Function.update_self] at hu
      cases hu
      exact ⟨rfl, Nat.zero_le _⟩
    · rw [Function.update_of_ne hut] at hu
      exact absurd hu (h.no_collect hl.mutex u _ _ _ _)
  · intro u hu
    exact Or.inr ⟨t, x, q, cur, 0, rfl, Function.update_self .., Nat.zero_le _⟩

/-- The phase of an item that `t` is collecting. -/
theorem ItemInv.collect_phase (h : ItemInv n clean s pc sl) {x : ItemId} {q : LockReq}
    {cur : Option NodeId} {i : TxSlot} (hpc : pc t = .collect x q cur i) :
    Group s.grant s.grantCnt s.arrLockCount s.flag s.grantLockMode (fun c => (s.nodes c).lockMode)
      ∧ (∀ c, c ∈ s.grant ↔ ∃ v, v < i ∧ c ∈ s.transLockNode v)
      ∧ s.request = [] ∧ s.requestCnt = 0 ∧ ∀ v, s.held v ≤ .ixlock := by
  have hmx := (h.collector t x q cur i hpc).1
  cases h.phase with
  | light hl => rw [hl.mutex] at hmx; cases hmx
  | collect u x' q' cur' i' hmx' hpc' hgroup hmem hreq hcnt hmodes =>
      rw [hmx] at hmx'
      cases hmx'
      rw [hpc] at hpc'
      cases hpc'
      exact ⟨hgroup, hmem, hreq, hcnt, hmodes⟩
  | heavy hv => rw [hv.mutex] at hmx; cases hmx

/-- To collect a node changes nothing of what its transaction holds. -/
theorem sameOwn_collectTransNode (s : LockItem) (i : TxSlot) :
    SameOwn s (s.collectTransNode i) ∧ (s.collectTransNode i).mutex = s.mutex := by
  unfold LockItem.collectTransNode
  split
  · exact ⟨⟨rfl, rfl, rfl, rfl, rfl⟩, rfl⟩
  · exact ⟨⟨rfl, rfl, rfl, rfl, rfl⟩, rfl⟩

/-- **One transaction's node list is collected.**  Its mutex is free, so no light
    path is under way on it. -/
theorem inv_collect (h : ItemInv n clean s pc sl) {x : ItemId} {q : LockReq} {cur : Option NodeId}
    {i : TxSlot} (hpc : pc t = .collect x q cur i) (hi : i < n)
    (hfree : (pc i).holdsNodeList = false) :
    ItemInv n clean (s.collectTransNode i) (Function.update pc t (.collect x q cur (i + 1)))
      sl := by
  obtain ⟨hgroup, hmem, hreq, hcnt, hmodes⟩ := h.collect_phase hpc
  obtain ⟨hsame, hmx'⟩ := sameOwn_collectTransNode s i
  have hmx := (h.collector t x q cur i hpc).1
  have hnw : ∀ x' q' cur' new, pc t ≠ .waitForLock x' q' cur' new := by simp [hpc]
  have hat := (h.own.tx t).pc
  rw [hpc] at hat
  have hlt : t < n := (h.own.tx t).lt (Or.inl (by simp [hpc]))
  have hown : Own n clean s (Function.update pc t (.collect x q cur (i + 1))) sl :=
    own_move h.own hnw (fun _ => hlt) hat
  refine ⟨hown.of_same hsame, ?_, ?_, ?_, ?_⟩
  · rw [hsame.held]
    exact h.safe
  · -- the nodes collected after this slot
    have hmem' : ∀ d, (∃ v, v < i + 1 ∧ d ∈ s.transLockNode v)
        ↔ (∃ v, v < i ∧ d ∈ s.transLockNode v) ∨ d ∈ s.transLockNode i := by
      intro d
      constructor
      · intro ⟨v, hv, hd⟩
        rcases Nat.lt_succ_iff_lt_or_eq.1 hv with hv | hv
        · exact Or.inl ⟨v, hv, hd⟩
        · exact Or.inr (hv ▸ hd)
      · intro hd
        rcases hd with ⟨v, hv, hd⟩ | hd
        · exact ⟨v, Nat.lt_succ_of_lt hv, hd⟩
        · exact ⟨i, Nat.lt_succ_self i, hd⟩
    have key : Group (s.collectTransNode i).grant (s.collectTransNode i).grantCnt
          (s.collectTransNode i).arrLockCount (s.collectTransNode i).flag
          (s.collectTransNode i).grantLockMode (fun c => (s.nodes c).lockMode)
        ∧ (∀ d, d ∈ (s.collectTransNode i).grant ↔ d ∈ s.grant ∨ d ∈ s.transLockNode i)
        ∧ (s.collectTransNode i).requestCnt = s.requestCnt := by
      obtain ⟨o, ho⟩ := (h.own.tx i).ring
      unfold LockItem.collectTransNode
      rw [findLockNode_of_ring ho]
      cases o with
      | none => exact ⟨hgroup, by simp [ho], rfl⟩
      | some d =>
          have hd : d ∈ s.transLockNode i := by rw [ho]; exact List.mem_singleton_self d
          have hng : d ∉ s.grant := by
            intro hg
            obtain ⟨v, hv, hdv⟩ := (hmem d).1 hg
            have hiv : i = v := (h.own.slotID_of_mem hd).symm.trans (h.own.slotID_of_mem hdv)
            exact Nat.lt_irrefl i (hiv ▸ hv)
          refine ⟨hgroup.add hng rfl, fun e => ?_, rfl⟩
          show e ∈ s.grant ++ [d] ↔ _
          rw [List.mem_append, ho]
          rfl
    refine .collect t x q cur (i + 1) (hmx'.trans hmx) (Function.update_self ..) ?_ (fun d => ?_)
      (hsame.request.trans hreq) (key.2.2.trans hcnt) (by rw [hsame.held]; exact hmodes)
    · rw [hsame.nodes]
      exact key.1
    · rw [key.2.1, hsame.ring, hmem', hmem]
  · intro u x' q' cur' j hu
    by_cases hut : u = t
    · subst hut
      rw [Function.update_self] at hu
      cases hu
      exact ⟨hmx'.trans hmx, hi⟩
    · rw [Function.update_of_ne hut] at hu
      have := (h.collector u _ _ _ _ hu).1
      rw [hmx] at this
      cases this
      exact absurd rfl hut
  · intro u hu
    by_cases hut : u = t
    · subst hut
      rw [Function.update_self] at hu
      cases hu
    · rw [Function.update_of_ne hut] at hu
      have hui : u ≠ i := by
        intro hui
        rw [hui, hfree] at hu
        cases hu
      rcases h.lightSeen u hu with hf | ⟨v, x', q', cur', j, hv, hpv, hj⟩
      · exact absurd hf hgroup.flag_ne_light
      · rw [hmx] at hv
        cases hv
        rw [hpc] at hpv
        cases hpv
        exact Or.inr ⟨t, x, q, cur, i + 1, hmx'.trans hmx, Function.update_self ..,
          Nat.lt_of_le_of_ne hj (Ne.symm hui)⟩

/-- All lists have been collected: the item is in heavy mode as soon as the mutex
    is handed on. -/
theorem ItemInv.collected (h : ItemInv n clean s pc sl) {x : ItemId} {q : LockReq}
    {cur : Option NodeId} (hpc : pc t = .collect x q cur n) :
    Heavy { s with mutex := none } ∧ s.request = [] ∧ (∀ v, s.held v ≤ .ixlock)
      ∧ ∀ u, u ≠ t → (pc u).holdsNodeList = false ∧ ∀ x q cur i, pc u ≠ .collect x q cur i := by
  obtain ⟨hgroup, hmem, hreq, hcnt, hmodes⟩ := h.collect_phase hpc
  have hmx := (h.collector t x q cur n hpc).1
  refine ⟨⟨rfl, hgroup, fun c => ?_, ?_⟩, hreq, hmodes, fun u hu => ⟨?_, ?_⟩⟩
  · show c ∈ s.grant ↔ _
    rw [hmem]
    constructor
    · intro ⟨v, _, hv⟩
      exact ⟨v, hv⟩
    · intro ⟨v, hv⟩
      exact ⟨v, (h.own.tx v).lt (Or.inr (List.ne_nil_of_mem hv)), hv⟩
  · show s.requestCnt = (s.request.length : Int)
    rw [hcnt, hreq]
    rfl
  · by_contra hl
    have hl' : (pc u).holdsNodeList = true := by simpa using hl
    rcases h.lightSeen u hl' with hf | ⟨v, x', q', cur', j, hv, hpv, hj⟩
    · exact hgroup.flag_ne_light hf
    · rw [hmx] at hv
      cases hv
      rw [hpc] at hpv
      cases hpv
      have hun : u < n := by
        refine (h.own.tx u).lt (Or.inl ?_)
        intro hidle
        rw [hidle] at hl'
        cases hl'
      exact Nat.not_lt.2 hj hun
  · intro x' q' cur' i hu'
    have := (h.collector u _ _ _ _ hu').1
    rw [hmx] at this
    cases this
    exact hu rfl

/-! ## §4. The heavy lock. -/

/-- The outcome is judged by what the transactions hold. -/
theorem LockedBy.of_same {q : LockReq} {slt : NodeId → List LockMode} {s₁ : LockItem}
    (h : LockedBy s t q slt clean c s₁) (e : SameOwn s₁ s') : LockedBy s t q slt clean c s' where
  agree u hu := (h.agree u hu).trans (.of_same e u)
  ring := by rw [e.ring]; exact h.ring
  node := h.node.congr (by rw [e.nodes]) e.next.ge
  le := by rw [e.nodes]; exact h.le
  flag := by rw [e.nodes]; exact h.flag
  exact hcl := by rw [e.nodes]; exact h.exact hcl
  request := e.request.trans h.request
  next := le_trans h.next e.next.ge
  held := e.held.trans h.held

/-- A heavy grant: the ownership side of a light grant, and the counters follow. -/
structure HeavyGrant (s : LockItem) (t : TxSlot) (q : LockReq) (cur : Option NodeId)
    (c : NodeId) (s' : LockItem) : Prop where
  id : c = (s.lockLight t q cur).1
  same : SameOwn (s.lockLight t q cur).2 s'
  heavy : Heavy s'
  group : s'.grantLockMode = s.grantLockMode ⊔ q.lockMode

/-- The holder's own node is converted in place. -/
theorem heavyGrant_convert (hv : Heavy s) (q : LockReq)
    (hring : s.transLockNode t = [c]) :
    HeavyGrant s t q (some c) c
      ((s.decTblLockModeAndTryUpdate (s.nodes c).lockMode).convertCompatible c q.lockMode) := by
  have hcg : c ∈ s.grant := (hv.mem c).2 ⟨t, by rw [hring]; exact List.mem_singleton_self c⟩
  have hG := hv.group.convert hcg q.lockMode
  refine ⟨rfl, ⟨rfl, rfl, rfl, rfl, rfl⟩, ⟨hv.mutex, ?_, hv.mem, hv.reqCnt⟩, rfl⟩
  simp only [LockItem.convertCompatible, LockItem.setLockMode, LockItem.setNode,
    LockItem.incTblLockModeAndUpdate, LockItem.decTblLockModeAndTryUpdate, Function.update_self]
  refine hG.congr fun d _ => ?_
  by_cases hd : d = c
  · subst hd
    rw [Function.update_self, Function.update_self]
    rfl
  · rw [Function.update_of_ne hd, Function.update_of_ne hd]

/-- The item with a new granted node, before the counters are raised. -/
def LockItem.admitNew (s : LockItem) (t : TxSlot) (q : LockReq) : LockItem :=
  let (c, s) := s.allocLockNodeAndInit t q.lockMode q.isExplicit
  let s := s.addGrant c
  let s := s.setNode c (fun nd => { nd with beGrant := true })
  s.addLockNode c t

/-- A transaction without a lock on the item gets a node. -/
theorem heavyGrant_new (h : Own n clean s pc sl) (hv : Heavy s) (q : LockReq)
    (hring : s.transLockNode t = []) :
    HeavyGrant s t q none s.nextNode
      ((s.admitNew t q).convertCompatible s.nextNode q.lockMode) := by
  have hidem : conversionTBL q.lockMode q.lockMode = q.lockMode := sup_idem q.lockMode
  -- the node is new, so the granted ones are not touched
  have hng : s.nextNode ∉ s.grant := by
    intro hg
    obtain ⟨v, hv'⟩ := (hv.mem _).1 hg
    exact Nat.lt_irrefl _ ((h.tx v).node _ hv').lt
  have hmode : ∀ N : LockNode, ∀ d ∈ s.grant,
      (Function.update s.nodes s.nextNode N d).lockMode = (s.nodes d).lockMode := by
    intro N d hd
    rw [Function.update_of_ne]
    intro hdn
    exact hng (hdn ▸ hd)
  -- the summary of the item with the new node
  have hG : ∀ N : LockNode, N.lockMode = q.lockMode →
      Group (s.grant ++ [s.nextNode]) (s.grantCnt + 1)
        (Function.update s.arrLockCount q.lockMode (s.arrLockCount q.lockMode + 1))
        (s.flag ||| lockModeToMask q.lockMode) (s.grantLockMode ⊔ q.lockMode)
        (fun d => (Function.update s.nodes s.nextNode N d).lockMode) := fun N hN =>
    (hv.group.congr (hmode N)).add hng (by rw [Function.update_self, hN])
  refine ⟨rfl, ⟨?_, rfl, rfl, rfl, rfl⟩, ⟨hv.mutex, ?_, fun d => ?_, hv.reqCnt⟩, rfl⟩
  · simp [LockItem.admitNew, LockItem.convertCompatible, LockItem.setLockMode, LockItem.setNode,
      LockItem.incTblLockModeAndUpdate, LockItem.addLockNode, LockItem.addGrant,
      LockItem.allocLockNodeAndInit, LockItem.lockLight, hidem]
  · simp only [LockItem.admitNew, LockItem.convertCompatible, LockItem.setLockMode,
      LockItem.setNode, LockItem.incTblLockModeAndUpdate, LockItem.addLockNode, LockItem.addGrant,
      LockItem.allocLockNodeAndInit, Function.update_self, Function.update_idem, hidem]
    exact hG _ rfl
  · -- the grant list is the union of the transactions' lists
    show d ∈ s.grant ++ [s.nextNode]
      ↔ ∃ v, d ∈ Function.update s.transLockNode t (s.transLockNode t ++ [s.nextNode]) v
    rw [List.mem_append, List.mem_singleton, hv.mem, hring, List.nil_append]
    constructor
    · intro hd
      rcases hd with ⟨v, hv'⟩ | rfl
      · have hvt : v ≠ t := by
          intro hvt
          rw [hvt, hring] at hv'
          cases hv'
        exact ⟨v, by rwa [Function.update_of_ne hvt]⟩
      · exact ⟨t, by rw [Function.update_self]; exact List.mem_singleton_self _⟩
    · rintro ⟨v, hv'⟩
      by_cases hvt : v = t
      · rw [hvt, Function.update_self] at hv'
        exact Or.inr (List.mem_singleton.1 hv')
      · rw [Function.update_of_ne hvt] at hv'
        exact Or.inl ⟨v, hv'⟩

/-- What `lockTableInternal` does in heavy mode. -/
inductive HeavyOutcome (s : LockItem) (t : TxSlot) (q : LockReq) (cur : Option NodeId)
    (first : Bool) : LockOutcome × LockItem → Prop
  | granted (c : NodeId) (s' : LockItem) (hg : HeavyGrant s t q cur c s')
      (hgr : Grantable s.held ⟨t, q.lockMode⟩) (hreq : cur = none → s.request = []) :
      HeavyOutcome s t q cur first (.granted c, s')
  | waiting (hwait : q.lockWaitMicroSec ≠ 0)
      (hblocked : (cur = none → s.request = []) → ¬ Grantable s.held ⟨t, q.lockMode⟩) :
      HeavyOutcome s t q cur first
        (.waiting (s.addRequest t q cur).1, (s.addRequest t q cur).2)
  | refused (hwait : q.lockWaitMicroSec = 0)
      (hblocked : (cur = none → s.request = []) → ¬ Grantable s.held ⟨t, q.lockMode⟩) :
      HeavyOutcome s t q cur first (.refused, if first then s.toLightMode else s)

/-- The conflict path: a refusal, or a request in the list. -/
private theorem lockConflict_spec (h : Own n clean s pc sl) (hv : Heavy s) {q : LockReq}
    {cur : Option NodeId} (first : Bool) (hring : s.transLockNode t = cur.toList)
    (hconf : (cur = none → s.request = []) → compatibleTBL s.grantLockMode q.lockMode = false) :
    HeavyOutcome s t q cur first (s.lockConflict t q cur first) := by
  have hnotall : (cur = none → s.request = []) →
      ¬ ∀ v, Compat.compat (s.held v) q.lockMode := by
    intro hc hall
    have := (hv.compatible_iff h q.lockMode).2 hall
    rw [hconf hc] at this
    cases this
  -- unless the transaction is the only holder, it waits or is refused
  have hrest : ((cur = none → s.request = []) → ¬ Grantable s.held ⟨t, q.lockMode⟩) →
      HeavyOutcome s t q cur first (if q.lockWaitMicroSec ≠ 0 then
          (.waiting (s.addRequest t q cur).1, (s.addRequest t q cur).2)
        else (.refused, if first then s.toLightMode else s)) := by
    intro hng
    by_cases hw : q.lockWaitMicroSec = 0
    · rw [if_neg (by simpa using hw)]
      exact .refused hw hng
    · rw [if_pos hw]
      exact .waiting hw hng
  unfold LockItem.lockConflict
  cases cur with
  | none =>
      have hne : s.held t = ⊥ := held_of_nil hring
      have hgoal := hrest (fun hc hg => hg.elim (hnotall hc) (fun hs => hs.1 hne))
      cases s.grantCnt == 1 <;> exact hgoal
  | some c =>
      have hc : c ∈ s.transLockNode t := by rw [hring]; exact List.mem_singleton_self c
      have hne : s.held t ≠ ⊥ := by
        rw [h.held_of_mem hc]
        exact ((h.tx t).node c hc).mode_ne
      cases hcnt : s.grantCnt == 1 with
      | true =>
          have hsole := (hv.sole_iff h hc).1 (by simpa using hcnt)
          exact .granted c _ (heavyGrant_convert hv q hring) (Or.inr ⟨hne, hsole⟩)
            (fun hn => by cases hn)
      | false =>
          refine hrest (fun hc' hg => hg.elim (hnotall hc') (fun hs => ?_))
          have := (hv.sole_iff h hc).2 hs.2
          rw [this] at hcnt
          cases hcnt

/-- **`lockTableInternal` in heavy mode**: it grants when the lock queue allows it
    and nobody is to be overtaken, else it queues up or is refused. -/
theorem lockHeavy_spec (h : Own n clean s pc sl) (hv : Heavy s) {q : LockReq}
    {cur : Option NodeId} (first : Bool) (hring : s.transLockNode t = cur.toList) :
    HeavyOutcome s t q cur first (s.lockHeavy t q cur first) := by
  unfold LockItem.lockHeavy
  cases hcomp : compatibleTBL s.grantLockMode q.lockMode with
  | false =>
      exact lockConflict_spec h hv first hring (fun _ => hcomp)
  | true =>
      have hall := (hv.compatible_iff h q.lockMode).1 hcomp
      rw [if_pos rfl]
      cases cur with
      | some c =>
          exact .granted c _ (heavyGrant_convert hv q hring) (Or.inl hall)
            (fun hn => by cases hn)
      | none =>
          by_cases hreq : s.requestCnt ≠ 0
          · have hc : s.lockCompatible t q none = none := by
              unfold LockItem.lockCompatible
              exact if_pos hreq
            rw [hc]
            refine lockConflict_spec h hv first hring (fun hn => absurd ?_ hreq)
            rw [hv.reqCnt, hn rfl]
            rfl
          · have hc : s.lockCompatible t q none
                = some (s.nextNode, (s.admitNew t q).convertCompatible s.nextNode q.lockMode) := by
              unfold LockItem.lockCompatible
              exact if_neg hreq
            rw [hc]
            refine .granted _ _ (heavyGrant_new h hv q hring) (Or.inl hall) (fun _ => ?_)
            have hlen := hv.reqCnt
            rw [not_not.1 hreq] at hlen
            exact List.length_eq_zero_iff.1 (by omega)

/-- A grant leaves the queue as it is. -/
theorem queue_of_lockedBy (h : Own n clean s pc sl) {q : LockReq} {slt : NodeId → List LockMode}
    (hl : LockedBy s t q slt clean c s')
    (hnw : ∀ x q' cur' new, pc t ≠ .waitForLock x q' cur' new) :
    s'.queue = ⟨grant s.held ⟨t, q.lockMode⟩, s.queue.waiting⟩ := by
  unfold LockItem.queue
  rw [hl.held, hl.request]
  congr 1
  refine List.map_congr_left fun r hr => ?_
  obtain ⟨_, _, _, _, _, hlt, _⟩ := h.waiter hr
  rw [(hl.agree _ (h.not_owner hnw hr)).nodes r hlt rfl]

/-- A waiting request holds nothing. -/
theorem held_addRequest (h : Own n clean s pc sl) (t : TxSlot) (q : LockReq)
    (cur : Option NodeId) : (s.addRequest t q cur).2.held = s.held := by
  obtain ⟨-, -, hnodes, hring, -, -⟩ := addRequest_spec s t q cur
  funext u
  refine held_congr (by rw [hring]) (fun d hd => ?_)
  rw [hnodes, Function.update_of_ne (Nat.ne_of_lt ((h.tx u).node d hd).lt)]

/-- **A request joins the queue**: a conversion at its head, any other at its tail. -/
theorem queue_addRequest (h : Own n clean s pc sl) (t : TxSlot) (q : LockReq)
    (cur : Option NodeId) :
    (s.addRequest t q cur).2.queue = ⟨s.held, match cur with
      | some _ => ⟨t, q.lockMode⟩ :: s.queue.waiting
      | none => s.queue.waiting ++ [⟨t, q.lockMode⟩]⟩ := by
  obtain ⟨-, -, hnodes, -, hreq, -⟩ := addRequest_spec s t q cur
  have hold : s.request.map (s.addRequest t q cur).2.requestOf = s.request.map s.requestOf := by
    refine List.map_congr_left fun r hr => ?_
    obtain ⟨_, _, _, _, _, hlt, _⟩ := h.waiter hr
    unfold LockItem.requestOf
    rw [hnodes, Function.update_of_ne (Nat.ne_of_lt hlt)]
  have hnew : (s.addRequest t q cur).2.requestOf s.nextNode = ⟨t, q.lockMode⟩ := by
    unfold LockItem.requestOf
    rw [hnodes, Function.update_self]
    rfl
  have hq : (s.addRequest t q cur).2.queue
      = ⟨(s.addRequest t q cur).2.held,
        (s.addRequest t q cur).2.request.map (s.addRequest t q cur).2.requestOf⟩ := rfl
  rw [hq, held_addRequest h, hreq]
  cases cur with
  | none => rw [List.map_append, List.map_singleton, hold, hnew]; rfl
  | some c => rw [List.map_cons, hold, hnew]; rfl

/-- It stays out of the group. -/
theorem Heavy.addRequest (hv : Heavy s) (h : Own n clean s pc sl) (t : TxSlot) (q : LockReq)
    (cur : Option NodeId) : Heavy (s.addRequest t q cur).2 := by
  obtain ⟨-, -, hnodes, hring, hreq, -⟩ := addRequest_spec s t q cur
  have hlen : (s.addRequest t q cur).2.requestCnt = s.requestCnt + 1 := by
    cases cur <;> rfl
  have hG : Group s.grant s.grantCnt s.arrLockCount s.flag s.grantLockMode
      (fun d => ((s.addRequest t q cur).2.nodes d).lockMode) := by
    refine hv.group.congr fun d hd => ?_
    obtain ⟨v, hv'⟩ := (hv.mem d).1 hd
    rw [hnodes, Function.update_of_ne (Nat.ne_of_lt ((h.tx v).node d hv').lt)]
  have hcnt : (s.addRequest t q cur).2.requestCnt = (s.addRequest t q cur).2.request.length := by
    rw [hlen, hreq, hv.reqCnt]
    cases cur with
    | none => simp
    | some c => simp
  have hmem : ∀ d, d ∈ s.grant ↔ ∃ v, d ∈ (s.addRequest t q cur).2.transLockNode v := by
    rw [hring]
    exact hv.mem
  cases cur with
  | none => exact ⟨hv.mutex, hG, hmem, hcnt⟩
  | some c => exact ⟨hv.mutex, hG, hmem, hcnt⟩

/-- What has to hold before `lockTableInternal` looks at the group mode: with the
    grant list just rebuilt (`first`), or with the item already in heavy mode. -/
def HeavyReady (s : LockItem) (q : LockReq) : Bool → Prop
  | true => ¬ q.lockMode ≤ .ixlock ∧ (∀ v, s.held v ≤ .ixlock) ∧ s.request = []
  | false => s.NeedsHeavy

/-- What a step does to the slot list of its transaction. -/
inductive SlotOp
  | keep
  | add (c : NodeId) (m : LockMode)
  | remove (c : NodeId) (l : Option LockMode)

/-- The slots on the nodes of the item after a step there. -/
def SlotOp.at (slt : NodeId → List LockMode) : SlotOp → NodeId → List LockMode
  | .keep => slt
  | .add c m => slAdd slt c m
  | .remove c l => slRemove slt c l

/-- What a step of a transaction leaves behind at an item: the item, the position
    of the transaction, the change of its slots, and the return code if its call
    is over. -/
structure After where
  item : LockItem
  pc : Pc
  op : SlotOp
  rc : Option IdeRc

/-- `lockOutcome`, seen from the item. -/
def After.ofOutcome (x : ItemId) (q : LockReq) (cur : Option NodeId) :
    LockOutcome × LockItem → After
  | (.granted c, s') => ⟨s'.addFlag c q.lockMode, .idle, .add c q.lockMode, some .success⟩
  | (.waiting new, s') => ⟨s', .waitForLock x q cur new, .keep, none⟩
  | (.refused, s') => ⟨s', .idle, .keep, some .failure⟩

/-- The item invariant after a step of `t`. -/
def InvAfter (n : Nat) (clean : Prop) (pc : TxSlot → Pc) (sl : TxSlot → NodeId → List LockMode)
    (t : TxSlot) (a : After) : Prop :=
  ItemInv n clean a.item (Function.update pc t a.pc) (Function.update sl t (a.op.at (sl t)))

/-- The heavy path keeps the invariant, whatever its outcome. -/
theorem inv_lockHeavy (first : Bool) (h : Own n clean s pc sl) (hsafe : Safe s.held) (hv : Heavy s)
    (hs : s.queue.Settled) {x : ItemId} {q : LockReq} {cur : Option NodeId}
    (hready : HeavyReady s q first) (hring : s.transLockNode t = cur.toList)
    (hq : q.lockMode ≠ .nlock) (hlt : t < n)
    (hnw : ∀ x q' cur' new, pc t ≠ .waitForLock x q' cur' new)
    (hquiet : ∀ u, u ≠ t → (pc u).holdsNodeList = false
      ∧ ∀ x q cur i, pc u ≠ .collect x q cur i)
    {o : LockOutcome × LockItem} (ho : HeavyOutcome s t q cur first o) :
    InvAfter n clean pc sl t (.ofOutcome x q cur o) := by
  cases ho with
  | granted c s' hg hgr hreq =>
      -- what the heavy grant does to the owner is what the light one does
      have hl : LockedBy s t q (sl t) clean c s' := by
        rw [hg.id]
        exact (lockLight_spec h hring hq hnw).of_same hg.same
      have hqueue := queue_of_lockedBy h hl hnw
      show ItemInv n clean (s'.addFlag c q.lockMode) (Function.update pc t .idle)
        (Function.update sl t (slAdd (sl t) c q.lockMode))
      refine .of_quiet (own_lockDone h hl hlt hnw) ?_ (.heavy (hg.heavy.addFlag c q.lockMode)
        (NeedsHeavy.addFlag ?_ c q.lockMode) ?_)
        (Quiet.update hquiet rfl (fun _ _ _ _ => by simp))
      · rw [held_addFlag, hl.held]
        exact safe_grant (r := ⟨t, q.lockMode⟩) hsafe hgr
      · -- the item keeps its reason to be heavy: the new mode, or a request that waits
        cases first with
        | true =>
            refine Or.inl (fun hle => hready.1 (le_trans ?_ hle))
            rw [hg.group]
            exact le_sup_right
        | false =>
            rcases hready with hd | ⟨r, hr, hm⟩
            · refine Or.inl (fun hle => hd (le_trans ?_ hle))
              rw [hg.group]
              exact le_sup_left
            · obtain ⟨_, _, _, _, _, hrlt, _⟩ := h.waiter hr
              refine Or.inr ⟨r, hl.request ▸ hr, ?_⟩
              rw [(hl.agree _ (h.not_owner hnw hr)).nodes r hrlt rfl]
              exact hm
      · rw [queue_addFlag, hqueue]
        intro r hr
        cases cur with
        | none =>
            have hnil : s.queue.waiting = [] := by
              unfold LockItem.queue
              rw [hreq rfl]
              rfl
            simp only [hnil, List.head?_nil] at hr
            cases hr
        | some d =>
            have hd : d ∈ s.transLockNode t := by rw [hring]; exact List.mem_singleton_self d
            -- a conversion only raises what is held, so the head of the queue stays blocked
            refine not_grantable_mono (hs r hr) (le_grant _) (fun _ => ?_)
            by_cases hrt : r.owner = t
            · show s.held r.owner ≠ ⊥
              rw [hrt, h.held_of_mem hd]
              exact ((h.tx t).node d hd).mode_ne
            · have hsame : grant s.held ⟨t, q.lockMode⟩ r.owner = s.held r.owner :=
                Function.update_of_ne hrt _ _
              show s.held r.owner ≠ ⊥
              rwa [← hsame]
  | waiting hwait hblocked =>
      have hqueue := queue_addRequest h t q cur
      obtain ⟨hid, -, hnodes, -, -, -⟩ := addRequest_spec s t q cur
      have hmem := mem_request_addRequest s t q cur
      have hG : (s.addRequest t q cur).2.grantLockMode = s.grantLockMode := by
        cases cur <;> rfl
      show ItemInv n clean (s.addRequest t q cur).2
        (Function.update pc t (.waitForLock x q cur (s.addRequest t q cur).1))
        (Function.update sl t (sl t))
      rw [Function.update_eq_self]
      refine .of_quiet (own_enqueue h hring hq hlt hnw) ?_ (.heavy (hv.addRequest h t q cur) ?_ ?_)
        (Quiet.update hquiet rfl (fun _ _ _ _ => by simp))
      · rw [held_addRequest h]
        exact hsafe
      · cases first with
        | true =>
            refine Or.inr ⟨s.nextNode, (hmem _).2 (Or.inl rfl), ?_⟩
            rw [hnodes, Function.update_self]
            exact hready.1
        | false =>
            rcases hready with hd | ⟨r, hr, hm⟩
            · exact Or.inl (hG ▸ hd)
            · obtain ⟨_, _, _, _, _, hrlt, _⟩ := h.waiter hr
              refine Or.inr ⟨r, (hmem r).2 (Or.inr hr), ?_⟩
              rw [hnodes, Function.update_of_ne (Nat.ne_of_lt hrlt)]
              exact hm
      · rw [hqueue]
        intro r hr
        cases cur with
        | some d =>
            simp only [List.head?_cons, Option.mem_def, Option.some.injEq] at hr
            rw [← hr]
            exact hblocked (fun hn => by cases hn)
        | none =>
            cases hw : s.queue.waiting with
            | nil =>
                simp only [hw, List.nil_append, List.head?_cons, Option.mem_def,
                  Option.some.injEq] at hr
                rw [← hr]
                exact hblocked (fun _ => List.map_eq_nil_iff.1 hw)
            | cons r' rest =>
                simp only [hw, List.cons_append, List.head?_cons, Option.mem_def,
                  Option.some.injEq] at hr
                rw [← hr]
                exact hs r' (by rw [hw]; rfl)
  | refused hwait hblocked =>
      have hown : Own n clean s (Function.update pc t .idle) sl :=
        own_move h hnw (fun hp => absurd rfl hp) trivial
      have hquiet' : Quiet (Function.update pc t .idle) :=
        Quiet.update hquiet rfl (fun _ _ _ _ => by simp)
      show ItemInv n clean (if first then s.toLightMode else s) (Function.update pc t .idle)
        (Function.update sl t (sl t))
      rw [Function.update_eq_self]
      cases first with
      | true =>
          obtain ⟨hq', hm, hreq⟩ := hready
          obtain ⟨hwk, hlight⟩ := toLightMode_spec hown hv.mutex hm
            (fun r hr => by rw [hreq] at hr; cases hr)
          exact .of_quiet hwk.own (safe_of_modes hlight.modes) (.light hlight) hquiet'
      | false => exact .of_quiet hown hsafe (.heavy hv hready hs) hquiet'

/-! ## §5. Waking up. -/

/-- **A resumed transaction finishes its call.** -/
theorem inv_resume (h : ItemInv n clean s pc sl) {x : ItemId} {q : LockReq} {cur : Option NodeId}
    {new : NodeId} (hpc : pc t = .waitForLock x q cur new) (hb : s.blocked t = false) :
    ItemInv n clean (s.addFlag (((s.nodes new).cvsLockNode).getD new) q.lockMode)
      (Function.update pc t .idle)
      (Function.update sl t
        (slAdd (sl t) (((s.nodes new).cvsLockNode).getD new) q.lockMode)) := by
  obtain ⟨c, hc, hring, hown⟩ := own_resume h.own hpc hb
  rw [← hc]
  have hnc : ∀ x q cur i, pc t ≠ .collect x q cur i := by simp [hpc]
  obtain ⟨hcol, hlight⟩ := h.positions (s.addFlag c q.lockMode) (p := .idle) (t := t) rfl rfl
    hnc (fun _ _ _ _ => by simp) (fun hp => by cases hp)
  refine ⟨hown, by rw [held_addFlag]; exact h.safe, ?_, hcol, hlight⟩
  have hph := h.phase.congr_pc hnc .idle
  cases hph with
  | light hl =>
      refine .light (hl.of_same ⟨rfl, rfl, rfl, rfl, rfl, rfl, rfl⟩ rfl ?_)
      rw [held_addFlag]
      exact hl.modes
  | collect u x' q' cur' i hmx hpc' hgroup hmem hreq hcnt hmodes =>
      refine .collect u x' q' cur' i hmx hpc' (hgroup.congr (fun d _ => ?_)) hmem hreq hcnt ?_
      · exact mode_setNode (f := fun nd => { nd with flag := nd.flag ||| lockModeToMask q.lockMode })
          (fun _ => rfl) d
      · rw [held_addFlag]
        exact hmodes
  | heavy hv hd hs =>
      exact .heavy (hv.addFlag c q.lockMode) (NeedsHeavy.addFlag hd c q.lockMode)
        (by rw [queue_addFlag]; exact hs)

end Altibase.Sml
