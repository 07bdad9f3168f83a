/-
  Altibase.Smx.TimeSCN
  ────────────────────
  **WHICH ENTRY THE TIME SCN IS TAKEN FROM.**

  Against the list of everything `addTimeSCNList` has recorded, newest first, the
  ring holds its first `mTimeSCNListMaxCnt` entries.  `setTimeSCN` should take the
  first of them that is `VERSIONING_MIN_TIME` old, or the last one.

  It finds that slot, and then compares its time with the time that now is in the
  slot it took last.  When the reading was written over that slot, the comparison
  is with the newest time there is, and the TIME SCN stays.

  Main results:
    * `search_picks` — the search ends at the slot to take;
    * `BaseKept.set`, `BaseOk.step` — what is known of the slot taken last;
    * `timeSCN_right` — the TIME SCN in every run that spares the base slot;
    * `timeSCN_stuck` — a run past the end of the ring that does not.
-/
import Altibase.Smx.MinSCNBuild

namespace Altibase.Smx

open Altibase.Lib MinSCNBuild

/-! ## §1. The runs. -/

/-- What `addTimeSCNList` writes. -/
def Reading.node (r : Reading) : TimeSCNNode := ⟨r.addTime, r.lstSystemSCN⟩

/-- The builder with the clock and the system SCN that were read last, and what was
    recorded, newest first. -/
structure TimeState where
  builder : MinSCNBuild
  clock : Nat
  systemSCN : Nat
  history : List TimeSCNNode

/-- The calls. -/
inductive TimeCall
  | addTimeSCNList (r : Reading)
  | setTimeSCN (r : Reading)

/-- What the call reads of the clock and the system SCN. -/
def TimeCall.reading : TimeCall → Reading
  | .addTimeSCNList r => r
  | .setTimeSCN r => r

/-- The builder after a call. -/
def TimeCall.perform (b : MinSCNBuild) : TimeCall → Option MinSCNBuild
  | .addTimeSCNList r => some (b.addTimeSCNList r)
  | .setTimeSCN r => b.setTimeSCN r

/-- The calls from `initialize` on, with a fixed `VERSIONING_MIN_TIME` and a clock
    that does not decrease. -/
def timeSCNCalls (versioningMinTime : Nat) : System TimeState TimeCall where
  init :=
    { builder := (minSCNBuilder true versioningMinTime).init.builder
      clock := 0, systemSCN := 0, history := [] }
  step s c :=
    if c.reading.Fits s.clock s.systemSCN then
      (c.perform s.builder).map fun b =>
        { builder := b, clock := c.reading.curTime, systemSCN := c.reading.lstSystemSCN
          history := c.reading.node :: s.history }
    else none

/-- An entry is `VERSIONING_MIN_TIME` milliseconds old. -/
def TimeSCNNode.Old (minTime cur : Nat) (n : TimeSCNNode) : Prop := n.mTime + minTime * 1000 ≤ cur

instance (minTime cur : Nat) (n : TimeSCNNode) : Decidable (n.Old minTime cur) :=
  inferInstanceAs (Decidable (_ ≤ _))

/-- The SCN of the newest entry that is old enough, or of the oldest entry when none
    is. -/
def TimeSCNRight (minTime cur : Nat) (recorded : List TimeSCNNode) (scn : Nat) : Prop :=
  ∃ newer n older, recorded = newer ++ n :: older ∧ (∀ m ∈ newer, ¬ m.Old minTime cur) ∧
    (n.Old minTime cur ∨ older = []) ∧ scn = n.mSCN

/-- The entries that are still in the ring. -/
def ringEntries (history : List TimeSCNNode) : List TimeSCNNode :=
  history.take timeSCNListMaxCnt.toNat

/-- The slot that is written next. -/
def MinSCNBuild.nextIdx (b : MinSCNBuild) : Int := (b.mTimeSCNListLastIdx + 1) % timeSCNListMaxCnt

/-- The call is `setTimeSCN` with a reading that is not old enough at once. -/
def TimeCall.setsYoung (minTime : Nat) : TimeCall → Bool
  | .addTimeSCNList _ => false
  | .setTimeSCN r => ¬ r.node.Old minTime r.curTime

/-- **The call spares the base slot**: it does not write over it, or it is
    `setTimeSCN` and writes over slot 0 what is not old enough at once.  With a
    `VERSIONING_MIN_TIME` of zero the clock has to advance. -/
def keepsBase (s : TimeState) (c : TimeCall) : Bool :=
  (s.builder.mTimeSCNListBaseIdx ≠ s.builder.nextIdx ∨
    (s.builder.mTimeSCNListBaseIdx = 0 ∧ c.setsYoung s.builder.mVersioningMinTime = true)) ∧
  (0 < s.builder.mVersioningMinTime ∨ s.builder.mTimeSCNListBaseIdx ≤ 0 ∨
    (s.builder.mTimeSCNList s.builder.mTimeSCNListBaseIdx).mTime < c.reading.addTime)

/-! ## §2. The ring holds the newest entries. -/

/-- An empty slot. -/
def emptyNode : TimeSCNNode := ⟨0, scnInit⟩

/-- The slot of age `a` holds the entry with `a` newer ones. -/
structure Recorded (b : MinSCNBuild) (h : List TimeSCNNode) : Prop where
  last : b.mTimeSCNListLastIdx = if h = [] then -1 else ((h.length : Int) - 1) % timeSCNListMaxCnt
  slot : ∀ i, IsSlot i → b.mTimeSCNList i = h.getD (b.age i).toNat emptyNode

theorem Recorded.last_range {b : MinSCNBuild} {h : List TimeSCNNode} (hr : Recorded b h) :
    -1 ≤ b.mTimeSCNListLastIdx ∧ b.mTimeSCNListLastIdx < timeSCNListMaxCnt := by
  rw [hr.last]
  simp only [timeSCNListMaxCnt]
  split_ifs <;> omega

/-- The other slots get one step older, also in a clear ring. -/
theorem add_age {b : MinSCNBuild} {r : Reading} {i : Int} (hi : IsSlot i)
    (hlast : -1 ≤ b.mTimeSCNListLastIdx ∧ b.mTimeSCNListLastIdx < timeSCNListMaxCnt)
    (hne : i ≠ b.nextIdx) : (b.addTimeSCNList r).age i = b.age i + 1 := by
  obtain ⟨hlo, hhi⟩ := hlast
  rw [age, age, add_last]
  simp only [nextIdx, IsSlot, timeSCNListMaxCnt] at *
  omega

theorem Recorded.add {b : MinSCNBuild} {h : List TimeSCNNode} (hr : Recorded b h) (r : Reading) :
    Recorded (b.addTimeSCNList r) (r.node :: h) where
  last := by
    rw [add_last, hr.last, if_neg (List.cons_ne_nil _ _), List.length_cons]
    by_cases hnil : h = []
    · rw [if_pos hnil, hnil]
      rfl
    · rw [if_neg hnil]
      push_cast
      simp only [timeSCNListMaxCnt]
      omega
  slot := by
    intro i hi
    by_cases hne : i = b.nextIdx
    · have hnew : i = (b.addTimeSCNList r).mTimeSCNListLastIdx := hne
      rw [hnew, add_list_last, add_age_last]
      rfl
    · have hage := add_age (r := r) hi hr.last_range hne
      have hpos := age_nonneg b i
      rw [add_list_of_ne hne, hr.slot i hi, hage,
        show (b.age i + 1).toNat = (b.age i).toNat + 1 by omega, List.getD_cons_succ]

/-- Different slots have different ages. -/
theorem age_inj {b : MinSCNBuild} {i j : Int} (hi : IsSlot i) (hj : IsSlot j)
    (h : b.age i = b.age j) : i = j := by
  simp only [age, IsSlot, timeSCNListMaxCnt] at *
  omega

theorem age_lt (b : MinSCNBuild) (i : Int) : b.age i < timeSCNListMaxCnt := by
  simp only [age, timeSCNListMaxCnt]
  omega

/-! ## §3. The search. -/

/-- The entry `n` of the history is the one to take. -/
structure Picked (minTime cur : Nat) (h : List TimeSCNNode) (n : Nat) : Prop where
  lt : n < h.length
  lt_cnt : n < timeSCNListMaxCnt.toNat
  newer : ∀ c < n, ¬ (h.getD c emptyNode).Old minTime cur
  oldest : (h.getD n emptyNode).Old minTime cur ∨ n + 1 = min h.length timeSCNListMaxCnt.toNat

/-- **The search ends at the slot to take.**  It has `a` newer slots behind it, all
    filled and none old enough. -/
theorem search_picks {b : MinSCNBuild} {h : List TimeSCNNode} (cur : Nat) (hr : Recorded b h)
    (hscn : ∀ n ∈ h, scnInit < n.mSCN) (hne : h ≠ []) (fuel : Nat) :
    ∀ (i : Int) (a : Nat), IsSlot i → b.age i = (a : Int) →
      fuel + a = timeSCNListMaxCnt.toNat → a ≤ h.length →
      (∀ c < a, ¬ (h.getD c emptyNode).Old b.mVersioningMinTime cur) →
      ∃ k, b.searchTimeSCN cur fuel i = some k ∧ IsSlot k ∧
        Picked b.mVersioningMinTime cur h (b.age k).toNat := by
  have hlen : 0 < h.length := List.length_pos_iff.mpr hne
  have hcnt : timeSCNListMaxCnt.toNat = 100002 := rfl
  have hlast : IsSlot b.mTimeSCNListLastIdx := by
    rw [hr.last, if_neg hne]
    simp only [IsSlot, timeSCNListMaxCnt]
    omega
  induction fuel with
  | zero =>
    intro i a hi hage hfuel _ _
    have hlt := age_lt b i
    simp only [timeSCNListMaxCnt] at *
    omega
  | succ fuel ih =>
    intro i a hi hage hfuel ha hnewer
    have hnode : b.mTimeSCNList i = h.getD a emptyNode := by
      rw [hr.slot i hi, hage]
      rfl
    rw [searchTimeSCN]
    by_cases hinit : (b.mTimeSCNList i).mSCN = scnInit
    · -- an empty slot: all entries were passed, take the one before
      rw [if_pos hinit]
      have hend : a = h.length := by
        by_contra hlt
        have hlt' : a < h.length := by omega
        rw [hnode, List.getD_eq_getElem _ _ hlt'] at hinit
        have hpos := hscn _ (List.getElem_mem hlt')
        omega
      have hnext : IsSlot ((i + 1) % timeSCNListMaxCnt) ∧
          b.age ((i + 1) % timeSCNListMaxCnt) = (a : Int) - 1 := by
        simp only [age, IsSlot, timeSCNListMaxCnt] at *
        omega
      have hidx : ((a : Int) - 1).toNat = h.length - 1 := by omega
      refine ⟨_, rfl, hnext.1, ?_⟩
      rw [hnext.2, hidx]
      exact ⟨by omega, by omega, fun c hc => hnewer c (by omega), .inr (by omega)⟩
    · rw [if_neg hinit]
      have hlt : a < h.length := by
        by_contra hge
        rw [hnode, List.getD_eq_default _ _ (by omega)] at hinit
        exact hinit rfl
      have hidx : (b.age i).toNat = a := by
        rw [hage]
        rfl
      have hold_iff : b.oldEnough cur i = true ↔
          (h.getD a emptyNode).Old b.mVersioningMinTime cur := by
        rw [oldEnough, hnode]
        exact decide_eq_true_iff
      by_cases hold : b.oldEnough cur i = true
      · rw [if_pos hold]
        refine ⟨i, rfl, hi, ?_⟩
        rw [hidx]
        exact ⟨hlt, by omega, hnewer, .inl (hold_iff.mp hold)⟩
      · rw [if_neg hold]
        by_cases hround : prevIdx i = b.mTimeSCNListLastIdx
        · -- all slots were looked at: back to the oldest one
          rw [if_pos hround]
          have hback : (prevIdx i + 1) % timeSCNListMaxCnt = i := by
            simp only [prevIdx, IsSlot, timeSCNListMaxCnt] at *
            split_ifs <;> omega
          have hfull : a + 1 = 100002 := by
            simp only [prevIdx, age, IsSlot, timeSCNListMaxCnt] at *
            split_ifs at hround <;> omega
          rw [hback]
          refine ⟨i, rfl, hi, ?_⟩
          rw [hidx]
          exact ⟨hlt, by omega, hnewer, .inr (by omega)⟩
        · rw [if_neg hround]
          have hprev : IsSlot (prevIdx i) ∧ b.age (prevIdx i) = ((a + 1 : Nat) : Int) := by
            push_cast
            simp only [prevIdx, age, IsSlot, timeSCNListMaxCnt] at *
            split_ifs at hround ⊢ <;> omega
          refine ih (prevIdx i) (a + 1) hprev.1 hprev.2 (by omega) (by omega) ?_
          intro c hc
          by_cases hca : c = a
          · rw [hca]
            exact fun h => hold (hold_iff.mpr h)
          · exact hnewer c (by omega)

/-- What is picked is the right entry. -/
theorem Picked.right {minTime cur n : Nat} {h : List TimeSCNNode} (hp : Picked minTime cur h n) :
    TimeSCNRight minTime cur (ringEntries h) (h.getD n emptyNode).mSCN := by
  have hlen : (ringEntries h).length = min timeSCNListMaxCnt.toNat h.length := List.length_take
  have hlt : n < (ringEntries h).length := by
    have h1 := hp.lt
    have h2 := hp.lt_cnt
    omega
  have hget : ∀ c, c ≤ n → (ringEntries h).getD c emptyNode = h.getD c emptyNode := by
    intro c hc
    have h2 := hp.lt_cnt
    unfold ringEntries
    rw [List.getD_eq_getElem?_getD, List.getD_eq_getElem?_getD, List.getElem?_take_of_lt (by omega)]
  refine ⟨(ringEntries h).take n, h.getD n emptyNode, (ringEntries h).drop (n + 1), ?_, ?_, ?_, rfl⟩
  · have hsplit := (List.take_append_drop n (ringEntries h)).symm
    rw [List.drop_eq_getElem_cons hlt] at hsplit
    rw [← hget n le_rfl, List.getD_eq_getElem _ _ hlt]
    exact hsplit
  · intro m hm
    obtain ⟨c, hc, rfl⟩ := List.mem_iff_getElem.mp hm
    have hcn : c < n := by
      rw [List.length_take] at hc
      omega
    have hnot := hp.newer c hcn
    rw [← hget c hcn.le, List.getD_eq_getElem _ _ (hcn.trans hlt)] at hnot
    rwa [List.getElem_take]
  · rcases hp.oldest with hold | hend
    · exact .inl hold
    · exact .inr (List.drop_eq_nil_of_le (by omega))

/-! ## §4. The slot that was taken last. -/

/-- The entry `n` was old enough, and all newer ones are later. -/
def Settled (minTime clock : Nat) (h : List TimeSCNNode) (n : Nat) : Prop :=
  (h.getD n emptyNode).Old minTime clock ∧
    ∀ c < n, (h.getD n emptyNode).mTime < (h.getD c emptyNode).mTime

/-- **The base slot still holds what the TIME SCN was taken from**, and it is slot 0
    or was old enough; or nothing was taken yet. -/
def BaseKept (b : MinSCNBuild) (h : List TimeSCNNode) (clock : Nat) : Prop :=
  b.mTimeSCNListBaseIdx = -1 ∨
    (IsSlot b.mTimeSCNListBaseIdx ∧
      b.mTimeSCN = (b.mTimeSCNList b.mTimeSCNListBaseIdx).mSCN ∧
      (b.mTimeSCNListBaseIdx = 0 ∨
        Settled b.mVersioningMinTime clock h (b.age b.mTimeSCNListBaseIdx).toNat))

/-- What holds between two calls: the next reading is written over the base slot, or
    that is as above. -/
def BaseOk (b : MinSCNBuild) (h : List TimeSCNNode) (clock : Nat) : Prop :=
  b.nextIdx = b.mTimeSCNListBaseIdx ∨ BaseKept b h clock

variable {b : MinSCNBuild} {h : List TimeSCNNode} {clock systemSCN : Nat} {r : Reading}

/-- A reading that is not written over the base slot. -/
theorem BaseKept.add (hr : Recorded b h) (hk : BaseKept b h clock)
    (hfits : r.Fits clock systemSCN) (hne : b.mTimeSCNListBaseIdx ≠ b.nextIdx)
    (htime : 0 < b.mVersioningMinTime ∨ b.mTimeSCNListBaseIdx ≤ 0 ∨
      (b.mTimeSCNList b.mTimeSCNListBaseIdx).mTime < r.addTime) :
    BaseKept (b.addTimeSCNList r) (r.node :: h) r.addTime := by
  rcases hk with hnone | ⟨hslot, hscn, hzero⟩
  · exact .inl hnone
  · have hlist : (b.addTimeSCNList r).mTimeSCNList b.mTimeSCNListBaseIdx =
        b.mTimeSCNList b.mTimeSCNListBaseIdx := add_list_of_ne hne
    refine .inr ⟨hslot, hscn.trans (congrArg TimeSCNNode.mSCN hlist.symm), ?_⟩
    rcases hzero with hzero | ⟨hold, hlater⟩
    · exact .inl hzero
    · have hage := add_age (r := r) hslot hr.last_range hne
      have hpos := age_nonneg b b.mTimeSCNListBaseIdx
      have hidx : ((b.addTimeSCNList r).age b.mTimeSCNListBaseIdx).toNat =
          (b.age b.mTimeSCNListBaseIdx).toNat + 1 := by omega
      have hclock := hfits.clock_le
      unfold TimeSCNNode.Old at hold
      show _ ∨ Settled b.mVersioningMinTime r.addTime (r.node :: h)
        ((b.addTimeSCNList r).age b.mTimeSCNListBaseIdx).toNat
      rw [hidx]
      by_cases hzero : b.mTimeSCNListBaseIdx = 0
      · exact .inl hzero
      · refine .inr ⟨?_, fun c hc => ?_⟩
        · show (h.getD _ emptyNode).mTime + _ ≤ _
          omega
        · rw [List.getD_cons_succ]
          cases c with
          | zero =>
            show _ < r.addTime
            rw [hr.slot _ hslot] at htime
            have hge := hslot.1
            omega
          | succ c =>
            rw [List.getD_cons_succ]
            exact hlater c (by omega)

/-- Taking a slot whose time is later than that of the base slot, if it is another. -/
theorem takeTimeSCN_takes {k : Int}
    (hsame : b.mTimeSCNListBaseIdx = k → b.mTimeSCN = (b.mTimeSCNList k).mSCN)
    (hother : b.mTimeSCNListBaseIdx ≠ k → b.oldTime < (b.mTimeSCNList k).mTime) :
    (b.takeTimeSCN k).mTimeSCNListBaseIdx = k ∧
      (b.takeTimeSCN k).mTimeSCN = (b.mTimeSCNList k).mSCN := by
  unfold takeTimeSCN
  by_cases hk : b.mTimeSCNListBaseIdx = k
  · rw [if_neg (fun h => h.1 hk)]
    exact ⟨hk, hsame hk⟩
  · rw [if_pos ⟨hk, hother hk⟩]
    exact ⟨rfl, rfl⟩

/-- The time of a base that is no slot behind slot 0 does not count. -/
theorem oldTime_eq_zero (hle : b.mTimeSCNListBaseIdx ≤ 0) : b.oldTime = 0 := by
  unfold oldTime
  rw [if_neg (by omega)]

/-- **The slot that is picked is later than the base slot**, if that is kept. -/
theorem BaseKept.lt_picked {cur : Nat} {k : Int} (hr : Recorded b h) (hk : BaseKept b h clock)
    (hclock : clock ≤ cur) (hslot : IsSlot k)
    (hp : Picked b.mVersioningMinTime cur h (b.age k).toNat)
    (hpos : 0 < (b.mTimeSCNList k).mTime) (hne : b.mTimeSCNListBaseIdx ≠ k) :
    b.oldTime < (b.mTimeSCNList k).mTime := by
  by_cases hle : b.mTimeSCNListBaseIdx ≤ 0
  · rw [oldTime_eq_zero hle]
    exact hpos
  · rcases hk with hnone | ⟨hbase, -, hzero⟩
    · omega
    · obtain ⟨hold, hlater⟩ := hzero.resolve_left (by omega)
      have hrange := age_nonneg b k
      have hrange' := age_nonneg b b.mTimeSCNListBaseIdx
      -- the base is old enough by now, so the search does not pass it
      have hlt : (b.age k).toNat < (b.age b.mTimeSCNListBaseIdx).toNat := by
        by_contra hge
        have hages : b.age b.mTimeSCNListBaseIdx ≠ b.age k := fun h => hne (age_inj hbase hslot h)
        refine hp.newer (b.age b.mTimeSCNListBaseIdx).toNat (by omega) ?_
        exact le_trans hold hclock
      unfold oldTime
      rw [if_pos (by omega), hr.slot k hslot, hr.slot _ hbase]
      exact hlater _ hlt

/-- The slot that is picked is slot 0, was old enough, or is written over next. -/
theorem Picked.baseOk {cur : Nat} {k : Int} (hr : Recorded b h) (hslot : IsSlot k)
    (hp : Picked b.mVersioningMinTime cur h (b.age k).toNat) :
    k = 0 ∨ b.nextIdx = k ∨ Settled b.mVersioningMinTime cur h (b.age k).toNat := by
  have hcnt : timeSCNListMaxCnt.toNat = 100002 := rfl
  have hrange := age_nonneg b k
  rcases hp.oldest with hold | hend
  · refine .inr (.inr ⟨hold, fun c hc => ?_⟩)
    have hnew := hp.newer c hc
    unfold TimeSCNNode.Old at hold hnew
    omega
  · have hlen := hp.lt
    have hlast := hr.last
    rw [if_neg (by rintro rfl; exact absurd hlen (Nat.not_lt_zero _))] at hlast
    by_cases hfull : h.length < 100002
    · -- the ring has not come round, so its oldest entry is in slot 0
      refine .inl ?_
      simp only [age, IsSlot, timeSCNListMaxCnt] at *
      omega
    · refine .inr (.inl ?_)
      simp only [nextIdx, age, IsSlot, timeSCNListMaxCnt] at *
      omega

/-! ## §5. The runs. -/

theorem takeTimeSCN_keeps (b : MinSCNBuild) (k : Int) :
    (b.takeTimeSCN k).mTimeSCNList = b.mTimeSCNList ∧
      (b.takeTimeSCN k).mTimeSCNListLastIdx = b.mTimeSCNListLastIdx ∧
      (b.takeTimeSCN k).mVersioningMinTime = b.mVersioningMinTime := by
  unfold takeTimeSCN
  split_ifs <;> exact ⟨rfl, rfl, rfl⟩

theorem Recorded.take (hr : Recorded b h) (k : Int) : Recorded (b.takeTimeSCN k) h := by
  obtain ⟨hlist, hlast, -⟩ := takeTimeSCN_keeps b k
  refine ⟨hlast.trans hr.last, fun i hi => ?_⟩
  rw [hlist, age, hlast]
  exact hr.slot i hi

/-- What holds in every run. -/
structure HistoryOk (minTime : Nat) (s : TimeState) : Prop where
  recorded : Recorded s.builder s.history
  minTime_eq : s.builder.mVersioningMinTime = minTime
  nodes : ∀ n ∈ s.history, 0 < n.mTime ∧ scnInit < n.mSCN
  base_none : s.history = [] → s.builder.mTimeSCNListBaseIdx = -1

section Run

variable {minTime : Nat} {s s' : TimeState} {c : TimeCall}

theorem HistoryOk.nodes_cons (hs : HistoryOk minTime s) (hfits : r.Fits s.clock s.systemSCN) :
    ∀ n ∈ r.node :: s.history, 0 < n.mTime ∧ scnInit < n.mSCN := by
  intro n hn
  cases hn with
  | head => exact ⟨hfits.pos, hfits.scn_pos⟩
  | tail _ hn => exact hs.nodes n hn

/-- The search of `setTimeSCN` ends, and what it picks. -/
theorem setTimeSCN_picks (hs : HistoryOk minTime s) (hfits : r.Fits s.clock s.systemSCN) :
    ∃ k, s.builder.setTimeSCN r = some ((s.builder.addTimeSCNList r).takeTimeSCN k) ∧ IsSlot k ∧
      Picked minTime r.curTime (r.node :: s.history)
        ((s.builder.addTimeSCNList r).age k).toNat := by
  have hadd := hs.recorded.add r
  obtain ⟨k, hk, hslot, hp⟩ := search_picks r.curTime hadd
    (fun n hn => (hs.nodes_cons hfits n hn).2) (List.cons_ne_nil _ _) timeSCNListMaxCnt.toNat
    (s.builder.addTimeSCNList r).mTimeSCNListLastIdx 0 (isSlot_add_last _ _) (add_age_last _ _) rfl
    (Nat.zero_le _) (fun c hc => absurd hc (Nat.not_lt_zero c))
  refine ⟨k, ?_, hslot, ?_⟩
  · show Option.map _ (searchTimeSCN _ _ _ _) = _
    rw [hk]
    rfl
  · rw [← hs.minTime_eq]
    exact hp

theorem HistoryOk.step (hs : HistoryOk minTime s)
    (hst : (timeSCNCalls minTime).step s c = some s') : HistoryOk minTime s' := by
  simp only [timeSCNCalls] at hst
  split_ifs at hst with hfits
  obtain ⟨b', hb', rfl⟩ := Option.map_eq_some_iff.mp hst
  have hadd := hs.recorded.add c.reading
  refine ⟨?_, ?_, hs.nodes_cons hfits, fun hnil => absurd hnil (List.cons_ne_nil _ _)⟩
  · cases c with
    | addTimeSCNList r =>
      cases hb'
      exact hadd
    | setTimeSCN r =>
      obtain ⟨k, hk, -⟩ := setTimeSCN_picks hs hfits
      cases hb'.symm.trans hk
      exact hadd.take k
  · cases c with
    | addTimeSCNList r =>
      cases hb'
      exact hs.minTime_eq
    | setTimeSCN r =>
      obtain ⟨k, hk, -⟩ := setTimeSCN_picks hs hfits
      cases hb'.symm.trans hk
      exact (takeTimeSCN_keeps _ k).2.2.trans hs.minTime_eq

theorem historyOk_init (minTime : Nat) : HistoryOk minTime (timeSCNCalls minTime).init where
  recorded := ⟨rfl, fun _ _ => rfl⟩
  minTime_eq := rfl
  nodes := fun _ hn => absurd hn List.not_mem_nil
  base_none := fun _ => rfl

/-- **One `setTimeSCN` that spares the base slot** takes the slot it found. -/
theorem setTimeSCN_takes (hs : HistoryOk minTime s)
    (hbase : BaseOk s.builder s.history s.clock) (hfits : r.Fits s.clock s.systemSCN)
    (hkeep : keepsBase s (.setTimeSCN r) = true) :
    ∃ k, s.builder.setTimeSCN r = some ((s.builder.addTimeSCNList r).takeTimeSCN k) ∧ IsSlot k ∧
      Picked minTime r.curTime (r.node :: s.history)
        ((s.builder.addTimeSCNList r).age k).toNat ∧
      ((s.builder.addTimeSCNList r).takeTimeSCN k).mTimeSCNListBaseIdx = k ∧
      ((s.builder.addTimeSCNList r).takeTimeSCN k).mTimeSCN =
        ((s.builder.addTimeSCNList r).mTimeSCNList k).mSCN := by
  obtain ⟨k, hk, hslot, hp⟩ := setTimeSCN_picks hs hfits
  have hadd := hs.recorded.add r
  have hpos : 0 < ((s.builder.addTimeSCNList r).mTimeSCNList k).mTime := by
    rw [hadd.slot k hslot, List.getD_eq_getElem _ _ hp.lt]
    exact (hs.nodes_cons hfits _ (List.getElem_mem hp.lt)).1
  refine ⟨k, hk, hslot, hp, ?_⟩
  unfold keepsBase at hkeep
  obtain ⟨hspare, htime⟩ := of_decide_eq_true hkeep
  by_cases hne : s.builder.mTimeSCNListBaseIdx = s.builder.nextIdx
  · -- slot 0 is the base and is written over: another one is picked
    obtain ⟨hzero, hyoung⟩ := hspare.resolve_left (not_not_intro hne)
    have hnew : (s.builder.addTimeSCNList r).mTimeSCNListLastIdx = 0 := hne.symm.trans hzero
    have hnot : ¬ r.node.Old minTime r.curTime := by
      rw [← hs.minTime_eq]
      exact of_decide_eq_true hyoung
    have hk0 : k ≠ 0 := by
      rintro rfl
      have hage : (s.builder.addTimeSCNList r).age 0 = 0 := by
        have hage := add_age_last s.builder r
        rwa [hnew] at hage
      rw [hage] at hp
      have hend := hp.oldest.resolve_left hnot
      have hcnt : timeSCNListMaxCnt.toNat = 100002 := rfl
      rw [List.length_cons] at hend
      have hnil : s.history = [] := List.length_eq_zero_iff.mp (by omega)
      have hnone := hs.base_none hnil
      omega
    have hbase0 : (s.builder.addTimeSCNList r).mTimeSCNListBaseIdx = 0 := hzero
    refine takeTimeSCN_takes (fun h => absurd (h.symm.trans hbase0) hk0) (fun _ => ?_)
    rw [oldTime_eq_zero (by omega)]
    exact hpos
  · have hkept := (hbase.resolve_left (fun h => hne h.symm)).add hs.recorded hfits hne htime
    refine takeTimeSCN_takes (fun hsame => ?_) (fun hother => ?_)
    · rcases hkept with hnone | ⟨-, hscn, -⟩
      · have hge := hslot.1
        have hnone' : (s.builder.addTimeSCNList r).mTimeSCNListBaseIdx = -1 := hnone
        omega
      · rw [hscn, hsame]
    · refine hkept.lt_picked hadd hfits.add_le hslot ?_ hpos hother
      show Picked s.builder.mVersioningMinTime _ _ _
      rw [hs.minTime_eq]
      exact hp

/-- One call that spares the base slot. -/
theorem BaseOk.step (hs : HistoryOk minTime s) (hbase : BaseOk s.builder s.history s.clock)
    (hkeep : keepsBase s c = true) (hst : (timeSCNCalls minTime).step s c = some s') :
    BaseOk s'.builder s'.history s'.clock := by
  simp only [timeSCNCalls] at hst
  split_ifs at hst with hfits
  obtain ⟨b', hb', rfl⟩ := Option.map_eq_some_iff.mp hst
  cases c with
  | addTimeSCNList r =>
    cases hb'
    unfold keepsBase at hkeep
    obtain ⟨hspare, htime⟩ := of_decide_eq_true hkeep
    have hne := hspare.resolve_right (fun h => Bool.false_ne_true h.2)
    have hkept := (hbase.resolve_left (fun h => hne h.symm)).add hs.recorded hfits hne htime
    refine .inr ?_
    rcases hkept with hnone | ⟨hslot, hscn, hzero⟩
    · exact .inl hnone
    · refine .inr ⟨hslot, hscn, hzero.imp id fun hold => ⟨?_, hold.2⟩⟩
      exact le_trans hold.1 hfits.add_le
  | setTimeSCN r =>
    replace hfits : r.Fits s.clock s.systemSCN := hfits
    obtain ⟨k, hk, hslot, hp, hidx, hscn⟩ := setTimeSCN_takes hs hbase hfits hkeep
    cases hb'.symm.trans hk
    have hadd := hs.recorded.add r
    obtain ⟨hlist, hlast, hmin⟩ := takeTimeSCN_keeps (s.builder.addTimeSCNList r) k
    have hp' : Picked (s.builder.addTimeSCNList r).mVersioningMinTime r.curTime
        (r.node :: s.history) ((s.builder.addTimeSCNList r).age k).toNat := by
      show Picked s.builder.mVersioningMinTime _ _ _
      rw [hs.minTime_eq]
      exact hp
    have hcases := hp'.baseOk hadd hslot
    show BaseOk ((s.builder.addTimeSCNList r).takeTimeSCN k) (r.node :: s.history) r.curTime
    unfold BaseOk BaseKept nextIdx age
    rw [hidx, hlist, hlast, hmin]
    rcases hcases with hzero | hnext | hsettled
    · exact .inr (.inr ⟨hslot, hscn, .inl hzero⟩)
    · exact .inl hnext
    · exact .inr (.inr ⟨hslot, hscn, .inr hsettled⟩)

theorem historyOk_of_reachable (hs : (timeSCNCalls minTime).Reachable s) : HistoryOk minTime s :=
  System.Path.invariant hs (fun _ _ _ hi _ hst => hi.step hst) (historyOk_init minTime)

theorem baseOk_of_reachableBy
    (hs : (timeSCNCalls minTime).ReachableBy (fun u c => keepsBase u c = true) s) :
    BaseOk s.builder s.history s.clock := by
  have hboth : HistoryOk minTime s ∧ BaseOk s.builder s.history s.clock := by
    refine System.Path.invariant
      (I := fun s => HistoryOk minTime s ∧ BaseOk s.builder s.history s.clock) hs ?_
      ⟨historyOk_init minTime, .inr (.inl rfl)⟩
    intro u c u' ⟨hi, hbase⟩ hkeep hst
    exact ⟨hi.step hst, hbase.step hi hkeep hst⟩
  exact hboth.2

end Run

/-- **The TIME SCN.**  In every run the search ends; and in every run that spares the
    base slot, each `setTimeSCN` leaves the SCN of the newest entry that is old
    enough, or of the oldest entry in the ring. -/
theorem timeSCN_right (minTime : Nat) {s : TimeState} {r : Reading}
    (hfits : r.Fits s.clock s.systemSCN) :
    ((timeSCNCalls minTime).Reachable s → (s.builder.setTimeSCN r).isSome = true) ∧
      ((timeSCNCalls minTime).ReachableBy (fun u c => keepsBase u c = true) s →
        keepsBase s (.setTimeSCN r) = true →
        ∃ b', s.builder.setTimeSCN r = some b' ∧
          TimeSCNRight minTime r.curTime (ringEntries (r.node :: s.history)) b'.mTimeSCN) := by
  refine ⟨fun hs => ?_, fun hs hkeep => ?_⟩
  · obtain ⟨k, hk, -⟩ := setTimeSCN_picks (historyOk_of_reachable hs) hfits
    rw [hk]
    rfl
  · have hi := historyOk_of_reachable hs.reachable
    obtain ⟨k, hk, hslot, hp, -, hscn⟩ :=
      setTimeSCN_takes hi (baseOk_of_reachableBy hs) hfits hkeep
    refine ⟨_, hk, ?_⟩
    rw [hscn, (hi.recorded.add r).slot k hslot]
    exact hp.right

/-- The third of three ticks, 100 ms apart, with 150 ms to keep: the search goes
    back to the first. -/
theorem timeSCN_right_third_tick :
    let run := [.setTimeSCN (tickAt 100000 8), .setTimeSCN (tickAt 200000 16)]
    let s := ((timeSCNCalls 150).restrict keepsBase).after run (by decide)
    (s.builder.setTimeSCN (tickAt 300000 24)).isSome = true ∧
      ∃ b', s.builder.setTimeSCN (tickAt 300000 24) = some b' ∧
        TimeSCNRight 150 301000 (ringEntries [⟨300000, 24⟩, ⟨200000, 16⟩, ⟨100000, 8⟩])
          b'.mTimeSCN := by
  intro run s
  have hpath := System.path_of_restrict (S := timeSCNCalls 150) (u := s) (p := keepsBase) run
    (Option.some_get _).symm
  have hright := timeSCN_right (r := tickAt 300000 24) 150 (s := s) (by decide)
  exact ⟨hright.1 (System.ReachableBy.reachable hpath), hright.2 hpath (by decide)⟩

/-! ## §6. A TIME SCN that stays. -/

/-- The reading of the tick `n`, one each microsecond. -/
def microTick (n : Nat) : Reading where
  addTime := n
  curTime := n
  lstSystemSCN := n
  memViewSCNs := []
  minDskViewSCN := 7

/-- What `n` ticks record. -/
def ticks : Nat → List TimeSCNNode
  | 0 => []
  | n + 1 => ⟨n + 1, n + 1⟩ :: ticks n

theorem ticks_length (n : Nat) : (ticks n).length = n := by
  induction n with
  | zero => rfl
  | succ n ih =>
    show (ticks n).length + 1 = n + 1
    rw [ih]

theorem ticks_getD (n : Nat) : ∀ c < n, (ticks n).getD c emptyNode = ⟨n - c, n - c⟩ := by
  induction n with
  | zero => exact fun c hc => absurd hc (Nat.not_lt_zero c)
  | succ n ih =>
    intro c hc
    cases c with
    | zero => rfl
    | succ c =>
      show (ticks n).getD c emptyNode = _
      rw [ih c (by omega), Nat.add_sub_add_right]

/-- After `n` ticks that none is old enough for. -/
structure Ticked (n : Nat) (s : TimeState) : Prop where
  reachable : (timeSCNCalls 100000).Reachable s
  clock : s.clock = n
  scn : s.systemSCN = n
  history : s.history = ticks n

theorem Ticked.fits {n : Nat} {s : TimeState} (hs : Ticked n s) (hn : n < 200000) :
    (microTick (n + 1)).Fits s.clock s.systemSCN := by
  have hclock := hs.clock
  have hscn := hs.scn
  constructor <;> simp only [microTick, scnInit, scnInfinite] <;> omega

/-- The next tick takes the oldest entry, which is in the slot behind the last one
    when the ring has come round. -/
theorem Ticked.next {n : Nat} {s : TimeState} (hs : Ticked n s) (hn : n < 200000) :
    ∃ k s', (timeSCNCalls 100000).step s (.setTimeSCN (microTick (n + 1))) = some s' ∧
      Ticked (n + 1) s' ∧
      s.builder.setTimeSCN (microTick (n + 1)) = some s'.builder ∧
      s'.builder = (s.builder.addTimeSCNList (microTick (n + 1))).takeTimeSCN k ∧
      k = (if n < 100002 then 0 else ((n : Int) + 1) % timeSCNListMaxCnt) ∧
      (s.builder.addTimeSCNList (microTick (n + 1))).mTimeSCNList k =
        ⟨n + 2 - min (n + 1) 100002, n + 2 - min (n + 1) 100002⟩ := by
  have hi := historyOk_of_reachable hs.reachable
  have hfits := hs.fits hn
  have hadd := hi.recorded.add (microTick (n + 1))
  obtain ⟨k, hk, hslot, hp⟩ := setTimeSCN_picks hi hfits
  have hhist : (microTick (n + 1)).node :: s.history = ticks (n + 1) := by
    rw [hs.history]
    rfl
  have hstep : (timeSCNCalls 100000).step s (.setTimeSCN (microTick (n + 1))) =
      some ⟨(s.builder.addTimeSCNList (microTick (n + 1))).takeTimeSCN k, n + 1, n + 1,
        ticks (n + 1)⟩ := by
    simp only [timeSCNCalls]
    rw [if_pos (show (TimeCall.setTimeSCN (microTick (n + 1))).reading.Fits s.clock s.systemSCN
      from hfits)]
    show Option.map _ (s.builder.setTimeSCN _) = _
    rw [hk, ← hhist]
    rfl
  rw [hhist] at hp hadd
  have hlen := ticks_length (n + 1)
  have hlt := hp.lt
  rw [hlen] at hlt
  have hget := ticks_getD (n + 1) _ hlt
  -- a tick is never 100 s old
  have hnot : ¬ ((ticks (n + 1)).getD ((s.builder.addTimeSCNList (microTick (n + 1))).age k).toNat
      emptyNode).Old 100000 (microTick (n + 1)).curTime := by
    rw [hget]
    show ¬ (n + 1 - _ + 100000 * 1000 ≤ n + 1)
    omega
  have hend := hp.oldest.resolve_left hnot
  have hcnt : timeSCNListMaxCnt.toNat = 100002 := rfl
  rw [hlen, hcnt] at hend
  have hlast := hadd.last
  rw [if_neg (show ticks (n + 1) ≠ [] from List.cons_ne_nil _ _), hlen] at hlast
  have hrange := age_nonneg (s.builder.addTimeSCNList (microTick (n + 1))) k
  refine ⟨k, _, hstep, ⟨.tail hs.reachable trivial hstep, rfl, rfl, rfl⟩, hk, rfl, ?_, ?_⟩
  · simp only [age, IsSlot, timeSCNListMaxCnt] at *
    split_ifs <;> omega
  · rw [hadd.slot k hslot, hget]
    have heq : n + 1 - ((s.builder.addTimeSCNList (microTick (n + 1))).age k).toNat =
        n + 2 - min (n + 1) 100002 := by omega
    rw [heq]

/-- Up to the end of the ring the first entry is taken. -/
theorem ticked_first (n : Nat) (hn : n < 100002) :
    ∃ s, Ticked (n + 1) s ∧ s.builder.mTimeSCNListBaseIdx = 0 ∧ s.builder.mTimeSCN = 1 := by
  induction n with
  | zero =>
    have hs : Ticked 0 (timeSCNCalls 100000).init := ⟨.refl, rfl, rfl, rfl⟩
    obtain ⟨k, s', -, hs', -, hb, hk, hnode⟩ := hs.next (by decide)
    rw [if_pos (by decide)] at hk
    subst hk
    refine ⟨s', hs', ?_⟩
    have htake := takeTimeSCN_of_lt
      (b := (timeSCNCalls 100000).init.builder.addTimeSCNList (microTick 1)) (k := 0) (by decide)
      (by rw [hnode]; decide)
    rw [hb, htake]
    exact ⟨rfl, congrArg TimeSCNNode.mSCN hnode⟩
  | succ n ih =>
    obtain ⟨s, hs, hbase, htime⟩ := ih (by omega)
    obtain ⟨k, s', -, hs', -, hb, hk, -⟩ := hs.next (by omega)
    rw [if_pos (by omega)] at hk
    refine ⟨s', hs', ?_⟩
    have hsame : s'.builder = s.builder.addTimeSCNList (microTick (n + 1 + 1)) := by
      rw [hb, takeTimeSCN, if_neg (fun h => h.1 (hbase.trans hk.symm))]
    rw [hsame]
    exact ⟨hbase, htime⟩

/-- The tick that comes round takes the second entry. -/
theorem ticked_second :
    ∃ s, Ticked 100003 s ∧ s.builder.mTimeSCNListBaseIdx = 1 ∧ s.builder.mTimeSCN = 2 := by
  obtain ⟨s, hs, hbase, -⟩ := ticked_first 100001 (by decide)
  obtain ⟨k, s', -, hs', -, hb, hk, hnode⟩ := hs.next (by decide)
  have hk1 : k = 1 := hk
  subst hk1
  have hold : (s.builder.addTimeSCNList (microTick 100003)).oldTime = 0 := oldTime_eq_zero (by
    show s.builder.mTimeSCNListBaseIdx ≤ 0
    omega)
  have htake := takeTimeSCN_of_lt (b := s.builder.addTimeSCNList (microTick 100003)) (k := 1)
    (by show s.builder.mTimeSCNListBaseIdx ≠ 1; omega) (by rw [hold, hnode]; decide)
  refine ⟨s', hs', ?_⟩
  rw [hb, htake]
  exact ⟨rfl, congrArg TimeSCNNode.mSCN hnode⟩

/-- **The TIME SCN stays behind the ring.**  The tick after that is written over the
    base slot: its own time is compared, and the SCN of the entry it replaces stays. -/
theorem timeSCN_stuck :
    ¬ ∀ (minTime : Nat) (s : TimeState) (r : Reading), (timeSCNCalls minTime).Reachable s →
      r.Fits s.clock s.systemSCN →
      ∃ b', s.builder.setTimeSCN r = some b' ∧
        TimeSCNRight minTime r.curTime (ringEntries (r.node :: s.history)) b'.mTimeSCN := by
  intro hclaim
  obtain ⟨s, hs, hbase, htime⟩ := ticked_second
  obtain ⟨k, s', -, -, hset, hb, hk, hnode⟩ := hs.next (by decide)
  have hk2 : k = 2 := hk
  subst hk2
  -- the time of the base slot is the one that was written now
  have hlast : (s.builder.addTimeSCNList (microTick 100004)).mTimeSCNListLastIdx = 1 := by
    have hadd := ((historyOk_of_reachable hs.reachable).recorded.add (microTick 100004)).last
    rw [if_neg (List.cons_ne_nil _ _), List.length_cons, hs.history, ticks_length] at hadd
    exact hadd
  have hnew := add_list_last s.builder (microTick 100004)
  rw [hlast] at hnew
  have hold : (s.builder.addTimeSCNList (microTick 100004)).oldTime = 100004 := by
    have hbase' : (s.builder.addTimeSCNList (microTick 100004)).mTimeSCNListBaseIdx = 1 := hbase
    rw [oldTime, hbase', if_pos (by decide), hnew]
    rfl
  have hstay : s'.builder.mTimeSCN = 2 := by
    rw [hb, takeTimeSCN, if_neg]
    · exact htime
    · rintro ⟨-, hlt⟩
      rw [hold, hnode] at hlt
      exact absurd hlt (by decide)
  obtain ⟨b', hb', hright⟩ := hclaim 100000 s (microTick 100004) hs.reachable (hs.fits (by decide))
  rw [hset] at hb'
  cases hb'
  rw [hstay, hs.history] at hright
  -- no entry in the ring has that SCN
  obtain ⟨newer, n, older, hsplit, -, -, hscn⟩ := hright
  have hmem : n ∈ (ticks 100004).take 100002 := by
    show n ∈ ringEntries ((microTick 100004).node :: ticks 100003)
    rw [hsplit]
    simp
  obtain ⟨c, hc, rfl⟩ := List.mem_iff_getElem.mp hmem
  rw [List.length_take, ticks_length] at hc
  have hget := ticks_getD 100004 c (by omega)
  rw [List.getD_eq_getElem _ _ (by rw [ticks_length]; omega)] at hget
  rw [List.getElem_take, hget] at hscn
  dsimp only at hscn
  omega

end Altibase.Smx
