/-
  Altibase.Smx.MinSCNBuild
  ────────────────────────
  **THE SCNs OF A CONSISTENT READ.**

  Every tick `smxMinSCNBuild` notes the time and the system SCN in a ring of
  fixed size, looks up the SCN that was current `VERSIONING_MIN_TIME` ago, and
  from it sets in this order `mTimeSCN`, the SCN from which on reads are
  admitted (`mAccessSCN`), and the two SCNs up to which old versions may go.

  A slot has an age, its distance from the last one written.  Younger slots have
  later times and larger SCNs, so the lookup is monotone as long as the time of
  the slot it took last is compared.  That test leaves out slot 0.

  Main results:
    * `searchTimeSCN_spec` — the backward search ends, and what it finds;
    * `setGlobalConsistentSCN_spec` — one rebuild;
    * `consistentSCNs` — the SCNs over every run;
    * `timeSCN_decreases` — a run in which `mTimeSCN` goes back.
-/
import Mathlib.Data.Nat.Bitwise
import Mathlib.Logic.Function.Basic
import Altibase.Lib.System

namespace Altibase.Smx

open Altibase.Lib

/-! ## §1. SCNs and the builder's state. -/

/-- `SM_SCN_INIT`. -/
def scnInit : Nat := 0

/-- `SM_SCN_INFINITE`; every value from here on is infinite. -/
def scnInfinite : Nat := 2 ^ 63

/-- `SM_SET_SCN_VIEW_BIT`: the lowest three bits. -/
def setScnViewBit (scn : Nat) : Nat := scn ||| 7

/-- `SM_CLEAR_SCN_VIEW_BIT`. -/
def clearScnViewBit (scn : Nat) : Nat := (scn >>> 3) <<< 3

/-- `mTimeSCNListMaxCnt`. -/
def timeSCNListMaxCnt : Int := 1000 * 100 + 2

/-- `smxTimeSCNNode`; times are in microseconds. -/
structure TimeSCNNode where
  mTime : Nat
  mSCN : Nat
  deriving Repr, DecidableEq

/-- `smxMinSCNBuild`.  The ring is the function on the indices from 0 to below
    `timeSCNListMaxCnt`; the last and the base index are -1 while it is clear. -/
structure MinSCNBuild where
  mVersioningMinTime : Nat
  mTimeSCNList : Int → TimeSCNNode
  mTimeSCNListLastIdx : Int
  mTimeSCNListBaseIdx : Int
  mTimeSCN : Nat
  mAccessSCN : Nat
  mAgingMemViewSCN : Nat
  mAgingDskViewSCN : Nat
  mSysMinDskViewSCN : Nat

/-- What one rebuild reads: the clock when the slot is written and when the search
    starts, the system SCN, the view SCNs of the active transactions, and the
    minimum disk view SCN it gets afterwards. -/
structure Reading where
  addTime : Nat
  curTime : Nat
  lstSystemSCN : Nat
  memViewSCNs : List Nat
  minDskViewSCN : Nat

/-! ## §2. The functions. -/

/-- `clearTimeSCNList`. -/
def MinSCNBuild.clearTimeSCNList (b : MinSCNBuild) : MinSCNBuild :=
  { b with
    mTimeSCNList := fun _ => ⟨0, scnInit⟩
    mTimeSCNListLastIdx := -1
    mTimeSCNListBaseIdx := -1 }

/-- `addTimeSCNList`. -/
def MinSCNBuild.addTimeSCNList (b : MinSCNBuild) (r : Reading) : MinSCNBuild :=
  let sLastIdx := (b.mTimeSCNListLastIdx + 1) % timeSCNListMaxCnt
  { b with
    mTimeSCNList := Function.update b.mTimeSCNList sLastIdx ⟨r.addTime, r.lstSystemSCN⟩
    mTimeSCNListLastIdx := sLastIdx }

/-- The index before `sIdx` in the ring. -/
def prevIdx (sIdx : Int) : Int :=
  if sIdx = 0 then timeSCNListMaxCnt - 1 else sIdx - 1

/-- The time of the slot is `VERSIONING_MIN_TIME` milliseconds ago. -/
def MinSCNBuild.oldEnough (b : MinSCNBuild) (sCurTime : Nat) (sIdx : Int) : Bool :=
  (b.mTimeSCNList sIdx).mTime + b.mVersioningMinTime * 1000 ≤ sCurTime

/-- The loop of `setTimeSCN`: back from the last slot, to one that is old enough;
    else the oldest one there is.  `none` when the fuel does not suffice. -/
def MinSCNBuild.searchTimeSCN (b : MinSCNBuild) (sCurTime : Nat) : Nat → Int → Option Int
  | 0, _ => none
  | fuel + 1, sIdx =>
      if (b.mTimeSCNList sIdx).mSCN = scnInit then
        some ((sIdx + 1) % timeSCNListMaxCnt)
      else if b.oldEnough sCurTime sIdx then
        some sIdx
      else if prevIdx sIdx = b.mTimeSCNListLastIdx then
        some ((prevIdx sIdx + 1) % timeSCNListMaxCnt)
      else
        b.searchTimeSCN sCurTime fuel (prevIdx sIdx)

/-- `sOldTime`, the time of the slot that was taken last. -/
def MinSCNBuild.oldTime (b : MinSCNBuild) : Nat :=
  if b.mTimeSCNListBaseIdx > 0 then (b.mTimeSCNList b.mTimeSCNListBaseIdx).mTime else 0

/-- The end of `setTimeSCN`, with the index that was found. -/
def MinSCNBuild.takeTimeSCN (b : MinSCNBuild) (sIdx : Int) : MinSCNBuild :=
  if b.mTimeSCNListBaseIdx ≠ sIdx ∧ b.oldTime < (b.mTimeSCNList sIdx).mTime then
    { b with mTimeSCN := (b.mTimeSCNList sIdx).mSCN, mTimeSCNListBaseIdx := sIdx }
  else b

/-- `setTimeSCN`. -/
def MinSCNBuild.setTimeSCN (b : MinSCNBuild) (r : Reading) : Option MinSCNBuild :=
  let b := b.addTimeSCNList r
  (b.searchTimeSCN r.curTime timeSCNListMaxCnt.toNat b.mTimeSCNListLastIdx).map b.takeTimeSCN

/-- The new value of an SCN that only grows; infinite means that it is not set. -/
def growSCN (old new : Nat) : Nat :=
  if scnInfinite ≤ old ∨ old < new then new else old

/-- `setAccessSCN`. -/
def MinSCNBuild.setAccessSCN (b : MinSCNBuild) : MinSCNBuild :=
  { b with mAccessSCN := growSCN b.mAccessSCN b.mTimeSCN }

/-- `smxTransMgr::getMinMemViewSCNofAll`, starting from the TIME SCN. -/
def getMinMemViewSCNofAll (timeSCN : Nat) (memViewSCNs : List Nat) : Nat :=
  memViewSCNs.foldl (fun sMinSCN sCurSCN => if sCurSCN ≤ sMinSCN then sCurSCN else sMinSCN)
    (setScnViewBit timeSCN)

/-- `setAgingMemViewSCN`. -/
def MinSCNBuild.setAgingMemViewSCN (b : MinSCNBuild) (r : Reading) : MinSCNBuild :=
  { b with mAgingMemViewSCN :=
      growSCN b.mAgingMemViewSCN (getMinMemViewSCNofAll b.mTimeSCN r.memViewSCNs) }

/-- `setAgingDskViewSCN`, with the minimum disk view SCN of the last rebuild. -/
def MinSCNBuild.setAgingDskViewSCN (b : MinSCNBuild) : MinSCNBuild :=
  let sTimeSCN := setScnViewBit b.mTimeSCN
  let sNewAgingDskViewSCN :=
    if sTimeSCN < b.mSysMinDskViewSCN then sTimeSCN else b.mSysMinDskViewSCN
  { b with mAgingDskViewSCN := growSCN b.mAgingDskViewSCN sNewAgingDskViewSCN }

/-- `setGlobalConsistentSCN`. -/
def MinSCNBuild.setGlobalConsistentSCN (b : MinSCNBuild) (r : Reading) : Option MinSCNBuild :=
  (b.setTimeSCN r).map fun b => ((b.setAccessSCN).setAgingMemViewSCN r).setAgingDskViewSCN

/-- The feature is switched off: the SCNs are infinite. -/
def MinSCNBuild.switchOff (b : MinSCNBuild) : MinSCNBuild :=
  { b with
    mTimeSCN := scnInfinite
    mAccessSCN := scnInfinite
    mAgingMemViewSCN := scnInfinite
    mAgingDskViewSCN := scnInfinite }

/-! ## §3. The runs. -/

/-- The builder, with the last clock time and system SCN that were read. -/
structure State where
  shardEnable : Bool
  builder : MinSCNBuild
  clock : Nat
  systemSCN : Nat

/-- What happens to the builder.  `rebuild` is a tick of `run` and also
    `resumeAndWait`. -/
inductive Op
  | startThread (r : Reading)
  | rebuild (r : Reading)
  | resetVersioningMinTime (newTime : Nat) (r : Reading)
  | setGlobalConsistentSCNAsSystemSCN (r : Reading)

/-- What the operation reads of the clock and the system SCN. -/
def Op.reading : Op → Reading
  | .startThread r => r
  | .rebuild r => r
  | .resetVersioningMinTime _ r => r
  | .setGlobalConsistentSCNAsSystemSCN r => r

/-- `isActiveVersioningMinTime`. -/
def State.isActive (s : State) : Bool :=
  s.shardEnable ∧ 0 < s.builder.mVersioningMinTime

/-- The clock and the system SCN did not decrease since they were read last, and
    the SCN is a valid one. -/
structure Reading.Fits (r : Reading) (clock systemSCN : Nat) : Prop where
  pos : 0 < r.addTime
  clock_le : clock ≤ r.addTime
  add_le : r.addTime ≤ r.curTime
  scn_pos : scnInit < r.lstSystemSCN
  scn_le : systemSCN ≤ r.lstSystemSCN
  scn_lt : r.lstSystemSCN < scnInfinite

instance (r : Reading) (clock systemSCN : Nat) : Decidable (r.Fits clock systemSCN) :=
  decidable_of_iff (0 < r.addTime ∧ clock ≤ r.addTime ∧ r.addTime ≤ r.curTime ∧
      scnInit < r.lstSystemSCN ∧ systemSCN ≤ r.lstSystemSCN ∧ r.lstSystemSCN < scnInfinite)
    ⟨fun h => ⟨h.1, h.2.1, h.2.2.1, h.2.2.2.1, h.2.2.2.2.1, h.2.2.2.2.2⟩,
      fun h => ⟨h.1, h.2, h.3, h.4, h.5, h.6⟩⟩

/-- `resetVersioningMinTime`, on the builder. -/
def MinSCNBuild.resetVersioningMinTime (b : MinSCNBuild) (newTime : Nat) (r : Reading) :
    Option MinSCNBuild :=
  if b.mVersioningMinTime = 0 ∧ 0 < newTime then
    (b.clearTimeSCNList.setGlobalConsistentSCN r).map
      ({ · with mVersioningMinTime := newTime })
  else if 0 < b.mVersioningMinTime ∧ newTime = 0 then
    some { b.switchOff with mVersioningMinTime := newTime }
  else
    some { b with mVersioningMinTime := newTime }

/-- The builder after an operation. -/
def State.perform (s : State) : Op → Option MinSCNBuild
  | .startThread r =>
      if s.isActive then s.builder.setGlobalConsistentSCN r else some s.builder
  | .rebuild r =>
      (if s.isActive then s.builder.setGlobalConsistentSCN r else some s.builder).map
        ({ · with mSysMinDskViewSCN := r.minDskViewSCN })
  | .resetVersioningMinTime newTime r =>
      if s.shardEnable then s.builder.resetVersioningMinTime newTime r else some s.builder
  | .setGlobalConsistentSCNAsSystemSCN r =>
      if s.isActive then s.builder.clearTimeSCNList.setGlobalConsistentSCN r
      else some s.builder

/-- The builder from `initialize` on, for given properties. -/
def minSCNBuilder (shardEnable : Bool) (versioningMinTime : Nat) : System State Op where
  init :=
    { shardEnable := shardEnable
      builder :=
        { mVersioningMinTime := versioningMinTime
          mTimeSCNList := fun _ => ⟨0, scnInit⟩
          mTimeSCNListLastIdx := -1
          mTimeSCNListBaseIdx := -1
          mTimeSCN := scnInfinite
          mAccessSCN := scnInfinite
          mAgingMemViewSCN := scnInfinite
          mAgingDskViewSCN := scnInfinite
          mSysMinDskViewSCN := scnInit }
      clock := 0
      systemSCN := 0 }
  step s op :=
    if op.reading.Fits s.clock s.systemSCN then
      (s.perform op).map fun b =>
        { s with builder := b, clock := op.reading.curTime,
                 systemSCN := op.reading.lstSystemSCN }
    else none

/-- The operation leaves the feature active. -/
def keepsActive (s : State) : Op → Bool
  | .resetVersioningMinTime newTime _ => s.isActive ∧ 0 < newTime
  | _ => s.isActive

/-- The operation does not clear the TIME-SCN list. -/
def keepsList (s : State) : Op → Bool
  | .resetVersioningMinTime newTime _ => ¬(s.builder.mVersioningMinTime = 0 ∧ 0 < newTime)
  | .setGlobalConsistentSCNAsSystemSCN _ => false
  | _ => true

/-- The operation searches the TIME-SCN list as it is. -/
def Op.searchesList : Op → Bool
  | .startThread _ | .rebuild _ => true
  | .resetVersioningMinTime _ _ | .setGlobalConsistentSCNAsSystemSCN _ => false

/-- **The search does not pass slot 0 while that is the base**: the ring has not
    come round, or comes round to it now, or its time is old enough. -/
def baseZeroFound (s : State) (op : Op) : Bool :=
  op.searchesList = false ∨ s.builder.mTimeSCNListBaseIdx ≠ 0 ∨
    (s.builder.mTimeSCNList (timeSCNListMaxCnt - 1)).mSCN = scnInit ∨
    s.builder.mTimeSCNListLastIdx = timeSCNListMaxCnt - 1 ∨
    s.builder.oldEnough op.reading.curTime 0

/-- An SCN that is set stays set and does not decrease. -/
def NeverDecreases (before after : Nat) : Prop :=
  before < scnInfinite → before ≤ after ∧ after < scnInfinite

/-! ## §4. The ring. -/

/-- An index of the ring. -/
def IsSlot (i : Int) : Prop := 0 ≤ i ∧ i < timeSCNListMaxCnt

namespace MinSCNBuild

/-- How many slots were written after this one. -/
def age (b : MinSCNBuild) (i : Int) : Int :=
  (b.mTimeSCNListLastIdx - i) % timeSCNListMaxCnt

/-- The slot has been written since the list was cleared. -/
def Filled (b : MinSCNBuild) (i : Int) : Prop :=
  IsSlot i ∧ (b.mTimeSCNList i).mSCN ≠ scnInit

/-- **The ring is in order**: a slot younger than a filled one is filled, with a
    time and an SCN that are not smaller; nothing is from the future. -/
structure RingInOrder (b : MinSCNBuild) (clock systemSCN : Nat) : Prop where
  last : -1 ≤ b.mTimeSCNListLastIdx ∧ b.mTimeSCNListLastIdx < timeSCNListMaxCnt
  order : ∀ i j, IsSlot i → b.Filled j → b.age i ≤ b.age j →
    b.Filled i ∧ (b.mTimeSCNList j).mTime ≤ (b.mTimeSCNList i).mTime ∧
      (b.mTimeSCNList j).mSCN ≤ (b.mTimeSCNList i).mSCN
  past : ∀ j, b.Filled j → 0 < (b.mTimeSCNList j).mTime ∧ (b.mTimeSCNList j).mTime ≤ clock ∧
    (b.mTimeSCNList j).mSCN ≤ systemSCN ∧ (b.mTimeSCNList j).mSCN < scnInfinite
  empty : ∀ j, b.Filled j → 0 ≤ b.mTimeSCNListLastIdx

end MinSCNBuild

open MinSCNBuild

theorem ringInOrder_clear (b : MinSCNBuild) (clock systemSCN : Nat) :
    RingInOrder b.clearTimeSCNList clock systemSCN where
  last := by simp [clearTimeSCNList, timeSCNListMaxCnt]
  order := fun _ _ _ hj => absurd rfl hj.2
  past := fun _ hj => absurd rfl hj.2
  empty := fun _ hj => absurd rfl hj.2

theorem MinSCNBuild.RingInOrder.later {b : MinSCNBuild} {clock systemSCN clock' systemSCN' : Nat}
    (hb : RingInOrder b clock systemSCN) (hc : clock ≤ clock') (hs : systemSCN ≤ systemSCN') :
    RingInOrder b clock' systemSCN' where
  last := hb.last
  order := hb.order
  past := by
    intro j hj
    obtain ⟨h0, h1, h2, h3⟩ := hb.past j hj
    exact ⟨h0, h1.trans hc, h2.trans hs, h3⟩
  empty := hb.empty

/-- Only the slots that are filled and the last index count. -/
theorem MinSCNBuild.RingInOrder.congr {b b' : MinSCNBuild} {clock systemSCN : Nat}
    (hb : RingInOrder b clock systemSCN) (hl : b'.mTimeSCNList = b.mTimeSCNList)
    (hi : b'.mTimeSCNListLastIdx = b.mTimeSCNListLastIdx) :
    RingInOrder b' clock systemSCN := by
  have hage : ∀ i, b'.age i = b.age i := fun i => by rw [age, age, hi]
  have hfill : ∀ i, b'.Filled i ↔ b.Filled i := fun i => by rw [Filled, Filled, hl]
  refine ⟨by rw [hi]; exact hb.last, ?_, ?_, ?_⟩
  · intro i j his hj hle
    rw [hage, hage] at hle
    rw [hfill, hl]
    exact hb.order i j his ((hfill j).mp hj) hle
  · intro j hj
    rw [hl]
    exact hb.past j ((hfill j).mp hj)
  · intro j hj
    rw [hi]
    exact hb.empty j ((hfill j).mp hj)

section Add

variable {b : MinSCNBuild} {r : Reading}

theorem add_last (b : MinSCNBuild) (r : Reading) :
    (b.addTimeSCNList r).mTimeSCNListLastIdx
      = (b.mTimeSCNListLastIdx + 1) % timeSCNListMaxCnt := rfl

theorem isSlot_add_last (b : MinSCNBuild) (r : Reading) :
    IsSlot (b.addTimeSCNList r).mTimeSCNListLastIdx := by
  rw [add_last]
  simp only [IsSlot, timeSCNListMaxCnt]
  omega

theorem add_list_last (b : MinSCNBuild) (r : Reading) :
    (b.addTimeSCNList r).mTimeSCNList (b.addTimeSCNList r).mTimeSCNListLastIdx
      = ⟨r.addTime, r.lstSystemSCN⟩ := by
  rw [add_last]
  exact Function.update_self ..

theorem add_list_of_ne {i : Int} (hi : i ≠ (b.addTimeSCNList r).mTimeSCNListLastIdx) :
    (b.addTimeSCNList r).mTimeSCNList i = b.mTimeSCNList i :=
  Function.update_of_ne hi ..

theorem add_filled_last (b : MinSCNBuild) (hscn : scnInit < r.lstSystemSCN) :
    (b.addTimeSCNList r).Filled (b.addTimeSCNList r).mTimeSCNListLastIdx := by
  refine ⟨isSlot_add_last b r, ?_⟩
  rw [add_list_last]
  exact Nat.ne_of_gt hscn

theorem add_filled_of_ne {i : Int} (hi : i ≠ (b.addTimeSCNList r).mTimeSCNListLastIdx) :
    (b.addTimeSCNList r).Filled i ↔ b.Filled i := by
  rw [Filled, Filled, add_list_of_ne hi]

/-- The other slots get one step older. -/
theorem add_age_of_ne {i : Int} (his : IsSlot i)
    (hlast : 0 ≤ b.mTimeSCNListLastIdx ∧ b.mTimeSCNListLastIdx < timeSCNListMaxCnt)
    (hi : i ≠ (b.addTimeSCNList r).mTimeSCNListLastIdx) :
    (b.addTimeSCNList r).age i = b.age i + 1 := by
  obtain ⟨hlo, hhi⟩ := hlast
  rw [add_last] at hi
  rw [age, age, add_last]
  simp only [IsSlot, timeSCNListMaxCnt] at *
  omega

theorem add_age_last (b : MinSCNBuild) (r : Reading) :
    (b.addTimeSCNList r).age (b.addTimeSCNList r).mTimeSCNListLastIdx = 0 := by
  rw [age, Int.sub_self]
  rfl

theorem age_nonneg (b : MinSCNBuild) (i : Int) : 0 ≤ b.age i := by
  simp only [age, timeSCNListMaxCnt]
  omega

theorem add_age_pos {i : Int} (his : IsSlot i)
    (hi : i ≠ (b.addTimeSCNList r).mTimeSCNListLastIdx) : 0 < (b.addTimeSCNList r).age i := by
  have hslot := isSlot_add_last b r
  rw [age]
  simp only [IsSlot, timeSCNListMaxCnt] at *
  omega

/-- A new reading keeps the ring in order. -/
theorem ringInOrder_add {clock systemSCN : Nat} (hb : RingInOrder b clock systemSCN)
    (hr : r.Fits clock systemSCN) :
    RingInOrder (b.addTimeSCNList r) r.addTime r.lstSystemSCN where
  last := by
    have := isSlot_add_last b r
    exact ⟨by have := this.1; omega, this.2⟩
  order := by
    intro i j his hj hle
    -- the new slot is the youngest
    by_cases hi : i = (b.addTimeSCNList r).mTimeSCNListLastIdx
    · subst hi
      refine ⟨add_filled_last b hr.scn_pos, ?_⟩
      rw [add_list_last]
      by_cases hjl : j = (b.addTimeSCNList r).mTimeSCNListLastIdx
      · subst hjl
        rw [add_list_last]
        exact ⟨Nat.le_refl _, Nat.le_refl _⟩
      · rw [add_list_of_ne hjl]
        obtain ⟨-, h1, h2, -⟩ := hb.past j ((add_filled_of_ne hjl).mp hj)
        exact ⟨h1.trans hr.clock_le, h2.trans hr.scn_le⟩
    · -- the others are one step older than before
      have hage := add_age_pos (r := r) his hi
      have hjl : j ≠ (b.addTimeSCNList r).mTimeSCNListLastIdx := by
        intro hjl
        rw [hjl, add_age_last] at hle
        omega
      have hjb := (add_filled_of_ne hjl).mp hj
      have hlast := hb.empty j hjb
      rw [add_age_of_ne his ⟨hlast, hb.last.2⟩ hi, add_age_of_ne hj.1 ⟨hlast, hb.last.2⟩ hjl] at hle
      rw [add_filled_of_ne hi, add_list_of_ne hi, add_list_of_ne hjl]
      exact hb.order i j his hjb (by omega)
  past := by
    intro j hj
    by_cases hjl : j = (b.addTimeSCNList r).mTimeSCNListLastIdx
    · subst hjl
      rw [add_list_last]
      exact ⟨hr.pos, Nat.le_refl _, Nat.le_refl _, hr.scn_lt⟩
    · rw [add_list_of_ne hjl]
      obtain ⟨h0, h1, h2, h3⟩ := hb.past j ((add_filled_of_ne hjl).mp hj)
      exact ⟨h0, h1.trans hr.clock_le, h2.trans hr.scn_le, h3⟩
  empty := fun _ _ => (isSlot_add_last b r).1

end Add

/-! ## §5. The search. -/

/-- **The search ends with a filled slot**, and no slot that is old enough is
    younger.  The invariant: all slots younger than the one it looks at are filled
    and not old enough. -/
theorem searchTimeSCN_spec {b : MinSCNBuild} (sCurTime : Nat)
    (hlast : b.Filled b.mTimeSCNListLastIdx) (fuel : Nat) :
    ∀ i, IsSlot i → (fuel : Int) + b.age i = timeSCNListMaxCnt →
      (∀ j, IsSlot j → b.age j < b.age i →
        b.Filled j ∧ b.oldEnough sCurTime j = false) →
      ∃ k, b.searchTimeSCN sCurTime fuel i = some k ∧ b.Filled k ∧
        ∀ j, b.Filled j → b.oldEnough sCurTime j = true → b.age k ≤ b.age j := by
  induction fuel with
  | zero =>
    intro i hi hfuel _
    simp only [age, timeSCNListMaxCnt] at hfuel
    omega
  | succ fuel ih =>
    intro i hi hfuel hyounger
    have hslot := hlast.1
    -- the index one step younger, where the search was before
    have hnext : ∀ j, IsSlot j → 0 < b.age j → IsSlot ((j + 1) % timeSCNListMaxCnt) ∧
        b.age ((j + 1) % timeSCNListMaxCnt) = b.age j - 1 := by
      intro j hj hage
      simp only [age, IsSlot, timeSCNListMaxCnt] at *
      omega
    rw [searchTimeSCN]
    split_ifs with hinit hold hround
    · -- an empty slot: take the one before
      have hage : 0 < b.age i := by
        have hne : i ≠ b.mTimeSCNListLastIdx := by
          rintro rfl
          exact hlast.2 hinit
        simp only [age, IsSlot, timeSCNListMaxCnt] at *
        omega
      obtain ⟨hslot', hage'⟩ := hnext i hi hage
      refine ⟨_, rfl, (hyounger _ hslot' (by omega)).1, ?_⟩
      intro j hj hjold
      by_contra hlt
      have := (hyounger j hj.1 (by omega)).2
      rw [hjold] at this
      cases this
    · refine ⟨i, rfl, ⟨hi, hinit⟩, ?_⟩
      intro j hj hjold
      by_contra hlt
      have := (hyounger j hj.1 (by omega)).2
      rw [hjold] at this
      cases this
    · -- all slots were looked at: take the oldest one
      have hback : (prevIdx i + 1) % timeSCNListMaxCnt = i := by
        simp only [prevIdx, IsSlot, timeSCNListMaxCnt] at *
        split_ifs <;> omega
      have hall : ∀ j, IsSlot j → j ≠ i → b.age j < b.age i := by
        intro j hj hne
        simp only [prevIdx, age, IsSlot, timeSCNListMaxCnt] at *
        split_ifs at hround <;> omega
      rw [hback]
      refine ⟨i, rfl, ⟨hi, hinit⟩, ?_⟩
      intro j hj hjold
      by_cases hji : j = i
      · exact hji ▸ Int.le_refl _
      · have := (hyounger j hj.1 (hall j hj.1 hji)).2
        rw [hjold] at this
        cases this
    · have hprev : IsSlot (prevIdx i) ∧ b.age (prevIdx i) = b.age i + 1 := by
        simp only [prevIdx, age, IsSlot, timeSCNListMaxCnt] at *
        split_ifs at hround ⊢ <;> omega
      apply ih (prevIdx i) hprev.1 (by rw [hprev.2]; push_cast at hfuel; omega)
      intro j hj hlt
      by_cases hji : j = i
      · rw [hji]
        exact ⟨⟨hi, hinit⟩, by simpa using hold⟩
      · apply hyounger j hj
        simp only [age, IsSlot, timeSCNListMaxCnt] at *
        omega

/-! ## §6. One rebuild. -/

namespace MinSCNBuild

/-- The slot the TIME SCN was taken from is filled; its SCN is not below the TIME
    SCN (above it, when the slot was written again). -/
def BaseFilled (b : MinSCNBuild) : Prop :=
  b.Filled b.mTimeSCNListBaseIdx ∧ b.mTimeSCN ≤ (b.mTimeSCNList b.mTimeSCNListBaseIdx).mSCN

/-- The access SCN and the aging SCNs are set, and these do not exceed it. -/
structure AgingBelow (b : MinSCNBuild) : Prop where
  access_lt : b.mAccessSCN < scnInfinite
  mem_lt : b.mAgingMemViewSCN < scnInfinite
  mem_le : clearScnViewBit b.mAgingMemViewSCN ≤ clearScnViewBit b.mAccessSCN
  dsk_lt : b.mAgingDskViewSCN < scnInfinite
  dsk_le : clearScnViewBit b.mAgingDskViewSCN ≤ clearScnViewBit b.mAccessSCN

/-- All SCNs are set. -/
structure Valued (b : MinSCNBuild) : Prop extends AgingBelow b where
  time_lt : b.mTimeSCN < scnInfinite
  time_le : b.mTimeSCN ≤ b.mAccessSCN

/-- No SCN is set. -/
structure Unset (b : MinSCNBuild) : Prop where
  time_eq : b.mTimeSCN = scnInfinite
  access_eq : b.mAccessSCN = scnInfinite
  mem_eq : b.mAgingMemViewSCN = scnInfinite
  dsk_eq : b.mAgingDskViewSCN = scnInfinite

end MinSCNBuild

theorem clearScnViewBit_mono {a b : Nat} (h : a ≤ b) : clearScnViewBit a ≤ clearScnViewBit b := by
  simp only [clearScnViewBit, Nat.shiftRight_eq_div_pow, Nat.shiftLeft_eq]
  omega

/-- The view bit does not count. -/
theorem clearScnViewBit_setScnViewBit (a : Nat) :
    clearScnViewBit (setScnViewBit a) = clearScnViewBit a := by
  simp [clearScnViewBit, setScnViewBit, Nat.shiftRight_or_distrib]

theorem setScnViewBit_lt {a : Nat} (h : a < scnInfinite) : setScnViewBit a < scnInfinite :=
  Nat.or_lt_two_pow h (by decide)

theorem getMinMemViewSCNofAll_le (timeSCN : Nat) (memViewSCNs : List Nat) :
    getMinMemViewSCNofAll timeSCN memViewSCNs ≤ setScnViewBit timeSCN := by
  have hfold : ∀ (l : List Nat) (m : Nat),
      l.foldl (fun sMinSCN sCurSCN => if sCurSCN ≤ sMinSCN then sCurSCN else sMinSCN) m ≤ m := by
    intro l
    induction l with
    | nil => exact fun m => Nat.le_refl m
    | cons c l ih =>
      intro m
      rw [List.foldl_cons]
      refine (ih _).trans ?_
      split_ifs with h
      · exact h
      · exact Nat.le_refl m
  exact hfold memViewSCNs _

theorem growSCN_neverDecreases (old : Nat) {new : Nat} (hnew : new < scnInfinite) :
    NeverDecreases old (growSCN old new) := by
  intro hold
  rw [growSCN]
  split_ifs with h
  · exact ⟨Nat.le_of_lt (h.resolve_left (by omega)), hnew⟩
  · exact ⟨Nat.le_refl _, hold⟩

theorem growSCN_lt {old new : Nat} (hnew : new < scnInfinite) : growSCN old new < scnInfinite := by
  rw [growSCN]
  split_ifs with h
  · exact hnew
  · omega

theorem le_growSCN (old new : Nat) : new ≤ growSCN old new := by
  rw [growSCN]
  split_ifs with h
  · exact Nat.le_refl _
  · omega

/-- An aging SCN that grows to something under the TIME SCN stays under the access
    SCN. -/
theorem growSCN_aging {old new time access access' : Nat}
    (hnew : new ≤ setScnViewBit time) (htime : time ≤ access')
    (hold : scnInfinite ≤ old ∨
      (clearScnViewBit old ≤ clearScnViewBit access ∧ access ≤ access')) :
    clearScnViewBit (growSCN old new) ≤ clearScnViewBit access' := by
  rw [growSCN]
  split_ifs with h
  · calc clearScnViewBit new
        ≤ clearScnViewBit (setScnViewBit time) := clearScnViewBit_mono hnew
      _ = clearScnViewBit time := clearScnViewBit_setScnViewBit time
      _ ≤ clearScnViewBit access' := clearScnViewBit_mono htime
  · have hset := hold.resolve_left (by omega)
    exact hset.1.trans (clearScnViewBit_mono hset.2)

/-- What one rebuild needs of the builder: the SCNs are set or not, and the base
    slot is filled unless the list is clear. -/
structure Ready (b : MinSCNBuild) (clock systemSCN : Nat) : Prop where
  ring : RingInOrder b clock systemSCN
  values : Unset b ∨ Valued b
  base : b.mTimeSCNListBaseIdx = -1 ∨ (Valued b ∧ BaseFilled b)

section Rebuild

variable {b : MinSCNBuild} {r : Reading} {clock systemSCN : Nat}

/-- The index the search finds once the reading is in the ring. -/
theorem search_add (b : MinSCNBuild) (r : Reading) (hscn : scnInit < r.lstSystemSCN) :
    ∃ k, b.setTimeSCN r = some ((b.addTimeSCNList r).takeTimeSCN k) ∧
      (b.addTimeSCNList r).Filled k ∧
      ∀ j, (b.addTimeSCNList r).Filled j →
        (b.addTimeSCNList r).oldEnough r.curTime j = true →
        (b.addTimeSCNList r).age k ≤ (b.addTimeSCNList r).age j := by
  have hlast := add_filled_last (r := r) b hscn
  have hage := add_age_last b r
  obtain ⟨k, hk, hfill, hmin⟩ := searchTimeSCN_spec r.curTime hlast
    timeSCNListMaxCnt.toNat _ hlast.1 (by rw [hage]; rfl)
    (fun j _ hlt => absurd hlt (by rw [hage]; have := age_nonneg (b.addTimeSCNList r) j; omega))
  refine ⟨k, ?_, hfill, hmin⟩
  show (Option.map _ (searchTimeSCN _ _ _ _)) = _
  rw [hk]
  rfl

/-- The reading may be written over the base slot, with a larger SCN. -/
theorem base_add (hb : RingInOrder b clock systemSCN) (hr : r.Fits clock systemSCN)
    (hbase : BaseFilled b) : BaseFilled (b.addTimeSCNList r) := by
  show (b.addTimeSCNList r).Filled b.mTimeSCNListBaseIdx ∧
    b.mTimeSCN ≤ ((b.addTimeSCNList r).mTimeSCNList b.mTimeSCNListBaseIdx).mSCN
  by_cases hlast : b.mTimeSCNListBaseIdx = (b.addTimeSCNList r).mTimeSCNListLastIdx
  · rw [hlast]
    refine ⟨add_filled_last b hr.scn_pos, ?_⟩
    rw [add_list_last]
    have hpast := (hb.past _ hbase.1).2.2.1
    exact hbase.2.trans (hpast.trans hr.scn_le)
  · rw [add_filled_of_ne hlast, add_list_of_ne hlast]
    exact hbase

/-- **The TIME SCN after a search**: set, from a filled slot. -/
theorem takeTimeSCN_spec {k : Int} (hb : RingInOrder b clock systemSCN)
    (hbase : b.mTimeSCNListBaseIdx = -1 ∨ (b.mTimeSCN < scnInfinite ∧ BaseFilled b))
    (hk : b.Filled k) :
    (b.takeTimeSCN k).mTimeSCN < scnInfinite ∧ BaseFilled (b.takeTimeSCN k) := by
  rw [takeTimeSCN]
  split_ifs with htake
  · exact ⟨(hb.past k hk).2.2.2, hk, Nat.le_refl _⟩
  · rcases hbase with hclear | hset
    · -- with a clear list every filled slot is taken
      exfalso
      apply htake
      have hold : b.oldTime = 0 := by simp [oldTime, hclear]
      rw [hold]
      have h0 := hk.1.1
      exact ⟨by omega, (hb.past k hk).1⟩
    · exact hset

/-- The TIME SCN does not decrease when the time of the base slot is compared. -/
theorem takeTimeSCN_le {k : Int} (hb : RingInOrder b clock systemSCN)
    (hbase : BaseFilled b) (hk : b.Filled k) (hpos : 0 < b.mTimeSCNListBaseIdx) :
    b.mTimeSCN ≤ (b.takeTimeSCN k).mTimeSCN := by
  rw [takeTimeSCN]
  split_ifs with htake
  · obtain ⟨-, hlt⟩ := htake
    rw [oldTime, if_pos hpos] at hlt
    have hage : b.age k ≤ b.age b.mTimeSCNListBaseIdx := by
      by_contra hnot
      have := (hb.order _ _ hbase.1.1 hk (by omega)).2.1
      omega
    exact hbase.2.trans (hb.order _ _ hk.1 hbase.1 hage).2.2
  · exact Nat.le_refl _

theorem takeTimeSCN_le_of_age {k : Int} (hk : b.mTimeSCN ≤ (b.mTimeSCNList k).mSCN) :
    b.mTimeSCN ≤ (b.takeTimeSCN k).mTimeSCN := by
  rw [takeTimeSCN]
  split_ifs
  · exact hk
  · exact Nat.le_refl _

/-- When slot 0 is the base and is written over, it was the oldest slot: none has a
    smaller SCN. -/
theorem baseZero_overwritten (hb : RingInOrder b clock systemSCN) (hfill0 : b.Filled 0)
    (hbase : b.mTimeSCN ≤ (b.mTimeSCNList 0).mSCN) (hsys : systemSCN ≤ r.lstSystemSCN)
    (hover : (b.addTimeSCNList r).mTimeSCNListLastIdx = 0) {k : Int}
    (hk : (b.addTimeSCNList r).Filled k) :
    b.mTimeSCN ≤ ((b.addTimeSCNList r).mTimeSCNList k).mSCN := by
  by_cases hk0 : k = (b.addTimeSCNList r).mTimeSCNListLastIdx
  · rw [hk0, add_list_last]
    exact hbase.trans ((hb.past 0 hfill0).2.2.1.trans hsys)
  · rw [add_list_of_ne hk0]
    have hkb := (add_filled_of_ne hk0).mp hk
    have hlast := hb.empty 0 hfill0
    have hage : b.age k ≤ b.age 0 := by
      have hkslot := hk.1
      have hlt := hb.last.2
      rw [add_last] at hover
      simp only [age, IsSlot, timeSCNListMaxCnt] at *
      omega
    exact hbase.trans (hb.order k 0 hk.1 hfill0 hage).2.2

/-- Before the ring has come round, slot 0 is the oldest one. -/
theorem baseZero_notWrapped (hb : RingInOrder b clock systemSCN) (hfill0 : b.Filled 0)
    (hend : (b.mTimeSCNList (timeSCNListMaxCnt - 1)).mSCN = scnInit) {k : Int}
    (hk : (b.addTimeSCNList r).Filled k) :
    (b.addTimeSCNList r).age k ≤ (b.addTimeSCNList r).age 0 := by
  have hslot : IsSlot (timeSCNListMaxCnt - 1) := by
    simp only [IsSlot, timeSCNListMaxCnt]
    omega
  have hlast := hb.empty 0 hfill0
  have hlt := hb.last.2
  -- a filled slot from which the end of the ring is not older fills that one
  have hyoung : ∀ j, b.Filled j → b.age j < b.age (timeSCNListMaxCnt - 1) := by
    intro j hj
    by_contra hnot
    exact (hb.order _ j hslot hj (by omega)).1.2 hend
  have h0 := hyoung 0 hfill0
  have hkslot := hk.1
  by_cases hk0 : k = (b.addTimeSCNList r).mTimeSCNListLastIdx
  · rw [hk0, add_age_last]
    exact age_nonneg _ _
  · have hkb := hyoung k ((add_filled_of_ne hk0).mp hk)
    simp only [age, IsSlot, add_last, timeSCNListMaxCnt] at *
    omega

/-- **The TIME SCN of one rebuild does not decrease**, unless the search passes slot
    0 while that is the base. -/
theorem setTimeSCN_le {b' : MinSCNBuild} (hb : RingInOrder b clock systemSCN)
    (hbase : BaseFilled b) (hr : r.Fits clock systemSCN)
    (hzero : b.mTimeSCNListBaseIdx ≠ 0 ∨
      (b.mTimeSCNList (timeSCNListMaxCnt - 1)).mSCN = scnInit ∨
      b.mTimeSCNListLastIdx = timeSCNListMaxCnt - 1 ∨ b.oldEnough r.curTime 0 = true)
    (h : b.setTimeSCN r = some b') : b.mTimeSCN ≤ b'.mTimeSCN := by
  obtain ⟨k, hk, hfill, hmin⟩ := search_add b r hr.scn_pos
  rw [hk, Option.some.injEq] at h
  subst h
  have hring := ringInOrder_add hb hr
  by_cases hne : b.mTimeSCNListBaseIdx = 0
  · obtain ⟨hfill0, hbase0⟩ := hbase
    rw [hne] at hfill0 hbase0
    apply takeTimeSCN_le_of_age (b := b.addTimeSCNList r)
    show b.mTimeSCN ≤ _
    by_cases hover : (b.addTimeSCNList r).mTimeSCNListLastIdx = 0
    · exact baseZero_overwritten hb hfill0 hbase0 hr.scn_le hover hfill
    · have hkeep : (0 : Int) ≠ (b.addTimeSCNList r).mTimeSCNListLastIdx := fun h0 => hover h0.symm
      have hage : (b.addTimeSCNList r).age k ≤ (b.addTimeSCNList r).age 0 := by
        rcases hzero with hz | hz | hz | hz
        · exact absurd hne hz
        · exact baseZero_notWrapped hb hfill0 hz hfill
        · exact absurd (by rw [add_last, hz]; rfl) hover
        · apply hmin 0 ((add_filled_of_ne hkeep).mpr hfill0)
          rw [oldEnough, add_list_of_ne hkeep]
          exact hz
      have hle := (hring.order k 0 hfill.1 ((add_filled_of_ne hkeep).mpr hfill0) hage).2.2
      rw [add_list_of_ne hkeep] at hle
      exact hbase0.trans hle
  · have hpos0 : 0 < b.mTimeSCNListBaseIdx := by
      have := hbase.1.1.1
      omega
    exact takeTimeSCN_le hring (base_add hb hr hbase) hfill hpos0

/-- What a rebuild leaves of the SCNs that were there before. -/
structure Grown (b b' : MinSCNBuild) : Prop where
  minTime : b'.mVersioningMinTime = b.mVersioningMinTime
  access : NeverDecreases b.mAccessSCN b'.mAccessSCN
  mem : NeverDecreases b.mAgingMemViewSCN b'.mAgingMemViewSCN
  dsk : NeverDecreases b.mAgingDskViewSCN b'.mAgingDskViewSCN

/-- **The access SCN first, then the aging SCNs under it.**  Whatever the TIME SCN
    was before, the aging SCNs get no further than the access SCN. -/
theorem setAccessSCN_setAging_spec (hlt : b.mTimeSCN < scnInfinite)
    (hb : (b.mAccessSCN = scnInfinite ∧ b.mAgingMemViewSCN = scnInfinite ∧
      b.mAgingDskViewSCN = scnInfinite) ∨ AgingBelow b) (r : Reading) :
    Valued ((b.setAccessSCN.setAgingMemViewSCN r).setAgingDskViewSCN) ∧
      Grown b ((b.setAccessSCN.setAgingMemViewSCN r).setAgingDskViewSCN) := by
  have htime : b.mTimeSCN ≤ growSCN b.mAccessSCN b.mTimeSCN := le_growSCN _ _
  have hview : setScnViewBit b.mTimeSCN < scnInfinite := setScnViewBit_lt hlt
  -- the new aging SCNs are not above the view of `mTimeSCN`
  have hnewMem := getMinMemViewSCNofAll_le b.mTimeSCN r.memViewSCNs
  have hnewDsk : (if setScnViewBit b.mTimeSCN < b.mSysMinDskViewSCN then setScnViewBit b.mTimeSCN
      else b.mSysMinDskViewSCN) ≤ setScnViewBit b.mTimeSCN := by
    split_ifs <;> omega
  have haccess := growSCN_neverDecreases b.mAccessSCN hlt
  -- the old ones are unset, or not above the old access SCN
  have hmem : scnInfinite ≤ b.mAgingMemViewSCN ∨
      (clearScnViewBit b.mAgingMemViewSCN ≤ clearScnViewBit b.mAccessSCN ∧
        b.mAccessSCN ≤ growSCN b.mAccessSCN b.mTimeSCN) := by
    rcases hb with hun | hset
    · exact Or.inl (Nat.le_of_eq hun.2.1.symm)
    · exact Or.inr ⟨hset.mem_le, (haccess hset.access_lt).1⟩
  have hdsk : scnInfinite ≤ b.mAgingDskViewSCN ∨
      (clearScnViewBit b.mAgingDskViewSCN ≤ clearScnViewBit b.mAccessSCN ∧
        b.mAccessSCN ≤ growSCN b.mAccessSCN b.mTimeSCN) := by
    rcases hb with hun | hset
    · exact Or.inl (Nat.le_of_eq hun.2.2.symm)
    · exact Or.inr ⟨hset.dsk_le, (haccess hset.access_lt).1⟩
  constructor
  · exact
      { access_lt := growSCN_lt hlt
        mem_lt := growSCN_lt (hnewMem.trans_lt hview)
        mem_le := growSCN_aging hnewMem htime hmem
        dsk_lt := growSCN_lt (hnewDsk.trans_lt hview)
        dsk_le := growSCN_aging hnewDsk htime hdsk
        time_lt := hlt
        time_le := htime }
  · exact
      { minTime := rfl
        access := haccess
        mem := growSCN_neverDecreases _ (hnewMem.trans_lt hview)
        dsk := growSCN_neverDecreases _ (hnewDsk.trans_lt hview) }

/-- **One rebuild**: it ends, the SCNs are set, and what was set has grown. -/
theorem setGlobalConsistentSCN_spec (hb : Ready b clock systemSCN) (hr : r.Fits clock systemSCN) :
    ∃ b₁ b', b.setTimeSCN r = some b₁ ∧ b.setGlobalConsistentSCN r = some b' ∧
      b'.mTimeSCN = b₁.mTimeSCN ∧ RingInOrder b' r.curTime r.lstSystemSCN ∧ Valued b' ∧
      BaseFilled b' ∧ Grown b b' := by
  obtain ⟨k, hk, hfill, -⟩ := search_add b r hr.scn_pos
  have hring := ringInOrder_add hb.ring hr
  -- the slot that the base names is filled, also after the new entry
  have hbase : (b.addTimeSCNList r).mTimeSCNListBaseIdx = -1 ∨
      ((b.addTimeSCNList r).mTimeSCN < scnInfinite ∧ BaseFilled (b.addTimeSCNList r)) := by
    rcases hb.base with hclear | hset
    · exact Or.inl hclear
    · exact Or.inr ⟨hset.1.time_lt, base_add hb.ring hr hset.2⟩
  obtain ⟨htime, hbase'⟩ := takeTimeSCN_spec hring hbase hfill
  -- taking the time SCN touches neither the ring nor the other SCNs
  have hsame : ((b.addTimeSCNList r).takeTimeSCN k).mAccessSCN = b.mAccessSCN ∧
      ((b.addTimeSCNList r).takeTimeSCN k).mAgingMemViewSCN = b.mAgingMemViewSCN ∧
      ((b.addTimeSCNList r).takeTimeSCN k).mAgingDskViewSCN = b.mAgingDskViewSCN ∧
      ((b.addTimeSCNList r).takeTimeSCN k).mVersioningMinTime = b.mVersioningMinTime ∧
      ((b.addTimeSCNList r).takeTimeSCN k).mTimeSCNList = (b.addTimeSCNList r).mTimeSCNList ∧
      ((b.addTimeSCNList r).takeTimeSCN k).mTimeSCNListLastIdx
        = (b.addTimeSCNList r).mTimeSCNListLastIdx := by
    rw [takeTimeSCN]
    split_ifs <;> exact ⟨rfl, rfl, rfl, rfl, rfl, rfl⟩
  obtain ⟨hacc, hmem, hdsk, hmin, hlist, hlast⟩ := hsame
  -- the other SCNs were never set, or they are below the access SCN
  have hbefore : (((b.addTimeSCNList r).takeTimeSCN k).mAccessSCN = scnInfinite ∧
      ((b.addTimeSCNList r).takeTimeSCN k).mAgingMemViewSCN = scnInfinite ∧
      ((b.addTimeSCNList r).takeTimeSCN k).mAgingDskViewSCN = scnInfinite) ∨
      AgingBelow ((b.addTimeSCNList r).takeTimeSCN k) := by
    rcases hb.values with hun | hset
    · left
      rw [hacc, hmem, hdsk]
      exact ⟨hun.access_eq, hun.mem_eq, hun.dsk_eq⟩
    · right
      constructor <;> simp only [hacc, hmem, hdsk]
      · exact hset.access_lt
      · exact hset.mem_lt
      · exact hset.mem_le
      · exact hset.dsk_lt
      · exact hset.dsk_le
  obtain ⟨hvalued, hgrown⟩ := setAccessSCN_setAging_spec htime hbefore r
  refine ⟨_, ((((b.addTimeSCNList r).takeTimeSCN k).setAccessSCN).setAgingMemViewSCN
    r).setAgingDskViewSCN, hk, ?_, rfl, ?_, hvalued, hbase', ?_⟩
  · rw [setGlobalConsistentSCN, hk]
    rfl
  · exact (hring.later hr.add_le (Nat.le_refl _)).congr hlist hlast
  · exact ⟨hgrown.minTime.trans hmin, hacc ▸ hgrown.access, hmem ▸ hgrown.mem,
      hdsk ▸ hgrown.dsk⟩

end Rebuild

/-! ## §7. Every run. -/

/-- **The invariant of the runs.** -/
structure State.Inv (s : State) : Prop where
  ring : RingInOrder s.builder s.clock s.systemSCN
  phase : (Unset s.builder ∧ (s.isActive = true → s.builder.mTimeSCNListBaseIdx = -1)) ∨
    (Valued s.builder ∧ BaseFilled s.builder)

theorem State.Inv.ready {s : State} (hs : s.Inv) (hactive : s.isActive = true) :
    Ready s.builder s.clock s.systemSCN where
  ring := hs.ring
  values := hs.phase.imp (·.1) (·.1)
  base := hs.phase.imp (fun h => h.2 hactive) id

/-- A cleared list is ready, whatever the SCNs are. -/
theorem State.Inv.ready_clear {s : State} (hs : s.Inv) :
    Ready s.builder.clearTimeSCNList s.clock s.systemSCN where
  ring := ringInOrder_clear _ _ _
  values := by
    rcases hs.phase with h | h
    · exact Or.inl ⟨h.1.time_eq, h.1.access_eq, h.1.mem_eq, h.1.dsk_eq⟩
    · exact Or.inr { h.1 with }
  base := Or.inl rfl

/-- The state after an operation that leaves the builder `b`. -/
def State.next (s : State) (op : Op) (b : MinSCNBuild) : State :=
  { s with builder := b, clock := op.reading.curTime, systemSCN := op.reading.lstSystemSCN }

/-- What every operation does to the state. -/
structure Performed (s : State) (op : Op) (b : MinSCNBuild) : Prop where
  inv : (s.next op b).Inv
  active : keepsActive s op = true → (s.next op b).isActive = true
  access : keepsActive s op = true → NeverDecreases s.builder.mAccessSCN b.mAccessSCN
  mem : keepsActive s op = true →
    NeverDecreases s.builder.mAgingMemViewSCN b.mAgingMemViewSCN
  dsk : keepsActive s op = true →
    NeverDecreases s.builder.mAgingDskViewSCN b.mAgingDskViewSCN
  time : keepsActive s op = true → keepsList s op = true → baseZeroFound s op = true →
    NeverDecreases s.builder.mTimeSCN b.mTimeSCN

theorem neverDecreases_refl (scn : Nat) : NeverDecreases scn scn :=
  fun h => ⟨Nat.le_refl _, h⟩

theorem NeverDecreases.trans {x y z : Nat} (h₁ : NeverDecreases x y) (h₂ : NeverDecreases y z) :
    NeverDecreases x z := by
  intro h
  obtain ⟨hxy, hy⟩ := h₁ h
  obtain ⟨hyz, hz⟩ := h₂ hy
  exact ⟨hxy.trans hyz, hz⟩

section Operations

variable {s : State}

/-- Nothing but the time and the disk view SCN changes. -/
theorem inv_next_same (hs : s.Inv) {op : Op} (hr : op.reading.Fits s.clock s.systemSCN)
    {b : MinSCNBuild} (hb : b = { s.builder with mSysMinDskViewSCN := b.mSysMinDskViewSCN }) :
    (s.next op b).Inv where
  ring := by
    have hring := hs.ring.later (hr.clock_le.trans hr.add_le) hr.scn_le
    exact hring.congr (by rw [State.next, hb]) (by rw [State.next, hb])
  phase := by
    rw [State.next, hb]
    rcases hs.phase with h | h
    · exact Or.inl ⟨⟨h.1.time_eq, h.1.access_eq, h.1.mem_eq, h.1.dsk_eq⟩, h.2⟩
    · exact Or.inr ⟨{ h.1 with }, h.2⟩

/-- A rebuild while the feature is active. -/
theorem setGlobalConsistentSCN_performed (hs : s.Inv) (op : Op) (hop : op.searchesList = true)
    (hr : op.reading.Fits s.clock s.systemSCN) (hactive : s.isActive = true) :
    ∃ b, s.builder.setGlobalConsistentSCN op.reading = some b ∧ Performed s op b := by
  obtain ⟨b₁, b, htime, hb, heq, hring, hvalued, hbase, hgrown⟩ :=
    setGlobalConsistentSCN_spec (hs.ready hactive) hr
  refine ⟨b, hb, ⟨hring, Or.inr ⟨hvalued, hbase⟩⟩, ?_, fun _ => hgrown.access,
    fun _ => hgrown.mem, fun _ => hgrown.dsk, ?_⟩
  · intro _
    rw [State.isActive, State.next, hgrown.minTime]
    exact hactive
  · intro _ _ hzero hset
    refine ⟨?_, hvalued.time_lt⟩
    rcases hs.phase with h | h
    · have := h.1.time_eq
      omega
    · rw [heq]
      have hfound := (of_decide_eq_true hzero).resolve_left (by rw [hop]; exact Bool.noConfusion)
      exact setTimeSCN_le hs.ring h.2 hr hfound htime

/-- The list is cleared, and the SCNs are set from the first reading in it. -/
theorem clear_setGlobalConsistentSCN_performed (hs : s.Inv) (op : Op)
    (hr : op.reading.Fits s.clock s.systemSCN) :
    ∃ b, s.builder.clearTimeSCNList.setGlobalConsistentSCN op.reading = some b ∧
      RingInOrder b op.reading.curTime op.reading.lstSystemSCN ∧ Valued b ∧ BaseFilled b ∧
      Grown s.builder b := by
  obtain ⟨_, b, -, hb, -, hring, hvalued, hbase, hgrown⟩ :=
    setGlobalConsistentSCN_spec hs.ready_clear hr
  exact ⟨b, hb, hring, hvalued, hbase, { hgrown with }⟩

/-- Nothing happens while the feature is not active. -/
theorem performed_same (hs : s.Inv) {op : Op} (hr : op.reading.Fits s.clock s.systemSCN)
    (hop : keepsActive s op = true → s.isActive = true) (hactive : ¬s.isActive = true)
    {b : MinSCNBuild} (hb : b = { s.builder with mSysMinDskViewSCN := b.mSysMinDskViewSCN }) :
    Performed s op b where
  inv := inv_next_same hs hr hb
  active := fun h => absurd (hop h) hactive
  access := fun h => absurd (hop h) hactive
  mem := fun h => absurd (hop h) hactive
  dsk := fun h => absurd (hop h) hactive
  time := fun h => absurd (hop h) hactive

theorem resetVersioningMinTime_performed (hs : s.Inv) {newTime : Nat} {r : Reading}
    (hr : r.Fits s.clock s.systemSCN) (hshard : s.shardEnable = true) :
    ∃ b, s.builder.resetVersioningMinTime newTime r = some b ∧
      Performed s (.resetVersioningMinTime newTime r) b := by
  have hactive : s.isActive = true ↔ 0 < s.builder.mVersioningMinTime := by
    simp [State.isActive, hshard]
  rw [MinSCNBuild.resetVersioningMinTime]
  split_ifs with hon hoff
  · -- switched on
    obtain ⟨b, hb, hring, hvalued, hbase, -⟩ := clear_setGlobalConsistentSCN_performed
      hs (.resetVersioningMinTime newTime r) hr
    have hnot : ¬keepsActive s (.resetVersioningMinTime newTime r) = true := by
      intro h
      have := hactive.mp (of_decide_eq_true h).1
      omega
    refine ⟨{ b with mVersioningMinTime := newTime }, ?_, ⟨?_, Or.inr ⟨{ hvalued with }, hbase⟩⟩,
      fun h => absurd h hnot, fun h => absurd h hnot, fun h => absurd h hnot,
      fun h => absurd h hnot, fun h => absurd h hnot⟩
    · exact congrArg (Option.map _) hb
    · exact hring.congr rfl rfl
  · -- switched off
    have hnot : ¬keepsActive s (.resetVersioningMinTime newTime r) = true := by
      intro h
      have := (of_decide_eq_true h).2
      omega
    refine ⟨_, rfl, ⟨?_, Or.inl ⟨⟨rfl, rfl, rfl, rfl⟩, ?_⟩⟩,
      fun h => absurd h hnot, fun h => absurd h hnot, fun h => absurd h hnot,
      fun h => absurd h hnot, fun h => absurd h hnot⟩
    · exact (hs.ring.later (hr.clock_le.trans hr.add_le) hr.scn_le).congr rfl rfl
    · intro h
      have : 0 < newTime := (of_decide_eq_true h).2
      omega
  · -- only the retention time changes
    refine ⟨_, rfl, ⟨?_, ?_⟩, ?_, fun _ => neverDecreases_refl _, fun _ => neverDecreases_refl _,
      fun _ => neverDecreases_refl _, fun _ _ _ => neverDecreases_refl _⟩
    · exact (hs.ring.later (hr.clock_le.trans hr.add_le) hr.scn_le).congr rfl rfl
    · rcases hs.phase with h | h
      · refine Or.inl ⟨⟨h.1.time_eq, h.1.access_eq, h.1.mem_eq, h.1.dsk_eq⟩, ?_⟩
        intro hnew
        have : 0 < newTime := (of_decide_eq_true hnew).2
        exact h.2 (hactive.mpr (by omega))
      · exact Or.inr ⟨{ h.1 with }, h.2⟩
    · intro h
      have := (of_decide_eq_true h).2
      simp only [State.isActive, State.next, hshard, decide_eq_true_eq]
      exact ⟨trivial, this⟩

/-- **Every operation**, with a clock and a system SCN that did not decrease. -/
theorem performed (hs : s.Inv) {op : Op} (hr : op.reading.Fits s.clock s.systemSCN) :
    ∃ b, s.perform op = some b ∧ Performed s op b := by
  cases op with
  | startThread r =>
    rw [State.perform]
    split_ifs with hactive
    · exact setGlobalConsistentSCN_performed hs (.startThread r) rfl hr hactive
    · exact ⟨_, rfl, performed_same hs hr id hactive rfl⟩
  | rebuild r =>
    rw [State.perform]
    split_ifs with hactive
    · obtain ⟨b, hb, hp⟩ := setGlobalConsistentSCN_performed hs (.rebuild r) rfl hr hactive
      have hb' : s.builder.setGlobalConsistentSCN r = some b := hb
      refine ⟨{ b with mSysMinDskViewSCN := r.minDskViewSCN }, ?_, ?_⟩
      · rw [hb']
        rfl
      · refine ⟨⟨hp.inv.ring.congr rfl rfl, ?_⟩, hp.active, hp.access, hp.mem, hp.dsk, hp.time⟩
        rcases hp.inv.phase with h | h
        · exact Or.inl ⟨⟨h.1.time_eq, h.1.access_eq, h.1.mem_eq, h.1.dsk_eq⟩, h.2⟩
        · exact Or.inr ⟨{ h.1 with }, h.2⟩
    · exact ⟨_, rfl, performed_same hs hr id hactive rfl⟩
  | resetVersioningMinTime newTime r =>
    rw [State.perform]
    split_ifs with hshard
    · exact resetVersioningMinTime_performed hs hr hshard
    · -- without a shard the builder is not active
      have hactive : ¬s.isActive = true := by
        simp [State.isActive, hshard]
      exact ⟨_, rfl, performed_same hs hr (fun h => (of_decide_eq_true h).1) hactive rfl⟩
  | setGlobalConsistentSCNAsSystemSCN r =>
    rw [State.perform]
    split_ifs with hactive
    · obtain ⟨b, hb, hring, hvalued, hbase, hgrown⟩ := clear_setGlobalConsistentSCN_performed
        hs (.setGlobalConsistentSCNAsSystemSCN r) hr
      refine ⟨b, hb, ⟨hring, Or.inr ⟨hvalued, hbase⟩⟩, ?_, fun _ => hgrown.access,
        fun _ => hgrown.mem, fun _ => hgrown.dsk, ?_⟩
      · intro _
        rw [State.isActive, State.next, hgrown.minTime]
        exact hactive
      · intro _ h
        cases h
    · exact ⟨_, rfl, performed_same hs hr id hactive rfl⟩

end Operations

section Runs

variable {shardEnable : Bool} {versioningMinTime : Nat} {s s' : State}

theorem inv_init : (minSCNBuilder shardEnable versioningMinTime).init.Inv where
  ring :=
    { last := by simp [minSCNBuilder, timeSCNListMaxCnt]
      order := fun _ _ _ hj => absurd rfl hj.2
      past := fun _ hj => absurd rfl hj.2
      empty := fun _ hj => absurd rfl hj.2 }
  phase := Or.inl ⟨⟨rfl, rfl, rfl, rfl⟩, fun _ => rfl⟩

/-- A step is one of the operations, with a reading that fits. -/
theorem step_eq_some {op : Op} (h : (minSCNBuilder shardEnable versioningMinTime).step s op
    = some s') : op.reading.Fits s.clock s.systemSCN ∧
      ∃ b, s.perform op = some b ∧ s' = s.next op b := by
  simp only [minSCNBuilder, Option.ite_none_right_eq_some, Option.map_eq_some_iff] at h
  obtain ⟨hr, b, hb, rfl⟩ := h
  exact ⟨hr, b, hb, rfl⟩

theorem performed_of_step (hs : s.Inv) {op : Op}
    (h : (minSCNBuilder shardEnable versioningMinTime).step s op = some s') :
    ∃ b, s' = s.next op b ∧ Performed s op b := by
  obtain ⟨hr, b, hb, rfl⟩ := step_eq_some h
  obtain ⟨b', hb', hp⟩ := performed hs hr
  rw [hb, Option.some.injEq] at hb'
  exact ⟨b, rfl, hb' ▸ hp⟩

theorem inv_path {ok : State → Op → Prop}
    (hp : System.Path (minSCNBuilder shardEnable versioningMinTime) ok s s') (hs : s.Inv) :
    s'.Inv := by
  apply System.Path.invariant hp _ hs
  intro u op v hu _ hst
  obtain ⟨b, rfl, hb⟩ := performed_of_step hu hst
  exact hb.inv

/-- What every step does not decrease, no run does. -/
theorem neverDecreases_path {ok : State → Op → Prop} (f : MinSCNBuild → Nat)
    (hf : ∀ u op b, ok u op → Performed u op b → NeverDecreases (f u.builder) (f b))
    (hp : System.Path (minSCNBuilder shardEnable versioningMinTime) ok s s') (hs : s.Inv) :
    NeverDecreases (f s.builder) (f s'.builder) := by
  induction hp with
  | refl => exact neverDecreases_refl _
  | tail hpath hok hst ih =>
    obtain ⟨b, rfl, hb⟩ := performed_of_step (inv_path hpath hs) hst
    exact ih.trans (hf _ _ _ hok hb)

/-- **The SCNs of a consistent read.**  In every run: no aging SCN exceeds the access
    SCN; as long as the feature stays active, the access SCN and the aging SCNs stay
    set and do not decrease; and as long as moreover the list is not cleared and no
    search passes slot 0 while that is the base, neither does the TIME SCN. -/
theorem consistentSCNs
    (hs : (minSCNBuilder shardEnable versioningMinTime).Reachable s)
    (hp : System.Path (minSCNBuilder shardEnable versioningMinTime)
      (fun u op => keepsActive u op = true) s s') :
    (clearScnViewBit s'.builder.mAgingMemViewSCN ≤ clearScnViewBit s'.builder.mAccessSCN ∧
      clearScnViewBit s'.builder.mAgingDskViewSCN ≤ clearScnViewBit s'.builder.mAccessSCN) ∧
    NeverDecreases s.builder.mAccessSCN s'.builder.mAccessSCN ∧
    NeverDecreases s.builder.mAgingMemViewSCN s'.builder.mAgingMemViewSCN ∧
    NeverDecreases s.builder.mAgingDskViewSCN s'.builder.mAgingDskViewSCN ∧
    (System.Path (minSCNBuilder shardEnable versioningMinTime)
      (fun u op => keepsActive u op = true ∧ keepsList u op = true ∧ baseZeroFound u op = true)
      s s' → NeverDecreases s.builder.mTimeSCN s'.builder.mTimeSCN) := by
  have hinv : s.Inv := inv_path hs inv_init
  refine ⟨?_, ?_, ?_, ?_, ?_⟩
  · rcases (inv_path hp hinv).phase with h | h
    · rw [h.1.mem_eq, h.1.dsk_eq, h.1.access_eq]
      exact ⟨Nat.le_refl _, Nat.le_refl _⟩
    · exact ⟨h.1.mem_le, h.1.dsk_le⟩
  · exact neverDecreases_path (·.mAccessSCN) (fun _ _ _ hok hb => hb.access hok) hp hinv
  · exact neverDecreases_path (·.mAgingMemViewSCN) (fun _ _ _ hok hb => hb.mem hok) hp hinv
  · exact neverDecreases_path (·.mAgingDskViewSCN) (fun _ _ _ hok hb => hb.dsk hok) hp hinv
  · intro hp'
    exact neverDecreases_path (·.mTimeSCN)
      (fun _ _ _ hok hb => hb.time hok.1 hok.2.1 hok.2.2) hp' hinv

end Runs

/-- What a tick reads that writes its slot at `time`. -/
def tickAt (time scn : Nat) : Reading where
  addTime := time
  curTime := time + 1000
  lstSystemSCN := scn
  memViewSCNs := []
  minDskViewSCN := 7

theorem consistentSCNs_twoTicks :
    let run := [Op.startThread (tickAt 100000 8), .rebuild (tickAt 200000 16)]
    let s := (minSCNBuilder true 1).init
    let s' := ((minSCNBuilder true 1).restrict fun u op =>
      keepsActive u op && keepsList u op && baseZeroFound u op).after run (by decide)
    (clearScnViewBit s'.builder.mAgingMemViewSCN ≤ clearScnViewBit s'.builder.mAccessSCN ∧
      clearScnViewBit s'.builder.mAgingDskViewSCN ≤ clearScnViewBit s'.builder.mAccessSCN) ∧
    NeverDecreases s.builder.mAccessSCN s'.builder.mAccessSCN ∧
    NeverDecreases s.builder.mAgingMemViewSCN s'.builder.mAgingMemViewSCN ∧
    NeverDecreases s.builder.mAgingDskViewSCN s'.builder.mAgingDskViewSCN ∧
    NeverDecreases s.builder.mTimeSCN s'.builder.mTimeSCN := by
  intro run s s'
  have hpath := System.path_of_restrict (S := minSCNBuilder true 1) (u := s') (s := s)
    (p := fun u op => keepsActive u op && keepsList u op && baseZeroFound u op) run
    (Option.some_get _).symm
  have hactive : System.Path (minSCNBuilder true 1) (fun u op => keepsActive u op = true) s s' := by
    apply hpath.mono
    intro u op h
    simp only [Bool.and_eq_true] at h
    exact h.1.1
  obtain ⟨haging, haccess, hmem, hdsk, htime⟩ := consistentSCNs .refl hactive
  refine ⟨haging, haccess, hmem, hdsk, htime (hpath.mono fun u op h => ?_)⟩
  simp only [Bool.and_eq_true] at h
  exact ⟨h.1.1, h.1.2, h.2⟩

/-! ## §8. A TIME SCN that goes back. -/

/-- The lookup of a tick whose own slot is old enough at once. -/
theorem setTimeSCN_tick {b : MinSCNBuild} {r : Reading} (hscn : scnInit < r.lstSystemSCN)
    (hold : r.addTime + b.mVersioningMinTime * 1000 ≤ r.curTime) :
    b.setTimeSCN r = some ((b.addTimeSCNList r).takeTimeSCN
      (b.addTimeSCNList r).mTimeSCNListLastIdx) := by
  have hfuel : timeSCNListMaxCnt.toNat = 100001 + 1 := rfl
  have hne : ((b.addTimeSCNList r).mTimeSCNList
      (b.addTimeSCNList r).mTimeSCNListLastIdx).mSCN ≠ scnInit := by
    rw [add_list_last]
    exact Nat.ne_of_gt hscn
  have hfound : (b.addTimeSCNList r).oldEnough r.curTime
      (b.addTimeSCNList r).mTimeSCNListLastIdx = true := by
    rw [oldEnough, add_list_last]
    exact decide_eq_true hold
  show Option.map _ (searchTimeSCN _ _ _ _) = _
  rw [hfuel, searchTimeSCN, if_neg hne, if_pos hfound]
  rfl

/-- A rebuild while the feature is active, from what the search takes. -/
theorem step_rebuild {s : State} {r : Reading} {b : MinSCNBuild}
    (hactive : s.isActive = true) (hr : r.Fits s.clock s.systemSCN)
    (hb : s.builder.setTimeSCN r = some b) :
    ∃ s', (minSCNBuilder true 1).step s (.rebuild r) = some s' ∧
      s'.shardEnable = s.shardEnable ∧ s'.clock = r.curTime ∧ s'.systemSCN = r.lstSystemSCN ∧
      s'.builder.mVersioningMinTime = b.mVersioningMinTime ∧
      s'.builder.mTimeSCNList = b.mTimeSCNList ∧
      s'.builder.mTimeSCNListLastIdx = b.mTimeSCNListLastIdx ∧
      s'.builder.mTimeSCNListBaseIdx = b.mTimeSCNListBaseIdx ∧
      s'.builder.mTimeSCN = b.mTimeSCN := by
  refine ⟨s.next (.rebuild r) { (b.setAccessSCN.setAgingMemViewSCN r).setAgingDskViewSCN with
    mSysMinDskViewSCN := r.minDskViewSCN }, ?_, rfl, rfl, rfl, rfl, rfl, rfl, rfl, rfl⟩
  show (if _ then _ else _) = _
  rw [if_pos (show (Op.rebuild r).reading.Fits s.clock s.systemSCN from hr), State.perform,
    if_pos hactive, MinSCNBuild.setGlobalConsistentSCN, hb]
  rfl

theorem takeTimeSCN_of_lt {b : MinSCNBuild} {k : Int} (hne : b.mTimeSCNListBaseIdx ≠ k)
    (hlt : b.oldTime < (b.mTimeSCNList k).mTime) :
    b.takeTimeSCN k
      = { b with mTimeSCN := (b.mTimeSCNList k).mSCN, mTimeSCNListBaseIdx := k } :=
  if_pos ⟨hne, hlt⟩

/-- The reading of the tick after `k` ticks. -/
def lapReading (k : Nat) : Reading := tickAt (100000 * (k + 1)) (8 * (k + 1))

/-- After `k` ticks, one every 100 ms: the ring is filled up to there, and the base
    is the slot of the last tick. -/
structure Lap (k : Nat) (s : State) : Prop where
  reachable : (minSCNBuilder true 1).Reachable s
  shard : s.shardEnable = true
  minTime : s.builder.mVersioningMinTime = 1
  clock : s.clock ≤ 100000 * k + 1000
  scn : s.systemSCN ≤ 8 * k
  last : s.builder.mTimeSCNListLastIdx = (k : Int) - 1
  base : s.builder.mTimeSCNListBaseIdx = (k : Int) - 1
  slot : ∀ j : Nat, j < k → s.builder.mTimeSCNList j = ⟨100000 * (j + 1), 8 * (j + 1)⟩

theorem lap_zero : Lap 0 (minSCNBuilder true 1).init where
  reachable := .refl
  shard := rfl
  minTime := rfl
  clock := by simp [minSCNBuilder]
  scn := by simp [minSCNBuilder]
  last := rfl
  base := rfl
  slot := fun j hj => absurd hj (Nat.not_lt_zero j)

/-- The tick of slot `k`, up to the end of the ring. -/
theorem lap_succ {k : Nat} {s : State} (hs : Lap k s) (hk : (k : Int) < timeSCNListMaxCnt) :
    ∃ s', Lap (k + 1) s' := by
  have hlast : (s.builder.addTimeSCNList (lapReading k)).mTimeSCNListLastIdx = k := by
    rw [add_last, hs.last]
    simp only [timeSCNListMaxCnt] at *
    omega
  have hr : (lapReading k).Fits s.clock s.systemSCN := by
    have hclock := hs.clock
    have hscn := hs.scn
    constructor <;> simp only [lapReading, tickAt, scnInit, scnInfinite, timeSCNListMaxCnt] at * <;>
      omega
  have htick := setTimeSCN_tick (b := s.builder) hr.scn_pos (by rw [hs.minTime]; exact Nat.le_refl _)
  rw [hlast] at htick
  have hactive : s.isActive = true := by
    simp [State.isActive, hs.shard, hs.minTime]
  -- the new slot is later than the base
  have htake := takeTimeSCN_of_lt (b := s.builder.addTimeSCNList (lapReading k)) (k := k)
    (by show s.builder.mTimeSCNListBaseIdx ≠ k; have := hs.base; omega)
    (by
      have hnew := add_list_last s.builder (lapReading k)
      rw [hlast] at hnew
      rw [hnew, oldTime]
      split_ifs with hpos
      · have hbase : (s.builder.addTimeSCNList (lapReading k)).mTimeSCNListBaseIdx
            = ((k - 1 : Nat) : Int) := by
          have hpos' : s.builder.mTimeSCNListBaseIdx > 0 := hpos
          have := hs.base
          show s.builder.mTimeSCNListBaseIdx = _
          omega
        rw [hbase, add_list_of_ne (by rw [hlast]; omega), hs.slot (k - 1) (by omega)]
        simp only [lapReading, tickAt]
        omega
      · simp only [lapReading, tickAt]
        omega)
  rw [htake] at htick
  obtain ⟨s', hst, hshard, hclock, hscn, hmin, hlist, hlast', hbase, -⟩ :=
    step_rebuild hactive hr htick
  refine ⟨s', .tail hs.reachable trivial hst, hshard.trans hs.shard, hmin.trans hs.minTime,
    ?_, ?_, ?_, ?_, ?_⟩
  · rw [hclock]
    exact Nat.le_refl _
  · rw [hscn]
    exact Nat.le_refl _
  · rw [hlast']
    show (s.builder.addTimeSCNList (lapReading k)).mTimeSCNListLastIdx = _
    rw [hlast]
    omega
  · rw [hbase]
    show (k : Int) = _
    omega
  · intro j hj
    rw [hlist]
    show (s.builder.addTimeSCNList (lapReading k)).mTimeSCNList j = _
    by_cases hjk : j = k
    · have hnew := add_list_last s.builder (lapReading k)
      rw [hlast] at hnew
      rw [hjk, hnew]
      rfl
    · rw [add_list_of_ne (by rw [hlast]; omega)]
      exact hs.slot j (by omega)

theorem lap_all (k : Nat) (hk : (k : Int) ≤ timeSCNListMaxCnt) : ∃ s, Lap k s := by
  induction k with
  | zero => exact ⟨_, lap_zero⟩
  | succ k ih =>
    obtain ⟨s, hs⟩ := ih (by omega)
    exact lap_succ hs (by omega)

/-- The ring has come round: slot 0 is written again and is the base, the end of the
    ring is from the tick before. -/
structure Wrapped (s : State) : Prop where
  reachable : (minSCNBuilder true 1).Reachable s
  shard : s.shardEnable = true
  minTime : s.builder.mVersioningMinTime = 1
  clock : s.clock ≤ 100000 * 100003 + 1000
  scn : s.systemSCN ≤ 8 * 100003
  last : s.builder.mTimeSCNListLastIdx = 0
  base : s.builder.mTimeSCNListBaseIdx = 0
  time : s.builder.mTimeSCN = 8 * 100003
  first : s.builder.mTimeSCNList 0 = ⟨100000 * 100003, 8 * 100003⟩
  lastSlot : s.builder.mTimeSCNList 100001 = ⟨100000 * 100002, 8 * 100002⟩

theorem exists_wrapped : ∃ s, Wrapped s := by
  obtain ⟨s, hs⟩ := lap_all 100002 (by decide)
  have hlast : (s.builder.addTimeSCNList (lapReading 100002)).mTimeSCNListLastIdx = 0 := by
    rw [add_last, hs.last]
    rfl
  have hr : (lapReading 100002).Fits s.clock s.systemSCN := by
    have hclock := hs.clock
    have hscn := hs.scn
    constructor <;> simp only [lapReading, tickAt, scnInit, scnInfinite] at * <;> omega
  have htick := setTimeSCN_tick (b := s.builder) hr.scn_pos (by rw [hs.minTime]; exact Nat.le_refl _)
  rw [hlast] at htick
  have hactive : s.isActive = true := by
    simp [State.isActive, hs.shard, hs.minTime]
  have hnew := add_list_last s.builder (lapReading 100002)
  rw [hlast] at hnew
  have hend : (s.builder.addTimeSCNList (lapReading 100002)).mTimeSCNList 100001
      = ⟨100000 * 100002, 8 * 100002⟩ := by
    rw [add_list_of_ne (by rw [hlast]; decide)]
    exact hs.slot 100001 (by decide)
  have hbase : (s.builder.addTimeSCNList (lapReading 100002)).mTimeSCNListBaseIdx = 100001 := by
    show s.builder.mTimeSCNListBaseIdx = _
    rw [hs.base]
    rfl
  have htake := takeTimeSCN_of_lt (b := s.builder.addTimeSCNList (lapReading 100002)) (k := 0)
    (by rw [hbase]; decide) (by rw [oldTime, hbase, hend, hnew]; decide)
  rw [htake] at htick
  obtain ⟨s', hst, hshard, hclock, hscn, hmin, hlist, hlast', hbase', htime⟩ :=
    step_rebuild hactive hr htick
  exact ⟨s', .tail hs.reachable trivial hst, hshard.trans hs.shard, hmin.trans hs.minTime,
    Nat.le_of_eq hclock, Nat.le_of_eq hscn, hlast'.trans hlast, hbase',
    htime.trans (congrArg TimeSCNNode.mSCN hnew), (congrFun hlist 0).trans hnew,
    (congrFun hlist 100001).trans hend⟩

/-- The retention time is 150 ms in a ring that has come round. -/
structure Raised (s : State) : Prop where
  shard : s.shardEnable = true
  minTime : s.builder.mVersioningMinTime = 150
  clock : s.clock ≤ 100000 * 100003 + 3000
  scn : s.systemSCN ≤ 8 * 100003
  last : s.builder.mTimeSCNListLastIdx = 0
  base : s.builder.mTimeSCNListBaseIdx = 0
  first : s.builder.mTimeSCNList 0 = ⟨100000 * 100003, 8 * 100003⟩
  lastSlot : s.builder.mTimeSCNList 100001 = ⟨100000 * 100002, 8 * 100002⟩

/-- What the change of the retention time reads. -/
def raiseReading : Reading := tickAt (100000 * 100003 + 2000) (8 * 100003)

theorem wrapped_raise {s : State} (hs : Wrapped s) :
    ∃ s', (minSCNBuilder true 1).step s (.resetVersioningMinTime 150 raiseReading) = some s' ∧
      Raised s' := by
  have hr : raiseReading.Fits s.clock s.systemSCN := by
    have hclock := hs.clock
    have hscn := hs.scn
    constructor <;> simp only [raiseReading, tickAt, scnInit, scnInfinite] <;> omega
  refine ⟨s.next (.resetVersioningMinTime 150 raiseReading)
    { s.builder with mVersioningMinTime := 150 }, ?_,
    ⟨hs.shard, rfl, Nat.le_refl _, Nat.le_refl _, hs.last, hs.base, hs.first, hs.lastSlot⟩⟩
  show (if _ then _ else _) = _
  rw [if_pos (show (Op.resetVersioningMinTime 150 raiseReading).reading.Fits s.clock s.systemSCN
    from hr), State.perform, if_pos hs.shard, MinSCNBuild.resetVersioningMinTime,
    if_neg (by simp [hs.minTime]), if_neg (by simp)]
  rfl

/-- The tick after that. -/
def backReading : Reading := tickAt (100000 * 100004) (8 * 100004)

/-- It passes slot 1, which it has just written, and slot 0, which is 101 ms old. -/
theorem raised_tick {s : State} (hs : Raised s) :
    ∃ s', (minSCNBuilder true 1).step s (.rebuild backReading) = some s' ∧
      s'.builder.mTimeSCN = 8 * 100002 := by
  have hr : backReading.Fits s.clock s.systemSCN := by
    have hclock := hs.clock
    have hscn := hs.scn
    constructor <;> simp only [backReading, tickAt, scnInit, scnInfinite] <;> omega
  -- the ring after the new reading
  have hlast : (s.builder.addTimeSCNList backReading).mTimeSCNListLastIdx = 1 := by
    rw [add_last, hs.last]
    rfl
  have hnew := add_list_last s.builder backReading
  rw [hlast] at hnew
  have hfirst : (s.builder.addTimeSCNList backReading).mTimeSCNList 0
      = ⟨100000 * 100003, 8 * 100003⟩ := by
    rw [add_list_of_ne (by rw [hlast]; decide)]
    exact hs.first
  have hend : (s.builder.addTimeSCNList backReading).mTimeSCNList 100001
      = ⟨100000 * 100002, 8 * 100002⟩ := by
    rw [add_list_of_ne (by rw [hlast]; decide)]
    exact hs.lastSlot
  have hbase : (s.builder.addTimeSCNList backReading).mTimeSCNListBaseIdx = 0 := hs.base
  have hmin : (s.builder.addTimeSCNList backReading).mVersioningMinTime = 150 := hs.minTime
  -- three steps back: slot 1 is new, slot 0 is too new for 150 ms, the last slot is old enough
  have hsearch : (s.builder.addTimeSCNList backReading).searchTimeSCN backReading.curTime
      timeSCNListMaxCnt.toNat 1 = some 100001 := by
    have hfuel : timeSCNListMaxCnt.toNat = 99999 + 1 + 1 + 1 := rfl
    have hprev : prevIdx 1 = 0 ∧ prevIdx 0 = 100001 := by decide
    rw [hfuel, searchTimeSCN, hnew, if_neg (by decide), oldEnough, hmin, hnew,
      if_neg (by decide), hprev.1, hlast, if_neg (by decide)]
    rw [searchTimeSCN, hfirst, if_neg (by decide), oldEnough, hmin, hfirst,
      if_neg (by decide), hprev.2, hlast, if_neg (by decide)]
    rw [searchTimeSCN, hend, if_neg (by decide), oldEnough, hmin, hend, if_pos (by decide)]
  -- the base index 0 is taken for none, so nothing keeps the search from going round
  have hold : (s.builder.addTimeSCNList backReading).oldTime = 0 := by
    rw [oldTime, hbase]
    exact if_neg (by decide)
  have htake := takeTimeSCN_of_lt (b := s.builder.addTimeSCNList backReading) (k := 100001)
    (by rw [hbase]; decide) (by rw [hold, hend]; decide)
  have htick : s.builder.setTimeSCN backReading
      = some ((s.builder.addTimeSCNList backReading).takeTimeSCN 100001) := by
    show Option.map _ (searchTimeSCN _ _ _ _) = _
    rw [hlast]
    exact congrArg (Option.map _) hsearch
  rw [htake] at htick
  have hactive : s.isActive = true := by
    simp [State.isActive, hs.shard, hs.minTime]
  obtain ⟨s', hst, -, -, -, -, -, -, -, htime⟩ := step_rebuild hactive hr htick
  exact ⟨s', hst, htime.trans (congrArg TimeSCNNode.mSCN hend)⟩

/-- **The TIME SCN goes back.**  The retention time is raised from 1 ms to 150 ms
    while slot 0 is the base and 101 ms old: the next search passes it and takes the
    end of the ring, from the tick before. -/
theorem timeSCN_decreases : ¬∀ (s s' : State), (minSCNBuilder true 1).Reachable s →
    System.Path (minSCNBuilder true 1)
      (fun u op => keepsActive u op = true ∧ keepsList u op = true) s s' →
    NeverDecreases s.builder.mTimeSCN s'.builder.mTimeSCN := by
  obtain ⟨s, hs⟩ := exists_wrapped
  obtain ⟨s₁, hst₁, hs₁⟩ := wrapped_raise hs
  obtain ⟨s₂, hst₂, htime⟩ := raised_tick hs₁
  have hpath : System.Path (minSCNBuilder true 1)
      (fun u op => keepsActive u op = true ∧ keepsList u op = true) s s₂ := by
    refine .tail (.tail .refl ⟨?_, ?_⟩ hst₁) ⟨?_, rfl⟩ hst₂
    · simp [keepsActive, State.isActive, hs.shard, hs.minTime]
    · simp [keepsList, hs.minTime]
    · simp [keepsActive, State.isActive, hs₁.shard, hs₁.minTime]
  intro hclaim
  have hle := (hclaim s s₂ hs.reachable hpath (by rw [hs.time]; decide)).1
  rw [hs.time, htime] at hle
  exact absurd hle (by decide)

end Altibase.Smx
