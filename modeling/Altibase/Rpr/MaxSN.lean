/-
  Altibase.Rpr.MaxSN
  ──────────────────
  **THE LARGEST SNS OF THE MAP.**

  When a receiver ends, `setMaxSNs` scans the SN map once for two maxima: the
  largest master commit SN, and the largest replicated commit SN of the entries
  with both replicated SNs.  The getters compute them when they are asked for
  first; the largest value of an SN, `SM_SN_NULL`, says that there is none.

  Both getters return the same member, so `getMaxReplicatedSN` is right only
  where the two maxima agree; and the scan takes a maximum of zero for none.

  Main results:
    * `setMaxSNs_eq` — the scan, as two running maxima;
    * `getters_eq` — what the getters return after any calls;
    * `maxSNs_iff` — exactly the maps for which they are right.
-/
import Altibase.Rpr.SNMap

namespace Altibase.Rpr

open Altibase.Lib

/-! ## §1. The scan and the getters. -/

/-- The two members that hold the maxima. -/
structure Maxima where
  mMaxMasterCommitSN : SmSN
  mMaxReplicatedSN : SmSN
  deriving Repr, DecidableEq

/-- The body of the loop: `sMaxMasterCommitSN` and `sMaxReplicatedSN` after one
    entry. -/
def maxOfEntry (sMax : SmSN × SmSN) (sEntry : SNMapEntry) : SmSN × SmSN :=
  (if sEntry.mMasterCommitSN ≠ smSNNull then
      if sMax.1 < sEntry.mMasterCommitSN then sEntry.mMasterCommitSN else sMax.1
    else sMax.1,
   if sEntry.mReplicatedBeginSN ≠ smSNNull ∧ sEntry.mReplicatedCommitSN ≠ smSNNull then
      if sMax.2 < sEntry.mReplicatedCommitSN then sEntry.mReplicatedCommitSN else sMax.2
    else sMax.2)

/-- `setMaxSNs`. -/
def setMaxSNs (mSNMap : List SNMapEntry) : Maxima :=
  let sMax := mSNMap.foldl maxOfEntry (0, 0)
  { mMaxMasterCommitSN := if sMax.1 ≠ 0 then sMax.1 else smSNNull
    mMaxReplicatedSN := if sMax.2 ≠ 0 then sMax.2 else smSNNull }

/-- `getMaxMasterCommitSN`: the members after the call, and what it returns. -/
def getMaxMasterCommitSN (mSNMap : List SNMapEntry) (m : Maxima) : Maxima × SmSN :=
  let m := if m.mMaxMasterCommitSN = smSNNull ∧ mSNMap ≠ [] then setMaxSNs mSNMap else m
  (m, m.mMaxMasterCommitSN)

/-- `getMaxReplicatedSN`.  It returns the other member. -/
def getMaxReplicatedSN (mSNMap : List SNMapEntry) (m : Maxima) : Maxima × SmSN :=
  let m := if m.mMaxReplicatedSN = smSNNull ∧ mSNMap ≠ [] then setMaxSNs mSNMap else m
  (m, m.mMaxMasterCommitSN)

/-- The calls that read or compute the maxima. -/
inductive MaxCall
  | setMaxSNs
  | getMaxMasterCommitSN
  | getMaxReplicatedSN
  deriving Repr, DecidableEq

/-- The calls on a map, from `initialize` on. -/
def maxCalls (mSNMap : List SNMapEntry) : System Maxima MaxCall where
  init := { mMaxMasterCommitSN := smSNNull, mMaxReplicatedSN := smSNNull }
  step m
    | .setMaxSNs => some (setMaxSNs mSNMap)
    | .getMaxMasterCommitSN => some (getMaxMasterCommitSN mSNMap m).1
    | .getMaxReplicatedSN => some (getMaxReplicatedSN mSNMap m).1

/-! ## §2. What the maxima are for. -/

/-- The largest of some SNs; `SM_SN_NULL` if there are none. -/
def IsLargest (sns : List SmSN) (v : SmSN) : Prop :=
  (sns = [] ∧ v = smSNNull) ∨ (v ∈ sns ∧ ∀ sn ∈ sns, sn ≤ v)

/-- The master commit SNs of the map. -/
def masterCommitSNs (mSNMap : List SNMapEntry) : List SmSN :=
  (mSNMap.filter fun e => e.mMasterCommitSN ≠ smSNNull).map (·.mMasterCommitSN)

/-- The replicated commit SNs of the entries that have both replicated SNs. -/
def replicatedSNs (mSNMap : List SNMapEntry) : List SmSN :=
  (mSNMap.filter fun e =>
    e.mReplicatedBeginSN ≠ smSNNull ∧ e.mReplicatedCommitSN ≠ smSNNull).map (·.mReplicatedCommitSN)

/-- **The getters are right**, after any calls in any order. -/
def MaxSNsRight (mSNMap : List SNMapEntry) : Prop :=
  ∀ m, (maxCalls mSNMap).Reachable m →
    IsLargest (masterCommitSNs mSNMap) (getMaxMasterCommitSN mSNMap m).2 ∧
      IsLargest (replicatedSNs mSNMap) (getMaxReplicatedSN mSNMap m).2

/-- **The two maxima agree**, and they are not zero. -/
def MaximaAgree (mSNMap : List SNMapEntry) : Prop :=
  ∃ v, v ≠ 0 ∧ IsLargest (masterCommitSNs mSNMap) v ∧ IsLargest (replicatedSNs mSNMap) v

theorem IsLargest.unique {sns : List SmSN} {v w : SmSN} (hv : IsLargest sns v)
    (hw : IsLargest sns w) : v = w := by
  rcases hv with ⟨hnil, rfl⟩ | ⟨hmem, hle⟩
  · rcases hw with ⟨-, rfl⟩ | ⟨hmem', -⟩
    · rfl
    · rw [hnil] at hmem'
      cases hmem'
  · rcases hw with ⟨hnil, -⟩ | ⟨hmem', hle'⟩
    · rw [hnil] at hmem
      cases hmem
    · exact le_antisymm (hle' v hmem) (hle w hmem')

/-! ## §3. The scan. -/

/-- A running maximum. -/
def runningMax (start : SmSN) (sns : List SmSN) : SmSN :=
  sns.foldl (fun m sn => if m < sn then sn else m) start

theorem runningMax_spec (sns : List SmSN) : ∀ start,
    (runningMax start sns = start ∨ runningMax start sns ∈ sns) ∧
      start ≤ runningMax start sns ∧ ∀ sn ∈ sns, sn ≤ runningMax start sns := by
  induction sns with
  | nil =>
    intro start
    exact ⟨.inl rfl, le_rfl, fun sn h => absurd h List.not_mem_nil⟩
  | cons sn sns ih =>
    intro start
    obtain ⟨hmem, hstart, hle⟩ := ih (if start < sn then sn else start)
    have hrun : runningMax start (sn :: sns) = runningMax (if start < sn then sn else start) sns :=
      rfl
    rw [hrun]
    have hboth : start ≤ (if start < sn then sn else start) ∧
        sn ≤ (if start < sn then sn else start) := by
      split_ifs with h
      · exact ⟨h.le, le_rfl⟩
      · exact ⟨le_rfl, not_lt.mp h⟩
    refine ⟨?_, hboth.1.trans hstart, ?_⟩
    · rcases hmem with heq | hin
      · rw [heq]
        split_ifs with h
        · exact .inr List.mem_cons_self
        · exact .inl rfl
      · exact .inr (List.mem_cons_of_mem sn hin)
    · intro x hx
      rcases List.mem_cons.mp hx with rfl | hx
      · exact hboth.2.trans hstart
      · exact hle x hx

theorem runningMax_cons (start sn : SmSN) (sns : List SmSN) :
    runningMax start (sn :: sns) = runningMax (if start < sn then sn else start) sns := rfl

theorem masterCommitSNs_cons (e : SNMapEntry) (es : List SNMapEntry) :
    masterCommitSNs (e :: es) =
      if e.mMasterCommitSN ≠ smSNNull then e.mMasterCommitSN :: masterCommitSNs es
      else masterCommitSNs es := by
  unfold masterCommitSNs
  by_cases h : e.mMasterCommitSN = smSNNull
  · simp [h]
  · simp [h]

theorem replicatedSNs_cons (e : SNMapEntry) (es : List SNMapEntry) :
    replicatedSNs (e :: es) =
      if e.mReplicatedBeginSN ≠ smSNNull ∧ e.mReplicatedCommitSN ≠ smSNNull then
        e.mReplicatedCommitSN :: replicatedSNs es
      else replicatedSNs es := by
  unfold replicatedSNs
  by_cases h : e.mReplicatedBeginSN ≠ smSNNull ∧ e.mReplicatedCommitSN ≠ smSNNull
  · rw [List.filter_cons_of_pos (by simpa using h), if_pos h, List.map_cons]
  · rw [List.filter_cons_of_neg (by simpa using h), if_neg h]

/-- **The loop computes two running maxima at once.** -/
theorem foldl_maxOfEntry (mSNMap : List SNMapEntry) : ∀ sMax : SmSN × SmSN,
    mSNMap.foldl maxOfEntry sMax =
      (runningMax sMax.1 (masterCommitSNs mSNMap), runningMax sMax.2 (replicatedSNs mSNMap)) := by
  induction mSNMap with
  | nil => exact fun sMax => rfl
  | cons e es ih =>
    intro sMax
    rw [List.foldl_cons, ih, masterCommitSNs_cons, replicatedSNs_cons]
    -- an entry that a filter leaves out does not change that filter's maximum
    have hcommit : runningMax (maxOfEntry sMax e).1 (masterCommitSNs es) =
        runningMax sMax.1 (if e.mMasterCommitSN ≠ smSNNull then
          e.mMasterCommitSN :: masterCommitSNs es else masterCommitSNs es) := by
      show runningMax (if e.mMasterCommitSN ≠ smSNNull then _ else _) _ = _
      by_cases h : e.mMasterCommitSN ≠ smSNNull
      · rw [if_pos h, if_pos h, runningMax_cons]
      · rw [if_neg h, if_neg h]
    have hrepl : runningMax (maxOfEntry sMax e).2 (replicatedSNs es) =
        runningMax sMax.2 (if e.mReplicatedBeginSN ≠ smSNNull ∧ e.mReplicatedCommitSN ≠ smSNNull
          then e.mReplicatedCommitSN :: replicatedSNs es else replicatedSNs es) := by
      show runningMax (if e.mReplicatedBeginSN ≠ smSNNull ∧ e.mReplicatedCommitSN ≠ smSNNull
        then _ else _) _ = _
      by_cases h : e.mReplicatedBeginSN ≠ smSNNull ∧ e.mReplicatedCommitSN ≠ smSNNull
      · rw [if_pos h, if_pos h, runningMax_cons]
      · rw [if_neg h, if_neg h]
    rw [hcommit, hrepl]

/-- A maximum as the scan stores it. -/
def storedMax (sns : List SmSN) : SmSN :=
  if runningMax 0 sns ≠ 0 then runningMax 0 sns else smSNNull

theorem setMaxSNs_eq (mSNMap : List SNMapEntry) :
    setMaxSNs mSNMap =
      { mMaxMasterCommitSN := storedMax (masterCommitSNs mSNMap)
        mMaxReplicatedSN := storedMax (replicatedSNs mSNMap) } := by
  unfold setMaxSNs
  rw [foldl_maxOfEntry]
  rfl

theorem storedMax_ne_zero (sns : List SmSN) : storedMax sns ≠ 0 := by
  unfold storedMax
  split_ifs with h
  · exact h
  · decide

/-- **What the scan stores is the largest, unless that is zero.** -/
theorem storedMax_eq {sns : List SmSN} {v : SmSN} (hv : v ≠ 0) (h : IsLargest sns v) :
    storedMax sns = v := by
  unfold storedMax
  rcases h with ⟨rfl, rfl⟩ | ⟨hmem, hle⟩
  · rfl
  · obtain ⟨hcase, -, hge⟩ := runningMax_spec sns 0
    have hvle := hge v hmem
    have hpos : runningMax 0 sns ≠ 0 := by
      intro h0
      rw [h0] at hvle
      exact hv (le_antisymm hvle (Fin.zero_le v))
    rw [if_pos hpos]
    exact le_antisymm (hle _ (hcase.resolve_left hpos)) hvle

/-! ## §4. The getters. -/

theorem reachable_cases {mSNMap : List SNMapEntry} {m : Maxima}
    (h : (maxCalls mSNMap).Reachable m) : m = (maxCalls mSNMap).init ∨ m = setMaxSNs mSNMap := by
  refine System.Path.invariant
    (I := fun m => m = (maxCalls mSNMap).init ∨ m = setMaxSNs mSNMap) h ?_ (.inl rfl)
  intro s a s' hs _ hst
  cases a with
  | setMaxSNs => exact .inr (Option.some.inj hst).symm
  | getMaxMasterCommitSN =>
    obtain rfl := Option.some.inj hst
    unfold getMaxMasterCommitSN
    split_ifs
    · exact .inr rfl
    · exact hs
  | getMaxReplicatedSN =>
    obtain rfl := Option.some.inj hst
    unfold getMaxReplicatedSN
    split_ifs
    · exact .inr rfl
    · exact hs

/-- **Both getters return the largest master commit SN**, as it is stored. -/
theorem getters_eq {mSNMap : List SNMapEntry} {m : Maxima} (h : (maxCalls mSNMap).Reachable m) :
    (getMaxMasterCommitSN mSNMap m).2 = storedMax (masterCommitSNs mSNMap) ∧
      (getMaxReplicatedSN mSNMap m).2 = storedMax (masterCommitSNs mSNMap) := by
  have hset : (setMaxSNs mSNMap).mMaxMasterCommitSN = storedMax (masterCommitSNs mSNMap) := by
    rw [setMaxSNs_eq]
  have hempty : mSNMap = [] →
      (maxCalls mSNMap).init.mMaxMasterCommitSN = storedMax (masterCommitSNs mSNMap) := by
    rintro rfl
    rfl
  unfold getMaxMasterCommitSN getMaxReplicatedSN
  rcases reachable_cases h with rfl | rfl
  · by_cases hnil : mSNMap = []
    · rw [if_neg (fun h => h.2 hnil), if_neg (fun h => h.2 hnil)]
      exact ⟨hempty hnil, hempty hnil⟩
    · rw [if_pos ⟨rfl, hnil⟩, if_pos ⟨rfl, hnil⟩]
      exact ⟨hset, hset⟩
  · simp only [ite_self]
    exact ⟨hset, hset⟩

/-- **Exactly the maps whose maxima agree** have both getters return the largest
    SN, after any calls. -/
theorem maxSNs_iff (mSNMap : List SNMapEntry) : MaxSNsRight mSNMap ↔ MaximaAgree mSNMap := by
  constructor
  · intro h
    have hinit : (maxCalls mSNMap).Reachable (maxCalls mSNMap).init := .refl
    obtain ⟨hcommit, hrepl⟩ := h _ hinit
    obtain ⟨h1, h2⟩ := getters_eq hinit
    rw [h1] at hcommit
    rw [h2] at hrepl
    exact ⟨_, storedMax_ne_zero _, hcommit, hrepl⟩
  · rintro ⟨v, hv, hcommit, hrepl⟩ m hm
    obtain ⟨h1, h2⟩ := getters_eq hm
    rw [h1, h2, storedMax_eq hv hcommit]
    exact ⟨hcommit, hrepl⟩

/-- **One transaction**, committed at 20 on the master and at 40 here:
    `getMaxReplicatedSN` returns 20. -/
theorem maxSNs_wrong :
    (getMaxReplicatedSN [⟨0, 10, 20, 30, 40⟩] ⟨smSNNull, smSNNull⟩).2 = 20 ∧
      ¬ ∀ mSNMap, MaxSNsRight mSNMap := by
  refine ⟨by decide, fun h => ?_⟩
  obtain ⟨-, hrepl⟩ := h [⟨0, 10, 20, 30, 40⟩] _ .refl
  rcases hrepl with ⟨hnil, -⟩ | ⟨-, hle⟩
  · exact absurd hnil (by decide)
  · exact absurd (hle 40 (by decide)) (by decide)

end Altibase.Rpr
