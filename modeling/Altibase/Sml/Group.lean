/-
  Altibase.Sml.Group
  ──────────────────
  **THE COUNTERS OF A LOCK ITEM SUMMARISE ITS GRANT LIST.**

  `Group` says what `mGrantCnt`, `mArrLockCount`, `mFlag` and `mGrantLockMode`
  mean for a grant list: the length, the number of nodes of each mode, the
  union of the masks, the join of the modes.  Each way in which the code moves
  the grant list is one lemma here:

    * `Group.add` — a node is appended (`incTblLockModeAndUpdate`);
    * `Group.convert` — a node's mode is joined with another one
      (`decTbl…` then `incTbl…`);
    * `Group.remove`, `Group.lower` — a node leaves, or its mode is
      recomputed, and the group mode is decided anew from the flag.

  `Group.compatible_iff` turns the code's test against the summarised mode into
  a test against every holder.
-/
import Altibase.Sml.LockItem
import Mathlib.Data.List.Count

namespace Altibase.Sml

open Altibase.Lib

/-! ## §1. Counters and flag. -/

/-- The counters and the flag describe a list of modes. -/
structure Tally (arr : LockMode → Int) (flag : Mask) (l : List LockMode) : Prop where
  count : ∀ m, arr m = l.count m
  flag : flag = maskOf l

namespace Tally

variable {arr : LockMode → Int} {flag : Mask} {l k : List LockMode} {m : LockMode}

/-- The order of the list does not matter. -/
theorem perm (h : Tally arr flag l) (p : l.Perm k) : Tally arr flag k where
  count a := by rw [h.count a, p.count_eq]
  flag := by rw [h.flag, maskOf_perm p]

/-- `decTblLockModeAndTryUpdate`. -/
theorem dec (h : Tally arr flag (m :: l)) :
    Tally (Function.update arr m (arr m - 1))
      (if arr m - 1 = 0 then flag &&& ~~~ lockModeToMask m else flag) l where
  count a := by
    by_cases ha : a = m
    · subst ha
      rw [Function.update_self, h.count a, List.count_cons_self]
      omega
    · rw [Function.update_of_ne ha, h.count a, List.count_cons_of_ne (Ne.symm ha)]
  flag := by
    rw [h.count m, List.count_cons_self, h.flag]
    by_cases hm : m ∈ l
    · have hpos : 0 < l.count m := List.count_pos_iff.2 hm
      rw [if_neg (by omega), maskOf_cons_of_mem hm]
    · have hzero : l.count m = 0 := List.count_eq_zero.2 hm
      rw [if_pos (by omega), maskOf_cons_clear hm]

/-- `incTblLockModeAndUpdate`. -/
theorem inc (h : Tally arr flag l) :
    Tally (Function.update arr m (arr m + 1)) (flag ||| lockModeToMask m) (m :: l) where
  count a := by
    by_cases ha : a = m
    · subst ha
      rw [Function.update_self, h.count a, List.count_cons_self]
      omega
    · rw [Function.update_of_ne ha, h.count a, List.count_cons_of_ne (Ne.symm ha)]
  flag := by rw [h.flag, maskOf_cons, BitVec.or_comm]

end Tally

/-! ## §2. The grant list and its group mode. -/

/-- The join of a list of modes. -/
def joinOf (l : List LockMode) : LockMode :=
  l.foldr (· ⊔ ·) ⊥

/-- The summary of one node more. -/
theorem joinOf_cons (m : LockMode) (l : List LockMode) : joinOf (m :: l) = m ⊔ joinOf l := rfl

/-- The order of the nodes does not matter. -/
theorem joinOf_perm {l k : List LockMode} (p : l.Perm k) : joinOf l = joinOf k := by
  refine le_antisymm (foldr_sup_le_iff.2 fun m hm => ?_) (foldr_sup_le_iff.2 fun m hm => ?_)
  · exact le_foldr_sup (p.mem_iff.1 hm)
  · exact le_foldr_sup (p.mem_iff.2 hm)

/-- The summary fields of an item describe its grant list, whose nodes have the
    modes `mode`. -/
structure Group (grant : List NodeId) (cnt : Int) (arr : LockMode → Int) (flag : Mask)
    (group : LockMode) (mode : NodeId → LockMode) : Prop where
  nodup : grant.Nodup
  cnt : cnt = grant.length
  tally : Tally arr flag (grant.map mode)
  group : group = joinOf (grant.map mode)

namespace Group

variable {grant : List NodeId} {cnt : Int} {arr : LockMode → Int} {flag : Mask}
  {group : LockMode} {mode : NodeId → LockMode} {c : NodeId} {m : LockMode}

/-- A summarised item is in heavy mode. -/
theorem flag_ne_light (h : Group grant cnt arr flag group mode) : flag ≠ flagLightMode := by
  rw [h.tally.flag]
  exact maskOf_ne_light _

/-- **The group mode is the decision of the flag.** -/
theorem group_eq_decision (h : Group grant cnt arr flag group mode) :
    group = getDecision flag := by
  rw [h.group, h.tally.flag, getDecision_maskOf]
  rfl

/-- **One test against the group mode tests every holder.** -/
theorem compatible_iff (h : Group grant cnt arr flag group mode) (m : LockMode) :
    compatibleTBL group m = true ↔ ∀ c ∈ grant, compatibleTBL (mode c) m = true := by
  rw [← compat_iff, compat_comm, h.group, joinOf, compat_foldr_sup]
  simp only [List.forall_mem_map, ← compat_iff, compat_comm (a := m)]

/-- Every granted mode is below the group mode. -/
theorem mode_le_group (h : Group grant cnt arr flag group mode) (hc : c ∈ grant) :
    mode c ≤ group := by
  rw [h.group]
  exact le_foldr_sup (List.mem_map_of_mem hc)

/-- The group mode is the least such mode. -/
theorem group_le_iff (h : Group grant cnt arr flag group mode) {b : LockMode} :
    group ≤ b ↔ ∀ c ∈ grant, mode c ≤ b := by
  rw [h.group, joinOf, foldr_sup_le_iff, List.forall_mem_map]

/-- The modes may be read from any table that agrees on the grant list. -/
theorem congr {mode' : NodeId → LockMode} (h : Group grant cnt arr flag group mode)
    (hm : ∀ c ∈ grant, mode' c = mode c) : Group grant cnt arr flag group mode' := by
  have e : grant.map mode' = grant.map mode := List.map_congr_left hm
  exact ⟨h.nodup, h.cnt, e ▸ h.tally, e ▸ h.group⟩

/-- Nothing is granted. -/
theorem nil : Group [] 0 (fun _ => 0) 0 .nlock mode where
  nodup := List.nodup_nil
  cnt := rfl
  tally := ⟨fun _ => rfl, rfl⟩
  group := rfl

/-- A granted node may be taken first. -/
private theorem perm_split (hc : c ∈ grant) :
    (grant.map mode).Perm (mode c :: (grant.erase c).map mode) :=
  (List.perm_cons_erase hc).map mode

/-- The other modes do not see a conversion. -/
private theorem map_erase_update (hn : grant.Nodup) (b : LockMode) :
    (grant.erase c).map (Function.update mode c b) = (grant.erase c).map mode := by
  refine List.map_congr_left fun d hd => Function.update_of_ne ?_ _ _
  rintro rfl
  exact hn.not_mem_erase hd

/-- A new node of mode `m` at the tail of the grant list. -/
theorem add (h : Group grant cnt arr flag group mode) (hc : c ∉ grant) (hm : mode c = m) :
    Group (grant ++ [c]) (cnt + 1) (Function.update arr m (arr m + 1))
      (flag ||| lockModeToMask m) (group ⊔ m) mode := by
  have p : ((grant ++ [c]).map mode).Perm (m :: grant.map mode) := by
    rw [List.map_append, List.map_singleton, hm]
    exact List.perm_append_comm
  refine ⟨?_, ?_, h.tally.inc.perm p.symm, ?_⟩
  · exact List.nodup_append.2 ⟨h.nodup, List.nodup_singleton c, by
      intro a ha b hb
      rw [List.mem_singleton.1 hb]
      rintro rfl
      exact hc ha⟩
  · rw [List.length_append, h.cnt]; simp
  · rw [joinOf_perm p, joinOf_cons, ← h.group, sup_comm]

/-- The counters after the mode of `c` went from `mode c` to `b`. -/
private theorem tally_set (h : Group grant cnt arr flag group mode) (hc : c ∈ grant)
    (b : LockMode) {arr' : LockMode → Int} {flag' : Mask}
    (ht : Tally arr' flag' (b :: (grant.erase c).map mode)) :
    Tally arr' flag' (grant.map (Function.update mode c b)) := by
  refine ht.perm ?_
  have p : (grant.map (Function.update mode c b)).Perm
      (Function.update mode c b c :: (grant.erase c).map (Function.update mode c b)) :=
    perm_split hc
  rw [Function.update_self, map_erase_update h.nodup] at p
  exact p.symm

/-- The summary after a conversion. -/
private theorem join_set (h : Group grant cnt arr flag group mode) (hc : c ∈ grant)
    (b : LockMode) :
    joinOf (grant.map (Function.update mode c b)) = b ⊔ joinOf ((grant.erase c).map mode) := by
  rw [joinOf_perm (perm_split hc), Function.update_self, map_erase_update h.nodup, joinOf_cons]

/-- The mode of `c` is joined with `m`, the counters follow, and so does the group mode. -/
theorem convert (h : Group grant cnt arr flag group mode) (hc : c ∈ grant) (m : LockMode) :
    let arr₁ := Function.update arr (mode c) (arr (mode c) - 1)
    let flag₁ := if arr (mode c) - 1 = 0 then flag &&& ~~~ lockModeToMask (mode c) else flag
    Group grant cnt
      (Function.update arr₁ (mode c ⊔ m) (arr₁ (mode c ⊔ m) + 1))
      (flag₁ ||| lockModeToMask (mode c ⊔ m)) (group ⊔ m)
      (Function.update mode c (mode c ⊔ m)) := by
  refine ⟨h.nodup, h.cnt, tally_set h hc _ (h.tally.perm (perm_split hc)).dec.inc, ?_⟩
  rw [join_set h hc, h.group, joinOf_perm (perm_split hc), joinOf_cons, sup_right_comm]

/-- With a single holder the group mode is that holder's mode. -/
theorem group_eq_of_sole (h : Group grant cnt arr flag group mode) (hcnt : cnt = 1)
    (hc : c ∈ grant) : group = mode c := by
  have hlen : grant.length = 1 := by
    have := h.cnt
    omega
  obtain ⟨d, rfl⟩ := List.length_eq_one_iff.1 hlen
  rw [List.mem_singleton.1 hc, h.group]
  exact sup_bot_eq _

/-- The node leaves the grant list and the group mode is decided anew. -/
theorem remove (h : Group grant cnt arr flag group mode) (hc : c ∈ grant) :
    let flag₁ := if arr (mode c) - 1 = 0 then flag &&& ~~~ lockModeToMask (mode c) else flag
    Group (grant.erase c) (cnt - 1)
      (Function.update arr (mode c) (arr (mode c) - 1)) flag₁ (getDecision flag₁) mode := by
  have ht := (h.tally.perm (perm_split hc)).dec
  refine ⟨h.nodup.erase c, ?_, ht, ?_⟩
  · have hpos := List.length_pos_of_mem hc
    rw [List.length_erase_of_mem hc, h.cnt]
    omega
  · rw [ht.flag, getDecision_maskOf]
    rfl

/-- The mode of `c` becomes `b` and the group mode is decided anew. -/
theorem lower (h : Group grant cnt arr flag group mode) (hc : c ∈ grant) (b : LockMode) :
    let arr₁ := Function.update arr (mode c) (arr (mode c) - 1)
    let flag₁ := if arr (mode c) - 1 = 0 then flag &&& ~~~ lockModeToMask (mode c) else flag
    Group grant cnt (Function.update arr₁ b (arr₁ b + 1)) (flag₁ ||| lockModeToMask b)
      (getDecision (flag₁ ||| lockModeToMask b)) (Function.update mode c b) := by
  have ht := tally_set h hc b (h.tally.perm (perm_split hc)).dec.inc
  refine ⟨h.nodup, h.cnt, ht, ?_⟩
  rw [ht.flag, getDecision_maskOf]
  rfl

end Group

end Altibase.Sml
