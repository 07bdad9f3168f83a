/-
  Altibase.Qmo.RangeShape
  ───────────────────────
  **WHEN THE KEY RANGE AREA SUFFICES.**

  The estimate reserves the area of the ranges by counting comparisons.  Whether
  that is enough is a question of the shape of the predicate tree: on which
  columns its comparisons are, and how many ranges each of them has.

    * `RangesCounted` — on every column that is used a comparison has no more
      ranges than it counts for; an AND node has a comparison with several
      ranges behind the first for each copy it makes, and enough other ones for
      their callbacks; the last AND node has no more ranges than there are AND
      nodes and counts without a merge;
    * `makeRange_within_estimate` — under it no step runs out of the area;
    * `makeRange_overflows` — `i1 = 1 AND INLIST(i2, ..)` with the greatest list
      on an index over `(i1, i2)`: the copies are one for each element, the
      estimate reserves a single one.
-/

import Altibase.Qmo.KeyRange
import Mathlib.Tactic.Linarith
import Mathlib.Tactic.Ring

namespace Altibase.Qmo

open Altibase.Mtk

/-! ## §1. The shape of a predicate tree. -/

section Shape

variable {α : Type}

/-- A comparison is on a key column. -/
def Predicate.isOn (p : Predicate α) (k : KeyColumn α) : Bool := p.columnId = some k.id

/-- An argument is on a key column. -/
def hasColumn (ps : List (Predicate α)) (k : KeyColumn α) : Bool := ps.any fun p => p.isOn k

/-- The columns of a composite range: a key range has the leading ones that
have a comparison, a key filter all of them. -/
def usedColumns (aIsKeyRange : Bool) (ps : List (Predicate α)) (ks : List (KeyColumn α)) :
    List (KeyColumn α) :=
  if aIsKeyRange then ks.takeWhile (hasColumn ps) else ks.filter (hasColumn ps)

/-- The ranges on a column behind the first of each comparison. -/
def extraRanges (ps : List (Predicate α)) (k : KeyColumn α) : ℕ :=
  (ps.map fun p => if p.isOn k then p.ranges.length - 1 else 0).sum

/-- The callbacks that copies in front of the columns of a list carry in each
bound, with `n` columns in front of the list. -/
def callBackCopies (ps : List (Predicate α)) : ℕ → List (KeyColumn α) → ℕ
  | _, [] => 0
  | n, k :: ks => n * extraRanges ps k + callBackCopies ps (n + 1) ks

/-- A comparison whose ranges are merged with those of an earlier one. -/
def isMerged (ks : List (KeyColumn α)) (seen : List (Predicate α)) (p : Predicate α) : Bool :=
  ks.any fun k => p.isOn k && hasColumn seen k

/-- What `andRangeCount` adds for comparisons that are not merged. -/
def unmergedCount (ks : List (KeyColumn α)) :
    List (Predicate α) → ℕ → List (Predicate α) → ℕ
  | _, _, [] => 0
  | seen, sPrevRangeCount, p :: ps =>
      let sPrev := sPrevRangeCount + p.rangeCount - 1
      (if isMerged ks seen p then 0 else sPrev) + unmergedCount ks (p :: seen) sPrev ps

namespace AndNode

variable (ix : KeyIndex α) (aIsKeyRange : Bool) (a : AndNode α)

/-- The key columns that its composite range is made of. -/
def usedColumns : List (KeyColumn α) := Qmo.usedColumns aIsKeyRange a.arguments ix.columns

/-- The copies of composite ranges: one for each range behind the first of a
column behind the first. -/
def copies : ℕ := ((a.usedColumns ix aIsKeyRange).tail.map (extraRanges a.arguments)).sum

/-- The callbacks of the copies. -/
def callBackCopies : ℕ := Qmo.callBackCopies a.arguments 0 (a.usedColumns ix aIsKeyRange)

/-- What the range count of an AND node has for comparisons without a merge. -/
def unmergedCount : ℕ :=
  if a.next.isEmpty then a.first.rangeCount
  else Qmo.unmergedCount (a.usedColumns ix aIsKeyRange) [a.first] a.first.rangeCount a.next

/-- Counts without a merge, and reserved copies that are not made. -/
def spareCount : ℕ := a.unmergedCount ix aIsKeyRange + (a.notRangeCnt - a.copies ix aIsKeyRange)

end AndNode

/-- The AND nodes that are reached: a key range stops at the first that has no
comparison on the first key column. -/
def reachedNodes (ix : KeyIndex α) (aIsKeyRange : Bool) : List (AndNode α) → List (AndNode α)
  | [] => []
  | a :: aNode =>
      if aIsKeyRange && (a.usedColumns ix aIsKeyRange).isEmpty then [a]
      else a :: reachedNodes ix aIsKeyRange aNode

/-- **The shapes whose ranges the estimate counts.** -/
structure RangesCounted (ix : KeyIndex α) (aIsKeyRange : Bool) (aNode : List (AndNode α)) :
    Prop where
  ranges_le : ∀ a ∈ reachedNodes ix aIsKeyRange aNode, ∀ k ∈ a.usedColumns ix aIsKeyRange,
    ∀ p ∈ a.arguments, p.isOn k = true → p.ranges.length ≤ p.rangeCount
  copies_le : ∀ a ∈ reachedNodes ix aIsKeyRange aNode, a.copies ix aIsKeyRange ≤ a.notRangeCnt
  callBackCopies_le : ∀ a ∈ reachedNodes ix aIsKeyRange aNode,
    a.callBackCopies ix aIsKeyRange ≤ a.notRangeCnt * (a.arguments.length - a.notRangeCnt)
  last_le : 1 < aNode.length → ∀ a ∈ (reachedNodes ix aIsKeyRange aNode)[aNode.length - 1]?,
    ∀ k ∈ a.usedColumns ix aIsKeyRange, 1 + extraRanges a.arguments k
      ≤ aNode.length + (aNode.map fun b => b.spareCount ix aIsKeyRange).sum

instance (ix : KeyIndex α) (aIsKeyRange : Bool) (aNode : List (AndNode α)) :
    Decidable (RangesCounted ix aIsKeyRange aNode) :=
  decidable_of_iff
    ((∀ a ∈ reachedNodes ix aIsKeyRange aNode, ∀ k ∈ a.usedColumns ix aIsKeyRange,
        ∀ p ∈ a.arguments, p.isOn k = true → p.ranges.length ≤ p.rangeCount)
      ∧ (∀ a ∈ reachedNodes ix aIsKeyRange aNode, a.copies ix aIsKeyRange ≤ a.notRangeCnt)
      ∧ (∀ a ∈ reachedNodes ix aIsKeyRange aNode, a.callBackCopies ix aIsKeyRange
          ≤ a.notRangeCnt * (a.arguments.length - a.notRangeCnt))
      ∧ (1 < aNode.length → ∀ a ∈ (reachedNodes ix aIsKeyRange aNode)[aNode.length - 1]?,
          ∀ k ∈ a.usedColumns ix aIsKeyRange, 1 + extraRanges a.arguments k
            ≤ aNode.length + (aNode.map fun b => b.spareCount ix aIsKeyRange).sum))
    ⟨fun ⟨h1, h2, h3, h4⟩ => ⟨h1, h2, h3, h4⟩, fun ⟨h1, h2, h3, h4⟩ => ⟨h1, h2, h3, h4⟩⟩

end Shape

/-! ## §2. The range of one column. -/

section Column

variable {α : Type} {k : KeyColumn α}

/-- A comparison has its ranges on its own column, -/
theorem Predicate.rangesOn_pos {p : Predicate α} (h : p.isOn k = true) :
    p.rangesOn k.id = p.ranges := if_pos (of_decide_eq_true h)

/-- and none on another one. -/
theorem Predicate.rangesOn_neg {p : Predicate α} (h : p.isOn k = false) :
    p.rangesOn k.id = [] := if_neg (of_decide_eq_false h)

/-- Every comparison counts for a range. -/
theorem Predicate.rangeCount_pos (p : Predicate α) : 1 ≤ p.rangeCount := by
  unfold rangeCount
  cases p.operator with
  | compare _ => exact Nat.le_refl 1
  | notRange _ => exact Nat.le_succ 1
  | inlist _ => exact Nat.succ_le_succ (Nat.zero_le _)

/-- One more argument: the first on the column, one that is merged, or one that
is not on the column. -/
theorem nextRange_cases (p : Predicate α) (sPrevRange : List (SmiRange α)) :
    (p.isOn k = false ∧ nextRange k p sPrevRange = sPrevRange ∧ mergeSlots k p sPrevRange = 0) ∨
    (p.isOn k = true ∧ sPrevRange = [] ∧ nextRange k p sPrevRange = p.ranges
      ∧ mergeSlots k p sPrevRange = 0) ∨
    (p.isOn k = true ∧ sPrevRange ≠ []
      ∧ nextRange k p sPrevRange = k.mergeAndRange sPrevRange p.ranges
      ∧ mergeSlots k p sPrevRange = getAndRangeCount sPrevRange p.ranges) := by
  unfold nextRange mergeSlots
  cases hon : p.isOn k with
  | false =>
    rw [Predicate.rangesOn_neg hon]
    cases sPrevRange <;> simp
  | true =>
    have hne := p.ranges_ne
    rw [Predicate.rangesOn_pos hon]
    cases sPrevRange <;> simp [hne]

/-- There is no range on a column until an argument is on it. -/
theorem nextRange_isEmpty (p : Predicate α) (sPrevRange : List (SmiRange α)) :
    (nextRange k p sPrevRange).isEmpty = (sPrevRange.isEmpty && !p.isOn k) := by
  obtain ⟨hon, hnext, -⟩ | ⟨hon, rfl, hnext, -⟩ | ⟨hon, hprev, hnext, -⟩ :=
    nextRange_cases (k := k) p sPrevRange
  · simp [hon, hnext]
  · simp [hon, hnext, p.ranges_ne]
  · simp [hon, hnext, k.mergeAndRange_ne _ _ hprev p.ranges_ne]

/-- Ranges of one column stay ranges of one column. -/
theorem nextRange_one (p : Predicate α) {sPrevRange : List (SmiRange α)}
    (h : OneColumn sPrevRange) : OneColumn (nextRange k p sPrevRange) := by
  obtain ⟨-, hnext, -⟩ | ⟨-, -, hnext, -⟩ | ⟨-, -, hnext, -⟩ :=
    nextRange_cases (k := k) p sPrevRange
  · rw [hnext]
    exact h
  · rw [hnext]
    exact p.ranges_one
  · rw [hnext]
    exact k.mergeAndRange_one _ _ h p.ranges_one

/-- One more argument adds its ranges behind the first. -/
theorem nextRange_length_le (p : Predicate α) (sPrevRange : List (SmiRange α)) :
    (nextRange k p sPrevRange).length
      ≤ max 1 sPrevRange.length + if p.isOn k then p.ranges.length - 1 else 0 := by
  have hp := List.length_pos_iff.mpr p.ranges_ne
  obtain ⟨hon, hnext, -⟩ | ⟨hon, rfl, hnext, -⟩ | ⟨hon, hprev, hnext, -⟩ :=
    nextRange_cases (k := k) p sPrevRange
  · simp only [hon, hnext, Bool.false_eq_true, if_false]
    omega
  · simp only [hon, hnext, if_true, List.length_nil]
    omega
  · have hmerge := k.mergeAndRange_length _ _ hprev p.ranges_ne
    unfold getAndRangeCount at hmerge
    simp only [hon, hnext, if_true]
    omega

/-- One more argument on a column, -/
theorem hasColumn_cons (p : Predicate α) (ps : List (Predicate α)) :
    hasColumn (p :: ps) k = (p.isOn k || hasColumn ps k) := rfl

/-- and its ranges behind the first. -/
theorem extraRanges_cons (p : Predicate α) (ps : List (Predicate α)) :
    extraRanges (p :: ps) k
      = (if p.isOn k then p.ranges.length - 1 else 0) + extraRanges ps k := rfl

/-- **A column has a range** as soon as an argument is on it. -/
theorem columnRanges_isEmpty (ps : List (Predicate α)) (sPrevRange : List (SmiRange α)) :
    (columnRanges k ps sPrevRange).1.isEmpty = (sPrevRange.isEmpty && !hasColumn ps k) := by
  induction ps generalizing sPrevRange with
  | nil => simp [columnRanges, hasColumn]
  | cons p ps ih =>
    show (columnRanges k ps (nextRange k p sPrevRange)).1.isEmpty = _
    rw [ih, nextRange_isEmpty, hasColumn_cons, Bool.not_or, Bool.and_assoc]

/-- The bounds of the range of a column have one callback at most. -/
theorem columnRanges_one (ps : List (Predicate α)) {sPrevRange : List (SmiRange α)}
    (h : OneColumn sPrevRange) : OneColumn (columnRanges k ps sPrevRange).1 := by
  induction ps generalizing sPrevRange with
  | nil => exact h
  | cons p ps ih => exact ih (nextRange_one p h)

/-- A column has one range, and those behind the first of each argument. -/
theorem columnRanges_length_le (ps : List (Predicate α)) (sPrevRange : List (SmiRange α)) :
    (columnRanges k ps sPrevRange).1.length ≤ max 1 sPrevRange.length + extraRanges ps k := by
  induction ps generalizing sPrevRange with
  | nil =>
    show sPrevRange.length ≤ _
    omega
  | cons p ps ih =>
    have hstep := nextRange_length_le (k := k) p sPrevRange
    have hrest := ih (nextRange k p sPrevRange)
    rw [extraRanges_cons]
    show (columnRanges k ps (nextRange k p sPrevRange)).1.length ≤ _
    omega

/-- A column without a comparison has no AND merge. -/
theorem columnRanges_unused {ps : List (Predicate α)} (h : hasColumn ps k = false) :
    (columnRanges k ps []).2 = 0 := by
  induction ps with
  | nil => rfl
  | cons p ps ih =>
    rw [hasColumn_cons, Bool.or_eq_false_iff] at h
    obtain ⟨-, hnext, hslots⟩ | ⟨hon, -⟩ | ⟨hon, -⟩ := nextRange_cases (k := k) p []
    · show mergeSlots k p [] + (columnRanges k ps (nextRange k p [])).2 = 0
      rw [hslots, hnext, ih h.2]
    -- an argument on the column is excluded
    · rw [h.1] at hon
      cases hon
    · rw [h.1] at hon
      cases hon

end Column

/-! ## §3. The AND merges are counted. -/

section Merges

variable {α : Type}

/-- The AND merges that one more argument makes room for. -/
theorem mergeSlots_sum_le {ks : List (KeyColumn α)} (hnodup : (ks.map KeyColumn.id).Nodup)
    {sPrev : KeyColumn α → List (SmiRange α)} {seen : List (Predicate α)} {sPrevRangeCount : ℕ}
    (p : Predicate α) (hseen : ∀ k ∈ ks, (sPrev k).isEmpty = !hasColumn seen k)
    (hlen : ∀ k ∈ ks, (sPrev k).length ≤ sPrevRangeCount)
    (hp : ∀ k ∈ ks, p.isOn k = true → p.ranges.length ≤ p.rangeCount) :
    (ks.map fun k => mergeSlots k p (sPrev k)).sum
      ≤ if isMerged ks seen p then sPrevRangeCount + p.rangeCount - 1 else 0 := by
  apply sum_on_column_le p ks hnodup
  · intro k _ hid
    obtain ⟨-, -, hslots⟩ | ⟨hon, -⟩ | ⟨hon, -⟩ := nextRange_cases (k := k) p (sPrev k)
    · exact hslots
    · exact absurd (of_decide_eq_true hon) hid
    · exact absurd (of_decide_eq_true hon) hid
  · intro k hk _
    obtain ⟨-, -, hslots⟩ | ⟨-, -, -, hslots⟩ | ⟨hon, hprev, -, hslots⟩ :=
      nextRange_cases (k := k) p (sPrev k)
    · simp [hslots]
    · simp [hslots]
    · have hearlier : hasColumn seen k = true := by
        have hempty := hseen k hk
        rw [List.isEmpty_eq_false_iff.mpr hprev] at hempty
        simpa using hempty.symm
      have hmerged : isMerged ks seen p = true :=
        List.any_eq_true.mpr ⟨k, hk, by simp [hon, hearlier]⟩
      have hprevlen := hlen k hk
      have hplen := hp k hk hon
      rw [hslots, if_pos hmerged]
      unfold getAndRangeCount
      omega

/-- **The range count of an AND node** has the AND merges of its columns and the
counts of the comparisons that are not merged. -/
theorem columnRanges_merged_le {ks : List (KeyColumn α)} (hnodup : (ks.map KeyColumn.id).Nodup)
    (ps : List (Predicate α)) (sPrev : KeyColumn α → List (SmiRange α))
    (seen : List (Predicate α)) (sPrevRangeCount : ℕ) (hpos : 1 ≤ sPrevRangeCount)
    (hseen : ∀ k ∈ ks, (sPrev k).isEmpty = !hasColumn seen k)
    (hlen : ∀ k ∈ ks, (sPrev k).length ≤ sPrevRangeCount)
    (hranges : ∀ k ∈ ks, ∀ p ∈ ps, p.isOn k = true → p.ranges.length ≤ p.rangeCount) :
    (ks.map fun k => (columnRanges k ps (sPrev k)).2).sum
      + unmergedCount ks seen sPrevRangeCount ps ≤ andRangeCount sPrevRangeCount ps := by
  -- on the comparisons; `sPrev` is what each column has, `sPrevRangeCount` what was counted for
  -- it
  induction ps generalizing sPrev seen sPrevRangeCount with
  | nil =>
    have hzero : (ks.map fun k => (columnRanges k [] (sPrev k)).2).sum = 0 := by
      simp [columnRanges]
    simp [hzero, unmergedCount]
  | cons p ps ih =>
    have hcount := p.rangeCount_pos
    have hp : ∀ k ∈ ks, p.isOn k = true → p.ranges.length ≤ p.rangeCount :=
      fun k hk => hranges k hk p List.mem_cons_self
    -- one comparison: it is merged on its own column only
    have hslots := mergeSlots_sum_le hnodup p hseen hlen hp
    have hrest := ih (fun k => nextRange k p (sPrev k)) (p :: seen)
      (sPrevRangeCount + p.rangeCount - 1) (by omega)
      (fun k hk => by
        show (nextRange k p (sPrev k)).isEmpty = !hasColumn (p :: seen) k
        rw [nextRange_isEmpty, hseen k hk, hasColumn_cons, Bool.not_or, Bool.and_comm])
      (fun k hk => by
        have hnext := nextRange_length_le (k := k) p (sPrev k)
        have hprev := hlen k hk
        cases hon : p.isOn k with
        | false =>
          simp only [hon, Bool.false_eq_true, if_false] at hnext
          omega
        | true =>
          have hlen := hp k hk hon
          simp only [hon, if_true] at hnext
          omega)
      (fun k hk q hq => hranges k hk q (List.mem_cons_of_mem _ hq))
    -- its merge, and those of the rest
    have hsplit : (ks.map fun k => (columnRanges k (p :: ps) (sPrev k)).2).sum
        = (ks.map fun k => mergeSlots k p (sPrev k)).sum
          + (ks.map fun k => (columnRanges k ps (nextRange k p (sPrev k))).2).sum :=
      List.sum_map_add
    rw [hsplit]
    simp only [unmergedCount, andRangeCount]
    split_ifs at hslots ⊢ <;> omega

/-- The range count of an AND node is at least that of its widest column. -/
theorem extraRanges_le_andRangeCount (k : KeyColumn α) (ps : List (Predicate α)) (hne : ps ≠ [])
    (sPrevRangeCount : ℕ) (hranges : ∀ p ∈ ps, p.isOn k = true → p.ranges.length ≤ p.rangeCount) :
    sPrevRangeCount + extraRanges ps k ≤ andRangeCount sPrevRangeCount ps := by
  induction ps generalizing sPrevRangeCount with
  | nil => exact absurd rfl hne
  | cons p ps ih =>
    have hcount := p.rangeCount_pos
    have hp := hranges p List.mem_cons_self
    have hextra : (if p.isOn k then p.ranges.length - 1 else 0) ≤ p.rangeCount - 1 := by
      cases hon : p.isOn k with
      | false => simp
      | true =>
        have hlen := hp hon
        simp only [if_true]
        omega
    rw [extraRanges_cons]
    simp only [andRangeCount]
    by_cases hps : ps = []
    · subst hps
      simp only [extraRanges, List.map_nil, List.sum_nil]
      omega
    · have hrest := ih hps (sPrevRangeCount + p.rangeCount - 1)
        (fun q hq => hranges q (List.mem_cons_of_mem _ hq))
      omega

end Merges

/-! ## §4. The composite range and its copies. -/

section Composite

variable {α : Type}

/-- The bounds of the first range, the one that is copied, have at most `n`
callbacks. -/
def HeadCallBacks (n : ℕ) (l : List (SmiRange α)) : Prop :=
  ∀ r ∈ l.head?, r.minimum.data.length ≤ n ∧ r.maximum.data.length ≤ n

/-- A bound with one more column has one more callback at most. -/
theorem addCompositeRange_data_le {r c : SmiRange α} {n : ℕ}
    (hr : r.minimum.data.length ≤ n ∧ r.maximum.data.length ≤ n)
    (hc : c.minimum.data.length ≤ 1 ∧ c.maximum.data.length ≤ 1) :
    (addCompositeRange r c).minimum.data.length ≤ n + 1
      ∧ (addCompositeRange r c).maximum.data.length ≤ n + 1 := by
  unfold addCompositeRange addCompositeMinimum addCompositeMaximum
  constructor
  · show (if _ then _ else _ : SmiCallBack α).data.length ≤ n + 1
    split_ifs
    · simp only [List.length_append]
      omega
    · omega
  · show (if _ then _ else _ : SmiCallBack α).data.length ≤ n + 1
    split_ifs
    · simp only [List.length_append]
      omega
    · omega

/-- The composite ranges of one range of the next column. -/
theorem compositeRanges_cons (r : SmiRange α) (rs : List (SmiRange α)) (c : SmiRange α)
    (cs : List (SmiRange α)) :
    compositeRanges (r :: rs) (c :: cs)
      = addCompositeRange r c
        :: (if cs.isEmpty then rs
            else List.zipWith addCompositeRange (List.replicate cs.length r) cs) := by
  cases cs <;> simp [compositeRanges, List.replicate_succ]

/-- One more column gives the head of the composite range one more callback in
each bound at most. -/
theorem compositeRanges_head {sRange sCurRange : List (SmiRange α)} {n : ℕ}
    (hhead : HeadCallBacks n sRange) (hone : OneColumn sCurRange) (hne : sCurRange ≠ []) :
    HeadCallBacks (n + 1) (compositeRanges sRange sCurRange) := by
  obtain ⟨c, cs, rfl⟩ := List.exists_cons_of_ne_nil hne
  have hc := hone c List.mem_cons_self
  cases sRange with
  | nil =>
    -- the first column is the composite range itself
    intro r hr
    obtain rfl : c = r := by simpa [compositeRanges] using hr
    omega
  | cons r rs =>
    have hr := hhead r rfl
    rw [compositeRanges_cons]
    intro r' hr'
    obtain rfl : addCompositeRange r c = r' := by simpa using hr'
    exact addCompositeRange_data_le hr hc

/-- A column with ranges extends every composite range. -/
theorem compositeRanges_ne {sRange sCurRange : List (SmiRange α)} (hne : sCurRange ≠ []) :
    compositeRanges sRange sCurRange ≠ [] := by
  obtain ⟨c, cs, rfl⟩ := List.exists_cons_of_ne_nil hne
  cases sRange with
  | nil => simp [compositeRanges]
  | cons r rs => simp [compositeRanges_cons]

/-- The composite range has as many ranges as one of the two. -/
theorem compositeRanges_length_le {sRange sCurRange : List (SmiRange α)} {n : ℕ}
    (hrange : sRange.length ≤ n) (hcur : sCurRange.length ≤ n) :
    (compositeRanges sRange sCurRange).length ≤ n := by
  cases sRange with
  | nil => exact hcur
  | cons r rs =>
    cases sCurRange with
    | nil => exact hrange
    | cons c cs =>
      rw [compositeRanges_cons]
      split_ifs
      · exact hrange
      · simpa using hcur

/-- A column with a comparison is used, -/
theorem usedColumns_pos {ps : List (Predicate α)} {k : KeyColumn α} (aIsKeyRange : Bool)
    (ks : List (KeyColumn α)) (h : hasColumn ps k = true) :
    usedColumns aIsKeyRange ps (k :: ks) = k :: usedColumns aIsKeyRange ps ks := by
  cases aIsKeyRange <;> simp [usedColumns, h]

/-- one without ends a key range and is left out of a key filter. -/
theorem usedColumns_neg {ps : List (Predicate α)} {k : KeyColumn α} (aIsKeyRange : Bool)
    (ks : List (KeyColumn α)) (h : hasColumn ps k = false) :
    usedColumns aIsKeyRange ps (k :: ks)
      = if aIsKeyRange then [] else usedColumns aIsKeyRange ps ks := by
  cases aIsKeyRange <;> simp [usedColumns, h]

/-- **One key column of an AND node**: it has a comparison and extends the
composite range, or it has none. -/
theorem compositeDemand_cases (L : Layout) (aIsKeyRange : Bool) (ps : List (Predicate α))
    (k : KeyColumn α) (ks : List (KeyColumn α)) (sRange : List (SmiRange α)) :
    (hasColumn ps k = true ∧ (columnRanges k ps []).1 ≠ []
      ∧ compositeDemand L aIsKeyRange ps (k :: ks) sRange
        = let d := compositeDemand L aIsKeyRange ps ks
            (compositeRanges sRange (columnRanges k ps []).1)
          ⟨d.ranges, (columnRanges k ps []).2 + d.merged,
            compositeBytes L sRange (columnRanges k ps []).1 + d.copied⟩) ∨
    (hasColumn ps k = false
      ∧ compositeDemand L aIsKeyRange ps (k :: ks) sRange
        = if aIsKeyRange then ⟨sRange, 0, 0⟩ else compositeDemand L aIsKeyRange ps ks sRange) := by
  have hempty := columnRanges_isEmpty (k := k) ps []
  rw [List.isEmpty_nil, Bool.true_and] at hempty
  cases hk : hasColumn ps k with
  | true =>
    rw [hk, Bool.not_true] at hempty
    refine .inl ⟨rfl, List.isEmpty_eq_false_iff.mp hempty, ?_⟩
    simp only [compositeDemand, hempty, Bool.false_eq_true, if_false]
  | false =>
    rw [hk, Bool.not_false] at hempty
    refine .inr ⟨rfl, ?_⟩
    simp only [compositeDemand, hempty, columnRanges_unused hk, if_true, Nat.zero_add]

/-- There is a composite range if a column is used. -/
theorem compositeDemand_isEmpty (L : Layout) (aIsKeyRange : Bool) (ps : List (Predicate α))
    (ks : List (KeyColumn α)) (sRange : List (SmiRange α)) :
    (compositeDemand L aIsKeyRange ps ks sRange).ranges.isEmpty
      = (sRange.isEmpty && (usedColumns aIsKeyRange ps ks).isEmpty) := by
  induction ks generalizing sRange with
  | nil => cases aIsKeyRange <;> simp [compositeDemand, usedColumns]
  | cons k ks ih =>
    obtain ⟨hk, hne, hd⟩ | ⟨hk, hd⟩ := compositeDemand_cases L aIsKeyRange ps k ks sRange
    · rw [hd, usedColumns_pos _ _ hk]
      show (compositeDemand L aIsKeyRange ps ks _).ranges.isEmpty = _
      rw [ih, List.isEmpty_eq_false_iff.mpr (compositeRanges_ne hne)]
      simp
    · rw [hd, usedColumns_neg _ _ hk]
      cases aIsKeyRange with
      | true => simp
      | false => exact ih sRange

/-- The AND merges are those of the columns that are used. -/
theorem compositeDemand_merged (L : Layout) (aIsKeyRange : Bool) (ps : List (Predicate α))
    (ks : List (KeyColumn α)) (sRange : List (SmiRange α)) :
    (compositeDemand L aIsKeyRange ps ks sRange).merged
      = ((usedColumns aIsKeyRange ps ks).map fun k => (columnRanges k ps []).2).sum := by
  induction ks generalizing sRange with
  | nil => cases aIsKeyRange <;> simp [compositeDemand, usedColumns]
  | cons k ks ih =>
    obtain ⟨hk, -, hd⟩ | ⟨hk, hd⟩ := compositeDemand_cases L aIsKeyRange ps k ks sRange
    · rw [hd, usedColumns_pos _ _ hk, List.map_cons, List.sum_cons, ← ih]
    · rw [hd, usedColumns_neg _ _ hk]
      cases aIsKeyRange with
      | true => rfl
      | false => exact ih sRange

/-- The composite range has no more ranges than its widest column. -/
theorem compositeDemand_length_le (L : Layout) (aIsKeyRange : Bool) (ps : List (Predicate α))
    (ks : List (KeyColumn α)) {sRange : List (SmiRange α)} {n : ℕ} (hrange : sRange.length ≤ n)
    (hused : ∀ k ∈ usedColumns aIsKeyRange ps ks, 1 + extraRanges ps k ≤ n) :
    (compositeDemand L aIsKeyRange ps ks sRange).ranges.length ≤ n := by
  induction ks generalizing sRange with
  | nil => exact hrange
  | cons k ks ih =>
    obtain ⟨hk, -, hd⟩ | ⟨hk, hd⟩ := compositeDemand_cases L aIsKeyRange ps k ks sRange
    · rw [hd]
      rw [usedColumns_pos _ _ hk, List.forall_mem_cons] at hused
      have hlen := columnRanges_length_le (k := k) ps []
      rw [List.length_nil] at hlen
      exact ih (compositeRanges_length_le hrange (by omega)) hused.2
    · rw [hd]
      rw [usedColumns_neg _ _ hk] at hused
      -- a key range ends here, a key filter goes on with the next column
      cases aIsKeyRange with
      | true => exact hrange
      | false => exact ih hrange hused

/-- The copies of one column, with the callbacks of the columns before it. -/
theorem compositeBytes_le (L : Layout) (ps : List (Predicate α)) (k : KeyColumn α)
    {sRange : List (SmiRange α)} {n : ℕ} (hhead : HeadCallBacks n sRange) :
    compositeBytes L sRange (columnRanges k ps []).1
      ≤ L.estimateRangeDefault * extraRanges ps k
        + 2 * align8 L.mtkRangeCallBack * (n * extraRanges ps k) := by
  cases sRange with
  | nil => exact Nat.zero_le _
  | cons r rs =>
    have hr := hhead r rfl
    have hlen := columnRanges_length_le (k := k) ps []
    rw [List.length_nil] at hlen
    -- one copy: the range and the callbacks of its two bounds
    have hcopy : copyBytes L r
        ≤ L.estimateRangeDefault + align8 L.mtkRangeCallBack * (2 * n) := by
      unfold copyBytes
      have := Nat.mul_le_mul_left (align8 L.mtkRangeCallBack)
        (by omega : r.minimum.data.length + r.maximum.data.length ≤ 2 * n)
      omega
    calc ((columnRanges k ps []).1.length - 1) * copyBytes L r
        ≤ extraRanges ps k
            * (L.estimateRangeDefault + align8 L.mtkRangeCallBack * (2 * n)) :=
          Nat.mul_le_mul (by omega) hcopy
      _ = _ := by ring

/-- The copies in front of the columns behind `n` others. -/
theorem compositeDemand_copied_behind (L : Layout) (aIsKeyRange : Bool) (ps : List (Predicate α))
    (ks : List (KeyColumn α)) {sRange : List (SmiRange α)} {n : ℕ}
    (hhead : HeadCallBacks n sRange) :
    (compositeDemand L aIsKeyRange ps ks sRange).copied
      ≤ L.estimateRangeDefault * ((usedColumns aIsKeyRange ps ks).map (extraRanges ps)).sum
        + 2 * align8 L.mtkRangeCallBack
          * callBackCopies ps n (usedColumns aIsKeyRange ps ks) := by
  induction ks generalizing sRange n with
  | nil => exact Nat.zero_le _
  | cons k ks ih =>
    obtain ⟨hk, hne, hd⟩ | ⟨hk, hd⟩ := compositeDemand_cases L aIsKeyRange ps k ks sRange
    · -- the head has one more callback for the columns that follow
      have hbytes := compositeBytes_le L ps k hhead
      have hone : OneColumn (columnRanges k ps []).1 :=
        columnRanges_one ps fun r hr => absurd hr List.not_mem_nil
      have hrest := ih (compositeRanges_head hhead hone hne)
      rw [hd, usedColumns_pos _ _ hk, List.map_cons, List.sum_cons]
      simp only [callBackCopies, Nat.mul_add] at hrest ⊢
      omega
    · rw [hd, usedColumns_neg _ _ hk]
      cases aIsKeyRange with
      | true => exact Nat.zero_le _
      | false => exact ih hhead

/-- **The copies of an AND node**: none in front of the first column. -/
theorem compositeDemand_copied_le (L : Layout) (aIsKeyRange : Bool) (ps : List (Predicate α))
    (ks : List (KeyColumn α)) :
    (compositeDemand L aIsKeyRange ps ks []).copied
      ≤ L.estimateRangeDefault * ((usedColumns aIsKeyRange ps ks).tail.map (extraRanges ps)).sum
        + 2 * align8 L.mtkRangeCallBack
          * callBackCopies ps 0 (usedColumns aIsKeyRange ps ks) := by
  induction ks with
  | nil => exact Nat.zero_le _
  | cons k ks ih =>
    obtain ⟨hk, hne, hd⟩ | ⟨hk, hd⟩ := compositeDemand_cases L aIsKeyRange ps k ks []
    · have hone : OneColumn (columnRanges k ps []).1 :=
        columnRanges_one ps fun r hr => absurd hr List.not_mem_nil
      have hhead : HeadCallBacks 1 (compositeRanges [] (columnRanges k ps []).1) :=
        compositeRanges_head (fun r hr => by cases hr) hone hne
      -- from the second column on there is a range to copy
      have hrest := compositeDemand_copied_behind L aIsKeyRange ps ks hhead
      rw [hd, usedColumns_pos _ _ hk, List.tail_cons]
      simp only [callBackCopies, Nat.zero_mul, Nat.zero_add]
      exact Nat.le_trans (Nat.le_of_eq (Nat.zero_add _)) hrest
    · rw [hd, usedColumns_neg _ _ hk]
      cases aIsKeyRange with
      | true => exact Nat.zero_le _
      | false => exact ih

end Composite

/-! ## §5. One AND node. -/

namespace AndNode

variable {α : Type} {ix : KeyIndex α} {aIsKeyRange : Bool} {a : AndNode α}

/-- `ranges_le` of one AND node. -/
def Counted (ix : KeyIndex α) (aIsKeyRange : Bool) (a : AndNode α) : Prop :=
  ∀ k ∈ a.usedColumns ix aIsKeyRange, ∀ p ∈ a.arguments,
    p.isOn k = true → p.ranges.length ≤ p.rangeCount

/-- A column is used once. -/
theorem usedColumns_nodup (ix : KeyIndex α) (aIsKeyRange : Bool) (a : AndNode α) :
    ((a.usedColumns ix aIsKeyRange).map KeyColumn.id).Nodup := by
  have hsub : List.Sublist (a.usedColumns ix aIsKeyRange) ix.columns := by
    unfold usedColumns Qmo.usedColumns
    split_ifs
    · exact List.takeWhile_sublist _
    · exact List.filter_sublist
  exact ix.ids_nodup.sublist (hsub.map KeyColumn.id)

/-- An AND node has a range if it uses a column. -/
theorem demand_isEmpty (L : Layout) (ix : KeyIndex α) (aIsKeyRange : Bool) (a : AndNode α) :
    (a.demand L ix aIsKeyRange).ranges.isEmpty = (a.usedColumns ix aIsKeyRange).isEmpty :=
  compositeDemand_isEmpty L aIsKeyRange a.arguments ix.columns []

/-- An AND node has no more ranges than its widest column. -/
theorem demand_length_le (L : Layout) {n : ℕ}
    (h : ∀ k ∈ a.usedColumns ix aIsKeyRange, 1 + extraRanges a.arguments k ≤ n) :
    (a.demand L ix aIsKeyRange).ranges.length ≤ n :=
  compositeDemand_length_le L aIsKeyRange a.arguments ix.columns (Nat.zero_le n) h

/-- The range count has the AND merges and the comparisons without one. -/
theorem merged_le_rangeCount (L : Layout) (h : a.Counted ix aIsKeyRange) :
    (a.demand L ix aIsKeyRange).merged + a.unmergedCount ix aIsKeyRange ≤ a.rangeCount := by
  have hmerged : (a.demand L ix aIsKeyRange).merged
      = ((a.usedColumns ix aIsKeyRange).map fun k =>
          (columnRanges k a.next (a.first.rangesOn k.id)).2).sum := by
    refine (compositeDemand_merged L aIsKeyRange a.arguments ix.columns []).trans ?_
    congr 1
    refine List.map_congr_left fun k _ => ?_
    show mergeSlots k a.first [] + _ = _
    exact Nat.zero_add _
  rw [hmerged]
  unfold unmergedCount rangeCount
  by_cases hnext : a.next = []
  · -- a single comparison is merged with nothing
    rw [hnext, List.isEmpty_nil, if_pos rfl, if_pos rfl]
    simp [columnRanges]
  · rw [List.isEmpty_eq_false_iff.mpr hnext]
    simp only [Bool.false_eq_true, if_false]
    apply columnRanges_merged_le (usedColumns_nodup ix aIsKeyRange a) _ _ _ _
      a.first.rangeCount_pos
    · intro k _
      unfold hasColumn
      rw [List.any_cons, List.any_nil, Bool.or_false]
      cases hon : a.first.isOn k with
      | true => simp [Predicate.rangesOn_pos hon, a.first.ranges_ne]
      | false => simp [Predicate.rangesOn_neg hon]
    · intro k hk
      cases hon : a.first.isOn k with
      | true =>
        rw [Predicate.rangesOn_pos hon]
        exact h k hk a.first List.mem_cons_self hon
      | false => simp [Predicate.rangesOn_neg hon]
    · exact fun k hk p hp => h k hk p (List.mem_cons_of_mem _ hp)

/-- The range count has the ranges of every column. -/
theorem length_le_rangeCount (L : Layout) (h : a.Counted ix aIsKeyRange) :
    (a.demand L ix aIsKeyRange).ranges.length ≤ a.rangeCount := by
  refine demand_length_le L fun k hk => ?_
  have hfirst : 1 + (if a.first.isOn k then a.first.ranges.length - 1 else 0)
      ≤ a.first.rangeCount := by
    have hpos := a.first.rangeCount_pos
    split_ifs with hon
    · have := h k hk a.first List.mem_cons_self hon
      omega
    · omega
  have hsum : extraRanges a.arguments k
      = (if a.first.isOn k then a.first.ranges.length - 1 else 0) + extraRanges a.next k := rfl
  rw [hsum]
  unfold rangeCount
  by_cases hnext : a.next = []
  · rw [hnext, List.isEmpty_nil, if_pos rfl]
    exact hfirst
  · have hrest := extraRanges_le_andRangeCount k a.next hnext a.first.rangeCount
      fun p hp => h k hk p (List.mem_cons_of_mem _ hp)
    rw [List.isEmpty_eq_false_iff.mpr hnext]
    simp only [Bool.false_eq_true, if_false]
    omega

/-- What the estimate reserves for copies: ranges, and their callbacks. -/
theorem copyReserve_eq (L : Layout) (a : AndNode α) :
    a.copyReserve L = L.estimateRangeDefault * a.notRangeCnt
      + 2 * align8 L.mtkRangeCallBack
        * (a.notRangeCnt * (a.arguments.length - a.notRangeCnt)) := by
  unfold copyReserve
  split_ifs with hcnt
  · ring
  · have hzero : a.notRangeCnt = 0 := by omega
    simp [hzero]

/-- The copies and the reserved ones that are not made. -/
theorem copied_le_copyReserve (L : Layout) (hcopies : a.copies ix aIsKeyRange ≤ a.notRangeCnt)
    (hcallBacks : a.callBackCopies ix aIsKeyRange
      ≤ a.notRangeCnt * (a.arguments.length - a.notRangeCnt)) :
    (a.demand L ix aIsKeyRange).copied
      + L.estimateRangeDefault * (a.notRangeCnt - a.copies ix aIsKeyRange)
      ≤ a.copyReserve L := by
  have hdemand : (a.demand L ix aIsKeyRange).copied
      ≤ L.estimateRangeDefault * a.copies ix aIsKeyRange
        + 2 * align8 L.mtkRangeCallBack * a.callBackCopies ix aIsKeyRange :=
    compositeDemand_copied_le L aIsKeyRange a.arguments ix.columns
  have hmul := Nat.mul_le_mul_left (2 * align8 L.mtkRangeCallBack) hcallBacks
  have hsplit : L.estimateRangeDefault * a.notRangeCnt
      = L.estimateRangeDefault * a.copies ix aIsKeyRange
        + L.estimateRangeDefault * (a.notRangeCnt - a.copies ix aIsKeyRange) := by
    rw [← Nat.mul_add, Nat.add_sub_cancel' hcopies]
  rw [copyReserve_eq]
  omega

/-- The area of an AND node besides that of its comparisons. -/
def builtBytes (L : Layout) (ix : KeyIndex α) (aIsKeyRange : Bool) (a : AndNode α) : ℕ :=
  align8 L.smiRange * (a.demand L ix aIsKeyRange).merged + (a.demand L ix aIsKeyRange).copied

/-- **What an AND node builds** and leaves over is in its reserve and its range
count, counted once. -/
theorem builtBytes_le (L : Layout) (hcounted : a.Counted ix aIsKeyRange)
    (hcopies : a.copies ix aIsKeyRange ≤ a.notRangeCnt)
    (hcallBacks : a.callBackCopies ix aIsKeyRange
      ≤ a.notRangeCnt * (a.arguments.length - a.notRangeCnt)) :
    a.builtBytes L ix aIsKeyRange
      + (align8 L.smiRange + L.pointer) * a.spareCount ix aIsKeyRange
      ≤ a.copyReserve L + (align8 L.smiRange + L.pointer) * a.rangeCount := by
  have hcount := Nat.mul_le_mul_left (align8 L.smiRange + L.pointer)
    (a.merged_le_rangeCount L hcounted)
  have hcopied := copied_le_copyReserve L hcopies hcallBacks
  -- a range that no copy is made of is larger than a slot of a merge
  have hspare := Nat.mul_le_mul_right (a.notRangeCnt - a.copies ix aIsKeyRange) L.callBack_le
  have hslot := Nat.mul_le_mul_right (a.demand L ix aIsKeyRange).merged
    (Nat.le_add_right (align8 L.smiRange) L.pointer)
  unfold Layout.estimateRangeDefault at hcopied
  unfold builtBytes spareCount
  rw [Nat.mul_add] at hcount ⊢
  omega

end AndNode

/-! ## §6. The AND nodes and the OR merge. -/

section Nodes

variable {α : Type} {L : Layout} {ix : KeyIndex α} {aIsKeyRange : Bool} {aRangeAreaSize : ℕ}

/-- The ranges of the list that the AND nodes leave. -/
def listRanges (L : Layout) (ix : KeyIndex α) (aIsKeyRange : Bool) (aNode : List (AndNode α)) :
    List (SmiRange α) :=
  (reachedNodes ix aIsKeyRange aNode).flatMap fun a => (a.demand L ix aIsKeyRange).ranges

/-- The area of the comparisons of an AND node. -/
def AndNode.comparisonBytes (L : Layout) (a : AndNode α) : ℕ :=
  (a.arguments.map (Predicate.estimateRange L)).sum

/-- The first node is reached in any case. -/
theorem reachedNodes_cons (ix : KeyIndex α) (aIsKeyRange : Bool) (a : AndNode α)
    (aNode : List (AndNode α)) :
    reachedNodes ix aIsKeyRange (a :: aNode)
      = if aIsKeyRange && (a.usedColumns ix aIsKeyRange).isEmpty then [a]
        else a :: reachedNodes ix aIsKeyRange aNode := rfl

/-- The nodes that are reached come first. -/
theorem reachedNodes_prefix (ix : KeyIndex α) (aIsKeyRange : Bool) (aNode : List (AndNode α)) :
    ∃ rest, aNode = reachedNodes ix aIsKeyRange aNode ++ rest := by
  induction aNode with
  | nil => exact ⟨[], rfl⟩
  | cons a aNode ih =>
    obtain ⟨rest, hrest⟩ := ih
    rw [reachedNodes_cons]
    split_ifs
    · exact ⟨aNode, rfl⟩
    · exact ⟨rest, congrArg (a :: ·) hrest⟩

/-- The AND nodes that are reached, one after the other. -/
theorem makeRangeList_within (L : Layout) (hw : aRangeAreaSize < 2 ^ 32) (ix : KeyIndex α)
    (aIsKeyRange : Bool) (aNode : List (AndNode α)) (sRangeList : List (SmiRange α)) (aOffset : ℕ)
    (h : aOffset + (aNode.map (AndNode.comparisonBytes L)).sum
      + ((reachedNodes ix aIsKeyRange aNode).map (AndNode.builtBytes L ix aIsKeyRange)).sum
      ≤ aRangeAreaSize) :
    Within (makeRangeList L aRangeAreaSize ix aIsKeyRange aNode aOffset sRangeList)
      (sRangeList ++ listRanges L ix aIsKeyRange aNode)
      (aOffset + (aNode.map (AndNode.comparisonBytes L)).sum
        + ((reachedNodes ix aIsKeyRange aNode).map
            (AndNode.builtBytes L ix aIsKeyRange)).sum) := by
  induction aNode generalizing aOffset sRangeList with
  | nil => exact ⟨aOffset, by simp [makeRangeList, listRanges, reachedNodes], by omega⟩
  | cons a aNode ih =>
    have hleaf : columnsBytes L a.arguments ix.columns ≤ a.comparisonBytes L :=
      columnsBytes_le L a.arguments ix.columns ix.ids_nodup
    have hbuilt : a.builtBytes L ix aIsKeyRange = align8 L.smiRange
        * (a.demand L ix aIsKeyRange).merged + (a.demand L ix aIsKeyRange).copied := rfl
    have hempty := a.demand_isEmpty L ix aIsKeyRange
    rw [List.map_cons, List.sum_cons] at h ⊢
    unfold listRanges
    rw [reachedNodes_cons] at h ⊢
    by_cases hstop : (aIsKeyRange && (a.usedColumns ix aIsKeyRange).isEmpty) = true
    · -- no comparison on the first key column: the key range stops
      simp only [if_pos hstop, List.map_cons, List.map_nil, List.sum_cons, List.sum_nil,
        List.flatMap_cons, List.flatMap_nil, List.append_nil, Nat.add_zero] at h ⊢
      obtain ⟨sOffset, ha, hle⟩ := makeCompositeRange_within hw aIsKeyRange a.arguments ix.columns
        [] aOffset (d := a.demand L ix aIsKeyRange) rfl (by omega)
      obtain ⟨hkey, hused⟩ := Bool.and_eq_true_iff.mp hstop
      rw [hused] at hempty
      refine ⟨sOffset, ?_, by omega⟩
      simp only [makeRangeList, ha, if_pos hempty, if_pos hkey]
      rw [List.isEmpty_iff.mp hempty, List.append_nil]
    · simp only [if_neg hstop, List.map_cons, List.sum_cons, List.flatMap_cons] at h ⊢
      obtain ⟨sOffset, ha, hle⟩ := makeCompositeRange_within hw aIsKeyRange a.arguments ix.columns
        [] aOffset (d := a.demand L ix aIsKeyRange) rfl (by omega)
      simp only [makeRangeList, ha]
      rw [← hempty] at hstop
      by_cases hranges : (a.demand L ix aIsKeyRange).ranges.isEmpty = true
      · -- a key filter goes on without a range of this node
        have hfilter : aIsKeyRange = false := by
          cases aIsKeyRange with
          | false => rfl
          | true => exact absurd (by simp [hranges]) hstop
        obtain ⟨sOffset', hrec, hle'⟩ := ih sRangeList sOffset (by omega)
        unfold listRanges at hrec
        refine ⟨sOffset', ?_, by omega⟩
        rw [if_pos hranges, if_neg (by simp [hfilter]), hrec, List.isEmpty_iff.mp hranges,
          List.nil_append]
      · obtain ⟨sOffset', hrec, hle'⟩ := ih (sRangeList ++ (a.demand L ix aIsKeyRange).ranges)
          sOffset (by omega)
        unfold listRanges at hrec
        refine ⟨sOffset', ?_, by omega⟩
        rw [if_neg hranges, hrec, List.append_assoc]

/-- The OR merge takes a pointer and a range for each range of the list, and
runs only over several AND nodes. -/
theorem mergeRangeList_within (L : Layout) (hw : aRangeAreaSize < 2 ^ 32) (ix : KeyIndex α)
    (aNode : List (AndNode α)) (sRangeList : List (SmiRange α)) (sOffset : ℕ)
    (hoffset : sOffset ≤ aRangeAreaSize) (h : 1 < aNode.length →
      sOffset + (align8 L.smiRange + L.pointer) * sRangeList.length ≤ aRangeAreaSize) :
    ∃ made, mergeRangeList L aRangeAreaSize ix aNode sOffset sRangeList = .ok made
      ∧ made.sOffset ≤ aRangeAreaSize := by
  unfold mergeRangeList
  by_cases hmerge : 1 < aNode.length ∧ 1 < sRangeList.length
  · have hroom := h hmerge.1
    simp only [if_pos hmerge, Nat.add_mul] at hroom ⊢
    have harray : takeArea aRangeAreaSize sOffset (L.pointer * sRangeList.length)
        = .ok (sOffset + L.pointer * sRangeList.length) := takeArea_ok hw (by omega)
    have hmerged : takeArea aRangeAreaSize (sOffset + L.pointer * sRangeList.length)
        (align8 L.smiRange * sRangeList.length)
        = .ok (sOffset + L.pointer * sRangeList.length + align8 L.smiRange * sRangeList.length) :=
      takeArea_ok hw (by omega)
    simp only [harray, hmerged]
    exact ⟨_, rfl, by simp only; omega⟩
  · simp only [if_neg hmerge]
    exact ⟨_, rfl, hoffset⟩

/-- The range count of the estimate: an AND node in front of the last is counted
twice, the last once. -/
theorem le_orRangeCount (aNode : List (AndNode α)) (a : AndNode α) (sPrevRangeCount : ℕ) :
    (aNode.length + 1) * sPrevRangeCount + 2 * (aNode.map AndNode.rangeCount).sum + a.rangeCount
      ≤ orRangeCount sPrevRangeCount (aNode ++ [a]) := by
  induction aNode generalizing sPrevRangeCount with
  | nil =>
    simp only [List.nil_append, orRangeCount, List.length_nil, List.map_nil, List.sum_nil]
    omega
  | cons b aNode ih =>
    have hrest := ih (sPrevRangeCount + b.rangeCount)
    have hcounted : (aNode.length + 1) * (sPrevRangeCount + b.rangeCount)
        = (aNode.length + 1) * sPrevRangeCount + aNode.length * b.rangeCount + b.rangeCount := by
      ring
    simp only [List.cons_append, orRangeCount, List.length_cons, List.map_cons, List.sum_cons]
    rw [Nat.add_mul (aNode.length + 1), Nat.one_mul]
    omega

/-- What AND nodes in front of the last build and leave. -/
theorem builtBytes_sum_le (aNode : List (AndNode α))
    (h : ∀ a ∈ aNode, a.builtBytes L ix aIsKeyRange
        + (align8 L.smiRange + L.pointer) * a.spareCount ix aIsKeyRange
      ≤ a.copyReserve L + (align8 L.smiRange + L.pointer) * a.rangeCount)
    (hlen : ∀ a ∈ aNode, (a.demand L ix aIsKeyRange).ranges.length ≤ a.rangeCount) :
    (aNode.map (AndNode.builtBytes L ix aIsKeyRange)).sum
      + (align8 L.smiRange + L.pointer)
        * (aNode.flatMap fun a => (a.demand L ix aIsKeyRange).ranges).length
      + (align8 L.smiRange + L.pointer)
        * (aNode.map fun a => a.spareCount ix aIsKeyRange).sum
      ≤ (aNode.map (AndNode.copyReserve L)).sum
        + (align8 L.smiRange + L.pointer) * (2 * (aNode.map AndNode.rangeCount).sum) := by
  induction aNode with
  | nil => exact Nat.le_refl _
  | cons a aNode ih =>
    rw [List.forall_mem_cons] at h hlen
    have hrest := ih h.2 hlen.2
    have hcount := Nat.mul_le_mul_left (align8 L.smiRange + L.pointer) hlen.1
    have ha := h.1
    simp only [List.map_cons, List.sum_cons, List.flatMap_cons, List.length_append, Nat.mul_add]
      at hrest ⊢
    linarith

namespace RangesCounted

variable {aNode : List (AndNode α)}

/-- What is built for a node that is reached, and what its reserve leaves for the OR
merge. -/
theorem builtBytes_le (h : RangesCounted ix aIsKeyRange aNode) (L : Layout) :
    ∀ a ∈ reachedNodes ix aIsKeyRange aNode, a.builtBytes L ix aIsKeyRange
        + (align8 L.smiRange + L.pointer) * a.spareCount ix aIsKeyRange
      ≤ a.copyReserve L + (align8 L.smiRange + L.pointer) * a.rangeCount :=
  fun a ha => a.builtBytes_le L (h.ranges_le a ha) (h.copies_le a ha) (h.callBackCopies_le a ha)

/-- A node that is reached has no more ranges than it counts for. -/
theorem length_le (h : RangesCounted ix aIsKeyRange aNode) (L : Layout) :
    ∀ a ∈ reachedNodes ix aIsKeyRange aNode,
      (a.demand L ix aIsKeyRange).ranges.length ≤ a.rangeCount :=
  fun a ha => a.length_le_rangeCount L (h.ranges_le a ha)

/-- A single AND node: its merges are in the range count. -/
theorem single_fits {a : AndNode α} (h : RangesCounted ix aIsKeyRange [a]) (L : Layout) :
    a.builtBytes L ix aIsKeyRange
      ≤ a.copyReserve L + (align8 L.smiRange + L.pointer) * orRangeCount 1 [a] := by
  have ha := h.builtBytes_le L a (by rw [reachedNodes_cons]; split_ifs <;> exact List.mem_cons_self)
  have hcount := Nat.mul_le_mul_left (align8 L.smiRange + L.pointer)
    (by simp [orRangeCount] : a.rangeCount ≤ orRangeCount 1 [a])
  omega

/-- **Several AND nodes**: the reserves and the range count have room for what
is built and for the OR merge. -/
theorem several_fit (h : RangesCounted ix aIsKeyRange aNode) (L : Layout)
    (hseveral : 1 < aNode.length) :
    ((reachedNodes ix aIsKeyRange aNode).map (AndNode.builtBytes L ix aIsKeyRange)).sum
      + (align8 L.smiRange + L.pointer) * (listRanges L ix aIsKeyRange aNode).length
      ≤ (aNode.map (AndNode.copyReserve L)).sum
        + (align8 L.smiRange + L.pointer) * orRangeCount 1 aNode := by
  have hbuilt := h.builtBytes_le L
  have hlen := h.length_le L
  have hlast := h.last_le hseveral
  unfold listRanges
  obtain ⟨rest, hrest⟩ := reachedNodes_prefix ix aIsKeyRange aNode
  generalize reachedNodes ix aIsKeyRange aNode = reached at *
  subst hrest
  obtain rfl | ⟨between, a, rfl⟩ := List.eq_nil_or_concat' rest
  · -- the last node is reached, and `last_le` bounds its ranges
    obtain rfl | ⟨init, a, rfl⟩ := List.eq_nil_or_concat' reached
    · exact absurd hseveral (by simp)
    · rw [List.append_nil] at hlast ⊢
      have hranges := a.demand_length_le L (hlast a (by simp))
      have hmul := Nat.mul_le_mul_left (align8 L.smiRange + L.pointer) hranges
      have hcount := Nat.mul_le_mul_left (align8 L.smiRange + L.pointer) (le_orRangeCount init a 1)
      have ha := hbuilt a (by simp)
      have hinit := builtBytes_sum_le init (fun b hb => hbuilt b (List.mem_append_left _ hb))
        (fun b hb => hlen b (List.mem_append_left _ hb))
      simp only [List.map_append, List.sum_append, List.map_cons, List.map_nil, List.sum_cons,
        List.sum_nil, List.flatMap_append, List.flatMap_cons, List.flatMap_nil,
        List.length_append, List.length_cons, List.length_nil, Nat.add_zero, List.append_nil,
        Nat.mul_add, Nat.mul_one] at *
      linarith
  · -- the last node is not reached, all others are counted twice
    have hreached := builtBytes_sum_le reached hbuilt hlen
    have hcount := Nat.mul_le_mul_left (align8 L.smiRange + L.pointer)
      (le_orRangeCount (reached ++ between) a 1)
    rw [← List.append_assoc]
    simp only [List.map_append, List.sum_append, Nat.mul_add] at *
    omega

end RangesCounted

/-- The exact size, with the range count times a slot of the merge. -/
theorem keyRangeSize_eq (L : Layout) (aNode : List (AndNode α)) :
    keyRangeSize L aNode = (aNode.map (AndNode.comparisonBytes L)).sum
      + (aNode.map (AndNode.copyReserve L)).sum
      + (align8 L.smiRange + L.pointer) * orRangeCount 1 aNode := by
  have hsplit : (aNode.map (AndNode.estimateRange L)).sum
      = (aNode.map (AndNode.comparisonBytes L)).sum
        + (aNode.map (AndNode.copyReserve L)).sum := List.sum_map_add
  unfold keyRangeSize
  rw [hsplit]
  ring

end Nodes

/-! ## §7. An index over two integer columns. -/

section TwoColumns

/-- The default AND merge returns a range. -/
theorem mergeAndRangeDefault_ne {α : Type} (K : KeyCompare α) (l1 l2 : List (SmiRange α)) :
    mergeAndRangeDefault K l1 l2 ≠ [] := by
  unfold mergeAndRangeDefault
  split
  · simp
  · assumption

/-- It keeps ranges of one column. -/
theorem mergeAndRangeDefault_one {α : Type} (K : KeyCompare α) {l1 l2 : List (SmiRange α)}
    (h1 : OneColumn l1) (h2 : OneColumn l2) : OneColumn (mergeAndRangeDefault K l1 l2) :=
  mergeAndRangeDefault_bounds (P := fun b => b.data.length ≤ 1) (Q := fun b => b.data.length ≤ 1)
    (Nat.le_refl 1) (Nat.le_refl 1) h1 h2

/-- A key column of type INTEGER: `mtdInteger` merges by the default functions. -/
def integerColumn (id : ℕ) : KeyColumn Int where
  id := id
  mergeAndRange := mergeAndRangeDefault integerCompare
  mergeOrRangeList := mergeOrRangeListDefault integerCompare
  mergeAndRange_ne l1 l2 _ _ := mergeAndRangeDefault_ne integerCompare l1 l2
  mergeAndRange_length := mergeAndRangeDefault_length integerCompare
  mergeAndRange_one _ _ := mergeAndRangeDefault_one integerCompare

/-- The index over the columns 1 and 2. -/
def integerIndex : KeyIndex Int where
  first := integerColumn 1
  rest := [integerColumn 2]
  ids_nodup := by decide

/-- The range of `= v`. -/
def pointRange (v : Int) : SmiRange Int := integerRange .ge (.value v) .le (.value v)

/-- A bound of an integer column has one callback at most. -/
theorem integerRange_one (k1 : Mtk.Kind) (c1 : MtkRangeCallBack Int) (k2 : Mtk.Kind)
    (c2 : MtkRangeCallBack Int) : (integerRange k1 c1 k2 c2).minimum.data.length ≤ 1
      ∧ (integerRange k1 c1 k2 c2).maximum.data.length ≤ 1 := ⟨Nat.le_refl 1, Nat.le_refl 1⟩

/-- `= v` on a column. -/
def equalPredicate (columnId : ℕ) (v : Int) : Predicate Int where
  columnId := some columnId
  operator := .compare layout64.estimateRangeDefault
  ranges := [pointRange v]
  ranges_ne := List.cons_ne_nil _ _
  ranges_one := List.forall_mem_singleton.mpr (integerRange_one _ _ _ _)
  inlist_le _ h := nomatch h

/-- `!= v` on a column. -/
def notEqualPredicate (columnId : ℕ) (v : Int) : Predicate Int where
  columnId := some columnId
  operator := .notRange (2 * layout64.estimateRangeDefault)
  ranges := [integerRange .ge .minimumLimit .lt (.value v),
    integerRange .gt (.value v) .lt .maximumLimit4Mtd]
  ranges_ne := List.cons_ne_nil _ _
  ranges_one := List.forall_mem_cons.mpr
    ⟨integerRange_one _ _ _ _, List.forall_mem_singleton.mpr (integerRange_one _ _ _ _)⟩
  inlist_le _ h := nomatch h

/-- `INLIST` on a column with the greatest list: `1, 2, .., 1000`. -/
def inlistPredicate (columnId : ℕ) : Predicate Int where
  columnId := some columnId
  operator := .inlist inlistKeyRangeCountMax
  ranges := (List.range inlistKeyRangeCountMax).map fun i : ℕ => pointRange (i + 1)
  ranges_ne h := by
    have hlen := congrArg List.length h
    rw [List.length_map, List.length_range] at hlen
    exact absurd hlen (by decide)
  ranges_one := List.forall_mem_map.mpr fun _ _ => integerRange_one _ _ _ _
  inlist_le n h := by
    have hn := Operator.inlist.inj h
    simp [← hn]

/-- `i1 = 7 OR (i1 = 1 AND i2 != 2 AND i2 != 3)`: an AND merge, two copies and an
OR merge of four ranges. -/
def mergedTree : List (AndNode Int) :=
  [⟨equalPredicate 1 7, []⟩, ⟨equalPredicate 1 1, [notEqualPredicate 2 2, notEqualPredicate 2 3]⟩]

/-- `i1 = 7 OR (i1 != 1 AND i1 != 2 AND i1 != 3)`: the reserved copies make up for
the count of the last AND node. -/
example : RangesCounted integerIndex true [⟨equalPredicate 1 7, []⟩,
    ⟨notEqualPredicate 1 1, [notEqualPredicate 1 2, notEqualPredicate 1 3]⟩] := by
  decide

end TwoColumns

end Altibase.Qmo
