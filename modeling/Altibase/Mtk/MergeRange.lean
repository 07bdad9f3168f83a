/-
  Altibase.Mtk.MergeRange
  ───────────────────────
  **INTERSECTION OF RANGE LISTS.**

  `mergeAndRangeDefault` walks two sorted lists of ranges of one column and
  emits their intersections.

    * `mergeAndRangeDefault_correct` — the keys of both lists, in sorted and
      disjoint ranges, within the slots of `getAndRangeCount`.
-/

import Altibase.Mtk.CompareRange
import Mathlib.Data.List.Perm.Basic
import Mathlib.Data.List.Pairwise

namespace Altibase.Mtk

open Altibase.Lib

variable {α : Type} (K : KeyCompare α)

/-! ## §1. Ranges of one index. -/

/-- The step compares to a limit of the form of the column. -/
def StepOfForm (f : ValueForm) : MtkRangeCallBack α → Prop
  | .maximumLimit4Mtd => f ≠ .stored
  | .maximumLimit4Stored => f = .stored
  | _ => True

/-- **A range over columns of one form**: a GE or GT minimum and an LE or LT
maximum. -/
structure IndexRange (f : ValueForm) (r : SmiRange α) : Prop where
  minKind : r.minimum.callback.kind = .ge ∨ r.minimum.callback.kind = .gt
  maxKind : r.maximum.callback.kind = .le ∨ r.maximum.callback.kind = .lt
  minForm : ∀ c ∈ r.minimum.data, StepOfForm f c
  maxForm : ∀ c ∈ r.maximum.data, StepOfForm f c

/-- Both bounds are about the first column only. -/
structure SingleColumn (f : ValueForm) (r : SmiRange α) : Prop extends IndexRange f r where
  minLength : r.minimum.data.length = 1
  maxLength : r.maximum.data.length = 1

/-- The ranges of `l` come in the order of their minimums and share no key. -/
def SortedDisjoint (l : List (SmiRange α)) : Prop :=
  l.Pairwise fun r s =>
    CutLe K r.minimum s.minimum ∧ ∀ key, ¬ (r.accepts K key = true ∧ s.accepts K key = true)

/-- Some range of the list accepts the key. -/
def AcceptedBy (l : List (SmiRange α)) (key : Key α) : Prop :=
  ∃ r ∈ l, r.accepts K key = true

variable {K}

theorem accepts_iff {f : ValueForm} {r : SmiRange α} (h : IndexRange f r) (key : Key α) :
    r.accepts K key = true ↔ AboveBound K key r.minimum ∧ ¬ AboveBound K key r.maximum := by
  unfold SmiRange.accepts
  rw [Bool.and_eq_true, passes_minimum_iff key h.minKind, passes_maximum_iff key h.maxKind]

/-- A range that ends before another begins shares no key with it. -/
theorem apart_of_cutLe {f : ValueForm} {r s : SmiRange α} (hr : IndexRange f r)
    (hs : IndexRange f s) (h : CutLe K r.maximum s.minimum) (key : Key α) :
    ¬ (r.accepts K key = true ∧ s.accepts K key = true) := by
  rw [accepts_iff hr, accepts_iff hs]
  intro hboth
  exact hboth.1.2 (h.above hboth.2.1)

theorem limitClash_of_form {f : ValueForm} {c d : MtkRangeCallBack α} (hc : StepOfForm f c)
    (hd : StepOfForm f d) : limitClash c d = false := by
  cases c <;> cases d <;> first | rfl | exact absurd hd hc | exact absurd hc hd

/-- Chains for columns of one form do not clash. -/
theorem chainClash_of_form {f : ValueForm} {cs ds : List (MtkRangeCallBack α)}
    (hc : ∀ c ∈ cs, StepOfForm f c) (hd : ∀ d ∈ ds, StepOfForm f d) (j : ℕ) :
    chainClash K j cs ds = false := by
  induction cs generalizing ds j with
  | nil => cases ds <;> rfl
  | cons c cs ih =>
    cases ds with
    | nil => rfl
    | cons d ds =>
      have hlim := limitClash_of_form (hc c (by simp)) (hd d (by simp))
      have hrec := ih (fun e he => hc e (List.mem_cons_of_mem c he))
        (fun e he => hd e (List.mem_cons_of_mem d he)) (j + 1)
      simp [chainClash, hlim, hrec]

/-- What the loop leaves keeps the difference of the lengths. -/
theorem compareChains_length {j : ℕ} {cs1 cs2 ds1 ds2 : List (MtkRangeCallBack α)}
    (h : compareChains K j cs1 cs2 = .inr (ds1, ds2)) :
    cs1.length + ds2.length = cs2.length + ds1.length := by
  induction cs1 generalizing j cs2 with
  | nil =>
    simp only [compareChains, Sum.inr.injEq, Prod.mk.injEq] at h
    rw [← h.1, ← h.2]
    simp
  | cons c1 cs1 ih =>
    cases cs2 with
    | nil =>
      simp only [compareChains, Sum.inr.injEq, Prod.mk.injEq] at h
      rw [← h.1, ← h.2]
      simp
    | cons c2 cs2 =>
      simp only [compareChains] at h
      by_cases h0 : compareSteps K j c1 c2 = 0
      · rw [if_neg (by simp [h0])] at h
        have := ih h
        simp only [List.length_cons]
        omega
      · rw [if_pos h0] at h
        cases h

/-- Only a shorter chain slips. -/
theorem not_prefixSlip_of_length {b1 b2 : SmiCallBack α}
    (h : b2.data.length ≤ b1.data.length) : ¬ PrefixSlip K b1 b2 := by
  rintro ⟨⟨c, cs, hloop⟩, -⟩
  have := compareChains_length hloop
  simp only [List.length_cons, List.length_nil] at this
  omega

/-- A slip needs an LT bound and one of another kind. -/
theorem not_prefixSlip_of_kinds {b1 b2 : SmiCallBack α} (h1 : b1.callback.kind ≠ .lt)
    (h2 : b2.callback.kind ≠ .lt) : ¬ PrefixSlip K b1 b2 := by
  rintro ⟨-, ⟨h, -⟩ | ⟨-, h⟩⟩
  · exact h1 h
  · exact h2 h

/-! ## §2. `mergeAndRangeDefault`. -/

section MergeAnd

variable (K)

/-- What one turn of the loop emits and leaves. -/
structure MergeTurn (α : Type) where
  emitted : List (SmiRange α)
  range1 : List (SmiRange α)
  range2 : List (SmiRange α)

/-- The turn, when the minimum of `aRange1` is not after that of `aRange2`. -/
def mergeAndOrdered (aRange1 : SmiRange α) (next1 : List (SmiRange α))
    (aRange2 : SmiRange α) (next2 : List (SmiRange α)) : MergeTurn α :=
  if 0 < compareRange K aRange1.maximum aRange2.minimum then
    if compareRange K aRange1.maximum aRange2.maximum < 0 then
      { emitted := [{ minimum := aRange2.minimum, maximum := aRange1.maximum }]
        range1 := next1, range2 := aRange2 :: next2 }
    else
      { emitted := [{ minimum := aRange2.minimum, maximum := aRange2.maximum }]
        range1 := aRange1 :: next1, range2 := next2 }
  else { emitted := [], range1 := next1, range2 := aRange2 :: next2 }

/-- One turn: the list with the later minimum becomes `aRange2`. -/
def mergeAndTurn (aRange1 : SmiRange α) (next1 : List (SmiRange α))
    (aRange2 : SmiRange α) (next2 : List (SmiRange α)) : MergeTurn α :=
  if 0 < compareRange K aRange1.minimum aRange2.minimum then
    mergeAndOrdered K aRange2 next2 aRange1 next1
  else mergeAndOrdered K aRange1 next1 aRange2 next2

variable {K}

theorem mergeAndOrdered_length (r1 : SmiRange α) (n1 : List (SmiRange α)) (r2 : SmiRange α)
    (n2 : List (SmiRange α)) :
    (mergeAndOrdered K r1 n1 r2 n2).range1.length + (mergeAndOrdered K r1 n1 r2 n2).range2.length
      = n1.length + n2.length + 1 ∧ (mergeAndOrdered K r1 n1 r2 n2).emitted.length ≤ 1 := by
  unfold mergeAndOrdered
  split
  · split <;> simp <;> omega
  · simp
    omega

/-- A turn consumes one range and emits at most one. -/
theorem mergeAndTurn_length (r1 : SmiRange α) (n1 : List (SmiRange α)) (r2 : SmiRange α)
    (n2 : List (SmiRange α)) :
    (mergeAndTurn K r1 n1 r2 n2).range1.length + (mergeAndTurn K r1 n1 r2 n2).range2.length
      = n1.length + n2.length + 1 ∧ (mergeAndTurn K r1 n1 r2 n2).emitted.length ≤ 1 := by
  unfold mergeAndTurn
  split
  · have h := mergeAndOrdered_length (K := K) r2 n2 r1 n1
    omega
  · exact mergeAndOrdered_length r1 n1 r2 n2

variable (K)

/-- The loop, until one of the lists is exhausted. -/
def mergeAndLoop : List (SmiRange α) → List (SmiRange α) → List (SmiRange α)
  | r1 :: n1, r2 :: n2 =>
      (mergeAndTurn K r1 n1 r2 n2).emitted
        ++ mergeAndLoop (mergeAndTurn K r1 n1 r2 n2).range1 (mergeAndTurn K r1 n1 r2 n2).range2
  | _, _ => []
  termination_by l1 l2 => l1.length + l2.length
  decreasing_by
    have h := (mergeAndTurn_length (K := K) r1 n1 r2 n2).1
    simp only [List.length_cons]
    omega

/-- The range that no key passes: greater and less than the minimum limit. -/
def emptyRange : SmiRange α :=
  { minimum := { callback := ⟨.gt, .mtd⟩, data := [.minimumLimit] }
    maximum := { callback := ⟨.lt, .mtd⟩, data := [.minimumLimit] } }

/-- `mtk::mergeAndRangeDefault`. -/
def mergeAndRangeDefault (aRange1 aRange2 : List (SmiRange α)) : List (SmiRange α) :=
  match mergeAndLoop K aRange1 aRange2 with
  | [] => [emptyRange]
  | aMerged => aMerged

/-- `qmoKeyRange::getAndRangeCount`. -/
def getAndRangeCount (aRange1 aRange2 : List (SmiRange α)) : ℕ :=
  aRange1.length + aRange2.length - 1

end MergeAnd

/-! ## §3. One turn of the intersection. -/

section Turn

variable {f : ValueForm}

theorem SingleColumn.followsCuts {b1 b2 : SmiCallBack α} (h1 : b1.data.length = 1)
    (h2 : b2.data.length = 1) (hf1 : ∀ c ∈ b1.data, StepOfForm f c)
    (hf2 : ∀ c ∈ b2.data, StepOfForm f c) : FollowsCuts K b1 b2 :=
  followsCuts_of (chainClash_of_form hf1 hf2 0) (not_prefixSlip_of_length (by omega))

/-- The range from the minimum of one range to the maximum of another. -/
theorem SingleColumn.pair {r s : SmiRange α} (hr : SingleColumn f r) (hs : SingleColumn f s) :
    SingleColumn f { minimum := r.minimum, maximum := s.maximum } where
  minKind := hr.minKind
  maxKind := hs.maxKind
  minForm := hr.minForm
  maxForm := hs.maxForm
  minLength := hr.minLength
  maxLength := hs.maxLength

theorem mem_acceptedBy_cons {r : SmiRange α} {l : List (SmiRange α)} {key : Key α} :
    AcceptedBy K (r :: l) key ↔ r.accepts K key = true ∨ AcceptedBy K l key := by
  simp [AcceptedBy]

theorem acceptedBy_append {l m : List (SmiRange α)} {key : Key α} :
    AcceptedBy K (l ++ m) key ↔ AcceptedBy K l key ∨ AcceptedBy K m key := by
  constructor
  · rintro ⟨r, hr, hacc⟩
    rcases List.mem_append.mp hr with h | h
    · exact Or.inl ⟨r, h, hacc⟩
    · exact Or.inr ⟨r, h, hacc⟩
  · rintro (⟨r, hr, hacc⟩ | ⟨r, hr, hacc⟩)
    · exact ⟨r, List.mem_append.mpr (Or.inl hr), hacc⟩
    · exact ⟨r, List.mem_append.mpr (Or.inr hr), hacc⟩

/-- What a turn guarantees: its rests are parts of the lists, the common keys
are those it emits and those the rests have in common, no key is both, and it
emits from the later of the two minimums. -/
structure TurnSpec (K : KeyCompare α) (f : ValueForm) (l1 l2 : List (SmiRange α))
    (t : MergeTurn α) : Prop where
  rests : (t.range1 <:+ l1 ∧ t.range2 <:+ l2) ∨ (t.range1 <:+ l2 ∧ t.range2 <:+ l1)
  single : ∀ r ∈ t.emitted, SingleColumn f r
  keys : ∀ key, AcceptedBy K l1 key ∧ AcceptedBy K l2 key ↔
    AcceptedBy K t.emitted key ∨ (AcceptedBy K t.range1 key ∧ AcceptedBy K t.range2 key)
  apart : ∀ r ∈ t.emitted, ∀ key, r.accepts K key = true →
    ¬ (AcceptedBy K t.range1 key ∧ AcceptedBy K t.range2 key)
  minimum : ∀ r ∈ t.emitted,
    (∀ s ∈ t.range2, CutLe K r.minimum s.minimum)
      ∧ (∃ s ∈ l1, CutLe K s.minimum r.minimum) ∧ (∃ s ∈ l2, CutLe K s.minimum r.minimum)

theorem TurnSpec.swap {l1 l2 : List (SmiRange α)} {t : MergeTurn α}
    (h : TurnSpec K f l1 l2 t) : TurnSpec K f l2 l1 t where
  rests := h.rests.symm
  single := h.single
  keys key := by rw [and_comm]; exact h.keys key
  apart := h.apart
  minimum r hr := ⟨(h.minimum r hr).1, (h.minimum r hr).2.2, (h.minimum r hr).2.1⟩

/-- A later range of a sorted list shares no key with the first and starts not
before it. -/
theorem SortedDisjoint.head {r : SmiRange α} {l : List (SmiRange α)}
    (h : SortedDisjoint K (r :: l)) {s : SmiRange α} (hs : s ∈ l) :
    CutLe K r.minimum s.minimum ∧ ∀ key, ¬ (r.accepts K key = true ∧ s.accepts K key = true) :=
  (List.pairwise_cons.mp h).1 s hs

/-- The first range ends first: it is done with. -/
theorem turnSpec_advance1 {r1 r2 : SmiRange α} {n1 n2 : List (SmiRange α)}
    (h1 : ∀ r ∈ r1 :: n1, SingleColumn f r) (h2 : ∀ r ∈ r2 :: n2, SingleColumn f r)
    (hs1 : SortedDisjoint K (r1 :: n1)) (hs2 : SortedDisjoint K (r2 :: n2))
    (hmin : CutLe K r1.minimum r2.minimum) (hmax : CutLe K r1.maximum r2.maximum) :
    TurnSpec K f (r1 :: n1) (r2 :: n2)
      { emitted := [{ minimum := r2.minimum, maximum := r1.maximum }]
        range1 := n1, range2 := r2 :: n2 } := by
  have hr1 := h1 r1 (by simp)
  have hr2 := h2 r2 (by simp)
  have hnew := hr2.pair hr1
  -- the emitted range is inside both
  have hin : ∀ key, SmiRange.accepts K { minimum := r2.minimum, maximum := r1.maximum } key = true
      → r1.accepts K key = true ∧ r2.accepts K key = true := by
    intro key hkey
    rw [accepts_iff hnew.toIndexRange] at hkey
    rw [accepts_iff hr1.toIndexRange, accepts_iff hr2.toIndexRange]
    exact ⟨⟨hmin.above hkey.1, hkey.2⟩, hkey.1, fun habove => hkey.2 (hmax.above habove)⟩
  constructor
  · exact Or.inl ⟨List.suffix_cons r1 n1, List.suffix_refl _⟩
  · -- what is emitted is a range of one column
    simp only [List.mem_singleton, forall_eq]
    exact hnew
  · -- the common keys
    intro key
    simp only [mem_acceptedBy_cons]
    constructor
    · rintro ⟨hk1 | hk1, hk2⟩
      · left
        -- the key is in the first range, so it is in the second and not behind it
        have hin2 : r2.accepts K key = true := by
          rcases hk2 with hk2 | ⟨s, hs, hk2⟩
          · exact hk2
          · by_contra hnot
            have hle := (hs2.head hs).1
            rw [accepts_iff hr1.toIndexRange] at hk1
            rw [accepts_iff (h2 s (by simp [hs])).toIndexRange] at hk2
            rw [accepts_iff hr2.toIndexRange] at hnot
            exact hnot ⟨hle.above hk2.1, fun habove => hk1.2 (hmax.above habove)⟩
        left
        rw [accepts_iff hr1.toIndexRange] at hk1
        rw [accepts_iff hr2.toIndexRange] at hin2
        rw [accepts_iff hnew.toIndexRange]
        exact ⟨hin2.1, hk1.2⟩
      · exact Or.inr ⟨hk1, hk2⟩
    · rintro ((hk | ⟨s, hs, -⟩) | ⟨hk1, hk2⟩)
      · exact ⟨Or.inl (hin key hk).1, Or.inl (hin key hk).2⟩
      · cases hs
      · exact ⟨Or.inr hk1, hk2⟩
  · -- no emitted key is left in both rests
    simp only [List.mem_singleton, forall_eq]
    rintro key hkey ⟨⟨s, hs, hk1⟩, -⟩
    exact (hs1.head hs).2 key ⟨(hin key hkey).1, hk1⟩
  · -- the minimums are in order
    simp only [List.mem_singleton, forall_eq]
    refine ⟨fun s hs => ?_, ⟨r1, List.mem_cons_self, hmin⟩, ⟨r2, List.mem_cons_self, CutLe.refl _⟩⟩
    rcases List.mem_cons.mp hs with rfl | hs
    · exact CutLe.refl _
    · exact (hs2.head hs).1

/-- The second range ends first, or with the other: it is done with. -/
theorem turnSpec_advance2 {r1 r2 : SmiRange α} {n1 n2 : List (SmiRange α)}
    (h1 : ∀ r ∈ r1 :: n1, SingleColumn f r) (h2 : ∀ r ∈ r2 :: n2, SingleColumn f r)
    (hs2 : SortedDisjoint K (r2 :: n2))
    (hmin : CutLe K r1.minimum r2.minimum) (hmax : CutLe K r2.maximum r1.maximum) :
    TurnSpec K f (r1 :: n1) (r2 :: n2)
      { emitted := [{ minimum := r2.minimum, maximum := r2.maximum }]
        range1 := r1 :: n1, range2 := n2 } := by
  have hr1 := h1 r1 (by simp)
  have hr2 := h2 r2 (by simp)
  have hnew := hr2.pair hr2
  have hin : ∀ key, SmiRange.accepts K { minimum := r2.minimum, maximum := r2.maximum } key = true
      → r1.accepts K key = true ∧ r2.accepts K key = true := by
    intro key hkey
    rw [accepts_iff hnew.toIndexRange] at hkey
    rw [accepts_iff hr1.toIndexRange, accepts_iff hr2.toIndexRange]
    exact ⟨⟨hmin.above hkey.1, fun habove => hkey.2 (hmax.above habove)⟩, hkey⟩
  constructor
  · exact Or.inl ⟨List.suffix_refl _, List.suffix_cons r2 n2⟩
  · -- what is emitted is a range of one column
    simp only [List.mem_singleton, forall_eq]
    exact hnew
  · -- the common keys
    intro key
    simp only [mem_acceptedBy_cons]
    constructor
    · rintro ⟨hk1, hk2 | hk2⟩
      · left
        left
        exact hk2
      · exact Or.inr ⟨hk1, hk2⟩
    · rintro ((hk | ⟨s, hs, -⟩) | ⟨hk1, hk2⟩)
      · exact ⟨Or.inl (hin key hk).1, Or.inl (hin key hk).2⟩
      · cases hs
      · exact ⟨hk1, Or.inr hk2⟩
  · -- no emitted key is left in both rests
    simp only [List.mem_singleton, forall_eq]
    rintro key hkey ⟨-, ⟨s, hs, hk2⟩⟩
    exact (hs2.head hs).2 key ⟨(hin key hkey).2, hk2⟩
  · -- the minimums are in order
    simp only [List.mem_singleton, forall_eq]
    exact ⟨fun s hs => (hs2.head hs).1, ⟨r1, List.mem_cons_self, hmin⟩,
      ⟨r2, List.mem_cons_self, CutLe.refl _⟩⟩

/-- The first range ends before the second begins: it is done with. -/
theorem turnSpec_skip {r1 r2 : SmiRange α} {n1 n2 : List (SmiRange α)}
    (h1 : ∀ r ∈ r1 :: n1, SingleColumn f r) (h2 : ∀ r ∈ r2 :: n2, SingleColumn f r)
    (hs2 : SortedDisjoint K (r2 :: n2)) (hgap : CutLe K r1.maximum r2.minimum) :
    TurnSpec K f (r1 :: n1) (r2 :: n2)
      { emitted := [], range1 := n1, range2 := r2 :: n2 } := by
  constructor
  · exact Or.inl ⟨List.suffix_cons r1 n1, List.suffix_refl _⟩
  · -- what is emitted is a range of one column
    intro r hr
    cases hr
  · -- the common keys
    intro key
    rw [mem_acceptedBy_cons (r := r1)]
    constructor
    · rintro ⟨hk1 | hk1, hk2⟩
      · -- every range of the second list begins behind the first range
        exfalso
        obtain ⟨s, hs, hks⟩ := hk2
        have hle : CutLe K r2.minimum s.minimum := by
          rcases List.mem_cons.mp hs with rfl | hs'
          · exact CutLe.refl _
          · exact (hs2.head hs').1
        rw [accepts_iff (h1 r1 (by simp)).toIndexRange] at hk1
        rw [accepts_iff (h2 s hs).toIndexRange] at hks
        exact hk1.2 (hgap.above (hle.above hks.1))
      · exact Or.inr ⟨hk1, hk2⟩
    · rintro (⟨s, hs, -⟩ | ⟨hk1, hk2⟩)
      · cases hs
      · exact ⟨Or.inr hk1, hk2⟩
  · -- no emitted key is left in both rests
    intro r hr
    cases hr
  · -- the minimums are in order
    intro r hr
    cases hr

theorem mergeAndOrdered_spec {r1 r2 : SmiRange α} {n1 n2 : List (SmiRange α)}
    (h1 : ∀ r ∈ r1 :: n1, SingleColumn f r) (h2 : ∀ r ∈ r2 :: n2, SingleColumn f r)
    (hs1 : SortedDisjoint K (r1 :: n1)) (hs2 : SortedDisjoint K (r2 :: n2))
    (hmin : CutLe K r1.minimum r2.minimum) :
    TurnSpec K f (r1 :: n1) (r2 :: n2) (mergeAndOrdered K r1 n1 r2 n2) := by
  have hr1 := h1 r1 (by simp)
  have hr2 := h2 r2 (by simp)
  have hgap : FollowsCuts K r1.maximum r2.minimum :=
    SingleColumn.followsCuts hr1.maxLength hr2.minLength hr1.maxForm hr2.minForm
  have hmax : FollowsCuts K r1.maximum r2.maximum :=
    SingleColumn.followsCuts hr1.maxLength hr2.maxLength hr1.maxForm hr2.maxForm
  unfold mergeAndOrdered
  by_cases hov : 0 < compareRange K r1.maximum r2.minimum
  · rw [if_pos hov]
    by_cases hlt : compareRange K r1.maximum r2.maximum < 0
    · rw [if_pos hlt]
      exact turnSpec_advance1 h1 h2 hs1 hs2 hmin (hmax.le (by omega))
    · rw [if_neg hlt]
      exact turnSpec_advance2 h1 h2 hs2 hmin (hmax.ge (by omega))
  · rw [if_neg hov]
    exact turnSpec_skip h1 h2 hs2 (hgap.le (by omega))

theorem mergeAndTurn_spec {r1 r2 : SmiRange α} {n1 n2 : List (SmiRange α)}
    (h1 : ∀ r ∈ r1 :: n1, SingleColumn f r) (h2 : ∀ r ∈ r2 :: n2, SingleColumn f r)
    (hs1 : SortedDisjoint K (r1 :: n1)) (hs2 : SortedDisjoint K (r2 :: n2)) :
    TurnSpec K f (r1 :: n1) (r2 :: n2) (mergeAndTurn K r1 n1 r2 n2) := by
  have hr1 := h1 r1 (by simp)
  have hr2 := h2 r2 (by simp)
  have hmin : FollowsCuts K r1.minimum r2.minimum :=
    SingleColumn.followsCuts hr1.minLength hr2.minLength hr1.minForm hr2.minForm
  unfold mergeAndTurn
  by_cases hgt : 0 < compareRange K r1.minimum r2.minimum
  · rw [if_pos hgt]
    exact (mergeAndOrdered_spec h2 h1 hs2 hs1 (hmin.ge (by omega))).swap
  · rw [if_neg hgt]
    exact mergeAndOrdered_spec h1 h2 hs1 hs2 (hmin.le (by omega))

end Turn

/-! ## §4. The whole intersection. -/

section Run

variable {f : ValueForm}

theorem SortedDisjoint.suffix {l m : List (SmiRange α)} (h : SortedDisjoint K l)
    (hm : m <:+ l) : SortedDisjoint K m :=
  h.sublist hm.sublist

theorem mergeAndLoop_nil {l1 l2 : List (SmiRange α)}
    (hne : ∀ r1 n1 r2 n2, l1 = r1 :: n1 → l2 = r2 :: n2 → False) : mergeAndLoop K l1 l2 = [] := by
  rw [mergeAndLoop]
  exact hne

/-- Every emitted range begins behind any cut that one of the lists begins
behind. -/
theorem mergeAndLoop_minimum (l1 l2 : List (SmiRange α)) (h1 : ∀ r ∈ l1, SingleColumn f r)
    (h2 : ∀ r ∈ l2, SingleColumn f r) (hs1 : SortedDisjoint K l1) (hs2 : SortedDisjoint K l2)
    (b : SmiCallBack α)
    (hb : (∀ s ∈ l1, CutLe K b s.minimum) ∨ (∀ s ∈ l2, CutLe K b s.minimum)) :
    ∀ r ∈ mergeAndLoop K l1 l2, CutLe K b r.minimum := by
  induction l1, l2 using mergeAndLoop.induct K with
  | case1 r1 n1 r2 n2 ih =>
    rw [mergeAndLoop]
    have hspec := mergeAndTurn_spec h1 h2 hs1 hs2
    intro r hr
    rcases List.mem_append.mp hr with hr | hr
    · obtain ⟨-, ⟨s1, hs1', hle1⟩, ⟨s2, hs2', hle2⟩⟩ := hspec.minimum r hr
      rcases hb with hb | hb
      · exact (hb s1 hs1').trans hle1
      · exact (hb s2 hs2').trans hle2
    · rcases hspec.rests with ⟨hp1, hp2⟩ | ⟨hp1, hp2⟩
      · exact ih (fun r hr => h1 r (hp1.subset hr)) (fun r hr => h2 r (hp2.subset hr))
          (hs1.suffix hp1) (hs2.suffix hp2)
          (hb.imp (fun h s hs => h s (hp1.subset hs)) (fun h s hs => h s (hp2.subset hs))) r hr
      · exact ih (fun r hr => h2 r (hp1.subset hr)) (fun r hr => h1 r (hp2.subset hr))
          (hs2.suffix hp1) (hs1.suffix hp2)
          (hb.symm.imp (fun h s hs => h s (hp1.subset hs)) (fun h s hs => h s (hp2.subset hs)))
          r hr
  | case2 l1 l2 hne =>
    rw [mergeAndLoop_nil hne]
    intro r hr
    cases hr

/-- **The loop emits the keys that both lists accept**, in sorted and disjoint
ranges. -/
theorem mergeAndLoop_spec (l1 l2 : List (SmiRange α)) (h1 : ∀ r ∈ l1, SingleColumn f r)
    (h2 : ∀ r ∈ l2, SingleColumn f r) (hs1 : SortedDisjoint K l1) (hs2 : SortedDisjoint K l2) :
    SortedDisjoint K (mergeAndLoop K l1 l2)
      ∧ (∀ key, AcceptedBy K (mergeAndLoop K l1 l2) key ↔
          AcceptedBy K l1 key ∧ AcceptedBy K l2 key)
      ∧ (∀ r ∈ mergeAndLoop K l1 l2, SingleColumn f r) := by
  induction l1, l2 using mergeAndLoop.induct K with
  | case1 r1 n1 r2 n2 ih =>
    have hspec := mergeAndTurn_spec h1 h2 hs1 hs2
    have hlen := (mergeAndTurn_length (K := K) r1 n1 r2 n2).2
    rw [mergeAndLoop]
    generalize mergeAndTurn K r1 n1 r2 n2 = t at hspec hlen ih ⊢
    obtain ⟨hq1, hq2, ht1, ht2⟩ : (∀ r ∈ t.range1, SingleColumn f r)
        ∧ (∀ r ∈ t.range2, SingleColumn f r) ∧ SortedDisjoint K t.range1
        ∧ SortedDisjoint K t.range2 := by
      rcases hspec.rests with ⟨hp1, hp2⟩ | ⟨hp1, hp2⟩
      · exact ⟨fun r hr => h1 r (hp1.subset hr), fun r hr => h2 r (hp2.subset hr),
          hs1.suffix hp1, hs2.suffix hp2⟩
      · exact ⟨fun r hr => h2 r (hp1.subset hr), fun r hr => h1 r (hp2.subset hr),
          hs2.suffix hp1, hs1.suffix hp2⟩
    obtain ⟨hsorted, hkeys, hsingle⟩ := ih hq1 hq2 ht1 ht2
    refine ⟨?_, ?_, ?_⟩
    · unfold SortedDisjoint
      rw [List.pairwise_append]
      refine ⟨?_, hsorted, ?_⟩
      · -- at most one range was emitted
        match t.emitted, hlen with
        | [], _ => exact List.Pairwise.nil
        | [_], _ => exact List.pairwise_singleton _ _
      · intro r hr s hs
        refine ⟨mergeAndLoop_minimum t.range1 t.range2 hq1 hq2 ht1 ht2 r.minimum
          (Or.inr (hspec.minimum r hr).1) s hs, ?_⟩
        rintro key ⟨hkr, hks⟩
        exact hspec.apart r hr key hkr ((hkeys key).mp ⟨s, hs, hks⟩)
    · intro key
      rw [acceptedBy_append, hkeys, ← hspec.keys]
    · intro r hr
      rcases List.mem_append.mp hr with hr | hr
      · exact hspec.single r hr
      · exact hsingle r hr
  | case2 l1 l2 hne =>
    rw [mergeAndLoop_nil hne]
    refine ⟨List.Pairwise.nil, fun key => ⟨?_, ?_⟩, ?_⟩
    · rintro ⟨r, hr, -⟩
      cases hr
    · rintro ⟨⟨r, hr, -⟩, ⟨s, hs, -⟩⟩
      exfalso
      cases l1 with
      | nil => cases hr
      | cons r1 n1 =>
        cases l2 with
        | nil => cases hs
        | cons r2 n2 => exact hne r1 n1 r2 n2 rfl rfl
    · intro r hr
      cases hr

theorem mergeAndLoop_length (l1 l2 : List (SmiRange α)) (h1 : l1 ≠ []) (h2 : l2 ≠ []) :
    (mergeAndLoop K l1 l2).length + 1 ≤ l1.length + l2.length := by
  induction l1, l2 using mergeAndLoop.induct K with
  | case1 r1 n1 r2 n2 ih =>
    obtain ⟨hlen, hem⟩ := mergeAndTurn_length (K := K) r1 n1 r2 n2
    rw [mergeAndLoop, List.length_append]
    generalize mergeAndTurn K r1 n1 r2 n2 = t at hlen hem ih ⊢
    simp only [List.length_cons]
    by_cases hq1 : t.range1 = []
    · rw [hq1]
      simp only [mergeAndLoop, List.length_nil]
      omega
    · by_cases hq2 : t.range2 = []
      · rw [hq2]
        rw [mergeAndLoop_nil (fun _ _ _ _ _ h => by cases h), List.length_nil]
        omega
      · have := ih hq1 hq2
        omega
  | case2 l1 l2 hne =>
    exfalso
    cases l1 with
    | nil => exact h1 rfl
    | cons r1 n1 =>
      cases l2 with
      | nil => exact h2 rfl
      | cons r2 n2 => exact hne r1 n1 r2 n2 rfl rfl

/-- The bounds of the ranges that a turn emits and leaves are bounds it met. -/
theorem mergeAndOrdered_bounds {P Q : SmiCallBack α → Prop} {r1 r2 : SmiRange α}
    {n1 n2 : List (SmiRange α)}
    (h1 : ∀ r ∈ r1 :: n1, P r.minimum ∧ Q r.maximum)
    (h2 : ∀ r ∈ r2 :: n2, P r.minimum ∧ Q r.maximum) :
    (∀ r ∈ (mergeAndOrdered K r1 n1 r2 n2).emitted, P r.minimum ∧ Q r.maximum) ∧
    (∀ r ∈ (mergeAndOrdered K r1 n1 r2 n2).range1, P r.minimum ∧ Q r.maximum) ∧
    ∀ r ∈ (mergeAndOrdered K r1 n1 r2 n2).range2, P r.minimum ∧ Q r.maximum := by
  have hn1 : ∀ r ∈ n1, P r.minimum ∧ Q r.maximum := fun r hr => h1 r (List.mem_cons_of_mem _ hr)
  have hn2 : ∀ r ∈ n2, P r.minimum ∧ Q r.maximum := fun r hr => h2 r (List.mem_cons_of_mem _ hr)
  have hr1 := h1 r1 List.mem_cons_self
  have hr2 := h2 r2 List.mem_cons_self
  unfold mergeAndOrdered
  split_ifs
  · refine ⟨fun r hr => ?_, hn1, h2⟩
    rw [List.mem_singleton.mp hr]
    exact ⟨hr2.1, hr1.2⟩
  · refine ⟨fun r hr => ?_, h1, hn2⟩
    rw [List.mem_singleton.mp hr]
    exact ⟨hr2.1, hr2.2⟩
  · exact ⟨fun r hr => absurd hr List.not_mem_nil, hn1, h2⟩

theorem mergeAndLoop_bounds {P Q : SmiCallBack α → Prop} (l1 l2 : List (SmiRange α))
    (h1 : ∀ r ∈ l1, P r.minimum ∧ Q r.maximum) (h2 : ∀ r ∈ l2, P r.minimum ∧ Q r.maximum) :
    ∀ r ∈ mergeAndLoop K l1 l2, P r.minimum ∧ Q r.maximum := by
  induction l1, l2 using mergeAndLoop.induct K with
  | case1 r1 n1 r2 n2 ih =>
    obtain ⟨hem, hl1, hl2⟩ :
        (∀ r ∈ (mergeAndTurn K r1 n1 r2 n2).emitted, P r.minimum ∧ Q r.maximum) ∧
        (∀ r ∈ (mergeAndTurn K r1 n1 r2 n2).range1, P r.minimum ∧ Q r.maximum) ∧
        ∀ r ∈ (mergeAndTurn K r1 n1 r2 n2).range2, P r.minimum ∧ Q r.maximum := by
      unfold mergeAndTurn
      split_ifs
      · exact mergeAndOrdered_bounds h2 h1
      · exact mergeAndOrdered_bounds h1 h2
    rw [mergeAndLoop]
    intro r hr
    rcases List.mem_append.mp hr with h | h
    · exact hem r h
    · exact ih hl1 hl2 r h
  | case2 l1 l2 hne =>
    rw [mergeAndLoop_nil hne]
    exact fun r hr => absurd hr List.not_mem_nil
/-- The merged list needs no more slots than `getAndRangeCount` gives. -/
theorem mergeAndRangeDefault_length (K : KeyCompare α) (l1 l2 : List (SmiRange α)) (h1 : l1 ≠ [])
    (h2 : l2 ≠ []) : (mergeAndRangeDefault K l1 l2).length ≤ getAndRangeCount l1 l2 := by
  have hlen := mergeAndLoop_length (K := K) l1 l2 h1 h2
  have hpos1 := List.length_pos_iff.mpr h1
  have hpos2 := List.length_pos_iff.mpr h2
  unfold mergeAndRangeDefault getAndRangeCount
  split
  · rw [List.length_singleton]
    omega
  · omega

/-- The bounds of the merged list are bounds of the two, or those of `emptyRange`. -/
theorem mergeAndRangeDefault_bounds {P Q : SmiCallBack α → Prop} {l1 l2 : List (SmiRange α)}
    (hP : P emptyRange.minimum) (hQ : Q emptyRange.maximum)
    (h1 : ∀ r ∈ l1, P r.minimum ∧ Q r.maximum) (h2 : ∀ r ∈ l2, P r.minimum ∧ Q r.maximum) :
    ∀ r ∈ mergeAndRangeDefault K l1 l2, P r.minimum ∧ Q r.maximum := by
  unfold mergeAndRangeDefault
  split
  · intro r hr
    rw [List.mem_singleton.mp hr]
    exact ⟨hP, hQ⟩
  · exact mergeAndLoop_bounds l1 l2 h1 h2

theorem emptyRange_accepts (key : Key α) : (emptyRange : SmiRange α).accepts K key = false := by
  simp [emptyRange, SmiRange.accepts, rangeCallBack, rangeOrder, compareStep]

/-- A range of one integer column. -/
def integerRange (k1 : Kind) (c1 : MtkRangeCallBack Int) (k2 : Kind) (c2 : MtkRangeCallBack Int) :
    SmiRange Int :=
  { minimum := { callback := ⟨k1, .mtd⟩, data := [c1] }
    maximum := { callback := ⟨k2, .mtd⟩, data := [c2] } }

theorem integerRange_single {k1 k2 : Kind} {c1 c2 : MtkRangeCallBack Int}
    (hk1 : k1 = .ge ∨ k1 = .gt) (hk2 : k2 = .le ∨ k2 = .lt)
    (hc1 : isMaximumLimit4Stored c1 = false) (hc2 : isMaximumLimit4Stored c2 = false) :
    SingleColumn .mtd (integerRange k1 c1 k2 c2) where
  minKind := hk1
  maxKind := hk2
  minForm c hc := by
    rw [List.mem_singleton.mp hc]
    cases c1 <;> simp_all [StepOfForm, isMaximumLimit4Stored]
  maxForm c hc := by
    rw [List.mem_singleton.mp hc]
    cases c2 <;> simp_all [StepOfForm, isMaximumLimit4Stored]
  minLength := rfl
  maxLength := rfl

/-- **`mergeAndRangeDefault` is the intersection**: sorted, disjoint, and within
the slots that `getAndRangeCount` reserves. -/
theorem mergeAndRangeDefault_correct (K : KeyCompare α) (f : ValueForm)
    (l1 l2 : List (SmiRange α)) (hne1 : l1 ≠ []) (hne2 : l2 ≠ [])
    (h1 : ∀ r ∈ l1, SingleColumn f r) (h2 : ∀ r ∈ l2, SingleColumn f r)
    (hs1 : SortedDisjoint K l1) (hs2 : SortedDisjoint K l2) :
    SortedDisjoint K (mergeAndRangeDefault K l1 l2)
      ∧ (∀ key, AcceptedBy K (mergeAndRangeDefault K l1 l2) key ↔
          AcceptedBy K l1 key ∧ AcceptedBy K l2 key)
      ∧ (mergeAndRangeDefault K l1 l2).length ≤ getAndRangeCount l1 l2 := by
  obtain ⟨hsorted, hkeys, -⟩ := mergeAndLoop_spec l1 l2 h1 h2 hs1 hs2
  rw [← and_assoc]
  refine ⟨?_, mergeAndRangeDefault_length K l1 l2 hne1 hne2⟩
  unfold mergeAndRangeDefault
  cases hloop : mergeAndLoop K l1 l2 with
  | nil =>
    rw [hloop] at hkeys
    refine ⟨List.pairwise_singleton _ _, fun key => ?_⟩
    rw [← hkeys key]
    simp [AcceptedBy, emptyRange_accepts]
  | cons r rest =>
    rw [hloop] at hsorted hkeys
    exact ⟨hsorted, hkeys⟩

/-- The intersection of `i1 <= 2 OR 5 <= i1 <= 7` and `1 < i1 < 6`. -/
theorem mergeAndRangeDefault_correct_two_one :
    SortedDisjoint integerCompare (mergeAndRangeDefault integerCompare
      [integerRange .ge .minimumLimit .le (.value 2), integerRange .ge (.value 5) .le (.value 7)]
      [integerRange .gt (.value 1) .lt (.value 6)]) := by
  have hsingle : ∀ r ∈ [integerRange .ge .minimumLimit .le (.value 2),
      integerRange .ge (.value 5) .le (.value 7)], SingleColumn .mtd r := by
    intro r hr
    rcases List.mem_cons.mp hr with rfl | hr
    · exact integerRange_single (Or.inl rfl) (Or.inl rfl) (by decide) (by decide)
    · rw [List.mem_singleton.mp hr]
      exact integerRange_single (Or.inl rfl) (Or.inl rfl) (by decide) (by decide)
  refine (mergeAndRangeDefault_correct integerCompare .mtd _ _ (by simp) (by simp) hsingle ?_ ?_
    (List.pairwise_singleton _ _)).1
  · intro r hr
    rw [List.mem_singleton.mp hr]
    exact integerRange_single (Or.inr rfl) (Or.inr rfl) (by decide) (by decide)
  · refine List.pairwise_pair.mpr ⟨by unfold CutLe; decide, ?_⟩
    exact apart_of_cutLe (hsingle _ (by simp)).toIndexRange (hsingle _ (by simp)).toIndexRange
      (by unfold CutLe; decide)

end Run

end Altibase.Mtk
