/-
  Altibase.Mtk.MergeOrRange
  ─────────────────────────
  **UNION OF AN ARRAY OF RANGES.**

  `mergeOrRangeListDefault` sorts the ranges by their minimum and sweeps them
  once, with one merged range under construction.  The sweep asks `compareRange`
  how that range's maximum lies to the next minimum and the next maximum, and
  goes wrong where the maximum is an LT bound on a prefix of the other bound.

    * `mergeOrRangeListDefault_correct` — the union, sorted and disjoint, if the
      sweep meets no such pair;
    * `mergeOrRangeListDefault_drops` — `i1 < 5 OR (i1 = 5 AND i2 = 3)` loses its
      second range.
-/

import Altibase.Mtk.MergeRange
import Mathlib.Data.List.Perm.Basic
import Mathlib.Data.List.Pairwise

namespace Altibase.Mtk

open Altibase.Lib

variable {α : Type} (K : KeyCompare α)

/-! ## §1. `mergeOrRangeListDefault`. -/

/-- `compareMinimum`, the comparison function of the sort. -/
def compareMinimum (aRange1 aRange2 : SmiRange α) : Int :=
  compareRange K aRange1.minimum aRange2.minimum

/-- **What `qsort` leaves**: the same ranges, and no pair that both comparisons
put the other way round. -/
def QSorted (arr sorted : List (SmiRange α)) : Prop :=
  sorted.Perm arr
    ∧ sorted.Pairwise fun r s => ¬ (0 < compareMinimum K r s ∧ compareMinimum K s r < 0)

/-- The sweep, from the merged range `aMerged` on. -/
def mergeOrSweep : SmiRange α → List (SmiRange α) → List (SmiRange α)
  | aMerged, [] => [aMerged]
  | aMerged, r :: rest =>
      if 0 ≤ compareRange K aMerged.maximum r.minimum then
        if compareRange K aMerged.maximum r.maximum < 0 then
          -- merging...
          mergeOrSweep { minimum := aMerged.minimum, maximum := r.maximum } rest
        else mergeOrSweep aMerged rest
      else aMerged :: mergeOrSweep r rest

/-- `mtk::mergeOrRangeListDefault`, after the sort. -/
def mergeOrRangeListDefault (aRangeListArray : List (SmiRange α)) : List (SmiRange α) :=
  match aRangeListArray with
  | [] => []
  | r :: rest => mergeOrSweep K r rest

/-! ## §2. The pairs the sweep must not meet. -/

/-- The intended order of bounds. -/
def fineCmp (b1 b2 : SmiCallBack α) : Int := cutCmp (elemCmp K) (fineCut b1) (fineCut b2)

/-- **No slip on the way**: `aMax` is the greatest maximum of the ranges that
overlap so far; it is compared with the next minimum and, if the ranges touch,
with the next maximum. -/
def SweepClear : SmiCallBack α → List (SmiRange α) → Prop
  | _, [] => True
  | aMax, r :: rest =>
      ¬ PrefixSlip K aMax r.minimum
        ∧ (0 ≤ fineCmp K aMax r.minimum →
            ¬ PrefixSlip K aMax r.maximum
              ∧ (fineCmp K aMax r.maximum < 0 → SweepClear r.maximum rest)
              ∧ (0 ≤ fineCmp K aMax r.maximum → SweepClear aMax rest))
        ∧ (fineCmp K aMax r.minimum < 0 → SweepClear r.maximum rest)

/-- `SweepClear` for the whole sorted array. -/
def ArrayClear : List (SmiRange α) → Prop
  | [] => True
  | r :: rest => SweepClear K r.maximum rest

variable {K}

/-! ## §3. Bounds at the same place. -/

theorem Kind.rank_inj {k l : Kind} (h : k.rank = l.rank) : k = l := by
  cases k <;> cases l <;> first | rfl | exact absurd h (by decide)

variable (K) in
/-- The closed words of two chains compare equal. -/
def Tied (j : ℕ) (cs : List (MtkRangeCallBack α)) (r : Int) (ds : List (MtkRangeCallBack α))
    (s : Int) : Prop :=
  lexCmp (letterCmp (elemCmp K)) j (letters cs ++ [.stop r]) (letters ds ++ [.stop s]) = 0

theorem Tied.nil {j : ℕ} {r s : Int} {ds : List (MtkRangeCallBack α)}
    (h : Tied K j [] r ds s) : ds = [] ∧ r = s := by
  unfold Tied at h
  cases ds with
  | nil =>
    simp only [letters, List.map_nil, List.nil_append, lexCmp_singleton, letterCmp] at h
    exact ⟨rfl, by omega⟩
  | cons d ds =>
    -- a stop against an element is never a tie
    simp only [letters, List.map_nil, List.map_cons, List.nil_append, List.cons_append, lexCmp,
      letterCmp] at h
    by_cases hr : r < 0 <;> simp [hr] at h

theorem Tied.cons {j : ℕ} {r s : Int} {c : MtkRangeCallBack α} {cs ds : List (MtkRangeCallBack α)}
    (h : Tied K j (c :: cs) r ds s) :
    ∃ d ds', ds = d :: ds' ∧ elemCmp K j c.elem d.elem = 0 ∧ Tied K (j + 1) cs r ds' s := by
  unfold Tied at h
  cases ds with
  | nil =>
    simp only [letters, List.map_nil, List.map_cons, List.nil_append, List.cons_append, lexCmp,
      letterCmp] at h
    by_cases hs : s < 0 <;> simp [hs] at h
  | cons d ds =>
    refine ⟨d, ds, rfl, ?_⟩
    change lexCmp _ j (.elem c.elem :: (letters cs ++ _)) (.elem d.elem :: (letters ds ++ _)) = 0
      at h
    by_cases hcd : letterCmp (elemCmp K) j (.elem c.elem) (.elem d.elem) = 0
    · rw [lexCmp_cons_eq _ hcd] at h
      exact ⟨hcd, h⟩
    · rw [lexCmp_cons_ne _ hcd] at h
      exact absurd h hcd

/-- The stops of tied words are equal. -/
theorem Tied.stop_eq {j : ℕ} {cs ds : List (MtkRangeCallBack α)} {r s : Int}
    (h : Tied K j cs r ds s) : r = s := by
  induction cs generalizing j ds with
  | nil => exact h.nil.2
  | cons c cs ih =>
    obtain ⟨d, ds', rfl, -, htail⟩ := h.cons
    exact ih htail

/-- **Tied chains are prefixes of the same chains.** -/
theorem Tied.compareChains {f : ValueForm} {j : ℕ} {cs ds es : List (MtkRangeCallBack α)}
    (hc : ∀ c ∈ cs, StepOfForm f c) (hd : ∀ c ∈ ds, StepOfForm f c)
    (he : ∀ c ∈ es, StepOfForm f c) {r s : Int} (h : Tied K j cs r ds s)
    {e : MtkRangeCallBack α} {rest : List (MtkRangeCallBack α)}
    (hrest : Mtk.compareChains K j ds es = .inr ([], e :: rest)) :
    Mtk.compareChains K j cs es = .inr ([], e :: rest) := by
  induction cs generalizing j ds es with
  | nil =>
    rw [h.nil.1] at hrest
    exact hrest
  | cons c cs ih =>
    obtain ⟨d, ds', rfl, hcd, htail⟩ := h.cons
    cases es with
    | nil => simp [Mtk.compareChains] at hrest
    | cons e0 es =>
      have hlimc := limitClash_of_form (hc c (by simp)) (he e0 (by simp))
      have hlimd := limitClash_of_form (hd d (by simp)) (he e0 (by simp))
      simp only [Mtk.compareChains, compareSteps_eq hlimd, compareSteps_eq hlimc] at hrest ⊢
      by_cases hde : elemCmp K j d.elem e0.elem = 0
      · rw [if_neg (by simp [hde])] at hrest
        have hce : elemCmp K j c.elem e0.elem = 0 := by
          have hsame := (elemCmp_signOrder K j).congr_right hde c.elem
          omega
        rw [if_neg (by simp [hce])]
        exact ih (fun x hx => hc x (by simp [hx])) (fun x hx => hd x (by simp [hx]))
          (fun x hx => he x (by simp [hx])) htail hrest
      · rw [if_pos hde] at hrest
        cases hrest

/-- **Bounds at the same place slip against the same bounds.** -/
theorem prefixSlip_congr {f : ValueForm} {a b c : SmiCallBack α}
    (ha : ∀ s ∈ a.data, StepOfForm f s) (hb : ∀ s ∈ b.data, StepOfForm f s)
    (hc : ∀ s ∈ c.data, StepOfForm f s) (h : fineCmp K a b = 0) (hslip : PrefixSlip K b c) :
    PrefixSlip K a c := by
  have htied : Tied K 0 a.data a.callback.kind.rank b.data b.callback.kind.rank := h
  have hk : a.callback.kind = b.callback.kind := Kind.rank_inj htied.stop_eq
  obtain ⟨⟨e, rest, hloop⟩, hkinds⟩ := hslip
  refine ⟨⟨e, rest, htied.compareChains ha hb hc hloop⟩, ?_⟩
  rw [hk]
  exact hkinds

/-! ## §4. One turn of the sweep. -/

section Sweep

variable {f : ValueForm}

theorem fineCmp_signOrder : SignOrder (fineCmp K) where
  swap a b := (cutCmp_signOrder (elemCmp_signOrder K)).swap (fineCut a) (fineCut b)
  trans a b c := (cutCmp_signOrder (elemCmp_signOrder K)).trans (fineCut a) (fineCut b) (fineCut c)

theorem addCompositeRange_indexRange {r s : SmiRange α} (hr : IndexRange f r)
    (hs : IndexRange f s) : IndexRange f (addCompositeRange r s) := by
  have hmin : ∀ c ∈ r.minimum.data ++ s.minimum.data, StepOfForm f c := fun c hc =>
    (List.mem_append.mp hc).elim (hr.minForm c) (hs.minForm c)
  have hmax : ∀ c ∈ r.maximum.data ++ s.maximum.data, StepOfForm f c := fun c hc =>
    (List.mem_append.mp hc).elim (hr.maxForm c) (hs.maxForm c)
  unfold addCompositeRange addCompositeMinimum addCompositeMaximum
  constructor
  · dsimp only
    split
    · exact hs.minKind
    · exact hr.minKind
  · dsimp only
    split
    · exact hs.maxKind
    · exact hr.maxKind
  · dsimp only
    split
    · exact hmin
    · exact hr.minForm
  · dsimp only
    split
    · exact hmax
    · exact hr.maxForm

/-- A maximum and a minimum of ranges of one form are of different kinds, so
only a slip can misorder them. -/
theorem maximum_minimum_sign {r s : SmiRange α} (hr : IndexRange f r) (hs : IndexRange f s)
    (hslip : ¬ PrefixSlip K r.maximum s.minimum) :
    SameSign (compareRange K r.maximum s.minimum) (fineCmp K r.maximum s.minimum) := by
  have hclear := chainClash_of_form hr.maxForm hs.minForm 0 (K := K)
  apply compareRange_sign _ hslip
  rintro (hclash | ⟨-, hk, -⟩)
  · rw [hclear] at hclash
    cases hclash
  · rcases hr.maxKind with h | h <;> rcases hs.minKind with h' | h' <;> rw [h, h'] at hk <;> cases hk

/-- Two maxima: the intended order, or a tie. -/
theorem maximum_maximum_sign {r s : SmiRange α} (hr : IndexRange f r) (hs : IndexRange f s)
    (hslip : ¬ PrefixSlip K r.maximum s.maximum) :
    SameSign (compareRange K r.maximum s.maximum) (fineCmp K r.maximum s.maximum)
      ∨ fineCmp K r.maximum s.maximum = 0 := by
  by_cases hform : FormClash K r.maximum s.maximum
  · right
    rcases hform with hclash | ⟨hloop, hk, -⟩
    · rw [chainClash_of_form hr.maxForm hs.maxForm] at hclash
      cases hclash
    · have hword := compareChains_word (chainClash_of_form hr.maxForm hs.maxForm 0 (K := K))
        [.stop r.maximum.callback.kind.rank] [.stop s.maximum.callback.kind.rank]
      rw [hloop] at hword
      obtain ⟨i, hi⟩ := hword
      unfold fineCmp cutCmp
      rw [fineCut_word, fineCut_word, hi, hk]
      simp [letters, letterCmp]
  · exact Or.inl (compareRange_sign hform hslip)

theorem SameSign.nonneg {x y : Int} (h : SameSign x y) : 0 ≤ x ↔ 0 ≤ y := by
  have hneg := h.1
  omega

/-- Bounds at the same place lie alike to every other. -/
theorem fineCmp_congr {a b : SmiCallBack α} (h : fineCmp K a b = 0) (c : SmiCallBack α) :
    SameSign (fineCmp K a c) (fineCmp K b c) := by
  have hord := fineCmp_signOrder (K := K)
  have hright := hord.congr_right h c
  constructor
  · rw [← hord.swap c a, ← hord.swap c b]
    exact hright.2
  · rw [hord.swap, hord.swap b c]
    exact hright.1

theorem fineCmp_le {b1 b2 : SmiCallBack α} (h : fineCmp K b1 b2 ≤ 0) : CutLe K b1 b2 :=
  Int.not_lt.mp fun hgt => absurd (fineCut_gt hgt) (Int.not_lt.mpr h)

/-- The sort leaves the minimums in the order of their cuts. -/
theorem QSorted.pairwise {arr sorted : List (SmiRange α)} (h : QSorted K arr sorted)
    (hr : ∀ r ∈ arr, IndexRange f r) :
    sorted.Pairwise fun r s => CutLe K r.minimum s.minimum := by
  have hr' : ∀ r ∈ sorted, IndexRange f r := fun r hmem => hr r (h.1.subset hmem)
  apply h.2.imp_of_mem
  intro r s hrm hsm hrs
  have hkr : r.minimum.callback.kind ≠ .lt := by
    rcases (hr' r hrm).minKind with hk | hk <;> rw [hk] <;> decide
  have hks : s.minimum.callback.kind ≠ .lt := by
    rcases (hr' s hsm).minKind with hk | hk <;> rw [hk] <;> decide
  -- minimums never slip, so the answers follow the cuts both ways
  have hf1 : FollowsCuts K r.minimum s.minimum := followsCuts_of
    (chainClash_of_form (hr' r hrm).minForm (hr' s hsm).minForm 0) (not_prefixSlip_of_kinds hkr hks)
  have hf2 : FollowsCuts K s.minimum r.minimum := followsCuts_of
    (chainClash_of_form (hr' s hsm).minForm (hr' r hrm).minForm 0) (not_prefixSlip_of_kinds hks hkr)
  have hord := cutCmp_signOrder (elemCmp_signOrder K)
  unfold CutLe
  by_contra hgt
  have hgt' : 0 < cutCmp (elemCmp K) (cutOf r.minimum) (cutOf s.minimum) := by omega
  exact hrs ⟨hf1.2 hgt', hf2.1 ((hord.swap _ _).mp hgt')⟩

/-- Two ranges that touch, as one. -/
theorem accepts_merged {m r : SmiRange α} (hm : IndexRange f m) (hr : IndexRange f r)
    (hmin : CutLe K m.minimum r.minimum) (htouch : CutLe K r.minimum m.maximum)
    (hmax : CutLe K m.maximum r.maximum) (key : Key α) :
    SmiRange.accepts K { minimum := m.minimum, maximum := r.maximum } key = true ↔
      m.accepts K key = true ∨ r.accepts K key = true := by
  have hnew : IndexRange f { minimum := m.minimum, maximum := r.maximum } :=
    { minKind := hm.minKind, maxKind := hr.maxKind, minForm := hm.minForm, maxForm := hr.maxForm }
  rw [accepts_iff hm, accepts_iff hr, accepts_iff hnew]
  constructor
  · rintro ⟨hlo, hhi⟩
    by_cases habove : AboveBound K key m.maximum
    · exact Or.inr ⟨htouch.above habove, hhi⟩
    · exact Or.inl ⟨hlo, habove⟩
  · rintro (⟨hlo, hhi⟩ | ⟨hlo, hhi⟩)
    · exact ⟨hlo, fun habove => hhi (hmax.above habove)⟩
    · exact ⟨hmin.above hlo, hhi⟩

/-- A range inside the merged one adds no key. -/
theorem accepts_inside {m r : SmiRange α} (hm : IndexRange f m) (hr : IndexRange f r)
    (hmin : CutLe K m.minimum r.minimum) (hmax : CutLe K r.maximum m.maximum) {key : Key α}
    (h : r.accepts K key = true) : m.accepts K key = true := by
  rw [accepts_iff hr] at h
  rw [accepts_iff hm]
  exact ⟨hmin.above h.1, fun habove => h.2 (hmax.above habove)⟩

/-! ## §5. The whole sweep. -/

/-- What the sweep guarantees from `m` on. -/
structure SweepSpec (K : KeyCompare α) (m : SmiRange α) (rest out : List (SmiRange α)) :
    Prop where
  sorted : SortedDisjoint K out
  keys : ∀ key, AcceptedBy K out key ↔ m.accepts K key = true ∨ AcceptedBy K rest key
  minimum : ∀ r ∈ out, CutLe K m.minimum r.minimum
  length : out.length ≤ rest.length + 1

/-- **The sweep is the union**, if it meets no slip. -/
theorem mergeOrSweep_spec (m : SmiRange α) (rest : List (SmiRange α)) (aMax : SmiCallBack α)
    (haMax : ∀ c ∈ aMax.data, StepOfForm f c)
    (hm : IndexRange f m) (hrest : ∀ r ∈ rest, IndexRange f r)
    (hmin : ∀ r ∈ rest, CutLe K m.minimum r.minimum)
    (hpair : rest.Pairwise fun r s => CutLe K r.minimum s.minimum)
    (htied : fineCmp K m.maximum aMax = 0) (hclear : SweepClear K aMax rest) :
    SweepSpec K m rest (mergeOrSweep K m rest) := by
  induction rest generalizing m aMax with
  | nil =>
    refine ⟨List.pairwise_singleton _ _, fun key => ?_, fun r hr => ?_, by simp [mergeOrSweep]⟩
    · simp [mergeOrSweep, AcceptedBy]
    · rw [List.mem_singleton.mp hr]
      exact CutLe.refl _
  | cons r rest ih =>
    have hr : IndexRange f r := hrest r (by simp)
    have hrest' : ∀ s ∈ rest, IndexRange f s := fun s hs => hrest s (by simp [hs])
    have hmr : CutLe K m.minimum r.minimum := hmin r (by simp)
    have hmin' : ∀ s ∈ rest, CutLe K m.minimum s.minimum := fun s hs => hmin s (by simp [hs])
    obtain ⟨hrmin, hpair'⟩ := List.pairwise_cons.mp hpair
    obtain ⟨hslip, hmerge, hapart⟩ := hclear
    have htied' : fineCmp K aMax m.maximum = 0 :=
      (fineCmp_signOrder (K := K)).eq_comm.mp htied
    have hslip' : ¬ PrefixSlip K m.maximum r.minimum := fun h =>
      hslip (prefixSlip_congr haMax hm.maxForm hr.minForm htied' h)
    have hsign := maximum_minimum_sign hm hr hslip'
    have hnext := fineCmp_congr htied r.minimum
    unfold mergeOrSweep
    by_cases hov : 0 ≤ compareRange K m.maximum r.minimum
    · rw [if_pos hov]
      have hfine : 0 ≤ fineCmp K m.maximum r.minimum :=
        Int.not_lt.mp fun h => absurd (hsign.1.mpr h) (Int.not_lt.mpr hov)
      have htouch : CutLe K r.minimum m.maximum :=
        fineCmp_le ((fineCmp_signOrder (K := K)).le_of_ge hfine)
      obtain ⟨hslipMax, hgrow, hkeep⟩ := hmerge (hnext.nonneg.mp hfine)
      have hslipMax' : ¬ PrefixSlip K m.maximum r.maximum := fun h =>
        hslipMax (prefixSlip_congr haMax hm.maxForm hr.maxForm htied' h)
      have hmaxSign := maximum_maximum_sign hm hr hslipMax'
      have hmaxNext := fineCmp_congr htied r.maximum
      by_cases hlt : compareRange K m.maximum r.maximum < 0
      · rw [if_pos hlt]
        have hle : fineCmp K m.maximum r.maximum ≤ 0 := by
          rcases hmaxSign with h | h
          · have := h.1.mp hlt
            omega
          · omega
        -- on a tie the intended maximum stays, and the new one is at its place
        obtain ⟨bMax, hform, hbTied, hbClear⟩ : ∃ bMax : SmiCallBack α,
            (∀ c ∈ bMax.data, StepOfForm f c) ∧ fineCmp K r.maximum bMax = 0
              ∧ SweepClear K bMax rest := by
          by_cases hstrict : fineCmp K aMax r.maximum < 0
          · exact ⟨r.maximum, hr.maxForm, fineCmp_signOrder.self _, hgrow hstrict⟩
          · have hzero : fineCmp K aMax r.maximum = 0 := by
              have hnot : ¬ 0 < fineCmp K aMax r.maximum := fun hpos =>
                hle.not_gt (hmaxNext.2.mpr hpos)
              omega
            exact ⟨aMax, haMax, fineCmp_signOrder.eq_comm.mp hzero, hkeep (by omega)⟩
        have hnew : IndexRange f { minimum := m.minimum, maximum := r.maximum } :=
          { minKind := hm.minKind, maxKind := hr.maxKind
            minForm := hm.minForm, maxForm := hr.maxForm }
        have hspec := ih { minimum := m.minimum, maximum := r.maximum } bMax hform hnew hrest'
          hmin' hpair' hbTied hbClear
        have hmerged := accepts_merged hm hr hmr htouch (fineCmp_le hle)
        refine ⟨hspec.sorted, fun key => ?_, hspec.minimum, ?_⟩
        · rw [hspec.keys, hmerged, mem_acceptedBy_cons, or_assoc]
        · have := hspec.length
          simp only [List.length_cons]
          omega
      · rw [if_neg hlt]
        have hge : 0 ≤ fineCmp K m.maximum r.maximum := by
          rcases hmaxSign with h | h
          · exact Int.not_lt.mp fun hneg => hlt (h.1.mpr hneg)
          · omega
        have hspec := ih m aMax haMax hm hrest' hmin' hpair' htied (hkeep (hmaxNext.nonneg.mp hge))
        have hinside : CutLe K r.maximum m.maximum :=
          fineCmp_le ((fineCmp_signOrder (K := K)).le_of_ge hge)
        refine ⟨hspec.sorted, fun key => ?_, hspec.minimum, ?_⟩
        · rw [hspec.keys, mem_acceptedBy_cons]
          constructor
          · rintro (h | h)
            · exact Or.inl h
            · exact Or.inr (Or.inr h)
          · rintro (h | h | h)
            · exact Or.inl h
            · exact Or.inl (accepts_inside hm hr hmr hinside h)
            · exact Or.inr h
        · have := hspec.length
          simp only [List.length_cons]
          omega
    · rw [if_neg hov]
      have hfine : fineCmp K m.maximum r.minimum < 0 := hsign.1.mp (by omega)
      have hgap : CutLe K m.maximum r.minimum := fineCmp_le (by omega)
      have hspec := ih r r.maximum hr.maxForm hr hrest' hrmin hpair'
        (fineCmp_signOrder.self _) (hapart (hnext.1.mp hfine))
      refine ⟨?_, fun key => ?_, fun s hs => ?_, ?_⟩
      · apply List.pairwise_cons.mpr
        refine ⟨fun s hs => ⟨hmr.trans (hspec.minimum s hs), fun key hboth => ?_⟩, hspec.sorted⟩
        -- a key of a later range is above its minimum, hence above the gap
        obtain ⟨hin, hout⟩ := hboth
        rcases (hspec.keys key).mp ⟨s, hs, hout⟩ with h | ⟨q, hq, h⟩
        · exact apart_of_cutLe hm hr hgap key ⟨hin, h⟩
        · exact apart_of_cutLe hm (hrest' q hq) (hgap.trans (hrmin q hq)) key ⟨hin, h⟩
      · rw [mem_acceptedBy_cons, hspec.keys, mem_acceptedBy_cons]
      · rcases List.mem_cons.mp hs with rfl | hs
        · exact CutLe.refl _
        · exact hmr.trans (hspec.minimum s hs)
      · have := hspec.length
        simp only [List.length_cons]
        omega

/-- **`mergeOrRangeListDefault` is the union**: a key satisfies a returned range
iff it satisfies a given one, and the returned ranges are ordered, disjoint and
not more, if the sweep meets no pair of bounds that `compareRange` misorders. -/
theorem mergeOrRangeListDefault_correct (K : KeyCompare α) (f : ValueForm)
    (arr sorted : List (SmiRange α)) (hr : ∀ r ∈ arr, IndexRange f r)
    (hsort : QSorted K arr sorted) (hclear : ArrayClear K sorted) :
    (∀ key, AcceptedBy K (mergeOrRangeListDefault K sorted) key ↔ AcceptedBy K arr key)
      ∧ SortedDisjoint K (mergeOrRangeListDefault K sorted)
      ∧ (mergeOrRangeListDefault K sorted).length ≤ arr.length := by
  have hkeys : ∀ key, AcceptedBy K sorted key ↔ AcceptedBy K arr key := fun key =>
    ⟨fun ⟨r, hmem, h⟩ => ⟨r, hsort.1.subset hmem, h⟩,
      fun ⟨r, hmem, h⟩ => ⟨r, hsort.1.symm.subset hmem, h⟩⟩
  have hr' : ∀ r ∈ sorted, IndexRange f r := fun r hmem => hr r (hsort.1.subset hmem)
  have hpair := hsort.pairwise hr
  rw [← hsort.1.length_eq]
  cases sorted with
  | nil => exact ⟨hkeys, List.Pairwise.nil, Nat.le_refl _⟩
  | cons r rest =>
    have hrf := hr' r (by simp)
    have hspec := mergeOrSweep_spec r rest r.maximum hrf.maxForm hrf
      (fun s hs => hr' s (by simp [hs])) (List.pairwise_cons.mp hpair).1
      (List.pairwise_cons.mp hpair).2 (fineCmp_signOrder.self _) hclear
    refine ⟨fun key => ?_, hspec.sorted, hspec.length⟩
    rw [← hkeys, mem_acceptedBy_cons]
    exact hspec.keys key

/-- `0 <= i1 <= 1`, `i1 = 1 AND i2 > 2`, `i1 = 4 AND 2 <= i2 <= 7` and
`i1 = 4 AND 6 < i2 < 20`, in the order of the minimums. -/
def sortedRanges : List (SmiRange Int) :=
  [integerRange .ge (.value 0) .le (.value 1),
    addCompositeRange (integerRange .ge (.value 1) .le (.value 1))
      (integerRange .gt (.value 2) .le .maximumLimit4Mtd),
    addCompositeRange (integerRange .ge (.value 4) .le (.value 4))
      (integerRange .ge (.value 2) .le (.value 7)),
    addCompositeRange (integerRange .ge (.value 4) .le (.value 4))
      (integerRange .gt (.value 6) .lt (.value 20))]

theorem sortedRanges_indexRange : ∀ r ∈ sortedRanges, IndexRange .mtd r := by
  have hrange : ∀ k1 c1 k2 c2, (k1 = .ge ∨ k1 = .gt) → (k2 = .le ∨ k2 = .lt) →
      isMaximumLimit4Stored c1 = false → isMaximumLimit4Stored c2 = false →
      IndexRange .mtd (integerRange k1 c1 k2 c2) := fun _ _ _ _ h1 h2 h3 h4 =>
    (integerRange_single h1 h2 h3 h4).toIndexRange
  intro r hr
  simp only [sortedRanges, List.mem_cons, List.not_mem_nil, or_false] at hr
  rcases hr with rfl | rfl | rfl | rfl
  · exact hrange _ _ _ _ (.inl rfl) (.inl rfl) rfl rfl
  · exact addCompositeRange_indexRange (hrange _ _ _ _ (.inl rfl) (.inl rfl) rfl rfl)
      (hrange _ _ _ _ (.inr rfl) (.inl rfl) rfl rfl)
  · exact addCompositeRange_indexRange (hrange _ _ _ _ (.inl rfl) (.inl rfl) rfl rfl)
      (hrange _ _ _ _ (.inl rfl) (.inl rfl) rfl rfl)
  · exact addCompositeRange_indexRange (hrange _ _ _ _ (.inl rfl) (.inl rfl) rfl rfl)
      (hrange _ _ _ _ (.inr rfl) (.inr rfl) rfl rfl)

/-- Two of the four ranges are left, `0 <= i1 <= 1` and `i1 = 4 AND 2 <= i2 < 20`. -/
theorem mergeOrRangeListDefault_correct_four :
    (∀ key, AcceptedBy integerCompare (mergeOrRangeListDefault integerCompare sortedRanges) key
        ↔ AcceptedBy integerCompare sortedRanges.reverse key)
      ∧ SortedDisjoint integerCompare (mergeOrRangeListDefault integerCompare sortedRanges)
      ∧ (mergeOrRangeListDefault integerCompare sortedRanges).length
          ≤ sortedRanges.reverse.length := by
  refine mergeOrRangeListDefault_correct integerCompare .mtd sortedRanges.reverse sortedRanges
    (fun r hr => sortedRanges_indexRange r (List.mem_reverse.mp hr))
    ⟨(List.reverse_perm _).symm, by decide⟩ ?_
  -- only the last maximum is LT, and it is compared to one on as many columns
  have hslip : ∀ b1 b2 : SmiCallBack Int, b1.callback.kind ≠ .lt → b2.callback.kind ≠ .lt →
      ¬ PrefixSlip integerCompare b1 b2 := fun _ _ => not_prefixSlip_of_kinds
  have hmax : ¬ PrefixSlip integerCompare (sortedRanges[2]).maximum (sortedRanges[3]).maximum :=
    not_prefixSlip_of_length (by decide)
  refine ⟨hslip _ _ (by decide) (by decide), fun _ => ⟨hslip _ _ (by decide) (by decide),
    fun h => absurd h (by decide), fun _ => ⟨hslip _ _ (by decide) (by decide),
    fun h => absurd h (by decide), fun _ => ⟨hslip _ _ (by decide) (by decide),
    fun _ => ⟨hmax, fun _ => trivial, fun _ => trivial⟩, fun _ => trivial⟩⟩⟩,
    fun h => absurd h (by decide)⟩

/-- `i1 < 5` and `i1 = 5 AND i2 = 3`. -/
def droppedRanges : List (SmiRange Int) :=
  [integerRange .ge .minimumLimit .lt (.value 5),
    addCompositeRange (integerRange .ge (.value 5) .le (.value 5))
      (integerRange .ge (.value 3) .le (.value 3))]

/-- **`i1 < 5 OR (i1 = 5 AND i2 = 3)` loses its second range**: the maximum LT(5)
is taken to be after the minimum GE(5, 3). -/
theorem mergeOrRangeListDefault_drops :
    (∀ r ∈ droppedRanges, IndexRange .mtd r)
      ∧ QSorted integerCompare droppedRanges droppedRanges
      ∧ ∃ key : Key Int, AcceptedBy integerCompare droppedRanges key
          ∧ ¬ AcceptedBy integerCompare (mergeOrRangeListDefault integerCompare droppedRanges) key
    := by
  refine ⟨?_, ⟨List.Perm.refl _, by decide⟩, fun j => if j = 0 then some 5 else some 3, ?_, ?_⟩
  · intro r hr
    simp only [droppedRanges, List.mem_cons, List.not_mem_nil, or_false] at hr
    have hclosed : ∀ v : Int, IndexRange .mtd (integerRange .ge (.value v) .le (.value v)) :=
      fun _ => (integerRange_single (Or.inl rfl) (Or.inl rfl) rfl rfl).toIndexRange
    rcases hr with rfl | rfl
    · exact (integerRange_single (Or.inl rfl) (Or.inr rfl) rfl rfl).toIndexRange
    · exact addCompositeRange_indexRange (hclosed 5) (hclosed 3)
  · exact ⟨droppedRanges.getLast (by decide), List.getLast_mem _, by decide⟩
  · have hmerged : mergeOrRangeListDefault integerCompare droppedRanges
        = [integerRange .ge .minimumLimit .lt (.value 5)] := by decide
    rw [hmerged]
    rintro ⟨r, hr, hacc⟩
    rw [List.mem_singleton.mp hr] at hacc
    revert hacc
    decide

end Sweep

end Altibase.Mtk
