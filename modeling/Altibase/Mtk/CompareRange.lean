/-
  Altibase.Mtk.CompareRange
  ─────────────────────────
  **THE ORDER OF RANGE BOUNDS.**

  Bounds are ordered by their cuts, and at one cut by LT < GE and LE < GT.
  `compareRange` follows this order except on two kinds of pairs: a chain that
  ends inside the other one, where the source tests the wrong bound for LT,
  and bounds built for columns of different form.

    * `compareRange_sign` — the order, away from these pairs;
    * `compareRange_preorder_iff` — a total preorder along the cuts exactly when
      none of these pairs occurs.
-/

import Altibase.Lib.CutOrder
import Altibase.Mtk.Range

namespace Altibase.Mtk

open Altibase.Lib

variable {α : Type} (K : KeyCompare α)

/-! ## §1. The pairs that are misordered. -/

/-- A limit of one form meets a limit of the other. -/
def limitClash (c1 c2 : MtkRangeCallBack α) : Bool :=
  (isMaximumLimit4Mtd c1 && isMaximumLimit4Stored c2)
    || (isMaximumLimit4Stored c1 && isMaximumLimit4Mtd c2)

/-- Two chains meet a maximum limit of different forms before they differ. -/
def chainClash : ℕ → List (MtkRangeCallBack α) → List (MtkRangeCallBack α) → Bool
  | j, c1 :: cs1, c2 :: cs2 =>
      limitClash c1 c2 || (compareSteps K j c1 c2 = 0 && chainClash (j + 1) cs1 cs2)
  | _, _, _ => false

/-- The bounds were made for columns of different form, and nothing else tells
them apart. -/
def FormClash (b1 b2 : SmiCallBack α) : Prop :=
  chainClash K 0 b1.data b2.data = true
    ∨ (compareChains K 0 b1.data b2.data = .inr ([], [])
        ∧ b1.callback.kind = b2.callback.kind ∧ b1.callback.form ≠ b2.callback.form)

/-- **The first chain is a proper prefix of the second, and exactly one of the
two bounds is an LT bound that decides the answer wrongly.** -/
def PrefixSlip (b1 b2 : SmiCallBack α) : Prop :=
  (∃ c cs, compareChains K 0 b1.data b2.data = .inr ([], c :: cs))
    ∧ ((b1.callback.kind = .lt ∧ b2.callback.kind ≠ .lt)
      ∨ ((b1.callback.kind = .le ∨ b1.callback.kind = .gt) ∧ b2.callback.kind = .lt))

/-- What `compareRange` gets wrong. -/
def Misordered (b1 b2 : SmiCallBack α) : Prop :=
  FormClash K b1 b2 ∨ PrefixSlip K b1 b2 ∨ PrefixSlip K b2 b1

/-! ## §2. The intended order. -/

/-- At one cut, LT comes before GE and LE before GT. -/
def Kind.rank : Kind → Int
  | .lt => -2
  | .ge => -1
  | .le => 1
  | .gt => 2

/-- A bound as a cut that tells all kinds apart. -/
def fineCut (b : SmiCallBack α) : Cut (Elem α) :=
  { chain := b.data.map MtkRangeCallBack.elem, rank := b.callback.kind.rank }

/-- Two results of a comparison with one sign. -/
def SameSign (x y : Int) : Prop := (x < 0 ↔ y < 0) ∧ (0 < x ↔ 0 < y)

/-- The letters of a chain, before its stop. -/
def letters (cs : List (MtkRangeCallBack α)) : List (Letter (Elem α)) :=
  (cs.map MtkRangeCallBack.elem).map .elem

/-- A cut is compared as the word of its letters and its stop, -/
theorem fineCut_word (b : SmiCallBack α) :
    (fineCut b).word = letters b.data ++ [.stop b.callback.kind.rank] := rfl

/-- with the side in place of the rank. -/
theorem cutOf_word (b : SmiCallBack α) :
    (cutOf b).word = letters b.data ++ [.stop b.callback.kind.side] := rfl

variable {K}

/-! ## §3. One step and the loop. -/

/-- Steps compare as their elements where no limits clash. -/
theorem compareSteps_eq {c1 c2 : MtkRangeCallBack α} (h : limitClash c1 c2 = false) (j : ℕ) :
    compareSteps K j c1 c2 = elemCmp K j c1.elem c2.elem := by
  cases c1 <;> cases c2 <;> first | rfl | exact Bool.noConfusion h

/-- Limits of different forms are below each other. -/
theorem compareSteps_clash {c1 c2 : MtkRangeCallBack α} (h : limitClash c1 c2 = true) (j : ℕ) :
    compareSteps K j c1 c2 = -1 := by
  cases c1 <;> cases c2 <;> first | rfl | exact Bool.noConfusion h

/-- Limits clash in both directions. -/
theorem limitClash_comm (c1 c2 : MtkRangeCallBack α) : limitClash c1 c2 = limitClash c2 c1 := by
  cases c1 <;> cases c2 <;> rfl

/-- Chains without a clash, step by step. -/
theorem chainClash_cons {j : ℕ} {c1 c2 : MtkRangeCallBack α}
    {cs1 cs2 : List (MtkRangeCallBack α)} (h : chainClash K j (c1 :: cs1) (c2 :: cs2) = false) :
    limitClash c1 c2 = false ∧ (compareSteps K j c1 c2 = 0 → chainClash K (j + 1) cs1 cs2 = false)
    := by
  simp only [chainClash, Bool.or_eq_false_iff, Bool.and_eq_false_iff, decide_eq_false_iff_not] at h
  refine ⟨h.1, fun h0 => ?_⟩
  rcases h.2 with h2 | h2
  · exact absurd h0 h2
  · exact h2

/-- What the loop leaves has an end on one side. -/
theorem compareChains_inr {j : ℕ} {cs1 cs2 ds1 ds2 : List (MtkRangeCallBack α)}
    (h : compareChains K j cs1 cs2 = .inr (ds1, ds2)) : ds1 = [] ∨ ds2 = [] := by
  induction cs1 generalizing j cs2 with
  | nil =>
    simp only [compareChains, Sum.inr.injEq, Prod.mk.injEq] at h
    exact Or.inl h.1.symm
  | cons c1 cs1 ih =>
    cases cs2 with
    | nil =>
      simp only [compareChains, Sum.inr.injEq, Prod.mk.injEq] at h
      exact Or.inr h.2.symm
    | cons c2 cs2 =>
      simp only [compareChains] at h
      by_cases h0 : compareSteps K j c1 c2 = 0
      · rw [if_neg (by simp [h0])] at h
        exact ih h
      · rw [if_pos h0] at h
        cases h

/-- **The loop compares the words of the chains** as far as both go. -/
theorem compareChains_word {j : ℕ} {cs1 cs2 : List (MtkRangeCallBack α)}
    (h : chainClash K j cs1 cs2 = false) (t1 t2 : List (Letter (Elem α))) :
    match compareChains K j cs1 cs2 with
    | .inl r => lexCmp (letterCmp (elemCmp K)) j (letters cs1 ++ t1) (letters cs2 ++ t2) = r
    | .inr (ds1, ds2) => ∃ i,
        lexCmp (letterCmp (elemCmp K)) j (letters cs1 ++ t1) (letters cs2 ++ t2)
          = lexCmp (letterCmp (elemCmp K)) i (letters ds1 ++ t1) (letters ds2 ++ t2) := by
  induction cs1 generalizing j cs2 with
  | nil =>
    simp only [compareChains]
    exact ⟨j, rfl⟩
  | cons c1 cs1 ih =>
    cases cs2 with
    | nil =>
      simp only [compareChains]
      exact ⟨j, rfl⟩
    | cons c2 cs2 =>
      obtain ⟨hlim, htail⟩ := chainClash_cons h
      have heq := compareSteps_eq hlim j (K := K)
      have hletter : letterCmp (elemCmp K) j (.elem c1.elem) (.elem c2.elem)
          = compareSteps K j c1 c2 := heq.symm
      simp only [compareChains]
      -- the loop goes on while the steps are equal, and so does the word order
      by_cases h0 : compareSteps K j c1 c2 = 0
      · rw [if_neg (by simp [h0])]
        have hrec := ih (htail h0)
        show match compareChains K (j + 1) cs1 cs2 with
          | .inl r => lexCmp _ j (.elem c1.elem :: (letters cs1 ++ t1))
              (.elem c2.elem :: (letters cs2 ++ t2)) = r
          | .inr (ds1, ds2) => ∃ i, lexCmp _ j (.elem c1.elem :: (letters cs1 ++ t1))
              (.elem c2.elem :: (letters cs2 ++ t2)) = lexCmp _ i (letters ds1 ++ t1)
                (letters ds2 ++ t2)
        rw [lexCmp_cons_eq _ (hletter.trans h0)]
        exact hrec
      · rw [if_pos h0]
        show lexCmp _ j (.elem c1.elem :: (letters cs1 ++ t1))
          (.elem c2.elem :: (letters cs2 ++ t2)) = compareSteps K j c1 c2
        rw [lexCmp_cons_ne _ (by rw [hletter]; exact h0)]
        exact hletter

/-- The loop on exchanged chains, when one of them ends. -/
theorem compareChains_swap {j : ℕ} {cs1 cs2 ds1 ds2 : List (MtkRangeCallBack α)}
    (h : compareChains K j cs1 cs2 = .inr (ds1, ds2)) :
    compareChains K j cs2 cs1 = .inr (ds2, ds1) := by
  induction cs1 generalizing j cs2 with
  | nil =>
    simp only [compareChains, Sum.inr.injEq, Prod.mk.injEq] at h
    obtain ⟨rfl, rfl⟩ := h
    cases cs2 <;> rfl
  | cons c1 cs1 ih =>
    cases cs2 with
    | nil =>
      simp only [compareChains, Sum.inr.injEq, Prod.mk.injEq] at h
      obtain ⟨rfl, rfl⟩ := h
      rfl
    | cons c2 cs2 =>
      simp only [compareChains] at h ⊢
      by_cases h0 : compareSteps K j c1 c2 = 0
      · rw [if_neg (by simp [h0])] at h
        -- an undecided step is undecided both ways
        have hlim : limitClash c1 c2 = false := by
          by_contra hne
          rw [compareSteps_clash (by simpa using hne) j] at h0
          omega
        have hlim' : limitClash c2 c1 = false := by rw [limitClash_comm]; exact hlim
        have h0' : compareSteps K j c2 c1 = 0 := by
          rw [compareSteps_eq hlim' j, (elemCmp_signOrder K j).eq_comm, ← compareSteps_eq hlim j]
          exact h0
        rw [if_neg (by simp [h0'])]
        exact ih h
      · rw [if_pos h0] at h
        cases h

/-! ## §4. The sign of `compareRange`. -/

/-- A result has its own sign. -/
theorem SameSign.refl (x : Int) : SameSign x x := ⟨Iff.rfl, Iff.rfl⟩

/-- The test for a kind. -/
theorem isKind_iff (b : SmiCallBack α) (k : Kind) : b.isKind k = true ↔ b.callback.kind = k := by
  simp [SmiCallBack.isKind]

/-- **Away from the two kinds of pairs `compareRange` has the sign of the
intended order.** -/
theorem compareRange_sign {b1 b2 : SmiCallBack α} (hform : ¬ FormClash K b1 b2)
    (hslip : ¬ PrefixSlip K b1 b2) :
    SameSign (compareRange K b1 b2) (cutCmp (elemCmp K) (fineCut b1) (fineCut b2)) := by
  have hchain : chainClash K 0 b1.data b2.data = false := by
    by_contra hne
    exact hform (Or.inl (by simpa using hne))
  have hword := compareChains_word hchain [.stop b1.callback.kind.rank]
    [.stop b2.callback.kind.rank]
  unfold cutCmp compareRange
  rw [fineCut_word, fineCut_word]
  cases hloop : compareChains K 0 b1.data b2.data with
  | inl r =>
    rw [hloop] at hword
    rw [hword]
    exact SameSign.refl r
  | inr ds =>
    obtain ⟨ds1, ds2⟩ := ds
    rw [hloop] at hword
    obtain ⟨i, hi⟩ := hword
    rw [hi]
    cases ds1 with
    | nil =>
      cases ds2 with
      | nil =>
        -- equal chains: the kinds decide
        have hf : b1.callback.kind = b2.callback.kind → b1.callback = b2.callback := by
          intro hk
          by_contra hne
          refine hform (Or.inr ⟨hloop, hk, fun hform' => hne ?_⟩)
          cases h1 : b1.callback
          cases h2 : b2.callback
          rw [h1, h2] at hk hform'
          simp only at hk hform'
          rw [hk, hform']
        simp only [letters, List.map_nil, List.nil_append, lexCmp, letterCmp, isKind_iff]
        by_cases heq : b1.callback = b2.callback
        · simp [heq, SameSign]
        · have hk : b1.callback.kind ≠ b2.callback.kind := fun hk => heq (hf hk)
          rw [if_pos heq]
          cases h1 : b1.callback.kind <;> cases h2 : b2.callback.kind <;>
            simp_all [SameSign, Kind.rank]
      | cons c cs =>
        -- the first chain ended: its own side decides, but for the slip
        have hk : ¬ ((b1.callback.kind = .lt ∧ b2.callback.kind ≠ .lt)
            ∨ ((b1.callback.kind = .le ∨ b1.callback.kind = .gt) ∧ b2.callback.kind = .lt)) :=
          fun hk => hslip ⟨⟨c, cs, hloop⟩, hk⟩
        simp only [letters, List.map_nil, List.nil_append, List.map_cons, List.cons_append,
          lexCmp, letterCmp, Bool.or_eq_true, isKind_iff]
        cases h1 : b1.callback.kind <;> cases h2 : b2.callback.kind <;>
          simp_all [SameSign, Kind.rank]
    | cons c cs =>
      -- the second chain ended, and the source asks for its side
      have hds2 : ds2 = [] := (compareChains_inr hloop).resolve_left (by simp)
      subst hds2
      simp only [letters, List.map_nil, List.nil_append, List.map_cons, List.cons_append,
        lexCmp, letterCmp, Bool.or_eq_true, isKind_iff]
      cases h2 : b2.callback.kind <;> simp [SameSign, Kind.rank]

/-! ## §5. The intended order refines the order of the cuts. -/

/-- Words with the same letters and other stops are in the same strict order. -/
theorem lexCmp_stops_lt {r1 r2 s1 s2 : Int} (h1 : r1 < 0 ↔ s1 < 0) (h2 : r2 < 0 ↔ s2 < 0)
    (h12 : r1 < r2 → s1 < s2) (cs1 cs2 : List (MtkRangeCallBack α)) (j : ℕ)
    (h : lexCmp (letterCmp (elemCmp K)) j (letters cs1 ++ [.stop r1])
      (letters cs2 ++ [.stop r2]) < 0) :
    lexCmp (letterCmp (elemCmp K)) j (letters cs1 ++ [.stop s1])
      (letters cs2 ++ [.stop s2]) < 0 := by
  induction cs1 generalizing j cs2 with
  | nil =>
    cases cs2 with
    | nil =>
      simp only [letters, List.map_nil, List.nil_append, lexCmp_singleton, letterCmp] at h ⊢
      -- both words end here: the stops decide
      have := h12 (by omega)
      omega
    | cons c2 cs2 =>
      simp only [letters, List.map_nil, List.map_cons, List.nil_append, List.cons_append, lexCmp,
        letterCmp] at h ⊢
      -- one word goes on: only the sign of the other stop counts
      by_cases hr : r1 < 0
      · simp [h1.mp hr]
      · simp [hr] at h
  | cons c1 cs1 ih =>
    cases cs2 with
    | nil =>
      simp only [letters, List.map_nil, List.map_cons, List.nil_append, List.cons_append, lexCmp,
        letterCmp] at h ⊢
      by_cases hr : r2 < 0
      · simp [hr] at h
      · have hs : ¬ s2 < 0 := fun hs => hr (h2.mpr hs)
        simp [hs]
    | cons c2 cs2 =>
      change lexCmp _ j (.elem c1.elem :: (letters cs1 ++ _)) (.elem c2.elem :: (letters cs2 ++ _))
        < 0 at h
      show lexCmp _ j (.elem c1.elem :: (letters cs1 ++ _)) (.elem c2.elem :: (letters cs2 ++ _))
        < 0
      -- the first letters decide, or the rest does
      by_cases h0 : letterCmp (elemCmp K) j (.elem c1.elem) (.elem c2.elem) = 0
      · rw [lexCmp_cons_eq _ h0] at h ⊢
        exact ih cs2 (j + 1) h
      · rw [lexCmp_cons_ne _ h0] at h ⊢
        exact h

/-- Side and rank of a kind lie on one side of zero, -/
theorem Kind.side_neg_iff (k : Kind) : k.side < 0 ↔ k.rank < 0 := by
  cases k <;> decide

/-- and have one order. -/
theorem Kind.rank_lt {k l : Kind} (h : k.side < l.side) : k.rank < l.rank := by
  cases k <;> cases l <;> revert h <;> decide

/-- Cuts that differ differ finely in the same direction, -/
theorem fineCut_lt {b1 b2 : SmiCallBack α} (h : cutCmp (elemCmp K) (cutOf b1) (cutOf b2) < 0) :
    cutCmp (elemCmp K) (fineCut b1) (fineCut b2) < 0 :=
  lexCmp_stops_lt b1.callback.kind.side_neg_iff b2.callback.kind.side_neg_iff Kind.rank_lt
    b1.data b2.data 0 h

/-- and so on the other side. -/
theorem fineCut_gt {b1 b2 : SmiCallBack α} (h : 0 < cutCmp (elemCmp K) (cutOf b1) (cutOf b2)) :
    0 < cutCmp (elemCmp K) (fineCut b1) (fineCut b2) := by
  have hord := cutCmp_signOrder (elemCmp_signOrder K)
  rw [hord.swap] at h ⊢
  exact fineCut_lt h

/-! ## §6. A total preorder along the cuts. -/

variable (K)

/-- The answers for the two bounds have opposite signs and never contradict the
order of their cuts. -/
def AgreesWithCuts (b1 b2 : SmiCallBack α) : Prop :=
  (compareRange K b1 b2 < 0 ↔ 0 < compareRange K b2 b1)
    ∧ (cutCmp (elemCmp K) (cutOf b1) (cutOf b2) < 0 → compareRange K b1 b2 < 0)
    ∧ (0 < cutCmp (elemCmp K) (cutOf b1) (cutOf b2) → 0 < compareRange K b1 b2)

variable {K}

/-- Chains clash in both directions. -/
theorem chainClash_comm (j : ℕ) (cs1 cs2 : List (MtkRangeCallBack α)) :
    chainClash K j cs1 cs2 = chainClash K j cs2 cs1 := by
  induction cs1 generalizing j cs2 with
  | nil => cases cs2 <;> rfl
  | cons c1 cs1 ih =>
    cases cs2 with
    | nil => rfl
    | cons c2 cs2 =>
      simp only [chainClash, limitClash_comm c1 c2, ih]
      by_cases hlim : limitClash c2 c1 = true
      · simp [hlim]
      · have hlim2 : limitClash c2 c1 = false := by simpa using hlim
        have hlim1 : limitClash c1 c2 = false := by rw [limitClash_comm]; exact hlim2
        have h0 : compareSteps K j c1 c2 = 0 ↔ compareSteps K j c2 c1 = 0 := by
          rw [compareSteps_eq hlim1, compareSteps_eq hlim2]
          exact (elemCmp_signOrder K j).eq_comm
        simp [h0]

/-- Chains that clash are below each other. -/
theorem compareChains_clash {j : ℕ} {cs1 cs2 : List (MtkRangeCallBack α)}
    (h : chainClash K j cs1 cs2 = true) : compareChains K j cs1 cs2 = .inl (-1) := by
  induction cs1 generalizing j cs2 with
  | nil => cases cs2 <;> simp [chainClash] at h
  | cons c1 cs1 ih =>
    cases cs2 with
    | nil => simp [chainClash] at h
    | cons c2 cs2 =>
      simp only [chainClash, Bool.or_eq_true, Bool.and_eq_true, decide_eq_true_eq] at h
      simp only [compareChains]
      rcases h with h | ⟨h0, h⟩
      · rw [compareSteps_clash h, if_pos (by decide)]
      · rw [if_neg (by simp [h0])]
        exact ih h

/-- So do forms. -/
theorem FormClash.symm {b1 b2 : SmiCallBack α} (h : FormClash K b1 b2) : FormClash K b2 b1 := by
  rcases h with h | ⟨hloop, hk, hf⟩
  · left
    rw [chainClash_comm]
    exact h
  · exact Or.inr ⟨compareChains_swap hloop, hk.symm, hf.symm⟩

/-- A misordered pair is misordered in both directions. -/
theorem Misordered.symm {b1 b2 : SmiCallBack α} (h : Misordered K b1 b2) :
    Misordered K b2 b1 := by
  rcases h with h | h | h
  · exact Or.inl h.symm
  · exact Or.inr (Or.inr h)
  · exact Or.inr (Or.inl h)

/-- **Where a pair is not misordered `compareRange` has the sign of the cuts**, -/
theorem compareRange_sign_of {b1 b2 : SmiCallBack α} (h : ¬ Misordered K b1 b2) :
    SameSign (compareRange K b1 b2) (cutCmp (elemCmp K) (fineCut b1) (fineCut b2)) :=
  compareRange_sign (fun hf => h (Or.inl hf)) (fun hs => h (Or.inr (Or.inl hs)))

/-- so it agrees with them, -/
theorem agreesWithCuts_of {b1 b2 : SmiCallBack α} (h : ¬ Misordered K b1 b2) :
    AgreesWithCuts K b1 b2 := by
  have hord := cutCmp_signOrder (elemCmp_signOrder K)
  have h12 := compareRange_sign_of h
  have h21 := compareRange_sign_of (fun h' => h h'.symm)
  refine ⟨?_, fun hlt => h12.1.mpr (fineCut_lt hlt), fun hgt => h12.2.mpr (fineCut_gt hgt)⟩
  rw [h12.1, h21.2, hord.swap]

/-- Two bounds of different form, same kind and equal chains lie on one side of
each other both ways. -/
theorem not_agrees_of_formClash {b1 b2 : SmiCallBack α} (h : FormClash K b1 b2) :
    ¬ AgreesWithCuts K b1 b2 := by
  intro hagree
  rcases h with h | ⟨hloop, hk, hf⟩
  · have h12 : compareRange K b1 b2 = -1 := by
      unfold compareRange
      rw [compareChains_clash h]
    have h21 : compareRange K b2 b1 = -1 := by
      rw [chainClash_comm] at h
      unfold compareRange
      rw [compareChains_clash h]
    have := hagree.1
    omega
  · have hne : b1.callback ≠ b2.callback := fun heq => hf (by rw [heq])
    have hswap := compareChains_swap hloop
    have hiff := hagree.1
    unfold compareRange at hiff
    rw [hloop, hswap] at hiff
    simp only [isKind_iff, hk, if_pos hne, if_pos hne.symm] at hiff
    cases h2 : b2.callback.kind <;> simp [h2] at hiff

/-- On the slip the sign is the opposite of the order of the cuts. -/
theorem not_agrees_of_prefixSlip {b1 b2 : SmiCallBack α} (h : PrefixSlip K b1 b2) :
    ¬ AgreesWithCuts K b1 b2 := by
  intro hagree
  obtain ⟨⟨c, cs, hloop⟩, hk⟩ := h
  have hchain : chainClash K 0 b1.data b2.data = false := by
    by_contra hne
    rw [compareChains_clash (by simpa using hne)] at hloop
    cases hloop
  have hword := compareChains_word hchain [.stop b1.callback.kind.side]
    [.stop b2.callback.kind.side]
  rw [hloop] at hword
  obtain ⟨i, hi⟩ := hword
  have hcut : cutCmp (elemCmp K) (cutOf b1) (cutOf b2)
      = if b1.callback.kind.side < 0 then -1 else 1 := by
    unfold cutCmp
    rw [cutOf_word, cutOf_word, hi]
    simp only [letters, List.map_nil, List.map_cons, List.nil_append, List.cons_append, lexCmp,
      letterCmp]
    split <;> simp
  have hcmp : compareRange K b1 b2
      = if b1.isKind .ge || b2.isKind .lt then -1 else 1 := by
    unfold compareRange
    rw [hloop]
  obtain ⟨-, hlt, hgt⟩ := hagree
  rw [hcut, hcmp] at hlt hgt
  simp only [Bool.or_eq_true, isKind_iff] at hlt hgt
  cases h1 : b1.callback.kind <;> cases h2 : b2.callback.kind <;>
    simp_all [Kind.side]

/-- and a misordered pair does not in one of the directions. -/
theorem not_agrees_of_misordered {b1 b2 : SmiCallBack α} (h : Misordered K b1 b2) :
    ¬ (AgreesWithCuts K b1 b2 ∧ AgreesWithCuts K b2 b1) := by
  intro hagree
  rcases h with h | h | h
  · exact not_agrees_of_formClash h hagree.1
  · exact not_agrees_of_prefixSlip h hagree.1
  · exact not_agrees_of_prefixSlip h hagree.2

/-- **`compareRange` is a total preorder along the cuts exactly on the bounds
of which no two are misordered.** -/
theorem compareRange_preorder_iff (K : KeyCompare α) (bounds : List (SmiCallBack α)) :
    ((∀ b1 ∈ bounds, ∀ b2 ∈ bounds, AgreesWithCuts K b1 b2)
      ∧ (∀ b1 ∈ bounds, ∀ b2 ∈ bounds, ∀ b3 ∈ bounds,
          compareRange K b1 b2 ≤ 0 → compareRange K b2 b3 ≤ 0 → compareRange K b1 b3 ≤ 0))
      ↔ ∀ b1 ∈ bounds, ∀ b2 ∈ bounds, ¬ Misordered K b1 b2 := by
  constructor
  · rintro ⟨hagree, -⟩ b1 h1 b2 h2 hmis
    exact not_agrees_of_misordered hmis ⟨hagree b1 h1 b2 h2, hagree b2 h2 b1 h1⟩
  · intro hno
    refine ⟨fun b1 h1 b2 h2 => agreesWithCuts_of (hno b1 h1 b2 h2), ?_⟩
    intro b1 h1 b2 h2 b3 h3 h12 h23
    have hord := cutCmp_signOrder (elemCmp_signOrder K)
    have s12 := compareRange_sign_of (hno b1 h1 b2 h2)
    have s23 := compareRange_sign_of (hno b2 h2 b3 h3)
    have s13 := compareRange_sign_of (hno b1 h1 b3 h3)
    have hle12 : cutCmp (elemCmp K) (fineCut b1) (fineCut b2) ≤ 0 :=
      Int.not_lt.mp fun h => absurd (s12.2.mpr h) (Int.not_lt.mpr h12)
    have hle23 : cutCmp (elemCmp K) (fineCut b2) (fineCut b3) ≤ 0 :=
      Int.not_lt.mp fun h => absurd (s23.2.mpr h) (Int.not_lt.mpr h23)
    have hle13 := hord.trans _ _ _ hle12 hle23
    exact Int.not_lt.mp fun h => absurd (s13.2.mp h) (Int.not_lt.mpr hle13)

/-- Columns that hold integers, in ascending order. -/
def integerCompare : KeyCompare Int where
  cmp _ a b := a - b
  order _ := { swap := fun a b => by omega, trans := fun a b c => by omega }

/-- `i1 < 5` lies before `(i1, i2) > (5, 3)`, and `compareRange` puts it after. -/
theorem lt_prefix_misordered :
    ¬ AgreesWithCuts integerCompare
        { callback := ⟨.lt, .mtd⟩, data := [.value 5] }
        { callback := ⟨.gt, .mtd⟩, data := [.value 5, .value 3] } := by
  unfold AgreesWithCuts
  decide

/-! ## §7. Bounds that follow the cuts. -/

variable (K)

/-- The answer never contradicts the order of the cuts. -/
def FollowsCuts (b1 b2 : SmiCallBack α) : Prop :=
  (cutCmp (elemCmp K) (cutOf b1) (cutOf b2) < 0 → compareRange K b1 b2 < 0)
    ∧ (0 < cutCmp (elemCmp K) (cutOf b1) (cutOf b2) → 0 < compareRange K b1 b2)

/-- The cut of the first bound is not after that of the second. -/
def CutLe (b1 b2 : SmiCallBack α) : Prop := cutCmp (elemCmp K) (cutOf b1) (cutOf b2) ≤ 0

variable {K}

/-- The order of cuts is reflexive, -/
theorem CutLe.refl (b : SmiCallBack α) : CutLe K b b := by
  unfold CutLe
  rw [(cutCmp_signOrder (elemCmp_signOrder K)).self]

/-- and transitive. -/
theorem CutLe.trans {b1 b2 b3 : SmiCallBack α} (h12 : CutLe K b1 b2) (h23 : CutLe K b2 b3) :
    CutLe K b1 b3 :=
  (cutCmp_signOrder (elemCmp_signOrder K)).trans _ _ _ h12 h23

/-- **A key above a bound's cut is above every earlier one.** -/
theorem CutLe.above {b1 b2 : SmiCallBack α} (h : CutLe K b1 b2) {key : Key α}
    (hkey : AboveBound K key b2) : AboveBound K key b1 :=
  above_mono (elemCmp_signOrder K) h hkey

/-- A result that follows the cuts gives their order, -/
theorem FollowsCuts.le {b1 b2 : SmiCallBack α} (h : FollowsCuts K b1 b2)
    (hle : compareRange K b1 b2 ≤ 0) : CutLe K b1 b2 :=
  Int.not_lt.mp fun hgt => absurd (h.2 hgt) (Int.not_lt.mpr hle)

/-- in both directions. -/
theorem FollowsCuts.ge {b1 b2 : SmiCallBack α} (h : FollowsCuts K b1 b2)
    (hge : 0 ≤ compareRange K b1 b2) : CutLe K b2 b1 := by
  have hord := cutCmp_signOrder (elemCmp_signOrder K)
  exact hord.le_of_ge (Int.not_lt.mp fun hlt => absurd (h.1 hlt) (Int.not_lt.mpr hge))

/-- Equal chains and equal kinds cut at the same place. -/
theorem cutCmp_of_formClash {b1 b2 : SmiCallBack α}
    (hclash : chainClash K 0 b1.data b2.data = false)
    (hloop : compareChains K 0 b1.data b2.data = .inr ([], []))
    (hk : b1.callback.kind = b2.callback.kind) :
    cutCmp (elemCmp K) (cutOf b1) (cutOf b2) = 0 := by
  have hword := compareChains_word hclash [.stop b1.callback.kind.side]
    [.stop b2.callback.kind.side]
  rw [hloop] at hword
  obtain ⟨i, hi⟩ := hword
  unfold cutCmp
  rw [cutOf_word, cutOf_word, hi, hk]
  simp [letters, letterCmp]

/-- Without a clash and a slip `compareRange` follows the cuts. -/
theorem followsCuts_of {b1 b2 : SmiCallBack α}
    (hclash : chainClash K 0 b1.data b2.data = false) (hslip : ¬ PrefixSlip K b1 b2) :
    FollowsCuts K b1 b2 := by
  by_cases hform : FormClash K b1 b2
  · rcases hform with h | ⟨hloop, hk, -⟩
    · rw [hclash] at h
      cases h
    · have h0 := cutCmp_of_formClash hclash hloop hk
      exact ⟨fun h => by omega, fun h => by omega⟩
  · have hsign := compareRange_sign hform hslip
    exact ⟨fun h => hsign.1.mpr (fineCut_lt h), fun h => hsign.2.mpr (fineCut_gt h)⟩

end Altibase.Mtk
