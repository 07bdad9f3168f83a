/-
  Altibase.Lib.LowerBound
  ───────────────────────
  **THE FIRST INDEX AT WHICH A MONOTONE TEST PASSES.**

  `lowerBound p fuel lo hi` halves the half-open interval `[lo, hi)`, going
  left where the test `p` passes and right where it fails.

    * `lowerBound_spec` — for a test that stays true once it is true, the
      result separates the indices that fail from those that pass.

  `halve test fuel lo hi` is the same search as a loop that tests before it
  looks at its bounds, over a closed interval, with a test that may itself fail.

    * `halve_spec` — for any test, the index before the result fails and the
      result passes, wherever they lie in the interval;
    * `halve_eq_lowerBound` — both searches take the same steps.
-/

import Mathlib.Order.Basic

namespace Altibase.Lib

/-- Binary search for the first index of `[lo, hi)` that passes `p`; `hi` when none
does.  `hi - lo` is fuel enough. -/
def lowerBound (p : Nat → Bool) : Nat → Nat → Nat → Nat
  | 0, lo, _ => lo
  | fuel + 1, lo, hi =>
      if lo < hi then
        let mid := (lo + (hi - 1)) / 2
        if p mid then lowerBound p fuel lo mid else lowerBound p fuel (mid + 1) hi
      else lo

/-- The test, once true, stays true up to `hi`. -/
def StaysTrue (p : Nat → Bool) (lo hi : Nat) : Prop :=
  ∀ i j, lo ≤ i → i ≤ j → j < hi → p i = true → p j = true

theorem StaysTrue.sub {p : Nat → Bool} {lo hi lo' hi' : Nat} (h : StaysTrue p lo hi)
    (hl : lo ≤ lo') (hh : hi' ≤ hi) : StaysTrue p lo' hi' := by
  intro i j hi1 hij hj
  exact h i j (by omega) hij (by omega)

/-- **The result separates failing indices from passing ones.** -/
theorem lowerBound_spec (p : Nat → Bool) : ∀ (fuel lo hi : Nat), lo ≤ hi → hi - lo ≤ fuel →
    StaysTrue p lo hi →
    lo ≤ lowerBound p fuel lo hi ∧ lowerBound p fuel lo hi ≤ hi ∧
      (∀ i, lo ≤ i → i < lowerBound p fuel lo hi → p i = false) ∧
      (∀ i, lowerBound p fuel lo hi ≤ i → i < hi → p i = true) := by
  intro fuel
  induction fuel with
  | zero =>
    intro lo hi hle hfuel _
    unfold lowerBound
    have : lo = hi := by omega
    exact ⟨Nat.le_refl _, hle, fun i _ _ => by omega, fun i _ _ => by omega⟩
  | succ fuel ih =>
    intro lo hi hle hfuel hmono
    by_cases hlt : lo < hi
    · have hml : lo ≤ (lo + (hi - 1)) / 2 := by omega
      have hmh : (lo + (hi - 1)) / 2 < hi := by omega
      generalize hmid : (lo + (hi - 1)) / 2 = mid at hml hmh
      by_cases hp : p mid = true
      · -- the boundary is at the middle or left of it
        have hstep : lowerBound p (fuel + 1) lo hi = lowerBound p fuel lo mid := by
          rw [lowerBound, if_pos hlt, hmid, if_pos hp]
        obtain ⟨h1, h2, h3, h4⟩ := ih lo mid hml (by omega) (hmono.sub (Nat.le_refl _) (by omega))
        rw [hstep]
        refine ⟨h1, by omega, h3, ?_⟩
        intro i hi1 hi2
        by_cases him : i < mid
        · exact h4 i hi1 him
        · exact hmono mid i hml (by omega) hi2 hp
      · -- everything up to the middle fails
        have hstep : lowerBound p (fuel + 1) lo hi = lowerBound p fuel (mid + 1) hi := by
          rw [lowerBound, if_pos hlt, hmid, if_neg hp]
        obtain ⟨h1, h2, h3, h4⟩ :=
          ih (mid + 1) hi (by omega) (by omega) (hmono.sub (by omega) (Nat.le_refl _))
        rw [hstep]
        refine ⟨by omega, h2, ?_, h4⟩
        intro i hi1 hi2
        by_cases him : mid < i
        · exact h3 i (by omega) hi2
        · rw [Bool.eq_false_iff]
          intro hpi
          exact hp (hmono i mid hi1 (by omega) hmh hpi)
    · unfold lowerBound
      rw [if_neg hlt]
      exact ⟨Nat.le_refl _, hle, fun i _ _ => by omega, fun i _ _ => by omega⟩

/-! ### A loop that tests first. -/

/-- The search as a loop with its condition at the end; `none` where a test
fails, or where the fuel is used up. -/
def halve (test : Int → Option Bool) : Nat → Int → Int → Option Int
  | 0, _, _ => none
  | fuel + 1, lo, hi =>
      let mid := (lo + hi) / 2
      (test mid).bind fun passes =>
        if passes then if lo ≤ mid - 1 then halve test fuel lo (mid - 1) else some mid
        else if mid + 1 ≤ hi then halve test fuel (mid + 1) hi else some (mid + 1)

/-- **Whatever the test, the result lies behind a failing index and on a passing
one**, as far as these are in the interval. -/
theorem halve_spec (test : Int → Option Bool) : ∀ (fuel : Nat) (lo hi : Int), lo ≤ hi →
    hi - lo < fuel → (∀ i, lo ≤ i → i ≤ hi → (test i).isSome = true) →
    ∃ s, halve test fuel lo hi = some s ∧ lo ≤ s ∧ s ≤ hi + 1 ∧
      (lo < s → test (s - 1) = some false) ∧ (s ≤ hi → test s = some true) := by
  intro fuel
  induction fuel with
  | zero =>
    intro lo hi hle hfuel _
    omega
  | succ fuel ih =>
    intro lo hi hle hfuel hsome
    have hlo : lo ≤ (lo + hi) / 2 := by omega
    have hhi : (lo + hi) / 2 ≤ hi := by omega
    obtain ⟨b, hb⟩ := Option.isSome_iff_exists.mp (hsome _ hlo hhi)
    have hstep : halve test (fuel + 1) lo hi =
        if b then if lo ≤ (lo + hi) / 2 - 1 then halve test fuel lo ((lo + hi) / 2 - 1)
          else some ((lo + hi) / 2)
        else if (lo + hi) / 2 + 1 ≤ hi then halve test fuel ((lo + hi) / 2 + 1) hi
          else some ((lo + hi) / 2 + 1) := by
      show (test ((lo + hi) / 2)).bind _ = _
      rw [hb]
      rfl
    rw [hstep]
    generalize (lo + hi) / 2 = mid at hlo hhi hb
    cases b with
    | true =>
      simp only [if_true]
      split_ifs with hmore
      · -- the test passes in the middle: go on to the left of it
        obtain ⟨s, hs, h1, h2, h3, h4⟩ := ih lo (mid - 1) hmore (by omega)
          fun i hi1 hi2 => hsome i hi1 (by omega)
        refine ⟨s, hs, h1, by omega, h3, fun h => ?_⟩
        by_cases hsm : s = mid
        · rw [hsm]
          exact hb
        · exact h4 (by omega)
      · exact ⟨mid, rfl, hlo, by omega, fun h => by omega, fun _ => hb⟩
    | false =>
      simp only [Bool.false_eq_true, if_false]
      split_ifs with hmore
      · -- it fails: go on to the right of it
        obtain ⟨s, hs, h1, h2, h3, h4⟩ := ih (mid + 1) hi hmore (by omega)
          fun i hi1 hi2 => hsome i (by omega) hi2
        refine ⟨s, hs, by omega, h2, fun _ => ?_, h4⟩
        by_cases hsm : s = mid + 1
        · rw [hsm, Int.add_sub_cancel]
          exact hb
        · exact h3 (by omega)
      · refine ⟨mid + 1, rfl, by omega, by omega, fun _ => ?_, fun h => by omega⟩
        rw [Int.add_sub_cancel]
        exact hb

/-- An interval without indices is not searched. -/
theorem lowerBound_self (p : Nat → Bool) (fuel lo : Nat) : lowerBound p fuel lo lo = lo := by
  cases fuel with
  | zero => rfl
  | succ fuel =>
    unfold lowerBound
    rw [if_neg (Nat.lt_irrefl lo)]

/-- **On the indices of a half-open interval both searches take the same steps**,
whether or not the test stays true. -/
theorem halve_eq_lowerBound (p : Nat → Bool) (test : Int → Option Bool) :
    ∀ (fuel fuel' lo hi : Nat), lo < hi → hi - lo ≤ fuel → hi - lo ≤ fuel' →
      (∀ i, lo ≤ i → i < hi → test (i : Nat) = some (p i)) →
      halve test fuel lo ((hi : Int) - 1) = some ((lowerBound p fuel' lo hi : Nat) : Int) := by
  intro fuel
  induction fuel with
  | zero =>
    intro fuel' lo hi hlt hfuel
    omega
  | succ fuel ih =>
    intro fuel' lo hi hlt hfuel hfuel' htest
    obtain ⟨fuel', rfl⟩ : ∃ n, fuel' = n + 1 := ⟨fuel' - 1, by omega⟩
    have hmid : ((lo : Int) + ((hi : Int) - 1)) / 2 = (((lo + (hi - 1)) / 2 : Nat) : Int) := by
      omega
    have hml : lo ≤ (lo + (hi - 1)) / 2 := by omega
    have hmh : (lo + (hi - 1)) / 2 < hi := by omega
    have hnext : ∀ n : Nat, ((n + 1 : Nat) : Int) = (n : Int) + 1 := fun n => by omega
    unfold halve lowerBound
    rw [if_pos hlt, hmid]
    generalize (lo + (hi - 1)) / 2 = mid at hml hmh
    dsimp only
    rw [htest mid hml hmh, Option.bind_some]
    by_cases hp : p mid = true
    · rw [if_pos hp, if_pos hp]
      by_cases hmore : lo < mid
      · rw [if_pos (by omega)]
        exact ih fuel' lo mid hmore (by omega) (by omega) fun i h1 h2 => htest i h1 (by omega)
      · have hlo : mid = lo := by omega
        rw [if_neg (by omega), hlo, lowerBound_self]
    · rw [if_neg hp, if_neg hp]
      by_cases hmore : mid + 1 < hi
      · rw [if_pos (by omega)]
        have hstep := ih fuel' (mid + 1) hi hmore (by omega) (by omega) fun i h1 h2 =>
          htest i (by omega) h2
        rwa [hnext] at hstep
      · have hhi : hi = mid + 1 := by omega
        rw [if_neg (by omega), hhi, lowerBound_self, hnext]

end Altibase.Lib
