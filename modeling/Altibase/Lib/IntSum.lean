/-
  Altibase.Lib.IntSum
  ───────────────────
  **SUMS OVER RANGES OF INTEGERS, AND DIVISION TOWARDS ZERO.**

  `sumFrom f a b` adds up `f` from `a` on and before `b`; if `b` is below `a`, it
  is the sum between them with a minus sign.

    * `sumFrom_succ`, `sumFrom_self` — one more summand;
    * `sumFrom_telescope` — the sum of the differences of a function;
    * `tdiv_spec` — what omega has to know of the quotient and the remainder.
-/
import Mathlib.Algebra.BigOperators.Group.Finset.Basic
import Mathlib.Algebra.BigOperators.Ring.Finset
import Mathlib.Tactic.Ring

namespace Altibase.Lib

/-! ## §1. Sums. -/

/-- **The sum** of `f` from `a` on and before `b`. -/
def sumFrom (f : Int → Int) (a b : Int) : Int :=
  ∑ i ∈ Finset.range (b - a).toNat, f (a + i) - ∑ i ∈ Finset.range (a - b).toNat, f (b + i)

@[simp] theorem sumFrom_self (f : Int → Int) (a : Int) : sumFrom f a a = 0 := by
  unfold sumFrom
  simp

/-- One more term. -/
theorem sumFrom_succ (f : Int → Int) (a b : Int) : sumFrom f a (b + 1) = sumFrom f a b + f b := by
  unfold sumFrom
  by_cases h : a ≤ b
  · have h1 : (b + 1 - a).toNat = (b - a).toNat + 1 := by omega
    have h2 : (a - (b + 1)).toNat = 0 := by omega
    have h3 : (a - b).toNat = 0 := by omega
    have h4 : a + ((b - a).toNat : Int) = b := by omega
    rw [h1, h2, h3, Finset.sum_range_succ, h4]
    simp
  · have h1 : (b + 1 - a).toNat = 0 := by omega
    have h2 : (b - a).toNat = 0 := by omega
    have h3 : (a - b).toNat = (a - (b + 1)).toNat + 1 := by omega
    have hshift : ∀ i : Nat, b + ((i + 1 : Nat) : Int) = b + 1 + (i : Int) := by
      intro i
      push_cast
      ring
    rw [h1, h2, h3, Finset.sum_range_succ']
    simp only [Finset.range_zero, Finset.sum_empty, hshift, Nat.cast_zero, add_zero]
    ring

/-- **A sum of differences** is the difference of the ends. -/
theorem sumFrom_telescope {f g : Int → Int} (h : ∀ y, g (y + 1) = g y + f y) (a b : Int) :
    sumFrom f a b = g b - g a := by
  induction b using Int.inductionOn' (b := a) with
  | zero => simp
  | succ b _ ih =>
    rw [sumFrom_succ, ih, h]
    ring
  | pred b _ ih =>
    have hlast := sumFrom_succ f a (b - 1)
    have hdiff := h (b - 1)
    rw [sub_add_cancel] at hlast hdiff
    rw [ih] at hlast
    omega

/-! ## §2. Division towards zero. -/

/-- **Quotient and remainder towards zero.** -/
theorem tdiv_spec (a : Int) {b : Int} (hb : 0 < b) :
    a = b * a.tdiv b + a.tmod b ∧ (0 ≤ a → 0 ≤ a.tmod b) ∧ (a ≤ 0 → a.tmod b ≤ 0) ∧
      -b < a.tmod b ∧ a.tmod b < b := by
  refine ⟨(Int.mul_tdiv_add_tmod a b).symm, Int.tmod_nonneg b, fun ha => ?_, ?_,
    Int.tmod_lt_of_pos a hb⟩
  · have h := Int.tmod_nonneg b (Int.neg_nonneg_of_nonpos ha)
    rw [Int.neg_tmod] at h
    omega
  · have h := Int.tmod_lt_of_pos (-a) hb
    rw [Int.neg_tmod] at h
    omega

end Altibase.Lib
