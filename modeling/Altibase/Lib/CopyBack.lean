/-
  Altibase.Lib.CopyBack
  ─────────────────────
  **COPIES OF OUTPUT THAT IS ALREADY WRITTEN.**

  A dictionary coder names a part of its input by the distance to an earlier
  place where the same items stand and by their number.  The decoder copies item
  after item from its own output, so a copy may overlap what it writes.

    * `copyBack` — the copy;
    * `commonLength` — how far two places of the input agree;
    * `copyBack_take` — a copy of no more than that extends a prefix of the input
      to a longer prefix.
-/

import Mathlib.Data.List.Basic

namespace Altibase.Lib

variable {α : Type}

/-- **`n` items are appended**, each a copy of the item `d` places before the end;
    none if the output does not reach back so far. -/
def copyBack (d : Nat) : Nat → List α → Option (List α)
  | 0, out => some out
  | n + 1, out =>
    if d ≤ out.length then
      match out[out.length - d]? with
      | some x => copyBack d n (out ++ [x])
      | none => none
    else none

/-- The number of items from the start on in which two lists agree. -/
def commonLength [DecidableEq α] : List α → List α → Nat
  | x :: xs, y :: ys => if x = y then commonLength xs ys + 1 else 0
  | _, _ => 0

section Common

variable [DecidableEq α]

theorem commonLength_le (xs ys : List α) : commonLength xs ys ≤ ys.length := by
  induction xs generalizing ys with
  | nil => exact Nat.zero_le _
  | cons x xs ih =>
    cases ys with
    | nil => exact Nat.le_refl _
    | cons y ys =>
      show (if x = y then commonLength xs ys + 1 else 0) ≤ ys.length + 1
      by_cases hxy : x = y
      · rw [if_pos hxy]
        exact Nat.succ_le_succ (ih ys)
      · rw [if_neg hxy]
        exact Nat.zero_le _

theorem getElem?_common {xs ys : List α} {k : Nat} (hk : k < commonLength xs ys) :
    xs[k]? = ys[k]? := by
  induction xs generalizing ys k with
  | nil => exact absurd hk (Nat.not_lt_zero k)
  | cons x xs ih =>
    cases ys with
    | nil => exact absurd hk (Nat.not_lt_zero k)
    | cons y ys =>
      have hk' : k < if x = y then commonLength xs ys + 1 else 0 := hk
      by_cases hxy : x = y
      · rw [if_pos hxy] at hk'
        cases k with
        | zero => rw [hxy, List.getElem?_cons_zero, List.getElem?_cons_zero]
        | succ k =>
          rw [List.getElem?_cons_succ, List.getElem?_cons_succ]
          exact ih (Nat.lt_of_succ_lt_succ hk')
      · rw [if_neg hxy] at hk'
        exact absurd hk' (Nat.not_lt_zero k)

/-- Lists that agree in the first `n` items have at least that length in common. -/
theorem le_commonLength {n : Nat} {xs ys : List α}
    (h : ∀ k, k < n → ∃ x, xs[k]? = some x ∧ ys[k]? = some x) : n ≤ commonLength xs ys := by
  induction n generalizing xs ys with
  | zero => exact Nat.zero_le _
  | succ n ih =>
    obtain ⟨x, hx, hy⟩ := h 0 (Nat.succ_pos n)
    cases xs with
    | nil => exact absurd hx (by simp)
    | cons a xs =>
      cases ys with
      | nil => exact absurd hy (by simp)
      | cons b ys =>
        rw [List.getElem?_cons_zero] at hx hy
        have hab : a = b := (Option.some.inj hx).trans (Option.some.inj hy).symm
        show n + 1 ≤ if a = b then commonLength xs ys + 1 else 0
        rw [if_pos hab]
        refine Nat.succ_le_succ (ih fun k hk => ?_)
        have := h (k + 1) (Nat.succ_lt_succ hk)
        rwa [List.getElem?_cons_succ, List.getElem?_cons_succ] at this

end Common

/-- **A copy extends a prefix of the input**, where the input agrees with itself. -/
theorem copyBack_take {src : List α} {d n p : Nat} (hd : 0 < d) (hdp : d ≤ p)
    (hlen : p + n ≤ src.length) (h : ∀ k, k < n → src[p - d + k]? = src[p + k]?) :
    copyBack d n (src.take p) = some (src.take (p + n)) := by
  induction n generalizing p with
  | zero => rfl
  | succ n ih =>
    have htake : (src.take p).length = p := List.length_take_of_le (by omega)
    have hp : p < src.length := by omega
    have hx : (src.take p)[p - d]? = some src[p] := by
      have h0 := h 0 (Nat.succ_pos n)
      rw [Nat.add_zero, Nat.add_zero, List.getElem?_eq_getElem hp] at h0
      rw [List.getElem?_take_of_lt (by omega), h0]
    have hrest : copyBack d n (src.take (p + 1)) = some (src.take (p + 1 + n)) := by
      apply ih (by omega) (by omega)
      intro k hk
      have := h (k + 1) (Nat.succ_lt_succ hk)
      rwa [show p - d + (k + 1) = p + 1 - d + k by omega,
        show p + (k + 1) = p + 1 + k by omega] at this
    rw [copyBack, htake, if_pos hdp, hx]
    show copyBack d n (src.take p ++ [src[p]]) = some (src.take (p + (n + 1)))
    rw [← List.take_succ_eq_append_getElem hp, hrest, show p + 1 + n = p + (n + 1) by omega]

end Altibase.Lib
