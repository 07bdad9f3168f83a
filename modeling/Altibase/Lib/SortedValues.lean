/-
  Altibase.Lib.SortedValues
  ─────────────────────────
  **DISTINCT VALUES OF A SORTED LIST, AND HOW ONE MORE CHANGES THEM.**

  `distinct p l` is the number of different values of a list that satisfy `p`.
  One more value changes it by one, or not at all where the value is there
  already; and in a sorted list this shows at the place of the new value: it
  is there exactly when one of its two neighbours has it.

    * `distinct_insert` — the change, whatever the order of the list;
    * `mem_iff_neighbour` — the neighbours decide in a sorted list.
-/

import Mathlib.Data.Finset.Card
import Mathlib.Order.Defs.PartialOrder

namespace Altibase.Lib

/-! ## §1. Counting. -/

section Count

variable {α : Type} [DecidableEq α] (p : α → Bool)

/-- How many different values of the list satisfy `p`. -/
def distinct (l : List α) : Nat := (l.toFinset.filter fun x => p x = true).card

@[simp] theorem distinct_nil : distinct p [] = 0 := rfl

/-- A value counts where it is met last. -/
theorem distinct_cons (x : α) (l : List α) :
    distinct p (x :: l) = distinct p l + if p x = true ∧ x ∉ l then 1 else 0 := by
  unfold distinct
  rw [List.toFinset_cons, Finset.filter_insert]
  by_cases hp : p x = true
  · rw [if_pos hp, Finset.card_insert_eq_ite]
    by_cases hx : x ∈ l
    · simp [hp, hx]
    · simp [hp, hx]
  · rw [if_neg hp, if_neg fun h => hp h.1, Nat.add_zero]

/-- The order of the values does not matter. -/
theorem distinct_perm {l l' : List α} (h : l.Perm l') : distinct p l = distinct p l' := by
  unfold distinct
  rw [List.toFinset_eq_of_perm l l' h]

/-- **One more value counts if it satisfies `p` and was not there.** -/
theorem distinct_insert (left right : List α) (x : α) :
    distinct p (left ++ x :: right) =
      distinct p (left ++ right) + if p x = true ∧ x ∉ left ++ right then 1 else 0 := by
  rw [distinct_perm p List.perm_middle, distinct_cons]

end Count

/-! ## §2. Neighbours. -/

section Neighbours

variable {α : Type} [PartialOrder α]

/-- The value lies before its place exactly when the one right before it has it. -/
theorem mem_left_iff {left : List α} {x : α} (h : (left ++ [x]).Pairwise (· ≤ ·)) :
    x ∈ left ↔ left.getLast? = some x := by
  refine ⟨fun hx => ?_, fun hx => List.mem_of_getLast? hx⟩
  obtain ⟨rest, last, rfl⟩ := (List.eq_nil_or_concat left).resolve_left (List.ne_nil_of_mem hx)
  rw [List.concat_eq_append] at h hx ⊢
  rw [List.getLast?_concat]
  congr 1
  have hlast : last ≤ x := (List.pairwise_append.mp h).2.2 last (by simp) x (by simp)
  obtain hin | hin := List.mem_append.mp hx
  · have hle : x ≤ last :=
      (List.pairwise_append.mp (List.pairwise_append.mp h).1).2.2 x hin last (by simp)
    exact le_antisymm hlast hle
  · exact (List.mem_singleton.mp hin).symm

/-- The value lies behind its place exactly when the one right behind it has it. -/
theorem mem_right_iff {right : List α} {x : α} (h : (x :: right).Pairwise (· ≤ ·)) :
    x ∈ right ↔ right.head? = some x := by
  refine ⟨fun hx => ?_, fun hx => List.mem_of_mem_head? hx⟩
  cases right with
  | nil => cases hx
  | cons first rest =>
    rw [List.head?_cons]
    congr 1
    obtain ⟨hfirst, hrest⟩ := List.pairwise_cons.mp h
    obtain rfl | hin := List.mem_cons.mp hx
    · rfl
    · exact le_antisymm ((List.pairwise_cons.mp hrest).1 x hin) (hfirst first (by simp))

/-- **In a sorted list the neighbours of a value tell whether it is there twice.** -/
theorem mem_iff_neighbour {left right : List α} {x : α}
    (h : (left ++ x :: right).Pairwise (· ≤ ·)) :
    x ∈ left ++ right ↔ left.getLast? = some x ∨ right.head? = some x := by
  have hl : (left ++ [x]).Pairwise (· ≤ ·) :=
    h.sublist ((List.singleton_sublist.mpr (by simp)).append_left left)
  have hr : (x :: right).Pairwise (· ≤ ·) := (List.pairwise_append.mp h).2.1
  rw [List.mem_append, mem_left_iff hl, mem_right_iff hr]

end Neighbours

end Altibase.Lib
