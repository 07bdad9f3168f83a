/-
  Altibase.Lib.BinaryHeap
  ───────────────────────
  **BINARY HEAPS IN AN ARRAY.**

  The cells `1 .. n` of an array are a complete binary tree: the children of `i`
  are `2 * i` and `2 * i + 1`.  `r x y` says that `x` may stand below `y`.

    * `HeapOrdered r a n`, `HeapOrdered.le_root` — nothing is above the root;
    * `UpReady`, `DownReady` — all is in order but around one cell, which may be
      too great for its parent or too small for its children;
    * `UpReady.move`, `DownReady.move` — an exchange moves that cell;
      `UpReady.done`, `DownReady.done` — then all is in order;
    * `elems a n`, `elems_swap` — exchanges keep the elements.
-/
import Mathlib.Algebra.Order.Group.Multiset
import Mathlib.Logic.Function.Basic

namespace Altibase.Lib

variable {α : Type}

/-! ## §1. Exchanges. -/

/-- The cells `i` and `j` are exchanged. -/
def swapAt (a : Nat → α) (i j : Nat) : Nat → α :=
  Function.update (Function.update a i (a j)) j (a i)

@[simp] theorem swapAt_right (a : Nat → α) (i j : Nat) : swapAt a i j j = a i :=
  Function.update_self ..

/-- The first place gets the value of the second. -/
theorem swapAt_left (a : Nat → α) {i j : Nat} (h : i ≠ j) : swapAt a i j i = a j := by
  unfold swapAt
  rw [Function.update_of_ne h, Function.update_self]

/-- The other places keep their values. -/
theorem swapAt_of_ne (a : Nat → α) {i j k : Nat} (hi : k ≠ i) (hj : k ≠ j) :
    swapAt a i j k = a k := by
  unfold swapAt
  rw [Function.update_of_ne hj, Function.update_of_ne hi]

/-- **The elements** of the cells `1 .. n`. -/
def elems (a : Nat → α) : Nat → Multiset α
  | 0 => 0
  | n + 1 => a (n + 1) ::ₘ elems a n

/-- The elements are read from the places `1` to `n` only. -/
theorem elems_congr {a b : Nat → α} {n : Nat} (h : ∀ k, 1 ≤ k → k ≤ n → a k = b k) :
    elems a n = elems b n := by
  induction n with
  | zero => rfl
  | succ n ih =>
    unfold elems
    rw [h (n + 1) (by omega) (Nat.le_refl _), ih fun k h1 hk => h k h1 (by omega)]

/-- Every element stands at some place. -/
theorem exists_of_mem_elems {a : Nat → α} {n : Nat} {x : α} (h : x ∈ elems a n) :
    ∃ k, 1 ≤ k ∧ k ≤ n ∧ a k = x := by
  induction n with
  | zero => exact absurd h (Multiset.notMem_zero x)
  | succ n ih =>
    rcases Multiset.mem_cons.mp h with rfl | h
    · exact ⟨n + 1, by omega, Nat.le_refl _, rfl⟩
    · obtain ⟨k, h1, hk, hx⟩ := ih h
      exact ⟨k, h1, by omega, hx⟩

/-- One cell gets a new value. -/
theorem elems_update (a : Nat → α) (v : α) {n k : Nat} (h1 : 1 ≤ k) (hk : k ≤ n) :
    a k ::ₘ elems (Function.update a k v) n = v ::ₘ elems a n := by
  induction n with
  | zero => omega
  | succ n ih =>
    unfold elems
    by_cases hkn : k = n + 1
    · have hrest : elems (Function.update a k v) n = elems a n :=
        elems_congr fun m _ hm => Function.update_of_ne (by omega) ..
      rw [hrest, hkn, Function.update_self, Multiset.cons_swap]
    · rw [Function.update_of_ne (Ne.symm hkn), Multiset.cons_swap, ih (by omega),
        Multiset.cons_swap]

/-- **A swap keeps the elements.** -/
theorem elems_swap (a : Nat → α) {n i j : Nat} (hij : i ≠ j) (hi : 1 ≤ i ∧ i ≤ n)
    (hj : 1 ≤ j ∧ j ≤ n) : elems (swapAt a i j) n = elems a n := by
  have h1 := elems_update (Function.update a i (a j)) (a i) hj.1 hj.2
  have h2 := elems_update a (a j) hi.1 hi.2
  rw [Function.update_of_ne hij.symm, h2] at h1
  exact (Multiset.cons_inj_right _).mp h1

/-! ## §2. Order. -/

/-- **Every cell may stand below its parent.** -/
def HeapOrdered (r : α → α → Prop) (a : Nat → α) (n : Nat) : Prop :=
  ∀ k, 2 ≤ k → k ≤ n → r (a k) (a (k / 2))

/-- All is in order but cell `i`, which may be too great for its parent. -/
structure UpReady (r : α → α → Prop) (a : Nat → α) (n i : Nat) : Prop where
  edges : ∀ k, 2 ≤ k → k ≤ n → k ≠ i → r (a k) (a (k / 2))
  grand : 2 ≤ i → ∀ k, k ≤ n → k / 2 = i → r (a k) (a (i / 2))

/-- All is in order but cell `i`, which may be too small for its children. -/
structure DownReady (r : α → α → Prop) (a : Nat → α) (n i : Nat) : Prop where
  edges : ∀ k, 2 ≤ k → k ≤ n → k / 2 ≠ i → r (a k) (a (k / 2))
  grand : 2 ≤ i → ∀ k, k ≤ n → k / 2 = i → r (a k) (a (i / 2))

section Sift

variable {r : α → α → Prop} {a : Nat → α} {n i j : Nat}

/-- **Nothing is above the root.** -/
theorem HeapOrdered.le_root (hrefl : ∀ x, r x x) (htrans : ∀ x y z, r x y → r y z → r x z)
    (h : HeapOrdered r a n) (k : Nat) (h1 : 1 ≤ k) (hk : k ≤ n) : r (a k) (a 1) := by
  induction k using Nat.strong_induction_on with
  | _ k ih =>
    by_cases hroot : k = 1
    · rw [hroot]
      exact hrefl (a 1)
    · have hparent := ih (k / 2) (by omega) (by omega) (by omega)
      exact htrans _ _ _ (h k (by omega) hk) hparent

/-- Nothing is left to move up where the parent is in order. -/
theorem UpReady.done (h : UpReady r a n i) (hi : 2 ≤ i → r (a i) (a (i / 2))) :
    HeapOrdered r a n := by
  intro k h2 hk
  by_cases hki : k = i
  · rw [hki]
    exact hi (hki ▸ h2)
  · exact h.edges k h2 hk hki

/-- **A cell goes up** in place of its parent. -/
theorem UpReady.move (htrans : ∀ x y z, r x y → r y z → r x z) (h : UpReady r a n i)
    (h2 : 2 ≤ i) (hi : i ≤ n) (hup : r (a (i / 2)) (a i)) :
    UpReady r (swapAt a (i / 2) i) n (i / 2) := by
  have hne : i / 2 ≠ i := by omega
  constructor
  · intro k hk2 hk hki
    by_cases hk' : k = i
    · rw [hk', swapAt_right, swapAt_left a hne]
      exact hup
    · rw [swapAt_of_ne a hki hk']
      by_cases hchild : k / 2 = i
      · rw [hchild, swapAt_right]
        exact h.grand h2 k hk hchild
      · by_cases hsib : k / 2 = i / 2
        · rw [hsib, swapAt_left a hne]
          exact htrans _ _ _ (hsib ▸ h.edges k hk2 hk hk') hup
        · rw [swapAt_of_ne a hsib hchild]
          exact h.edges k hk2 hk hk'
  · intro hp2 k hk hkp
    have hparent : r (a (i / 2)) (a (i / 2 / 2)) := h.edges (i / 2) hp2 (by omega) (by omega)
    rw [swapAt_of_ne a (show i / 2 / 2 ≠ i / 2 by omega) (show i / 2 / 2 ≠ i by omega)]
    by_cases hk' : k = i
    · rw [hk', swapAt_right]
      exact hparent
    · rw [swapAt_of_ne a (show k ≠ i / 2 by omega) hk']
      exact htrans _ _ _ (hkp ▸ h.edges k (by omega) hk hk') hparent

/-- Nothing is left to move down where both children are in order. -/
theorem DownReady.done (h : DownReady r a n i)
    (hi : ∀ k, 2 ≤ k → k ≤ n → k / 2 = i → r (a k) (a i)) : HeapOrdered r a n := by
  intro k h2 hk
  by_cases hki : k / 2 = i
  · rw [hki]
    exact hi k h2 hk hki
  · exact h.edges k h2 hk hki

/-- **A cell goes down** in place of its greatest child. -/
theorem DownReady.move (h : DownReady r a n i) (h1 : 1 ≤ i) (hj : j ≤ n) (hji : j / 2 = i)
    (hmax : ∀ k, 2 ≤ k → k ≤ n → k / 2 = i → r (a k) (a j)) (hdown : r (a i) (a j)) :
    DownReady r (swapAt a i j) n j := by
  have hne : i ≠ j := by omega
  constructor
  · intro k hk2 hk hkj
    by_cases hk' : k = j
    · rw [hk', swapAt_right, hji, swapAt_left a hne]
      exact hdown
    · by_cases hki : k / 2 = i
      · rw [hki, swapAt_left a hne, swapAt_of_ne a (show k ≠ i by omega) hk']
        exact hmax k hk2 hk hki
      · rw [swapAt_of_ne a hki hkj]
        by_cases hself : k = i
        · -- the cell that came up, below the parent of the one that went down
          rw [hself, swapAt_left a hne]
          exact h.grand (hself ▸ hk2) j hj hji
        · rw [swapAt_of_ne a hself hk']
          exact h.edges k hk2 hk hki
  · intro _ k hk hkj
    rw [hji, swapAt_left a hne, swapAt_of_ne a (show k ≠ i by omega) (show k ≠ j by omega)]
    exact hkj ▸ h.edges k (by omega) hk (by omega)

end Sift

end Altibase.Lib
