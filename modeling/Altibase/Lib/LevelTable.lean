/-
  Altibase.Lib.LevelTable
  ───────────────────────
  **A TABLE THAT COUNTS THE MEMBERS OF A FAMILY BY LEVEL.**

  A node of a summary tree knows its children only by their levels: `lvl i` is the
  level of the child `i < n`, the table `tbl` has one counter for each level, and
  the node itself has the highest level that some child has.  Here the levels are
  any linear order with a least element, and the family is any function.

  Main results:
    * `Counts.transfer` — one member changes its level, two counters are adjusted;
    * `Counts.append` — a block of members of one level is added at the end;
    * `TopLevel.le_top` — no member is above the level of the node.
-/
import Mathlib.Order.BoundedOrder.Basic
import Mathlib.Order.Defs.LinearOrder
import Mathlib.Data.Nat.Count

namespace Altibase.Lib

/-! ## §1. Counting the indices below a bound. -/

section Counting

variable {p q : Nat → Prop} [DecidablePred p] [DecidablePred q]

theorem count_eq_of_agree {n : Nat} (h : ∀ j < n, p j ↔ q j) : Nat.count p n = Nat.count q n := by
  induction n with
  | zero => rw [Nat.count_zero, Nat.count_zero]
  | succ n ih =>
      have hn := h n (Nat.lt_succ_self n)
      rw [Nat.count_succ, Nat.count_succ, ih (fun j hj => h j (by omega))]
      simp only [hn]

/-- Two predicates that differ in one index only. -/
theorem count_flip {i n : Nat} (hi : i < n) (hp : p i) (hq : ¬ q i)
    (hne : ∀ j, j ≠ i → (p j ↔ q j)) : Nat.count p n = Nat.count q n + 1 := by
  induction n with
  | zero => omega
  | succ n ih =>
      rw [Nat.count_succ, Nat.count_succ]
      by_cases hin : i = n
      · subst hin
        rw [count_eq_of_agree (fun j hj => hne j (by omega)), if_pos hp, if_neg hq]
      · rw [ih (by omega)]
        have hn := hne n (by omega)
        simp only [hn]
        omega

/-- A block of indices on which the predicate is constant. -/
theorem count_block {n k : Nat} (b : Prop) [Decidable b]
    (h : ∀ j, n ≤ j → j < n + k → (p j ↔ b)) :
    Nat.count p (n + k) = Nat.count p n + if b then k else 0 := by
  induction k with
  | zero => split <;> rfl
  | succ k ih =>
      have hlast := h (n + k) (by omega) (by omega)
      rw [Nat.add_succ, Nat.count_succ, ih (fun j h1 h2 => h j h1 (by omega))]
      simp only [hlast]
      split <;> omega

end Counting

/-! ## §2. The counters. -/

variable {α : Type} [DecidableEq α]

/-- `tbl a` is the number of members `i < n` of level `a`. -/
def Counts (tbl : α → Nat) (lvl : Nat → α) (n : Nat) : Prop :=
  ∀ a, tbl a = Nat.count (fun i => lvl i = a) n

section Counts

variable {tbl : α → Nat} {lvl lvl' : Nat → α} {n : Nat}

theorem Counts.congr (h : Counts tbl lvl n) (heq : ∀ i < n, lvl' i = lvl i) :
    Counts tbl lvl' n := by
  intro a
  rw [h a]
  exact count_eq_of_agree (fun j hj => by rw [heq j hj])

/-- The counter of a level that some member has is positive. -/
theorem Counts.pos (h : Counts tbl lvl n) {i : Nat} (hi : i < n) : 0 < tbl (lvl i) := by
  rw [h (lvl i)]
  have hmono := Nat.count_monotone (fun j => lvl j = lvl i) (show i + 1 ≤ n from hi)
  rw [Nat.count_succ, if_pos rfl] at hmono
  omega

/-- A level whose counter is positive is the level of some member. -/
theorem Counts.exists_of_pos (h : Counts tbl lvl n) {a : α} (ha : 0 < tbl a) :
    ∃ i < n, lvl i = a := by
  rw [h a] at ha
  by_contra hno
  have hzero : Nat.count (fun i => lvl i = a) n = Nat.count (fun _ => False) n :=
    count_eq_of_agree (fun j hj => iff_of_false (fun hj' => hno ⟨j, hj, hj'⟩) (fun hf => hf))
  rw [hzero, Nat.count_false] at ha
  exact absurd ha (Nat.lt_irrefl 0)

/-- **One member changes its level**: its old counter loses one, its new one gains one. -/
theorem Counts.transfer (h : Counts tbl lvl n) {i : Nat} (hi : i < n) (b : α) :
    let t := Function.update tbl (lvl i) (tbl (lvl i) - 1)
    Counts (Function.update t b (t b + 1)) (Function.update lvl i b) n := by
  intro t a
  have hpos := h.pos hi
  have hself : Function.update lvl i b i = b := Function.update_self i b lvl
  have hother : ∀ j, j ≠ i → Function.update lvl i b j = lvl j :=
    fun j hj => Function.update_of_ne hj b lvl
  by_cases hb : b = lvl i
  · -- nothing changes
    have hlvl : Function.update lvl i b = lvl := by rw [hb, Function.update_eq_self]
    rw [hlvl]
    by_cases hab : a = b
    · subst hab
      show Function.update t a (t a + 1) a = _
      rw [Function.update_self]
      show Function.update tbl (lvl i) (tbl (lvl i) - 1) a + 1 = _
      rw [hb, Function.update_self, ← h (lvl i)]
      omega
    · rw [Function.update_of_ne hab]
      show Function.update tbl (lvl i) (tbl (lvl i) - 1) a = _
      rw [Function.update_of_ne (fun he => hab (he.trans hb.symm)), h a]
  · by_cases hab : a = b
    · subst hab
      rw [Function.update_self]
      show Function.update tbl (lvl i) (tbl (lvl i) - 1) a + 1 = _
      rw [Function.update_of_ne hb, h a]
      symm
      exact count_flip hi hself (fun he => hb he.symm) (fun j hj => by rw [hother j hj])
    · rw [Function.update_of_ne hab]
      show Function.update tbl (lvl i) (tbl (lvl i) - 1) a = _
      by_cases hai : a = lvl i
      · rw [hai, Function.update_self, h (lvl i)]
        have hflip := @count_flip (fun j => lvl j = lvl i)
          (fun j => Function.update lvl i b j = lvl i) _ _ i n hi rfl
          (fun he => hb (hself.symm.trans he)) (fun j hj => by rw [hother j hj])
        omega
      · rw [Function.update_of_ne hai, h a]
        refine count_eq_of_agree (fun j _ => ?_)
        by_cases hj : j = i
        · subst hj
          rw [hself]
          exact iff_of_false (fun he => hai he.symm) (fun he => hab he.symm)
        · rw [hother j hj]

/-- **A block of `k` members of the level `b` is added at the end.** -/
theorem Counts.append (h : Counts tbl lvl n) {b : α} {k : Nat} (hold : ∀ i < n, lvl' i = lvl i)
    (hnew : ∀ i, n ≤ i → i < n + k → lvl' i = b) :
    Counts (Function.update tbl b (tbl b + k)) lvl' (n + k) := by
  intro a
  have hblock := @count_block (fun i => lvl' i = a) _ n k (b = a) _
    (fun j h1 h2 => by rw [hnew j h1 h2])
  rw [hblock, ← h.congr hold a]
  by_cases hab : a = b
  · subst hab
    rw [Function.update_self, if_pos rfl]
  · rw [Function.update_of_ne hab, if_neg (fun he => hab he.symm)]
    rfl

end Counts

/-! ## §3. The level of the node. -/

variable [LinearOrder α] [OrderBot α]

/-- `m` is the highest level with a nonzero counter, the least level when there is none. -/
structure TopLevel (tbl : α → Nat) (m : α) : Prop where
  le : ∀ a, 0 < tbl a → a ≤ m
  pos_or_bot : 0 < tbl m ∨ (m = ⊥ ∧ ∀ a, tbl a = 0)

/-- **No member is above the level of the node.** -/
theorem TopLevel.le_top {tbl : α → Nat} {lvl : Nat → α} {n i : Nat} {m : α}
    (ht : TopLevel tbl m) (hc : Counts tbl lvl n) (hi : i < n) : lvl i ≤ m :=
  ht.le (lvl i) (hc.pos hi)

/-- The level of a node that has a member is the level of some member. -/
theorem TopLevel.exists_top {tbl : α → Nat} {lvl : Nat → α} {n : Nat} {m : α}
    (ht : TopLevel tbl m) (hc : Counts tbl lvl n) (hn : 0 < n) : ∃ i < n, lvl i = m := by
  rcases ht.pos_or_bot with hpos | ⟨-, hzero⟩
  · exact hc.exists_of_pos hpos
  · have hpos := hc.pos hn
    rw [hzero (lvl 0)] at hpos
    exact absurd hpos (Nat.lt_irrefl 0)

end Altibase.Lib
