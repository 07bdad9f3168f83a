/-
  Altibase.Lib.CutOrder
  ─────────────────────
  **CUTS OF A LEXICOGRAPHIC KEY SPACE.**

  Keys are sequences of elements, compared column by column by three-way
  comparators.  A cut is a finite prefix with a side: it lies before or after
  every key that starts with the prefix.  A cut is the word of its elements
  closed by a stop letter whose sign is the side, so that no word is a proper
  prefix of another and cuts are compared as words.

    * `SignOrder` — a three-way comparator is a total preorder;
    * `lexCmp_signOrder` — so is the lexicographic comparator;
    * `Above`, `above_mono` — the keys above a cut, and their monotony.
-/

import Mathlib.Data.List.Basic
import Mathlib.Order.Basic
import Mathlib.Algebra.Order.Ring.Int

namespace Altibase.Lib

/-! ## §1. Three-way comparators. -/

/-- **A three-way comparator is a total preorder**: the sign of `cmp a b` says
how `a` lies to `b`. -/
structure SignOrder {α : Type} (cmp : α → α → Int) : Prop where
  swap : ∀ a b, 0 < cmp a b ↔ cmp b a < 0
  trans : ∀ a b c, cmp a b ≤ 0 → cmp b c ≤ 0 → cmp a c ≤ 0

namespace SignOrder

variable {α : Type} {cmp : α → α → Int}

/-- A value compares equal to itself. -/
theorem self (h : SignOrder cmp) (a : α) : cmp a a = 0 := by
  have := h.swap a a
  omega

/-- Equality goes both ways. -/
theorem eq_comm (h : SignOrder cmp) {a b : α} : cmp a b = 0 ↔ cmp b a = 0 := by
  have h1 := h.swap a b
  have h2 := h.swap b a
  omega

/-- The other way round, -/
theorem le_of_ge (h : SignOrder cmp) {a b : α} (hab : 0 ≤ cmp a b) : cmp b a ≤ 0 := by
  have h2 := h.swap b a
  omega

/-- in both cases. -/
theorem ge_of_le (h : SignOrder cmp) {a b : α} (hab : cmp a b ≤ 0) : 0 ≤ cmp b a := by
  have h1 := h.swap a b
  omega

/-- A strict step and a weak one, -/
theorem lt_of_lt_of_le (h : SignOrder cmp) {a b c : α} (hab : cmp a b < 0)
    (hbc : cmp b c ≤ 0) : cmp a c < 0 := by
  rcases lt_or_ge (cmp a c) 0 with hac | hac
  · exact hac
  -- otherwise `b ≤ c ≤ a` contradicts `a < b`
  · have hba : cmp b a ≤ 0 := h.trans b c a hbc (h.le_of_ge hac)
    have := h.ge_of_le hba
    omega

/-- and a weak step and a strict one. -/
theorem lt_of_le_of_lt (h : SignOrder cmp) {a b c : α} (hab : cmp a b ≤ 0)
    (hbc : cmp b c < 0) : cmp a c < 0 := by
  rcases lt_or_ge (cmp a c) 0 with hac | hac
  · exact hac
  · have hcb : cmp c b ≤ 0 := h.trans c a b (h.le_of_ge hac) hab
    have := h.ge_of_le hcb
    omega

/-- Equal elements compare alike with every other. -/
theorem congr_right (h : SignOrder cmp) {a b : α} (hab : cmp a b = 0) (c : α) :
    (cmp c a < 0 ↔ cmp c b < 0) ∧ (0 < cmp c a ↔ 0 < cmp c b) := by
  have hba : cmp b a = 0 := h.eq_comm.mp hab
  refine ⟨⟨fun hc => ?_, fun hc => ?_⟩, ⟨fun hc => ?_, fun hc => ?_⟩⟩
  · exact h.lt_of_lt_of_le hc (by omega)
  · exact h.lt_of_lt_of_le hc (by omega)
  · rw [h.swap] at hc ⊢
    exact h.lt_of_le_of_lt (by omega) hc
  · rw [h.swap] at hc ⊢
    exact h.lt_of_le_of_lt (by omega) hc

end SignOrder

/-! ### Comparators made of others. -/

section Combine

variable {α : Type}

/-- The second comparator decides where the first finds no difference. -/
def thenCmp (c d : α → α → Int) (a b : α) : Int := if c a b ≠ 0 then c a b else d a b

/-- Two orders one after the other, -/
theorem thenCmp_signOrder {c d : α → α → Int} (hc : SignOrder c) (hd : SignOrder d) :
    SignOrder (thenCmp c d) where
  swap := by
    intro a b
    unfold thenCmp
    by_cases hab : c a b = 0
    · rw [if_neg (not_not.mpr hab), if_neg (not_not.mpr (hc.eq_comm.mp hab))]
      exact hd.swap a b
    · rw [if_pos hab, if_pos fun h => hab (hc.eq_comm.mpr h)]
      exact hc.swap a b
  trans := by
    intro a b e hab hbe
    unfold thenCmp at hab hbe ⊢
    by_cases h1 : c a b = 0
    · by_cases h2 : c b e = 0
      · -- all three are equal for the first comparator
        have hswap := hc.swap e a
        have hle := hc.trans a b e h1.le h2.le
        have hge := hc.trans e b a (hc.eq_comm.mp h2).le (hc.eq_comm.mp h1).le
        have h3 : c a e = 0 := by
          have := hc.ge_of_le hge
          omega
        rw [if_neg (not_not.mpr h1)] at hab
        rw [if_neg (not_not.mpr h2)] at hbe
        rw [if_neg (not_not.mpr h3)]
        exact hd.trans a b e hab hbe
      · rw [if_pos h2] at hbe
        have hlt := hc.lt_of_le_of_lt h1.le (lt_of_le_of_ne hbe h2)
        rw [if_pos hlt.ne]
        exact hlt.le
    · rw [if_pos h1] at hab
      have hle : c b e ≤ 0 := by
        by_cases h2 : c b e = 0
        · exact h2.le
        · rwa [if_pos h2] at hbe
      have hlt := hc.lt_of_lt_of_le (lt_of_le_of_ne hab h1) hle
      rw [if_pos hlt.ne]
      exact hlt.le

/-- A missing element is greater than every other. -/
def nullLast (c : α → α → Int) : Option α → Option α → Int
  | none, none => 0
  | none, some _ => 1
  | some _, none => -1
  | some a, some b => c a b

/-- an order with a last element, -/
theorem nullLast_signOrder {c : α → α → Int} (hc : SignOrder c) : SignOrder (nullLast c) where
  swap := by
    rintro (_ | a) (_ | b)
    · exact Iff.rfl
    · simp [nullLast]
    · simp [nullLast]
    · exact hc.swap a b
  trans := by
    rintro (_ | a) (_ | b) (_ | e) h1 h2
    -- nothing is greater than a missing element
    all_goals simp only [nullLast] at h1 h2 ⊢
    all_goals first | omega | exact hc.trans a b e h1 h2

/-- Numbers compared by a key. -/
def natCmp (f : α → Nat) (a b : α) : Int := if f a > f b then 1 else if f a < f b then -1 else 0

/-- and the order of numbers. -/
theorem natCmp_signOrder (f : α → Nat) : SignOrder (natCmp f) where
  swap := by
    intro a b
    unfold natCmp
    split_ifs <;> omega
  trans := by
    intro a b e
    unfold natCmp
    split_ifs <;> omega

/-- The comparator that finds no difference. -/
theorem zero_signOrder : SignOrder (fun _ _ : α => 0) where
  swap := fun _ _ => Iff.rfl
  trans := fun _ _ _ _ _ => le_rfl

end Combine

/-! ## §2. The lexicographic comparator. -/

section Lex

variable {α : Type} (cmp : ℕ → α → α → Int)

/-- Words compared letter by letter from column `j` on; a proper prefix is
smaller. -/
def lexCmp : ℕ → List α → List α → Int
  | _, [], [] => 0
  | _, [], _ :: _ => -1
  | _, _ :: _, [] => 1
  | j, a :: as, b :: bs => if cmp j a b ≠ 0 then cmp j a b else lexCmp (j + 1) as bs

@[simp] theorem lexCmp_nil (j : ℕ) : lexCmp cmp j [] [] = 0 := rfl

/-- The first difference decides, -/
theorem lexCmp_cons_ne {j : ℕ} {a b : α} (h : cmp j a b ≠ 0) (as bs : List α) :
    lexCmp cmp j (a :: as) (b :: bs) = cmp j a b := by
  simp only [lexCmp, if_pos h]

/-- and equal letters are skipped. -/
theorem lexCmp_cons_eq {j : ℕ} {a b : α} (h : cmp j a b = 0) (as bs : List α) :
    lexCmp cmp j (a :: as) (b :: bs) = lexCmp cmp (j + 1) as bs := by
  simp only [lexCmp, h, ne_eq, not_true_eq_false, if_false]

@[simp] theorem lexCmp_singleton (j : ℕ) (a b : α) : lexCmp cmp j [a] [b] = cmp j a b := by
  by_cases h : cmp j a b = 0
  · rw [lexCmp_cons_eq cmp h, lexCmp_nil, h]
  · rw [lexCmp_cons_ne cmp h]

variable {cmp} (hcmp : ∀ j, SignOrder (cmp j))
include hcmp

/-- The other way round the sign turns. -/
theorem lexCmp_swap (j : ℕ) (as bs : List α) :
    0 < lexCmp cmp j as bs ↔ lexCmp cmp j bs as < 0 := by
  induction as generalizing j bs with
  | nil => cases bs <;> simp [lexCmp]
  | cons a as ih =>
    cases bs with
    | nil => simp [lexCmp]
    | cons b bs =>
      by_cases hab : cmp j a b = 0
      · have hba : cmp j b a = 0 := (hcmp j).eq_comm.mp hab
        rw [lexCmp_cons_eq cmp hab, lexCmp_cons_eq cmp hba]
        exact ih (j + 1) bs
      · have hba : cmp j b a ≠ 0 := fun h0 => hab ((hcmp j).eq_comm.mp h0)
        rw [lexCmp_cons_ne cmp hab, lexCmp_cons_ne cmp hba]
        exact (hcmp j).swap a b

/-- **Words are ordered transitively.** -/
theorem lexCmp_trans (j : ℕ) (as bs cs : List α) (h1 : lexCmp cmp j as bs ≤ 0)
    (h2 : lexCmp cmp j bs cs ≤ 0) : lexCmp cmp j as cs ≤ 0 := by
  induction as generalizing j bs cs with
  | nil => cases cs <;> simp [lexCmp]
  | cons a as ih =>
    cases bs with
    | nil => simp [lexCmp] at h1
    | cons b bs =>
      cases cs with
      | nil => simp [lexCmp] at h2
      | cons c cs =>
        -- the first letters in order `a ≤ b ≤ c`, the tails only if all are equal
        have hab : cmp j a b ≤ 0 := by
          by_cases h : cmp j a b = 0
          · omega
          · rwa [lexCmp_cons_ne cmp h] at h1
        have hbc : cmp j b c ≤ 0 := by
          by_cases h : cmp j b c = 0
          · omega
          · rwa [lexCmp_cons_ne cmp h] at h2
        have hac : cmp j a c ≤ 0 := (hcmp j).trans a b c hab hbc
        by_cases h : cmp j a c = 0
        · have hab0 : cmp j a b = 0 := by
            rcases lt_or_ge (cmp j a b) 0 with hlt | hge
            · have := (hcmp j).lt_of_lt_of_le hlt hbc
              omega
            · omega
          have hbc0 : cmp j b c = 0 := by
            rcases lt_or_ge (cmp j b c) 0 with hlt | hge
            · have := (hcmp j).lt_of_le_of_lt hab hlt
              omega
            · omega
          rw [lexCmp_cons_eq cmp hab0] at h1
          rw [lexCmp_cons_eq cmp hbc0] at h2
          rw [lexCmp_cons_eq cmp h]
          exact ih (j + 1) bs cs h1 h2
        · rw [lexCmp_cons_ne cmp h]
          exact hac

/-- **The lexicographic comparator is a total preorder.** -/
theorem lexCmp_signOrder (j : ℕ) : SignOrder (lexCmp cmp j) where
  swap := lexCmp_swap hcmp j
  trans := lexCmp_trans hcmp j

end Lex

/-! ## §3. Cuts. -/

/-- A letter of a cut's word: an element, or the stop that closes the word and
tells by its sign on which side of the prefix the cut lies. -/
inductive Letter (E : Type) where
  | elem (e : E)
  | stop (r : Int)
  deriving DecidableEq, Repr

/-- A cut: before (`rank < 0`) or after (`rank > 0`) all keys with the prefix;
the size of the rank orders cuts at the same place. -/
structure Cut (E : Type) where
  chain : List E
  rank : Int
  deriving DecidableEq, Repr

section Cuts

variable {E : Type} (ecmp : ℕ → E → E → Int)

/-- A stop lies below every element if its rank is negative, above otherwise. -/
def letterCmp (j : ℕ) : Letter E → Letter E → Int
  | .elem a, .elem b => ecmp j a b
  | .elem _, .stop r => if r < 0 then 1 else -1
  | .stop r, .elem _ => if r < 0 then -1 else 1
  | .stop r, .stop s => r - s

/-- A cut as a word: its elements, then its stop. -/
def Cut.word (c : Cut E) : List (Letter E) := c.chain.map .elem ++ [.stop c.rank]

/-- **The order of cuts** is that of their words. -/
def cutCmp (c d : Cut E) : Int := lexCmp (letterCmp ecmp) 0 c.word d.word

variable {ecmp}

/-- Letters are ordered. -/
theorem letterCmp_signOrder (h : ∀ j, SignOrder (ecmp j)) (j : ℕ) :
    SignOrder (letterCmp ecmp j) where
  swap a b := by
    cases a with
    | elem a =>
      cases b with
      | elem b => exact (h j).swap a b
      | stop s => simp only [letterCmp]; split <;> omega
    | stop r =>
      cases b with
      | elem b => simp only [letterCmp]; split <;> omega
      | stop s => simp only [letterCmp]; omega
  trans a b c := by
    cases a with
    | elem a =>
      cases b with
      | elem b =>
        cases c with
        | elem c => exact (h j).trans a b c
        | stop t => simp only [letterCmp]; intro _ h2; exact h2
      | stop s =>
        cases c with
        | elem c => simp only [letterCmp]; split <;> omega
        | stop t => simp only [letterCmp]; split <;> split <;> omega
    | stop r =>
      cases b with
      | elem b =>
        cases c with
        | elem c => simp only [letterCmp]; intro h1 _; exact h1
        | stop t => simp only [letterCmp]; split <;> split <;> omega
      | stop s =>
        cases c with
        | elem c => simp only [letterCmp]; split <;> split <;> omega
        | stop t => simp only [letterCmp]; omega

/-- **Cuts are totally preordered.** -/
theorem cutCmp_signOrder (h : ∀ j, SignOrder (ecmp j)) : SignOrder (cutCmp ecmp) where
  swap c d := (lexCmp_signOrder (letterCmp_signOrder h) 0).swap c.word d.word
  trans c d e := (lexCmp_signOrder (letterCmp_signOrder h) 0).trans c.word d.word e.word

end Cuts

/-! ## §4. Keys and the cuts they lie above. -/

section Keys

variable {E : Type} (ecmp : ℕ → E → E → Int)

/-- The sign of a key against a prefix: the first column that differs decides. -/
def keyCmp (key : ℕ → E) : ℕ → List E → Int
  | _, [] => 0
  | j, e :: es => if ecmp j (key j) e ≠ 0 then ecmp j (key j) e else keyCmp key (j + 1) es

/-- The key lies above the cut. -/
def Above (key : ℕ → E) (c : Cut E) : Prop :=
  0 < keyCmp ecmp key 0 c.chain ∨ (keyCmp ecmp key 0 c.chain = 0 ∧ c.rank < 0)

/-- The first `n` columns of a key from column `j` on, as a word. -/
def keyWord (key : ℕ → E) : ℕ → ℕ → List (Letter E)
  | _, 0 => []
  | j, n + 1 => .elem (key j) :: keyWord key (j + 1) n

variable {ecmp}

/-- Against a longer stretch of the key, a cut's word is decided like the key
against the cut. -/
theorem lexCmp_keyWord (h : ∀ j, SignOrder (ecmp j)) (key : ℕ → E) (es : List E) (r : Int)
    (j n : ℕ) (hn : es.length < n) :
    (lexCmp (letterCmp ecmp) j (es.map .elem ++ [.stop r]) (keyWord key j n) < 0 ↔
      0 < keyCmp ecmp key j es ∨ (keyCmp ecmp key j es = 0 ∧ r < 0)) ∧
    lexCmp (letterCmp ecmp) j (es.map .elem ++ [.stop r]) (keyWord key j n) ≠ 0 := by
  induction es generalizing j n with
  | nil =>
    obtain ⟨n, rfl⟩ := Nat.exists_eq_succ_of_ne_zero (Nat.pos_iff_ne_zero.mp hn)
    -- the stop meets an element of the key
    by_cases hr : r < 0
    · simp [keyWord, lexCmp, letterCmp, keyCmp, hr]
    · simp [keyWord, lexCmp, letterCmp, keyCmp, hr]
  | cons e es ih =>
    obtain ⟨n, rfl⟩ := Nat.exists_eq_succ_of_ne_zero (by omega : n ≠ 0)
    have hlen : es.length < n := by
      rw [List.length_cons] at hn
      omega
    have hswap := (h j).swap (key j) e
    by_cases he : ecmp j (key j) e = 0
    · have he' : letterCmp ecmp j (.elem e) (.elem (key j)) = 0 := (h j).eq_comm.mp he
      rw [List.map_cons, List.cons_append, keyWord, lexCmp_cons_eq _ he']
      simp only [keyCmp, he, ne_eq, not_true_eq_false, if_false]
      exact ih (j + 1) n hlen
    · have he' : letterCmp ecmp j (.elem e) (.elem (key j)) ≠ 0 :=
        fun h0 => he ((h j).eq_comm.mp h0)
      rw [List.map_cons, List.cons_append, keyWord, lexCmp_cons_ne _ he']
      simp only [keyCmp, ne_eq, he, not_false_eq_true, if_true]
      refine ⟨?_, he'⟩
      show ecmp j e (key j) < 0 ↔ _
      rw [hswap]
      simp

/-- A key lies above a cut if its word does. -/
theorem above_iff_word (h : ∀ j, SignOrder (ecmp j)) (key : ℕ → E) (c : Cut E) {n : ℕ}
    (hn : c.chain.length < n) :
    Above ecmp key c ↔ lexCmp (letterCmp ecmp) 0 c.word (keyWord key 0 n) < 0 :=
  (lexCmp_keyWord h key c.chain c.rank 0 n hn).1.symm

/-- **A key above a cut is above every lower cut.** -/
theorem above_mono (h : ∀ j, SignOrder (ecmp j)) {key : ℕ → E} {c d : Cut E}
    (hcd : cutCmp ecmp c d ≤ 0) (hd : Above ecmp key d) : Above ecmp key c := by
  have hw := lexCmp_signOrder (letterCmp_signOrder h) 0
  have hc : c.chain.length < max c.chain.length d.chain.length + 1 := by omega
  have hd' : d.chain.length < max c.chain.length d.chain.length + 1 := by omega
  rw [above_iff_word h key d hd'] at hd
  rw [above_iff_word h key c hc]
  exact hw.lt_of_le_of_lt hcd hd

end Keys

end Altibase.Lib
