/-
  Altibase.Sml.LockMode
  ─────────────────────
  **THE LOCK MODES AND THE THREE TABLES OF THE LOCK MANAGER.**

  `smlLockMode`, `mLockModeToMask`, `mCompatibleTBL`, `mConversionTBL` and
  `mDecisionTBL` of smlDef.h / smlLockMgr.cpp, entry by entry.  What the rest
  of the development uses of the tables is proved here once:

    • the conversion table is the join of a lattice whose bottom is
      `SML_NLOCK`; `a ≤ b` is the code's own test `mConversionTBL[b][a] == b`;
    • the compatibility table is symmetric and distributes over that join
      (the `Compat` instance);
    • the decision table is the join of the modes whose mask bits are set
      (`getDecision_maskOf`).
-/
import Altibase.Lib.LockQueue
import Mathlib.Data.Fintype.Basic
import Mathlib.Data.List.Perm.Basic

namespace Altibase.Sml

open Altibase.Lib

/-! ## §1. The modes and the tables. -/

/-- `smlLockMode`. -/
inductive LockMode
  | nlock
  | slock
  | xlock
  | islock
  | ixlock
  | sixlock
  deriving Repr, DecidableEq

namespace LockMode

/-- The value of the enumerator. -/
def toNat : LockMode → Nat
  | nlock => 0
  | slock => 1
  | xlock => 2
  | islock => 3
  | ixlock => 4
  | sixlock => 5

instance : Fintype LockMode :=
  Fintype.ofList [nlock, slock, xlock, islock, ixlock, sixlock]
    (fun m => by cases m <;> simp)

end LockMode

/-- The lock bits of an `mFlag` (an `SInt` of which only these six bits are used). -/
abbrev Mask := BitVec 6

/-- `SML_FLAG_LIGHT_MODE`. -/
def flagLightMode : Mask := 0x20

/-- `mLockModeToMask`. -/
def lockModeToMask : LockMode → Mask
  | .nlock => 0x00
  | .slock => 0x01
  | .xlock => 0x02
  | .islock => 0x04
  | .ixlock => 0x08
  | .sixlock => 0x10

/-- `mCompatibleTBL[a][b]`. -/
def compatibleTBL (a b : LockMode) : Bool :=
  (match a with
    | .nlock   => [true, true,  true,  true,  true,  true]
    | .slock   => [true, true,  false, true,  false, false]
    | .xlock   => [true, false, false, false, false, false]
    | .islock  => [true, true,  false, true,  true,  true]
    | .ixlock  => [true, false, false, true,  true,  false]
    | .sixlock => [true, false, false, true,  false, false]).getD b.toNat false

open LockMode in
/-- `mConversionTBL[a][b]`. -/
def conversionTBL (a b : LockMode) : LockMode :=
  (match a with
    | .nlock   => [nlock,   slock,   xlock, islock,  ixlock,  sixlock]
    | .slock   => [slock,   slock,   xlock, slock,   sixlock, sixlock]
    | .xlock   => [xlock,   xlock,   xlock, xlock,   xlock,   xlock]
    | .islock  => [islock,  slock,   xlock, islock,  ixlock,  sixlock]
    | .ixlock  => [ixlock,  sixlock, xlock, ixlock,  ixlock,  sixlock]
    | .sixlock => [sixlock, sixlock, xlock, sixlock, sixlock, sixlock]).getD b.toNat nlock

open LockMode in
/-- `mDecisionTBL`. -/
def decisionTBL : List LockMode :=
  [nlock,   slock,   xlock, xlock,
   islock,  slock,   xlock, xlock,
   ixlock,  sixlock, xlock, xlock,
   ixlock,  sixlock, xlock, xlock,
   sixlock, sixlock, xlock, xlock,
   sixlock, sixlock, xlock, xlock,
   sixlock, sixlock, xlock, xlock,
   sixlock, sixlock, xlock, xlock]

/-- `getDecision`: the table is read at the flag. -/
def getDecision (flag : Mask) : LockMode :=
  decisionTBL.getD flag.toNat .nlock

/-! ## §2. The lattice of modes. -/

instance : SemilatticeSup LockMode where
  le a b := conversionTBL b a = b
  sup := conversionTBL
  le_refl := by decide
  le_trans := by decide
  le_antisymm := by decide
  le_sup_left := by decide
  le_sup_right := by decide
  sup_le := by decide

instance (a b : LockMode) : Decidable (a ≤ b) :=
  inferInstanceAs (Decidable (conversionTBL b a = b))

instance : OrderBot LockMode where
  bot := .nlock
  bot_le := by decide

instance : Compat LockMode where
  compat a b := compatibleTBL a b = true
  compat_symm := by decide
  compat_bot := by decide
  compat_sup := by decide

/-- The conversion table is the join. -/
theorem conversionTBL_eq_sup (a b : LockMode) : conversionTBL a b = a ⊔ b := rfl

/-- No lock is the bottom. -/
theorem nlock_eq_bot : LockMode.nlock = ⊥ := rfl

/-- Compatibility is the table. -/
theorem compat_iff (a b : LockMode) : Compat.compat a b ↔ compatibleTBL a b = true := Iff.rfl

/-- A mode lies below another if the conversion adds nothing. -/
theorem le_iff_conversion (a b : LockMode) : a ≤ b ↔ conversionTBL b a = b := Iff.rfl

/-- The intention modes are those below `SML_IXLOCK`; the others are the modes
    that light mode excludes. -/
theorem not_le_ixlock_iff (m : LockMode) :
    ¬ m ≤ .ixlock ↔ m = .xlock ∨ m = .slock ∨ m = .sixlock := by
  revert m; decide

/-- The intention modes, and no lock. -/
theorem le_ixlock_iff (m : LockMode) :
    m ≤ .ixlock ↔ m = .islock ∨ m = .ixlock ∨ m = .nlock := by
  revert m; decide

/-- A conversion does not lose the mode that is held. -/
theorem sup_ne_nlock {a b : LockMode} (h : a ≠ .nlock) : a ⊔ b ≠ .nlock := by
  revert a b; decide

/-- **Intention modes are compatible.** -/
theorem compat_of_le_ixlock {a b : LockMode} (ha : a ≤ .ixlock) (hb : b ≤ .ixlock) :
    Compat.compat a b :=
  compat_of_le (show Compat.compat LockMode.ixlock LockMode.ixlock from rfl) ha hb

/-! ## §3. Flags as sets of modes. -/

/-- The union of the masks of a list of modes. -/
def maskOf (l : List LockMode) : Mask :=
  l.foldr (fun m f => lockModeToMask m ||| f) 0

@[simp] theorem maskOf_nil : maskOf [] = 0 := rfl

@[simp] theorem maskOf_cons (m : LockMode) (l : List LockMode) :
    maskOf (m :: l) = lockModeToMask m ||| maskOf l := rfl

/-- The mask of one mode. -/
theorem maskOf_singleton (m : LockMode) : maskOf [m] = lockModeToMask m := by
  cases m <;> rfl

/-- Masks are joined. -/
theorem maskOf_append (l k : List LockMode) : maskOf (l ++ k) = maskOf l ||| maskOf k := by
  induction l with
  | nil => simp
  | cons m l ih => rw [List.cons_append, maskOf_cons, ih, maskOf_cons, BitVec.or_assoc]

/-- The order of the modes is of no matter. -/
theorem maskOf_perm {l k : List LockMode} (h : l.Perm k) : maskOf l = maskOf k := by
  induction h with
  | nil => rfl
  | cons m _ ih => rw [maskOf_cons, maskOf_cons, ih]
  | swap a b l =>
      simp only [maskOf_cons]
      rw [← BitVec.or_assoc, BitVec.or_comm (lockModeToMask b), BitVec.or_assoc]
  | trans _ _ ih₁ ih₂ => exact ih₁.trans ih₂

/-- The masks never touch the light-mode bit. -/
theorem and_light_lockModeToMask (m : LockMode) : lockModeToMask m &&& flagLightMode = 0 := by
  revert m; decide

/-- No mask of modes has the bit of light mode, -/
theorem and_light_maskOf (l : List LockMode) : maskOf l &&& flagLightMode = 0 := by
  induction l with
  | nil => rfl
  | cons m l ih =>
      rw [maskOf_cons, BitVec.and_or_distrib_right, and_light_lockModeToMask, ih]
      rfl

/-- so none is the flag of light mode. -/
theorem maskOf_ne_light (l : List LockMode) : maskOf l ≠ flagLightMode := by
  intro h
  have := and_light_maskOf l
  rw [h] at this
  exact absurd this (by decide)

/-- Clearing one mask keeps the others. -/
theorem maskOf_filter_ne (m : LockMode) (l : List LockMode) :
    maskOf (l.filter (· ≠ m)) = maskOf l &&& ~~~ lockModeToMask m := by
  have hself : ∀ m, lockModeToMask m &&& ~~~ lockModeToMask m = 0 := by decide
  have hother : ∀ a m, a ≠ m → lockModeToMask a &&& ~~~ lockModeToMask m = lockModeToMask a := by
    decide
  induction l with
  | nil => simp
  | cons a l ih =>
      rw [maskOf_cons, BitVec.and_or_distrib_right, ← ih]
      by_cases h : a = m
      · subst h
        rw [hself, List.filter_cons_of_neg (by simp)]
        simp
      · rw [hother a m h, List.filter_cons_of_pos (by simpa using h), maskOf_cons]

/-- A mode that is there adds no bit. -/
theorem maskOf_cons_of_mem {m : LockMode} {l : List LockMode} (h : m ∈ l) :
    maskOf (m :: l) = maskOf l := by
  obtain ⟨l₁, l₂, rfl⟩ := List.append_of_mem h
  rw [maskOf_cons, maskOf_perm List.perm_middle, maskOf_cons, ← BitVec.or_assoc, BitVec.or_self]

/-- A mode that was not there is taken out by clearing its bit. -/
theorem maskOf_cons_clear {m : LockMode} {l : List LockMode} (h : m ∉ l) :
    maskOf (m :: l) &&& ~~~ lockModeToMask m = maskOf l := by
  rw [← maskOf_filter_ne, List.filter_cons_of_neg (by simp), List.filter_eq_self.2]
  intro a ha
  exact decide_eq_true (fun e => h (e ▸ ha))

/-- A bit is set exactly when its mode is in the list. -/
theorem maskOf_bit {m : LockMode} (hm : m ≠ .nlock) (l : List LockMode) :
    maskOf l &&& lockModeToMask m ≠ 0 ↔ m ∈ l := by
  have hself : ∀ m, m ≠ LockMode.nlock → lockModeToMask m &&& lockModeToMask m ≠ 0 := by decide
  have hother : ∀ a m, a ≠ m → lockModeToMask a &&& lockModeToMask m = 0 := by decide
  have hor : ∀ a b : Mask, a ||| b = 0 ↔ a = 0 ∧ b = 0 := by
    intro a b
    constructor
    · intro h
      constructor <;> ext i hi <;> have := congrArg (fun v => v.getLsbD i) h <;> simp_all
    · rintro ⟨rfl, rfl⟩; rfl
  induction l with
  | nil => simp
  | cons a l ih =>
      rw [maskOf_cons, BitVec.and_or_distrib_right, ne_eq, hor, not_and_or, List.mem_cons]
      simp only [← ne_eq, ih]
      by_cases h : a = m
      · subst h
        exact iff_of_true (Or.inl (hself a hm)) (Or.inl rfl)
      · simp [hother a m h, Ne.symm h]

/-! ## §4. The decision table is the join. -/

/-- One more bit converts the decision. -/
private theorem getDecision_or : ∀ (f : Mask), f &&& flagLightMode = 0 → ∀ m : LockMode,
    getDecision (lockModeToMask m ||| f) = conversionTBL m (getDecision f) := by
  decide +kernel

/-- **`mDecisionTBL` at the union of some masks is the join of their modes.** -/
theorem getDecision_maskOf : ∀ (l : List LockMode),
    getDecision (maskOf l) = l.foldr (· ⊔ ·) ⊥
  | [] => rfl
  | m :: l => by
      rw [maskOf_cons, getDecision_or _ (and_light_maskOf l) m, getDecision_maskOf l]
      rfl

/-- Setting one more bit joins one more mode. -/
theorem getDecision_or_mask {f : Mask} (hf : f &&& flagLightMode = 0) (m : LockMode) :
    getDecision (f ||| lockModeToMask m) = getDecision f ⊔ m := by
  rw [BitVec.or_comm, getDecision_or f hf m, conversionTBL_eq_sup, sup_comm]

/-- Adding a mode leaves the bit of light mode clear, -/
theorem and_light_or {f : Mask} (hf : f &&& flagLightMode = 0) (m : LockMode) :
    (f ||| lockModeToMask m) &&& flagLightMode = 0 := by
  rw [BitVec.and_or_distrib_right, hf, and_light_lockModeToMask]
  rfl

/-- and so does clearing one. -/
theorem and_light_clear {f : Mask} (hf : f &&& flagLightMode = 0) (m : LockMode) :
    (f &&& ~~~ lockModeToMask m) &&& flagLightMode = 0 := by
  rw [BitVec.and_assoc, BitVec.and_comm (~~~ lockModeToMask m), ← BitVec.and_assoc, hf]
  exact BitVec.zero_and

/-- The decision of a single mode is the mode. -/
theorem getDecision_lockModeToMask (m : LockMode) : getDecision (lockModeToMask m) = m := by
  revert m; decide

/-- Only the empty mask decides for no lock. -/
theorem getDecision_eq_nlock {f : Mask} (hf : f &&& flagLightMode = 0)
    (h : getDecision f = .nlock) : f = 0 := by
  revert f; decide +kernel

/-- Clearing a bit lowers the decision. -/
theorem getDecision_mono_clear (f : Mask) (hf : f &&& flagLightMode = 0) (m : LockMode) :
    getDecision (f &&& ~~~ lockModeToMask m) ≤ getDecision f := by
  revert f m; decide +kernel

end Altibase.Sml
