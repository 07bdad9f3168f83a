/-
  Altibase.Lib.Digits
  ───────────────────
  **DIGIT STRINGS, MOST SIGNIFICANT DIGIT FIRST.**

  `val b ds` is what the string `ds` denotes in base `b`, over any commutative
  semiring: programs that postpone the carries hold digits that are too large
  or negative for a while, and the value of such a string is still the sum of
  its digits times their weights.  `carry` is the loop that a program runs
  over a string from its last digit to its first; whatever the loop does with
  one digit, if each step moves exactly what it takes away then the loop as a
  whole keeps the value (`val_carry`).

  For natural digits below the base the string is determined by its length and
  value (`val_inj`).

  `mag b e ds` reads `ds` as the digits of a number `0.d₁d₂… × bᵉ`.  A string
  without leading and trailing zeros is the only one of its magnitude
  (`mag_inj`): this is what a canonical form rests on.
-/

import Mathlib.Algebra.BigOperators.Group.List.Basic
import Mathlib.Algebra.Order.Field.Power
import Mathlib.Data.Int.Log
import Mathlib.Data.List.DropRight
import Mathlib.Data.List.GetD
import Mathlib.Data.Rat.Floor
import Mathlib.Tactic.Ring
import Mathlib.Tactic.Linarith
import Mathlib.Tactic.Positivity
import Mathlib.Tactic.FieldSimp
import Mathlib.Tactic.NormNum

namespace Altibase.Lib.Digits

/-! ## §1. The value of a string. -/

section Value

variable {R : Type} [CommSemiring R] (b : R)

/-- **What a string of digits denotes in base `b`.** -/
def val (ds : List R) : R := ds.foldl (fun a d => a * b + d) 0

/-- Horner's scheme from any start value. -/
theorem foldl_eq (ds : List R) :
    ∀ a : R, ds.foldl (fun a d => a * b + d) a = a * b ^ ds.length + val b ds := by
  unfold val
  induction ds with
  | nil =>
    intro a
    simp
  | cons d ds ih =>
    intro a
    rw [List.foldl_cons, List.foldl_cons, ih, ih (0 * b + d), List.length_cons]
    ring

@[simp] theorem val_nil : val b [] = 0 := rfl

/-- The leading digit has the weight of the digits behind it. -/
theorem val_cons (d : R) (ds : List R) : val b (d :: ds) = d * b ^ ds.length + val b ds := by
  have h := foldl_eq b ds (0 * b + d)
  rw [zero_mul, zero_add] at h
  unfold val
  rw [List.foldl_cons, zero_mul, zero_add]
  exact h

/-- Two strings in a row. -/
theorem val_append (xs ys : List R) :
    val b (xs ++ ys) = val b xs * b ^ ys.length + val b ys := by
  have h : val b (xs ++ ys) = ys.foldl (fun a d => a * b + d) (val b xs) := by
    unfold val
    exact List.foldl_append
  rw [h]
  exact foldl_eq b ys (val b xs)

/-- One more digit at the end. -/
theorem val_concat (ds : List R) (d : R) : val b (ds ++ [d]) = val b ds * b + d := by
  rw [val_append, val_cons]
  simp

/-- A single digit is its value. -/
theorem val_singleton (d : R) : val b [d] = d := by
  rw [val_cons]
  simp

/-- Zeros have no value. -/
theorem val_replicate_zero (k : Nat) : val b (List.replicate k 0) = 0 := by
  induction k with
  | zero => rfl
  | succ k ih =>
    rw [List.replicate_succ, val_cons, ih]
    simp

/-- Zeros at the end shift. -/
theorem val_append_zeros (ds : List R) (k : Nat) :
    val b (ds ++ List.replicate k 0) = val b ds * b ^ k := by
  rw [val_append, val_replicate_zero, List.length_replicate, add_zero]

/-- Adding to one digit adds its weight as often. -/
theorem val_set_add (ds : List R) (k : Nat) (a : R) (hk : k < ds.length) :
    val b (ds.set k (ds[k] + a)) = val b ds + a * b ^ (ds.length - 1 - k) := by
  induction ds generalizing k with
  | nil => simp at hk
  | cons d ds ih =>
    cases k with
    | zero =>
      simp only [List.set_cons_zero, List.getElem_cons_zero, val_cons, List.length_cons,
        Nat.add_sub_cancel, Nat.sub_zero]
      ring
    | succ k =>
      have hk' : k < ds.length := by simpa using hk
      have hexp : ds.length + 1 - 1 - (k + 1) = ds.length - 1 - k := by omega
      simp only [List.set_cons_succ, List.getElem_cons_succ, val_cons, List.length_cons,
        List.length_set, ih k hk', hexp]
      ring

/-- Digit by digit, two strings of one length add up to their sum. -/
theorem val_zip_add {α β : Type} (u : α → R) (v : β → R) (xs : List α) :
    ∀ ys : List β, xs.length = ys.length →
      val b ((xs.zip ys).map fun p => u p.1 + v p.2) = val b (xs.map u) + val b (ys.map v) := by
  induction xs with
  | nil =>
    intro ys hlen
    rw [List.length_eq_zero_iff.mp hlen.symm]
    simp
  | cons x xs ih =>
    intro ys hlen
    cases ys with
    | nil => cases hlen
    | cons y ys =>
      have hl : xs.length = ys.length := Nat.succ.inj hlen
      have h := ih ys hl
      rw [List.zip_cons_cons, List.map_cons, List.map_cons, List.map_cons, val_cons, val_cons,
        val_cons, h, List.length_map, List.length_map, List.length_map, List.length_zip, hl,
        min_self]
      ring

end Value

/-- Differences digit by digit have the difference as value. -/
theorem val_zip_sub {S : Type} [CommRing S] (b : S) {α β : Type} (u : α → S) (v : β → S)
    {xs : List α} {ys : List β} (hlen : xs.length = ys.length) :
    val b ((xs.zip ys).map fun p => u p.1 - v p.2) = val b (xs.map u) - val b (ys.map v) := by
  have hneg : val b (ys.map fun y => -v y) = -val b (ys.map v) := by
    clear hlen
    induction ys with
    | nil => simp
    | cons y ys ih =>
      rw [List.map_cons, List.map_cons, val_cons, val_cons, ih, List.length_map, List.length_map]
      ring
  rw [sub_eq_add_neg, ← hneg, ← val_zip_add b u (fun y => -v y) xs ys hlen]
  simp only [sub_eq_add_neg]

/-- Values are taken in any semiring. -/
theorem val_cast {S : Type} [CommSemiring S] (b : Nat) (ds : List Nat) :
    ((val b ds : Nat) : S) = val (b : S) (ds.map Nat.cast) := by
  induction ds with
  | nil => simp
  | cons d ds ih =>
    rw [List.map_cons, val_cons, val_cons, ← ih, List.length_map]
    push_cast
    rfl

/-! ## §2. Loops from the last digit to the first. -/

section Carry

variable {α β γ R : Type}

/-- **A loop over the digits, last to first.**  `step d c` is what the loop does
    with digit `d` and carry `c`: the next carry, and the digit that stays. -/
def carry (step : α → γ → γ × β) (ds : List α) (c : γ) : γ × List β :=
  ds.foldr (fun d r => ((step d r.1).1, (step d r.1).2 :: r.2)) (c, [])

variable {step : α → γ → γ × β}

@[simp] theorem carry_nil (c : γ) : carry step [] c = (c, []) := rfl

/-- The leading digit is settled last. -/
theorem carry_cons (d : α) (ds : List α) (c : γ) :
    carry step (d :: ds) c =
      ((step d (carry step ds c).1).1, (step d (carry step ds c).1).2 :: (carry step ds c).2) :=
  rfl

/-- Settling keeps the number of digits. -/
@[simp] theorem carry_length (ds : List α) (c : γ) : (carry step ds c).2.length = ds.length := by
  induction ds with
  | nil => rfl
  | cons d ds ih => rw [carry_cons, List.length_cons, List.length_cons, ih]

/-- The end of a string is settled before its front. -/
theorem carry_append (xs ys : List α) (c : γ) :
    carry step (xs ++ ys) c =
      ((carry step xs (carry step ys c).1).1,
        (carry step xs (carry step ys c).1).2 ++ (carry step ys c).2) := by
  induction xs with
  | nil => rfl
  | cons d xs ih => rw [List.cons_append, carry_cons, ih, carry_cons, List.cons_append]

/-- **What holds of one step holds of the loop**: an invariant of the carry, and
    what every step makes of its digit. -/
theorem carry_spec {C : γ → Prop} {D : α → Prop} {P : β → Prop} (hstep : ∀ d c, D d → C c →
      C (step d c).1 ∧ P (step d c).2) (ds : List α) {c : γ} (hds : ∀ d ∈ ds, D d) (hc : C c) :
    C (carry step ds c).1 ∧ ∀ x ∈ (carry step ds c).2, P x := by
  induction ds with
  | nil => exact ⟨hc, fun x hx => absurd hx List.not_mem_nil⟩
  | cons d ds ih =>
    obtain ⟨h1, h2⟩ := ih (fun x hx => hds x (List.mem_cons_of_mem d hx))
    have h := hstep d _ (hds d List.mem_cons_self) h1
    rw [carry_cons]
    refine ⟨h.1, ?_⟩
    intro x hx
    rcases List.mem_cons.mp hx with rfl | hx
    · exact h.2
    · exact h2 x hx

section Weighted

variable [CommSemiring R] (b : R)

/-- **The loop keeps the value**, the carry that leaves the string included, as
    soon as every step does.  `w`, `k` and `r` say what a digit, a carry and a
    digit of the result count. -/
theorem val_carry_map {w : α → R} {k : γ → R} {r : β → R} {C : γ → Prop} {D : α → Prop}
    (hstep : ∀ d c, D d → C c →
      C (step d c).1 ∧ k (step d c).1 * b + r (step d c).2 = w d + k c)
    (ds : List α) {c : γ} (hds : ∀ d ∈ ds, D d) (hc : C c) :
    k (carry step ds c).1 * b ^ ds.length + val b ((carry step ds c).2.map r) =
      val b (ds.map w) + k c := by
  induction ds with
  | nil => simp
  | cons d ds ih =>
    have hrest := fun x hx => hds x (List.mem_cons_of_mem d hx)
    have hC := (carry_spec (P := fun _ => True) (fun d c hd hc => ⟨(hstep d c hd hc).1, trivial⟩)
      ds hrest hc).1
    have h := (hstep d _ (hds d List.mem_cons_self) hC).2
    rw [carry_cons]
    simp only [List.map_cons, val_cons, List.length_cons, List.length_map, carry_length, pow_succ]
    calc k (step d (carry step ds c).1).1 * (b ^ ds.length * b) +
          (r (step d (carry step ds c).1).2 * b ^ ds.length + val b ((carry step ds c).2.map r))
        = (k (step d (carry step ds c).1).1 * b + r (step d (carry step ds c).1).2) *
            b ^ ds.length + val b ((carry step ds c).2.map r) := by ring
      _ = w d * b ^ ds.length +
          (k (carry step ds c).1 * b ^ ds.length + val b ((carry step ds c).2.map r)) := by
        rw [h]
        ring
      _ = w d * b ^ ds.length + val b (ds.map w) + k c := by rw [ih hrest, add_assoc]

variable {step : R → R → R × R}

/-- **A pass with a carry keeps the value**, if each of its steps does. -/
theorem val_carry {C : R → Prop} {D : R → Prop}
    (hstep : ∀ d c, D d → C c → C (step d c).1 ∧ (step d c).1 * b + (step d c).2 = d + c)
    (ds : List R) {c : R} (hds : ∀ d ∈ ds, D d) (hc : C c) :
    (carry step ds c).1 * b ^ ds.length + val b (carry step ds c).2 = val b ds + c := by
  have h := val_carry_map b (w := id) (k := id) (r := id) hstep ds hds hc
  simpa using h

/-- The same loop without its last step: the first digit only receives the
    carry. -/
def settle (step : R → R → R × R) : List R → List R
  | [] => []
  | d :: ds => (d + (carry step ds 0).1) :: (carry step ds 0).2

/-- A whole pass keeps the number of digits, -/
theorem settle_length (ds : List R) : (settle step ds).length = ds.length := by
  cases ds with
  | nil => rfl
  | cons d ds =>
    unfold settle
    rw [List.length_cons, carry_length, List.length_cons]

/-- and the value, up to what leaves at the front. -/
theorem val_settle {C : R → Prop} {D : R → Prop}
    (hstep : ∀ d c, D d → C c → C (step d c).1 ∧ (step d c).1 * b + (step d c).2 = d + c)
    {ds : List R} (hds : ∀ d ∈ ds, D d) (hc : C 0) : val b (settle step ds) = val b ds := by
  cases ds with
  | nil => rfl
  | cons d ds =>
    have hval := val_carry b hstep ds (fun x hx => hds x (List.mem_cons_of_mem d hx)) hc
    unfold settle
    rw [val_cons, val_cons, carry_length, add_mul, add_assoc, hval, add_zero]

end Weighted

end Carry

/-! ## §3. Natural digits below the base. -/

section Below

variable {b : Nat}

/-- Every digit is below the base. -/
def Below (b : Nat) (ds : List Nat) : Prop := ∀ d ∈ ds, d < b

instance (ds : List Nat) : Decidable (Below b ds) :=
  inferInstanceAs (Decidable (∀ d ∈ ds, d < b))

/-- The digits of a string one by one. -/
theorem Below.cons_iff {d : Nat} {ds : List Nat} : Below b (d :: ds) ↔ d < b ∧ Below b ds := by
  simp [Below]

/-- Two strings of digits in a row. -/
theorem Below.append {xs ys : List Nat} (hx : Below b xs) (hy : Below b ys) :
    Below b (xs ++ ys) := by
  intro d hd
  exact (List.mem_append.mp hd).elim (hx d) (hy d)

/-- Zeros are digits. -/
theorem Below.zeros (hb : 0 < b) (k : Nat) : Below b (List.replicate k 0) := by
  intro d hd
  rw [List.eq_of_mem_replicate hd]
  exact hb

/-- The front of a string of digits, -/
theorem Below.take {ds : List Nat} (h : Below b ds) (k : Nat) : Below b (ds.take k) :=
  fun d hd => h d (List.mem_of_mem_take hd)

/-- and its end. -/
theorem Below.drop {ds : List Nat} (h : Below b ds) (k : Nat) : Below b (ds.drop k) :=
  fun d hd => h d (List.mem_of_mem_drop hd)

/-- **`n` digits stay below `b ^ n`.** -/
theorem val_lt {ds : List Nat} (h : Below b ds) : val b ds < b ^ ds.length := by
  induction ds with
  | nil => simp
  | cons d ds ih =>
    obtain ⟨hd, hds⟩ := Below.cons_iff.mp h
    have hlt := ih hds
    rw [val_cons, List.length_cons, pow_succ]
    calc d * b ^ ds.length + val b ds < d * b ^ ds.length + b ^ ds.length := by omega
      _ = (d + 1) * b ^ ds.length := by ring
      _ ≤ b * b ^ ds.length := Nat.mul_le_mul_right _ hd
      _ = b ^ ds.length * b := Nat.mul_comm _ _

/-- Strings of one length are ordered like their values. -/
theorem lt_iff_val_lt {xs : List Nat} :
    ∀ {ys : List Nat}, Below b xs → Below b ys → xs.length = ys.length →
      (xs < ys ↔ val b xs < val b ys) := by
  induction xs with
  | nil =>
    intro ys _ _ hlen
    rw [List.length_eq_zero_iff.mp hlen.symm]
    simp
  | cons x xs ih =>
    intro ys hx hy hlen
    cases ys with
    | nil => cases hlen
    | cons y ys =>
      obtain ⟨_, hxs⟩ := Below.cons_iff.mp hx
      obtain ⟨_, hys⟩ := Below.cons_iff.mp hy
      have hl : xs.length = ys.length := Nat.succ.inj hlen
      have h1 := val_lt hxs
      have h2 := val_lt hys
      rw [List.cons_lt_cons_iff, val_cons, val_cons, hl, ih hxs hys hl]
      rw [hl] at h1
      rcases lt_trichotomy x y with h | rfl | h
      · have := Nat.mul_le_mul_right (b ^ ys.length) (Nat.succ_le_of_lt h)
        rw [Nat.succ_mul] at this
        exact iff_of_true (.inl h) (by omega)
      · simp
      · have := Nat.mul_le_mul_right (b ^ ys.length) (Nat.succ_le_of_lt h)
        rw [Nat.succ_mul] at this
        exact iff_of_false (by omega) (by omega)

/-- After `settle` the first digit, too, is below the base if the number fits. -/
theorem settle_below {step : Nat → Nat → Nat × Nat} {ds : List Nat}
    (hrest : Below b (carry step ds.tail 0).2)
    (hfit : val b (settle step ds) < b ^ ds.length) : Below b (settle step ds) := by
  cases ds with
  | nil => exact fun d hd => absurd hd List.not_mem_nil
  | cons d ds =>
    unfold settle at hfit ⊢
    rw [Below.cons_iff]
    refine ⟨?_, hrest⟩
    rw [val_cons, carry_length, List.length_cons, pow_succ, Nat.mul_comm (b ^ ds.length) b] at hfit
    exact Nat.lt_of_mul_lt_mul_right (lt_of_le_of_lt (Nat.le_add_right _ _) hfit)

/-- **Strings of one length are determined by their value.** -/
theorem val_inj {xs : List Nat} :
    ∀ {ys : List Nat}, Below b xs → Below b ys → xs.length = ys.length → val b xs = val b ys →
      xs = ys := by
  induction xs with
  | nil =>
    intro ys _ _ hlen _
    exact (List.length_eq_zero_iff.mp hlen.symm).symm
  | cons x xs ih =>
    intro ys hx hy hlen heq
    cases ys with
    | nil => cases hlen
    | cons y ys =>
      obtain ⟨_, hxs⟩ := Below.cons_iff.mp hx
      obtain ⟨_, hys⟩ := Below.cons_iff.mp hy
      have hl : xs.length = ys.length := Nat.succ.inj hlen
      have h1 := val_lt hxs
      have h2 := val_lt hys
      rw [val_cons, val_cons, hl] at heq
      rw [hl] at h1
      have hpos : 0 < b ^ ys.length := by omega
      have hxy : x = y := by
        have hx' : (x * b ^ ys.length + val b xs) / b ^ ys.length = x := by
          rw [Nat.mul_comm, Nat.mul_add_div hpos, Nat.div_eq_of_lt h1, add_zero]
        have hy' : (y * b ^ ys.length + val b ys) / b ^ ys.length = y := by
          rw [Nat.mul_comm, Nat.mul_add_div hpos, Nat.div_eq_of_lt h2, add_zero]
        rw [← hx', heq, hy']
      subst hxy
      rw [ih hxs hys hl (by omega)]

/-- Only zeros have the value zero. -/
theorem val_eq_zero_iff {ds : List Nat} (hb : 0 < b) : val b ds = 0 ↔ ∀ d ∈ ds, d = 0 := by
  induction ds with
  | nil => simp
  | cons d ds ih =>
    have hpos : b ^ ds.length ≠ 0 := (Nat.pow_pos hb).ne'
    rw [val_cons, Nat.add_eq_zero_iff, Nat.mul_eq_zero, or_iff_left hpos, ih]
    simp

/-- A string with a nonzero first digit is at least the weight of this digit. -/
theorem le_val {d : Nat} (ds : List Nat) (hd : d ≠ 0) : b ^ ds.length ≤ val b (d :: ds) := by
  rw [val_cons]
  have : 1 * b ^ ds.length ≤ d * b ^ ds.length :=
    Nat.mul_le_mul_right _ (Nat.one_le_iff_ne_zero.mpr hd)
  omega

/-- The digit-wise complement. -/
def compl (b : Nat) (ds : List Nat) : List Nat := ds.map (fun d => b - 1 - d)

/-- Complements are digits, -/
theorem compl_below (hb : 0 < b) (ds : List Nat) : Below b (compl b ds) := by
  intro x hx
  obtain ⟨d, -, rfl⟩ := List.mem_map.mp hx
  omega

/-- and undo each other. -/
theorem compl_compl {ds : List Nat} (h : Below b ds) : compl b (compl b ds) = ds := by
  unfold compl
  rw [List.map_map]
  conv_rhs => rw [← List.map_id ds]
  apply List.map_congr_left
  intro d hd
  have := h d hd
  simp only [Function.comp_apply, id]
  omega

@[simp] theorem compl_length (ds : List Nat) : (compl b ds).length = ds.length :=
  List.length_map ..

/-- A string and its complement add up to the greatest string. -/
theorem val_compl {ds : List Nat} (h : Below b ds) :
    val b ds + val b (compl b ds) + 1 = b ^ ds.length := by
  induction ds with
  | nil => rfl
  | cons d ds ih =>
    obtain ⟨hd, hds⟩ := Below.cons_iff.mp h
    have hi := ih hds
    have hc : compl b (d :: ds) = (b - 1 - d) :: compl b ds := rfl
    rw [hc, val_cons, val_cons, List.length_cons, compl_length, pow_succ]
    have hsplit : d * b ^ ds.length + (b - 1 - d) * b ^ ds.length + b ^ ds.length
        = b ^ ds.length * b := by
      rw [← Nat.add_mul, ← Nat.succ_mul, Nat.mul_comm (b ^ ds.length) b]
      congr 1
      omega
    omega

/-- The last `n` digits of `k`. -/
def numeral (b : Nat) : Nat → Nat → List Nat
  | 0, _ => []
  | n + 1, k => numeral b n (k / b) ++ [k % b]

/-- A numeral has the length that was asked for, -/
@[simp] theorem numeral_length (n : Nat) : ∀ k, (numeral b n k).length = n := by
  induction n with
  | zero => exact fun k => rfl
  | succ n ih =>
    intro k
    rw [numeral, List.length_append, ih, List.length_singleton]

/-- it consists of digits, -/
theorem numeral_below (hb : 0 < b) (n : Nat) : ∀ k, Below b (numeral b n k) := by
  induction n with
  | zero => exact fun k d hd => absurd hd List.not_mem_nil
  | succ n ih =>
    intro k
    apply (ih (k / b)).append
    intro d hd
    rw [List.mem_singleton.mp hd]
    exact Nat.mod_lt _ hb

/-- **and has the value it was made from.** -/
theorem val_numeral (n : Nat) : ∀ k, k < b ^ n → val b (numeral b n k) = k := by
  induction n with
  | zero =>
    intro k hk
    rw [pow_zero] at hk
    rw [numeral, val_nil]
    omega
  | succ n ih =>
    intro k hk
    rw [pow_succ, Nat.mul_comm] at hk
    rw [numeral, val_concat, ih _ (Nat.div_lt_of_lt_mul hk), Nat.mul_comm]
    exact Nat.div_add_mod k b

/-- A string is the numeral of its value. -/
theorem eq_numeral {ds : List Nat} {n k : Nat} (h : Below b ds) (hlen : ds.length = n)
    (hval : val b ds = k) (hb : 0 < b) : ds = numeral b n k := by
  apply val_inj h (numeral_below hb n k) (by rw [hlen, numeral_length])
  rw [val_numeral, hval]
  rw [← hval, ← hlen]
  exact val_lt h

/-- A string whose value is complementary is the complement of the numeral. -/
theorem eq_compl_numeral {ds : List Nat} {n k : Nat} (h : Below b ds) (hlen : ds.length = n)
    (hval : val b ds + k + 1 = b ^ n) (hb : 0 < b) : ds = compl b (numeral b n k) := by
  have hc := val_compl h
  rw [hlen] at hc
  rw [← eq_numeral (compl_below hb ds) ((compl_length ds).trans hlen) (by omega) hb,
    compl_compl h]

/-- A numeral that is longer than needed starts with a zero. -/
theorem numeral_succ (hb : 0 < b) {n k : Nat} (hk : k < b ^ n) :
    numeral b (n + 1) k = 0 :: numeral b n k := by
  symm
  apply eq_numeral (Below.cons_iff.mpr ⟨hb, numeral_below hb n k⟩) (by simp) _ hb
  rw [val_cons, zero_mul, zero_add, val_numeral n k hk]

/-- Place `p` of a string that starts at place `o`; `fill` stands on both sides. -/
def place (fill o : Nat) (ds : List Nat) (p : Nat) : Nat :=
  if p < o then fill else ds.getD (p - o) fill

/-- The first `n` places. -/
def spread (fill o : Nat) (ds : List Nat) (n : Nat) : List Nat :=
  (List.range n).map (place fill o ds)

/-- A placed string has the length of its place. -/
@[simp] theorem spread_length (fill o : Nat) (ds : List Nat) (n : Nat) :
    (spread fill o ds n).length = n := by
  unfold spread
  rw [List.length_map, List.length_range]

/-- A string between zeros, cut to its place. -/
theorem spread_eq (o : Nat) (ds : List Nat) (n : Nat) :
    spread 0 o ds n = (List.replicate o 0 ++ ds ++ List.replicate n 0).take n := by
  have hlen : ((List.range n).map (place 0 o ds)).length = n := spread_length 0 o ds n
  unfold spread
  apply List.ext_getElem
  · rw [hlen, List.length_take, List.length_append, List.length_replicate]
    omega
  · intro p h1 h2
    rw [hlen] at h1
    rw [List.getElem_map, List.getElem_range, List.getElem_take]
    unfold place
    simp only [List.append_assoc]
    split_ifs with hp
    · rw [List.getElem_append_left (by simpa using hp), List.getElem_replicate]
    · rw [List.getElem_append_right (by simpa using not_lt.mp hp)]
      simp only [List.length_replicate]
      by_cases hin : p - o < ds.length
      · rw [List.getElem_append_left hin, List.getD_eq_getElem _ _ hin]
      · rw [List.getElem_append_right (not_lt.mp hin), List.getElem_replicate,
          List.getD_eq_default _ _ (not_lt.mp hin)]

/-- A placed string consists of digits. -/
theorem spread_below (hb : 0 < b) (o : Nat) {ds : List Nat} (h : Below b ds) (n : Nat) :
    Below b (spread 0 o ds n) := by
  rw [spread_eq]
  exact (((Below.zeros hb o).append h).append (Below.zeros hb n)).take n

/-- Filled up with the greatest digit, the complement is spread. -/
theorem spread_compl (o : Nat) (ds : List Nat) (n : Nat) :
    spread (b - 1) o (compl b ds) n = compl b (spread 0 o ds n) := by
  unfold spread compl
  rw [List.map_map]
  apply List.map_congr_left
  intro p _
  unfold place
  simp only [Function.comp_apply]
  split_ifs with hp
  · omega
  · rw [List.getD_eq_getElem?_getD, List.getD_eq_getElem?_getD, List.getElem?_map]
    cases ds[p - o]? with
    | none => simp
    | some d => simp

end Below

/-! ## §4. Magnitudes. -/

section Magnitude

variable {b : Nat}

/-- **The number `0.d₁d₂… × bᵉ`.** -/
def mag (b : Nat) (e : Int) (ds : List Nat) : ℚ := ((val b ds : Nat) : ℚ) * (b : ℚ) ^ (e - ds.length)

/-- No digits, no magnitude. -/
theorem mag_nil (e : Int) : mag b e [] = 0 := by simp [mag]

/-- Behind a string the exponent is smaller by its length. -/
theorem mag_append (hb : 0 < b) (e : Int) (xs ys : List Nat) :
    mag b e (xs ++ ys) = mag b e xs + mag b (e - xs.length) ys := by
  have hne : (b : ℚ) ≠ 0 := by positivity
  unfold mag
  rw [val_append, List.length_append]
  push_cast
  rw [add_mul]
  congr 1
  · rw [mul_assoc, ← zpow_natCast (b : ℚ) ys.length, ← zpow_add₀ hne]
    congr 2
    ring
  · congr 2
    ring

/-- Zeros have no magnitude. -/
theorem mag_zeros (e : Int) (k : Nat) : mag b e (List.replicate k 0) = 0 := by
  unfold mag
  rw [val_replicate_zero]
  simp

/-- Zeros at the end change nothing. -/
theorem mag_append_zeros (hb : 0 < b) (e : Int) (ds : List Nat) (k : Nat) :
    mag b e (ds ++ List.replicate k 0) = mag b e ds := by
  rw [mag_append hb, mag_zeros, add_zero]

/-- Zeros in front lower the exponent. -/
theorem mag_zeros_append (hb : 0 < b) (e : Int) (ds : List Nat) (k : Nat) :
    mag b e (List.replicate k 0 ++ ds) = mag b (e - k) ds := by
  rw [mag_append hb, mag_zeros, zero_add, List.length_replicate]

/-- A magnitude is not negative. -/
theorem mag_nonneg (e : Int) (ds : List Nat) : 0 ≤ mag b e ds := by
  unfold mag
  exact mul_nonneg (Nat.cast_nonneg _) (zpow_nonneg (Nat.cast_nonneg b) _)

/-- Digits behind the point stay below the power of the exponent. -/
theorem mag_lt (hb : 0 < b) (e : Int) {ds : List Nat} (h : Below b ds) :
    mag b e ds < (b : ℚ) ^ e := by
  have hpos : (0 : ℚ) < (b : ℚ) ^ (e - ds.length) := by positivity
  have hlt : ((val b ds : Nat) : ℚ) < (b : ℚ) ^ ds.length := by
    exact_mod_cast val_lt h
  have hne : (b : ℚ) ≠ 0 := by positivity
  calc mag b e ds < (b : ℚ) ^ ds.length * (b : ℚ) ^ (e - ds.length) :=
        mul_lt_mul_of_pos_right hlt hpos
    _ = (b : ℚ) ^ e := by
      rw [← zpow_natCast, ← zpow_add₀ hne]
      congr 1
      ring

/-- A leading digit other than zero gives a lower bound. -/
theorem le_mag (hb : 0 < b) (e : Int) {d : Nat} (ds : List Nat) (hd : d ≠ 0) :
    (b : ℚ) ^ (e - 1) ≤ mag b e (d :: ds) := by
  have hpos : (0 : ℚ) < (b : ℚ) ^ (e - (d :: ds).length) := by positivity
  have hle : (b : ℚ) ^ ds.length ≤ ((val b (d :: ds) : Nat) : ℚ) := by
    exact_mod_cast le_val ds hd
  have hne : (b : ℚ) ≠ 0 := by positivity
  calc (b : ℚ) ^ (e - 1) = (b : ℚ) ^ ds.length * (b : ℚ) ^ (e - (d :: ds).length) := by
        rw [← zpow_natCast, ← zpow_add₀ hne, List.length_cons]
        congr 1
        push_cast
        ring
    _ ≤ mag b e (d :: ds) := mul_le_mul_of_nonneg_right hle hpos.le

/-- A string that starts and ends with a nonzero digit. -/
structure Stripped (ds : List Nat) : Prop where
  ne : ds ≠ []
  head : ds.head? ≠ some 0
  last : ds.getLast? ≠ some 0

instance (ds : List Nat) : Decidable (Stripped ds) :=
  decidable_of_iff (ds ≠ [] ∧ ds.head? ≠ some 0 ∧ ds.getLast? ≠ some 0)
    ⟨fun h => ⟨h.1, h.2.1, h.2.2⟩, fun h => ⟨h.ne, h.head, h.last⟩⟩

/-- A stripped string starts with a digit other than zero. -/
theorem Stripped.head_ne {d : Nat} {ds : List Nat} (h : Stripped (d :: ds)) : d ≠ 0 := by
  intro e
  exact h.head (congrArg some e)

/-- **A stripped string fixes its exponent.** -/
theorem Stripped.bounds (hb : 0 < b) (e : Int) {ds : List Nat} (h : Stripped ds)
    (hd : Below b ds) : (b : ℚ) ^ (e - 1) ≤ mag b e ds ∧ mag b e ds < (b : ℚ) ^ e := by
  cases ds with
  | nil => exact absurd rfl h.ne
  | cons d ds => exact ⟨le_mag hb e ds h.head_ne, mag_lt hb e hd⟩

/-- The exponent is determined by the magnitude. -/
theorem exponent_inj (hb : 1 < b) {e e' : Int} {q : ℚ}
    (h : (b : ℚ) ^ (e - 1) ≤ q ∧ q < (b : ℚ) ^ e)
    (h' : (b : ℚ) ^ (e' - 1) ≤ q ∧ q < (b : ℚ) ^ e') : e = e' := by
  have hb' : (1 : ℚ) < b := by exact_mod_cast hb
  have h1 : e - 1 < e' := (zpow_lt_zpow_iff_right₀ hb').mp (lt_of_le_of_lt h.1 h'.2)
  have h2 : e' - 1 < e := (zpow_lt_zpow_iff_right₀ hb').mp (lt_of_le_of_lt h'.1 h.2)
  omega

/-- Two strings of one exponent and one magnitude: the shorter one, filled up
    with zeros, is the longer one. -/
theorem append_zeros_of_mag_eq (hb : 0 < b) {e : Int} {xs ys : List Nat} (hx : Below b xs)
    (hy : Below b ys) (hlen : xs.length ≤ ys.length) (h : mag b e xs = mag b e ys) :
    xs ++ List.replicate (ys.length - xs.length) 0 = ys := by
  have hl : (xs ++ List.replicate (ys.length - xs.length) 0).length = ys.length := by
    rw [List.length_append, List.length_replicate]
    omega
  apply val_inj (hx.append (Below.zeros hb _)) hy hl
  have hmag : mag b e (xs ++ List.replicate (ys.length - xs.length) 0) = mag b e ys := by
    rw [mag_append_zeros hb, h]
  have hne : (b : ℚ) ^ (e - ys.length) ≠ 0 := by positivity
  unfold mag at hmag
  rw [hl] at hmag
  exact_mod_cast mul_right_cancel₀ hne hmag

/-- **Strings of one exponent and one magnitude are equal**, if the longer one is
    stripped. -/
theorem eq_of_mag_eq (hb : 0 < b) {e : Int} {xs ys : List Nat} (hx : Below b xs)
    (hy : Below b ys) (hsy : Stripped ys) (hlen : xs.length ≤ ys.length)
    (h : mag b e xs = mag b e ys) : xs = ys := by
  have happ := append_zeros_of_mag_eq hb hx hy hlen h
  cases hk : ys.length - xs.length with
  | zero =>
    rw [hk] at happ
    simpa using happ
  | succ k =>
    -- The longer string would end with a zero.
    exfalso
    apply hsy.last
    rw [hk] at happ
    rw [← happ]
    simp [List.replicate_succ']

/-- **A stripped string is the only one of its magnitude.** -/
theorem mag_inj (hb : 1 < b) {e e' : Int} {xs ys : List Nat} (hx : Below b xs) (hy : Below b ys)
    (hsx : Stripped xs) (hsy : Stripped ys) (h : mag b e xs = mag b e' ys) :
    e = e' ∧ xs = ys := by
  have hpos : 0 < b := by omega
  have he : e = e' :=
    exponent_inj hb (hsx.bounds hpos e hx) (h ▸ hsy.bounds hpos e' hy)
  subst he
  refine ⟨rfl, ?_⟩
  rcases le_total xs.length ys.length with hlen | hlen
  · exact eq_of_mag_eq hpos hx hy hsy hlen h
  · exact (eq_of_mag_eq hpos hy hx hsx hlen h.symm).symm

/-- The first `k` digits are the whole part of the magnitude in units of their
    last digit. -/
theorem mag_split (hb : 0 < b) (e : Int) (k : Nat) {ds : List Nat} (hk : k ≤ ds.length) :
    mag b e ds = mag b e (ds.take k) + mag b (e - k) (ds.drop k) := by
  conv_lhs => rw [← List.take_append_drop k ds, mag_append hb]
  rw [List.length_take, min_eq_left hk]

/-- The digits before the point are the whole part. -/
theorem floor_mag (hb : 0 < b) {k : Nat} {ds : List Nat} (h : Below b ds) (hk : k ≤ ds.length) :
    ⌊mag b k ds⌋ = (val b (ds.take k) : Nat) := by
  have hwhole : mag b k (ds.take k) = (val b (ds.take k) : Nat) := by
    unfold mag
    rw [List.length_take, min_eq_left hk, sub_self, zpow_zero, mul_one]
  have hfrac := mag_lt hb 0 (h.drop k)
  have hnonneg := mag_nonneg (b := b) 0 (ds.drop k)
  rw [zpow_zero] at hfrac
  rw [mag_split hb k k hk, sub_self, hwhole, Int.floor_eq_iff]
  push_cast
  constructor <;> linarith

/-- A string that is spread over enough places. -/
theorem mag_spread (hb : 0 < b) (e : Int) (o : Nat) {ds : List Nat} {n : Nat}
    (hn : o + ds.length ≤ n) : mag b e (spread 0 o ds n) = mag b (e - o) ds := by
  rw [spread_eq, List.take_append, List.take_of_length_le (by simpa using hn), List.take_replicate,
    mag_append_zeros hb, mag_zeros_append hb]

/-- The places that are there are the whole part in units of the last one. -/
theorem floor_spread (hb : 0 < b) (o : Nat) {ds : List Nat} (h : Below b ds) (n : Nat) :
    ⌊mag b (n - o) ds⌋ = (val b (spread 0 o ds n) : Nat) := by
  have hfill : mag b n (List.replicate o 0 ++ ds ++ List.replicate n 0) = mag b (n - o) ds := by
    rw [mag_append_zeros hb, mag_zeros_append hb]
  rw [spread_eq, ← hfill]
  apply floor_mag hb (((Below.zeros hb o).append h).append (Below.zeros hb n))
  rw [List.length_append, List.length_replicate]
  omega

end Magnitude

/-! ## §5. Stripping zeros. -/

section Strip

variable {b : Nat}

/-- Leading zeros only move the point. -/
theorem mag_dropWhile (hb : 0 < b) (e : Int) (ds : List Nat) :
    mag b (e - (ds.takeWhile (· = 0)).length) (ds.dropWhile (· = 0)) = mag b e ds := by
  induction ds generalizing e with
  | nil => simp [mag_nil]
  | cons d ds ih =>
    by_cases hd : d = 0
    · subst hd
      rw [List.dropWhile_cons_of_pos (by simp), List.takeWhile_cons_of_pos (by simp)]
      have h1 := mag_zeros_append hb e ds 1
      rw [List.length_cons]
      have h2 := ih (e - 1)
      rw [show (0 : Nat) :: ds = List.replicate 1 0 ++ ds from rfl, h1, Nat.cast_one, ← h2]
      congr 1
      push_cast
      ring
    · rw [List.dropWhile_cons_of_neg (by simpa using hd),
        List.takeWhile_cons_of_neg (by simpa using hd)]
      simp

/-- Trailing zeros do not count. -/
theorem mag_rdropWhile (hb : 0 < b) (e : Int) (ds : List Nat) :
    mag b e (ds.rdropWhile (· = 0)) = mag b e ds := by
  induction ds using List.reverseRecOn with
  | nil => rfl
  | append_singleton ds d ih =>
    by_cases hd : d = 0
    · subst hd
      rw [List.rdropWhile_concat_pos _ _ _ (by simp), ih]
      exact (mag_append_zeros hb e ds 1).symm
    · rw [List.rdropWhile_concat_neg _ _ _ (by simpa using hd)]

/-- Trimmed at the end, a string does not end in zero. -/
theorem rdropWhile_last (ds : List Nat) : (ds.rdropWhile (· = 0)).getLast? ≠ some 0 := by
  induction ds using List.reverseRecOn with
  | nil => simp
  | append_singleton ds d ih =>
    by_cases hd : d = 0
    · subst hd
      rw [List.rdropWhile_concat_pos _ _ _ (by simp)]
      exact ih
    · rw [List.rdropWhile_concat_neg _ _ _ (by simpa using hd)]
      simpa using hd

/-- Trimmed in front, it does not start with zero. -/
theorem dropWhile_head (ds : List Nat) : (ds.dropWhile (· = 0)).head? ≠ some 0 := by
  induction ds with
  | nil => simp
  | cons d ds ih =>
    by_cases hd : d = 0
    · rw [List.dropWhile_cons_of_pos (by simpa using hd)]
      exact ih
    · rw [List.dropWhile_cons_of_neg (by simpa using hd)]
      simpa using hd

/-- What is left behind the longest front. -/
theorem drop_takeWhile {α : Type} (p : α → Bool) (ds : List α) :
    ds.drop (ds.takeWhile p).length = ds.dropWhile p := by
  induction ds with
  | nil => rfl
  | cons d ds ih =>
    by_cases hd : p d = true
    · rw [List.takeWhile_cons_of_pos hd, List.dropWhile_cons_of_pos hd]
      exact ih
    · rw [List.takeWhile_cons_of_neg hd, List.dropWhile_cons_of_neg hd]
      rfl

/-- Trimming takes zeros that were added. -/
theorem rdropWhile_append_zeros (ds : List Nat) (k : Nat) :
    (ds ++ List.replicate k 0).rdropWhile (· = 0) = ds.rdropWhile (· = 0) := by
  induction k with
  | zero => simp
  | succ k ih =>
    rw [List.replicate_succ', ← List.append_assoc, List.rdropWhile_concat_pos _ _ _ (by simp)]
    exact ih

/-- Trimming in front keeps digits digits, -/
theorem below_dropWhile {ds : List Nat} (h : Below b ds) : Below b (ds.dropWhile (· = 0)) :=
  fun d hd => h d ((List.dropWhile_suffix _).subset hd)

/-- and so does trimming at the end. -/
theorem below_rdropWhile {ds : List Nat} (h : Below b ds) : Below b (ds.rdropWhile (· = 0)) :=
  fun d hd => h d ((List.rdropWhile_prefix _ _).subset hd)

/-- A string that is not zero, without the zeros at its end. -/
theorem stripped_rdropWhile (hb : 0 < b) {ds : List Nat} (hhead : ds.head? ≠ some 0)
    (hval : val b ds ≠ 0) : Stripped (ds.rdropWhile (· = 0)) := by
  have hne : ds.rdropWhile (· = 0) ≠ [] := by
    intro hnil
    have hall := (List.rdropWhile_eq_nil_iff).mp hnil
    exact hval ((val_eq_zero_iff hb).mpr fun d hd => by simpa using hall d hd)
  refine ⟨hne, ?_, rdropWhile_last ds⟩
  obtain ⟨rest, hrest⟩ := List.rdropWhile_prefix (fun d : Nat => decide (d = 0)) ds
  rw [← hrest] at hhead
  rwa [List.head?_append_of_ne_nil _ hne] at hhead

/-- Trimming in front keeps a value other than zero. -/
theorem val_dropWhile_ne_zero (hb : 0 < b) {ds : List Nat} (hval : val b ds ≠ 0) :
    val b (ds.dropWhile (· = 0)) ≠ 0 := by
  intro h0
  rw [val_eq_zero_iff hb] at h0
  apply hval
  rw [val_eq_zero_iff hb]
  intro d hd
  rw [← List.takeWhile_append_dropWhile (p := (· = 0)) (l := ds)] at hd
  rcases List.mem_append.mp hd with hd | hd
  · simpa using List.mem_takeWhile_imp hd
  · exact h0 d hd

theorem compl_cons (d : Nat) (ds : List Nat) : compl b (d :: ds) = (b - 1 - d) :: compl b ds := rfl

/-- The greatest digits at the beginning of a complement are the zeros at the
    beginning of the string. -/
theorem takeWhile_compl {ds : List Nat} (h : Below b ds) :
    (compl b ds).takeWhile (· = b - 1) = compl b (ds.takeWhile (· = 0)) ∧
      (compl b ds).dropWhile (· = b - 1) = compl b (ds.dropWhile (· = 0)) := by
  induction ds with
  | nil => exact ⟨rfl, rfl⟩
  | cons d ds ih =>
    obtain ⟨hd, hds⟩ := Below.cons_iff.mp h
    rw [compl_cons]
    by_cases h0 : d = 0
    · subst h0
      rw [List.takeWhile_cons_of_pos (by simp), List.takeWhile_cons_of_pos (by simp),
        List.dropWhile_cons_of_pos (by simp), List.dropWhile_cons_of_pos (by simp), compl_cons,
        (ih hds).1, (ih hds).2]
      exact ⟨rfl, rfl⟩
    · have hne : b - 1 - d ≠ b - 1 := by omega
      rw [List.takeWhile_cons_of_neg (by simpa using hne),
        List.takeWhile_cons_of_neg (by simpa using h0),
        List.dropWhile_cons_of_neg (by simpa using hne),
        List.dropWhile_cons_of_neg (by simpa using h0)]
      exact ⟨rfl, rfl⟩

/-- Trimming the greatest digits of a complement trims the zeros of the string. -/
theorem rdropWhile_compl {ds : List Nat} (h : Below b ds) :
    (compl b ds).rdropWhile (· = b - 1) = compl b (ds.rdropWhile (· = 0)) := by
  have hrev : Below b ds.reverse := fun d hd => h d (List.mem_reverse.mp hd)
  unfold List.rdropWhile
  have hc : (compl b ds).reverse = compl b ds.reverse := List.map_reverse.symm
  rw [hc, (takeWhile_compl hrev).2]
  exact List.map_reverse.symm

end Strip

/-! ## §6. Cutting a number to its first digits. -/

section Cut

variable {b : Nat}

/-- The exponent of a positive number: one more than that of its first digit. -/
def expo (b : Nat) (q : ℚ) : Int := Int.log b q + 1

/-- **The number cut off after its first `n` digits.** -/
def cut (b n : Nat) (q : ℚ) : ℚ :=
  ⌊q * (b : ℚ) ^ (n - expo b q)⌋ * (b : ℚ) ^ (expo b q - n)

/-- **The exponent of a positive rational number** brackets it, -/
theorem expo_bounds (hb : 1 < b) {q : ℚ} (hq : 0 < q) :
    (b : ℚ) ^ (expo b q - 1) ≤ q ∧ q < (b : ℚ) ^ expo b q := by
  unfold expo
  rw [add_sub_cancel_right]
  exact ⟨Int.zpow_log_le_self hb hq, Int.lt_zpow_succ_log_self hb q⟩

/-- and is the only one that does. -/
theorem expo_eq (hb : 1 < b) {q : ℚ} (hq : 0 < q) {e : Int} (h0 : (b : ℚ) ^ (e - 1) ≤ q)
    (h1 : q < (b : ℚ) ^ e) : expo b q = e :=
  exponent_inj hb (expo_bounds hb hq) ⟨h0, h1⟩

/-- A power of the base moves the exponent. -/
theorem mag_mul_zpow (hb : 0 < b) (e k : Int) (ds : List Nat) :
    mag b e ds * (b : ℚ) ^ k = mag b (e + k) ds := by
  have hne : (b : ℚ) ≠ 0 := by positivity
  unfold mag
  rw [mul_assoc, ← zpow_add₀ hne]
  congr 2
  ring

/-- The exponent of a magnitude is the one it was written with. -/
theorem expo_mag (hb : 1 < b) (e : Int) {d : Nat} {ds : List Nat} (hd : d ≠ 0)
    (h : Below b (d :: ds)) : expo b (mag b e (d :: ds)) = e := by
  have hpos : 0 < b := by omega
  have hle := le_mag hpos e ds hd
  have h0 : (0 : ℚ) < (b : ℚ) ^ (e - 1) := by positivity
  exact expo_eq hb (by linarith) hle (mag_lt hpos e h)

/-- The first digits of a string. -/
theorem cut_mag (hb : 1 < b) (e : Int) (n : Nat) {d : Nat} {ds : List Nat} (hd : d ≠ 0)
    (h : Below b (d :: ds)) : cut b n (mag b e (d :: ds)) = mag b e ((d :: ds).take n) := by
  have hpos : 0 < b := by omega
  have hne : (b : ℚ) ≠ 0 := by positivity
  unfold cut
  rw [expo_mag hb e hd h, mag_mul_zpow hpos, show e + ((n : Int) - e) = n by ring]
  -- Filled up with zeros the string has `n` digits to cut off.
  have hfill := mag_append_zeros hpos n (d :: ds) n
  have hfloor := floor_mag hpos (h.append (Below.zeros hpos n))
    (k := n) (by rw [List.length_append, List.length_replicate]; omega)
  rw [hfill] at hfloor
  rw [hfloor]
  rcases le_total n (d :: ds).length with hn | hn
  · rw [List.take_append_of_le_length hn]
    unfold mag
    rw [List.length_take, min_eq_left hn]
    rfl
  · rw [List.take_of_length_le hn, List.take_append, List.take_of_length_le hn,
      List.take_replicate, min_eq_left (by omega), val_append_zeros]
    unfold mag
    push_cast
    rw [mul_assoc, ← zpow_natCast, ← zpow_add₀ hne]
    congr 2
    omega

end Cut

/-! ## §7. Comparing strings from the first digit on. -/

section Compare

/-- Two strings are equal, or one goes on where the other ends, or there is a first
    place where they differ. -/
theorem first_difference {α : Type} (xs ys : List α) :
    xs = ys ∨ (∃ z zs, ys = xs ++ z :: zs) ∨ (∃ z zs, xs = ys ++ z :: zs) ∨
      ∃ p x y s t, x ≠ y ∧ xs = p ++ x :: s ∧ ys = p ++ y :: t := by
  induction xs generalizing ys with
  | nil =>
    cases ys with
    | nil => exact .inl rfl
    | cons y ys => exact .inr (.inl ⟨y, ys, rfl⟩)
  | cons x xs ih =>
    cases ys with
    | nil => exact .inr (.inr (.inl ⟨x, xs, rfl⟩))
    | cons y ys =>
      by_cases hxy : x = y
      · subst hxy
        rcases ih ys with heq | ⟨z, zs, heq⟩ | ⟨z, zs, heq⟩ | ⟨p, a, c, s, t, hne, hxs, hys⟩
        · exact .inl (by rw [heq])
        · exact .inr (.inl ⟨z, zs, by rw [heq]; rfl⟩)
        · exact .inr (.inr (.inl ⟨z, zs, by rw [heq]; rfl⟩))
        · exact .inr (.inr (.inr ⟨x :: p, a, c, s, t, hne, by rw [hxs]; rfl, by rw [hys]; rfl⟩))
      · exact .inr (.inr (.inr ⟨[], x, y, xs, ys, hxy, rfl, rfl⟩))

variable {b : Nat}

/-- More digits are more, unless they are zeros. -/
theorem mag_lt_append (hb : 0 < b) (e : Int) (xs : List Nat) {zs : List Nat} (hne : zs ≠ [])
    (hlast : zs.getLast? ≠ some 0) : mag b e xs < mag b e (xs ++ zs) := by
  have hval : val b zs ≠ 0 := by
    rw [Ne, val_eq_zero_iff hb]
    intro hall
    exact hlast (by rw [List.getLast?_eq_some_getLast hne, hall _ (List.getLast_mem hne)])
  have hpos : 0 < mag b (e - xs.length) zs := by
    have hv : (0 : ℚ) < (val b zs : Nat) := by exact_mod_cast Nat.pos_of_ne_zero hval
    unfold mag
    positivity
  rw [mag_append hb]
  linarith

/-- **The first digit that differs decides.** -/
theorem mag_lt_of_first_lt (hb : 0 < b) (e : Int) (p : List Nat) {x y : Nat} {s : List Nat}
    (t : List Nat) (hs : Below b s) (hxy : x < y) :
    mag b e (p ++ x :: s) < mag b e (p ++ y :: t) := by
  have hhead : ∀ (z : Nat) (r : List Nat), mag b (e - p.length) (z :: r) =
      z * (b : ℚ) ^ (e - p.length - 1) + mag b (e - p.length - 1) r := by
    intro z r
    rw [show z :: r = [z] ++ r from rfl, mag_append hb]
    unfold mag
    rw [val_singleton]
    rfl
  have hlow := mag_lt hb (e - p.length - 1) hs
  have hhigh := mag_nonneg (b := b) (e - p.length - 1) t
  have hstep : ((x : ℚ) + 1) * (b : ℚ) ^ (e - p.length - 1) ≤ y * (b : ℚ) ^ (e - p.length - 1) := by
    have hle : (x : ℚ) + 1 ≤ y := by exact_mod_cast hxy
    exact mul_le_mul_of_nonneg_right hle (by positivity)
  rw [mag_append hb, mag_append hb, hhead, hhead]
  linarith

end Compare

end Altibase.Lib.Digits
