/-
  Altibase.Mtc.Multiply
  ─────────────────────
  **MULTIPLICATION.**

  `multiplyFloat` multiplies every digit of one operand with every digit of
  the other, adds the products up at their places without looking at carries,
  and then carries once, from the last place to the first.  The sums are
  `SInt`s; the model gives no result where one of them would leave the range
  of the type, and `mulRows_spec` says that this never happens.

    * `mulRows_spec` — the places hold the exact product;
    * `multiplyFloat_store` — what is stored;
    * `multiplyFloat_iff` — where the result is the canonical product.
-/

import Altibase.Mtc.Result

namespace Altibase.Mtc

open Altibase.Lib.Digits

/-! ## §1. The function. -/

/-- `sResultMantissa[k] += a`, as long as the sum is an `SInt`. -/
def addAt (sResultMantissa : List Nat) (k a : Nat) : Option (List Nat) :=
  let sum := sResultMantissa.getD k 0 + a
  if sum < 2 ^ 31 then some (sResultMantissa.set k sum) else none

/-- The inner loop: digit `x` at place `i` times the first `j` digits of `ys`. -/
def mulRow (x : Nat) (ys : List Nat) (i : Nat) : Nat → List Nat → Option (List Nat)
  | 0, acc => some acc
  | j + 1, acc => (addAt acc (i + j + 1) (x * ys.getD j 0)).bind (mulRow x ys i j)

/-- The outer loop: the first `i` digits of `xs`. -/
def mulRows (xs ys : List Nat) : Nat → List Nat → Option (List Nat)
  | 0, acc => some acc
  | i + 1, acc => (mulRow (xs.getD i 0) ys i ys.length acc).bind (mulRows xs ys i)

/-- The body of the carry loop. -/
def divStep (d c : Nat) : Nat × Nat := ((d + c) / 100, (d + c) % 100)

/-- No sum that the carry loop forms leaves the range of `SInt`. -/
def carryFits : List Nat → Bool
  | [] => true
  | d :: ds => decide (d + (carry divStep ds 0).1 < 2 ^ 31) && carryFits ds

/-- **`multiplyFloat`.**  `none` stands for a sum beyond `SInt`. -/
def multiplyFloat : MtdNumericType → MtdNumericType →
    Option (Except MathError MtdNumericType)
  | .null, _ => some (.ok .null)
  | _, .null => some (.ok .null)
  | .num _ [], _ => some (.ok zero)
  | _, .num _ [] => some (.ok zero)
  | .num se₁ (d₁ :: m₁), .num se₂ (d₂ :: m₂) =>
    let xs := digits se₁ (d₁ :: m₁)
    let ys := digits se₂ (d₂ :: m₂)
    (mulRows xs ys xs.length (List.replicate (xs.length + ys.length) 0)).bind fun sum =>
      if carryFits sum then
        let sResultMantissa := settle divStep sum
        -- a zero in front is left out
        let sMantissaStart : Nat := if sResultMantissa.getD 0 0 = 0 then 1 else 0
        let sResultExponent := exponent se₁ + exponent se₂ - (sMantissaStart : Int)
        let sResultFence := (sResultMantissa.rdropWhile (· = 0)).length
        -- twenty digits are kept
        let sResultFence :=
          if sResultFence - sMantissaStart > 20 then 20 + sMantissaStart else sResultFence
        some (store (isPositive se₁ != isPositive se₂) sResultExponent
          ((sResultMantissa.take sResultFence).drop sMantissaStart))
      else none

/-! ## §2. The sums. -/

/-- The sums so far: one for each place, and none above `bound`. -/
def Bounded (n bound : Nat) (acc : List Nat) : Prop :=
  acc.length = n ∧ ∀ k, acc.getD k 0 ≤ bound

theorem getD_set (acc : List Nat) (k s j : Nat) :
    (acc.set k s).getD j 0 = if k = j ∧ k < acc.length then s else acc.getD j 0 := by
  rw [List.getD_eq_getElem?_getD, List.getD_eq_getElem?_getD, List.getElem?_set]
  by_cases hkj : k = j
  · subst hkj
    by_cases hlt : k < acc.length
    · simp [hlt]
    · simp [hlt]
  · simp [hkj]

section Rows

variable {n bound i : Nat} {x : Nat} {xs ys : List Nat}

/-- **One row.**  Each place receives at most one product of two digits. -/
theorem mulRow_spec (hx : x < 100) (hys : Below 100 ys) (hb : bound + 9801 < 2 ^ 31) (j : Nat) :
    ∀ acc, j ≤ ys.length → i + j + 1 ≤ n → Bounded n (bound + 9801) acc →
      (∀ k ≤ i + j, acc.getD k 0 ≤ bound) →
      ∃ acc', mulRow x ys i j acc = some acc' ∧ Bounded n (bound + 9801) acc' ∧
        (∀ k ≤ i, acc'.getD k 0 ≤ bound) ∧
        val 100 acc' = val 100 acc + x * val 100 (ys.take j) * 100 ^ (n - 1 - i - j) := by
  induction j with
  | zero =>
    intro acc _ _ hbd hlow
    exact ⟨acc, rfl, hbd, fun k hk => hlow k (by omega), by simp⟩
  | succ j ih =>
    intro acc hj hn hbd hlow
    have hlen := hbd.1
    have hjlt : j < ys.length := by omega
    have hplace : i + j + 1 < acc.length := by omega
    have hy : ys.getD j 0 < 100 := by
      rw [List.getD_eq_getElem _ _ hjlt]
      exact hys _ (List.getElem_mem hjlt)
    -- two digits are 99 at most
    have hprod : x * ys.getD j 0 ≤ 9801 := by
      have := Nat.mul_le_mul (show x ≤ 99 by omega) (show ys.getD j 0 ≤ 99 by omega)
      omega
    have hold := hlow (i + j + 1) (by omega)
    have hadd : addAt acc (i + j + 1) (x * ys.getD j 0) =
        some (acc.set (i + j + 1) (acc.getD (i + j + 1) 0 + x * ys.getD j 0)) := by
      unfold addAt
      rw [if_pos (by omega)]
    obtain ⟨acc', hrun, hbd', hlow', hval⟩ :=
      ih (acc.set (i + j + 1) (acc.getD (i + j + 1) 0 + x * ys.getD j 0)) (by omega) (by omega)
        ⟨by rw [List.length_set, hlen], fun k => by
          rw [getD_set]
          split_ifs
          · omega
          · exact hbd.2 k⟩
        (fun k hk => by
          rw [getD_set, if_neg (by omega)]
          exact hlow k (by omega))
    refine ⟨acc', ?_, hbd', hlow', ?_⟩
    · unfold mulRow
      rw [hadd]
      exact hrun
    · -- the place that was added to has the weight of the product
      have hset := val_set_add 100 acc (i + j + 1) (x * ys.getD j 0) hplace
      rw [← List.getD_eq_getElem _ 0 hplace] at hset
      have hpow : n - 1 - i - j = acc.length - 1 - (i + j + 1) + 1 := by omega
      have hpow' : n - 1 - i - (j + 1) = acc.length - 1 - (i + j + 1) := by omega
      rw [hval, hset, List.take_succ_eq_append_getElem hjlt, val_concat,
        ← List.getD_eq_getElem _ 0 hjlt, hpow, hpow', pow_succ]
      ring

/-- **All rows.**  A place receives at most one product from each row. -/
theorem mulRows_spec (hxs : Below 100 xs) (hys : Below 100 ys) (i : Nat) :
    ∀ bound acc, i ≤ xs.length → bound + i * 9801 < 2 ^ 31 → i + ys.length ≤ n →
      Bounded n bound acc →
      ∃ acc', mulRows xs ys i acc = some acc' ∧ Bounded n (bound + i * 9801) acc' ∧
        val 100 acc' = val 100 acc +
          val 100 (xs.take i) * val 100 ys * 100 ^ (n - i - ys.length) := by
  induction i with
  | zero =>
    intro bound acc _ _ _ hbd
    exact ⟨acc, rfl, by simpa using hbd, by simp⟩
  | succ i ih =>
    intro bound acc hi hb hn hbd
    have hilt : i < xs.length := by omega
    have hx : xs.getD i 0 < 100 := by
      rw [List.getD_eq_getElem _ _ hilt]
      exact hxs _ (List.getElem_mem hilt)
    obtain ⟨acc₁, hrun₁, hbd₁, -, hval₁⟩ := mulRow_spec (i := i) hx hys
      (show bound + 9801 < 2 ^ 31 by omega) ys.length acc le_rfl (by omega)
      ⟨hbd.1, fun k => (hbd.2 k).trans (by omega)⟩ (fun k _ => hbd.2 k)
    obtain ⟨acc₂, hrun₂, hbd₂, hval₂⟩ := ih (bound + 9801) acc₁ (by omega) (by omega) (by omega)
      hbd₁
    refine ⟨acc₂, ?_, ?_, ?_⟩
    · unfold mulRows
      rw [hrun₁]
      exact hrun₂
    · rw [Nat.succ_mul, Nat.add_comm (i * 9801), ← Nat.add_assoc]
      exact hbd₂
    · have hpow : n - i - ys.length = n - 1 - i - ys.length + 1 := by omega
      have hpow' : n - (i + 1) - ys.length = n - 1 - i - ys.length := by omega
      rw [hval₂, hval₁, List.take_length, List.take_succ_eq_append_getElem hilt, val_concat,
        ← List.getD_eq_getElem _ 0 hilt, hpow, hpow', pow_succ]
      ring

end Rows

/-! ## §3. The carries. -/

/-- The places after all rows: no sum is greater. -/
def sumMaximum : Nat := 20 * 9801

theorem divStep_spec (d c : Nat) (hd : d ≤ sumMaximum) (hc : c ≤ 2000) :
    (divStep d c).1 ≤ 2000 ∧ (divStep d c).1 * 100 + (divStep d c).2 = d + c := by
  unfold sumMaximum at hd
  unfold divStep
  constructor
  · show (d + c) / 100 ≤ 2000
    omega
  · show (d + c) / 100 * 100 + (d + c) % 100 = d + c
    omega

theorem carry_bounds {ds : List Nat} (h : ∀ d ∈ ds, d ≤ sumMaximum) :
    (carry divStep ds 0).1 ≤ 2000 ∧ Below 100 (carry divStep ds 0).2 := by
  have hstep : ∀ d c, d ≤ sumMaximum → c ≤ 2000 →
      (divStep d c).1 ≤ 2000 ∧ (divStep d c).2 < 100 := by
    intro d c hd hc
    exact ⟨(divStep_spec d c hd hc).1, Nat.mod_lt _ (by norm_num)⟩
  exact carry_spec (C := (· ≤ 2000)) hstep ds h (Nat.zero_le _)

theorem carryFits_of_le {ds : List Nat} (h : ∀ d ∈ ds, d ≤ sumMaximum) : carryFits ds = true := by
  induction ds with
  | nil => rfl
  | cons d ds ih =>
    have hrest : ∀ x ∈ ds, x ≤ sumMaximum := fun x hx => h x (List.mem_cons_of_mem d hx)
    have hcarry := (carry_bounds hrest).1
    have hd := h d List.mem_cons_self
    unfold sumMaximum at hd
    unfold carryFits
    rw [ih hrest, Bool.and_true, decide_eq_true_iff]
    omega

/-- **The carry loop keeps the value.** -/
theorem settle_val {ds : List Nat} (h : ∀ d ∈ ds, d ≤ sumMaximum) :
    val 100 (settle divStep ds) = val 100 ds :=
  val_settle 100 (C := (· ≤ 2000)) divStep_spec h (Nat.zero_le _)

/-- The first place, too, ends up with a digit: the number fits. -/
theorem settle_digits {ds : List Nat} (h : ∀ d ∈ ds, d ≤ sumMaximum)
    (hfit : val 100 ds < 100 ^ ds.length) : Below 100 (settle divStep ds) := by
  have htail : ∀ d ∈ ds.tail, d ≤ sumMaximum := fun d hd => h d (List.mem_of_mem_tail hd)
  rw [← settle_val h] at hfit
  exact settle_below (carry_bounds htail).2 hfit

/-! ## §4. The digits of the product. -/

section Product

variable {xs ys : List Nat}

/-- **What the loops compute**: the digits of the product. -/
theorem product_digits (hxs : Below 100 xs) (hys : Below 100 ys)
    (hlx : xs.length ≤ 20) :
    ∃ sum, mulRows xs ys xs.length (List.replicate (xs.length + ys.length) 0) = some sum ∧
      carryFits sum = true ∧ Below 100 (settle divStep sum) ∧
      (settle divStep sum).length = xs.length + ys.length ∧
      val 100 (settle divStep sum) = val 100 xs * val 100 ys := by
  have hstart : Bounded (xs.length + ys.length) 0
      (List.replicate (xs.length + ys.length) 0) := by
    refine ⟨List.length_replicate, fun k => ?_⟩
    rw [List.getD_eq_getElem?_getD, List.getElem?_replicate]
    split_ifs <;> rfl
  obtain ⟨sum, hrun, ⟨hlen, hbd⟩, hval⟩ := mulRows_spec (n := xs.length + ys.length) hxs hys
    xs.length 0 _ le_rfl (by omega) le_rfl hstart
  have hle : ∀ d ∈ sum, d ≤ sumMaximum := by
    intro d hd
    obtain ⟨k, hk, rfl⟩ := List.getElem_of_mem hd
    have := hbd k
    rw [List.getD_eq_getElem _ _ hk] at this
    unfold sumMaximum
    omega
  have hprod : val 100 sum = val 100 xs * val 100 ys := by
    rw [hval, val_replicate_zero, List.take_length, Nat.add_sub_cancel_left, Nat.sub_self, pow_zero,
      mul_one, zero_add]
  have hfit : val 100 sum < 100 ^ sum.length := by
    rw [hprod, hlen, pow_add]
    exact Nat.mul_lt_mul'' (val_lt hxs) (val_lt hys)
  exact ⟨sum, hrun, carryFits_of_le hle, settle_digits hle hfit,
    (settle_length sum).trans hlen, (settle_val hle).trans hprod⟩

/-- The product of two numbers without leading zeros has at most one. -/
theorem product_head {x y : Nat} {r : List Nat} (hx : x ≠ 0) (hy : y ≠ 0) (hr : Below 100 r)
    (hlen : r.length = (x :: xs).length + (y :: ys).length)
    (hval : val 100 r = val 100 (x :: xs) * val 100 (y :: ys)) :
    ∃ d ds, d ≠ 0 ∧ (r = d :: ds ∨ r = 0 :: d :: ds) := by
  obtain ⟨d₀, r₀, rfl⟩ : ∃ d₀ r₀, r = d₀ :: r₀ := by
    apply List.exists_cons_of_ne_nil
    intro hnil
    rw [hnil] at hlen
    simp at hlen
  by_cases h0 : d₀ = 0
  · subst h0
    simp only [List.length_cons] at hlen
    obtain ⟨d₁, r₁, rfl⟩ : ∃ d₁ r₁, r₀ = d₁ :: r₁ := by
      apply List.exists_cons_of_ne_nil
      intro hnil
      rw [hnil] at hlen
      simp only [List.length_nil] at hlen
      omega
    refine ⟨d₁, r₁, ?_, .inr rfl⟩
    intro h1
    subst h1
    -- With two leading zeros the product would be too small.
    have hlt := val_lt (Below.cons_iff.mp (Below.cons_iff.mp hr).2).2
    have hge : 100 ^ xs.length * 100 ^ ys.length ≤ val 100 (x :: xs) * val 100 (y :: ys) :=
      Nat.mul_le_mul (le_val xs hx) (le_val ys hy)
    rw [← hval, val_cons, val_cons, zero_mul, zero_mul, zero_add, zero_add, ← pow_add] at hge
    have hexp : r₁.length = xs.length + ys.length := by
      simp only [List.length_cons] at hlen
      omega
    rw [hexp] at hlt
    omega
  · exact ⟨d₀, r₀, h0, .inl rfl⟩

theorem mag_mul {r : List Nat} (e₁ e₂ : Int) (hlen : r.length = xs.length + ys.length)
    (hval : val 100 r = val 100 xs * val 100 ys) :
    mag 100 e₁ xs * mag 100 e₂ ys = mag 100 (e₁ + e₂) r := by
  have hexp : e₁ + e₂ - (r.length : Int) = (e₁ - xs.length) + (e₂ - ys.length) := by
    rw [hlen]
    push_cast
    ring
  unfold mag
  rw [hval, hexp, zpow_add₀ (by norm_num)]
  push_cast
  ring

/-- The copy loop: the digits from the first nonzero one, trimmed and cut. -/
theorem copied_digits {d : Nat} (z ds : List Nat) (hd : d ≠ 0) :
    let fence := ((z ++ d :: ds).rdropWhile (· = 0)).length
    ((z ++ d :: ds).take (if fence - z.length > 20 then 20 + z.length else fence)).drop z.length =
      trimCut (d :: ds) := by
  intro fence
  have hne : (d :: ds).rdropWhile (· = 0) ≠ [] := (stripped_trim ds hd).ne
  have hsplit : (z ++ d :: ds).rdropWhile (· = 0) = z ++ (d :: ds).rdropWhile (· = 0) := by
    unfold List.rdropWhile at hne ⊢
    rw [List.reverse_append, List.dropWhile_append, if_neg, List.reverse_append,
      List.reverse_reverse]
    intro hnil
    apply hne
    rw [List.isEmpty_iff.mp hnil]
    rfl
  have hfence : fence = z.length + ((d :: ds).rdropWhile (· = 0)).length := by
    rw [← List.length_append, ← hsplit]
  have htake : ∀ k, ((z ++ d :: ds).take (z.length + k)).drop z.length = (d :: ds).take k := by
    intro k
    rw [List.take_length_add_append, List.drop_left']
    rfl
  have hkept := List.rdropWhile_prefix (fun x : Nat => decide (x = 0)) (d :: ds)
  unfold trimCut
  split_ifs with hgt
  · have hlong : 20 ≤ ((d :: ds).rdropWhile (· = 0)).length := by omega
    rw [Nat.add_comm, htake]
    conv_rhs => rw [List.prefix_iff_eq_take.mp hkept, List.take_take, min_eq_left hlong]
  · have hshort : ((d :: ds).rdropWhile (· = 0)).length ≤ 20 := by omega
    rw [hfence, htake, List.take_of_length_le hshort]
    exact (List.prefix_iff_eq_take.mp hkept).symm

end Product

/-! ## §5. The result. -/

/-- The function on two nonzero numbers. -/
theorem multiplyFloat_store (neg₁ neg₂ : Bool) {e₁ e₂ : Int} {xs ys : List Nat}
    (he₁ : InRange e₁) (he₂ : InRange e₂) (hxs : Mantissa xs) (hys : Mantissa ys) :
    ∃ e d ds, d ≠ 0 ∧ Below 100 (d :: ds) ∧
      mag 100 e (d :: ds) = mag 100 e₁ xs * mag 100 e₂ ys ∧
      multiplyFloat (encode neg₁ e₁ xs) (encode neg₂ e₂ ys) =
        some (store (neg₁ != neg₂) e (trimCut (d :: ds))) := by
  obtain ⟨se₁, a₁, m₁, heq₁, hp₁, hx₁, hd₁⟩ := encode_cons neg₁ he₁ hxs
  obtain ⟨se₂, a₂, m₂, heq₂, hp₂, hx₂, hd₂⟩ := encode_cons neg₂ he₂ hys
  obtain ⟨x, xs, rfl⟩ := List.exists_cons_of_ne_nil hxs.ne
  obtain ⟨y, ys, rfl⟩ := List.exists_cons_of_ne_nil hys.ne
  obtain ⟨sum, hrun, hfits, hbelow, hlen, hval⟩ :=
    product_digits hxs.below hys.below hxs.length_le
  have hmag := mag_mul e₁ e₂ hlen hval
  obtain ⟨d, ds, hd, hform⟩ :=
    product_head hxs.head_ne hys.head_ne hbelow hlen hval
  -- the signs of the operands give the sign of the product
  have hsigns : (isPositive se₁ != isPositive se₂) = (neg₁ != neg₂) := by
    rw [hp₁, hp₂]
    cases neg₁ <;> cases neg₂ <;> rfl
  rw [heq₁, heq₂]
  unfold multiplyFloat
  simp only [hd₁, hd₂, hx₁, hx₂, hrun, Option.bind_some, hfits, if_true, hsigns]
  rcases hform with hform | hform
  · -- the product fills the first place
    rw [hform] at hmag hbelow
    refine ⟨e₁ + e₂, d, ds, hd, hbelow, hmag.symm, ?_⟩
    have hcopy := copied_digits [] ds hd
    simp only [List.nil_append, List.length_nil] at hcopy
    rw [hform, List.getD_cons_zero, if_neg hd, hcopy]
    congr 2
    push_cast
    ring
  · -- the first place is zero: the exponent goes down by one
    rw [hform] at hmag hbelow
    have hshift := mag_zeros_append (b := 100) (by norm_num) (e₁ + e₂) (d :: ds) 1
    refine ⟨e₁ + e₂ - 1, d, ds, hd, (Below.cons_iff.mp hbelow).2, ?_, ?_⟩
    · rw [hmag]
      exact hshift.symm
    · have hcopy := copied_digits [0] ds hd
      simp only [List.singleton_append, List.length_singleton] at hcopy
      rw [hform, List.getD_cons_zero, if_pos rfl, hcopy]
      rfl

/-- **The product is right exactly where nothing is cut off or the twentieth
    digit of the exact product is not zero**; the sums always fit their type. -/
theorem multiplyFloat_iff {a b : MtdNumericType} (ha : Canonical a) (hb : Canonical b) :
    (∃ r, multiplyFloat a b = some r ∧ IsResult r (value a * value b)) ↔
      value a * value b = 0 ∨ CutFits |value a * value b| := by
  cases ha with
  -- a zero operand is answered at once
  | zero =>
    have hrun : multiplyFloat zero b = some (.ok zero) := by
      cases hb with
      | zero => rfl
      | encode neg e ds hds he =>
        cases neg <;> rfl
    rw [value_zero, zero_mul]
    refine ⟨fun _ => .inl rfl, fun _ => ⟨_, hrun, ?_⟩⟩
    unfold IsResult
    rw [if_pos rfl]
  | encode neg₁ e₁ xs hxs he₁ =>
    cases hb with
    | zero =>
      have hrun : multiplyFloat (encode neg₁ e₁ xs) zero = some (.ok zero) := by
        obtain ⟨x, xs, rfl⟩ := List.exists_cons_of_ne_nil hxs.ne
        cases neg₁ <;> rfl
      rw [value_zero, mul_zero]
      refine ⟨fun _ => .inl rfl, fun _ => ⟨_, hrun, ?_⟩⟩
      unfold IsResult
      rw [if_pos rfl]
    | encode neg₂ e₂ ys hys he₂ =>
      -- the digits that are to be stored, and what storing makes of them
      obtain ⟨e, d, ds, hd, hbelow, hmag, hrun⟩ :=
        multiplyFloat_store neg₁ neg₂ he₁ he₂ hxs hys
      have hpos : 0 < mag 100 e (d :: ds) := by
        rw [hmag]
        exact mul_pos (hxs.mag_pos e₁) (hys.mag_pos e₂)
      have hprod : value (encode neg₁ e₁ xs) * value (encode neg₂ e₂ ys) =
          sgn (neg₁ != neg₂) * mag 100 e (d :: ds) := by
        rw [value_encode neg₁ he₁ hxs.below, value_encode neg₂ he₂ hys.below, sgn_xor, hmag]
        ring
      have hne : sgn (neg₁ != neg₂) * mag 100 e (d :: ds) ≠ 0 := by
        cases (neg₁ != neg₂) <;> simp [sgn, hpos.ne']
      rw [hprod, or_iff_right hne, abs_sgn _ hpos, ← store_iff (neg₁ != neg₂) hd hbelow,
        ← isResult_sgn hpos]
      constructor
      · rintro ⟨r, hr, hres⟩
        rw [hrun] at hr
        obtain rfl := Option.some.inj hr
        exact hres
      · intro hres
        exact ⟨_, hrun, hres⟩

/-- `9899.5 · (-3.77)`: every product of two digits carries. -/
theorem multiplyFloat_iff_carry :
    (∃ r, multiplyFloat (encode false 2 [98, 99, 50]) (encode true 1 [3, 77]) = some r ∧
      IsResult r (value (encode false 2 [98, 99, 50]) * value (encode true 1 [3, 77]))) ↔
      value (encode false 2 [98, 99, 50]) * value (encode true 1 [3, 77]) = 0 ∨
        CutFits |value (encode false 2 [98, 99, 50]) * value (encode true 1 [3, 77])| :=
  multiplyFloat_iff (.encode false 2 [98, 99, 50] (by decide) (by decide))
    (.encode true 1 [3, 77] (by decide) (by decide))

/-- The digits of `1 + 100⁻¹⁸`. -/
def longOne : List Nat := 1 :: (List.replicate 17 0 ++ [1])

/-- **`(1 + 100⁻¹⁸) · 1.0001` is stored with a zero as its twentieth digit.** -/
theorem multiply_wrong :
    multiplyFloat (encode false 1 longOne) (encode false 1 [1, 0, 1]) =
      some (.ok (.num 193 (1 :: 0 :: 1 :: (List.replicate 15 0 ++ [1, 0])))) ∧
    ¬ ∀ a b, Canonical a → Canonical b →
      ∃ r, multiplyFloat a b = some r ∧ IsResult r (value a * value b) := by
  have hrun : multiplyFloat (encode false 1 longOne) (encode false 1 [1, 0, 1]) =
      some (.ok (encode false 1 (1 :: 0 :: 1 :: (List.replicate 15 0 ++ [1, 0])))) := by decide
  refine ⟨hrun, ?_⟩
  intro h
  have he : InRange 1 := by decide
  have hlong : Mantissa longOne := by decide
  have hshort : Mantissa [1, 0, 1] := by decide
  obtain ⟨r, hr, hres⟩ := h _ _ (.encode false 1 longOne hlong he)
    (.encode false 1 [1, 0, 1] hshort he)
  rw [hrun] at hr
  obtain rfl := Option.some.inj hr
  have hprod : 0 < mag 100 1 longOne * mag 100 1 [1, 0, 1] :=
    mul_pos (hlong.mag_pos 1) (hshort.mag_pos 1)
  rw [value_encode false he hlong.below, value_encode false he hshort.below,
    show sgn false * mag 100 1 longOne * (sgn false * mag 100 1 [1, 0, 1]) =
      sgn false * (mag 100 1 longOne * mag 100 1 [1, 0, 1]) by simp [sgn],
    isResult_sgn hprod] at hres
  unfold IsCut at hres
  split_ifs at hres with hhigh hlow
  · cases hres
  · obtain ⟨w, hw, hcanon, -⟩ := hres
    obtain rfl := Except.ok.inj hw
    have hs := (canonical_encode_iff false he (by decide) (by decide) (by decide)).mp hcanon
    exact hs.last (by decide)

end Altibase.Mtc
