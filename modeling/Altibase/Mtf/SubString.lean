/-
  Altibase.Mtf.SubString
  ──────────────────────
  **THE SEARCH FOR A STRING BY ITS HASH.**

  `matchSubString` compares the bytes only where the hashes agree, and takes the
  hash along the source: one byte goes out, one comes in.  The hash has twenty
  bits, the arithmetic thirty-two.

    * `hash_roll` — the hash of the next place;
    * `matchSubString_some`, `matchSubString_none` — the first occurrence is found.
-/

import Altibase.Mtf.LikeMatch
import Mathlib.Algebra.GroupWithZero.Nat
import Mathlib.Data.Nat.ModEq
import Mathlib.Tactic.Ring

namespace Altibase.Mtf

/-! ## §1. The rolling hash. -/

/-- The hash of a string. -/
def hashOf (s : List UInt8) : UInt32 := s.foldl hashStep 0

/-- The mask keeps the low 20 bits. -/
theorem mask_toNat (x : UInt32) : (x &&& 0x000FFFFF).toNat = x.toNat % 2 ^ 20 := by
  rw [UInt32.toNat_and]
  exact Nat.and_two_pow_sub_one_eq_mod _ 20

/-- A shift by one byte, in 32 bits. -/
theorem shl_toNat (x : UInt32) : (x <<< (8 : UInt32)).toNat = x.toNat * 256 % 2 ^ 32 := by
  rw [UInt32.toNat_shiftLeft, Nat.shiftLeft_eq]
  rfl

/-- A byte enters the hash modulo `2 ^ 20`: the wrap at 32 bits is lost in the mask. -/
theorem hashStep_toNat (h : UInt32) (c : UInt8) :
    (hashStep h c).toNat = (h.toNat * 256 + c.toNat) % 2 ^ 20 := by
  unfold hashStep
  rw [mask_toNat, UInt32.toNat_add, shl_toNat, UInt8.toNat_toUInt32]
  omega

/-- Only the low 20 bits of the old hash matter. -/
theorem hashStep_congr {h h' : UInt32} (c : UInt8) (heq : h.toNat ≡ h'.toNat [MOD 2 ^ 20]) :
    hashStep h c = hashStep h' c := by
  apply UInt32.toNat_inj.mp
  rw [hashStep_toNat, hashStep_toNat]
  exact (heq.mul_right 256).add_right c.toNat

/-- What comes before counts as often as its place says. -/
theorem foldl_hashStep (s : List UInt8) (h : UInt32) :
    (s.foldl hashStep h).toNat ≡ h.toNat * 256 ^ s.length + (hashOf s).toNat [MOD 2 ^ 20] := by
  unfold hashOf
  induction s generalizing h with
  | nil => simp [Nat.ModEq]
  | cons c s ih =>
    have hstep : ∀ g : UInt32, (hashStep g c).toNat ≡ g.toNat * 256 + c.toNat [MOD 2 ^ 20] := by
      intro g
      rw [hashStep_toNat]
      exact Nat.mod_modEq _ _
    have h0 := (ih (hashStep 0 c)).trans
      (((hstep 0).mul_right (256 ^ s.length)).add_right _)
    have h1 := (ih (hashStep h c)).trans (((hstep h).mul_right (256 ^ s.length)).add_right _)
    rw [List.foldl_cons, List.foldl_cons, List.length_cons]
    refine h1.trans (Nat.ModEq.trans ?_ (h0.symm.add_left _))
    rw [show (0 : UInt32).toNat = 0 from rfl]
    ring_nf
    rfl

/-- The weight by which the byte that leaves the window is taken out. -/
theorem hashWeight_modEq (n : ℕ) : (hashWeight n).toNat ≡ 256 ^ n [MOD 2 ^ 20] := by
  induction n with
  | zero => rfl
  | succ n ih =>
    have hmod : (hashWeight (n + 1)).toNat ≡ (hashWeight n).toNat * 256 [MOD 2 ^ 20] := by
      have hnext : hashWeight (n + 1) = (hashWeight n <<< 8) &&& 0x000FFFFF := rfl
      unfold Nat.ModEq
      rw [hnext, mask_toNat, shl_toNat]
      omega
    rw [pow_succ]
    exact hmod.trans (ih.mul_right 256)

/-- **One byte goes out of the hash and one comes in.** -/
theorem hash_roll (old new : UInt8) (w : List UInt8) :
    hashStep (hashOf (old :: w) - old.toUInt32 * hashWeight w.length) new =
      hashOf (w ++ [new]) := by
  have hall : (hashOf (old :: w)).toNat ≡
      old.toNat * 256 ^ w.length + (hashOf w).toNat [MOD 2 ^ 20] := by
    have hfold := foldl_hashStep w (hashStep 0 old)
    have hold : (hashStep 0 old).toNat = old.toNat := by
      have := old.toNat_lt
      rw [hashStep_toNat, show (0 : UInt32).toNat = 0 from rfl]
      omega
    rwa [hold] at hfold
  have hout : old.toNat * (hashWeight w.length).toNat ≡ old.toNat * 256 ^ w.length [MOD 2 ^ 20] :=
    (hashWeight_modEq w.length).mul_left _
  have hsplit : hashOf (w ++ [new]) = hashStep (hashOf w) new := by
    unfold hashOf
    rw [List.foldl_append]
    rfl
  rw [hsplit]
  apply hashStep_congr
  have hlt := (hashOf (old :: w)).toNat_lt
  unfold Nat.ModEq at *
  rw [UInt32.toNat_sub, UInt32.toNat_mul, UInt8.toNat_toUInt32]
  generalize old.toNat * (hashWeight w.length).toNat = z at *
  generalize old.toNat * 256 ^ w.length = y at *
  omega

/-- The hash at the next place, from the hash at this one. -/
theorem hashOf_next (old new : UInt8) {rest tl : List UInt8} {n : ℕ}
    (h : rest.drop n = new :: tl) :
    hashStep (hashOf ((old :: rest).take (n + 1)) - old.toUInt32 * hashWeight n) new =
      hashOf (rest.take (n + 1)) := by
  have hlt : n < rest.length := by
    by_contra hge
    rw [List.drop_eq_nil_of_le (by omega)] at h
    cases h
  have hnew : rest[n] = new := by
    have hdrop := List.drop_eq_getElem_cons hlt
    rw [h] at hdrop
    exact (List.cons.inj hdrop).1.symm
  have hroll := hash_roll old new (rest.take n)
  rw [List.length_take_of_le hlt.le] at hroll
  rw [List.take_succ_cons, hroll, List.take_succ_eq_append_getElem hlt, hnew]

/-- The search from one place on: the first occurrence, or none. -/
theorem matchLoop_spec {aPattern : List UInt8} (hp : aPattern ≠ []) (s : List UInt8)
    (hlen : aPattern.length ≤ s.length) (i : ℕ) :
    (∀ k, matchLoop aPattern (hashOf aPattern) (hashOf (s.take aPattern.length)) i s = some k →
      ∃ j, k = i + j ∧ aPattern <+: s.drop j ∧ ∀ m, m < j → ¬aPattern <+: s.drop m) ∧
    (matchLoop aPattern (hashOf aPattern) (hashOf (s.take aPattern.length)) i s = none →
      ∀ m, ¬aPattern <+: s.drop m) := by
  have hpos : 0 < aPattern.length := List.length_pos_iff.mpr hp
  induction s generalizing i with
  | nil =>
    rw [List.length_nil] at hlen
    omega
  | cons old rest ih =>
    have hiff : (old :: rest).take aPattern.length = aPattern ↔ aPattern <+: old :: rest :=
      ⟨fun h => List.prefix_iff_eq_take.mpr h.symm, fun h => (List.prefix_iff_eq_take.mp h).symm⟩
    rw [matchLoop]
    -- an occurrence has the hash of the pattern, and is compared to the end
    by_cases hocc : aPattern <+: old :: rest
    · have htake := hiff.mpr hocc
      rw [htake, if_pos ⟨rfl, rfl⟩]
      constructor
      · intro k hk
        cases hk
        exact ⟨0, rfl, hocc, fun m hm => absurd hm (Nat.not_lt_zero m)⟩
      · intro hnone
        cases hnone
    · rw [if_neg (fun h => hocc (hiff.mp h.2))]
      obtain ⟨n, hn⟩ : ∃ n, aPattern.length = n + 1 := ⟨aPattern.length - 1, by omega⟩
      have hdrop : (old :: rest).drop aPattern.length = rest.drop n := by
        rw [hn, List.drop_succ_cons]
      rw [hdrop]
      cases hrest : rest.drop n with
      | nil =>
        refine ⟨fun k hk => (by cases hk), fun _ m hm => ?_⟩
        -- the pattern no longer fits behind this place
        have hle := List.drop_eq_nil_iff.mp hrest
        have hlong := hm.length_le
        rw [List.length_drop, List.length_cons] at hlong
        cases m with
        | zero => exact hocc hm
        | succ m => omega
      | cons new tl =>
        have hlt := congrArg List.length hrest
        rw [List.length_drop, List.length_cons] at hlt
        -- the rolled hash is the one of the next window
        have hroll := hashOf_next old new hrest
        rw [← hn, show n = aPattern.length - 1 by omega] at hroll
        dsimp only
        rw [hroll]
        obtain ⟨hsome, hnone⟩ := ih (by omega) (i + 1)
        constructor
        · intro k hk
          obtain ⟨j, rfl, hj, hbefore⟩ := hsome k hk
          refine ⟨j + 1, by omega, hj, fun m hm => ?_⟩
          cases m with
          | zero => exact hocc
          | succ m => exact hbefore m (by omega)
        · intro hk m
          cases m with
          | zero => exact hocc
          | succ m => exact hnone hk m

/-- **`matchSubString` finds the first occurrence.** -/
theorem matchSubString_some {s aPattern : List UInt8} (hp : aPattern ≠ []) {k : ℕ}
    (h : matchSubString s aPattern = some k) :
    aPattern <+: s.drop k ∧ ∀ m, m < k → ¬aPattern <+: s.drop m := by
  unfold matchSubString at h
  split_ifs at h with hlen
  obtain ⟨j, rfl, hj⟩ := (matchLoop_spec hp s hlen 0).1 k h
  rwa [Nat.zero_add]

/-- If the search finds nothing, the pattern stands nowhere. -/
theorem matchSubString_none {s aPattern : List UInt8} (hp : aPattern ≠ [])
    (h : matchSubString s aPattern = none) (m : ℕ) : ¬aPattern <+: s.drop m := by
  unfold matchSubString at h
  split_ifs at h with hlen
  · exact (matchLoop_spec hp s hlen 0).2 h m
  · intro hm
    have hlong := hm.length_le
    rw [List.length_drop] at hlong
    omega

end Altibase.Mtf
