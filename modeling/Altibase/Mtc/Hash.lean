/-
  Altibase.Mtc.Hash
  ─────────────────
  **THE HASH OF THE NUMERIC TYPES** (`mtc::hashWithExponent`).

  Four bytes of hash are carried along the bytes of a value; each of them goes
  through one permutation of the byte values.

    * `hash_eq_of_take` — from one start, two strings of one length that hash
      alike after every byte are equal;
    * `exists_hash_ne` — one more byte changes the hash of some start;
    * `eq_iff_hash_take` — the hashes of all prefixes determine a string.
-/

import Mathlib.Algebra.GroupWithZero.Nat
import Mathlib.Data.Finite.Defs
import Mathlib.Data.Fintype.EquivFin
import Mathlib.Data.List.GetD
import Mathlib.Data.List.Nodup

namespace Altibase.Mtc

/-! ## §1. The table. -/

set_option maxRecDepth 2000 in
/-- `mtc::hashPermut`. -/
def hashPermut : List Nat := [
  1, 87, 49, 12, 176, 178, 102, 166, 121, 193, 6, 84, 249, 230, 44, 163,
  14, 197, 213, 181, 161, 85, 218, 80, 64, 239, 24, 226, 236, 142, 38, 200,
  110, 177, 104, 103, 141, 253, 255, 50, 77, 101, 81, 18, 45, 96, 31, 222,
  25, 107, 190, 70, 86, 237, 240, 34, 72, 242, 20, 214, 244, 227, 149, 235,
  97, 234, 57, 22, 60, 250, 82, 175, 208, 5, 127, 199, 111, 62, 135, 248,
  174, 169, 211, 58, 66, 154, 106, 195, 245, 171, 17, 187, 182, 179, 0, 243,
  132, 56, 148, 75, 128, 133, 158, 100, 130, 126, 91, 13, 153, 246, 216, 219,
  119, 68, 223, 78, 83, 88, 201, 99, 122, 11, 92, 32, 136, 114, 52, 10,
  138, 30, 48, 183, 156, 35, 61, 26, 143, 74, 251, 94, 129, 162, 63, 152,
  170, 7, 115, 167, 241, 206, 3, 150, 55, 59, 151, 220, 90, 53, 23, 131,
  125, 173, 15, 238, 79, 95, 89, 16, 105, 137, 225, 224, 217, 160, 37, 123,
  118, 73, 2, 157, 46, 116, 9, 145, 134, 228, 207, 212, 202, 215, 69, 229,
  27, 188, 67, 124, 168, 252, 42, 4, 29, 108, 21, 247, 19, 205, 39, 203,
  233, 40, 186, 147, 198, 192, 155, 33, 164, 191, 98, 204, 165, 180, 117, 76,
  140, 36, 210, 172, 41, 54, 159, 8, 185, 232, 113, 196, 231, 47, 146, 120,
  51, 65, 28, 144, 254, 221, 93, 189, 194, 139, 112, 43, 71, 109, 184, 209]

/-- One entry of the table. -/
def permut (i : UInt8) : UInt8 := .ofNat (hashPermut.getD i.toNat 0)

set_option maxRecDepth 2000 in
theorem hashPermut_length : hashPermut.length = 256 := rfl

/-- None of the numbers occurs twice, nor among the bits of `seen`. -/
def distinct (seen : Nat) : List Nat → Bool
  | [] => true
  | d :: ds => !seen.testBit d && distinct (seen ||| 1 <<< d) ds

/-- `distinct` marks in `seen` what it has met. -/
theorem nodup_of_distinct (ds : List Nat) {seen : Nat} (h : distinct seen ds = true) :
    ds.Nodup ∧ ∀ d ∈ ds, seen.testBit d = false := by
  induction ds generalizing seen with
  | nil => exact ⟨List.nodup_nil, fun d hd => absurd hd List.not_mem_nil⟩
  | cons d ds ih =>
    rw [distinct, Bool.and_eq_true, Bool.not_eq_true'] at h
    obtain ⟨hnodup, hseen⟩ := ih h.2
    have hbits : ∀ c ∈ ds, seen.testBit c = false ∧ c ≠ d := by
      intro c hc
      have hbit := hseen c hc
      rw [Nat.testBit_or, Bool.or_eq_false_iff] at hbit
      refine ⟨hbit.1, fun heq => ?_⟩
      rw [heq, Nat.one_shiftLeft, Nat.testBit_two_pow_self] at hbit
      exact absurd hbit.2 (by decide)
    refine ⟨List.nodup_cons.mpr ⟨fun hd => (hbits d hd).2 rfl, hnodup⟩, fun c hc => ?_⟩
    rcases List.mem_cons.mp hc with rfl | hc
    · exact h.1
    · exact (hbits c hc).1

/-- The table is a permutation of the bytes. -/
theorem hashPermut_nodup : hashPermut.Nodup := by
  have h : distinct 0 hashPermut = true := by decide +kernel
  exact (nodup_of_distinct hashPermut h).1

theorem hashPermut_lt : ∀ d ∈ hashPermut, d < 256 := by decide +kernel

/-- No entry occurs twice. -/
theorem permut_injective : Function.Injective permut := by
  intro i j h
  have hi : i.toNat < hashPermut.length := by
    rw [hashPermut_length]
    exact i.toNat_lt
  have hj : j.toNat < hashPermut.length := by
    rw [hashPermut_length]
    exact j.toNat_lt
  unfold permut at h
  rw [List.getD_eq_getElem _ _ hi, List.getD_eq_getElem _ _ hj] at h
  have hentry : hashPermut[i.toNat] = hashPermut[j.toNat] := by
    have hlti := hashPermut_lt _ (List.getElem_mem hi)
    have hltj := hashPermut_lt _ (List.getElem_mem hj)
    have hmod := congrArg UInt8.toNat h
    rwa [UInt8.toNat_ofNat_of_lt' hlti, UInt8.toNat_ofNat_of_lt' hltj] at hmod
  exact UInt8.toNat_inj.mp ((hashPermut_nodup.getElem_inj_iff).mp hentry)

/-! ## §2. The hash. -/

/-- The array `sHash`. -/
structure SHash where
  h0 : UInt8
  h1 : UInt8
  h2 : UInt8
  h3 : UInt8
  deriving DecidableEq, Repr

/-- The bytes of `aHash`, the highest one first. -/
def SHash.ofUInt (aHash : Nat) : SHash :=
  ⟨.ofNat (aHash >>> 24), .ofNat (aHash >>> 16), .ofNat (aHash >>> 8), .ofNat aHash⟩

/-- The body of the loop. -/
def SHash.step (s : SHash) (aValue : UInt8) : SHash :=
  ⟨permut (s.h0 ^^^ aValue), permut (s.h1 ^^^ aValue), permut (s.h2 ^^^ aValue),
    permut (s.h3 ^^^ aValue)⟩

/-- `sHash[0]<<24|sHash[1]<<16|sHash[2]<<8|sHash[3]`. -/
def SHash.toUInt (s : SHash) : Nat :=
  s.h0.toNat <<< 24 ||| s.h1.toNat <<< 16 ||| s.h2.toNat <<< 8 ||| s.h3.toNat

/-- **`mtc::hashWithExponent`** of the bytes `aValue`. -/
def hashWithExponent (aHash : Nat) (aValue : List UInt8) : Nat :=
  (aValue.foldl SHash.step (.ofUInt aHash)).toUInt

/-! ## §3. What the hash tells. -/

/-- Bits put below a shifted number are added to it. -/
theorem shiftLeft_or (a : Nat) {c k : Nat} (h : c < 2 ^ k) : a <<< k ||| c = a * 2 ^ k + c := by
  rw [← Nat.shiftLeft_add_eq_or_of_lt h, Nat.shiftLeft_eq]

/-- The hash value is its four bytes, the first one on top. -/
theorem SHash.toUInt_eq (s : SHash) : s.toUInt =
    s.h0.toNat * 2 ^ 24 + (s.h1.toNat * 2 ^ 16 + (s.h2.toNat * 2 ^ 8 + s.h3.toNat)) := by
  have l1 := s.h1.toNat_lt
  have l2 := s.h2.toNat_lt
  have l3 := s.h3.toNat_lt
  unfold SHash.toUInt
  rw [Nat.or_assoc, Nat.or_assoc, shiftLeft_or s.h2.toNat l3,
    shiftLeft_or s.h1.toNat (k := 16) (by omega), shiftLeft_or s.h0.toNat (k := 24) (by omega)]

/-- The hash value determines the four bytes. -/
theorem SHash.toUInt_injective : Function.Injective SHash.toUInt := by
  intro s t h
  rw [SHash.toUInt_eq, SHash.toUInt_eq] at h
  have s1 := s.h1.toNat_lt
  have s2 := s.h2.toNat_lt
  have s3 := s.h3.toNat_lt
  have t1 := t.h1.toNat_lt
  have t2 := t.h2.toNat_lt
  have t3 := t.h3.toNat_lt
  obtain ⟨a0, a1, a2, a3⟩ := s
  obtain ⟨c0, c1, c2, c3⟩ := t
  simp only at *
  rw [SHash.mk.injEq]
  refine ⟨UInt8.toNat_inj.mp ?_, UInt8.toNat_inj.mp ?_, UInt8.toNat_inj.mp ?_,
    UInt8.toNat_inj.mp ?_⟩ <;> omega

/-- A byte of the hash after one more byte of the value tells that byte. -/
theorem SHash.step_inj {s : SHash} {x y : UInt8} (h : s.step x = s.step y) : x = y := by
  have h3 : permut (s.h3 ^^^ x) = permut (s.h3 ^^^ y) := congrArg SHash.h3 h
  exact (UInt8.xor_right_inj _).mp (permut_injective h3)

/-- **Two strings of one length that hash alike after every byte are equal**, from
    whatever hash one starts. -/
theorem hash_eq_of_take (aHash : Nat) {xs ys : List UInt8} (hlen : xs.length = ys.length)
    (h : ∀ n ≤ xs.length, hashWithExponent aHash (xs.take n) = hashWithExponent aHash (ys.take n)) :
    xs = ys := by
  have hstates : ∀ n ≤ xs.length, (xs.take n).foldl SHash.step (.ofUInt aHash) =
      (ys.take n).foldl SHash.step (.ofUInt aHash) :=
    fun n hn => SHash.toUInt_injective (h n hn)
  apply List.ext_getElem hlen
  intro n hx hy
  -- one state before the byte `n`, and one behind it
  have hbefore := hstates n (by omega)
  have hafter := hstates (n + 1) (by omega)
  rw [List.take_succ_eq_append_getElem hx, List.take_succ_eq_append_getElem hy,
    List.foldl_append, List.foldl_append, hbefore] at hafter
  exact SHash.step_inj hafter

/-- The last byte of the hash, along a value. -/
def lowAfter (aValue : List UInt8) (h : UInt8) : UInt8 :=
  aValue.foldl (fun s c => permut (s ^^^ c)) h

/-- The last byte of the state depends on its own start only. -/
theorem foldl_step_h3 (aValue : List UInt8) (s : SHash) :
    (aValue.foldl SHash.step s).h3 = lowAfter aValue s.h3 := by
  induction aValue generalizing s with
  | nil => rfl
  | cons c rest ih => exact ih (s.step c)

/-- Every byte that enters permutes the values that the last byte can have. -/
theorem lowAfter_injective (aValue : List UInt8) : Function.Injective (lowAfter aValue) := by
  induction aValue with
  | nil => exact fun _ _ h => h
  | cons c rest ih =>
    intro s t h
    exact (UInt8.xor_left_inj c).mp (permut_injective (ih h))

theorem permut_zero : permut 0 = 1 := rfl

theorem permut_one : permut 1 = 87 := rfl

/-- No byte is undone by the table everywhere: what `0` goes to would have to be
    the byte, and then `1` would go to `0`. -/
theorem exists_permut_ne (y : UInt8) : ∃ s, permut (s ^^^ y) ≠ s := by
  by_contra hno
  have hall : ∀ s, permut (s ^^^ y) = s := fun s => not_not.mp fun h => hno ⟨s, h⟩
  have hy : 1 = y := by
    have h := hall y
    rwa [UInt8.xor_self, permut_zero] at h
  have h0 := hall 0
  rw [UInt8.zero_xor, ← hy, permut_one] at h0
  exact absurd h0 (by decide)

/-- **One more byte is seen** from some start. -/
theorem exists_hash_ne (aValue : List UInt8) (y : UInt8) :
    ∃ aHash, aHash < 2 ^ 32 ∧
      hashWithExponent aHash (aValue ++ [y]) ≠ hashWithExponent aHash aValue := by
  have hfinite : Finite UInt8 :=
    Finite.of_injective UInt8.toFin fun _ _ h => UInt8.toFin_inj.mp h
  obtain ⟨s, hs⟩ := exists_permut_ne y
  obtain ⟨s₀, rfl⟩ := (Finite.injective_iff_surjective.mp (lowAfter_injective aValue)) s
  have hlt := s₀.toNat_lt
  refine ⟨s₀.toNat, by omega, fun heq => hs ?_⟩
  have hlow := congrArg SHash.h3 (SHash.toUInt_injective heq)
  have hstart : (SHash.ofUInt s₀.toNat).h3 = s₀ := UInt8.ofNat_toNat
  rw [foldl_step_h3, foldl_step_h3, hstart] at hlow
  unfold lowAfter at hlow ⊢
  rw [List.foldl_append] at hlow
  exact hlow

/-- Two strings hash alike prefix for prefix, from every start. -/
def HashAlike (xs ys : List UInt8) : Prop :=
  ∀ aHash, aHash < 2 ^ 32 → ∀ n,
    hashWithExponent aHash (xs.take n) = hashWithExponent aHash (ys.take n)

/-- The two byte sequences may be exchanged. -/
theorem HashAlike.symm {xs ys : List UInt8} (h : HashAlike xs ys) : HashAlike ys xs :=
  fun aHash hlt n => (h aHash hlt n).symm

/-- Of two such sequences the second is not longer. -/
theorem HashAlike.length_le {xs ys : List UInt8} (h : HashAlike xs ys) :
    ys.length ≤ xs.length := by
  by_contra hlong
  have hlt : xs.length < ys.length := by omega
  -- `xs` is a prefix of `ys`, and the next byte of `ys` is seen from some start
  have hlen : xs.length = (ys.take xs.length).length := by
    rw [List.length_take, Nat.min_eq_left (by omega)]
  have hxs : xs = ys.take xs.length := by
    refine hash_eq_of_take 0 hlen fun n hn => ?_
    rw [List.take_take, Nat.min_eq_left hn]
    exact h 0 (Nat.two_pow_pos 32) n
  obtain ⟨aHash, hstart, hne⟩ := exists_hash_ne xs ys[xs.length]
  apply hne
  have hnext := h aHash hstart (xs.length + 1)
  rw [List.take_of_length_le (Nat.le_succ _), List.take_succ_eq_append_getElem hlt,
    ← hxs] at hnext
  exact hnext.symm

/-- **The hashes of all prefixes, from all starts, determine a string.** -/
theorem eq_iff_hash_take (xs ys : List UInt8) : xs = ys ↔ HashAlike xs ys := by
  constructor
  · rintro rfl
    exact fun _ _ _ => rfl
  · intro h
    refine hash_eq_of_take 0 (Nat.le_antisymm h.symm.length_le h.length_le) fun n _ => ?_
    exact h 0 (Nat.two_pow_pos 32) n

end Altibase.Mtc
