/-
  Altibase.Idu.CompressionCode
  ────────────────────────────
  **WHAT THE DECODER DOES WITH THE CODE OF A PREFIX.**

  The invariant of the coder says what the decoder does with the bytes that are
  written so far, whatever follows and whatever number of short literals is still
  put into the last header: it arrives behind the last match, and what it has
  written is the part of the source that is coded.

    * `HeaderFor`, `matchHeader_spec` — the decoder on a match that the coder wrote;
    * `outer_run` — the decoder on a run of literals;
    * `Coded.literals`, `Ready.matched` — the two steps of the coder.
-/

import Altibase.Idu.Compression
import Mathlib.Data.Nat.Bitwise

namespace Altibase.Idu.Compression

open Altibase.Lib

/-! ## §1. Bytes of a header. -/

/-- A small number is kept in a byte, -/
theorem byte_toNat {x : ℕ} (h : x < 256) : (byte x).toNat = x := UInt8.toNat_ofNat_of_lt' h

/-- a greater one loses its upper bits. -/
theorem byte_toNat_mod (x : ℕ) : (byte x).toNat = x % 256 := UInt8.toNat_ofNat'

/-- Bytes are joined bit by bit. -/
theorem byte_or (x y : ℕ) : byte x ||| byte y = byte (x ||| y) := by
  apply UInt8.toNat_inj.mp
  rw [UInt8.toNat_or, byte_toNat_mod, byte_toNat_mod, byte_toNat_mod]
  exact (Nat.or_mod_two_pow (n := 8)).symm

/-- Fields of bits that do not overlap are added. -/
theorem or_field {a b i : ℕ} (h : b < 2 ^ i) : a * 2 ^ i ||| b = a * 2 ^ i + b := by
  rw [← Nat.shiftLeft_eq, Nat.shiftLeft_add_eq_or_of_lt h]

/-- A field is shifted by multiplying, -/
theorem shl_field (a i : ℕ) : a <<< i = a * 2 ^ i := Nat.shiftLeft_eq a i

/-- and masked by taking the remainder. -/
theorem and_field (a i : ℕ) : a &&& (2 ^ i - 1) = a % 2 ^ i := Nat.and_two_pow_sub_one_eq_mod a i

/-- The top bit of an offset of a far match. -/
theorem top_bit {o : ℕ} (h : o < 2 ^ 15) : (o &&& 0x4000) >>> 11 = o / 2 ^ 14 * 8 := by
  have hand : o &&& 2 ^ 14 = o / 2 ^ 14 * 2 ^ 14 := by
    rw [Nat.and_two_pow, Nat.toNat_testBit]
    omega
  show (o &&& 2 ^ 14) >>> 11 = o / 2 ^ 14 * 8
  rw [hand, Nat.shiftRight_eq_div_pow]
  omega

/-! ## §2. Lengths and offsets. -/

/-- A length takes a byte for each 255. -/
theorem lengthBytes_length {k : ℕ} (hk : 0 < k) :
    (lengthBytes k).length = (k - 1) / 255 + 1 := by
  induction k using lengthBytes.induct with
  | case1 k hgt ih =>
    rw [lengthBytes, if_pos hgt, List.length_cons, ih (by omega)]
    omega
  | case2 k hle =>
    rw [lengthBytes, if_neg hle, List.length_singleton]
    omega

/-- **The decoder reads the length that the coder wrote.** -/
theorem longLength_bytes (aBase : ℕ) {k : ℕ} (hk : 0 < k) (t : ℕ) (read rest dest : List UInt8) :
    longLength aBase t read (lengthBytes k ++ rest) dest =
      some (u32 (t + aBase + k), ⟨(lengthBytes k).reverse ++ read, rest, dest⟩) := by
  induction k using lengthBytes.induct generalizing t read with
  | case1 k hgt ih =>
    have hsum : u32 (u32 (t + 255) + aBase + (k - 255)) = u32 (t + aBase + k) := by
      unfold u32
      omega
    rw [lengthBytes, if_pos hgt, List.cons_append, longLength, if_pos rfl, ih (by omega), hsum,
      List.reverse_cons, List.append_assoc, List.singleton_append]
  | case2 k hle =>
    have hbyte : (byte k).toNat = k := byte_toNat (by omega)
    have hne : byte k ≠ 0 := by
      intro h0
      rw [h0] at hbyte
      exact absurd hbyte (by simpa using Nat.ne_of_lt hk)
    rw [lengthBytes, if_neg hle, List.singleton_append, longLength, if_neg hne, hbyte]
    rfl

/-- How a header gives the length `n`: in its own bits, or in the bytes behind it. -/
def LengthCode (aBase k n : ℕ) (more : List UInt8) : Prop :=
  (k = n ∧ 0 < n ∧ more = []) ∨ (k = 0 ∧ aBase < n ∧ more = lengthBytes (n - aBase))

/-- **A length is read as it was written.** -/
theorem Dec.length_code {aBase k n : ℕ} {more : List UInt8} (h : LengthCode aBase k n more)
    (hn : n < 2 ^ 32) (read rest dest : List UInt8) :
    Dec.length ⟨read, more ++ rest, dest⟩ aBase k =
      some (n, ⟨more.reverse ++ read, rest, dest⟩) := by
  unfold Dec.length
  rcases h with ⟨rfl, hpos, rfl⟩ | ⟨rfl, hlt, rfl⟩
  · rw [if_neg (by omega)]
    rfl
  · have hsum : u32 (0 + aBase + (n - aBase)) = n := by
      unfold u32
      omega
    show (if 0 = 0 then longLength aBase 0 read (lengthBytes (n - aBase) ++ rest) dest else _) = _
    rw [if_pos rfl, longLength_bytes aBase (by omega), hsum]

/-- The two bytes of an offset with the number of short literals in the low bits. -/
def offsetWith (o t : ℕ) : List UInt8 := [byte (o % 64 * 4 + t), byte (o / 64)]

/-- The literals behind a match are counted in the offset bytes. -/
theorem offsetBytes_or {o t : ℕ} (ht : t ≤ 3) :
    orSecondLast (offsetBytes o) t = offsetWith o t := by
  have hlow : (o &&& 63) <<< 2 ||| t = o % 64 * 4 + t := by
    rw [show o &&& 63 = o % 64 from and_field o 6, shl_field]
    exact or_field (i := 2) (by omega)
  show [byte ((o &&& 63) <<< 2) ||| byte t, byte (o >>> 6)] = [_, _]
  rw [byte_or, hlow, Nat.shiftRight_eq_div_pow]

/-- **An offset is read as it was written**, whatever is counted in it. -/
theorem Dec.offset_with (o : ℕ) {t : ℕ} (ht : t ≤ 3) (read rest dest : List UInt8) :
    Dec.offset ⟨read, offsetWith o t ++ rest, dest⟩ =
      some (o % 2 ^ 14, ⟨(offsetWith o t).reverse ++ read, rest, dest⟩) := by
  have hx : (byte (o % 64 * 4 + t)).toNat >>> 2 = o % 64 := by
    rw [byte_toNat (by omega), Nat.shiftRight_eq_div_pow]
    omega
  have hy : (byte (o / 64)).toNat <<< 6 = o / 64 % 256 * 64 := by
    rw [byte_toNat_mod, shl_field]
    omega
  have hsum : o % 64 + o / 64 % 256 * 64 = o % 2 ^ 14 := by omega
  show some ((byte (o % 64 * 4 + t)).toNat >>> 2 + (byte (o / 64)).toNat <<< 6,
    (⟨_, rest, dest⟩ : Dec)) = _
  rw [hx, hy, hsum]
  rfl

/-! ## §3. The decoder on a match. -/

/-- What a header with `t` short literals stands for: the decoder copies `mLen`
    bytes from `mOff` bytes back, and finds `t` in the last byte but one. -/
structure HeaderFor (mOff mLen t : ℕ) (header : List UInt8) : Prop where
  code : ∃ x more, header = x :: more ∧ 16 ≤ x.toNat ∧ ∀ read rest dest,
    matchCode ⟨x :: read, more ++ rest, dest⟩ x.toNat =
      (copyBack mOff mLen dest).map fun dest =>
        (.matchDone, ⟨header.reverse ++ read, rest, dest⟩)
  low : ∃ y z pre, header.reverse = y :: z :: pre ∧ z.toNat % 4 = t

/-- A match is copied back from what is written. -/
theorem Dec.copyMatch_eq (d : Dec) (off : ℕ) {mLen : ℕ} (h : 3 ≤ mLen) :
    d.copyMatch off (mLen - 2) =
      (copyBack off mLen d.dest).map fun dest => (.matchDone, { d with dest := dest }) := by
  unfold Dec.copyMatch Dec.copy
  rw [if_neg (by omega), show mLen - 2 + 2 = mLen by omega]
  cases copyBack off mLen d.dest with
  | none => rfl
  | some dest => rfl

/-- A near match of up to eight bytes. -/
theorem headerFor_near {mOff mLen t : ℕ} (h3 : 3 ≤ mLen) (h8 : mLen ≤ 8) (hoff : 0 < mOff)
    (hnear : mOff ≤ 0x800) (ht : t ≤ 3) :
    HeaderFor mOff mLen t
      [byte ((mLen - 1) * 32 + (mOff - 1) % 8 * 4 + t), byte ((mOff - 1) / 8)] := by
  have hx : (byte ((mLen - 1) * 32 + (mOff - 1) % 8 * 4 + t)).toNat =
      (mLen - 1) * 32 + (mOff - 1) % 8 * 4 + t := byte_toNat (by omega)
  have hy : (byte ((mOff - 1) / 8)).toNat = (mOff - 1) / 8 := byte_toNat (by omega)
  constructor
  · refine ⟨_, _, rfl, by omega, fun read rest dest => ?_⟩
    rw [hx]
    generalize hcode : (mLen - 1) * 32 + (mOff - 1) % 8 * 4 + t = code
    have hlow : code >>> 2 &&& 7 = (mOff - 1) % 8 := by
      rw [show code >>> 2 &&& 7 = code >>> 2 % 8 from and_field _ 3, Nat.shiftRight_eq_div_pow]
      omega
    have hlen : code >>> 5 - 1 = mLen - 2 := by
      rw [Nat.shiftRight_eq_div_pow]
      omega
    have hsum : 1 + (mOff - 1) % 8 + (byte ((mOff - 1) / 8)).toNat <<< 3 = mOff := by
      rw [hy, shl_field]
      omega
    unfold matchCode
    rw [if_pos (by omega)]
    show Dec.copyMatch ⟨_, rest, dest⟩
      (1 + (code >>> 2 &&& 7) + (byte ((mOff - 1) / 8)).toNat <<< 3) (code >>> 5 - 1) = _
    rw [hlow, hlen, hsum, Dec.copyMatch_eq _ _ h3]
    rfl
  · exact ⟨_, _, [], rfl, by omega⟩

/-- A match in the middle distance. -/
theorem headerFor_middle {mOff mLen t k : ℕ} {more : List UInt8} (h3 : 3 ≤ mLen)
    (hlong : mLen < 2 ^ 32) (hoff : 0 < mOff) (hmid : mOff ≤ 0x4000) (ht : t ≤ 3) (hk : k < 32)
    (hcode : LengthCode 31 k (mLen - 2) more) :
    HeaderFor mOff mLen t (byte (32 + k) :: (more ++ offsetWith (mOff - 1) t)) := by
  have hx : (byte (32 + k)).toNat = 32 + k := byte_toNat (by omega)
  constructor
  · refine ⟨_, _, rfl, by omega, fun read rest dest => ?_⟩
    have hlow : 32 + k &&& 31 = k := by
      rw [show 32 + k &&& 31 = (32 + k) % 32 from and_field _ 5]
      omega
    have hsum : 1 + (mOff - 1) % 2 ^ 14 = mOff := by omega
    rw [hx]
    unfold matchCode
    rw [if_neg (by omega), if_pos (by omega), hlow, List.append_assoc,
      Dec.length_code hcode (by omega)]
    show ((Dec.offset ⟨_, offsetWith (mOff - 1) t ++ rest, dest⟩).bind fun p =>
      p.2.copyMatch (1 + p.1) (mLen - 2)) = _
    rw [Dec.offset_with _ ht, Option.bind_some, hsum, Dec.copyMatch_eq _ _ h3]
    simp
  · refine ⟨byte ((mOff - 1) / 64), byte ((mOff - 1) % 64 * 4 + t),
      more.reverse ++ [byte (32 + k)], by simp [offsetWith], ?_⟩
    rw [byte_toNat (by omega)]
    omega

/-- A far match. -/
theorem headerFor_far {mOff mLen t k : ℕ} {more : List UInt8} (h3 : 3 ≤ mLen)
    (hlong : mLen < 2 ^ 32) (hfar : 0x4000 < mOff) (hoff : mOff ≤ 0xbfff) (ht : t ≤ 3) (hk : k < 8)
    (hcode : LengthCode 7 k (mLen - 2) more) :
    HeaderFor mOff mLen t
      (byte (16 + (mOff - 0x4000) / 2 ^ 14 * 8 + k) ::
        (more ++ offsetWith (mOff - 0x4000) t)) := by
  obtain ⟨o, rfl⟩ : ∃ o, mOff = o + 0x4000 := ⟨mOff - 0x4000, by omega⟩
  rw [Nat.add_sub_cancel]
  have htop : o / 2 ^ 14 ≤ 1 := by omega
  have hx : (byte (16 + o / 2 ^ 14 * 8 + k)).toNat = 16 + o / 2 ^ 14 * 8 + k :=
    byte_toNat (by omega)
  constructor
  · refine ⟨_, _, rfl, by omega, fun read rest dest => ?_⟩
    rw [hx]
    -- the low bits of the code are the length, bit 3 is the top bit of the offset
    generalize hc : 16 + o / 2 ^ 14 * 8 + k = code
    have hlow : code &&& 7 = k := by
      rw [show code &&& 7 = code % 8 from and_field _ 3]
      omega
    have hhigh : (code &&& 8) <<< 11 = o / 2 ^ 14 * 2 ^ 14 := by
      have hand : code &&& 2 ^ 3 = o / 2 ^ 14 * 2 ^ 3 := by
        rw [Nat.and_two_pow, Nat.toNat_testBit]
        omega
      rw [show code &&& 8 = o / 2 ^ 14 * 2 ^ 3 from hand, shl_field]
      omega
    have hsum : o / 2 ^ 14 * 2 ^ 14 + o % 2 ^ 14 = o := by omega
    unfold matchCode
    rw [if_neg (by omega), if_neg (by omega), if_pos (by omega), hlow, hhigh, List.append_assoc,
      Dec.length_code hcode (by omega)]
    show ((Dec.offset ⟨_, offsetWith o t ++ rest, dest⟩).bind fun p =>
      if o / 2 ^ 14 * 2 ^ 14 + p.1 = 0 then
        if mLen - 2 = 1 then some (Label.eofFound, p.2) else none
      else p.2.copyMatch (o / 2 ^ 14 * 2 ^ 14 + p.1 + 0x4000) (mLen - 2)) = _
    rw [Dec.offset_with _ ht, Option.bind_some, hsum, if_neg (by omega), Dec.copyMatch_eq _ _ h3]
    simp
  · -- the last byte but one has the number of literals in its low bits
    refine ⟨byte (o / 64), byte (o % 64 * 4 + t),
      more.reverse ++ [byte (16 + o / 2 ^ 14 * 8 + k)], by simp [offsetWith], ?_⟩
    rw [byte_toNat (by omega)]
    omega

/-- The second byte from the end lies in the last two. -/
theorem orSecondLast_append (pre : List UInt8) {dest : List UInt8} (h : 2 ≤ dest.length) (t : ℕ) :
    orSecondLast (pre ++ dest) t = pre ++ orSecondLast dest t := by
  unfold orSecondLast
  induction pre with
  | nil => rfl
  | cons a pre ih =>
    rw [List.cons_append, List.length_cons, List.length_append,
      show pre.length + dest.length + 1 - 2 = pre.length + dest.length - 2 + 1 by omega,
      List.modify_succ_cons, ← List.length_append, ih, List.cons_append]

/-- Nothing is counted with zero literals. -/
theorem orSecondLast_zero (dest : List UInt8) : orSecondLast dest 0 = dest := by
  have hid : (fun x : UInt8 => x ||| byte 0) = id := funext fun x => UInt8.or_zero
  unfold orSecondLast
  rw [hid, List.modify_id]

/-- Counting keeps the length. -/
@[simp] theorem orSecondLast_length (dest : List UInt8) (t : ℕ) :
    (orSecondLast dest t).length = dest.length := List.length_modify _ _ _

/-- In a match of several bytes the offset comes last. -/
theorem header_offset_or (x : UInt8) (more : List UInt8) (o : ℕ) {t : ℕ} (ht : t ≤ 3) :
    orSecondLast (x :: (more ++ offsetBytes o)) t = x :: (more ++ offsetWith o t) := by
  show orSecondLast ((x :: more) ++ offsetBytes o) t = (x :: more) ++ offsetWith o t
  rw [orSecondLast_append _ (show 2 ≤ (offsetBytes o).length from Nat.le_refl 2),
    offsetBytes_or ht]

/-- The code of a match at a middle distance, -/
theorem middle_code {k : ℕ} (hk : k < 32) : m3Marker ||| k = 32 + k :=
  or_field (a := 1) (i := 5) hk

/-- and of one far away. -/
theorem far_code {o k : ℕ} (ho : o < 2 ^ 15) (hk : k < 8) :
    m4Marker ||| (o &&& 0x4000) >>> 11 ||| k = 16 + o / 2 ^ 14 * 8 + k := by
  have htop : o / 2 ^ 14 ≤ 1 := by omega
  have hmark : m4Marker ||| o / 2 ^ 14 * 8 = (2 + o / 2 ^ 14) * 2 ^ 3 := by
    rw [show m4Marker = 1 * 2 ^ 4 from rfl, or_field (by omega)]
    omega
  rw [top_bit ho, hmark, or_field (by omega)]
  omega

/-- A header for the middle distance, as the coder writes it. -/
theorem middle_spec {mOff mLen k : ℕ} {more : List UInt8} (h3 : 3 ≤ mLen) (hlong : mLen < 2 ^ 32)
    (hoff : 0 < mOff) (hmid : mOff ≤ 0x4000) (hk : k < 32)
    (hcode : LengthCode 31 k (mLen - 2) more) {header : List UInt8}
    (hheader : header = byte (m3Marker ||| k) :: (more ++ offsetBytes (mOff - 1))) :
    2 ≤ header.length ∧ ∀ t, t ≤ 3 → HeaderFor mOff mLen t (orSecondLast header t) := by
  rw [hheader, middle_code hk]
  refine ⟨by simp [offsetBytes], fun t ht => ?_⟩
  rw [header_offset_or _ _ _ ht]
  exact headerFor_middle h3 hlong hoff hmid ht hk hcode

/-- A header for a far match, as the coder writes it. -/
theorem far_spec {mOff mLen k : ℕ} {more : List UInt8} (h3 : 3 ≤ mLen) (hlong : mLen < 2 ^ 32)
    (hfar : 0x4000 < mOff) (hmax : mOff ≤ 0xbfff) (hk : k < 8)
    (hcode : LengthCode 7 k (mLen - 2) more) {header : List UInt8}
    (hheader : header = byte (m4Marker ||| (mOff - 0x4000 &&& 0x4000) >>> 11 ||| k) ::
      (more ++ offsetBytes (mOff - 0x4000))) :
    2 ≤ header.length ∧ ∀ t, t ≤ 3 → HeaderFor mOff mLen t (orSecondLast header t) := by
  rw [hheader, far_code (by omega) hk]
  refine ⟨by simp [offsetBytes], fun t ht => ?_⟩
  rw [header_offset_or _ _ _ ht]
  exact headerFor_far h3 hlong hfar hmax ht hk hcode

/-- A header for a near match, as the coder writes it. -/
theorem near_spec {mOff mLen : ℕ} (h3 : 3 ≤ mLen) (h8 : mLen ≤ 8) (hoff : 0 < mOff)
    (hnear : mOff ≤ 0x800) {header : List UInt8}
    (hheader : header = [byte ((mLen - 1) <<< 5 ||| (mOff - 1 &&& 7) <<< 2),
      byte ((mOff - 1) >>> 3)]) :
    2 ≤ header.length ∧ ∀ t, t ≤ 3 → HeaderFor mOff mLen t (orSecondLast header t) := by
  rw [hheader]
  refine ⟨Nat.le_refl 2, fun t ht => ?_⟩
  have hcode : (mLen - 1) <<< 5 ||| (mOff - 1 &&& 7) <<< 2 ||| t =
      (mLen - 1) * 32 + (mOff - 1) % 8 * 4 + t := by
    rw [shl_field, shl_field, show mOff - 1 &&& 7 = (mOff - 1) % 8 from and_field _ 3,
      or_field (by omega),
      show (mLen - 1) * 2 ^ 5 + (mOff - 1) % 8 * 2 ^ 2 =
        ((mLen - 1) * 8 + (mOff - 1) % 8) * 2 ^ 2 by omega, or_field (by omega)]
    omega
  have hfor := headerFor_near h3 h8 hoff hnear ht
  rw [← hcode, ← byte_or] at hfor
  show HeaderFor mOff mLen t [_ ||| byte t, byte ((mOff - 1) >>> 3)]
  rw [Nat.shiftRight_eq_div_pow]
  exact hfor

/-- **The headers that the coder writes.** -/
theorem matchHeader_spec {mOff mLen : ℕ} (h3 : 3 ≤ mLen) (hlong : mLen < 2 ^ 32)
    (hoff : 0 < mOff) (hmax : mOff ≤ 0xbfff) : ∃ header, matchHeader mOff mLen = some header ∧
      2 ≤ header.length ∧ ∀ t, t ≤ 3 → HeaderFor mOff mLen t (orSecondLast header t) := by
  unfold matchHeader
  rw [if_neg (by omega)]
  -- the three codes of a short match, by its distance
  by_cases h8 : mLen ≤ m2MaxLen
  · have h8' : mLen ≤ 8 := h8
    rw [if_pos h8]
    by_cases hnear : mOff ≤ m2MaxOffset
    · rw [if_pos hnear]
      exact ⟨_, rfl, near_spec h3 h8' hoff hnear rfl⟩
    · rw [if_neg hnear]
      by_cases hmid : mOff ≤ m3MaxOffset
      · rw [if_pos hmid]
        exact ⟨_, rfl, middle_spec h3 hlong hoff hmid (by omega) (Or.inl ⟨rfl, by omega, rfl⟩) rfl⟩
      · have hfar : ¬ mOff ≤ 0x4000 := hmid
        rw [if_neg hmid]
        dsimp only
        rw [if_neg (by omega)]
        exact ⟨_, rfl,
          far_spec h3 hlong (by omega) hmax (by omega) (Or.inl ⟨rfl, by omega, rfl⟩) rfl⟩
  · -- a long match has the length in the header or behind it
    have h8' : ¬ mLen ≤ 8 := h8
    rw [if_neg h8]
    by_cases hmid : mOff ≤ m3MaxOffset
    · rw [if_pos hmid]
      dsimp only
      by_cases h33 : mLen ≤ 33
      · rw [if_pos h33]
        exact ⟨_, rfl, middle_spec h3 hlong hoff hmid (by omega) (Or.inl ⟨rfl, by omega, rfl⟩) rfl⟩
      · rw [if_neg h33]
        refine ⟨_, rfl, middle_spec h3 hlong hoff hmid (by decide) (Or.inr ⟨rfl, by omega, rfl⟩) ?_⟩
        rw [show mLen - 2 - 31 = mLen - 33 by omega]
    · have hfar : ¬ mOff ≤ 0x4000 := hmid
      rw [if_neg hmid]
      dsimp only
      rw [if_neg (by omega)]
      by_cases h9 : mLen ≤ m4MaxLen
      · have h9' : mLen ≤ 9 := h9
        rw [if_pos h9]
        exact ⟨_, rfl,
          far_spec h3 hlong (by omega) hmax (by omega) (Or.inl ⟨rfl, by omega, rfl⟩) rfl⟩
      · have h9' : ¬ mLen ≤ 9 := h9
        rw [if_neg h9]
        refine ⟨_, rfl,
          far_spec h3 hlong (by omega) hmax (by decide) (Or.inr ⟨rfl, by omega, rfl⟩) ?_⟩
        rw [Nat.or_zero, show mLen - 2 - 7 = mLen - m4MaxLen by
          unfold m4MaxLen
          omega]

/-! ## §4. The decoder on literals. -/

/-- **Literals are read as they were written.** -/
theorem Dec.literals_append (read lits rest dest : List UInt8) :
    Dec.literals ⟨read, lits ++ rest, dest⟩ lits.length =
      some ⟨lits.reverse ++ read, rest, dest ++ lits⟩ := by
  unfold Dec.literals
  rw [if_pos (by simp)]
  simp

/-- A match is followed by its literals and the next code. -/
theorem matchNext_code (read lits rest dest : List UInt8) (x : UInt8) :
    matchNext ⟨read, lits ++ x :: rest, dest⟩ lits.length =
      some (.code x.toNat, ⟨x :: (lits.reverse ++ read), rest, dest ++ lits⟩) := by
  unfold matchNext
  rw [Dec.literals_append]
  rfl

/-- Without literals at the front the first byte is a code. -/
theorem firstLiteralRun_code (read rest dest : List UInt8) {x : UInt8} (hx : 16 ≤ x.toNat) :
    firstLiteralRun ⟨read, x :: rest, dest⟩ =
      some (.code x.toNat, ⟨x :: read, rest, dest⟩) := by
  show (if 16 ≤ x.toNat then some (Label.code x.toNat, (⟨x :: read, rest, dest⟩ : Dec)) else _) = _
  rw [if_pos hx]

/-- A match may follow a match at once. -/
theorem outer_code (read rest dest : List UInt8) {x : UInt8} (hx : 16 ≤ x.toNat) :
    decStep ⟨read, x :: rest, dest⟩ .outer =
      some (.code x.toNat, ⟨x :: read, rest, dest⟩) := by
  show (if 16 ≤ x.toNat then some (Label.code x.toNat, (⟨x :: read, rest, dest⟩ : Dec)) else _) = _
  rw [if_pos hx]

/-- The header of a run of literals. -/
theorem runHeader_code {t : ℕ} (ht : 4 ≤ t) :
    ∃ k more, runHeader t = byte k :: more ∧ k < 16 ∧ LengthCode 15 k (t - 3) more := by
  unfold runHeader
  by_cases h18 : t ≤ 18
  · rw [if_pos h18]
    exact ⟨t - 3, [], rfl, by omega, Or.inl ⟨rfl, by omega, rfl⟩⟩
  · rw [if_neg h18]
    exact ⟨0, _, rfl, by omega,
      Or.inr ⟨rfl, by omega, by rw [show t - 3 - 15 = t - 18 by omega]⟩⟩

/-- A run of literals, up to the header behind it. -/
theorem outer_run (read rest dest : List UInt8) {lits : List UInt8} (h4 : 4 ≤ lits.length)
    (hlong : lits.length < 2 ^ 32) {x : UInt8} (hx : 16 ≤ x.toNat) :
    decStep ⟨read, runHeader lits.length ++ lits ++ x :: rest, dest⟩ .outer =
      some (.code x.toNat,
        ⟨x :: (lits.reverse ++ ((runHeader lits.length).reverse ++ read)), rest, dest ++ lits⟩) := by
  obtain ⟨k, more, hrun, hk, hcode⟩ := runHeader_code h4
  have hbyte : (byte k).toNat = k := byte_toNat (by omega)
  rw [hrun]
  show (if 16 ≤ (byte k).toNat then _ else
    (Dec.length ⟨byte k :: read, more ++ lits ++ x :: rest, dest⟩ 15 (byte k).toNat).bind fun p =>
      if p.1 = 0 then none else (p.2.literals (p.1 + 3)).bind firstLiteralRun) = _
  rw [hbyte, if_neg (by omega), List.append_assoc, Dec.length_code hcode (by omega),
    Option.bind_some]
  dsimp only
  rw [if_neg (by omega), show lits.length - 3 + 3 = lits.length by omega, Dec.literals_append,
    Option.bind_some, firstLiteralRun_code _ _ _ hx]
  simp

/-! ## §5. What is coded so far. -/

/-- Two runs in a row. -/
theorem decRun_add (m n : ℕ) (l : Label) (d : Dec) :
    decRun (m + n) l d = (decRun m l d).bind fun p => decRun n p.1 p.2 := by
  induction m generalizing l d with
  | zero =>
    rw [Nat.zero_add]
    rfl
  | succ m ih =>
    rw [show m + 1 + n = m + n + 1 by omega, decRun, decRun]
    cases decStep d l with
    | none => rfl
    | some p => exact ih p.1 p.2

/-- One step and the rest. -/
theorem decRun_succ {n : ℕ} {l l' : Label} {d d' : Dec} (h : decStep d l = some (l', d')) :
    decRun (n + 1) l d = decRun n l' d' := by
  rw [decRun, h]

/-- At the end mark nothing happens any more. -/
theorem decRun_eof (n : ℕ) (d : Dec) : decRun n .eofFound d = some (.eofFound, d) := by
  induction n with
  | zero => rfl
  | succ n ih => exact (decRun_succ rfl).trans ih

/-- A run that goes on. -/
theorem decRun_trans {m n : ℕ} {l l' : Label} {d d' : Dec} (h : decRun m l d = some (l', d')) :
    decRun (m + n) l d = decRun n l' d' := by
  rw [decRun_add, h, Option.bind_some]

/-- **Behind a match**: the first `c` bytes of the source are coded, whatever the
    number of short literals that still comes into the last header. -/
structure Coded (b : Buffer) (dest : List UInt8) (c : ℕ) : Prop where
  run : ∀ t, t ≤ 3 → ∀ rest, ∃ n, n ≤ 2 * dest.length ∧
    decRun n .start ⟨[], orSecondLast dest t ++ rest, []⟩ =
      some (.matchDone, ⟨(orSecondLast dest t).reverse, rest, b.bytes.take c⟩)
  low : ∀ t, t ≤ 3 → ∃ y z pre, (orSecondLast dest t).reverse = y :: z :: pre ∧ z.toNat % 4 = t
  long : 2 < dest.length

/-- **Before a match**: the decoder has read its first byte. -/
def Ready (b : Buffer) (dest : List UInt8) (p : ℕ) : Prop :=
  ∀ x rest, 16 ≤ UInt8.toNat x → ∃ n, n ≤ 2 * dest.length + 2 ∧
    decRun n .start ⟨[], dest ++ x :: rest, []⟩ =
      some (.code x.toNat, ⟨x :: dest.reverse, rest, b.bytes.take p⟩)

section Coder

variable {b : Buffer} {dest lits header : List UInt8} {c p mOff mLen : ℕ}

/-- After a match the counted literals decide how it goes on. -/
theorem matchDone_step {y z : UInt8} {pre rest out : List UInt8} {t : ℕ} (hz : z.toNat % 4 = t) :
    decStep ⟨y :: z :: pre, rest, out⟩ .matchDone =
      if t = 0 then some (.outer, ⟨y :: z :: pre, rest, out⟩)
      else matchNext ⟨y :: z :: pre, rest, out⟩ t := by
  have hand : z.toNat &&& 3 = t := (and_field z.toNat 2).trans hz
  show (if z.toNat &&& 3 = 0 then _ else matchNext _ (z.toNat &&& 3)) = _
  rw [hand]

/-- The literals after a match. -/
theorem Coded.literals (h : Coded b dest c) (hcp : b.bytes.take c ++ lits = b.bytes.take p)
    (hlong : lits.length < 2 ^ 32) :
    ∃ dest', putLiterals dest lits = some dest' ∧ Ready b dest' p := by
  unfold putLiterals
  dsimp only
  by_cases h0 : lits.length = 0
  · -- no literal: the next header follows
    rw [if_pos h0]
    refine ⟨dest, rfl, fun x rest hx => ?_⟩
    obtain ⟨n, hn, hrun⟩ := h.run 0 (by omega) (x :: rest)
    obtain ⟨y, z, pre, hrev, hz⟩ := h.low 0 (by omega)
    rw [List.eq_nil_of_length_eq_zero h0, List.append_nil] at hcp
    rw [orSecondLast_zero] at hrun hrev
    refine ⟨n + 2, by omega, ?_⟩
    rw [decRun_trans hrun, hrev, decRun_succ ((matchDone_step hz).trans (if_pos rfl)),
      decRun_succ (outer_code _ _ _ hx), ← hrev, hcp]
    rfl
  · rw [if_neg h0]
    by_cases h3 : lits.length ≤ 3
    · -- up to three literals: their number is in the low bits of the last match
      rw [if_pos h3, if_pos h.long]
      refine ⟨_, rfl, fun x rest hx => ?_⟩
      obtain ⟨n, hn, hrun⟩ := h.run lits.length h3 (lits ++ x :: rest)
      obtain ⟨y, z, pre, hrev, hz⟩ := h.low lits.length h3
      refine ⟨n + 1, ?_, ?_⟩
      · rw [List.length_append, orSecondLast_length]
        omega
      · rw [List.append_assoc, decRun_trans hrun, hrev,
          decRun_succ (((matchDone_step hz).trans (if_neg h0)).trans (matchNext_code _ _ _ _ _)),
          ← hrev, hcp, ← List.reverse_append]
        rfl
    · -- more: a header of their own
      rw [if_neg h3]
      refine ⟨_, rfl, fun x rest hx => ?_⟩
      obtain ⟨n, hn, hrun⟩ :=
        h.run 0 (by omega) (runHeader lits.length ++ lits ++ x :: rest)
      obtain ⟨y, z, pre, hrev, hz⟩ := h.low 0 (by omega)
      rw [orSecondLast_zero] at hrun hrev
      refine ⟨n + 2, ?_, ?_⟩
      · rw [List.length_append, List.length_append]
        omega
      · rw [List.append_assoc dest, List.append_assoc dest, decRun_trans hrun, hrev,
          decRun_succ ((matchDone_step hz).trans (if_pos rfl)),
          decRun_succ (outer_run _ _ _ (by omega) hlong hx), ← hrev, hcp, ← List.reverse_append,
          ← List.reverse_append, ← List.append_assoc]
        rfl

/-- The decoder starts on a header of less than 18 as in its loop. -/
theorem start_outer {x : UInt8} (hx : x.toNat ≤ 17) (rest : List UInt8) :
    decStep ⟨[], x :: rest, []⟩ .start = some (.outer, ⟨[], x :: rest, []⟩) := by
  show (if 17 < x.toNat then _ else _) = _
  rw [if_neg (by omega)]

/-- The literals at the start. -/
theorem ready_first (hcp : lits = b.bytes.take p) (h4 : 4 ≤ lits.length)
    (hlong : lits.length < 2 ^ 32) :
    ∃ dest', putLiterals [] lits = some dest' ∧ Ready b dest' p := by
  unfold putLiterals
  dsimp only
  rw [if_neg (by omega), if_neg (by omega), List.nil_append]
  refine ⟨_, rfl, fun x rest hx => ?_⟩
  obtain ⟨k, more, hrun, hk, -⟩ := runHeader_code h4
  have hbyte : (byte k).toNat = k := byte_toNat (by omega)
  have hstart : decStep ⟨[], runHeader lits.length ++ lits ++ x :: rest, []⟩ .start =
      some (.outer, ⟨[], runHeader lits.length ++ lits ++ x :: rest, []⟩) := by
    rw [hrun]
    exact start_outer (by omega) _
  refine ⟨2, by omega, ?_⟩
  rw [decRun_succ hstart, decRun_succ (outer_run _ _ _ h4 hlong hx), List.nil_append,
    List.append_nil, ← List.reverse_append, ← hcp]
  rfl

/-- One run of up to 238 literals for the whole source. -/
theorem ready_pure (hpos : 0 < b.bytes.length) (hle : b.bytes.length ≤ 238) :
    Ready b (byte (17 + b.bytes.length) :: b.bytes) b.bytes.length := by
  intro x rest hx
  have hbyte : (byte (17 + b.bytes.length)).toNat = 17 + b.bytes.length := byte_toNat (by omega)
  refine ⟨1, by omega, ?_⟩
  rw [decRun, List.take_length, List.cons_append]
  have hstep : decStep ⟨[], byte (17 + b.bytes.length) :: (b.bytes ++ x :: rest), []⟩ .start =
      some (.code x.toNat,
        ⟨x :: (b.bytes.reverse ++ [byte (17 + b.bytes.length)]), rest, b.bytes⟩) := by
    generalize byte (17 + b.bytes.length) = first at hbyte ⊢
    show (if 17 < first.toNat then
      if first.toNat - 17 < 4 then
        matchNext ⟨[first], b.bytes ++ x :: rest, []⟩ (first.toNat - 17)
      else (Dec.literals ⟨[first], b.bytes ++ x :: rest, []⟩ (first.toNat - 17)).bind
        firstLiteralRun
      else _) = _
    rw [hbyte, if_pos (by omega), Nat.add_sub_cancel_left, matchNext_code, Dec.literals_append,
      Option.bind_some, firstLiteralRun_code _ _ _ hx, ite_self, List.nil_append]
  rw [hstep, List.reverse_cons]
  rfl

/-- **A match is written.** -/
theorem Ready.matched (h : Ready b dest p) (hheader : ∀ t, t ≤ 3 →
    HeaderFor mOff mLen t (orSecondLast header t)) (htwo : 2 ≤ header.length)
    (hpos : 0 < dest.length) (hcopy : copyBack mOff mLen (b.bytes.take p) =
      some (b.bytes.take (p + mLen))) : Coded b (dest ++ header) (p + mLen) where
  run t ht rest := by
    obtain ⟨⟨x, more, hx, hcode, hmatch⟩, -⟩ := hheader t ht
    obtain ⟨n, hn, hrun⟩ := h x (more ++ rest) hcode
    refine ⟨n + 1, ?_, ?_⟩
    · rw [List.length_append]
      omega
    · have hsame : orSecondLast (dest ++ header) t ++ rest = dest ++ x :: (more ++ rest) := by
        rw [orSecondLast_append _ htwo, hx, List.append_assoc, List.cons_append]
      have hstep : decStep ⟨x :: dest.reverse, more ++ rest, b.bytes.take p⟩ (.code x.toNat) =
          some (.matchDone, ⟨(orSecondLast (dest ++ header) t).reverse, rest,
            b.bytes.take (p + mLen)⟩) := by
        show matchCode _ x.toNat = _
        rw [hmatch, hcopy, orSecondLast_append _ htwo, List.reverse_append]
        rfl
      rw [hsame, decRun_trans hrun, decRun_succ hstep]
      rfl
  low t ht := by
    obtain ⟨-, y, z, pre, hrev, hz⟩ := hheader t ht
    refine ⟨y, z, pre ++ dest.reverse, ?_, hz⟩
    rw [orSecondLast_append _ htwo, List.reverse_append, hrev]
    rfl
  long := by
    rw [List.length_append]
    omega

end Coder

end Altibase.Idu.Compression
