/-
  Altibase.Idu.CompressionRoundTrip
  ─────────────────────────────────
  **WHAT IS COMPRESSED CAN BE DECOMPRESSED, AND FITS INTO THE TARGET.**

  Nothing is known of the work memory: an entry may be left over from another
  buffer.  The search checks what it finds there, so a match is always a place of
  this buffer with the same bytes.

    * `Found`, `search_spec` — what the search guarantees;
    * `CodedTo`, `compressStep_spec`, `compressLoop_spec` — one round, and the loop;
    * `compress_decompress` — the round trip;
    * `compress_fits` — the bound on the compressed size.
-/

import Altibase.Idu.CompressionCode
import Mathlib.Tactic.SplitIfs

namespace Altibase.Idu.Compression

open Altibase.Lib

/-! ## §1. The search. -/

/-- **A place that a match may refer to.** -/
structure Found (b : Buffer) (p mOff : ℕ) : Prop where
  pos : 0 < mOff
  le : mOff ≤ p
  max : mOff ≤ 0xbfff
  first : b.at (p - mOff) = b.at p
  second : b.at (p - mOff + 1) = b.at (p + 1)
  third : b.at (p - mOff + 2) = b.at (p + 2)
  worth : mOff ≤ 0x800 ∨ b.at (p - mOff + 3) = b.at (p + 3)

/-- Whatever the entry is, what passes the check lies in the buffer. -/
theorem checkMpos_some {b : Buffer} {p entry mOff : ℕ} (h : checkMpos b p entry = some mOff) :
    0 < mOff ∧ mOff ≤ p ∧ mOff ≤ 0xbfff := by
  have hlow : 0xbfff ≤ b.addr := b.low
  unfold checkMpos at h
  dsimp only at h
  generalize u32 (ptrDiff (b.addr + p) entry) = off at h
  split_ifs at h with hbad
  obtain rfl : off = mOff := Option.some.inj h
  unfold m4MaxOffset ptrDiff at hbad
  omega

theorem tryIndex_some {b : Buffer} {sDict : Dict} {p dindex mOff : ℕ}
    (h : tryIndex b sDict p dindex = some (some mOff)) : Found b p mOff := by
  unfold tryIndex at h
  cases hcheck : checkMpos b p (sDict dindex) with
  | none => simp [hcheck] at h
  | some off =>
    simp only [hcheck] at h
    split_ifs at h with hworth
    unfold tryMatch at h
    split_ifs at h with hthree
    · obtain rfl : off = mOff := Option.some.inj (Option.some.inj h)
      obtain ⟨hpos, hle, hmax⟩ := checkMpos_some hcheck
      refine ⟨hpos, hle, hmax, hthree.1, hthree.2.1, hthree.2.2, ?_⟩
      rcases Bool.or_eq_true_iff.mp hworth with hnear | hfourth
      · exact Or.inl (of_decide_eq_true hnear)
      · exact Or.inr (eq_of_beq hfourth)
    · exact absurd (Option.some.inj h) (by simp)

theorem search_spec {b : Buffer} {sDict : Dict} {p mOff : ℕ}
    (h : (search b sDict p).2 = some mOff) : Found b p mOff := by
  unfold search at h
  cases hfirst : tryIndex b sDict p (dIndex1 b p) with
  | some found =>
    rw [hfirst] at h
    obtain rfl : found = some mOff := h
    exact tryIndex_some hfirst
  | none =>
    rw [hfirst] at h
    have hsecond : (tryIndex b sDict p (dIndex2 (dIndex1 b p))).getD none = some mOff := h
    cases hlast : tryIndex b sDict p (dIndex2 (dIndex1 b p)) with
    | none =>
      rw [hlast] at hsecond
      exact absurd hsecond (by simp)
    | some found =>
      rw [hlast] at hsecond
      obtain rfl : found = some mOff := hsecond
      exact tryIndex_some hlast

section Match

variable {b : Buffer} {p mOff : ℕ}

/-- The length of the match at `p`. -/
def matchLength (b : Buffer) (p mOff : ℕ) : ℕ :=
  commonLength (b.bytes.drop (p - mOff)) (b.bytes.drop p)

theorem at_drop {i k : ℕ} (h : i + k < b.bytes.length) :
    (b.bytes.drop i)[k]? = some (b.at (i + k)) := by
  unfold Buffer.at
  rw [List.getElem?_drop, List.getElem?_eq_getElem h, List.getD_eq_getElem _ _ h]

theorem matchLength_le (b : Buffer) (p mOff : ℕ) : p + matchLength b p mOff ≤ max p b.bytes.length := by
  have := commonLength_le (b.bytes.drop (p - mOff)) (b.bytes.drop p)
  rw [List.length_drop] at this
  unfold matchLength
  omega

/-- A match has three bytes, and one that is far has four. -/
theorem Found.length (h : Found b p mOff) (hp : p + 4 ≤ b.bytes.length) :
    3 ≤ matchLength b p mOff ∧ (mOff ≤ 0x800 ∨ 4 ≤ matchLength b p mOff) := by
  have hle := h.le
  have hsame : ∀ n, n ≤ 4 → (∀ k, k < n → b.at (p - mOff + k) = b.at (p + k)) →
      n ≤ matchLength b p mOff := by
    intro n hn heq
    refine le_commonLength fun k hk => ⟨b.at (p + k), ?_, at_drop (by omega)⟩
    rw [at_drop (by omega), heq k hk]
  have hthree : ∀ k, k < 3 → b.at (p - mOff + k) = b.at (p + k) := by
    intro k hk
    have hcases : k = 0 ∨ k = 1 ∨ k = 2 := by omega
    rcases hcases with rfl | rfl | rfl
    · exact h.first
    · exact h.second
    · exact h.third
  refine ⟨hsame 3 (by omega) hthree, h.worth.imp_right fun hfourth => hsame 4 (by omega) ?_⟩
  intro k hk
  by_cases hk3 : k < 3
  · exact hthree k hk3
  · obtain rfl : k = 3 := by omega
    exact hfourth

/-- **The decoder copies what the coder compared.** -/
theorem Found.copy (h : Found b p mOff) (hp : p ≤ b.bytes.length) :
    copyBack mOff (matchLength b p mOff) (b.bytes.take p) =
      some (b.bytes.take (p + matchLength b p mOff)) := by
  have hmax := matchLength_le b p mOff
  refine copyBack_take h.pos h.le (by omega) fun k hk => ?_
  have := getElem?_common hk
  rwa [List.getElem?_drop, List.getElem?_drop] at this

end Match

/-! ## §2. Sizes. -/

/-- The bytes that a run of literals needs beside the literals. -/
def runCost (t : ℕ) : ℕ := if t ≤ 3 then 0 else if t ≤ 18 then 1 else 2 + (t - 19) / 255

theorem putLiterals_length {dest lits dest' : List UInt8} (h : putLiterals dest lits = some dest') :
    dest'.length = dest.length + lits.length + runCost lits.length := by
  unfold putLiterals at h
  dsimp only at h
  unfold runCost
  split_ifs at h with h0 h3 h2
  · obtain rfl : dest = dest' := Option.some.inj h
    rw [if_pos (by omega)]
    omega
  · rw [← Option.some.inj h, if_pos h3, List.length_append, orSecondLast_length]
    rfl
  · rw [← Option.some.inj h, if_neg h3, List.length_append, List.length_append]
    unfold runHeader
    split_ifs with h18
    · rw [List.length_singleton]
      omega
    · rw [List.length_cons, lengthBytes_length (by omega)]
      omega

/-- **A match saves a byte at least.** -/
theorem matchHeader_length {mOff mLen : ℕ} {header : List UInt8}
    (h : matchHeader mOff mLen = some header) (hworth : mOff ≤ 0x800 ∨ 4 ≤ mLen) :
    header.length + 1 ≤ mLen := by
  unfold matchHeader at h
  dsimp only at h
  unfold m2MaxLen m2MaxOffset m3MaxOffset m4MaxLen at h
  split_ifs at h <;> rw [← Option.some.inj h] <;>
    simp only [List.length_cons, List.length_nil, List.length_append, offsetBytes]
  all_goals try omega
  all_goals rw [lengthBytes_length (by omega)]; omega

/-! ## §3. The loop. -/

/-- **The state of the coder**: the bytes before `sSrcCalcPtr` are coded. -/
structure CodedTo (b : Buffer) (s : Enc) : Prop where
  calc_le : s.sSrcCalcPtr ≤ s.sSrcPtr
  inside : s.sSrcPtr ≤ b.bytes.length
  size : s.sDest.length ≤ s.sSrcCalcPtr + s.sSrcCalcPtr / 16
  state : (s.sDest = [] ∧ s.sSrcCalcPtr = 0 ∧ 4 ≤ s.sSrcPtr) ∨ Coded b s.sDest s.sSrcCalcPtr

theorem take_slice (l : List UInt8) {c p : ℕ} (h : c ≤ p) :
    l.take c ++ (l.drop c).take (p - c) = l.take p := by
  rw [← List.take_add, Nat.add_sub_cancel' h]

/-- The literals up to the current place. -/
theorem CodedTo.literals {b : Buffer} {s : Enc} (h : CodedTo b s) :
    ∃ dest', putLiterals s.sDest
        ((b.bytes.drop s.sSrcCalcPtr).take (s.sSrcPtr - s.sSrcCalcPtr)) = some dest' ∧
      Ready b dest' s.sSrcPtr ∧ 0 < dest'.length ∧
      dest'.length ≤ s.sDest.length + (s.sSrcPtr - s.sSrcCalcPtr)
        + runCost (s.sSrcPtr - s.sSrcCalcPtr) := by
  have hle := h.calc_le
  have hin := h.inside
  have hshort := b.short
  have htake := take_slice b.bytes hle
  generalize hlits : (b.bytes.drop s.sSrcCalcPtr).take (s.sSrcPtr - s.sSrcCalcPtr) = lits at htake ⊢
  have hlen : lits.length = s.sSrcPtr - s.sSrcCalcPtr := by
    rw [← hlits, List.length_take, List.length_drop]
    omega
  rcases h.state with ⟨hdest, hc, h4⟩ | hcoded
  · -- the first run: at least four literals, since the search starts behind them
    rw [hc, List.take_zero, List.nil_append] at htake
    obtain ⟨dest', hput, hready⟩ := ready_first htake (by omega) (by omega)
    have hsize := putLiterals_length hput
    rw [hdest]
    rw [List.length_nil] at hsize
    exact ⟨dest', hput, hready, by omega, by rw [hsize, hlen]; exact Nat.le_refl _⟩
  · obtain ⟨dest', hput, hready⟩ := hcoded.literals htake (by omega)
    have hsize := putLiterals_length hput
    have hlong := hcoded.long
    exact ⟨dest', hput, hready, by omega, by rw [hsize, hlen]⟩

/-- **One round of the coder.** -/
theorem compressStep_spec {b : Buffer} {s : Enc} (h : CodedTo b s)
    (hp : s.sSrcPtr + 9 < b.bytes.length) :
    ∃ s', compressStep b s = some s' ∧ CodedTo b s' ∧ s.sSrcPtr < s'.sSrcPtr := by
  have hle := h.calc_le
  have hsize := h.size
  unfold compressStep
  dsimp only
  cases hsearch : (search b s.sDict s.sSrcPtr).2 with
  | none =>
    -- one more literal, which is not written yet
    refine ⟨_, rfl, ⟨by dsimp only; omega, by dsimp only; omega, hsize, ?_⟩, Nat.lt_succ_self _⟩
    exact h.state.imp_left fun hnil => ⟨hnil.1, hnil.2.1, Nat.le_succ_of_le hnil.2.2⟩
  | some mOff =>
    have hfound := search_spec hsearch
    obtain ⟨h3, hworth⟩ := hfound.length (by omega)
    have hmax := matchLength_le b s.sSrcPtr mOff
    have hshort := b.short
    obtain ⟨dest', hput, hready, hpos, hlen⟩ := h.literals
    obtain ⟨header, hhead, htwo, hfor⟩ :=
      matchHeader_spec h3 (by omega) hfound.pos hfound.max
    have hhlen := matchHeader_length hhead hworth
    have hcoded := hready.matched hfor htwo hpos (hfound.copy (by omega))
    unfold matchLength at hhead hhlen hmax h3 hcoded
    dsimp only [Option.bind_eq_bind]
    rw [hput, Option.bind_some, hhead, Option.bind_some]
    refine ⟨_, rfl, ⟨Nat.le_refl _, by dsimp only; omega, ?_, Or.inr hcoded⟩, by dsimp only; omega⟩
    -- the byte that the match saves pays for the header of the literals
    dsimp only
    rw [List.length_append]
    unfold runCost at hlen
    split_ifs at hlen <;> omega

/-- **The loop ends** at the last bytes of the buffer: each round moves on. -/
theorem compressLoop_spec {b : Buffer} (fuel : ℕ) {s : Enc} (h : CodedTo b s)
    (hp : s.sSrcPtr + 9 < b.bytes.length) (hfuel : b.bytes.length < fuel + s.sSrcPtr) :
    ∃ s', compressLoop b fuel s = some s' ∧ CodedTo b s' := by
  induction fuel generalizing s with
  | zero => omega
  | succ fuel ih =>
    obtain ⟨s', hstep, hinv, hlt⟩ := compressStep_spec h hp
    rw [compressLoop, hstep]
    dsimp only
    by_cases hend : b.bytes.length - m2MaxLen - 5 ≤ s'.sSrcPtr
    · rw [if_pos hend]
      exact ⟨s', rfl, hinv⟩
    · rw [if_neg hend]
      unfold m2MaxLen at hend
      exact ih hinv (by omega) (by omega)

/-! ## §4. The whole buffer. -/

/-- What comes before the end mark. -/
theorem putRest_spec {b : Buffer} {dest : List UInt8} {c : ℕ} (hle : c ≤ b.bytes.length)
    (hpos : 0 < b.bytes.length) (hsize : dest.length ≤ c + c / 16)
    (hstate : (dest = [] ∧ c = 0) ∨ Coded b dest c) :
    ∃ dest', putRest dest (b.bytes.drop c) = some dest' ∧ Ready b dest' b.bytes.length ∧
      dest'.length ≤ b.bytes.length + b.bytes.length / 16 + 1 := by
  have hshort := b.short
  have htake : b.bytes.take c ++ b.bytes.drop c = b.bytes.take b.bytes.length := by
    rw [List.take_append_drop, List.take_length]
  have hlen : (b.bytes.drop c).length = b.bytes.length - c := List.length_drop
  have hcost : runCost (b.bytes.length - c) ≤ (b.bytes.length - c) / 16 + 1 := by
    unfold runCost
    split_ifs <;> omega
  unfold putRest
  rcases hstate with ⟨rfl, rfl⟩ | hcoded
  · -- no match in the whole buffer
    rw [List.drop_zero, if_neg (by omega)]
    by_cases hpure : ([] : List UInt8).length = 0 ∧ b.bytes.length ≤ 238
    · rw [if_pos hpure]
      refine ⟨_, rfl, ready_pure hpos hpure.2, ?_⟩
      rw [List.length_cons]
      omega
    · rw [if_neg hpure]
      have h239 : ¬ b.bytes.length ≤ 238 := fun hle => hpure ⟨rfl, hle⟩
      obtain ⟨dest', hput, hready⟩ :=
        ready_first (b := b) (List.take_length).symm (by omega) (by omega)
      have hsize' := putLiterals_length hput
      rw [Nat.sub_zero] at hcost
      rw [List.length_nil] at hsize'
      exact ⟨dest', hput, hready, by omega⟩
  · have hlong := hcoded.long
    obtain ⟨dest', hput, hready⟩ := hcoded.literals htake (by omega)
    have hsize' := putLiterals_length hput
    rw [hlen] at hsize'
    have hrest : putRest dest (b.bytes.drop c) = some dest' := by
      unfold putRest
      by_cases h0 : (b.bytes.drop c).length = 0
      · rw [if_pos h0]
        unfold putLiterals at hput
        rwa [if_pos h0] at hput
      · rw [if_neg h0, if_neg (by omega)]
        exact hput
    exact ⟨dest', hrest, hready, by omega⟩

/-- The end mark for the decoder. -/
theorem endMark_step (read dest : List UInt8) :
    decStep ⟨read, [0, 0], dest⟩ (.code 17) = some (.eofFound, ⟨0 :: 0 :: read, [], dest⟩) := by
  show matchCode ⟨read, [0, 0], dest⟩ 17 = _
  unfold matchCode
  rw [if_neg (by decide), if_neg (by decide), if_pos (by decide)]
  have hlen : Dec.length ⟨read, [0, 0], dest⟩ 7 (17 &&& 7) = some (1, ⟨read, [0, 0], dest⟩) := rfl
  have hoff : Dec.offset ⟨read, [0, 0], dest⟩ = some (0, ⟨0 :: 0 :: read, [], dest⟩) := rfl
  dsimp only [Option.bind_eq_bind]
  rw [hlen, Option.bind_some, hoff, Option.bind_some]
  rfl

/-- The decoder stops at the end mark. -/
theorem Ready.decompress {b : Buffer} {dest : List UInt8} (h : Ready b dest b.bytes.length) :
    decompress (dest ++ endMark) = some b.bytes := by
  have hbyte : (byte (m4Marker ||| 1)).toNat = 17 := by decide
  have hmark : endMark.length = 3 := rfl
  obtain ⟨n, hn, hrun⟩ := h (byte (m4Marker ||| 1)) [0, 0] (by omega)
  rw [hbyte, List.take_length] at hrun
  obtain ⟨k, hk⟩ : ∃ k, 2 * (dest ++ endMark).length + 2 = n + (k + 1) := by
    refine ⟨2 * (dest ++ endMark).length + 2 - n - 1, ?_⟩
    rw [List.length_append, hmark]
    omega
  have hstop : decRun (2 * (dest ++ endMark).length + 2) .start ⟨[], dest ++ endMark, []⟩ =
      some (.eofFound, ⟨0 :: 0 :: byte (m4Marker ||| 1) :: dest.reverse, [], b.bytes⟩) := by
    rw [hk]
    unfold endMark
    rw [decRun_trans hrun, decRun_succ (endMark_step _ _), decRun_eof]
  unfold Compression.decompress
  rw [hstop]
  rfl

/-- What is coded when the loop ends. -/
theorem compressMain_spec (b : Buffer) (aWorkMem : Dict) : ∃ dest c sDict,
    compressMain b aWorkMem = some (dest, b.bytes.length - c, sDict) ∧ c ≤ b.bytes.length ∧
      dest.length ≤ c + c / 16 ∧ ((dest = [] ∧ c = 0) ∨ Coded b dest c) := by
  unfold compressMain
  by_cases hsmall : b.bytes.length ≤ m2MaxLen + 5
  · rw [if_pos hsmall]
    exact ⟨[], 0, aWorkMem, rfl, Nat.zero_le _, Nat.le_refl _, Or.inl ⟨rfl, rfl⟩⟩
  · rw [if_neg hsmall]
    unfold m2MaxLen at hsmall
    have hstart : CodedTo b ⟨4, 0, [], aWorkMem⟩ :=
      ⟨Nat.zero_le _, by dsimp only; omega, Nat.zero_le _, Or.inl ⟨rfl, rfl, Nat.le_refl _⟩⟩
    obtain ⟨s, hloop, hinv⟩ := compressLoop_spec b.bytes.length hstart
      (by dsimp only; omega) (by dsimp only; omega)
    have hin := hinv.inside
    have hcalc := hinv.calc_le
    refine ⟨s.sDest, s.sSrcCalcPtr, s.sDict, ?_, by omega, hinv.size,
      hinv.state.imp_left fun hnil => ⟨hnil.1, hnil.2.1⟩⟩
    unfold compressInternal
    rw [hloop]
    rfl

/-- **`compress`**: its result, how long it is, and what `decompress` makes of it. -/
theorem compress_spec (b : Buffer) {aDestLen : ℕ} (aWorkMem : Dict)
    (h : maxOutSize b.bytes.length ≤ aDestLen) :
    ∃ dest sDict, compress b aDestLen aWorkMem = some (dest, sDict) ∧
      dest.length ≤ b.bytes.length + b.bytes.length / 16 + 4 ∧
      decompress dest = some b.bytes := by
  have hmark : endMark.length = 3 := rfl
  unfold maxOutSize at h
  obtain ⟨dest, c, sDict, hmain, hle, hsize, hstate⟩ := compressMain_spec b aWorkMem
  unfold compress
  rw [hmain]
  dsimp only
  rw [if_neg (by omega), show b.bytes.length - (b.bytes.length - c) = c by omega]
  by_cases hpos : 0 < b.bytes.length
  · obtain ⟨dest', hput, hready, hlen⟩ := putRest_spec hle hpos hsize hstate
    rw [hput]
    refine ⟨dest' ++ endMark, sDict, rfl, ?_, hready.decompress⟩
    rw [List.length_append, hmark]
    omega
  · -- nothing but the end mark
    have hnil : b.bytes = [] := List.eq_nil_of_length_eq_zero (by omega)
    have hdest : dest = [] := List.eq_nil_of_length_eq_zero (by omega)
    have hend : decompress endMark = some [] := by decide
    rw [hnil, hdest, List.drop_nil]
    exact ⟨endMark, sDict, rfl, by rw [hmark]; exact Nat.le_add_left 3 1, hend⟩

/-- **The round trip.**  Whatever the work memory holds, what `compress` writes
    `decompress` turns back into the source. -/
theorem compress_decompress (b : Buffer) {aDestLen : ℕ} (aWorkMem : Dict)
    (h : maxOutSize b.bytes.length ≤ aDestLen) :
    ∃ dest sDict, compress b aDestLen aWorkMem = some (dest, sDict) ∧
      decompress dest = some b.bytes := by
  obtain ⟨dest, sDict, hrun, -, hback⟩ := compress_spec b aWorkMem h
  exact ⟨dest, sDict, hrun, hback⟩

/-- Forty equal bytes: eleven bytes and the end mark. -/
def fortyBytes : Buffer :=
  ⟨0x10000, List.replicate 40 97, by decide, by decide, by decide⟩

theorem compress_decompress_forty : ∃ dest sDict,
    compress fortyBytes (maxOutSize fortyBytes.bytes.length) (fun _ => 0x10007) =
      some (dest, sDict) ∧
      decompress dest = some fortyBytes.bytes :=
  compress_decompress fortyBytes _ (Nat.le_refl _)

example : decompress [2, 97, 97, 97, 97, 97, 32, 2, 0, 0, 17, 0, 0] =
    some (List.replicate 40 97) := by decide

/-- **The compressed form fits**: it is longer than the source by a sixteenth and
    four bytes at most. -/
theorem compress_fits (b : Buffer) {aDestLen : ℕ} (aWorkMem : Dict)
    (h : maxOutSize b.bytes.length ≤ aDestLen) :
    ∃ dest sDict, compress b aDestLen aWorkMem = some (dest, sDict) ∧
      dest.length ≤ b.bytes.length + b.bytes.length / 16 + 4 ∧ dest.length ≤ aDestLen := by
  obtain ⟨dest, sDict, hrun, hlen, -⟩ := compress_spec b aWorkMem h
  unfold maxOutSize at h
  exact ⟨dest, sDict, hrun, hlen, by omega⟩

theorem compress_fits_forty : ∃ dest sDict,
    compress fortyBytes (maxOutSize fortyBytes.bytes.length) (fun _ => 0) = some (dest, sDict) ∧
      dest.length ≤ fortyBytes.bytes.length + fortyBytes.bytes.length / 16 + 4 ∧
      dest.length ≤ maxOutSize fortyBytes.bytes.length :=
  compress_fits fortyBytes _ (Nat.le_refl _)

end Altibase.Idu.Compression
