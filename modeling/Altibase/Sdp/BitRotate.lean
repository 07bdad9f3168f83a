/-
  Altibase.Sdp.BitRotate
  ──────────────────────
  **THE SEARCH FOR A ONE BIT, WITH THE INDEX AS THE CODE KEEPS IT.**

  `findBitFromHint` keeps the index of the byte it looks at in a `UInt`, advances
  it by hand and compares it with the count in the byte steps only.  The word
  scan does not compare, so it is the memory that ends it: the index wraps when
  the first 2^32 bits do not.  `findBitFromHintRotate` searches from the hint to
  the end and then from the first bit to the hint.

  Below 2^32 the search is the one of `Sdp.Bit`, whose index is a natural number.

  Main results:
    * `findBitFromHint_toNat` — the two searches agree where a bit ends the scan;
    * `findBitFromHint_right` — the first one bit in `[hint, count)`, or none;
    * `findBitFromHintRotate_right` — the first one cyclically after the hint.
-/
import Altibase.Sdp.Bit

namespace Altibase.Sdp.BitRotate

/-! ## §1. The search. -/

/-- `SDPTB_BIT_NOT_FOUND`. -/
def bitNotFound : UInt32 := 0xFFFFFFFF

/-- `gBitIdx[b]`. -/
def bitIdx (b : UChar) : UInt32 := UInt32.ofNat (oneSearch.entry b)

/-- `SDPTB_RESULT_BIT_VAL_gBitIdx`. -/
def resultBitVal (result count : UInt32) : UInt32 :=
  if result ≥ count then bitNotFound else result

/-- The mask of the byte at `sIdx`: the hint's byte shows the bits from the hint on. -/
def maskAt (aHint sIdx : UInt32) : UChar :=
  if sIdx / 8 = aHint / 8 then 0xFF#8 <<< (aHint % 8).toNat else 0xFF#8

/-- What a byte step does: raise `return_anyway` with an answer, or go on. -/
inductive PerByte
  | found (aBitIdx : UInt32)
  | goOn (aAddr : Nat) (sIdx : UInt32)

/-- `SDPTB_BIT_FIND_PER_BYTES`. -/
def findPerBytes (aHint : UInt32) (m : Mem) (aCount : UInt32) (aAddr : Nat) (sIdx : UInt32) :
    PerByte :=
  if m aAddr ≠ 0x00#8 then
    .found (resultBitVal (sIdx + bitIdx (m aAddr &&& maskAt aHint sIdx)) aCount)
  else if sIdx + 8 ≥ aCount then
    .found bitNotFound
  else
    .goOn (aAddr + 1) (sIdx + 8)

/-- `while( sLoop-- )`. -/
def alignBytes (aHint : UInt32) (m : Mem) (aCount : UInt32) : Nat → Nat → UInt32 → PerByte
  | 0, aAddr, sIdx => .goOn aAddr sIdx
  | sLoop + 1, aAddr, sIdx =>
      match findPerBytes aHint m aCount aAddr sIdx with
      | .found r => .found r
      | .goOn aAddr' sIdx' => alignBytes aHint m aCount sLoop aAddr' sIdx'

/-- `while( *(ULong*)aAddr == 0 )`. -/
def skipULongs (m : Mem) : Nat → Nat → UInt32 → Option (Nat × UInt32)
  | 0, _, _ => none
  | fuel + 1, aAddr, sIdx =>
      if ∀ k < 8, m (aAddr + k) = 0x00#8 then
        skipULongs m fuel (aAddr + 8) (sIdx + 64)
      else
        some (aAddr, sIdx)

/-- `while( 1 )`. -/
def restBytes (aHint : UInt32) (m : Mem) (aCount : UInt32) : Nat → Nat → UInt32 → Option UInt32
  | 0, _, _ => none
  | fuel + 1, aAddr, sIdx =>
      match findPerBytes aHint m aCount aAddr sIdx with
      | .found r => some r
      | .goOn aAddr' sIdx' => restBytes aHint m aCount fuel aAddr' sIdx'

/-- Behind the hint's byte: align, skip words, then bytes. -/
def scan (aHint : UInt32) (fuel : Nat) (m : Mem) (aCount : UInt32) (aAddr : Nat) (sIdx : UInt32) :
    Option UInt32 :=
  let sTemp := aAddr % 8
  match alignBytes aHint m aCount (if sTemp ≠ 0 then 8 - sTemp else 0) aAddr sIdx with
  | .found r => some r
  | .goOn aAddr' sIdx' =>
      match skipULongs m fuel aAddr' sIdx' with
      | none => none
      | some (aAddr'', sIdx'') => restBytes aHint m aCount fuel aAddr'' sIdx''

/-- `findBitFromHint`.  `none` when the assertion on the hint fails or the memory
    does not end the loops within `fuel`. -/
def findBitFromHint (fuel : Nat) (m : Mem) (aAddr : Nat) (aCount aHint : UInt32) :
    Option UInt32 :=
  if aHint < aCount then
    let sHintInBytes := aHint / 8
    let sIdx := if aHint ≥ 8 then sHintInBytes * 8 else 0
    let aAddr' := if aHint ≥ 8 then aAddr + sHintInBytes.toNat else aAddr
    let sMask : UChar := 0xFF#8 <<< (aHint % 8).toNat
    let found :=
      -- best case
      if m aAddr' &&& sMask ≠ 0x00#8 ∨ aHint % 8 + (aCount - aHint) ≤ 8 then
        some (resultBitVal (sIdx + bitIdx (m aAddr' &&& maskAt aHint sIdx)) aCount)
      else
        scan aHint fuel m aCount (aAddr' + 1) (sIdx + 8)
    -- the double check at the end
    found.map fun r => if r ≠ bitNotFound ∧ r ≥ aCount then bitNotFound else r
  else
    none

/-- `findBit`. -/
def findBit (fuel : Nat) (m : Mem) (aAddr : Nat) (aCount : UInt32) : Option UInt32 :=
  findBitFromHint fuel m aAddr aCount 0

/-- `findBitFromHintRotate`. -/
def findBitFromHintRotate (fuel : Nat) (m : Mem) (aAddr : Nat) (aCount aHint : UInt32) :
    Option UInt32 :=
  match findBitFromHint fuel m aAddr aCount aHint with
  | none => none
  | some r =>
      if r = bitNotFound ∧ aHint > 0 then findBitFromHint fuel m aAddr aHint 0 else some r

/-! ## §2. Where the index does not wrap. -/

/-- The mask of `Sdp.Bit`. -/
def maskNat (aHint : UInt32) (i : Nat) : UChar :=
  if i / 8 = aHint.toNat / 8 then 0xFF#8 <<< (aHint.toNat % 8) else 0xFF#8

theorem maskAt_eq (aHint sIdx : UInt32) : maskAt aHint sIdx = maskNat aHint sIdx.toNat := by
  unfold maskAt maskNat
  have hiff : sIdx / 8 = aHint / 8 ↔ sIdx.toNat / 8 = aHint.toNat / 8 := by
    rw [← UInt32.toNat_inj, UInt32.toNat_div, UInt32.toNat_div]
    rfl
  have hmod : (aHint % 8).toNat = aHint.toNat % 8 := by
    rw [UInt32.toNat_mod]
    rfl
  simp only [hiff, hmod]

theorem entry_le (b : UChar) : oneSearch.entry b ≤ 8 := by
  revert b
  decide +kernel

theorem bitIdx_toNat (b : UChar) : (bitIdx b).toNat = oneSearch.entry b := by
  have hle := entry_le b
  unfold bitIdx
  rw [UInt32.toNat_ofNat']
  exact Nat.mod_eq_of_lt (by omega)

theorem resultBitVal_toNat (r c : UInt32) :
    (resultBitVal r c).toNat = oneSearch.resultBitVal r.toNat c.toNat := by
  show (if r ≥ c then bitNotFound else r).toNat =
    if r.toNat ≥ c.toNat then Sdp.bitNotFound else r.toNat
  by_cases h : r ≥ c
  · rw [if_pos h, if_pos (UInt32.le_iff_toNat_le.mp h)]
    rfl
  · rw [if_neg h, if_neg (fun hc => h (UInt32.le_iff_toNat_le.mpr hc))]

theorem add_toNat {s k : UInt32} (h : s.toNat + k.toNat < 2 ^ 32) :
    (s + k).toNat = s.toNat + k.toNat := by
  rw [UInt32.toNat_add]
  exact Nat.mod_eq_of_lt h

/-- The outcome with a natural index. -/
def PerByte.nat : PerByte → Search.PerByte
  | .found r => .found r.toNat
  | .goOn aAddr sIdx => .goOn aAddr sIdx.toNat

variable {m : Mem} {base q j : Nat} {aHint aCount sIdx : UInt32}

theorem entry_lt {b : UChar} (hb : b ≠ 0x00#8) : oneSearch.entry b < 8 :=
  (oneSearch_finds.table b hb).1

/-- One byte step.  The bit `j` is still to come, so the index stays below it. -/
theorem findPerBytes_nat (aCount : UInt32) (hs : sIdx.toNat = 8 * q) (hq : aHint.toNat / 8 < q)
    (hj : 8 * q ≤ j) (hbit : getBit m base j = true) (hlt : j < 2 ^ 32) :
    (findPerBytes aHint m aCount (base + q) sIdx).nat =
      oneSearch.findPerBytes (maskNat aHint) m aCount.toNat (base + q) (8 * q) := by
  have hmask : maskAt aHint sIdx = 0xFF#8 := by
    rw [maskAt_eq, maskNat, if_neg (by omega)]
  have hmask' : maskNat aHint (8 * q) = 0xFF#8 := by
    rw [maskNat, if_neg (by omega)]
  unfold findPerBytes Search.findPerBytes
  rw [hmask, hmask', and_full]
  by_cases hb : m (base + q) = 0x00#8
  · have hnext := next_byte oneSearch_finds hj hbit hb
    have hadd : (sIdx + 8).toNat = 8 * q + 8 := by
      rw [add_toNat, hs]
      · rfl
      · rw [hs]
        show 8 * q + 8 < 2 ^ 32
        omega
    have hcmp : sIdx + 8 ≥ aCount ↔ 8 * q + 8 ≥ aCount.toNat := by
      rw [ge_iff_le, UInt32.le_iff_toNat_le, hadd]
    rw [if_neg (not_not_intro hb),
      if_neg (show ¬ m (base + q) ≠ oneSearch.compareVal from not_not_intro hb)]
    by_cases hc : sIdx + 8 ≥ aCount
    · rw [if_pos hc, if_pos (hcmp.mp hc)]
      rfl
    · rw [if_neg hc, if_neg (fun h => hc (hcmp.mpr h))]
      show Search.PerByte.goOn _ _ = _
      rw [hadd]
  · have he := entry_lt hb
    rw [if_pos hb, if_pos (show m (base + q) ≠ oneSearch.compareVal from hb)]
    show Search.PerByte.found _ = _
    rw [resultBitVal_toNat, add_toNat, bitIdx_toNat, hs]
    rw [bitIdx_toNat, hs]
    omega

theorem add_eight_toNat (hs : sIdx.toNat = 8 * q) (hlt : 8 * (q + 1) < 2 ^ 32) :
    (sIdx + 8).toNat = 8 * (q + 1) := by
  have height : (8 : UInt32).toNat = 8 := rfl
  rw [add_toNat, hs, height]
  · rfl
  · rw [hs, height]
    omega

theorem findPerBytes_goOn {aAddr a : Nat} {s : UInt32}
    (h : findPerBytes aHint m aCount aAddr sIdx = .goOn a s) :
    m aAddr = 0x00#8 ∧ a = aAddr + 1 ∧ s = sIdx + 8 := by
  unfold findPerBytes at h
  by_cases hb : m aAddr = 0x00#8
  · rw [if_neg (not_not_intro hb)] at h
    split at h
    · cases h
    · cases h
      exact ⟨hb, rfl, rfl⟩
  · rw [if_pos hb] at h
    cases h

/-- The loop stands at the byte `q`, before the bit `j`. -/
structure Before (base j q a : Nat) (s : UInt32) : Prop where
  addr : a = base + q
  idx : s.toNat = 8 * q
  le : 8 * q ≤ j

theorem Before.byte {a a' : Nat} {s s' : UInt32} (h : Before base j q a s)
    (hbit : getBit m base j = true) (hlt : j < 2 ^ 32)
    (hstep : findPerBytes aHint m aCount a s = .goOn a' s') : Before base j (q + 1) a' s' := by
  obtain ⟨hb, rfl, rfl⟩ := findPerBytes_goOn hstep
  have hnext := next_byte oneSearch_finds h.le hbit (h.addr ▸ hb)
  exact ⟨by rw [h.addr]; rfl, add_eight_toNat h.idx (by omega), hnext⟩

theorem alignBytes_nat (aCount : UInt32) (hbit : getBit m base j = true) (hlt : j < 2 ^ 32)
    (n : Nat) :
    ∀ {q a s}, Before base j q a s → aHint.toNat / 8 < q →
      (alignBytes aHint m aCount n a s).nat =
          oneSearch.alignBytes (maskNat aHint) m aCount.toNat n (base + q) (8 * q) ∧
        ∀ a' s', alignBytes aHint m aCount n a s = .goOn a' s' →
          ∃ q', q ≤ q' ∧ Before base j q' a' s' := by
  induction n with
  | zero =>
    intro q a s h hq
    refine ⟨?_, fun a' s' heq => ?_⟩
    · show Search.PerByte.goOn a s.toNat = _
      rw [h.addr, h.idx]
      rfl
    · cases heq
      exact ⟨q, le_rfl, h⟩
  | succ n ih =>
    intro q a s h hq
    have hstep := findPerBytes_nat aCount h.idx hq h.le hbit hlt
    unfold alignBytes Search.alignBytes
    rw [← hstep, ← h.addr]
    cases hres : findPerBytes aHint m aCount a s with
    | found r => exact ⟨rfl, fun a' s' heq => by cases heq⟩
    | goOn a' s' =>
      have hnext := h.byte hbit hlt hres
      obtain ⟨heq, hgo⟩ := ih hnext (by omega)
      refine ⟨?_, fun a'' s'' hres' => ?_⟩
      · show (alignBytes aHint m aCount n a' s').nat =
          oneSearch.alignBytes (maskNat aHint) m aCount.toNat n a' s'.toNat
        rw [heq, hnext.addr, hnext.idx]
      · obtain ⟨q', hle, hb⟩ := hgo a'' s'' hres'
        exact ⟨q', by omega, hb⟩

/-- A word without a one bit lies before the bit `j`. -/
theorem Before.word {a : Nat} {s : UInt32} (h : Before base j q a s)
    (hbit : getBit m base j = true) (hlt : j < 2 ^ 32) (hw : ∀ k < 8, m (a + k) = 0x00#8) :
    Before base j (q + 8) (a + 8) (s + 64) := by
  have hstep : ∀ n ≤ 8, 8 * (q + n) ≤ j := by
    intro n hn
    induction n with
    | zero => exact h.le
    | succ n ih =>
      refine next_byte oneSearch_finds (ih (by omega)) hbit ?_
      have hbyte := hw n (by omega)
      rwa [h.addr, Nat.add_assoc] at hbyte
  have hle := hstep 8 le_rfl
  have hk : (64 : UInt32).toNat = 64 := rfl
  refine ⟨by rw [h.addr, Nat.add_assoc], ?_, hle⟩
  rw [add_toNat, h.idx, hk]
  · omega
  · rw [h.idx, hk]
    omega

theorem skipULongs_nat (hbit : getBit m base j = true) (hlt : j < 2 ^ 32) (fuel : Nat) :
    ∀ {q a s}, Before base j q a s →
      (skipULongs m fuel a s).map (fun p => (p.1, p.2.toNat)) =
          oneSearch.skipULongs m fuel (base + q) (8 * q) ∧
        ∀ p, skipULongs m fuel a s = some p → ∃ q', q ≤ q' ∧ Before base j q' p.1 p.2 := by
  induction fuel with
  | zero => exact fun _ => ⟨rfl, fun p heq => nomatch heq⟩
  | succ fuel ih =>
    intro q a s h
    unfold skipULongs Search.skipULongs
    rw [← h.addr]
    by_cases hw : ∀ k < 8, m (a + k) = 0x00#8
    · have hnext := h.word hbit hlt hw
      obtain ⟨heq, hgo⟩ := ih hnext
      rw [if_pos hw, if_pos (show ∀ k < 8, m (a + k) = oneSearch.compareVal from hw), heq]
      refine ⟨by rw [← hnext.addr]; rfl, fun p hp => ?_⟩
      obtain ⟨q', hle, hb⟩ := hgo p hp
      exact ⟨q', by omega, hb⟩
    · rw [if_neg hw, if_neg (show ¬ ∀ k < 8, m (a + k) = oneSearch.compareVal from hw)]
      refine ⟨by rw [Option.map_some, h.idx], fun p hp => ?_⟩
      cases hp
      exact ⟨q, le_rfl, h⟩

theorem restBytes_nat (hbit : getBit m base j = true) (hlt : j < 2 ^ 32) (fuel : Nat) :
    ∀ {q a s}, Before base j q a s → aHint.toNat / 8 < q →
      (restBytes aHint m aCount fuel a s).map (·.toNat) =
        oneSearch.restBytes (maskNat aHint) m aCount.toNat fuel (base + q) (8 * q) := by
  induction fuel with
  | zero => exact fun _ _ => rfl
  | succ fuel ih =>
    intro q a s h hq
    have hstep := findPerBytes_nat aCount h.idx hq h.le hbit hlt
    unfold restBytes Search.restBytes
    rw [← hstep, ← h.addr]
    cases hres : findPerBytes aHint m aCount a s with
    | found r => rfl
    | goOn a' s' =>
      have hnext := h.byte hbit hlt hres
      show (restBytes aHint m aCount fuel a' s').map (·.toNat) =
        oneSearch.restBytes (maskNat aHint) m aCount.toNat fuel a' s'.toNat
      rw [ih hnext (by omega), hnext.addr, hnext.idx]

/-- The scan, from behind the hint's byte. -/
theorem scan_nat (aHint aCount : UInt32) (hbit : getBit m base j = true) (hlt : j < 2 ^ 32)
    (fuel : Nat) {a : Nat} {s : UInt32} (h : Before base j q a s) (hq : aHint.toNat / 8 < q) :
    (scan aHint fuel m aCount a s).map (·.toNat) =
      oneSearch.scan (maskNat aHint) fuel m aCount.toNat (base + q) (8 * q) := by
  obtain ⟨halign, hgo⟩ := alignBytes_nat aCount hbit hlt
    (if a % 8 ≠ 0 then 8 - a % 8 else 0) h hq
  unfold scan Search.scan
  dsimp only
  rw [← h.addr] at halign ⊢
  rw [← halign]
  cases hres : alignBytes aHint m aCount (if a % 8 ≠ 0 then 8 - a % 8 else 0) a s with
  | found r => rfl
  | goOn a' s' =>
    obtain ⟨q', hle, hb⟩ := hgo a' s' hres
    obtain ⟨hskip, hgo'⟩ := skipULongs_nat hbit hlt fuel hb
    dsimp only [PerByte.nat]
    rw [show oneSearch.skipULongs m fuel a' s'.toNat =
      oneSearch.skipULongs m fuel (base + q') (8 * q') by rw [hb.addr, hb.idx], ← hskip]
    cases hres' : skipULongs m fuel a' s' with
    | none => rfl
    | some p =>
      obtain ⟨q'', hle', hb'⟩ := hgo' p hres'
      show (restBytes aHint m aCount fuel p.1 p.2).map (·.toNat) =
        oneSearch.restBytes (maskNat aHint) m aCount.toNat fuel p.1 p.2.toNat
      rw [restBytes_nat hbit hlt fuel hb' (by omega), hb'.addr, hb'.idx]

/-- The double check at the end. -/
theorem doubleCheck_toNat (aCount r : UInt32) :
    (if r ≠ bitNotFound ∧ r ≥ aCount then bitNotFound else r).toNat =
      if r.toNat ≠ Sdp.bitNotFound ∧ r.toNat ≥ aCount.toNat then Sdp.bitNotFound else r.toNat := by
  have hiff : (r ≠ bitNotFound ∧ r ≥ aCount) ↔
      (r.toNat ≠ Sdp.bitNotFound ∧ r.toNat ≥ aCount.toNat) :=
    and_congr (not_congr UInt32.toNat_inj.symm) UInt32.le_iff_toNat_le
  by_cases h : r ≠ bitNotFound ∧ r ≥ aCount
  · rw [if_pos h, if_pos (hiff.mp h)]
    rfl
  · rw [if_neg h, if_neg (fun hc => h (hiff.mpr hc))]

/-- **The search with its 32-bit index is the one with a natural index**, where a
    one bit from the hint on ends it below 2^32. -/
theorem findBitFromHint_toNat (aCount : UInt32) (fuel : Nat) (hj : aHint.toNat ≤ j)
    (hlt : j < 2 ^ 32) (hbit : getBit m base j = true) :
    (findBitFromHint fuel m base aCount aHint).map (·.toNat) =
      Sdp.findBitFromHint fuel m base aCount.toNat aHint.toNat := by
  unfold findBitFromHint Sdp.findBitFromHint
  by_cases hhint : aHint < aCount
  · have hhint' := UInt32.lt_iff_toNat_lt.mp hhint
    rw [if_pos hhint, if_pos hhint']
    have height : (8 : UInt32).toNat = 8 := rfl
    have hdiv : (aHint / 8).toNat = aHint.toNat / 8 := UInt32.toNat_div _ _
    have hge : aHint ≥ 8 ↔ aHint.toNat ≥ 8 := UInt32.le_iff_toNat_le
    have hhi := aHint.toNat_lt
    -- the index of the hint's byte
    have hidx : (if aHint ≥ 8 then aHint / 8 * 8 else 0).toNat = 8 * (aHint.toNat / 8) := by
      by_cases h : aHint ≥ 8
      · rw [if_pos h, UInt32.toNat_mul, hdiv, height, Nat.mod_eq_of_lt (by omega)]
        omega
      · rw [if_neg h]
        have hsmall : ¬ aHint.toNat ≥ 8 := fun hc => h (hge.mpr hc)
        show 0 = _
        omega
    have hidx' : (if aHint.toNat ≥ 8 then aHint.toNat / 8 * 8 else 0) =
        8 * (aHint.toNat / 8) := by
      split <;> omega
    have haddr : (if aHint ≥ 8 then base + (aHint / 8).toNat else base) =
        base + aHint.toNat / 8 := by
      rw [hdiv]
      by_cases h : aHint ≥ 8
      · rw [if_pos h]
      · have hsmall : ¬ aHint.toNat ≥ 8 := fun hc => h (hge.mpr hc)
        rw [if_neg h]
        omega
    have haddr' : (if aHint.toNat ≥ 8 then base + aHint.toNat / 8 else base) =
        base + aHint.toNat / 8 := by
      split <;> omega
    have hmod : (aHint % 8).toNat = aHint.toNat % 8 := UInt32.toNat_mod _ _
    have hshort : aHint % 8 + (aCount - aHint) ≤ 8 ↔
        aHint.toNat % 8 + (aCount.toNat - aHint.toNat) ≤ 8 := by
      have hc := aCount.toNat_lt
      have hsub := UInt32.toNat_sub_of_le _ _ (UInt32.le_of_lt hhint)
      rw [UInt32.le_iff_toNat_le, add_toNat (by rw [hmod, hsub]; omega), hmod, hsub]
      rfl
    dsimp only
    generalize (if aHint ≥ 8 then aHint / 8 * 8 else 0) = sIdx at hidx ⊢
    rw [hidx', haddr, haddr', hmod]
    simp only [hshort]
    have hmask : ∀ i, (if i / 8 = aHint.toNat / 8 then 0xFF#8 <<< (aHint.toNat % 8) else 0xFF#8) =
        maskNat aHint i := fun _ => rfl
    have hhere : maskNat aHint (8 * (aHint.toNat / 8)) = 0xFF#8 <<< (aHint.toNat % 8) := by
      rw [maskNat, if_pos (by omega)]
    simp only [hmask, maskAt_eq, hidx, hhere]
    -- with no bit in the hint's byte, the bit `j` lies behind it
    have hbehind : m (base + aHint.toNat / 8) &&& 0xFF#8 <<< (aHint.toNat % 8) = 0x00#8 →
        8 * (aHint.toNat / 8 + 1) ≤ j := by
      intro hb
      by_contra hno
      have hk : j - 8 * (aHint.toNat / 8) < 8 := by omega
      have hzero : (m (base + aHint.toNat / 8) &&& 0xFF#8 <<< (aHint.toNat % 8)).getLsbD
          (j - 8 * (aHint.toNat / 8)) = false := by rw [hb, BitVec.getLsbD_zero]
      rw [BitVec.getLsbD_and, getLsbD_mask _ _ hk, ← getBit_byte m base _ _ hk,
        show 8 * (aHint.toNat / 8) + (j - 8 * (aHint.toNat / 8)) = j by omega, hbit,
        decide_eq_true (by omega)] at hzero
      cases hzero
    split
    · -- best case
      rw [Option.map_some, Option.map_some, Option.map_some, doubleCheck_toNat,
        resultBitVal_toNat, add_toNat, bitIdx_toNat, hidx]
      rw [bitIdx_toNat, hidx]
      have hle := entry_le (m (base + aHint.toNat / 8) &&& 0xFF#8 <<< (aHint.toNat % 8))
      by_cases hb : m (base + aHint.toNat / 8) &&& 0xFF#8 <<< (aHint.toNat % 8) = 0x00#8
      · have hnext := hbehind hb
        omega
      · have hltEntry := entry_lt hb
        omega
    · rename_i hscan
      have hb : m (base + aHint.toNat / 8) &&& 0xFF#8 <<< (aHint.toNat % 8) = 0x00#8 :=
        not_not.mp fun h => hscan (Or.inl h)
      have hnext := hbehind hb
      have hbefore : Before base j (aHint.toNat / 8 + 1) (base + aHint.toNat / 8 + 1)
          (sIdx + 8) :=
        ⟨rfl, add_eight_toNat hidx (by omega), hnext⟩
      have hsame := scan_nat aHint aCount hbit hlt fuel hbefore (by omega)
      rw [Option.map_map, show base + aHint.toNat / 8 + 1 = base + (aHint.toNat / 8 + 1) from rfl,
        show 8 * (aHint.toNat / 8) + 8 = 8 * (aHint.toNat / 8 + 1) from rfl, ← hsame,
        Option.map_map]
      congr 1
      funext r
      exact doubleCheck_toNat aCount r
  · rw [if_neg hhint, if_neg (fun h => hhint (UInt32.lt_iff_toNat_lt.mpr h))]
    rfl

/-! ## §3. What the two searches find. -/

/-- **The word scan stops** at a one bit from the hint on, before the index wraps. -/
def ScanStops (m : Mem) (aAddr : Nat) (aHint : UInt32) : Prop :=
  ∃ j, aHint.toNat ≤ j ∧ j < 2 ^ 32 ∧ getBit m aAddr j = true

/-- All bits in `[lo, hi)` are zero. -/
def Zeros (m : Mem) (aAddr : Nat) (lo hi : UInt32) : Prop :=
  Passed m aAddr true lo.toNat hi.toNat

/-- `r` is the first one bit in `[aHint, aCount)`, or there is none. -/
structure FoundFrom (m : Mem) (aAddr : Nat) (aCount aHint r : UInt32) : Prop where
  none_iff : r = bitNotFound ↔ Zeros m aAddr aHint aCount
  first : r ≠ bitNotFound →
    aHint ≤ r ∧ r < aCount ∧ getBit m aAddr r.toNat = true ∧ Zeros m aAddr aHint r

/-- `r` is the first one bit below `aCount`, from the hint on and then from the
    first bit on, or there is none. -/
structure FoundCyclic (m : Mem) (aAddr : Nat) (aCount aHint r : UInt32) : Prop where
  none_iff : r = bitNotFound ↔ Zeros m aAddr 0 aCount
  first : r ≠ bitNotFound → r < aCount ∧ getBit m aAddr r.toNat = true ∧
    ((aHint ≤ r ∧ Zeros m aAddr aHint r) ∨
      (r < aHint ∧ Zeros m aAddr aHint aCount ∧ Zeros m aAddr 0 r))

theorem FoundFrom.of_answer {r : UInt32} {a : Nat}
    (h : BitAnswer m a aHint.toNat aCount.toNat r.toNat) : FoundFrom m a aCount aHint r := by
  have hne_iff : r ≠ bitNotFound ↔ r.toNat ≠ Sdp.bitNotFound := not_congr UInt32.toNat_inj.symm
  have hc := aCount.toNat_lt
  rcases h with ⟨hlt, hfirst⟩ | ⟨heq, hpass⟩
  · have hne : r ≠ bitNotFound := by
      rw [hne_iff]
      show r.toNat ≠ 0xFFFFFFFF
      omega
    refine ⟨⟨fun h => absurd h hne, fun hz => ?_⟩, fun _ => ?_⟩
    · have hoff := hz r.toNat hfirst.le hlt
      rw [hfirst.bit] at hoff
      cases hoff
    · exact ⟨UInt32.le_iff_toNat_le.mpr hfirst.le, UInt32.lt_iff_toNat_lt.mpr hlt, hfirst.bit,
        hfirst.passed⟩
  · have hr : r = bitNotFound := UInt32.toNat_inj.mp heq
    exact ⟨⟨fun _ => hpass, fun _ => hr⟩, fun hne => absurd hr hne⟩

/-- **`findBitFromHint`**, with the fuel that any 32-bit scan needs. -/
theorem findBitFromHint_right {fuel : Nat} {aAddr : Nat} (hhint : aHint < aCount)
    (hstop : ScanStops m aAddr aHint) (hfuel : 2 ^ 29 ≤ fuel) :
    ∃ r, findBitFromHint fuel m aAddr aCount aHint = some r ∧
      FoundFrom m aAddr aCount aHint r := by
  obtain ⟨j, hj, hlt, hbit⟩ := hstop
  have hsame := findBitFromHint_toNat aCount fuel hj hlt hbit
  have hspec := @findBitFromHint_spec m aAddr aCount.toNat fuel aHint.toNat
  have hsome := hspec.2 j (UInt32.lt_iff_toNat_lt.mp hhint) hj hbit (by omega)
  rw [← hsame, Option.isSome_map] at hsome
  obtain ⟨r, hr⟩ := Option.isSome_iff_exists.mp hsome
  refine ⟨r, hr, FoundFrom.of_answer (hspec.1 r.toNat ?_)⟩
  rw [← hsame, hr]
  rfl

theorem Zeros.append {lo mid hi : UInt32} {a : Nat} (h : Zeros m a lo mid)
    (h' : Zeros m a mid hi) : Zeros m a lo hi := by
  intro k hlo hhi
  by_cases hk : k < mid.toNat
  · exact h k hlo hk
  · exact h' k (by omega) hhi

theorem FoundFrom.cyclic {r : UInt32} {a : Nat} (h : FoundFrom m a aCount aHint r)
    (hend : r ≠ bitNotFound ∨ aHint = 0) : FoundCyclic m a aCount aHint r := by
  refine ⟨⟨fun hr => ?_, fun hz => ?_⟩, fun hne => ?_⟩
  · obtain rfl := hend.resolve_left (not_not_intro hr)
    exact h.none_iff.mp hr
  · refine h.none_iff.mpr fun k hlo hhi => hz k ?_ hhi
    exact Nat.zero_le k
  · obtain ⟨hle, hlt, hbit, hzeros⟩ := h.first hne
    exact ⟨hlt, hbit, .inl ⟨hle, hzeros⟩⟩

/-- Nothing from the hint on, so the answer is that of the bits before it. -/
theorem FoundFrom.wrap {r : UInt32} {a : Nat} (hzeros : Zeros m a aHint aCount)
    (hhint : aHint < aCount) (h : FoundFrom m a aHint 0 r) : FoundCyclic m a aCount aHint r := by
  refine ⟨⟨fun hr => (h.none_iff.mp hr).append hzeros, fun hz => ?_⟩, fun hne => ?_⟩
  · refine h.none_iff.mpr fun k hlo hhi => hz k hlo ?_
    have hlt := UInt32.lt_iff_toNat_lt.mp hhint
    omega
  · obtain ⟨-, hlt, hbit, hz⟩ := h.first hne
    exact ⟨UInt32.lt_trans hlt hhint, hbit, .inr ⟨hlt, hzeros, hz⟩⟩

/-- **`findBitFromHintRotate`.** -/
theorem findBitFromHintRotate_right {fuel : Nat} {aAddr : Nat} (hhint : aHint < aCount)
    (hstop : ScanStops m aAddr aHint) (hfuel : 2 ^ 29 ≤ fuel) :
    ∃ r, findBitFromHintRotate fuel m aAddr aCount aHint = some r ∧
      FoundCyclic m aAddr aCount aHint r := by
  obtain ⟨r, hr, hfound⟩ := findBitFromHint_right hhint hstop hfuel
  unfold findBitFromHintRotate
  rw [hr]
  by_cases hwrap : r = bitNotFound ∧ aHint > 0
  · have hstop0 : ScanStops m aAddr 0 := by
      obtain ⟨j, -, hlt, hbit⟩ := hstop
      exact ⟨j, Nat.zero_le j, hlt, hbit⟩
    obtain ⟨r', hr', hfound'⟩ := findBitFromHint_right hwrap.2 hstop0 hfuel
    refine ⟨r', ?_, hfound'.wrap (hfound.none_iff.mp hwrap.1) hhint⟩
    show (if r = bitNotFound ∧ aHint > 0 then _ else _) = _
    rw [if_pos hwrap, hr']
  · refine ⟨r, ?_, hfound.cyclic ?_⟩
    · show (if r = bitNotFound ∧ aHint > 0 then _ else _) = _
      rw [if_neg hwrap]
    · by_cases hne : r = bitNotFound
      · refine .inr (UInt32.toNat_inj.mp ?_)
        have hzero : ¬ aHint > 0 := fun hpos => hwrap ⟨hne, hpos⟩
        have hnat : ¬ 0 < aHint.toNat := fun hpos => hzero (UInt32.lt_iff_toNat_lt.mpr hpos)
        show aHint.toNat = 0
        omega
      · exact .inl hne

/-- **Both searches are right** for any bits, any alignment, any count and any hint,
    where a one bit stops the scan before its index wraps. -/
theorem searches_right (m : Mem) (aAddr : Nat) (aCount aHint : UInt32) (hhint : aHint < aCount)
    (hstop : ScanStops m aAddr aHint) (fuel : Nat) (hfuel : 2 ^ 29 ≤ fuel) :
    (∃ r, findBitFromHint fuel m aAddr aCount aHint = some r ∧
        FoundFrom m aAddr aCount aHint r) ∧
      ∃ r, findBitFromHintRotate fuel m aAddr aCount aHint = some r ∧
        FoundCyclic m aAddr aCount aHint r :=
  ⟨findBitFromHint_right hhint hstop hfuel, findBitFromHintRotate_right hhint hstop hfuel⟩

/-- One bit of the first byte, before the hint, and one behind the count. -/
theorem searches_right_two_bits :
    ∃ r, findBitFromHintRotate (2 ^ 29) (fun a => if a = 3 ∨ a = 40 then 0x10#8 else 0#8) 3 90 5 =
        some r ∧ FoundCyclic (fun a => if a = 3 ∨ a = 40 then 0x10#8 else 0#8) 3 90 5 r :=
  (searches_right _ 3 90 5 (by decide) ⟨300, by decide, by decide, by decide⟩ (2 ^ 29) le_rfl).2

/-- 2^32 zero bits, then ones. -/
def farMem : Mem := fun a => if a < 2 ^ 29 then 0x00#8 else 0xFF#8

/-- **The last byte of the index range.**  The table entry of a zero byte carries the
    index to 0, which is below the count. -/
theorem findBitFromHint_wraps (fuel : Nat) :
    findBitFromHint fuel farMem 0 0xFFFFFFFF 0xFFFFFFF8 = some 0 := by
  rfl

/-- A later word that is not zero does not suffice. -/
theorem searches_wrong :
    ¬ ∀ (m : Mem) (aAddr : Nat) (aCount aHint : UInt32), aHint < aCount →
      (∃ j, aHint.toNat ≤ j ∧ getBit m aAddr j = true) →
      ∃ enough, ∀ fuel, enough ≤ fuel →
        ∃ r, findBitFromHint fuel m aAddr aCount aHint = some r ∧
          FoundFrom m aAddr aCount aHint r := by
  intro h
  obtain ⟨enough, hall⟩ := h farMem 0 0xFFFFFFFF 0xFFFFFFF8 (by decide)
    ⟨2 ^ 32, by decide, by decide +kernel⟩
  obtain ⟨r, hr, hfound⟩ := hall enough le_rfl
  rw [findBitFromHint_wraps] at hr
  cases hr
  exact absurd (hfound.first (by decide)).1 (by decide)

end Altibase.Sdp.BitRotate
