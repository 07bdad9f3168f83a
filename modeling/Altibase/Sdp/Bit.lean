/-
  Altibase.Sdp.Bit
  ────────────────
  **BITMAPS IN PAGE MEMORY AND THEIR SEARCH.**

  `sdptbBit` sets, clears and reads single bits of a byte memory, and searches
  it for the first bit of one value from a hint on.  A search looks at the byte of
  the hint, then at bytes up to an eight byte boundary, then skips whole words
  without a bound check, and ends byte by byte.  Only the search for a one bit
  compares its answer with the number of bits: the search for a zero bit looks at
  the whole byte of the hint and trusts its caller that there is one.

  An index is a natural number here and a `UInt` in the source.  The word scan is
  not bounded by the count, so the two differ where it passes `2 ^ 32` bits; the
  bitmaps that are searched here stop it earlier, and `Sdp.BitRotate` has the
  index as the code keeps it.

  Main results:
    * `getBit_setBit`, `getBit_clearBit` — what a write does to every bit;
    * `findZeroBitFromHint_spec` — the first zero bit from the hint's byte on;
    * `findBitFromHint_spec` — the first one bit from the hint on, or none.
-/
import Mathlib.Logic.Function.Basic
import Mathlib.Data.Nat.Count

namespace Altibase.Sdp

/-! ## §1. Single bits. -/

/-- `UChar`. -/
abbrev UChar := BitVec 8

/-- Byte memory, by address. -/
abbrev Mem := Nat → UChar

/-- `setBit`: the bit `aIndex` from the address `aAddr` on. -/
def setBit (m : Mem) (aAddr aIndex : Nat) : Mem :=
  Function.update m (aAddr + aIndex / 8) (m (aAddr + aIndex / 8) ||| (1#8 <<< (aIndex % 8)))

/-- `clearBit`. -/
def clearBit (m : Mem) (aAddr aIndex : Nat) : Mem :=
  Function.update m (aAddr + aIndex / 8) (m (aAddr + aIndex / 8) &&& ~~~(1#8 <<< (aIndex % 8)))

/-- `getBit`. -/
def getBit (m : Mem) (aAddr aIndex : Nat) : Bool :=
  (m (aAddr + aIndex / 8) &&& (1#8 <<< (aIndex % 8))) != 0#8

theorem getLsbD_bit (k l : Nat) (hl : l < 8) : (1#8 <<< k).getLsbD l = decide (l = k) := by
  rw [BitVec.getLsbD_shiftLeft, BitVec.getLsbD_one]
  by_cases h : l = k
  · simp [h, show k < 8 by omega]
  · by_cases h' : l < k
    · simp [h, h']
    · simp [h, h', show ¬ l - k = 0 by omega]

theorem and_bit_ne_zero (b : UChar) (k : Nat) (hk : k < 8) :
    ((b &&& (1#8 <<< k)) != 0#8) = b.getLsbD k := by
  rw [← BitVec.twoPow_eq, BitVec.and_twoPow]
  have hne : BitVec.twoPow 8 k ≠ 0#8 := by
    intro h
    have hbit : (BitVec.twoPow 8 k).getLsbD k = (0#8).getLsbD k := by rw [h]
    rw [BitVec.getLsbD_twoPow, BitVec.getLsbD_zero] at hbit
    simp [hk] at hbit
  cases b.getLsbD k <;> simp [hne]

/-- A bit of the memory is a bit of its byte. -/
theorem getBit_eq (m : Mem) (a i : Nat) : getBit m a i = (m (a + i / 8)).getLsbD (i % 8) :=
  and_bit_ne_zero _ _ (Nat.mod_lt _ (by decide))

/-- The bits of one byte. -/
theorem getBit_byte (m : Mem) (a q k : Nat) (hk : k < 8) :
    getBit m a (8 * q + k) = (m (a + q)).getLsbD k := by
  rw [getBit_eq, show (8 * q + k) / 8 = q by omega, show (8 * q + k) % 8 = k by omega]

theorem getBit_setBit (m : Mem) (a i j : Nat) :
    getBit (setBit m a i) a j = (decide (j = i) || getBit m a j) := by
  rw [getBit_eq, getBit_eq, setBit]
  by_cases hbyte : j / 8 = i / 8
  · have hb := getLsbD_bit (i % 8) (j % 8) (Nat.mod_lt _ (by decide))
    rw [hbyte, Function.update_self, BitVec.getLsbD_or, hb, Bool.or_comm]
    congr 1
    have hji : j % 8 = i % 8 ↔ j = i := by omega
    simp [hji]
  · have hne : a + j / 8 ≠ a + i / 8 := by omega
    have hji : j ≠ i := fun h => hbyte (by rw [h])
    rw [Function.update_of_ne hne]
    simp [hji]

theorem getBit_clearBit (m : Mem) (a i j : Nat) :
    getBit (clearBit m a i) a j = (decide (j ≠ i) && getBit m a j) := by
  rw [getBit_eq, getBit_eq, clearBit]
  by_cases hbyte : j / 8 = i / 8
  · have hj8 : j % 8 < 8 := Nat.mod_lt _ (by decide)
    have hb := getLsbD_bit (i % 8) (j % 8) hj8
    rw [hbyte, Function.update_self, BitVec.getLsbD_and, BitVec.getLsbD_not, hb, Bool.and_comm]
    congr 1
    have hji : j % 8 = i % 8 ↔ j = i := by omega
    simp [hj8, hji]
  · have hne : a + j / 8 ≠ a + i / 8 := by omega
    have hji : j ≠ i := fun h => hbyte (by rw [h])
    rw [Function.update_of_ne hne]
    simp [hji]

/-! ## §2. The searches. -/

/-- `SDPTB_BIT_NOT_FOUND`. -/
def bitNotFound : Nat := 0xFFFFFFFF

/-- `gZeroBitIdx`: the lowest zero bit of a byte.  255 does not come in. -/
def gZeroBitIdx : List Nat :=
  [0, 1, 0, 2, 0, 1, 0, 3, 0, 1, 0, 2, 0, 1, 0, 4, 0, 1, 0, 2, 0, 1, 0, 3, 0, 1, 0, 2, 0, 1, 0, 5,
   0, 1, 0, 2, 0, 1, 0, 3, 0, 1, 0, 2, 0, 1, 0, 4, 0, 1, 0, 2, 0, 1, 0, 3, 0, 1, 0, 2, 0, 1, 0, 6,
   0, 1, 0, 2, 0, 1, 0, 3, 0, 1, 0, 2, 0, 1, 0, 4, 0, 1, 0, 2, 0, 1, 0, 3, 0, 1, 0, 2, 0, 1, 0, 5,
   0, 1, 0, 2, 0, 1, 0, 3, 0, 1, 0, 2, 0, 1, 0, 4, 0, 1, 0, 2, 0, 1, 0, 3, 0, 1, 0, 2, 0, 1, 0, 7,
   0, 1, 0, 2, 0, 1, 0, 3, 0, 1, 0, 2, 0, 1, 0, 4, 0, 1, 0, 2, 0, 1, 0, 3, 0, 1, 0, 2, 0, 1, 0, 5,
   0, 1, 0, 2, 0, 1, 0, 3, 0, 1, 0, 2, 0, 1, 0, 4, 0, 1, 0, 2, 0, 1, 0, 3, 0, 1, 0, 2, 0, 1, 0, 6,
   0, 1, 0, 2, 0, 1, 0, 3, 0, 1, 0, 2, 0, 1, 0, 4, 0, 1, 0, 2, 0, 1, 0, 3, 0, 1, 0, 2, 0, 1, 0, 5,
   0, 1, 0, 2, 0, 1, 0, 3, 0, 1, 0, 2, 0, 1, 0, 4, 0, 1, 0, 2, 0, 1, 0, 3, 0, 1, 0, 2, 0, 1, 0, 8]

/-- `gBitIdx`: the lowest one bit of a byte.  0 does not come in. -/
def gBitIdx : List Nat :=
  [8, 0, 1, 0, 2, 0, 1, 0, 3, 0, 1, 0, 2, 0, 1, 0, 4, 0, 1, 0, 2, 0, 1, 0, 3, 0, 1, 0, 2, 0, 1, 0,
   5, 0, 1, 0, 2, 0, 1, 0, 3, 0, 1, 0, 2, 0, 1, 0, 4, 0, 1, 0, 2, 0, 1, 0, 3, 0, 1, 0, 2, 0, 1, 0,
   6, 0, 1, 0, 2, 0, 1, 0, 3, 0, 1, 0, 2, 0, 1, 0, 4, 0, 1, 0, 2, 0, 1, 0, 3, 0, 1, 0, 2, 0, 1, 0,
   5, 0, 1, 0, 2, 0, 1, 0, 3, 0, 1, 0, 2, 0, 1, 0, 4, 0, 1, 0, 2, 0, 1, 0, 3, 0, 1, 0, 2, 0, 1, 0,
   7, 0, 1, 0, 2, 0, 1, 0, 3, 0, 1, 0, 2, 0, 1, 0, 4, 0, 1, 0, 2, 0, 1, 0, 3, 0, 1, 0, 2, 0, 1, 0,
   5, 0, 1, 0, 2, 0, 1, 0, 3, 0, 1, 0, 2, 0, 1, 0, 4, 0, 1, 0, 2, 0, 1, 0, 3, 0, 1, 0, 2, 0, 1, 0,
   6, 0, 1, 0, 2, 0, 1, 0, 3, 0, 1, 0, 2, 0, 1, 0, 4, 0, 1, 0, 2, 0, 1, 0, 3, 0, 1, 0, 2, 0, 1, 0,
   5, 0, 1, 0, 2, 0, 1, 0, 3, 0, 1, 0, 2, 0, 1, 0, 4, 0, 1, 0, 2, 0, 1, 0, 3, 0, 1, 0, 2, 0, 1, 0]

/-- What the two searches differ in: the byte they pass, their table, and
    `SDPTB_RESULT_BIT_VAL_##array`. -/
structure Search where
  compareVal : UChar
  array : List Nat
  resultBitVal : Nat → Nat → Nat

/-- The search for a zero bit does not check the count. -/
def zeroSearch : Search where
  compareVal := 0xFF#8
  array := gZeroBitIdx
  resultBitVal result _ := result

/-- The search for a one bit does. -/
def oneSearch : Search where
  compareVal := 0x00#8
  array := gBitIdx
  resultBitVal result count := if result ≥ count then bitNotFound else result

namespace Search

/-- The table entry of a byte. -/
def entry (S : Search) (b : UChar) : Nat := S.array.getD b.toNat 0

/-- What a byte step does: raise `return_anyway` with an answer, or go on. -/
inductive PerByte
  | found (aBitIdx : Nat)
  | goOn (aAddr sIdx : Nat)

/-- `SDPTB_BIT_FIND_PER_BYTES`.  The mask is chosen by the index. -/
def findPerBytes (S : Search) (aMask : Nat → UChar) (m : Mem) (aCount aAddr sIdx : Nat) :
    PerByte :=
  if m aAddr ≠ S.compareVal then
    .found (S.resultBitVal (sIdx + S.entry (m aAddr &&& aMask sIdx)) aCount)
  else if sIdx + 8 ≥ aCount then
    .found bitNotFound
  else
    .goOn (aAddr + 1) (sIdx + 8)

/-- `while( sLoop-- )`: the bytes up to the next eight byte boundary. -/
def alignBytes (S : Search) (aMask : Nat → UChar) (m : Mem) (aCount : Nat) :
    Nat → Nat → Nat → PerByte
  | 0, aAddr, sIdx => .goOn aAddr sIdx
  | sLoop + 1, aAddr, sIdx =>
      match S.findPerBytes aMask m aCount aAddr sIdx with
      | .found r => .found r
      | .goOn aAddr' sIdx' => alignBytes S aMask m aCount sLoop aAddr' sIdx'

/-- Whole words of the byte that is passed.  No bound is checked: `none` when the
    memory has not ended the loop after `fuel` words. -/
def skipULongs (S : Search) (m : Mem) : Nat → Nat → Nat → Option (Nat × Nat)
  | 0, _, _ => none
  | fuel + 1, aAddr, sIdx =>
      if ∀ k < 8, m (aAddr + k) = S.compareVal then
        skipULongs S m fuel (aAddr + 8) (sIdx + 64)
      else
        some (aAddr, sIdx)

/-- `while( 1 )`: byte by byte until an answer. -/
def restBytes (S : Search) (aMask : Nat → UChar) (m : Mem) (aCount : Nat) :
    Nat → Nat → Nat → Option Nat
  | 0, _, _ => none
  | fuel + 1, aAddr, sIdx =>
      match S.findPerBytes aMask m aCount aAddr sIdx with
      | .found r => some r
      | .goOn aAddr' sIdx' => restBytes S aMask m aCount fuel aAddr' sIdx'

/-- The part the two searches share: align, skip words, then bytes. -/
def scan (S : Search) (aMask : Nat → UChar) (fuel : Nat) (m : Mem) (aCount aAddr sIdx : Nat) :
    Option Nat :=
  let sTemp := aAddr % 8
  match S.alignBytes aMask m aCount (if sTemp ≠ 0 then 8 - sTemp else 0) aAddr sIdx with
  | .found r => some r
  | .goOn aAddr' sIdx' =>
      match S.skipULongs m fuel aAddr' sIdx' with
      | none => none
      | some (aAddr'', sIdx'') => S.restBytes aMask m aCount fuel aAddr'' sIdx''

end Search

/-- `findZeroBitFromHint`.  `none` when the assertion on the hint fails or the
    memory does not end the loops within `fuel`. -/
def findZeroBitFromHint (fuel : Nat) (m : Mem) (aAddr aCount aHint : Nat) : Option Nat :=
  if aHint < aCount then
    let sIdx := if aHint ≥ 8 then aHint / 8 * 8 else 0
    let aAddr' := if aHint ≥ 8 then aAddr + aHint / 8 else aAddr
    -- best case
    if m aAddr' ≠ 0xFF#8 then
      some (zeroSearch.resultBitVal (sIdx + zeroSearch.entry (m aAddr')) aCount)
    else
      zeroSearch.scan (fun _ => 0xFF#8) fuel m aCount aAddr' sIdx
  else
    none

/-- `findBitFromHint`. -/
def findBitFromHint (fuel : Nat) (m : Mem) (aAddr aCount aHint : Nat) : Option Nat :=
  if aHint < aCount then
    let sHintInBytes := aHint / 8
    let sIdx := if aHint ≥ 8 then sHintInBytes * 8 else 0
    let aAddr' := if aHint ≥ 8 then aAddr + sHintInBytes else aAddr
    let sMask : UChar := 0xFF#8 <<< (aHint % 8)
    let maskAt := fun i => if i / 8 = sHintInBytes then sMask else 0xFF#8
    let found :=
      -- best case
      if m aAddr' &&& sMask ≠ 0x00#8 ∨ aHint % 8 + (aCount - aHint) ≤ 8 then
        some (oneSearch.resultBitVal (sIdx + oneSearch.entry (m aAddr' &&& maskAt sIdx)) aCount)
      else
        oneSearch.scan maskAt fuel m aCount (aAddr' + 1) (sIdx + 8)
    -- the double check at the end
    found.map fun r => if r ≠ bitNotFound ∧ r ≥ aCount then bitNotFound else r
  else
    none

/-- `findBit`. -/
def findBit (fuel : Nat) (m : Mem) (aAddr aCount : Nat) : Option Nat :=
  findBitFromHint fuel m aAddr aCount 0

/-! ## §3. What a search finds. -/

/-- All bits in `[lo, hi)` are `!v`. -/
def Passed (m : Mem) (a : Nat) (v : Bool) (lo hi : Nat) : Prop :=
  ∀ j, lo ≤ j → j < hi → getBit m a j = !v

/-- `r` is the first bit of value `v` from `lo` on. -/
structure FirstBit (m : Mem) (a : Nat) (v : Bool) (lo r : Nat) : Prop where
  le : lo ≤ r
  bit : getBit m a r = v
  passed : Passed m a v lo r

/-- The answer of a search over `aCount` bits: the first bit, or that there is none. -/
def Answer (m : Mem) (a : Nat) (v : Bool) (lo aCount r : Nat) : Prop :=
  FirstBit m a v lo r ∨ (r = bitNotFound ∧ Passed m a v lo aCount)

/-- A search that finds bits of value `v`: its byte has none, its table has the
    lowest one of every other byte, its result is the index or, past the count,
    `bitNotFound`. -/
structure Search.Finds (S : Search) (v : Bool) : Prop where
  none_iff : ∀ b : UChar, b = S.compareVal ↔ ∀ k < 8, b.getLsbD k = !v
  table : ∀ b : UChar, b ≠ S.compareVal →
    S.entry b < 8 ∧ b.getLsbD (S.entry b) = v ∧ ∀ k < S.entry b, b.getLsbD k = !v
  result : ∀ r c, S.resultBitVal r c = r ∨ (c ≤ r ∧ S.resultBitVal r c = bitNotFound)

theorem zeroSearch_finds : zeroSearch.Finds false where
  none_iff := by decide +kernel
  table := by decide +kernel
  result _ _ := Or.inl rfl

theorem oneSearch_finds : oneSearch.Finds true where
  none_iff := by decide +kernel
  table := by decide +kernel
  result r c := by
    show (if r ≥ c then bitNotFound else r) = r ∨ _
    by_cases h : r ≥ c
    · exact Or.inr ⟨h, if_pos h⟩
    · exact Or.inl (if_neg h)

variable {S : Search} {v : Bool} {m : Mem} {base lo aCount q : Nat} {aMask : Nat → UChar}

theorem Passed.mono {hi hi' : Nat} (h : Passed m base v lo hi) (hle : hi' ≤ hi) :
    Passed m base v lo hi' :=
  fun j hlo hhi => h j hlo (by omega)

/-- Pass one more byte. -/
theorem Passed.byte (hS : S.Finds v) (h : Passed m base v lo (8 * q))
    (hb : m (base + q) = S.compareVal) : Passed m base v lo (8 * (q + 1)) := by
  intro j hlo hhi
  by_cases hj : j < 8 * q
  · exact h j hlo hj
  · have hk : j - 8 * q < 8 := by omega
    have hbit := (hS.none_iff _).mp hb _ hk
    rwa [← getBit_byte m base q _ hk, show 8 * q + (j - 8 * q) = j by omega] at hbit

/-- A bit of value `v` not yet passed is not in a byte that is passed. -/
theorem next_byte (hS : S.Finds v) {j : Nat} (hj : 8 * q ≤ j) (hbit : getBit m base j = v)
    (hb : m (base + q) = S.compareVal) : 8 * (q + 1) ≤ j := by
  by_contra hlt
  have hk : j - 8 * q < 8 := by omega
  have hno := (hS.none_iff _).mp hb _ hk
  rw [← getBit_byte m base q _ hk, show 8 * q + (j - 8 * q) = j by omega, hbit] at hno
  cases v <;> simp at hno

/-- The table entry of the byte at `q`, with the bits below `lo` masked out, is
    the first bit. -/
theorem firstBit_entry (hS : S.Finds v) {b : UChar}
    (hpass : Passed m base v lo (8 * q)) (hb : b ≠ S.compareVal)
    (hbits : ∀ k < 8, b.getLsbD k = if lo ≤ 8 * q + k then (m (base + q)).getLsbD k else !v) :
    FirstBit m base v lo (8 * q + S.entry b) := by
  obtain ⟨hlt, hv, hbelow⟩ := hS.table b hb
  have hge : lo ≤ 8 * q + S.entry b := by
    by_contra hno
    rw [hbits _ hlt, if_neg hno] at hv
    cases v <;> simp at hv
  refine ⟨hge, ?_, ?_⟩
  · rw [getBit_byte m base q _ hlt]
    rwa [hbits _ hlt, if_pos hge] at hv
  · intro j hj hjr
    by_cases hj8 : j < 8 * q
    · exact hpass j hj hj8
    · have hk : j - 8 * q < 8 := by omega
      have hbit := hbelow (j - 8 * q) (by omega)
      rw [hbits _ hk, if_pos (by omega)] at hbit
      rwa [← getBit_byte m base q _ hk, show 8 * q + (j - 8 * q) = j by omega] at hbit

theorem Search.Finds.answer (hS : S.Finds v) {r : Nat} (h : FirstBit m base v lo r) :
    Answer m base v lo aCount (S.resultBitVal r aCount) := by
  rcases hS.result r aCount with hr | ⟨hle, hr⟩
  · rw [hr]
    exact Or.inl h
  · exact Or.inr ⟨hr, h.passed.mono hle⟩

/-- The masks after the hint's byte are full. -/
def FullFrom (aMask : Nat → UChar) (sIdx : Nat) : Prop :=
  ∀ i, sIdx ≤ i → aMask i = 0xFF#8

theorem and_full (b : UChar) : b &&& 0xFF#8 = b :=
  BitVec.and_allOnes

namespace Search

/-- One byte step, from a byte boundary. -/
theorem findPerBytes_spec (hS : S.Finds v) (hmask : FullFrom aMask (8 * q)) (hlo : lo ≤ 8 * q)
    (hpass : Passed m base v lo (8 * q)) :
    (∃ r, S.findPerBytes aMask m aCount (base + q) (8 * q) = .found r ∧
        Answer m base v lo aCount r) ∨
      (m (base + q) = S.compareVal ∧ 8 * (q + 1) < aCount ∧
        S.findPerBytes aMask m aCount (base + q) (8 * q) =
          .goOn (base + (q + 1)) (8 * (q + 1))) := by
  unfold findPerBytes
  by_cases hb : m (base + q) = S.compareVal
  · rw [if_neg (by simpa using hb)]
    by_cases hc : 8 * q + 8 ≥ aCount
    · rw [if_pos hc]
      exact Or.inl ⟨_, rfl, Or.inr ⟨rfl, (hpass.byte hS hb).mono (by omega)⟩⟩
    · rw [if_neg hc]
      exact Or.inr ⟨hb, by omega, rfl⟩
  · rw [if_pos hb, hmask _ le_rfl, and_full]
    refine Or.inl ⟨_, rfl, hS.answer (firstBit_entry hS hpass hb ?_)⟩
    intro k _
    rw [if_pos (by omega)]

theorem alignBytes_spec (hS : S.Finds v) (n : Nat) (hmask : FullFrom aMask (8 * q))
    (hlo : lo ≤ 8 * q) (hpass : Passed m base v lo (8 * q)) :
    (∃ r, S.alignBytes aMask m aCount n (base + q) (8 * q) = .found r ∧
        Answer m base v lo aCount r) ∨
      ∃ q', q ≤ q' ∧ Passed m base v lo (8 * q') ∧ (q = q' ∨ 8 * q' < aCount) ∧
        S.alignBytes aMask m aCount n (base + q) (8 * q) = .goOn (base + q') (8 * q') := by
  induction n generalizing q with
  | zero => exact Or.inr ⟨q, le_rfl, hpass, Or.inl rfl, rfl⟩
  | succ n ih =>
      unfold alignBytes
      rcases @findPerBytes_spec S v m base lo aCount q aMask hS hmask hlo hpass with
        ⟨r, hr, hans⟩ | ⟨hb, hlt, hgo⟩
      · rw [hr]
        exact Or.inl ⟨r, rfl, hans⟩
      · rw [hgo]
        have hmask' : FullFrom aMask (8 * (q + 1)) := fun i hi => hmask i (by omega)
        rcases ih hmask' (by omega) (hpass.byte hS hb) with h | ⟨q', hq, hp, hend, heq⟩
        · exact Or.inl h
        · refine Or.inr ⟨q', by omega, hp, Or.inr ?_, heq⟩
          rcases hend with rfl | hend
          · exact hlt
          · exact hend

/-- Skip one word. -/
theorem passed_word (hS : S.Finds v) (hpass : Passed m base v lo (8 * q))
    (hw : ∀ k < 8, m (base + q + k) = S.compareVal) : Passed m base v lo (8 * (q + 8)) := by
  have hstep : ∀ n ≤ 8, Passed m base v lo (8 * (q + n)) := by
    intro n hn
    induction n with
    | zero => exact hpass
    | succ n ih => exact (ih (by omega)).byte hS (by simpa [Nat.add_assoc] using hw n (by omega))
  exact hstep 8 le_rfl

theorem skipULongs_spec (hS : S.Finds v) (fuel : Nat) {r : Nat × Nat}
    (hpass : Passed m base v lo (8 * q))
    (h : S.skipULongs m fuel (base + q) (8 * q) = some r) :
    ∃ q', q ≤ q' ∧ Passed m base v lo (8 * q') ∧ r = (base + q', 8 * q') := by
  induction fuel generalizing q with
  | zero => cases h
  | succ fuel ih =>
      unfold skipULongs at h
      by_cases hw : ∀ k < 8, m (base + q + k) = S.compareVal
      · rw [if_pos hw] at h
        obtain ⟨q', hq, hp, hr⟩ := ih (passed_word hS hpass hw) h
        exact ⟨q', by omega, hp, hr⟩
      · rw [if_neg hw] at h
        exact ⟨q, le_rfl, hpass, (Option.some.inj h).symm⟩

theorem restBytes_spec (hS : S.Finds v) (fuel : Nat) {r : Nat} (hmask : FullFrom aMask (8 * q))
    (hlo : lo ≤ 8 * q) (hpass : Passed m base v lo (8 * q))
    (h : S.restBytes aMask m aCount fuel (base + q) (8 * q) = some r) :
    Answer m base v lo aCount r := by
  induction fuel generalizing q with
  | zero => cases h
  | succ fuel ih =>
      unfold restBytes at h
      rcases @findPerBytes_spec S v m base lo aCount q aMask hS hmask hlo hpass with
        ⟨r', hr, hans⟩ | ⟨hb, -, hgo⟩
      · rw [hr] at h
        cases h
        exact hans
      · rw [hgo] at h
        exact ih (fun i hi => hmask i (by omega)) (by omega) (hpass.byte hS hb) h

/-- The words are skipped as long as they hold no bit of value `v`, so the loop
    ends when there is one. -/
theorem skipULongs_isSome (hS : S.Finds v) (fuel : Nat) {j : Nat} (hj : 8 * q ≤ j)
    (hbit : getBit m base j = v) (hfuel : j < 8 * q + 64 * fuel) :
    (S.skipULongs m fuel (base + q) (8 * q)).isSome = true := by
  induction fuel generalizing q with
  | zero => omega
  | succ fuel ih =>
      unfold skipULongs
      by_cases hw : ∀ k < 8, m (base + q + k) = S.compareVal
      · rw [if_pos hw]
        have hstep : ∀ n ≤ 8, 8 * (q + n) ≤ j := by
          intro n hn
          induction n with
          | zero => exact hj
          | succ n ihn =>
              exact next_byte hS (ihn (by omega)) hbit
                (by simpa [Nat.add_assoc] using hw n (by omega))
        exact ih (q := q + 8) (hstep 8 le_rfl) (by omega)
      · rw [if_neg hw]
        rfl

theorem restBytes_isSome (hS : S.Finds v) (fuel : Nat) {j : Nat} (hj : 8 * q ≤ j)
    (hbit : getBit m base j = v) (hfuel : j < 8 * q + 8 * fuel)
    (hmask : FullFrom aMask (8 * q)) :
    (S.restBytes aMask m aCount fuel (base + q) (8 * q)).isSome = true := by
  induction fuel generalizing q with
  | zero => omega
  | succ fuel ih =>
      unfold restBytes
      rcases @findPerBytes_spec S v m base (8 * q) aCount q aMask hS hmask le_rfl
          (fun j hlo hhi => absurd hhi (by omega)) with ⟨r, hr, -⟩ | ⟨hb, -, hgo⟩
      · rw [hr]
        rfl
      · rw [hgo]
        exact ih (next_byte hS hj hbit hb) (by omega) (fun i hi => hmask i (by omega))

/-- **The scan.**  An answer is right, and there is one when a bit of value `v` is
    still to come. -/
theorem scan_spec (hS : S.Finds v) (fuel : Nat) (hmask : FullFrom aMask (8 * q))
    (hlo : lo ≤ 8 * q) (hpass : Passed m base v lo (8 * q)) :
    (∀ r, S.scan aMask fuel m aCount (base + q) (8 * q) = some r →
        Answer m base v lo aCount r) ∧
      (∀ j, lo ≤ j → j < 8 * fuel → getBit m base j = v →
        (S.scan aMask fuel m aCount (base + q) (8 * q)).isSome = true) := by
  unfold scan
  dsimp only
  rcases @alignBytes_spec S v m base lo aCount q aMask hS
      (if (base + q) % 8 ≠ 0 then 8 - (base + q) % 8 else 0) hmask hlo hpass with
    ⟨r, hr, hans⟩ | ⟨q', hq, hp, -, hgo⟩
  · rw [hr]
    refine ⟨fun r' h => ?_, fun _ _ _ _ => rfl⟩
    cases h
    exact hans
  · rw [hgo]
    dsimp only
    have hmask' : FullFrom aMask (8 * q') := fun i hi => hmask i (by omega)
    -- a bit of value `v` from `lo` on lies behind everything passed
    have hbehind : ∀ j k, Passed m base v lo k → lo ≤ j → getBit m base j = v → k ≤ j := by
      intro j k hk hj hbit
      by_contra hlt
      have hno := hk j hj (by omega)
      rw [hbit] at hno
      cases v <;> simp at hno
    cases hskip : S.skipULongs m fuel (base + q') (8 * q') with
    | none =>
        refine ⟨fun r h => absurd h (by simp), fun j hj hfuel hbit => ?_⟩
        have hsome := skipULongs_isSome hS fuel (hbehind j _ hp hj hbit) hbit (by omega)
        rw [hskip] at hsome
        cases hsome
    | some r' =>
        obtain ⟨q'', hq'', hp'', rfl⟩ := skipULongs_spec hS fuel hp hskip
        have hmask'' : FullFrom aMask (8 * q'') := fun i hi => hmask' i (by omega)
        refine ⟨fun r h => restBytes_spec hS fuel hmask'' (by omega) hp'' h,
          fun j hj hfuel hbit => ?_⟩
        exact restBytes_isSome hS fuel (hbehind j _ hp'' hj hbit) hbit (by omega) hmask''

end Search

/-- **`findZeroBitFromHint`.**  When a zero bit lies in the hint's byte or behind it,
    the answer is the first one from that byte on. -/
theorem findZeroBitFromHint_spec {fuel aHint j : Nat} (hhint : aHint < aCount)
    (hj : 8 * (aHint / 8) ≤ j) (hjc : j < aCount) (hbit : getBit m base j = false)
    (hfuel : aCount ≤ 8 * fuel) :
    ∃ r, findZeroBitFromHint fuel m base aCount aHint = some r ∧
      FirstBit m base false (8 * (aHint / 8)) r := by
  have hidx : (if aHint ≥ 8 then aHint / 8 * 8 else 0) = 8 * (aHint / 8) := by
    split <;> omega
  have haddr : (if aHint ≥ 8 then base + aHint / 8 else base) = base + aHint / 8 := by
    split <;> omega
  have hstart : Passed m base false (8 * (aHint / 8)) (8 * (aHint / 8)) :=
    fun k hlo hhi => absurd hhi (by omega)
  unfold findZeroBitFromHint
  rw [if_pos hhint]
  simp only [hidx, haddr]
  by_cases hb : m (base + aHint / 8) = 0xFF#8
  · rw [if_neg (by simpa using hb)]
    have hspec := @Search.scan_spec _ _ m base _ aCount _ (fun _ => 0xFF#8) zeroSearch_finds fuel
      (fun _ _ => rfl) le_rfl hstart
    obtain ⟨r, hr⟩ := Option.isSome_iff_exists.mp (hspec.2 j hj (by omega) hbit)
    refine ⟨r, hr, ?_⟩
    rcases hspec.1 r hr with h | ⟨-, hnone⟩
    · exact h
    · have hno := hnone j hj hjc
      rw [hbit] at hno
      cases hno
  · rw [if_pos hb]
    refine ⟨_, rfl, firstBit_entry zeroSearch_finds hstart hb ?_⟩
    intro k _
    rw [if_pos (by omega)]

/-- The answer of `findBitFromHint`: the first one bit from the hint on, below the
    count, or that there is none. -/
def BitAnswer (m : Mem) (a aHint aCount r : Nat) : Prop :=
  (r < aCount ∧ FirstBit m a true aHint r) ∨ (r = bitNotFound ∧ Passed m a true aHint aCount)

/-- The double check turns an answer into one below the count. -/
theorem Answer.doubleCheck {aHint r : Nat} (h : Answer m base true aHint aCount r) :
    BitAnswer m base aHint aCount
      (if r ≠ bitNotFound ∧ r ≥ aCount then bitNotFound else r) := by
  rcases h with h | ⟨rfl, hnone⟩
  · by_cases hr : r ≥ aCount
    · refine Or.inr ⟨?_, h.passed.mono hr⟩
      split
      · rfl
      · rename_i hn
        by_contra hne
        exact hn ⟨hne, hr⟩
    · rw [if_neg (fun hn => hr hn.2)]
      exact Or.inl ⟨by omega, h⟩
  · rw [if_neg (fun hn => hn.1 rfl)]
    exact Or.inr ⟨rfl, hnone⟩

theorem getLsbD_mask (n k : Nat) (hk : k < 8) :
    ((0xFF#8 : UChar) <<< n).getLsbD k = decide (n ≤ k) := by
  rw [BitVec.getLsbD_shiftLeft]
  have hall : ∀ l < 8, (0xFF#8 : UChar).getLsbD l = true := by decide
  rw [hall _ (by omega)]
  by_cases h : n ≤ k
  · simp [hk, h]
  · simp [hk, h, show k < n by omega]

/-- **`findBitFromHint`.**  An answer is right, and there is one when a one bit lies
    behind the hint, which ends the word scan. -/
theorem findBitFromHint_spec (fuel aHint : Nat) :
    (∀ r, findBitFromHint fuel m base aCount aHint = some r →
        BitAnswer m base aHint aCount r) ∧
      (∀ j, aHint < aCount → aHint ≤ j → getBit m base j = true → j < 8 * fuel →
        (findBitFromHint fuel m base aCount aHint).isSome = true) := by
  unfold findBitFromHint
  by_cases hhint : aHint < aCount
  · rw [if_pos hhint]
    have hidx : (if aHint ≥ 8 then aHint / 8 * 8 else 0) = 8 * (aHint / 8) := by
      split <;> omega
    have haddr : (if aHint ≥ 8 then base + aHint / 8 else base) = base + aHint / 8 := by
      split <;> omega
    have hdiv : 8 * (aHint / 8) / 8 = aHint / 8 := by omega
    simp only [hidx, haddr, hdiv, if_true]
    have hstart : Passed m base true aHint (8 * (aHint / 8)) :=
      fun k hlo hhi => absurd hhi (by omega)
    -- the hint's byte with the bits below the hint masked out
    have hbits : ∀ k < 8, (m (base + aHint / 8) &&& 0xFF#8 <<< (aHint % 8)).getLsbD k =
        if aHint ≤ 8 * (aHint / 8) + k then (m (base + aHint / 8)).getLsbD k else !true := by
      intro k hk
      rw [BitVec.getLsbD_and, getLsbD_mask _ _ hk]
      by_cases h : aHint % 8 ≤ k
      · rw [if_pos (by omega)]
        simp [h]
      · rw [if_neg (by omega)]
        simp [h]
    by_cases hb : m (base + aHint / 8) &&& 0xFF#8 <<< (aHint % 8) = 0x00#8
    · -- no one bit in the hint's byte
      have hpass : Passed m base true aHint (8 * (aHint / 8 + 1)) := by
        intro j hlo hhi
        have hk : j - 8 * (aHint / 8) < 8 := by omega
        have hbit := hbits _ hk
        rw [hb, BitVec.getLsbD_zero, if_pos (by omega),
          ← getBit_byte m base _ _ hk,
          show 8 * (aHint / 8) + (j - 8 * (aHint / 8)) = j by omega] at hbit
        rw [← hbit]
        rfl
      by_cases hshort : aHint % 8 + (aCount - aHint) ≤ 8
      · rw [if_pos (Or.inr hshort)]
        refine ⟨fun r h => ?_, fun _ _ _ _ _ => rfl⟩
        cases h
        apply Answer.doubleCheck
        refine Or.inr ⟨?_, hpass.mono (by omega)⟩
        rw [hb]
        show (if 8 * (aHint / 8) + 8 ≥ aCount then bitNotFound else _) = bitNotFound
        rw [if_pos (by omega)]
      · rw [if_neg (by simp only [hb, ne_eq, not_true, false_or]; exact hshort)]
        have hmask : FullFrom
            (fun i => if i / 8 = aHint / 8 then 0xFF#8 <<< (aHint % 8) else 0xFF#8)
            (8 * (aHint / 8 + 1)) := by
          intro i hi
          show (if i / 8 = aHint / 8 then _ else _) = _
          rw [if_neg (by omega)]
        have hspec := @Search.scan_spec _ _ m base _ aCount _ _ oneSearch_finds fuel hmask
          (by omega) hpass
        rw [show base + aHint / 8 + 1 = base + (aHint / 8 + 1) from rfl,
          show 8 * (aHint / 8) + 8 = 8 * (aHint / 8 + 1) from rfl]
        refine ⟨fun r h => ?_, fun j _ hj hbit hfuel => ?_⟩
        · obtain ⟨r', hr', rfl⟩ := Option.map_eq_some_iff.mp h
          exact (hspec.1 r' hr').doubleCheck
        · rw [Option.isSome_map]
          exact hspec.2 j hj hfuel hbit
    · rw [if_pos (Or.inl hb)]
      refine ⟨fun r h => ?_, fun _ _ _ _ _ => rfl⟩
      cases h
      exact (oneSearch_finds.answer (firstBit_entry oneSearch_finds hstart hb hbits)).doubleCheck
  · rw [if_neg hhint]
    exact ⟨fun r h => absurd h (by simp), fun j hlt => absurd hlt hhint⟩

end Altibase.Sdp
