/-
  Altibase.Lib.ByteImage
  ──────────────────────
  **BYTE IMAGES.**

  An image maps offsets to bytes.  Words of two bytes are read and written low
  byte first; blocks are copied within an image or from another one.

    * `readWord_writeWord`, `readWord_writeWord_ne` — a word, and the words that
      do not overlap it;
    * `readWord_copy_inside`, `readWord_copy_outside` — words after a block copy;
    * `slice_copy`, `slice_writeBytes` — byte strings after a write.
-/

import Mathlib.Data.List.Basic

namespace Altibase.Lib

/-! ## §1. Images. -/

/-- An image, with a byte at every offset. -/
abbrev ByteImage := ℕ → UInt8

/-- The word at offset `o`. -/
def readWord (m : ByteImage) (o : ℕ) : ℕ := (m o).toNat + 256 * (m (o + 1)).toNat

/-- A word written at offset `o`. -/
def writeWord (m : ByteImage) (o v : ℕ) : ByteImage := fun i =>
  if i = o then UInt8.ofNat v else if i = o + 1 then UInt8.ofNat (v / 256) else m i

/-- `n` bytes of `src` from `s` on, copied to `d`. -/
def copy (m : ByteImage) (d : ℕ) (src : ByteImage) (s n : ℕ) : ByteImage := fun i =>
  if d ≤ i ∧ i < d + n then src (s + (i - d)) else m i

/-- A copy within one image, which may overlap its source. -/
def memmove (m : ByteImage) (d s n : ℕ) : ByteImage := copy m d m s n

/-- The `n` bytes from offset `o` on. -/
def slice (m : ByteImage) (o n : ℕ) : List UInt8 := (List.range n).map fun i => m (o + i)

/-- A byte string written from offset `o` on. -/
def writeBytes (m : ByteImage) (o : ℕ) (bs : List UInt8) : ByteImage := fun i =>
  if o ≤ i ∧ i < o + bs.length then bs.getD (i - o) 0 else m i

variable {m m' src : ByteImage} {o p d s n v : ℕ}

/-! ## §2. Words. -/

/-- A word has two bytes. -/
theorem readWord_lt (m : ByteImage) (o : ℕ) : readWord m o < 65536 := by
  have hlow := (m o).toNat_lt
  have hhigh := (m (o + 1)).toNat_lt
  unfold readWord
  omega

/-- A word is read from its two bytes and from nothing else. -/
theorem readWord_congr (h0 : m o = m' p) (h1 : m (o + 1) = m' (p + 1)) :
    readWord m o = readWord m' p := by
  unfold readWord
  rw [h0, h1]

/-- **A word is read as it was written.** -/
theorem readWord_writeWord (hv : v < 65536) : readWord (writeWord m o v) o = v := by
  unfold readWord writeWord
  rw [if_pos rfl, if_neg (by omega), if_pos rfl, UInt8.toNat_ofNat', UInt8.toNat_ofNat']
  omega

/-- Writing a word leaves every other byte. -/
theorem writeWord_apply_of_ne (h : p ≠ o ∧ p ≠ o + 1) : writeWord m o v p = m p := by
  unfold writeWord
  rw [if_neg h.1, if_neg h.2]

/-- Words that do not overlap the written one stay. -/
theorem readWord_writeWord_ne (h : p + 2 ≤ o ∨ o + 2 ≤ p) :
    readWord (writeWord m o v) p = readWord m p :=
  readWord_congr (writeWord_apply_of_ne (by omega)) (writeWord_apply_of_ne (by omega))

/-! ## §3. Block copies. -/

/-- A byte of the copied block comes from the source. -/
theorem copy_inside (h : d ≤ p ∧ p < d + n) : copy m d src s n p = src (s + (p - d)) :=
  if_pos h

/-- A byte outside the copied block stays. -/
theorem copy_outside (h : p < d ∨ d + n ≤ p) : copy m d src s n p = m p :=
  if_neg (by omega)

/-- A word inside the copied block is the word of the source. -/
theorem readWord_copy_inside (h : d ≤ p ∧ p + 2 ≤ d + n) :
    readWord (copy m d src s n) p = readWord src (s + (p - d)) := by
  apply readWord_congr
  · exact copy_inside (by omega)
  · rw [copy_inside (by omega)]
    congr 1
    omega

/-- A word outside the copied block stays. -/
theorem readWord_copy_outside (h : p + 2 ≤ d ∨ d + n ≤ p) :
    readWord (copy m d src s n) p = readWord m p :=
  readWord_congr (copy_outside (by omega)) (copy_outside (by omega))

/-! ## §4. Byte strings. -/

/-- A slice has the length that was asked for. -/
@[simp] theorem slice_length (m : ByteImage) (o n : ℕ) : (slice m o n).length = n := by
  simp [slice]

/-- A slice is read from its own bytes. -/
theorem slice_congr (h : ∀ i < n, m (o + i) = m' (p + i)) : slice m o n = slice m' p n := by
  apply List.map_congr_left
  intro i hi
  exact h i (List.mem_range.mp hi)

/-- A word written beside a slice does not change it. -/
theorem slice_writeWord (h : o + n ≤ p ∨ p + 2 ≤ o) :
    slice (writeWord m p v) o n = slice m o n :=
  slice_congr fun i hi => writeWord_apply_of_ne (by omega)

/-- The block that was copied. -/
theorem slice_copy : slice (copy m d src s n) d n = slice src s n := by
  apply slice_congr
  intro i hi
  rw [copy_inside (by omega)]
  congr 1
  omega

/-- A block copied beside a slice does not change it. -/
theorem slice_copy_outside (h : o + p ≤ d ∨ d + n ≤ o) :
    slice (copy m d src s n) o p = slice m o p :=
  slice_congr fun i hi => copy_outside (by omega)

/-- A byte outside the written string stays. -/
theorem writeBytes_outside {bs : List UInt8} (h : p < o ∨ o + bs.length ≤ p) :
    writeBytes m o bs p = m p :=
  if_neg (by omega)

/-- **A byte string is read as it was written.** -/
theorem slice_writeBytes (bs : List UInt8) :
    slice (writeBytes m o bs) o bs.length = bs := by
  apply List.ext_getElem
  · exact slice_length _ _ _
  · intro i h1 h2
    have hi : writeBytes m o bs (o + i) = bs.getD (o + i - o) 0 := if_pos (by omega)
    simp only [slice, List.getElem_map, List.getElem_range]
    rw [hi, Nat.add_sub_cancel_left, List.getD_eq_getElem?_getD, List.getElem?_eq_getElem h2,
      Option.getD_some]

/-- A byte string written beside a slice does not change it. -/
theorem slice_writeBytes_outside {bs : List UInt8} (h : p + n ≤ o ∨ o + bs.length ≤ p) :
    slice (writeBytes m o bs) p n = slice m p n :=
  slice_congr fun i hi => writeBytes_outside (by omega)

end Altibase.Lib
