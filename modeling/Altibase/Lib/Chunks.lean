/-
  Altibase.Lib.Chunks
  ───────────────────
  **`n` ITEMS IN CHUNKS OF `c`.**

  Item `i` lies in the chunk `i / c` at the offset `i % c`.  A loop that hands out
  chunk after chunk keeps only how many items are left; here that count is a closed
  formula, also for a marked prefix of the items.

  Main results:
    * `lt_of_lt_chunks`, `div_lt_chunks` — the chunks are exactly those that items lie in;
    * `chunk_rest`, `chunk_rest_prefix` — what is left after one more chunk.
-/
import Mathlib.Data.Nat.Basic

namespace Altibase.Lib

/-- The number of chunks, rounded up. -/
def chunks (n c : Nat) : Nat := (n + c - 1) / c

/-- The number of items in the chunk `k`. -/
def chunkLen (n c k : Nat) : Nat := min c (n - c * k)

variable {n c i k s : Nat}

/-- The chunks hold everything. -/
theorem le_mul_chunks (hc : 0 < c) : n ≤ c * chunks n c := by
  unfold chunks
  have hdiv := Nat.div_add_mod (n + c - 1) c
  have hmod := Nat.mod_lt (n + c - 1) hc
  omega

/-- Every chunk has an item. -/
theorem lt_of_lt_chunks (hc : 0 < c) (hk : k < chunks n c) : c * k < n := by
  have hle : c * (k + 1) ≤ c * chunks n c := Nat.mul_le_mul_left c hk
  have hdiv : c * chunks n c ≤ n + c - 1 := Nat.mul_div_le (n + c - 1) c
  rw [Nat.mul_succ] at hle
  omega

/-- Nothing needs no chunk, -/
theorem chunks_zero (hc : 0 < c) : chunks 0 c = 0 := by
  unfold chunks
  exact Nat.div_eq_of_lt (by omega)

/-- and something needs one. -/
theorem chunks_pos (hc : 0 < c) (hn : 0 < n) : 0 < chunks n c := by
  have hle := @le_mul_chunks n c hc
  by_contra hzero
  rw [Nat.eq_zero_of_not_pos hzero] at hle
  omega

/-- There are no more chunks than members. -/
theorem chunks_le (hc : 0 < c) : chunks n c ≤ n := by
  by_contra hlt
  have hlast := lt_of_lt_chunks hc (show n < chunks n c by omega)
  have hge : n ≤ c * n := Nat.le_mul_of_pos_left n hc
  omega

/-- There are only as many as are needed. -/
theorem chunks_le_of_mul_le {m : Nat} (hc : 0 < c) (h : n ≤ c * m) : chunks n c ≤ m := by
  by_contra hlt
  have hlast := lt_of_lt_chunks hc (show m < chunks n c by omega)
  omega

/-- The last item is in the last chunk. -/
theorem chunks_eq_succ (hc : 0 < c) (hn : 0 < n) : chunks n c = (n - 1) / c + 1 := by
  unfold chunks
  rw [show n + c - 1 = n - 1 + c by omega, Nat.add_div_right _ hc]

/-- Every item is in a chunk. -/
theorem div_lt_chunks (hc : 0 < c) (hi : i < n) : i / c < chunks n c := by
  have hle := @le_mul_chunks n c hc
  exact (Nat.div_lt_iff_lt_mul hc).mpr (by rw [Nat.mul_comm]; omega)

/-- A member lies within its chunk. -/
theorem mod_lt_chunkLen (hc : 0 < c) (hi : i < n) : i % c < chunkLen n c (i / c) := by
  have hdiv := Nat.div_add_mod i c
  have hmod := Nat.mod_lt i hc
  unfold chunkLen
  omega

/-- No chunk is empty, -/
theorem chunkLen_pos (hc : 0 < c) (hk : k < chunks n c) : 0 < chunkLen n c k := by
  have hlt := lt_of_lt_chunks hc hk
  unfold chunkLen
  omega

/-- and none is too long. -/
theorem chunkLen_le : chunkLen n c k ≤ c := Nat.min_le_left _ _

/-- The item at the offset `s` of the chunk `k`. -/
theorem index_lt (hs : s < chunkLen n c k) : c * k + s < n := by
  unfold chunkLen at hs
  omega

/-- The chunk is computed back from an index, -/
theorem div_index (hs : s < c) : (c * k + s) / c = k := by
  rw [Nat.mul_add_div (by omega), Nat.div_eq_of_lt hs, Nat.add_zero]

/-- and so is the place in it. -/
theorem mod_index (hs : s < c) : (c * k + s) % c = s := by
  rw [Nat.mul_add_mod, Nat.mod_eq_of_lt hs]

/-- What is left after one more chunk. -/
theorem chunk_rest : n - c * k - chunkLen n c k = n - c * (k + 1) := by
  unfold chunkLen
  rw [Nat.mul_succ]
  omega

/-- What is left of the first `m` items after one more chunk. -/
theorem chunk_rest_prefix {m : Nat} (hm : m ≤ n) :
    m - c * k - min (m - c * k) (chunkLen n c k) = m - c * (k + 1) := by
  unfold chunkLen
  rw [Nat.mul_succ]
  omega

/-- The chunk `k` lies in the first `m < n` items. -/
theorem chunk_in_prefix {m : Nat} (hc : 0 < c) (hm : m < n) (hk : k < chunks n c) :
    min (m - c * k) (chunkLen n c k) = chunkLen n c k ↔ k < m / c := by
  have hlt := lt_of_lt_chunks hc hk
  show _ ↔ k + 1 ≤ m / c
  rw [Nat.le_div_iff_mul_le hc, Nat.succ_mul, Nat.mul_comm k c]
  unfold chunkLen
  omega

end Altibase.Lib
