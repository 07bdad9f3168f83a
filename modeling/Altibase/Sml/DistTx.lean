/-
  Altibase.Sml.DistTx
  ───────────────────
  **DISTRIBUTED TRANSACTIONS AND THE VICTIM RULE.**

  A distributed transaction carries, on every node it touches, the same
  `smiDistTxInfo`: the view SCN and the start time of its first statement,
  its shard pin and its distribution level.  `compareTx4DistDeadlock`
  decides from two of these whether a waiting transaction must be treated
  as deadlocked with the transaction it waits for.

  The four comparisons are one lexicographic comparison:

    * `compareTx4DistDeadlock_eq_none` — the answer is "not me" exactly
      when the waiter's key is strictly above the holder's;
    * `exists_not_next_lt` — no function on a cycle into a linear order
      descends at every step, so "not me" cannot be every member's answer.
-/

import Mathlib.Algebra.Group.Fin.Basic
import Mathlib.Data.Fintype.EquivFin
import Mathlib.Data.Fintype.Lattice
import Mathlib.Data.Int.Basic
import Mathlib.Data.Prod.Lex

namespace Altibase.Sml

/-! ## §1. Cycles in a linear order. -/

/-- **A cycle cannot descend at every step.**  Its least member is not
    above the next one. -/
theorem exists_not_next_lt {α : Type*} [LinearOrder α] {k : Nat} (f : Fin (k + 1) → α) :
    ∃ i, ¬ f (i + 1) < f i := by
  obtain ⟨i, hi⟩ := Finite.exists_min f
  exact ⟨i, not_lt.mpr (hi (i + 1))⟩

/-! ## §2. The data of a distributed transaction. -/

/-- `PDL_Time_Value`: seconds and microseconds. -/
structure TimeValue where
  sec : Int
  usec : Int
  deriving DecidableEq, Repr

/-- `operator >` of `PDL_Time_Value`. -/
def TimeValue.gt (t1 t2 : TimeValue) : Bool :=
  if t1.sec > t2.sec then true
  else if t1.sec = t2.sec && t1.usec > t2.usec then true
  else false

/-- `operator <` of `PDL_Time_Value`. -/
def TimeValue.lt (t1 t2 : TimeValue) : Bool := t2.gt t1

/-- `smiDistLevel`. -/
inductive DistLevel where
  | init
  | single
  | multi
  | parallel
  deriving DecidableEq, Repr

namespace DistLevel

/-- The value of the enumerator. -/
def toNat : DistLevel → Nat
  | init => 0
  | single => 1
  | multi => 2
  | parallel => 3

/-- `SMI_DIST_LEVEL_IS_VALID`: the transaction has distribution
    information. -/
def isValid (level : DistLevel) : Bool :=
  level = single || level = multi || level = parallel

end DistLevel

/-- `smiDistTxInfo`. -/
structure DistTxInfo where
  firstStmtViewSCN : UInt64
  firstStmtTime : TimeValue
  shardPin : UInt64
  distLevel : DistLevel
  deriving DecidableEq, Repr

/-- The node id that `SMI_DIVIDE_SHARD_PIN` takes from bits 32 to 47. -/
def shardPinNodeId (pin : UInt64) : UInt16 := ((pin &&& ((0xffff : UInt64) <<< 32)) >>> 32).toUInt16

/-- The sequence that `SMI_DIVIDE_SHARD_PIN` takes from bits 0 to 31. -/
def shardPinSequence (pin : UInt64) : UInt32 :=
  ((pin &&& ((0xffffffff : UInt64) <<< 0)) >>> 0).toUInt32

/-- `smxDistDeadlockDetection`: why a wait counts as a distributed
    deadlock. -/
inductive Detection where
  | none
  | viewSCN
  | time
  | shardPinSeq
  | shardPinNodeId
  | allEqual
  deriving DecidableEq, Repr

/-! ## §3. The victim rule. -/

/-- **`compareTx4DistDeadlock`.**  The first key that differs decides; a
    waiter whose keys all tie counts as deadlocked. -/
def compareTx4DistDeadlock (waitTx holdTx : DistTxInfo) : Detection :=
  if waitTx.firstStmtViewSCN > holdTx.firstStmtViewSCN then .none
  else if waitTx.firstStmtViewSCN < holdTx.firstStmtViewSCN then .viewSCN
  else if waitTx.firstStmtTime.gt holdTx.firstStmtTime then .none
  else if waitTx.firstStmtTime.lt holdTx.firstStmtTime then .time
  else if shardPinSequence waitTx.shardPin > shardPinSequence holdTx.shardPin then .none
  else if shardPinSequence waitTx.shardPin < shardPinSequence holdTx.shardPin then .shardPinSeq
  else if shardPinNodeId waitTx.shardPin > shardPinNodeId holdTx.shardPin then .none
  else if shardPinNodeId waitTx.shardPin < shardPinNodeId holdTx.shardPin then .shardPinNodeId
  else .allEqual

/-- View SCN, seconds, microseconds, shard pin sequence and node id, the
    first that differs deciding. -/
abbrev TxKey := ℕ ×ₗ ℤ ×ₗ ℤ ×ₗ ℕ ×ₗ ℕ

/-- The key by which a distributed transaction is ranked on every node. -/
def DistTxInfo.key (info : DistTxInfo) : TxKey :=
  toLex (info.firstStmtViewSCN.toNat, toLex (info.firstStmtTime.sec,
    toLex (info.firstStmtTime.usec, toLex ((shardPinSequence info.shardPin).toNat,
      (shardPinNodeId info.shardPin).toNat))))

theorem key_lt_key (a b : DistTxInfo) :
    a.key < b.key ↔
      a.firstStmtViewSCN.toNat < b.firstStmtViewSCN.toNat ∨
      a.firstStmtViewSCN.toNat = b.firstStmtViewSCN.toNat ∧
        (a.firstStmtTime.sec < b.firstStmtTime.sec ∨
         a.firstStmtTime.sec = b.firstStmtTime.sec ∧
          (a.firstStmtTime.usec < b.firstStmtTime.usec ∨
           a.firstStmtTime.usec = b.firstStmtTime.usec ∧
            ((shardPinSequence a.shardPin).toNat < (shardPinSequence b.shardPin).toNat ∨
             (shardPinSequence a.shardPin).toNat = (shardPinSequence b.shardPin).toNat ∧
              (shardPinNodeId a.shardPin).toNat < (shardPinNodeId b.shardPin).toNat))) := by
  simp only [DistTxInfo.key, Prod.Lex.toLex_lt_toLex]

theorem TimeValue.gt_iff (t1 t2 : TimeValue) :
    t1.gt t2 = true ↔ t2.sec < t1.sec ∨ t1.sec = t2.sec ∧ t2.usec < t1.usec := by
  unfold TimeValue.gt
  split_ifs with h1 h2
  · simp [h1]
  · simp only [Bool.and_eq_true, decide_eq_true_eq] at h2
    simp [h2.1, h2.2]
  · simp only [Bool.and_eq_true, decide_eq_true_eq] at h2
    simp only [false_iff]
    omega

/-- **"Not me" is a strict order.**  The rule passes a waiter exactly when
    its key is strictly above the holder's: ties are detected. -/
theorem compareTx4DistDeadlock_eq_none (waitTx holdTx : DistTxInfo) :
    compareTx4DistDeadlock waitTx holdTx = .none ↔ holdTx.key < waitTx.key := by
  rw [key_lt_key]
  unfold compareTx4DistDeadlock TimeValue.lt
  simp only [gt_iff_lt, TimeValue.gt_iff, UInt64.lt_iff_toNat_lt, UInt32.lt_iff_toNat_lt,
    UInt16.lt_iff_toNat_lt]
  split_ifs <;> simp only [true_iff, false_iff] <;> omega

end Altibase.Sml
