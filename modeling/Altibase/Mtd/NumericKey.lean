/-
  Altibase.Mtd.NumericKey
  ───────────────────────
  **THE KEY COMPARISONS OF NUMERIC** (`mtdNumeric`).

  The module has ten comparison functions: for a logical comparison and for the
  four ways in which an index gives its keys, ascending and descending each.
  They differ in where a key lies: at the value, at the offset of a fixed
  column, where `mtd::valueForModule` says, or in the stored form, which has no
  length byte.  From there on all of them compare the bytes, and the sign byte
  decides which of two values is greater if one goes on where the other ends.

    * `nonNullComp_order` — the bytes compare like the numbers;
    * `keyComp_order` — with NULL behind all numbers in both directions;
    * `mtdNumericCompare_order`, `mtdNumericCompare_hash` — the ten functions and
      the hash agree.
-/

import Altibase.Mtc.Numeric
import Altibase.Mtc.Hash
import Altibase.Mtd.Text
import Mathlib.Order.WithBot

namespace Altibase.Mtd

open Altibase.Mtc Altibase.Lib.Digits

/-! ## §1. Where a key lies. -/

/-- `SMI_COLUMN_TYPE_MASK`. -/
inductive ColumnType where
  | fixed | variable | variableLarge | lob | temp | other
  deriving DecidableEq, Repr

/-- What the comparisons read of `smiColumn`. -/
structure SmiColumn where
  type : ColumnType
  isCompressed : Bool
  offset : Nat
  value : Nat
  deriving DecidableEq, Repr

/-- `mtdValueInfo`; `column` is `none` for the null pointer, `offsetUseless` is
    the flag `MTD_OFFSET_USELESS`. -/
structure ValueInfo where
  column : Option SmiColumn
  value : Nat
  length : Nat
  offsetUseless : Bool
  deriving DecidableEq, Repr

/-- The memory, the address of `mtdNumericNull`, and the functions of the storage
    manager that find a value in a row (`none`: they return the null pointer). -/
structure Env where
  mem : Nat → UInt8
  staticNull : Nat
  getColumn : Nat → SmiColumn → Option Nat
  getCompressionColumn : Nat → SmiColumn → Option Nat

/-- **`mtd::valueForModule`.**  No result where the source has an assertion or
    would read through the null pointer. -/
def valueForModule (env : Env) (info : ValueInfo) : Option Nat :=
  if info.offsetUseless then
    -- the value itself is given, but a temporary column keeps it elsewhere
    match info.column with
    | some c => if c.type = .temp then some c.value else some info.value
    | none => some info.value
  else
    match info.column with
    | none => none
    | some c =>
      if !c.isCompressed then
        match c.type with
        | .fixed => some (info.value + c.offset)
        | .variable | .variableLarge => some ((env.getColumn info.value c).getD env.staticNull)
        | .lob => some env.staticNull
        | .temp => some c.value
        | .other => none
      else
        -- the row has the place of the value in the dictionary table
        match env.getCompressionColumn info.value c with
        | some p => some p
        | none =>
          -- for a fixed column the null pointer is returned
          if c.type = .variable ∨ c.type = .variableLarge then some env.staticNull else none

/-- The two variables that each comparison sets for each of its keys. -/
structure KeyPart where
  sLength : UInt8
  sSignExponentMantissa : Nat
  deriving DecidableEq, Repr

/-- `sNumericValue->length` and `&(sNumericValue->signExponent)`. -/
def mtdPart (env : Env) (sNumericValue : Nat) : KeyPart :=
  ⟨env.mem sNumericValue, sNumericValue + 1⟩

/-- `MTD_VALUE_OFFSET_USELESS`. -/
def logicalKey (env : Env) (info : ValueInfo) : Option KeyPart :=
  some (mtdPart env info.value)

/-- `MTD_VALUE_FIXED`. -/
def fixedKey (env : Env) (info : ValueInfo) : Option KeyPart :=
  info.column.map fun c => mtdPart env (info.value + c.offset)

/-- The value that `mtd::valueForModule` finds. -/
def mtdKey (env : Env) (info : ValueInfo) : Option KeyPart :=
  (valueForModule env info).map (mtdPart env)

/-- A stored key: `(UChar)aValueInfo->length` and `(UChar*)aValueInfo->value`. -/
def storedKey (_ : Env) (info : ValueInfo) : Option KeyPart :=
  some ⟨.ofNat info.length, info.value⟩

/-! ## §2. The comparisons. -/

/-- `n` bytes from an address on. -/
def bytesAt (mem : Nat → UInt8) (p n : Nat) : List UInt8 := (List.range n).map fun i => mem (p + i)

/-- `idlOS::memcmp` of two places in memory. -/
def memcmpAt (mem : Nat → UInt8) (p q n : Nat) : Int := cmpBytes (bytesAt mem p n) (bytesAt mem q n)

/-- The comparison of two keys that are not NULL. -/
def nonNullComp (mem : Nat → UInt8) (k1 k2 : KeyPart) : Int :=
  if k1.sLength > k2.sLength then
    -- the longer of two keys with one prefix has the greater amount
    let sOrder := memcmpAt mem k1.sSignExponentMantissa k2.sSignExponentMantissa k2.sLength.toNat
    if sOrder ≠ 0 then sOrder else if mem k1.sSignExponentMantissa ≥ 0x80 then 1 else -1
  else if k1.sLength < k2.sLength then
    let sOrder := memcmpAt mem k1.sSignExponentMantissa k2.sSignExponentMantissa k1.sLength.toNat
    if sOrder ≠ 0 then sOrder else if mem k1.sSignExponentMantissa ≥ 0x80 then -1 else 1
  else memcmpAt mem k1.sSignExponentMantissa k2.sSignExponentMantissa k1.sLength.toNat

/-- The comparison where one of the keys is NULL, which has the length zero. -/
def nullComp (k1 k2 : KeyPart) : Int :=
  if k1.sLength < k2.sLength then 1 else if k1.sLength > k2.sLength then -1 else 0

/-- The ascending comparisons, from the keys on. -/
def ascComp (mem : Nat → UInt8) (k1 k2 : KeyPart) : Int :=
  if k1.sLength ≠ 0 ∧ k2.sLength ≠ 0 then nonNullComp mem k1 k2 else nullComp k1 k2

/-- The descending comparisons: the second key against the first, but not for
    NULL. -/
def descComp (mem : Nat → UInt8) (k1 k2 : KeyPart) : Int :=
  if k1.sLength ≠ 0 ∧ k2.sLength ≠ 0 then nonNullComp mem k2 k1 else nullComp k1 k2

/-- A comparison function of the module, from the way its keys are given. -/
def compareBy (comp : (Nat → UInt8) → KeyPart → KeyPart → Int)
    (first second : Env → ValueInfo → Option KeyPart) (env : Env)
    (aValueInfo1 aValueInfo2 : ValueInfo) : Option Int := do
  let k1 ← first env aValueInfo1
  let k2 ← second env aValueInfo2
  return comp env.mem k1 k2

/-- Two values, ascending. -/
def mtdNumericLogicalAscComp := compareBy ascComp logicalKey logicalKey

/-- Two values, descending. -/
def mtdNumericLogicalDescComp := compareBy descComp logicalKey logicalKey

/-- Two fixed columns, ascending. -/
def mtdNumericFixedMtdFixedMtdKeyAscComp := compareBy ascComp fixedKey fixedKey

/-- Two fixed columns, descending. -/
def mtdNumericFixedMtdFixedMtdKeyDescComp := compareBy descComp fixedKey fixedKey

/-- Two columns of any kind in memory, ascending. -/
def mtdNumericMtdMtdKeyAscComp := compareBy ascComp mtdKey mtdKey

/-- Two columns of any kind in memory, descending. -/
def mtdNumericMtdMtdKeyDescComp := compareBy descComp mtdKey mtdKey

/-- A stored key and a column in memory, ascending. -/
def mtdNumericStoredMtdKeyAscComp := compareBy ascComp storedKey mtdKey

/-- A stored key and a column in memory, descending. -/
def mtdNumericStoredMtdKeyDescComp := compareBy descComp storedKey mtdKey

/-- Two stored keys, ascending. -/
def mtdNumericStoredStoredKeyAscComp := compareBy ascComp storedKey storedKey

/-- Two stored keys, descending. -/
def mtdNumericStoredStoredKeyDescComp := compareBy descComp storedKey storedKey

/-- The pairs of comparison functions in `mtdNumeric`. -/
inductive CompareKind where
  | logical | fixedMtdFixedMtd | mtdMtd | storedMtd | storedStored
  deriving DecidableEq, Repr

/-- The way the first key is given. -/
def CompareKind.first : CompareKind → Env → ValueInfo → Option KeyPart
  | .logical => logicalKey
  | .fixedMtdFixedMtd => fixedKey
  | .mtdMtd => mtdKey
  | .storedMtd | .storedStored => storedKey

/-- The way the second key is given. -/
def CompareKind.second : CompareKind → Env → ValueInfo → Option KeyPart
  | .logical => logicalKey
  | .fixedMtdFixedMtd => fixedKey
  | .mtdMtd | .storedMtd => mtdKey
  | .storedStored => storedKey

/-- The two columns of the table of comparison functions. -/
def mtdNumericCompare : CompareKind → Direction → Env → ValueInfo → ValueInfo → Option Int
  | .logical, .ascending => mtdNumericLogicalAscComp
  | .logical, .descending => mtdNumericLogicalDescComp
  | .fixedMtdFixedMtd, .ascending => mtdNumericFixedMtdFixedMtdKeyAscComp
  | .fixedMtdFixedMtd, .descending => mtdNumericFixedMtdFixedMtdKeyDescComp
  | .mtdMtd, .ascending => mtdNumericMtdMtdKeyAscComp
  | .mtdMtd, .descending => mtdNumericMtdMtdKeyDescComp
  | .storedMtd, .ascending => mtdNumericStoredMtdKeyAscComp
  | .storedMtd, .descending => mtdNumericStoredMtdKeyDescComp
  | .storedStored, .ascending => mtdNumericStoredStoredKeyAscComp
  | .storedStored, .descending => mtdNumericStoredStoredKeyDescComp

/-- `mtdHash` of the value at an address. -/
def mtdHash (env : Env) (aHash aRow : Nat) : Nat :=
  hashWithExponent aHash (bytesAt env.mem (aRow + 1) (env.mem aRow).toNat)

/-! ## §3. The bytes of a number. -/

/-- The bytes behind the length. -/
def bytesOf : MtdNumericType → List Nat
  | .null => []
  | .num signExponent mantissa => signExponent :: mantissa

/-- The first byte of a number that is not zero. -/
def firstByte (neg : Bool) (e : Int) : Nat := if neg then uchar (64 - e) else uchar (e + 192)

/-- The bytes of its digits. -/
def digitBytes (neg : Bool) (ds : List Nat) : List Nat := if neg then compl 100 ds else ds

/-- A number: the sign and exponent, then the digits. -/
theorem bytesOf_encode (neg : Bool) (e : Int) (ds : List Nat) :
    bytesOf (encode neg e ds) = firstByte neg e :: digitBytes neg ds := by
  cases neg with
  | false => rfl
  | true => rfl

theorem bytesOf_zero : bytesOf zero = [128] := rfl

/-- The first byte of a positive number is in the upper half. -/
theorem firstByte_false {e : Int} (he : InRange e) :
    (firstByte false e : Int) = e + 192 ∧ 128 < firstByte false e ∧ firstByte false e < 256 := by
  obtain ⟨h0, h1⟩ := he
  have hn : (firstByte false e : Int) = e + 192 :=
    uchar_of_range (i := e + 192) (by omega) (by omega)
  exact ⟨hn, by omega, by omega⟩

/-- That of a negative one is in the lower half. -/
theorem firstByte_true {e : Int} (he : InRange e) :
    (firstByte true e : Int) = 64 - e ∧ 0 < firstByte true e ∧ firstByte true e < 128 := by
  obtain ⟨h0, h1⟩ := he
  have hn : (firstByte true e : Int) = 64 - e :=
    uchar_of_range (i := 64 - e) (by omega) (by omega)
  exact ⟨hn, by omega, by omega⟩

/-- Neither is the byte of zero. -/
theorem firstByte_ne_zero {neg : Bool} {e : Int} (he : InRange e) : firstByte neg e ≠ 128 := by
  cases neg with
  | false => exact (firstByte_false he).2.1.ne'
  | true => exact (firstByte_true he).2.2.ne

/-- The first byte determines sign and exponent. -/
theorem firstByte_inj {neg neg' : Bool} {e e' : Int} (he : InRange e) (he' : InRange e')
    (h : firstByte neg e = firstByte neg' e') : neg = neg' ∧ e = e' := by
  have hp := firstByte_false he
  have hn := firstByte_true he
  have hp' := firstByte_false he'
  have hn' := firstByte_true he'
  cases neg <;> cases neg' <;> first
    | exact ⟨rfl, by omega⟩
    | (exfalso; omega)

/-- The digits of a negative number are complements. -/
theorem digitBytes_below (neg : Bool) {ds : List Nat} (h : Below 100 ds) :
    Below 100 (digitBytes neg ds) := by
  cases neg with
  | false => exact h
  | true => exact compl_below (by norm_num) ds

/-- The digits, back from their bytes. -/
theorem digitBytes_digitBytes (neg : Bool) {ds : List Nat} (h : Below 100 ds) :
    digitBytes neg (digitBytes neg ds) = ds := by
  cases neg with
  | false => rfl
  | true => exact compl_compl h

/-- They are complemented one by one. -/
theorem digitBytes_append (neg : Bool) (xs ys : List Nat) :
    digitBytes neg (xs ++ ys) = digitBytes neg xs ++ digitBytes neg ys := by
  cases neg with
  | false => rfl
  | true => exact List.map_append

/-- A value is its sign and its positive amount. -/
theorem value_signed (neg : Bool) {e : Int} (he : InRange e) {ds : List Nat} (h : Mantissa ds) :
    value (encode neg e ds) = sgn neg * mag 100 e ds ∧ 0 < mag 100 e ds :=
  ⟨value_encode neg he h.below, h.mag_pos e⟩

/-- The greater exponent has the greater amount. -/
theorem mag_lt_of_exponent {e e' : Int} {ds ds' : List Nat} (hds : Mantissa ds)
    (hds' : Mantissa ds') (hlt : e < e') : mag 100 e ds < mag 100 e' ds' := by
  have hhigh := (hds.bounds (by norm_num : 0 < 100) e hds.below).2
  have hlow := (hds'.bounds (by norm_num : 0 < 100) e' hds'.below).1
  have hpow : ((100 : Nat) : ℚ) ^ e ≤ ((100 : Nat) : ℚ) ^ (e' - 1) :=
    zpow_le_zpow_right₀ (by norm_num) (by omega)
  linarith

/-- **The sign byte decides** where it differs. -/
theorem value_lt_of_sign {v w : MtdNumericType} (hv : Canonical v) (hw : Canonical w) {x y : Nat}
    {s t : List Nat} (hbv : bytesOf v = x :: s) (hbw : bytesOf w = y :: t) (hxy : x < y) :
    value v < value w := by
  cases hv with
  | zero =>
    rw [bytesOf_zero] at hbv
    obtain ⟨rfl, -⟩ := List.cons.inj hbv
    cases hw with
    | zero =>
      rw [bytesOf_zero] at hbw
      exact absurd hxy (by rw [(List.cons.inj hbw).1]; exact lt_irrefl _)
    | encode neg e ds hds he =>
      obtain ⟨hval, hpos⟩ := value_signed neg he hds
      rw [bytesOf_encode] at hbw
      obtain ⟨rfl, -⟩ := List.cons.inj hbw
      rw [value_zero, hval]
      cases neg with
      | false => rwa [sgn_false, one_mul]
      | true => exact absurd hxy (Nat.lt_asymm (firstByte_true he).2.2)
  | encode neg e ds hds he =>
    obtain ⟨hval, hpos⟩ := value_signed neg he hds
    rw [bytesOf_encode] at hbv
    obtain ⟨rfl, -⟩ := List.cons.inj hbv
    rw [hval]
    cases hw with
    | zero =>
      rw [bytesOf_zero] at hbw
      obtain ⟨rfl, -⟩ := List.cons.inj hbw
      rw [value_zero]
      -- a zero on the right: the left one is negative
      cases neg with
      | false => exact absurd hxy (Nat.lt_asymm (firstByte_false he).2.1)
      | true =>
        rw [sgn_true]
        linarith
    | encode neg' e' ds' hds' he' =>
      obtain ⟨hval', hpos'⟩ := value_signed neg' he' hds'
      rw [bytesOf_encode] at hbw
      obtain ⟨rfl, -⟩ := List.cons.inj hbw
      rw [hval']
      -- the first bytes of negative numbers are below those of positive ones, and order the
      -- exponents of their own sign
      have hp := firstByte_false he
      have hn := firstByte_true he
      have hp' := firstByte_false he'
      have hn' := firstByte_true he'
      cases neg with
      | false =>
        cases neg' with
        | false =>
          rw [sgn_false, one_mul, one_mul]
          exact mag_lt_of_exponent hds hds' (by omega)
        | true => exact absurd hxy (by omega)
      | true =>
        cases neg' with
        | false =>
          rw [sgn_true, sgn_false]
          linarith
        | true =>
          have hlt : mag 100 e' ds' < mag 100 e ds := mag_lt_of_exponent hds' hds (by omega)
          rw [sgn_true]
          linarith

/-- **The first digit that differs decides** where the sign bytes are equal. -/
theorem value_lt_of_digit {v w : MtdNumericType} (hv : Canonical v) (hw : Canonical w)
    {c x y : Nat} {p s t : List Nat} (hbv : bytesOf v = c :: (p ++ x :: s))
    (hbw : bytesOf w = c :: (p ++ y :: t)) (hxy : x < y) : value v < value w := by
  cases hv with
  | zero =>
    rw [bytesOf_zero] at hbv
    exact absurd (List.cons.inj hbv).2 (by simp)
  | encode neg e ds hds he =>
    cases hw with
    | zero =>
      rw [bytesOf_zero] at hbw
      exact absurd (List.cons.inj hbw).2 (by simp)
    | encode neg' e' ds' hds' he' =>
      rw [bytesOf_encode] at hbv hbw
      obtain ⟨hc, hdv⟩ := List.cons.inj hbv
      obtain ⟨hc', hdw⟩ := List.cons.inj hbw
      obtain ⟨rfl, rfl⟩ := firstByte_inj he he' (hc.trans hc'.symm)
      rw [(value_signed _ he hds).1, (value_signed _ he' hds').1]
      cases neg with
      | false =>
        have hs : Below 100 s := fun d hd =>
          hds.below d (by rw [show ds = p ++ x :: s from hdv]; simp [hd])
        rw [show ds = p ++ x :: s from hdv, show ds' = p ++ y :: t from hdw, sgn_false, one_mul,
          one_mul]
        exact mag_lt_of_first_lt (by norm_num) e p t hs hxy
      | true =>
        -- the bytes are complements: the smaller byte is the greater digit
        have hback := digitBytes_digitBytes true hds.below
        have hback' := digitBytes_digitBytes true hds'.below
        rw [hdv, digitBytes_append] at hback
        rw [hdw, digitBytes_append] at hback'
        have hy : y < 100 := digitBytes_below true hds'.below y (by rw [hdw]; simp)
        have hlt : mag 100 e (compl 100 p ++ (100 - 1 - y) :: compl 100 t) <
            mag 100 e (compl 100 p ++ (100 - 1 - x) :: compl 100 s) :=
          mag_lt_of_first_lt (by norm_num) e _ _ (compl_below (by norm_num) t) (by omega)
        rw [← hback, ← hback', sgn_true]
        show -1 * mag 100 e (compl 100 p ++ (100 - 1 - x) :: compl 100 s) <
          -1 * mag 100 e (compl 100 p ++ (100 - 1 - y) :: compl 100 t)
        linarith

/-- **The sign decides** where one number goes on after the end of the other. -/
theorem value_of_append {v w : MtdNumericType} (hv : Canonical v) (hw : Canonical w) {z : Nat}
    {zs : List Nat} (h : bytesOf w = bytesOf v ++ z :: zs) :
    ∃ c r, bytesOf v = c :: r ∧ (128 ≤ c → value v < value w) ∧ (c < 128 → value w < value v) := by
  cases hw with
  | zero =>
    -- zero has one byte, and no number has none
    exfalso
    have hlen := congrArg List.length h
    cases hv with
    | zero =>
      simp only [bytesOf_zero, List.length_append, List.length_cons, List.length_nil] at hlen
      omega
    | encode neg e ds hds he =>
      simp only [bytesOf_zero, bytesOf_encode, List.length_append, List.length_cons,
        List.length_nil] at hlen
      omega
  | encode neg e ds hds he =>
    cases hv with
    | zero =>
      rw [bytesOf_encode, bytesOf_zero] at h
      exact absurd (List.cons.inj h).1 (firstByte_ne_zero he)
    | encode neg' e' ds' hds' he' =>
      rw [bytesOf_encode, bytesOf_encode, List.cons_append] at h
      obtain ⟨hc, hd⟩ := List.cons.inj h
      obtain ⟨rfl, rfl⟩ := firstByte_inj he he' hc
      refine ⟨_, _, bytesOf_encode neg e ds', ?_⟩
      -- one sign and one exponent, so the digits go on as the bytes do
      have hds_eq : ds = ds' ++ digitBytes neg (z :: zs) := by
        have hback := digitBytes_digitBytes neg hds.below
        rw [hd, digitBytes_append, digitBytes_digitBytes neg hds'.below] at hback
        exact hback.symm
      have hlt : mag 100 e ds' < mag 100 e ds := by
        have hne : digitBytes neg (z :: zs) ≠ [] := by cases neg <;> exact List.cons_ne_nil _ _
        have hlast : (digitBytes neg (z :: zs)).getLast? ≠ some 0 := by
          have hl := hds.last
          rw [hds_eq, List.getLast?_append_of_ne_nil _ hne] at hl
          exact hl
        rw [hds_eq]
        exact mag_lt_append (by norm_num) e ds' hne hlast
      rw [(value_signed _ he hds).1, (value_signed _ he hds').1]
      cases neg with
      | false =>
        rw [sgn_false, one_mul, one_mul]
        exact ⟨fun _ => hlt, fun hn => absurd hn (Nat.lt_asymm (firstByte_false he).2.1)⟩
      | true =>
        rw [sgn_true]
        refine ⟨fun hp => absurd (firstByte_true he).2.2 (not_lt.mpr hp), fun _ => ?_⟩
        linarith

/-- **The first byte that differs decides.** -/
theorem value_lt_of_first {v w : MtdNumericType} (hv : Canonical v) (hw : Canonical w) {x y : Nat}
    {p s t : List Nat} (hbv : bytesOf v = p ++ x :: s) (hbw : bytesOf w = p ++ y :: t)
    (hxy : x < y) : value v < value w := by
  cases p with
  | nil => exact value_lt_of_sign hv hw hbv hbw hxy
  | cons c p => exact value_lt_of_digit hv hw hbv hbw hxy

/-- The bytes determine the value. -/
theorem bytesOf_inj {v w : MtdNumericType} (h : bytesOf v = bytesOf w) : v = w := by
  cases v with
  | null =>
    cases w with
    | null => rfl
    | num se m => exact absurd h (List.cons_ne_nil _ _).symm
  | num se m =>
    cases w with
    | null => exact absurd h (List.cons_ne_nil _ _)
    | num se' m' =>
      obtain ⟨rfl, rfl⟩ := List.cons.inj h
      rfl

/-- A number has a byte. -/
theorem bytesOf_ne_nil {v : MtdNumericType} (hv : Canonical v) : bytesOf v ≠ [] := by
  cases hv with
  | zero => exact List.cons_ne_nil _ _
  | encode neg e ds hds he =>
    rw [bytesOf_encode]
    exact List.cons_ne_nil _ _

/-! ## §4. Keys in memory. -/

theorem bytesAt_length (mem : Nat → UInt8) (p n : Nat) : (bytesAt mem p n).length = n := by
  unfold bytesAt
  rw [List.length_map, List.length_range]

/-- A part of the bytes is read from the same place. -/
theorem bytesAt_take (mem : Nat → UInt8) (p : Nat) {m n : Nat} (h : m ≤ n) :
    (bytesAt mem p n).take m = bytesAt mem p m := by
  unfold bytesAt
  rw [← List.map_take, List.take_range, min_eq_left h]

/-- The bytes of a key. -/
def KeyPart.bytes (mem : Nat → UInt8) (k : KeyPart) : List UInt8 :=
  bytesAt mem k.sSignExponentMantissa k.sLength.toNat

/-- **A key holds a value** if its bytes are those of the value. -/
def KeyPart.Holds (mem : Nat → UInt8) (k : KeyPart) (v : MtdNumericType) : Prop :=
  (k.bytes mem).map UInt8.toNat = bytesOf v

instance decidableHolds (mem : Nat → UInt8) (k : KeyPart) (v : MtdNumericType) :
    Decidable (k.Holds mem v) := inferInstanceAs (Decidable (_ = _))

/-- A key has as many bytes as its length says. -/
theorem KeyPart.bytes_length (mem : Nat → UInt8) (k : KeyPart) :
    (k.bytes mem).length = k.sLength.toNat := bytesAt_length mem _ _

section Keys

variable {mem : Nat → UInt8} {k k1 k2 : KeyPart} {v w : MtdNumericType}

/-- They are those of the value. -/
theorem KeyPart.Holds.length (h : k.Holds mem v) : k.sLength.toNat = (bytesOf v).length := by
  rw [← KeyPart.bytes_length mem k, ← h, List.length_map]

/-- The first byte of a value, read at its address. -/
theorem KeyPart.Holds.first (h : k.Holds mem v) {c : Nat} {r : List Nat}
    (hv : bytesOf v = c :: r) : (mem k.sSignExponentMantissa).toNat = c := by
  have hhead := congrArg List.head? (h.trans hv)
  have hlen := h.length
  rw [hv, List.length_cons] at hlen
  unfold KeyPart.bytes bytesAt at hhead
  rw [List.map_map, List.head?_map, List.head?_range, if_neg (by omega)] at hhead
  exact Option.some.inj hhead

/-- Keys that hold one value have the same bytes. -/
theorem KeyPart.Holds.bytes_eq_iff (h1 : k1.Holds mem v) (h2 : k2.Holds mem w) :
    k1.bytes mem = k2.bytes mem ↔ v = w := by
  constructor
  · intro h
    apply bytesOf_inj
    rw [← h1, ← h2, h]
  · rintro rfl
    have hinj : Function.Injective UInt8.toNat := fun _ _ heq => UInt8.toNat_inj.mp heq
    exact hinj.list_map (h1.trans h2.symm)

/-- `memcmp` within both keys looks at their bytes only. -/
theorem memcmpAt_eq {n : Nat} (h1 : n ≤ k1.sLength.toNat) (h2 : n ≤ k2.sLength.toNat) :
    memcmpAt mem k1.sSignExponentMantissa k2.sSignExponentMantissa n =
      memcmp (k1.bytes mem) (k2.bytes mem) n := by
  unfold memcmpAt memcmp KeyPart.bytes
  rw [bytesAt_take mem _ h1, bytesAt_take mem _ h2]

/-- The bytes that both keys have come first, and then the lengths. -/
theorem nonNullComp_eq (mem : Nat → UInt8) (k1 k2 : KeyPart) {sOrder : Int}
    (h : memcmp (k1.bytes mem) (k2.bytes mem) (min k1.sLength.toNat k2.sLength.toNat) = sOrder) :
    nonNullComp mem k1 k2 =
      if sOrder ≠ 0 then sOrder
      else if k2.sLength.toNat < k1.sLength.toNat then
        if 0x80 ≤ (mem k1.sSignExponentMantissa).toNat then 1 else -1
      else if k1.sLength.toNat < k2.sLength.toNat then
        if 0x80 ≤ (mem k1.sSignExponentMantissa).toNat then -1 else 1
      else 0 := by
  have hsign : mem k1.sSignExponentMantissa ≥ 0x80 ↔
      0x80 ≤ (mem k1.sSignExponentMantissa).toNat := UInt8.le_iff_toNat_le
  have hlonger : k1.sLength > k2.sLength ↔ k2.sLength.toNat < k1.sLength.toNat :=
    UInt8.lt_iff_toNat_lt
  have hshorter : k1.sLength < k2.sLength ↔ k1.sLength.toNat < k2.sLength.toNat :=
    UInt8.lt_iff_toNat_lt
  unfold nonNullComp
  simp only [hsign, hlonger, hshorter]
  by_cases hgt : k2.sLength.toNat < k1.sLength.toNat
  · rw [if_pos hgt, if_pos hgt, memcmpAt_eq (Nat.le_of_lt hgt) (Nat.le_refl _)]
    rw [min_eq_right (Nat.le_of_lt hgt)] at h
    rw [h]
  · rw [if_neg hgt, if_neg hgt]
    rw [min_eq_left (by omega)] at h
    rw [memcmpAt_eq (Nat.le_refl _) (by omega), h]
    by_cases hlt : k1.sLength.toNat < k2.sLength.toNat
    · rw [if_pos hlt, if_pos hlt]
    · rw [if_neg hlt, if_neg hlt]
      by_cases h0 : sOrder = 0
      · rw [if_neg (not_not.mpr h0), h0]
      · rw [if_pos h0]

/-! ## §5. The order of the keys. -/

/-- What a comparison has to return for `a` and `b`. -/
def SignOf {α : Type} [LT α] (c : Int) (a b : α) : Prop :=
  c < 0 ∧ a < b ∨ c = 0 ∧ a = b ∨ 0 < c ∧ b < a

/-- What the sign of a comparison says. -/
theorem SignOf.iff {α : Type} [LinearOrder α] {c : Int} {a b : α} (h : SignOf c a b) :
    (c < 0 ↔ a < b) ∧ (c = 0 ↔ a = b) ∧ (0 < c ↔ b < a) := by
  rcases h with ⟨hc, hab⟩ | ⟨hc, hab⟩ | ⟨hc, hab⟩
  · have hne := hab.ne
    have hnot := hab.not_gt
    exact ⟨by simp [hc, hab], by simp [hc.ne, hne], by simp [hnot, hc.le]⟩
  · subst hab
    exact ⟨by simp [hc], by simp [hc], by simp [hc]⟩
  · have hne := hab.ne'
    have hnot := hab.not_gt
    exact ⟨by simp [hc.le, hnot], by simp [hc.ne', hne], by simp [hc, hab]⟩

/-- The comparison where the first byte that differs decides. -/
theorem nonNullComp_differ {p s t : List UInt8} {x y : UInt8} (hxy : x ≠ y)
    (h1 : k1.bytes mem = p ++ x :: s) (h2 : k2.bytes mem = p ++ y :: t) :
    nonNullComp mem k1 k2 = (x.toNat : Int) - y.toNat := by
  have hne : (x.toNat : Int) - y.toNat ≠ 0 := fun heq => hxy (UInt8.toNat_inj.mp (by omega))
  have hlen1 := KeyPart.bytes_length mem k1
  have hlen2 := KeyPart.bytes_length mem k2
  rw [h1, List.length_append, List.length_cons] at hlen1
  rw [h2, List.length_append, List.length_cons] at hlen2
  have hcmp : memcmp (k1.bytes mem) (k2.bytes mem) (min k1.sLength.toNat k2.sLength.toNat) =
      (x.toNat : Int) - y.toNat := by
    rw [h1, h2]
    exact memcmp_differ p s t hxy (by omega)
  rw [nonNullComp_eq mem k1 k2 hcmp, if_pos hne]

/-- The comparison where the second key goes on after the end of the first. -/
theorem nonNullComp_shorter {z : UInt8} {zs : List UInt8}
    (h : k2.bytes mem = k1.bytes mem ++ z :: zs) : nonNullComp mem k1 k2 =
      if 0x80 ≤ (mem k1.sSignExponentMantissa).toNat then -1 else 1 := by
  have hlen1 := KeyPart.bytes_length mem k1
  have hlen2 := KeyPart.bytes_length mem k2
  rw [h, List.length_append, List.length_cons] at hlen2
  have hcmp : memcmp (k1.bytes mem) (k2.bytes mem) (min k1.sLength.toNat k2.sLength.toNat) = 0 := by
    rw [min_eq_left (by omega), h, ← hlen1]
    exact memcmp_append' _ _
  rw [nonNullComp_eq mem k1 k2 hcmp, if_neg (by omega), if_neg (by omega), if_pos (by omega)]

/-- The comparison where the first key goes on after the end of the second. -/
theorem nonNullComp_longer {z : UInt8} {zs : List UInt8}
    (h : k1.bytes mem = k2.bytes mem ++ z :: zs) : nonNullComp mem k1 k2 =
      if 0x80 ≤ (mem k1.sSignExponentMantissa).toNat then 1 else -1 := by
  have hlen1 := KeyPart.bytes_length mem k1
  have hlen2 := KeyPart.bytes_length mem k2
  rw [h, List.length_append, List.length_cons] at hlen1
  have hcmp : memcmp (k1.bytes mem) (k2.bytes mem) (min k1.sLength.toNat k2.sLength.toNat) = 0 := by
    rw [min_eq_right (by omega), h, ← hlen2]
    exact memcmp_append _ _
  rw [nonNullComp_eq mem k1 k2 hcmp, if_neg (by omega), if_pos (by omega)]

/-- Equal keys compare equal. -/
theorem nonNullComp_same (h : k1.bytes mem = k2.bytes mem) : nonNullComp mem k1 k2 = 0 := by
  have hlen1 := KeyPart.bytes_length mem k1
  have hlen2 := KeyPart.bytes_length mem k2
  rw [h] at hlen1
  have hcmp : memcmp (k1.bytes mem) (k2.bytes mem) (min k1.sLength.toNat k2.sLength.toNat) = 0 := by
    unfold memcmp
    rw [h]
    exact cmpBytes_self _
  rw [nonNullComp_eq mem k1 k2 hcmp, if_neg (by omega), if_neg (by omega), if_neg (by omega)]

/-- **The bytes compare like the numbers.** -/
theorem nonNullComp_order (hv : Canonical v) (hw : Canonical w) (h1 : k1.Holds mem v)
    (h2 : k2.Holds mem w) : SignOf (nonNullComp mem k1 k2) (value v) (value w) := by
  have hb1 : bytesOf v = (k1.bytes mem).map UInt8.toNat := h1.symm
  have hb2 : bytesOf w = (k2.bytes mem).map UInt8.toNat := h2.symm
  rcases first_difference (k1.bytes mem) (k2.bytes mem) with heq | ⟨z, zs, heq⟩ | ⟨z, zs, heq⟩ |
      ⟨p, x, y, s, t, hne, hx, hy⟩
  · obtain rfl : v = w := (h1.bytes_eq_iff h2).mp heq
    exact Or.inr (Or.inl ⟨nonNullComp_same heq, rfl⟩)
  · -- `w` goes on: the sign of both decides
    rw [heq, List.map_append, ← hb1, List.map_cons] at hb2
    obtain ⟨c, r, hc, hpos, hneg⟩ := value_of_append hv hw hb2
    rw [nonNullComp_shorter heq, h1.first hc]
    by_cases h128 : 0x80 ≤ c
    · rw [if_pos h128]
      exact Or.inl ⟨by decide, hpos h128⟩
    · rw [if_neg h128]
      exact Or.inr (Or.inr ⟨by decide, hneg (Nat.lt_of_not_le h128)⟩)
  · -- `v` goes on
    rw [heq, List.map_append, ← hb2, List.map_cons] at hb1
    obtain ⟨c, r, hc, hpos, hneg⟩ := value_of_append hw hv hb1
    rw [hc, List.cons_append] at hb1
    rw [nonNullComp_longer heq, h1.first hb1]
    by_cases h128 : 0x80 ≤ c
    · rw [if_pos h128]
      exact Or.inr (Or.inr ⟨by decide, hpos h128⟩)
    · rw [if_neg h128]
      exact Or.inl ⟨by decide, hneg (Nat.lt_of_not_le h128)⟩
  · -- the first byte that differs decides
    rw [nonNullComp_differ hne hx hy]
    rw [hx, List.map_append, List.map_cons] at hb1
    rw [hy, List.map_append, List.map_cons] at hb2
    have hnat : x.toNat ≠ y.toNat := fun h => hne (UInt8.toNat_inj.mp h)
    rcases Nat.lt_or_gt_of_ne hnat with hlt | hgt
    · exact Or.inl ⟨by omega, value_lt_of_first hv hw hb1 hb2 hlt⟩
    · exact Or.inr (Or.inr ⟨by omega, value_lt_of_first hw hv hb2 hb1 hgt⟩)

/-- NULL, or a number in its only encoding. -/
def Storable (v : MtdNumericType) : Prop := v = .null ∨ Canonical v

/-- **Where a value stands among the keys**: NULL is behind all numbers, in both
    directions. -/
def keyRank (d : Direction) (v : MtdNumericType) : WithTop ℚ :=
  match v with
  | .null => ⊤
  | .num _ _ =>
      match d with
      | .ascending => (value v : ℚ)
      | .descending => (-value v : ℚ)

/-- Ascending keys are in the order of their values, -/
theorem keyRank_ascending (hv : Canonical v) : keyRank .ascending v = (value v : ℚ) := by
  cases v with
  | null => exact absurd rfl (bytesOf_ne_nil hv)
  | num se m => rfl

/-- descending ones in the opposite order, -/
theorem keyRank_descending (hv : Canonical v) : keyRank .descending v = (-value v : ℚ) := by
  cases v with
  | null => exact absurd rfl (bytesOf_ne_nil hv)
  | num se m => rfl

/-- and NULL is behind all of them. -/
theorem keyRank_lt_top (d : Direction) (hv : Canonical v) : keyRank d v < ⊤ := by
  cases d with
  | ascending =>
    rw [keyRank_ascending hv]
    exact WithTop.coe_lt_top _
  | descending =>
    rw [keyRank_descending hv]
    exact WithTop.coe_lt_top _

/-- No two values stand at one place. -/
theorem keyRank_inj (d : Direction) (hv : Storable v) (hw : Storable w)
    (h : keyRank d v = keyRank d w) : v = w := by
  rcases hv with rfl | hv
  · rcases hw with rfl | hw
    · rfl
    · exact absurd h (keyRank_lt_top d hw).ne'
  · rcases hw with rfl | hw
    · exact absurd h (keyRank_lt_top d hv).ne
    · apply canonical_unique hv hw
      cases d with
      | ascending =>
        rw [keyRank_ascending hv, keyRank_ascending hw] at h
        exact WithTop.coe_injective h
      | descending =>
        rw [keyRank_descending hv, keyRank_descending hw] at h
        exact neg_injective (WithTop.coe_injective h)

/-- NULL has the length zero, -/
theorem KeyPart.Holds.null (h : k.Holds mem .null) : k.sLength = 0 :=
  UInt8.toNat_inj.mp h.length

/-- and a number has not. -/
theorem KeyPart.Holds.number (h : k.Holds mem v) (hv : Canonical v) : k.sLength ≠ 0 := by
  intro h0
  have hlen := h.length
  rw [h0] at hlen
  exact bytesOf_ne_nil hv (List.eq_nil_of_length_eq_zero hlen.symm)

/-- The two comparisons. -/
def keyComp : Direction → (Nat → UInt8) → KeyPart → KeyPart → Int
  | .ascending => ascComp
  | .descending => descComp

/-- Where a key is NULL the direction does not matter. -/
theorem keyComp_null {d : Direction} (h : k1.sLength = 0 ∨ k2.sLength = 0) :
    keyComp d mem k1 k2 = nullComp k1 k2 := by
  have hnot : ¬(k1.sLength ≠ 0 ∧ k2.sLength ≠ 0) := by
    rintro ⟨hk1, hk2⟩
    exact h.elim hk1 hk2
  cases d with
  | ascending => exact if_neg hnot
  | descending => exact if_neg hnot

/-- **A comparison orders the keys by rank.** -/
theorem keyComp_order (d : Direction) (hv : Storable v) (hw : Storable w) (h1 : k1.Holds mem v)
    (h2 : k2.Holds mem w) : SignOf (keyComp d mem k1 k2) (keyRank d v) (keyRank d w) := by
  rcases hv with rfl | hv
  · have hk1 := h1.null
    rw [keyComp_null (Or.inl hk1)]
    unfold nullComp
    rw [hk1]
    rcases hw with rfl | hw
    · rw [h2.null]
      exact Or.inr (Or.inl ⟨rfl, rfl⟩)
    · rw [if_pos (UInt8.pos_iff_ne_zero.mpr (h2.number hw))]
      exact Or.inr (Or.inr ⟨by decide, keyRank_lt_top d hw⟩)
  · rcases hw with rfl | hw
    · -- NULL is the shorter key, and the greater one
      have hk2 := h2.null
      rw [keyComp_null (Or.inr hk2)]
      unfold nullComp
      rw [hk2, if_neg UInt8.not_lt_zero, if_pos (UInt8.pos_iff_ne_zero.mpr (h1.number hv))]
      exact Or.inl ⟨by decide, keyRank_lt_top d hv⟩
    · have hboth := And.intro (h1.number hv) (h2.number hw)
      cases d with
      | ascending =>
        show SignOf (ascComp mem k1 k2) _ _
        unfold ascComp
        rw [if_pos hboth, keyRank_ascending hv, keyRank_ascending hw]
        unfold SignOf
        rw [WithTop.coe_lt_coe, WithTop.coe_lt_coe, WithTop.coe_inj]
        exact nonNullComp_order hv hw h1 h2
      | descending =>
        -- the comparison of the second key with the first orders the negated values
        show SignOf (descComp mem k1 k2) _ _
        unfold descComp
        rw [if_pos hboth, keyRank_descending hv, keyRank_descending hw]
        unfold SignOf
        rw [WithTop.coe_lt_coe, WithTop.coe_lt_coe, WithTop.coe_inj, neg_lt_neg_iff,
          neg_lt_neg_iff, neg_inj, eq_comm (a := value v)]
        exact nonNullComp_order hw hv h2 h1

end Keys

/-! ## §6. The functions of the module. -/

/-- A key is given with a value: it is found, and holds the value. -/
def Given (key : Env → ValueInfo → Option KeyPart) (env : Env) (info : ValueInfo)
    (v : MtdNumericType) : Prop :=
  ∃ k, key env info = some k ∧ k.Holds env.mem v

/-- Each of the ten functions is one comparison, with its own way to its keys. -/
theorem mtdNumericCompare_eq (kind : CompareKind) (d : Direction) :
    mtdNumericCompare kind d = compareBy (keyComp d) kind.first kind.second := by
  cases kind <;> cases d <;> rfl

/-- The comparison of two keys that are found. -/
theorem mtdNumericCompare_some (kind : CompareKind) (d : Direction) {env : Env}
    {aValueInfo1 aValueInfo2 : ValueInfo} {k1 k2 : KeyPart}
    (hk1 : kind.first env aValueInfo1 = some k1) (hk2 : kind.second env aValueInfo2 = some k2) :
    mtdNumericCompare kind d env aValueInfo1 aValueInfo2 = some (keyComp d env.mem k1 k2) := by
  rw [mtdNumericCompare_eq]
  unfold compareBy
  rw [hk1, hk2]
  rfl

/-- **All comparison functions agree**: each returns the order of the two values,
    with NULL behind all numbers, and zero for equal values only. -/
theorem mtdNumericCompare_order (kind : CompareKind) (d : Direction) (env : Env)
    {aValueInfo1 aValueInfo2 : ValueInfo} {v w : MtdNumericType} (hv : Storable v) (hw : Storable w)
    (h1 : Given kind.first env aValueInfo1 v) (h2 : Given kind.second env aValueInfo2 w) :
    ∃ c, mtdNumericCompare kind d env aValueInfo1 aValueInfo2 = some c ∧
      (c < 0 ↔ keyRank d v < keyRank d w) ∧ (c = 0 ↔ v = w) ∧
      (0 < c ↔ keyRank d w < keyRank d v) := by
  obtain ⟨k1, hk1, hold1⟩ := h1
  obtain ⟨k2, hk2, hold2⟩ := h2
  obtain ⟨hlt, heq, hgt⟩ := (keyComp_order d hv hw hold1 hold2).iff
  refine ⟨keyComp d env.mem k1 k2, mtdNumericCompare_some kind d hk1 hk2, hlt, ?_, hgt⟩
  rw [heq]
  exact ⟨keyRank_inj d hv hw, fun h => by rw [h]⟩

/-- A row with 5 and -5, and NULL behind it. -/
def fivesEnv : Env where
  mem p := ([2, 193, 5, 2, 63, 94, 0] : List UInt8).getD p 0
  staticNull := 6
  getColumn _ _ := none
  getCompressionColumn _ _ := none

/-- A stored key with 5 and the second column of the row, with -5. -/
def storedFive : ValueInfo := ⟨none, 1, 2, true⟩

/-- The second column of this row. -/
def columnMinusFive : ValueInfo := ⟨some ⟨.fixed, false, 3, 0⟩, 0, 0, false⟩

theorem storable_five (neg : Bool) : Storable (encode neg 1 [5]) :=
  Or.inr (.encode neg 1 [5] (by decide) (by decide))

theorem given_storedFive : Given storedKey fivesEnv storedFive (encode false 1 [5]) :=
  ⟨⟨2, 1⟩, rfl, by decide⟩

theorem given_columnMinusFive : Given mtdKey fivesEnv columnMinusFive (encode true 1 [5]) :=
  ⟨⟨2, 4⟩, rfl, by decide⟩

theorem mtdNumericCompare_order_fives :
    ∃ c, mtdNumericCompare .storedMtd .descending fivesEnv storedFive columnMinusFive = some c ∧
      (c < 0 ↔ keyRank .descending (encode false 1 [5]) < keyRank .descending (encode true 1 [5])) ∧
      (c = 0 ↔ encode false 1 [5] = encode true 1 [5]) ∧
      (0 < c ↔
        keyRank .descending (encode true 1 [5]) < keyRank .descending (encode false 1 [5])) :=
  mtdNumericCompare_order .storedMtd .descending fivesEnv (storable_five false) (storable_five true)
    given_storedFive given_columnMinusFive

/-- **The comparisons and the hash agree**: a comparison returns zero if the bytes of
    the two keys hash alike prefix for prefix, and for such keys only. -/
theorem mtdNumericCompare_hash (kind : CompareKind) (d : Direction) {env : Env}
    {aValueInfo1 aValueInfo2 : ValueInfo} {k1 k2 : KeyPart} {v w : MtdNumericType}
    (hv : Storable v) (hw : Storable w) (hk1 : kind.first env aValueInfo1 = some k1)
    (hk2 : kind.second env aValueInfo2 = some k2) (hold1 : k1.Holds env.mem v)
    (hold2 : k2.Holds env.mem w) :
    mtdNumericCompare kind d env aValueInfo1 aValueInfo2 = some 0 ↔
      HashAlike (k1.bytes env.mem) (k2.bytes env.mem) := by
  have heq := (keyComp_order d hv hw hold1 hold2).iff.2.1
  rw [mtdNumericCompare_some kind d hk1 hk2, Option.some_inj, heq, ← eq_iff_hash_take,
    hold1.bytes_eq_iff hold2]
  exact ⟨keyRank_inj d hv hw, fun h => by rw [h]⟩

theorem mtdNumericCompare_hash_fives :
    mtdNumericCompare .storedMtd .ascending fivesEnv storedFive columnMinusFive = some 0 ↔
      HashAlike (KeyPart.bytes fivesEnv.mem ⟨2, 1⟩) (KeyPart.bytes fivesEnv.mem ⟨2, 4⟩) :=
  mtdNumericCompare_hash .storedMtd .ascending (storable_five false) (storable_five true) rfl rfl
    (by decide) (by decide)

/-- What `mtdHash` hashes are the bytes of the key. -/
theorem mtdHash_eq (env : Env) (aHash aRow : Nat) :
    mtdHash env aHash aRow = hashWithExponent aHash ((mtdPart env aRow).bytes env.mem) := rfl

end Altibase.Mtd
