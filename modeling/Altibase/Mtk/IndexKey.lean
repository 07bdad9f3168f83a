/-
  Altibase.Mtk.IndexKey
  ─────────────────────
  **A DIRECT KEY HIDES NO ROW.**

  An index may keep a key, or the first bytes of it, beside the row.  The
  callbacks `rangeCallBack*4IndexKey` compare that direct key first and read the
  row only behind it.  A part of a key that compares equal decides nothing: GT
  and LT then answer as GE and LE do, and the later columns are not compared.

    * `indexKeyOrder_sign` — what the comparison of a direct key says;
    * `indexKey_hides_nothing` — what a full callback accepts is accepted.
-/

import Altibase.Mtk.Range

namespace Altibase.Mtk

/-! ## §1. The callbacks. -/

/-- `mtdValueInfo` without the column: `offsetUse` is `MTD_OFFSET_USE`, else
`MTD_OFFSET_USELESS`; `partialKey` is `MTD_PARTIAL_KEY_ON`. -/
structure ValueInfo (β : Type) where
  value : β
  length : ℕ
  offsetUse : Bool
  partialKey : Bool
  deriving DecidableEq, Repr

/-- One step of a chain: `compare` with the column descriptor and the value of the
bound put in, and the column it reads from a row of values. -/
structure RangeStep (β : Type) where
  compare : ValueInfo β → Int
  columnIdx : ℕ

section Callbacks

variable {β : Type}

/-- What a callback asks of `sOrder`. -/
def Kind.test : Kind → Int → Bool
  | .ge, sOrder => 0 ≤ sOrder
  | .le, sOrder => sOrder ≤ 0
  | .gt, sOrder => 0 < sOrder
  | .lt, sOrder => sOrder < 0

/-- What it asks of the order of a part of a key. -/
def Kind.partialTest : Kind → Int → Bool
  | .ge, sOrder => 0 ≤ sOrder
  | .le, sOrder => sOrder ≤ 0
  | .gt, sOrder => 0 ≤ sOrder
  | .lt, sOrder => sOrder ≤ 0

/-- The column value at its offset in the row. -/
def mtdInfo (aColVal : β) : ValueInfo β :=
  { value := aColVal, length := 0, offsetUse := true, partialKey := false }

/-- `sOrder` after the loop, with the value each step reads. -/
def chainOrder (read : RangeStep β → ValueInfo β) : List (RangeStep β) → Int
  | [] => 0
  | sData :: next =>
      let sOrder := sData.compare (read sData)
      if sOrder = 0 then chainOrder read next else sOrder

/-- `rangeCallBackGE4Mtd` and its siblings. -/
def rangeCallBack4Mtd (k : Kind) (aData : List (RangeStep β)) (aColVal : β) : Bool :=
  k.test (chainOrder (fun _ => mtdInfo aColVal) aData)

/-- `smiValue`. -/
structure SmiValue (β : Type) where
  value : β
  length : ℕ

/-- The stored value of the column of a step. -/
def storedInfo (sColVal : ℕ → SmiValue β) (sData : RangeStep β) : ValueInfo β :=
  { value := (sColVal sData.columnIdx).value, length := (sColVal sData.columnIdx).length
    offsetUse := true, partialKey := false }

/-- `rangeCallBackGE4Stored` and its siblings. -/
def rangeCallBack4Stored (k : Kind) (aData : List (RangeStep β)) (sColVal : ℕ → SmiValue β) :
    Bool :=
  k.test (chainOrder (storedInfo sColVal) aData)

/-- The direct key, and whether it is a part of the key only. -/
def directInfo (aDirectKey : β) (aDirectKeyPartialSize : ℕ) : ValueInfo β :=
  { value := aDirectKey, length := aDirectKeyPartialSize, offsetUse := false
    partialKey := aDirectKeyPartialSize ≠ 0 }

/-- `sOrder` after the loop of the callbacks for a direct key, and whether a part of
a key ended it.  `none` is the null pointer: the direct key is used once. -/
def indexKeyOrder (aColVal : β) (aDirectKeyPartialSize : ℕ) :
    Option β → List (RangeStep β) → Int × Bool
  | _, [] => (0, false)
  | some aDirectKey, sData :: next =>
      let sOrder := sData.compare (directInfo aDirectKey aDirectKeyPartialSize)
      if aDirectKeyPartialSize ≠ 0 then (sOrder, true)
      else if sOrder = 0 then indexKeyOrder aColVal aDirectKeyPartialSize none next
      else (sOrder, false)
  | none, sData :: next =>
      let sOrder := sData.compare (mtdInfo aColVal)
      if sOrder = 0 then indexKeyOrder aColVal aDirectKeyPartialSize none next
      else (sOrder, false)

/-- `rangeCallBackGE4IndexKey`, `rangeCallBackLE4IndexKey`, `rangeCallBackGT4IndexKey`
and `rangeCallBackLT4IndexKey`. -/
def rangeCallBack4IndexKey (k : Kind) (aData : List (RangeStep β)) (aColVal : β)
    (aDirectKey : Option β) (aDirectKeyPartialSize : ℕ) : Bool :=
  let (sOrder, ended) := indexKeyOrder aColVal aDirectKeyPartialSize aDirectKey aData
  if ended then k.partialTest sOrder else k.test sOrder

end Callbacks

/-! ## §2. What a direct key is. -/

/-- The sign of `y`, or no answer. -/
def SignOrZero (x y : Int) : Prop := x = 0 ∨ ((0 < x ↔ 0 < y) ∧ (x < 0 ↔ y < 0))

/-- **The direct key belongs to the row**: compared to the bound of the first step, a
part of it answers as the column value or with 0, and the whole key as the
column value. -/
def DirectKeyOf {β : Type} (aData : List (RangeStep β)) (aColVal : β) (aDirectKey : Option β)
    (size : ℕ) : Prop :=
  ∀ key ∈ aDirectKey, ∀ sData ∈ aData.head?,
    SignOrZero (sData.compare (directInfo key size)) (sData.compare (mtdInfo aColVal)) ∧
      (size = 0 → sData.compare (directInfo key size) = 0 → sData.compare (mtdInfo aColVal) = 0)

/-- The row of stored values has the columns of the row that `aColVal` points to. -/
def StoredRowOf {β : Type} (aData : List (RangeStep β)) (sColVal : ℕ → SmiValue β)
    (aColVal : β) : Prop :=
  ∀ sData ∈ aData, sData.compare (storedInfo sColVal sData) = sData.compare (mtdInfo aColVal)

/-! ## §3. No row is hidden. -/

section Hidden

variable {β : Type} {aData : List (RangeStep β)} {aColVal : β} {aDirectKey : Option β} {size : ℕ}

/-- Without a direct key only the row is read. -/
theorem indexKeyOrder_none (aColVal : β) (size : ℕ) (aData : List (RangeStep β)) :
    indexKeyOrder aColVal size none aData = (chainOrder (fun _ => mtdInfo aColVal) aData, false) := by
  induction aData with
  | nil => rfl
  | cons sData next ih =>
    unfold indexKeyOrder chainOrder
    by_cases h : sData.compare (mtdInfo aColVal) = 0
    · simp only [if_pos h, ih]
    · simp only [if_neg h]

/-- **What the comparison of a direct key says**: a part of a key, nothing against the
full order; else its sign. -/
theorem indexKeyOrder_sign (h : DirectKeyOf aData aColVal aDirectKey size) :
    let full := chainOrder (fun _ => mtdInfo aColVal) aData
    let part := indexKeyOrder aColVal size aDirectKey aData
    (part.2 = true ∧ (0 ≤ full → 0 ≤ part.1) ∧ (full ≤ 0 → part.1 ≤ 0)) ∨
      (part.2 = false ∧ (0 < part.1 ↔ 0 < full) ∧ (part.1 < 0 ↔ full < 0)) := by
  intro full part
  cases aDirectKey with
  | none =>
    have hpart : part = (full, false) := indexKeyOrder_none aColVal size aData
    rw [hpart]
    exact .inr ⟨rfl, Iff.rfl, Iff.rfl⟩
  | some key =>
    cases aData with
    | nil => exact .inr ⟨rfl, Iff.rfl, Iff.rfl⟩
    | cons sData next =>
      obtain ⟨hsign, hzero⟩ := h key rfl sData rfl
      have hfull : full = if sData.compare (mtdInfo aColVal) = 0 then
          chainOrder (fun _ => mtdInfo aColVal) next else sData.compare (mtdInfo aColVal) := rfl
      have hpart : part = if size ≠ 0 then (sData.compare (directInfo key size), true)
          else if sData.compare (directInfo key size) = 0 then indexKeyOrder aColVal size none next
          else (sData.compare (directInfo key size), false) := rfl
      by_cases hsize : size = 0
      · rw [if_neg (not_not_intro hsize)] at hpart
        refine .inr ?_
        by_cases hx : sData.compare (directInfo key size) = 0
        · -- the first column is equal, so the row decides
          rw [if_pos hx, indexKeyOrder_none] at hpart
          rw [if_pos (hzero hsize hx)] at hfull
          rw [hpart, hfull]
          exact ⟨rfl, Iff.rfl, Iff.rfl⟩
        · obtain ⟨hpos, hneg⟩ := hsign.resolve_left hx
          rw [if_neg hx] at hpart
          have hy : sData.compare (mtdInfo aColVal) ≠ 0 := by omega
          rw [if_neg hy] at hfull
          rw [hpart, hfull]
          exact ⟨rfl, hpos, hneg⟩
      · rw [if_pos hsize] at hpart
        refine .inl ?_
        rw [hpart]
        refine ⟨rfl, ?_⟩
        show (0 ≤ full → 0 ≤ sData.compare (directInfo key size)) ∧
          (full ≤ 0 → sData.compare (directInfo key size) ≤ 0)
        unfold SignOrZero at hsign
        by_cases hy : sData.compare (mtdInfo aColVal) = 0
        · rw [hy] at hsign
          omega
        · rw [if_neg hy] at hfull
          rw [hfull]
          omega

/-- An order that does not contradict the full one passes the weakened test. -/
theorem Kind.partialTest_of_test {k : Kind} {full part : Int} (hge : 0 ≤ full → 0 ≤ part)
    (hle : full ≤ 0 → part ≤ 0) (h : k.test full = true) : k.partialTest part = true := by
  cases k <;> simp only [Kind.test, Kind.partialTest, decide_eq_true_eq] at h ⊢ <;> omega

theorem Kind.test_congr {k : Kind} {x y : Int} (hpos : 0 < x ↔ 0 < y) (hneg : x < 0 ↔ y < 0) :
    k.test x = k.test y := by
  cases k <;> simp only [Kind.test, decide_eq_decide] <;> omega

theorem chainOrder_congr {read read' : RangeStep β → ValueInfo β} {aData : List (RangeStep β)}
    (h : ∀ sData ∈ aData, sData.compare (read sData) = sData.compare (read' sData)) :
    chainOrder read aData = chainOrder read' aData := by
  induction aData with
  | nil => rfl
  | cons sData next ih =>
    unfold chainOrder
    rw [h sData List.mem_cons_self, ih (fun s hs => h s (List.mem_cons_of_mem sData hs))]

/-- **No row is hidden.**  A row that the full callback of the same kind accepts is
accepted with its direct key, whole or cut off anywhere. -/
theorem indexKey_hides_nothing (k : Kind) (aData : List (RangeStep β)) (aColVal : β)
    (aDirectKey : Option β) (size : ℕ) (h : DirectKeyOf aData aColVal aDirectKey size) :
    (rangeCallBack4Mtd k aData aColVal = true →
        rangeCallBack4IndexKey k aData aColVal aDirectKey size = true) ∧
      ∀ sColVal, StoredRowOf aData sColVal aColVal → rangeCallBack4Stored k aData sColVal = true →
        rangeCallBack4IndexKey k aData aColVal aDirectKey size = true := by
  have hmtd : rangeCallBack4Mtd k aData aColVal = true →
      rangeCallBack4IndexKey k aData aColVal aDirectKey size = true := by
    intro hfull
    show (if (indexKeyOrder aColVal size aDirectKey aData).2 = true then _ else _) = true
    rcases indexKeyOrder_sign h with ⟨hend, hge, hle⟩ | ⟨hend, hpos, hneg⟩
    · rw [if_pos hend]
      exact Kind.partialTest_of_test hge hle hfull
    · rw [if_neg (by rw [hend]; exact Bool.false_ne_true)]
      exact (Kind.test_congr hpos hneg).trans hfull
  refine ⟨hmtd, fun sColVal hrow hfull => hmtd ?_⟩
  unfold rangeCallBack4Stored at hfull
  rwa [chainOrder_congr hrow] at hfull

end Hidden

/-! ## §4. The bounds of a range. -/

/-- The steps of a bound: the row is the key itself. -/
def stepsOf {α : Type} (K : KeyCompare α) : ℕ → List (MtkRangeCallBack α) → List (RangeStep (Key α))
  | _, [] => []
  | j, c :: cs => ⟨fun info => compareStep K j (info.value j) c, j⟩ :: stepsOf K (j + 1) cs

theorem chainOrder_stepsOf {α : Type} (K : KeyCompare α) (key : Key α)
    (cs : List (MtkRangeCallBack α)) (j : ℕ) :
    chainOrder (fun _ => mtdInfo key) (stepsOf K j cs) = rangeOrder K key j cs := by
  induction cs generalizing j with
  | nil => rfl
  | cons c cs ih =>
    unfold stepsOf chainOrder rangeOrder
    rw [ih]
    rfl

/-- **The callback of a bound** is the full callback on its steps. -/
theorem rangeCallBack_eq {α : Type} (K : KeyCompare α) (b : SmiCallBack α) (key : Key α) :
    rangeCallBack K b key = rangeCallBack4Mtd b.callback.kind (stepsOf K 0 b.data) key := by
  unfold rangeCallBack rangeCallBack4Mtd
  rw [chainOrder_stepsOf]
  cases b.callback.kind <;> rfl

/-! ## §5. A part of a key. -/

/-- Bytes compared in order; of a part of a key only the bytes that are there. -/
def compareBytes (bound : List ℕ) (info : ValueInfo (List ℕ)) : Int :=
  let key := if info.partialKey then info.value.take info.length else info.value
  let against := if info.partialKey then bound.take info.length else bound
  if key < against then -1 else if against < key then 1 else 0

/-- The key 7 1 with the bound GT 7 0, of which the first byte is in the index. -/
theorem indexKey_hides_nothing_gt :
    DirectKeyOf [⟨compareBytes [7, 0], 0⟩] [7, 1] (some [7]) 1 ∧
      rangeCallBack4IndexKey .gt [⟨compareBytes [7, 0], 0⟩] [7, 1] (some [7]) 1 = true := by
  have h : DirectKeyOf [⟨compareBytes [7, 0], 0⟩] [7, 1] (some [7]) 1 := by
    intro key hkey sData hsData
    cases hkey
    cases hsData
    exact ⟨.inl (by decide), fun h => absurd h (by decide)⟩
  exact ⟨h, (indexKey_hides_nothing .gt _ [7, 1] _ 1 h).1 (by decide)⟩

end Altibase.Mtk
