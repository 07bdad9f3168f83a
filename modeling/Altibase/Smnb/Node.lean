/-
  Altibase.Smnb.Node
  ──────────────────
  **ROWS AND SLOTS OF THE MEMORY B-TREE** (`smnbModule.cpp`).

  A row is known by its OID and carries its key value.  Rows are ordered by
  key and, where keys are equal, by OID; a null row pointer stands for
  infinity.  A slot of a node holds a row pointer and, in a direct key index,
  a copy of the first key column.

    * `rank` — the order `compareRowsAndPtr` computes, as a linear order;
    * `findSlotInNode_spec` — the search of a node, with or without direct
      keys, returns the first slot whose row is not below the wanted one.
-/

import Altibase.Lib.LowerBound
import Mathlib.Data.Prod.Lex
import Mathlib.Order.WithBot

namespace Altibase.Smnb

open Altibase.Lib

variable {κ δ : Type} [LinearOrder κ]

/-! ## §1. Rows and their order. -/

/-- A row version: its key columns and its OID. -/
structure Row (κ : Type) where
  key : κ
  oid : Nat
  deriving DecidableEq, Repr

/-- The column compare functions, column by column, on two key values. -/
def compareKey (a b : κ) : Int :=
  if a < b then -1 else if b < a then 1 else 0

/-- `smnbBTree::compareRows`: key values only; a null row is infinite. -/
def compareRows : Option (Row κ) → Option (Row κ) → Int
  | none, none => 0
  | none, some _ => 1
  | some _, none => -1
  | some r1, some r2 => compareKey r1.key r2.key

/-- `smnbBTree::compareRowsAndPtr`: equal keys are ordered by OID. -/
def compareRowsAndPtr : Option (Row κ) → Option (Row κ) → Int
  | none, none => 0
  | none, some _ => 1
  | some _, none => -1
  | some r1, some r2 =>
      if compareKey r1.key r2.key ≠ 0 then compareKey r1.key r2.key
      else if r1.oid > r2.oid then 1
      else if r1.oid < r2.oid then -1
      else 0

/-- **The position of a row pointer in the index order.** -/
def rank : Option (Row κ) → WithTop (κ ×ₗ Nat)
  | none => ⊤
  | some r => ((toLex (r.key, r.oid) : κ ×ₗ Nat) : WithTop (κ ×ₗ Nat))

omit [LinearOrder κ] in
@[simp] theorem rank_none : rank (none : Option (Row κ)) = ⊤ := rfl

theorem rank_some_lt_top (r : Row κ) : rank (some r) < ⊤ := WithTop.coe_lt_top _

theorem rank_some_lt {r1 r2 : Row κ} :
    rank (some r1) < rank (some r2) ↔
      r1.key < r2.key ∨ r1.key = r2.key ∧ r1.oid < r2.oid := by
  unfold rank
  rw [WithTop.coe_lt_coe, Prod.Lex.toLex_lt_toLex]

theorem rank_some_le_key {r1 r2 : Row κ} (h : rank (some r1) ≤ rank (some r2)) :
    r1.key ≤ r2.key := by
  unfold rank at h
  rw [WithTop.coe_le_coe, Prod.Lex.toLex_le_toLex] at h
  obtain h | h := h
  · exact le_of_lt h
  · exact le_of_eq h.1

theorem compareKey_neg_iff (a b : κ) : compareKey a b < 0 ↔ a < b := by
  unfold compareKey
  split_ifs with h1 h2 <;> simp [h1]

theorem compareKey_eq_zero_iff (a b : κ) : compareKey a b = 0 ↔ a = b := by
  unfold compareKey
  split_ifs with h1 h2
  · simp [h1.ne]
  · simp [h2.ne']
  · simp [le_antisymm (not_lt.mp h2) (not_lt.mp h1)]

/-- `compareRowsAndPtr` computes the order of `rank`. -/
theorem compareRowsAndPtr_neg_iff (a b : Option (Row κ)) :
    compareRowsAndPtr a b < 0 ↔ rank a < rank b := by
  cases a with
  | none => cases b <;> simp [compareRowsAndPtr]
  | some r1 =>
    cases b with
    | none => simp [compareRowsAndPtr, rank_some_lt_top]
    | some r2 =>
      rw [rank_some_lt]
      simp only [compareRowsAndPtr]
      by_cases hk : compareKey r1.key r2.key = 0
      · have hkey : r1.key = r2.key := (compareKey_eq_zero_iff _ _).mp hk
        rw [if_neg (not_not_intro hk)]
        simp only [hkey, lt_irrefl, true_and, false_or]
        split_ifs <;> omega
      · have hne : r1.key ≠ r2.key := fun h => hk ((compareKey_eq_zero_iff _ _).mpr h)
        simp only [ne_eq, hk, not_false_eq_true, if_true, hne, false_and, or_false]
        exact compareKey_neg_iff _ _

theorem compareRowsAndPtr_nonneg_iff (a b : Option (Row κ)) :
    0 ≤ compareRowsAndPtr a b ↔ rank b ≤ rank a := by
  rw [← not_lt, compareRowsAndPtr_neg_iff, not_lt]

/-! ## §2. Slots and direct keys. -/

/-- One slot of a node: the row pointer and the direct key beside it. -/
structure Slot (κ δ : Type) where
  mRowPtr : Option (Row κ)
  mKey : δ
  deriving DecidableEq, Repr

/-- **The search parameters of an index header.**  `isDirectKey` is
`SMNB_IS_DIRECTKEY_INDEX`; `makeKeyFromRow` copies the (possibly cut) first
column, `compareFirst` is the compare function of the first column on such a
copy and a row, and `noKey` the zeroed key of a null row. -/
structure KeyInfo (κ δ : Type) [LinearOrder κ] where
  isDirectKey : Bool
  makeKeyFromRow : Row κ → δ
  compareFirst : δ → Row κ → Int
  noKey : δ
  /-- A copy that compares below a row comes from a row with a smaller key. -/
  compareFirst_sound : ∀ r1 r2, compareFirst (makeKeyFromRow r1) r2 < 0 → r1.key < r2.key
  /-- The copies compare in the order of the keys they come from. -/
  compareFirst_mono : ∀ r1 r1' r2, r1.key ≤ r1'.key →
    0 ≤ compareFirst (makeKeyFromRow r1) r2 → 0 ≤ compareFirst (makeKeyFromRow r1') r2

namespace KeyInfo

variable (h : KeyInfo κ δ)

/-- The direct key that belongs beside a row pointer. -/
def keyOf : Option (Row κ) → δ
  | none => h.noKey
  | some r => if h.isDirectKey then h.makeKeyFromRow r else h.noKey

/-- The slot of a row pointer. -/
def slotOf (r : Option (Row κ)) : Slot κ δ := ⟨r, h.keyOf r⟩

@[simp] theorem slotOf_row (r : Option (Row κ)) : (h.slotOf r).mRowPtr = r := rfl

/-- `smnbBTree::compareKeys`: the direct key of a slot against a row; the row
pointer of the slot tells whether the slot is the infinite one. -/
def compareKeys (s : Slot κ δ) (row : Row κ) : Int :=
  match s.mRowPtr with
  | none => 1
  | some _ => h.compareFirst s.mKey row

end KeyInfo

/-! ## §3. Searching a node. -/

/-- Row pointer of slot `i`; past the last slot, a null pointer. -/
def rowAt (slots : List (Slot κ δ)) (i : Nat) : Option (Row κ) :=
  (slots[i]?).bind (·.mRowPtr)

/-- `smnbBTree::findKeyInNode` over the slots `[lo, hi)`; `*aSlot` is where the
two bounds meet, and `aMaximum` is `hi - 1`. -/
def findKeyInNode (h : KeyInfo κ δ) (slots : List (Slot κ δ)) (lo hi : Nat) (row : Row κ) :
    Nat :=
  lowerBound (fun i => decide (0 ≤ ((slots[i]?).map (h.compareKeys · row)).getD 0))
    slots.length lo hi

/-- `smnbBTree::findRowInNode` over the slots `[lo, hi)`. -/
def findRowInNode (slots : List (Slot κ δ)) (lo hi : Nat) (row : Row κ) : Nat :=
  lowerBound (fun i => decide (0 ≤ compareRowsAndPtr (rowAt slots i) (some row)))
    slots.length lo hi

/-- `smnbBTree::findSlotInNode`. -/
def findSlotInNode (h : KeyInfo κ δ) (slots : List (Slot κ δ)) (row : Row κ) : Nat :=
  if slots.length = 0 then 0
  else if h.isDirectKey then
    let slot := findKeyInNode h slots 0 slots.length row
    if slot > slots.length - 1 then slot
    else if 0 ≤ compareRowsAndPtr (rowAt slots slot) (some row) then slot
    else if slot + 1 ≤ slots.length - 1 then findRowInNode slots (slot + 1) slots.length row
    else slots.length
  else findRowInNode slots 0 slots.length row

/-- Strictly increasing rows, each with its own direct key. -/
structure SlotsOk (h : KeyInfo κ δ) (slots : List (Slot κ δ)) : Prop where
  sorted : slots.Pairwise (fun s t => rank s.mRowPtr < rank t.mRowPtr)
  keys : ∀ s ∈ slots, s.mKey = h.keyOf s.mRowPtr

omit [LinearOrder κ] in
theorem rowAt_of_lt {slots : List (Slot κ δ)} {i : Nat} (hi : i < slots.length) :
    rowAt slots i = slots[i].mRowPtr := by
  unfold rowAt
  rw [List.getElem?_eq_getElem hi]
  rfl

namespace SlotsOk

variable {h : KeyInfo κ δ} {slots : List (Slot κ δ)}

theorem rank_lt (ok : SlotsOk h slots) {i j : Nat} (hij : i < j) (hj : j < slots.length) :
    rank (rowAt slots i) < rank (rowAt slots j) := by
  rw [rowAt_of_lt (by omega), rowAt_of_lt hj]
  exact List.pairwise_iff_getElem.mp ok.sorted i j (by omega) hj hij

theorem rank_le (ok : SlotsOk h slots) {i j : Nat} (hij : i ≤ j) (hj : j < slots.length) :
    rank (rowAt slots i) ≤ rank (rowAt slots j) := by
  by_cases heq : i = j
  · rw [heq]
  · exact le_of_lt (ok.rank_lt (by omega) hj)

/-- The row test of `findRowInNode` stays true. -/
theorem row_stays (ok : SlotsOk h slots) (row : Row κ) (lo : Nat) :
    StaysTrue (fun i => decide (0 ≤ compareRowsAndPtr (rowAt slots i) (some row)))
      lo slots.length := by
  intro i j _ hij hj hp
  simp only [decide_eq_true_eq, compareRowsAndPtr_nonneg_iff] at hp ⊢
  exact le_trans hp (ok.rank_le hij hj)

/-- What the direct key test says about the row of a slot. -/
theorem compareKeys_neg (ok : SlotsOk h slots) (hd : h.isDirectKey = true) {row : Row κ} {i : Nat}
    (hi : i < slots.length) (hneg : h.compareKeys slots[i] row < 0) :
    rank (rowAt slots i) < rank (some row) := by
  rw [rowAt_of_lt hi]
  have hkey := ok.keys slots[i] (List.getElem_mem hi)
  unfold KeyInfo.compareKeys at hneg
  cases hr : slots[i].mRowPtr with
  | none => simp [hr] at hneg
  | some r =>
    simp only [hr, hkey, KeyInfo.keyOf, hd, if_true] at hneg
    exact rank_some_lt.mpr (Or.inl (h.compareFirst_sound _ _ hneg))

/-- The direct key test of `findKeyInNode` stays true. -/
theorem key_stays (ok : SlotsOk h slots) (hd : h.isDirectKey = true) (row : Row κ) :
    StaysTrue (fun i => decide (0 ≤ ((slots[i]?).map (h.compareKeys · row)).getD 0))
      0 slots.length := by
  intro i j _ hij hj hp
  have hi : i < slots.length := by omega
  simp only [List.getElem?_eq_getElem hi, List.getElem?_eq_getElem hj, Option.map_some,
    Option.getD_some, decide_eq_true_eq] at hp ⊢
  have hle : rank slots[i].mRowPtr ≤ rank slots[j].mRowPtr := by
    have := ok.rank_le hij hj
    rwa [rowAt_of_lt hi, rowAt_of_lt hj] at this
  have hki := ok.keys slots[i] (List.getElem_mem hi)
  have hkj := ok.keys slots[j] (List.getElem_mem hj)
  unfold KeyInfo.compareKeys at hp ⊢
  cases hrj : slots[j].mRowPtr with
  | none => simp
  | some rj =>
    cases hri : slots[i].mRowPtr with
    | none =>
      -- a null row is above every row
      rw [hri, hrj, rank_none, top_le_iff] at hle
      exact absurd hle (rank_some_lt_top rj).ne
    | some ri =>
      rw [hri, hrj] at hle
      simp only [hri, hki, hkj, hrj, KeyInfo.keyOf, hd, if_true] at hp ⊢
      exact h.compareFirst_mono ri rj row (rank_some_le_key hle) hp

end SlotsOk

/-- The slot a search should return: the first one not below the row. -/
structure IsSlotFor (slots : List (Slot κ δ)) (row : Row κ) (p : Nat) : Prop where
  le_length : p ≤ slots.length
  below : ∀ i, i < p → rank (rowAt slots i) < rank (some row)
  notBelow : ∀ i, p ≤ i → i < slots.length → rank (some row) ≤ rank (rowAt slots i)

theorem IsSlotFor.unique {slots : List (Slot κ δ)} {row : Row κ} {p q : Nat}
    (hp : IsSlotFor slots row p) (hq : IsSlotFor slots row q) : p = q := by
  have hplen := hp.le_length
  have hqlen := hq.le_length
  by_contra hne
  obtain hlt | hlt : p < q ∨ q < p := by omega
  · exact absurd (hq.below p hlt) (not_lt.mpr (hp.notBelow p (le_refl _) (by omega)))
  · exact absurd (hp.below q hlt) (not_lt.mpr (hq.notBelow q (le_refl _) (by omega)))

/-- The row search of the slots from `lo` on. -/
theorem findRowInNode_spec {h : KeyInfo κ δ} {slots : List (Slot κ δ)} (ok : SlotsOk h slots)
    (row : Row κ) {lo : Nat} (hlo : lo ≤ slots.length)
    (hbelow : ∀ i, i < lo → rank (rowAt slots i) < rank (some row)) :
    IsSlotFor slots row (findRowInNode slots lo slots.length row) := by
  obtain ⟨_, h2, h3, h4⟩ := lowerBound_spec _ slots.length lo slots.length hlo (by omega)
    (ok.row_stays row lo)
  refine ⟨h2, ?_, ?_⟩
  · intro i hi
    by_cases hil : i < lo
    · exact hbelow i hil
    · have := h3 i (by omega) hi
      rw [decide_eq_false_iff_not, not_le, compareRowsAndPtr_neg_iff] at this
      exact this
  · intro i hi hilen
    have := h4 i hi hilen
    rw [decide_eq_true_eq, compareRowsAndPtr_nonneg_iff] at this
    exact this

/-- **The search of a node finds the first slot not below the row.** -/
theorem findSlotInNode_spec {h : KeyInfo κ δ} {slots : List (Slot κ δ)} (ok : SlotsOk h slots)
    (row : Row κ) : IsSlotFor slots row (findSlotInNode h slots row) := by
  unfold findSlotInNode
  by_cases hempty : slots.length = 0
  · rw [if_pos hempty]
    exact ⟨by omega, fun i hi => by omega, fun i _ hi => by omega⟩
  rw [if_neg hempty]
  by_cases hd : h.isDirectKey = true
  · rw [if_pos hd]
    obtain ⟨_, k2, k3, _⟩ := lowerBound_spec _ slots.length 0 slots.length (by omega) (by omega)
      (ok.key_stays hd row)
    show IsSlotFor slots row
      (if findKeyInNode h slots 0 slots.length row > slots.length - 1 then _ else _)
    have hk2 : findKeyInNode h slots 0 slots.length row ≤ slots.length := k2
    have hbelow : ∀ i, i < findKeyInNode h slots 0 slots.length row →
        rank (rowAt slots i) < rank (some row) := by
      intro i hi
      have hilen : i < slots.length := by omega
      have hneg := k3 i (by omega) hi
      rw [decide_eq_false_iff_not, not_le, List.getElem?_eq_getElem hilen] at hneg
      exact ok.compareKeys_neg hd hilen hneg
    generalize findKeyInNode h slots 0 slots.length row = slot at hk2 hbelow
    by_cases hlast : slot > slots.length - 1
    · rw [if_pos hlast]
      exact ⟨hk2, hbelow, fun i hi hilen => by omega⟩
    rw [if_neg hlast]
    by_cases hrow : 0 ≤ compareRowsAndPtr (rowAt slots slot) (some row)
    · rw [if_pos hrow]
      refine ⟨hk2, hbelow, ?_⟩
      intro i hi hilen
      exact le_trans ((compareRowsAndPtr_nonneg_iff _ _).mp hrow) (ok.rank_le hi hilen)
    · -- the slot itself is below the row: go on behind it
      have hslot : ∀ i, i < slot + 1 → rank (rowAt slots i) < rank (some row) := by
        intro i hi
        by_cases hil : i < slot
        · exact hbelow i hil
        · have : i = slot := by omega
          rw [this]
          exact (compareRowsAndPtr_neg_iff _ _).mp (not_le.mp hrow)
      rw [if_neg hrow]
      by_cases hmore : slot + 1 ≤ slots.length - 1
      · rw [if_pos hmore]
        exact findRowInNode_spec ok row (by omega) hslot
      · rw [if_neg hmore]
        exact ⟨le_refl _, fun i hi => hslot i (by omega), fun i hi hilen => by omega⟩
  · rw [if_neg hd]
    exact findRowInNode_spec ok row (by omega) (fun i hi => by omega)

end Altibase.Smnb
