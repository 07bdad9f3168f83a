/-
  Altibase.Smnb.DirectKey
  ───────────────────────
  **DIRECT KEYS DO NOT CHANGE SEARCH RESULTS** (`smnbModule.cpp`).

  A slot of a node may keep the first key column, or the first bytes of it,
  beside the row pointer.  A search then goes over these keys first.  Where they
  are cut off the keys leave open what they would decide, so the slot that the
  first search returns is looked at once more through its row, and the slots
  behind it are searched by rows.

  A cut-off key may compare equal where the row is smaller, so the first test
  need not be monotone along the node.  What the searches rely on is weaker: a
  key that fails its test belongs to a row that fails it.

    * `findSlotInNode_eq` — the search for a row;
    * `findFirstSlotInNode_eq` — the search for the first row that a minimum
      accepts;
    * `searches_agree` — both, whatever the kind of the index;
    * `findSlotInNode_node` — the search of `Smnb.Node`, which knows rows and
      direct keys only by what it needs of them, is this one.
-/

import Altibase.Lib.LowerBound
import Altibase.Mtk.IndexKey
import Altibase.Smnb.Node

namespace Altibase.Smnb.DirectKey

open Altibase.Lib Altibase.Mtk

/-! ## §1. Columns, rows and slots. -/

/-- `smnbColumn`: the compare function takes the value to compare and a row, and
    `actualSize` is the size of the value at a pointer. -/
structure SmnbColumn (β : Type) where
  compare : ValueInfo β → β → Int
  actualSize : β → Nat

/-- `smnbHeader`.  A key size of zero means that there are no direct keys. -/
structure SmnbHeader (β : Type) where
  columns : List (SmnbColumn β)
  mKeySize : Nat
  mIsPartialKey : Bool

/-- A row pointer and the direct key beside it. -/
structure Slot (β : Type) where
  mRowPtr : Option β
  mKey : β
  deriving DecidableEq, Repr

/-- `smnbNode`. -/
structure SmnbNode (β : Type) where
  slots : List (Slot β)
  mKeySize : Nat
  deriving DecidableEq, Repr

section Code

variable {β : Type}

/-- The columns of two rows, up to the first difference. -/
def compareColumns : List (SmnbColumn β) → β → β → Int
  | [], _, _ => 0
  | c :: cs, aRow1, aRow2 =>
      let sResult := c.compare (mtdInfo aRow1) aRow2
      if sResult ≠ 0 then sResult else compareColumns cs aRow1 aRow2

/-- **`smnbBTree::compareRowsAndPtr`**: a null row is infinite, equal keys are
    ordered by OID. -/
def compareRowsAndPtr (oid : β → Nat) (aColumns : List (SmnbColumn β)) :
    Option β → Option β → Int
  | none, none => 0
  | none, some _ => 1
  | some _, none => -1
  | some aRow1, some aRow2 =>
      let sResult := compareColumns aColumns aRow1 aRow2
      if sResult ≠ 0 then sResult
      else if oid aRow1 > oid aRow2 then 1
      else if oid aRow1 < oid aRow2 then -1
      else 0

/-- **`smnbBTree::compareKeys`**; `none` where `*aIsSuccess` is set to false. -/
def compareKeys (aColumns : List (SmnbColumn β)) (aKey1 : β) (aRow1 : Option β)
    (aPartialKeySize : Nat) (aRow2 : Option β) : Option Int :=
  match aRow1, aRow2 with
  | none, none => some 0
  | none, some _ => some 1
  | some _, none => some (-1)
  | some _, some row2 =>
      match aColumns with
      | [] => none
      | c :: _ => some (c.compare (directInfo aKey1 aPartialKeySize) row2)

/-- The slot at an index; `none` for an index outside the node. -/
def slotAt (aNode : SmnbNode β) (i : Int) : Option (Slot β) :=
  if 0 ≤ i then aNode.slots[i.toNat]? else none

/-- `sMaximum`. -/
def lastSlot (aNode : SmnbNode β) : Int := (aNode.slots.length : Int) - 1

/-- `SMNB_IS_DIRECTKEY_INDEX`. -/
def isDirectKeyIndex (aHeader : SmnbHeader β) : Bool := aHeader.mKeySize ≠ 0

/-- `sPartialKeySize`. -/
def partialKeySize (aHeader : SmnbHeader β) (aNode : SmnbNode β) : Nat :=
  if aHeader.mIsPartialKey then aNode.mKeySize else 0

/-- Whether the direct key of a slot is not below the searched row. -/
def keyTest (aHeader : SmnbHeader β) (aNode : SmnbNode β) (aRow : Option β) (sMedium : Int) :
    Option Bool := do
  let s ← slotAt aNode sMedium
  let sResult ← compareKeys aHeader.columns s.mKey s.mRowPtr (partialKeySize aHeader aNode) aRow
  return 0 ≤ sResult

/-- Whether the row of a slot is not below it. -/
def rowTest (oid : β → Nat) (aHeader : SmnbHeader β) (aNode : SmnbNode β) (aRow : Option β)
    (sMedium : Int) : Option Bool := do
  let s ← slotAt aNode sMedium
  return 0 ≤ compareRowsAndPtr oid aHeader.columns s.mRowPtr aRow

/-- **`smnbBTree::findKeyInNode`.** -/
def findKeyInNode (aHeader : SmnbHeader β) (aNode : SmnbNode β) (aMinimum aMaximum : Int)
    (aRow : Option β) : Option Int :=
  halve (keyTest aHeader aNode aRow) (aNode.slots.length + 1) aMinimum aMaximum

/-- **`smnbBTree::findRowInNode`.** -/
def findRowInNode (oid : β → Nat) (aHeader : SmnbHeader β) (aNode : SmnbNode β)
    (aMinimum aMaximum : Int) (aRow : Option β) : Option Int :=
  halve (rowTest oid aHeader aNode aRow) (aNode.slots.length + 1) aMinimum aMaximum

/-- **`smnbBTree::findSlotInNode`.** -/
def findSlotInNode (oid : β → Nat) (aHeader : SmnbHeader β) (aNode : SmnbNode β)
    (aRow : Option β) : Option Int :=
  let sMaximum := lastSlot aNode
  let byRows (sMinimum : Int) : Option Int :=
    if sMinimum ≤ sMaximum then findRowInNode oid aHeader aNode sMinimum sMaximum aRow
    else some (sMaximum + 1)
  if sMaximum = -1 then some 0
  else if isDirectKeyIndex aHeader then do
    let aSlot ← findKeyInNode aHeader aNode 0 sMaximum aRow
    if aSlot > sMaximum then some aSlot
    else do
      let s ← slotAt aNode aSlot
      if 0 ≤ compareRowsAndPtr oid aHeader.columns s.mRowPtr aRow then some aSlot
      else byRows (aSlot + 1)
  else byRows 0

/-! ## §2. Minimum callbacks. -/

/-- The callbacks that stand in `minimum`: the one of the default range, and
    those of `mtk` for rows and for direct keys. -/
inductive MinimumCallBack (β : Type) where
  | always
  | mtd (k : Kind) (aData : List (RangeStep β))
  | indexKey (k : Kind) (aData : List (RangeStep β))

/-- `aCallBack->callback`, on a row, a direct key or a null pointer, and the size of
    a cut-off key. -/
def MinimumCallBack.callback : MinimumCallBack β → β → Option β → Nat → Bool
  | .always, _, _, _ => true
  | .mtd k aData, aRow, _, _ => rangeCallBack4Mtd k aData aRow
  | .indexKey k aData, aRow, aDirectKey, aDirectKeyPartialSize =>
      rangeCallBack4IndexKey k aData aRow aDirectKey aDirectKeyPartialSize

/-- The steps that read a direct key. -/
def MinimumCallBack.keySteps : MinimumCallBack β → List (RangeStep β)
  | .indexKey _ aData => aData
  | _ => []

/-- **`smnbBTree::isFullKey`** at a slot. -/
def isFullKey (aIndex : SmnbHeader β) (aNode : SmnbNode β) (s : Slot β) : Bool :=
  if isDirectKeyIndex aIndex then
    if aIndex.mIsPartialKey = false then true
    else
      match aIndex.columns with
      | [] => false
      | c :: _ => c.actualSize s.mKey ≤ aNode.mKeySize
  else false

/-- Whether the minimum accepts the row of a slot; a null row it does not see. -/
def firstRowTest (aCallBack : MinimumCallBack β) (aNode : SmnbNode β) (sMedium : Int) :
    Option Bool := do
  let s ← slotAt aNode sMedium
  match s.mRowPtr with
  | none => return true
  | some sRow => return aCallBack.callback sRow none 0

/-- Whether it accepts the direct key of a slot. -/
def firstKeyTest (aHeader : SmnbHeader β) (aCallBack : MinimumCallBack β) (aNode : SmnbNode β)
    (sMedium : Int) : Option Bool := do
  let s ← slotAt aNode sMedium
  match s.mRowPtr with
  | none => return true
  | some sRow => return aCallBack.callback sRow (some s.mKey) (partialKeySize aHeader aNode)

/-- **`smnbBTree::findFirstRowInNode`.** -/
def findFirstRowInNode (aCallBack : MinimumCallBack β) (aNode : SmnbNode β)
    (aMinimum aMaximum : Int) : Option Int :=
  halve (firstRowTest aCallBack aNode) (aNode.slots.length + 1) aMinimum aMaximum

/-- **`smnbBTree::findFirstKeyInNode`.** -/
def findFirstKeyInNode (aHeader : SmnbHeader β) (aCallBack : MinimumCallBack β)
    (aNode : SmnbNode β) (aMinimum aMaximum : Int) : Option Int :=
  halve (firstKeyTest aHeader aCallBack aNode) (aNode.slots.length + 1) aMinimum aMaximum

/-- **`smnbBTree::findFirstSlotInNode`.** -/
def findFirstSlotInNode (aHeader : SmnbHeader β) (aCallBack : MinimumCallBack β)
    (aNode : SmnbNode β) : Option Int :=
  let sMaximum := lastSlot aNode
  if aHeader.mIsPartialKey = false then
    if isDirectKeyIndex aHeader then findFirstKeyInNode aHeader aCallBack aNode 0 sMaximum
    else findFirstRowInNode aCallBack aNode 0 sMaximum
  else do
    let aSlot ← findFirstKeyInNode aHeader aCallBack aNode 0 sMaximum
    if aSlot > sMaximum then some aSlot
    else do
      let s ← slotAt aNode aSlot
      match s.mRowPtr with
      | none => some aSlot
      | some sRow =>
        let sResult :=
          if isFullKey aHeader aNode s then aCallBack.callback sRow (some s.mKey) 0
          else aCallBack.callback sRow none 0
        if sResult then some aSlot
        else if aSlot + 1 ≤ sMaximum then
          findFirstRowInNode aCallBack aNode (aSlot + 1) sMaximum
        else some (sMaximum + 1)

end Code

/-! ## §3. Nodes in order. -/

section Order

variable {β : Type} (oid : β → Nat)

/-- **An index header**: there is a first column, every compare function is an
    order, and a key that is cut off is a direct key. -/
structure HeaderOk (h : SmnbHeader β) : Prop where
  columns_ne : h.columns ≠ []
  orders : ∀ c ∈ h.columns, SignOrder fun a b => c.compare (mtdInfo a) b
  directKey : h.mIsPartialKey = true → h.mKeySize ≠ 0

/-- The direct key of a row compares with every row as the first column does, or,
    where it is cut off, with no difference. -/
def KeyReads (h : SmnbHeader β) (size : Nat) (key row : β) : Prop :=
  ∀ c ∈ h.columns.head?, ∀ x,
    SignOrZero (c.compare (directInfo key size) x) (c.compare (mtdInfo row) x) ∧
      (size = 0 → c.compare (directInfo key size) x = 0 → c.compare (mtdInfo row) x = 0)

/-- **A node in the order of the tree**: rows increase by key and OID, so that only
    the last one can be null, and the direct keys belong to their rows. -/
structure NodeOk (h : SmnbHeader β) (n : SmnbNode β) : Prop where
  sorted : n.slots.Pairwise fun s t =>
    compareRowsAndPtr oid h.columns s.mRowPtr t.mRowPtr < 0
  keys : h.mKeySize ≠ 0 → ∀ s ∈ n.slots, ∀ row ∈ s.mRowPtr,
    KeyReads h (partialKeySize h n) s.mKey row

/-- **A minimum**: it accepts every row above one that it accepts, and the direct
    keys answer the bound of its first column as the rows do, or, where they are
    cut off, with no difference. -/
structure MinimumOk (h : SmnbHeader β) (n : SmnbNode β) (m : MinimumCallBack β) : Prop where
  monotone : ∀ r1 r2, compareColumns h.columns r1 r2 ≤ 0 →
    m.callback r1 none 0 = true → m.callback r2 none 0 = true
  keys : h.mKeySize ≠ 0 → ∀ s ∈ n.slots, ∀ row ∈ s.mRowPtr,
    DirectKeyOf m.keySteps row (some s.mKey) (partialKeySize h n)
  /-- A key that is complete is the whole first column. -/
  complete : ∀ s ∈ n.slots, ∀ row ∈ s.mRowPtr, isFullKey h n s = true →
    DirectKeyOf m.keySteps row (some s.mKey) 0

/-- The row of a slot is not below the row that is searched. -/
def notBelow (h : SmnbHeader β) (x : Option β) (s : Slot β) : Bool :=
  0 ≤ compareRowsAndPtr oid h.columns s.mRowPtr x

/-- A null row lies above every minimum. -/
def accepted (m : MinimumCallBack β) (s : Slot β) : Bool :=
  match s.mRowPtr with
  | none => true
  | some row => m.callback row none 0

theorem compareColumns_signOrder {cs : List (SmnbColumn β)}
    (h : ∀ c ∈ cs, SignOrder fun a b => c.compare (mtdInfo a) b) :
    SignOrder (compareColumns cs) := by
  induction cs with
  | nil => exact zero_signOrder
  | cons c cs ih =>
    exact thenCmp_signOrder (h c List.mem_cons_self)
      (ih fun c' hc' => h c' (List.mem_cons_of_mem c hc'))

/-- **`compareRowsAndPtr` is an order.** -/
theorem compareRowsAndPtr_signOrder {h : SmnbHeader β} (ok : HeaderOk h) :
    SignOrder (compareRowsAndPtr oid h.columns) := by
  have hrows := thenCmp_signOrder (compareColumns_signOrder ok.orders) (natCmp_signOrder oid)
  have heq : compareRowsAndPtr oid h.columns =
      nullLast (thenCmp (compareColumns h.columns) (natCmp oid)) := by
    funext a b
    cases a <;> cases b <;> rfl
  rw [heq]
  exact nullLast_signOrder hrows

variable {oid}

/-- Along a node the rows get greater. -/
theorem NodeOk.lt {h : SmnbHeader β} {n : SmnbNode β} (ok : NodeOk oid h n) {i j : Nat}
    (hij : i < j) (hj : j < n.slots.length) :
    compareRowsAndPtr oid h.columns n.slots[i].mRowPtr n.slots[j].mRowPtr < 0 :=
  List.pairwise_iff_getElem.mp ok.sorted i j (by omega) hj hij

/-- A slot behind one that is not below the row is not below it. -/
theorem notBelow_stays {h : SmnbHeader β} {n : SmnbNode β} (hok : HeaderOk h)
    (ok : NodeOk oid h n) (x : Option β) {i j : Nat} (hij : i ≤ j) (hj : j < n.slots.length)
    (hi : notBelow oid h x n.slots[i] = true) : notBelow oid h x n.slots[j] = true := by
  rcases Nat.eq_or_lt_of_le hij with rfl | hlt
  · exact hi
  · have horder := compareRowsAndPtr_signOrder oid hok
    have hless := ok.lt hlt hj
    unfold notBelow at hi ⊢
    rw [decide_eq_true_eq] at hi ⊢
    have := horder.lt_of_le_of_lt (horder.le_of_ge hi) hless
    exact ((horder.swap _ _).mpr this).le

/-- A slot behind one that is accepted is accepted. -/
theorem accepted_stays {h : SmnbHeader β} {n : SmnbNode β} (ok : NodeOk oid h n)
    {m : MinimumCallBack β} (hm : MinimumOk h n m) {i j : Nat} (hij : i ≤ j)
    (hj : j < n.slots.length) (hi : accepted m n.slots[i] = true) :
    accepted m n.slots[j] = true := by
  rcases Nat.eq_or_lt_of_le hij with rfl | hlt
  · exact hi
  · have hless := ok.lt hlt hj
    unfold accepted at hi ⊢
    cases hrj : n.slots[j].mRowPtr with
    | none => rfl
    | some r2 =>
      cases hri : n.slots[i].mRowPtr with
      | none =>
        -- nothing lies behind a null row
        rw [hri, hrj] at hless
        simp [compareRowsAndPtr] at hless
      | some r1 =>
        rw [hri, hrj] at hless
        rw [hri] at hi
        refine hm.monotone r1 r2 ?_ hi
        unfold compareRowsAndPtr at hless
        by_cases h0 : compareColumns h.columns r1 r2 = 0
        · exact h0.le
        · simp only [ne_eq, h0, not_false_eq_true, if_true] at hless
          exact hless.le

end Order

/-! ## §4. What a key that fails its test says. -/

section Keys

variable {β : Type} {oid : β → Nat} {h : SmnbHeader β} {n : SmnbNode β}

/-- **A key below the searched row belongs to a row below it.** -/
theorem compareKeys_sound (hok : HeaderOk h) (ok : NodeOk oid h n) (hd : h.mKeySize ≠ 0)
    {s : Slot β} (hs : s ∈ n.slots) (x : Option β) :
    ∃ r, compareKeys h.columns s.mKey s.mRowPtr (partialKeySize h n) x = some r ∧
      (r < 0 → notBelow oid h x s = false) := by
  obtain ⟨c, cs, hc⟩ := List.exists_cons_of_ne_nil hok.columns_ne
  unfold notBelow
  cases hr : s.mRowPtr with
  | none =>
    cases x with
    | none => exact ⟨0, rfl, fun h0 => absurd h0 (by decide)⟩
    | some x => exact ⟨1, rfl, fun h0 => absurd h0 (by decide)⟩
  | some row =>
    cases x with
    | none => exact ⟨-1, rfl, fun _ => rfl⟩
    | some x =>
      obtain ⟨hsign, -⟩ := ok.keys hd s hs row hr c (by rw [hc]; rfl) x
      rw [hc]
      refine ⟨_, rfl, fun hneg => ?_⟩
      have hfull : c.compare (mtdInfo row) x < 0 :=
        (hsign.resolve_left hneg.ne).2.mp hneg
      have hcols : compareColumns (c :: cs) row x = c.compare (mtdInfo row) x :=
        if_pos hfull.ne
      have hrow : compareRowsAndPtr oid (c :: cs) (some row) (some x) =
          c.compare (mtdInfo row) x := by
        show (if compareColumns (c :: cs) row x ≠ 0 then _ else _) = _
        rw [hcols, if_pos hfull.ne]
      rw [hrow, decide_eq_false_iff_not]
      omega

/-- Only a key that is cut off ends the comparison early. -/
theorem indexKeyOrder_whole (aRow : β) (key : Option β) (aData : List (RangeStep β)) :
    (indexKeyOrder aRow 0 key aData).2 = false := by
  cases aData with
  | nil => cases key <;> rfl
  | cons sData next =>
    cases key with
    | none => rw [indexKeyOrder_none]
    | some key =>
      unfold indexKeyOrder
      simp only [ne_eq, not_true_eq_false, if_false]
      split_ifs
      · rw [indexKeyOrder_none]
      · rfl

/-- Without a direct key the row is compared. -/
theorem callback_none (k : Kind) (aData : List (RangeStep β)) (row : β) (size : Nat) :
    (MinimumCallBack.indexKey k aData).callback row none size =
      k.test (chainOrder (fun _ => mtdInfo row) aData) := by
  show (if (indexKeyOrder row size none aData).2 = true then _ else
    k.test (indexKeyOrder row size none aData).1) = _
  rw [indexKeyOrder_none]
  rfl

/-- **A whole key is answered as the row is.** -/
theorem callback_whole (m : MinimumCallBack β) {row key : β}
    (hk : DirectKeyOf m.keySteps row (some key) 0) :
    m.callback row (some key) 0 = m.callback row none 0 := by
  cases m with
  | always => rfl
  | mtd k aData => rfl
  | indexKey k aData =>
    have hw := indexKeyOrder_whole row (some key) aData
    rw [callback_none]
    show (if (indexKeyOrder row 0 (some key) aData).2 then _ else
      k.test (indexKeyOrder row 0 (some key) aData).1) = _
    have hk' : DirectKeyOf aData row (some key) 0 := hk
    rcases indexKeyOrder_sign hk' with ⟨hend, -⟩ | ⟨-, hpos, hneg⟩
    · rw [hw] at hend
      cases hend
    · rw [hw]
      exact Kind.test_congr hpos hneg

/-- **A key that is cut off is refused only if the row is.** -/
theorem callback_part (m : MinimumCallBack β) {row key : β} {size : Nat}
    (hk : DirectKeyOf m.keySteps row (some key) size)
    (hrow : m.callback row none 0 = true) : m.callback row (some key) size = true := by
  cases m with
  | always => rfl
  | mtd k aData => exact hrow
  | indexKey k aData =>
    rw [callback_none] at hrow
    show (if (indexKeyOrder row size (some key) aData).2 = true then _ else _) = true
    have hk' : DirectKeyOf aData row (some key) size := hk
    rcases indexKeyOrder_sign hk' with ⟨hend, hge, hle⟩ | ⟨hend, hpos, hneg⟩
    · rw [if_pos hend]
      exact Kind.partialTest_of_test hge hle hrow
    · rw [if_neg (by rw [hend]; exact Bool.false_ne_true)]
      exact (Kind.test_congr hpos hneg).trans hrow

end Keys

/-! ## §5. The two searches. -/

section Search

variable {β : Type} {oid : β → Nat} {h : SmnbHeader β} {n : SmnbNode β}

theorem slotAt_nat {i : Nat} (hi : i < n.slots.length) : slotAt n i = some n.slots[i] := by
  unfold slotAt
  rw [if_pos (by omega), Int.toNat_natCast, List.getElem?_eq_getElem hi]

/-- The first index is where the test changes. -/
theorem findIdx_of_boundary {P : Slot β → Bool} {a : Nat} (ha : a ≤ n.slots.length)
    (hbelow : ∀ j (hj : j < n.slots.length), j < a → P n.slots[j] = false)
    (hat : ∀ ha' : a < n.slots.length, P n.slots[a] = true) : n.slots.findIdx P = a := by
  rcases Nat.eq_or_lt_of_le ha with heq | hlt
  · rw [heq, List.findIdx_eq_length]
    intro s hs
    obtain ⟨j, hj, rfl⟩ := List.getElem_of_mem hs
    exact hbelow j hj (by omega)
  · rw [List.findIdx_eq hlt]
    exact ⟨hat hlt, fun j hj => hbelow j (by omega) hj⟩

/-- **One pass over the slots from `lo` on.**  `test` may accept more than `P`
    does, and the slots before `lo` are refused already: then all slots before the
    result are refused, and the test accepts the result. -/
theorem pass_spec (P : Slot β → Bool) (test : Int → Option Bool) (lo : Nat)
    (hlo : lo < n.slots.length)
    (hstay : ∀ i j, (hij : i ≤ j) → (hj : j < n.slots.length) → P n.slots[i] = true →
      P n.slots[j] = true)
    (hbelow : ∀ j (hj : j < n.slots.length), j < lo → P n.slots[j] = false)
    (htest : ∀ i (hi : i < n.slots.length),
      ∃ b, test (i : Nat) = some b ∧ (b = false → P n.slots[i] = false)) :
    ∃ a : Nat, halve test (n.slots.length + 1) lo (lastSlot n) = some (a : Int) ∧
      a ≤ n.slots.length ∧
      (∀ j (hj : j < n.slots.length), j < a → P n.slots[j] = false) ∧
      (a < n.slots.length → test (a : Nat) = some true) := by
  unfold lastSlot
  obtain ⟨s, hs, h1, h2, h3, h4⟩ := halve_spec test (n.slots.length + 1)
    lo ((n.slots.length : Int) - 1) (by omega) (by push_cast; omega)
    (by
      intro i hi1 hi2
      obtain ⟨j, rfl⟩ : ∃ j : Nat, i = j := ⟨i.toNat, by omega⟩
      obtain ⟨b, hb, -⟩ := htest j (by omega)
      rw [hb]
      rfl)
  obtain ⟨a, rfl⟩ : ∃ a : Nat, s = a := ⟨s.toNat, by omega⟩
  refine ⟨a, hs, by omega, ?_, fun ha => h4 (by omega)⟩
  intro j hj hja
  rcases Nat.lt_or_ge lo a with hla | hla
  · -- the slot before the result is refused, and so are those before it
    obtain ⟨b, hb, hP⟩ := htest (a - 1) (by omega)
    have hprev : test ((a - 1 : Nat) : Int) = some false := by
      rw [← h3 (by omega)]
      congr 1
      omega
    rw [hb] at hprev
    have hP' := hP (Option.some.inj hprev)
    cases hPj : P n.slots[j] with
    | false => rfl
    | true =>
      rw [hstay j (a - 1) (by omega) (by omega) hPj] at hP'
      cases hP'
  · exact hbelow j hj (by omega)

/-- A pass whose test is `P` itself returns the first slot. -/
theorem pass_exact {P : Slot β → Bool} {test : Int → Option Bool} (lo : Nat)
    (hlo : lo < n.slots.length)
    (hstay : ∀ i j, (hij : i ≤ j) → (hj : j < n.slots.length) → P n.slots[i] = true →
      P n.slots[j] = true)
    (hbelow : ∀ j (hj : j < n.slots.length), j < lo → P n.slots[j] = false)
    (htest : ∀ i (hi : i < n.slots.length), test (i : Nat) = some (P n.slots[i])) :
    halve test (n.slots.length + 1) lo (lastSlot n) = some ((n.slots.findIdx P : Nat) : Int) := by
  obtain ⟨a, ha, hle, hlow, hat⟩ := pass_spec P test lo hlo hstay hbelow fun i hi =>
    ⟨_, htest i hi, id⟩
  have hpass : ∀ ha' : a < n.slots.length, P n.slots[a] = true := by
    intro ha'
    have := hat ha'
    rw [htest a ha'] at this
    exact Option.some.inj this
  rw [findIdx_of_boundary hle hlow hpass]
  exact ha

/-- What is left behind a slot that is refused, as a pass or past the end. -/
theorem rest_exact {P : Slot β → Bool} {test : Int → Option Bool} (lo : Nat)
    (hlo : lo ≤ n.slots.length)
    (hstay : ∀ i j, (hij : i ≤ j) → (hj : j < n.slots.length) → P n.slots[i] = true →
      P n.slots[j] = true)
    (hbelow : ∀ j (hj : j < n.slots.length), j < lo → P n.slots[j] = false)
    (htest : ∀ i (hi : i < n.slots.length), test (i : Nat) = some (P n.slots[i])) :
    (if (lo : Int) ≤ lastSlot n then halve test (n.slots.length + 1) lo (lastSlot n)
      else some (lastSlot n + 1)) = some ((n.slots.findIdx P : Nat) : Int) := by
  have hlast : (lo : Int) ≤ lastSlot n ↔ lo < n.slots.length := by
    unfold lastSlot
    omega
  by_cases hmore : lo < n.slots.length
  · rw [if_pos (hlast.mpr hmore)]
    exact pass_exact lo hmore hstay hbelow htest
  · rw [if_neg (hlast.not.mpr hmore),
      findIdx_of_boundary le_rfl (fun j hj _ => hbelow j hj (by omega))
        fun hlt => absurd hlt (by omega)]
    unfold lastSlot
    congr 1
    omega

theorem rowTest_nat (x : Option β) {i : Nat} (hi : i < n.slots.length) :
    rowTest oid h n x (i : Nat) = some (notBelow oid h x n.slots[i]) := by
  unfold rowTest
  rw [slotAt_nat hi]
  rfl

theorem firstRowTest_nat (m : MinimumCallBack β) {i : Nat} (hi : i < n.slots.length) :
    firstRowTest m n (i : Nat) = some (accepted m n.slots[i]) := by
  unfold firstRowTest accepted
  rw [slotAt_nat hi]
  show (match n.slots[i].mRowPtr with | none => _ | some sRow => _) = _
  cases n.slots[i].mRowPtr <;> rfl

/-- **The search for a row** returns the first slot whose row is not below it. -/
theorem findSlotInNode_eq (hok : HeaderOk h) (ok : NodeOk oid h n) (x : Option β) :
    findSlotInNode oid h n x = some ((n.slots.findIdx (notBelow oid h x) : Nat) : Int) := by
  have hstay : ∀ i j, (hij : i ≤ j) → (hj : j < n.slots.length) →
      notBelow oid h x n.slots[i] = true → notBelow oid h x n.slots[j] = true :=
    fun i j hij hj => notBelow_stays hok ok x hij hj
  have hrow : ∀ i (hi : i < n.slots.length),
      rowTest oid h n x (i : Nat) = some (notBelow oid h x n.slots[i]) :=
    fun i hi => rowTest_nat x hi
  unfold findSlotInNode findRowInNode
  by_cases hempty : n.slots.length = 0
  · have hnil : n.slots = [] := List.length_eq_zero_iff.mp hempty
    have hlast : lastSlot n = -1 := by unfold lastSlot; omega
    rw [if_pos hlast, hnil]
    rfl
  have hlast : lastSlot n ≠ -1 := by unfold lastSlot; omega
  rw [if_neg hlast]
  by_cases hd : isDirectKeyIndex h = true
  · rw [if_pos hd]
    have hsize : h.mKeySize ≠ 0 := by simpa [isDirectKeyIndex] using hd
    obtain ⟨a, ha, hle, hlow, -⟩ := pass_spec (notBelow oid h x) (keyTest h n x) 0
      (by omega) hstay (fun j _ hj => absurd hj (by omega)) (by
        intro i hi
        obtain ⟨r, hr, hsound⟩ := compareKeys_sound hok ok hsize (List.getElem_mem hi) x
        refine ⟨decide (0 ≤ r), ?_, fun hf => hsound (by simpa using hf)⟩
        unfold keyTest
        rw [slotAt_nat hi]
        show (compareKeys _ _ _ _ _).bind _ = _
        rw [hr]
        rfl)
    unfold findKeyInNode
    rw [show ((0 : Nat) : Int) = 0 from rfl] at ha
    rw [ha]
    show (if (a : Int) > lastSlot n then some (a : Int) else _) = _
    by_cases hend : a < n.slots.length
    · rw [if_neg (by unfold lastSlot; omega), slotAt_nat hend]
      show (if 0 ≤ compareRowsAndPtr oid h.columns n.slots[a].mRowPtr x then some (a : Int)
        else _) = _
      by_cases hrowa : 0 ≤ compareRowsAndPtr oid h.columns n.slots[a].mRowPtr x
      · rw [if_pos hrowa, findIdx_of_boundary hle hlow fun _ => decide_eq_true hrowa]
      · -- the slot itself is below the row: go on behind it
        rw [if_neg hrowa]
        refine rest_exact (a + 1) hend hstay ?_ hrow
        intro j hj hja
        by_cases hjeq : j = a
        · subst hjeq
          exact decide_eq_false hrowa
        · exact hlow j hj (by omega)
    · rw [if_pos (by unfold lastSlot; omega),
        findIdx_of_boundary hle hlow fun h => absurd h hend]
  · rw [if_neg hd]
    exact rest_exact 0 (by omega) hstay (fun j _ hj => absurd hj (by omega)) hrow

/-- **The search for a minimum** returns the first slot that it accepts. -/
theorem findFirstSlotInNode_eq (hok : HeaderOk h) (ok : NodeOk oid h n) {m : MinimumCallBack β}
    (hm : MinimumOk h n m) (hne : n.slots ≠ []) :
    findFirstSlotInNode h m n = some ((n.slots.findIdx (accepted m) : Nat) : Int) := by
  have hstay : ∀ i j, (hij : i ≤ j) → (hj : j < n.slots.length) →
      accepted m n.slots[i] = true → accepted m n.slots[j] = true :=
    fun i j hij hj => accepted_stays ok hm hij hj
  have hrow : ∀ i (hi : i < n.slots.length),
      firstRowTest m n (i : Nat) = some (accepted m n.slots[i]) :=
    fun i hi => firstRowTest_nat m hi
  have hlen : 0 < n.slots.length := List.length_pos_iff.mpr hne
  unfold findFirstSlotInNode findFirstRowInNode findFirstKeyInNode
  by_cases hp : h.mIsPartialKey = false
  · rw [if_pos hp]
    by_cases hd : isDirectKeyIndex h = true
    · -- whole keys: every key is answered as its row
      rw [if_pos hd]
      have hsize : h.mKeySize ≠ 0 := by simpa [isDirectKeyIndex] using hd
      refine pass_exact 0 hlen hstay (fun j _ hj => absurd hj (by omega)) ?_
      intro i hi
      have hzero : partialKeySize h n = 0 := by
        unfold partialKeySize
        rw [hp]
        rfl
      unfold firstKeyTest accepted
      rw [slotAt_nat hi]
      show (match n.slots[i].mRowPtr with | none => _ | some sRow => _) = _
      cases hr : n.slots[i].mRowPtr with
      | none => rfl
      | some row =>
        have hk := hm.keys hsize n.slots[i] (List.getElem_mem hi) row hr
        rw [hzero] at hk ⊢
        exact congrArg some (callback_whole m hk)
    · rw [if_neg hd]
      exact pass_exact 0 hlen hstay (fun j _ hj => absurd hj (by omega)) hrow
  · rw [if_neg hp]
    have hsize := hok.directKey (by simpa using hp)
    obtain ⟨a, ha, hle, hlow, -⟩ := pass_spec (accepted m) (firstKeyTest h m n) 0
      hlen hstay (fun j _ hj => absurd hj (by omega)) (by
        intro i hi
        unfold firstKeyTest accepted
        rw [slotAt_nat hi]
        cases hr : n.slots[i].mRowPtr with
        | none => exact ⟨true, by simp [hr], fun h => nomatch h⟩
        | some row =>
          have hk := hm.keys hsize n.slots[i] (List.getElem_mem hi) row hr
          refine ⟨m.callback row (some n.slots[i].mKey) (partialKeySize h n), by simp [hr], ?_⟩
          intro hf
          rw [Bool.eq_false_iff] at hf ⊢
          exact fun hacc => hf (callback_part m hk hacc))
    rw [show ((0 : Nat) : Int) = 0 from rfl] at ha
    rw [ha]
    show (if (a : Int) > lastSlot n then some (a : Int) else _) = _
    by_cases hend : a < n.slots.length
    · rw [if_neg (by unfold lastSlot; omega), slotAt_nat hend]
      show (match n.slots[a].mRowPtr with | none => some (a : Int) | some sRow => _) = _
      cases hr : n.slots[a].mRowPtr with
      | none =>
        have hacc : accepted m n.slots[a] = true := by
          unfold accepted
          rw [hr]
        show some (a : Int) = _
        rw [findIdx_of_boundary hle hlow fun _ => hacc]
      | some row =>
        have hcall : (if isFullKey h n n.slots[a] = true then
            m.callback row (some n.slots[a].mKey) 0 else m.callback row none 0) =
            accepted m n.slots[a] := by
          unfold accepted
          rw [hr]
          split_ifs with hfull
          · exact callback_whole m (hm.complete n.slots[a] (List.getElem_mem hend) row hr hfull)
          · rfl
        show (if (if isFullKey h n n.slots[a] = true then
          m.callback row (some n.slots[a].mKey) 0 else m.callback row none 0) = true then
            some (a : Int) else _) = _
        rw [hcall]
        by_cases hacc : accepted m n.slots[a] = true
        · rw [if_pos hacc, findIdx_of_boundary hle hlow fun _ => hacc]
        · -- the key was accepted but the row is not: go on behind it
          rw [if_neg hacc]
          refine rest_exact (a + 1) hend hstay ?_ hrow
          intro j hj hja
          by_cases hjeq : j = a
          · subst hjeq
            simpa using hacc
          · exact hlow j hj (by omega)
    · rw [if_pos (by unfold lastSlot; omega),
        findIdx_of_boundary hle hlow fun h => absurd h hend]

end Search

/-! ## §6. Every kind of index. -/

/-- **Direct keys do not change search results**: both searches return what the
    rows alone say, without direct keys, with whole and with cut-off ones.  The
    search for a minimum is made in nodes with at least one slot. -/
theorem searches_agree {β : Type} {oid : β → Nat} {h : SmnbHeader β} {n : SmnbNode β}
    {m : MinimumCallBack β} (hok : HeaderOk h) (ok : NodeOk oid h n) (hm : MinimumOk h n m) :
    (∀ x, findSlotInNode oid h n x = some ((n.slots.findIdx (notBelow oid h x) : Nat) : Int)) ∧
      (n.slots ≠ [] →
        findFirstSlotInNode h m n = some ((n.slots.findIdx (accepted m) : Nat) : Int)) :=
  ⟨findSlotInNode_eq hok ok, findFirstSlotInNode_eq hok ok hm⟩

/-! ### Numbers with two digits, of which the index keeps the first. -/

/-- Compares a number, or its first digit. -/
def compareTens (info : ValueInfo Nat) (x : Nat) : Int :=
  if info.partialKey then (info.value : Int) - (x / 10 : Nat) else (info.value : Int) - x

/-- An index of one column that keeps the first digit. -/
def tensHeader : SmnbHeader Nat := ⟨[⟨compareTens, fun _ => 2⟩], 1, true⟩

/-- 12, 17 and a null row; both keys are 1. -/
def tensNode : SmnbNode Nat := ⟨[⟨some 12, 1⟩, ⟨some 17, 1⟩, ⟨none, 0⟩], 1⟩

theorem tensHeader_ok : HeaderOk tensHeader := by
  refine ⟨by simp [tensHeader], ?_, fun _ => by decide⟩
  intro c hc
  simp only [tensHeader, List.mem_singleton] at hc
  subst hc
  constructor
  · intro a b
    simp only [compareTens, mtdInfo, Bool.false_eq_true, if_false]
    omega
  · intro a b e
    simp only [compareTens, mtdInfo, Bool.false_eq_true, if_false]
    omega

/-- The first digit of a number compares as the number or with no difference. -/
theorem compareTens_part {key row : Nat} (h : key = row / 10) (x : Nat) :
    SignOrZero (compareTens (directInfo key 1) x) (compareTens (mtdInfo row) x) := by
  simp only [compareTens, directInfo, mtdInfo, SignOrZero, ne_eq, one_ne_zero, not_false_eq_true,
    decide_true, if_true, Bool.false_eq_true, if_false]
  omega

theorem tensKeys {s : Slot Nat} (hs : s ∈ tensNode.slots) {row : Nat}
    (hr : s.mRowPtr = some row) : s.mKey = row / 10 := by
  simp only [tensNode, List.mem_cons, List.not_mem_nil, or_false] at hs
  rcases hs with rfl | rfl | rfl <;> cases hr <;> rfl

theorem tensNode_ok : NodeOk (fun _ => 0) tensHeader tensNode := by
  refine ⟨by decide, ?_⟩
  intro _ s hs row hr c hc x
  simp only [tensHeader, List.head?_cons, Option.mem_some_iff] at hc
  subst hc
  exact ⟨compareTens_part (tensKeys hs hr) x, fun h => absurd h (by decide)⟩

/-- The minimum `> 15`. -/
def aboveFifteen : MinimumCallBack Nat := .indexKey .gt [⟨fun info => compareTens info 15, 0⟩]

theorem aboveFifteen_ok : MinimumOk tensHeader tensNode aboveFifteen := by
  have hcall : ∀ r, aboveFifteen.callback r none 0 = true ↔ 15 < r := by
    intro r
    have hcomp : compareTens (mtdInfo r) 15 = (r : Int) - 15 := rfl
    unfold aboveFifteen
    rw [callback_none, chainOrder]
    simp only [hcomp]
    by_cases h0 : (r : Int) - 15 = 0
    · simp only [h0, if_true, chainOrder, Kind.test, lt_irrefl, decide_false, Bool.false_eq_true,
        false_iff]
      omega
    · simp only [h0, if_false, Kind.test, decide_eq_true_eq]
      omega
  refine ⟨?_, ?_, ?_⟩
  · intro r1 r2 hle h1
    rw [hcall] at h1 ⊢
    have hcols : compareColumns tensHeader.columns r1 r2 = (r1 : Int) - r2 := by
      show (if compareTens (mtdInfo r1) r2 ≠ 0 then compareTens (mtdInfo r1) r2 else 0) = _
      have hcomp : compareTens (mtdInfo r1) r2 = (r1 : Int) - r2 := rfl
      rw [hcomp]
      split_ifs with h0
      · rfl
      · omega
    omega
  · intro _ s hs row hr key hkey sData hsData
    cases hkey
    simp only [aboveFifteen, MinimumCallBack.keySteps, List.head?_cons,
      Option.mem_some_iff] at hsData
    subst hsData
    exact ⟨compareTens_part (tensKeys hs hr) 15, fun h => absurd h (by decide)⟩
  · intro s hs row hr hfull
    exact absurd hfull (by simp [isFullKey, isDirectKeyIndex, tensHeader, tensNode])

theorem searches_agree_tens :
    (∀ x, findSlotInNode (fun _ => 0) tensHeader tensNode x =
        some ((tensNode.slots.findIdx (notBelow (fun _ => 0) tensHeader x) : Nat) : Int)) ∧
      (tensNode.slots ≠ [] → findFirstSlotInNode tensHeader aboveFifteen tensNode =
        some ((tensNode.slots.findIdx (accepted aboveFifteen) : Nat) : Int)) :=
  searches_agree tensHeader_ok tensNode_ok aboveFifteen_ok

example : findSlotInNode (fun _ => 0) tensHeader tensNode (some 15) = some 1 := by decide

/-- **In a node without slots the search for a minimum reads the slot before the
    first one**, where the search for a row returns 0. -/
theorem findFirst_outside :
    findSlotInNode (fun _ => 0) tensHeader ⟨[], 1⟩ (some 15) = some 0 ∧
      findFirstSlotInNode tensHeader .always ⟨[], 1⟩ = none ∧
      ¬ ∀ (oid : Nat → Nat) (h : SmnbHeader Nat) (n : SmnbNode Nat) (m : MinimumCallBack Nat),
        HeaderOk h → NodeOk oid h n → MinimumOk h n m →
          findFirstSlotInNode h m n = some ((n.slots.findIdx (accepted m) : Nat) : Int) := by
  refine ⟨by decide, by decide, ?_⟩
  intro hall
  have hnode : NodeOk (fun _ => 0) tensHeader ⟨[], 1⟩ :=
    ⟨List.Pairwise.nil, fun _ s hs => absurd hs List.not_mem_nil⟩
  have hmin : MinimumOk tensHeader ⟨[], 1⟩ .always :=
    ⟨fun _ _ _ _ => rfl, fun _ s hs => absurd hs List.not_mem_nil,
      fun s hs => absurd hs List.not_mem_nil⟩
  exact absurd (hall _ tensHeader ⟨[], 1⟩ .always tensHeader_ok hnode hmin) (by decide)

/-! ## §7. The search of `Smnb.Node`. -/

section Node

variable {κ δ : Type} [LinearOrder κ]

/-- The columns of a row as one, behind a pointer to a row or to a direct key: two
    rows compare by their key columns, a direct key and a row by the first one. -/
def keyColumn (h : KeyInfo κ δ) : SmnbColumn (Row κ ⊕ δ) where
  compare info x :=
    match info.value, x with
    | .inl r1, .inl r2 => compareKey r1.key r2.key
    | .inr key, .inl r2 => h.compareFirst key r2
    | _, .inr _ => 0
  actualSize _ := 0

/-- The header of an index that `Smnb.Node` describes; whether its keys are cut off
    is open there. -/
def headerOf (h : KeyInfo κ δ) (aIsPartialKey : Bool) : SmnbHeader (Row κ ⊕ δ) :=
  ⟨[keyColumn h], if h.isDirectKey then 1 else 0, aIsPartialKey⟩

/-- The slots of `Smnb.Node` as pointers. -/
def nodeOf (slots : List (Smnb.Slot κ δ)) (size : Nat) : SmnbNode (Row κ ⊕ δ) :=
  ⟨slots.map fun s => ⟨s.mRowPtr.map .inl, .inr s.mKey⟩, size⟩

/-- The OID behind a pointer. -/
def oidOf : Row κ ⊕ δ → Nat :=
  Sum.elim Row.oid fun _ => 0

variable (h : KeyInfo κ δ) (slots : List (Smnb.Slot κ δ)) (cut : Bool) (size : Nat)

/-- **Rows compare as in `Smnb.Node`.** -/
theorem compareRowsAndPtr_node (r1 r2 : Option (Row κ)) :
    compareRowsAndPtr oidOf (headerOf h cut).columns (r1.map .inl) (r2.map .inl) =
      Smnb.compareRowsAndPtr r1 r2 := by
  cases r1 with
  | none => cases r2 <;> rfl
  | some r1 =>
    cases r2 with
    | none => rfl
    | some r2 =>
      have hcols : compareColumns (headerOf h cut).columns (.inl r1) (.inl r2) =
          compareKey r1.key r2.key := by
        show (if compareKey r1.key r2.key ≠ 0 then compareKey r1.key r2.key else 0) = _
        split_ifs with h0
        · rfl
        · exact (not_not.mp h0).symm
      show (if compareColumns _ _ _ ≠ 0 then compareColumns _ _ _ else _) = _
      rw [hcols]
      rfl

/-- A direct key compares with a row as in `Smnb.Node`. -/
theorem compareKeys_node (s : Smnb.Slot κ δ) (row : Row κ) :
    compareKeys (headerOf h cut).columns (.inr s.mKey) (s.mRowPtr.map .inl) size
        (some (.inl row)) = some (h.compareKeys s row) := by
  unfold KeyInfo.compareKeys
  cases s.mRowPtr <;> rfl

variable {slots}

omit [LinearOrder κ] in
theorem slotAt_node {i : Nat} (hi : i < slots.length) :
    slotAt (nodeOf slots size) (i : Nat) =
      some ⟨slots[i].mRowPtr.map .inl, .inr slots[i].mKey⟩ := by
  rw [slotAt_nat (by simpa [nodeOf] using hi)]
  simp [nodeOf]

omit [LinearOrder κ] in
theorem lastSlot_node : lastSlot (nodeOf slots size) = (slots.length : Int) - 1 := by
  simp [lastSlot, nodeOf]

/-- The pass over the direct keys. -/
theorem findKeyInNode_node (row : Row κ) (hne : 0 < slots.length) :
    findKeyInNode (headerOf h cut) (nodeOf slots size) 0 (lastSlot (nodeOf slots size))
        (some (.inl row)) =
      some ((Smnb.findKeyInNode h slots 0 slots.length row : Nat) : Int) := by
  unfold findKeyInNode Smnb.findKeyInNode
  rw [lastSlot_node]
  refine halve_eq_lowerBound _ _ _ _ 0 slots.length hne (by simp [nodeOf]) (by simp) ?_
  intro i _ hi
  unfold keyTest
  rw [slotAt_node size hi, List.getElem?_eq_getElem hi]
  show (compareKeys _ _ _ _ _).bind _ = _
  rw [compareKeys_node]
  rfl

/-- The pass over the rows. -/
theorem findRowInNode_node (row : Row κ) {lo : Nat} (hlo : lo < slots.length) :
    findRowInNode oidOf (headerOf h cut) (nodeOf slots size) lo
        (lastSlot (nodeOf slots size)) (some (.inl row)) =
      some ((Smnb.findRowInNode slots lo slots.length row : Nat) : Int) := by
  unfold findRowInNode Smnb.findRowInNode
  rw [lastSlot_node]
  refine halve_eq_lowerBound _ _ _ _ lo slots.length hlo (by simp [nodeOf]; omega) (by omega) ?_
  intro i _ hi
  unfold rowTest
  rw [slotAt_node size hi, rowAt_of_lt hi]
  exact congrArg some (congrArg (decide <| 0 ≤ ·) (compareRowsAndPtr_node h cut _ (some row)))

/-- The pass over the rows from a slot on, or past the end. -/
theorem byRows_node (row : Row κ) {lo : Nat} (hlo : lo ≤ slots.length) :
    (if (lo : Int) ≤ lastSlot (nodeOf slots size) then
        findRowInNode oidOf (headerOf h cut) (nodeOf slots size) lo
          (lastSlot (nodeOf slots size)) (some (.inl row))
      else some (lastSlot (nodeOf slots size) + 1)) =
      some (((if lo < slots.length then Smnb.findRowInNode slots lo slots.length row
        else slots.length : Nat)) : Int) := by
  have hlast : lastSlot (nodeOf slots size) = (slots.length : Int) - 1 := lastSlot_node size
  by_cases hmore : lo < slots.length
  · rw [if_pos (by omega), if_pos hmore]
    exact findRowInNode_node h cut size row hmore
  · rw [if_neg (by omega), if_neg hmore, hlast, Int.sub_add_cancel]

/-- **The search of `Smnb.Node` is this search**, in every node, whatever the order of
    its slots and whatever the direct keys in them. -/
theorem findSlotInNode_node (row : Row κ) :
    findSlotInNode oidOf (headerOf h cut) (nodeOf slots size) (some (.inl row)) =
      some ((Smnb.findSlotInNode h slots row : Nat) : Int) := by
  have hlast : lastSlot (nodeOf slots size) = (slots.length : Int) - 1 := lastSlot_node size
  unfold findSlotInNode Smnb.findSlotInNode
  dsimp only
  by_cases hempty : slots.length = 0
  · rw [if_pos (by omega), if_pos hempty]
    rfl
  rw [if_neg (by omega), if_neg hempty]
  by_cases hd : h.isDirectKey = true
  · have hkeys : isDirectKeyIndex (headerOf h cut) = true := by
      simp [isDirectKeyIndex, headerOf, hd]
    rw [if_pos hkeys, if_pos hd, findKeyInNode_node h cut size row (by omega)]
    generalize Smnb.findKeyInNode h slots 0 slots.length row = slot
    show (if (slot : Int) > lastSlot _ then some (slot : Int) else _) = _
    by_cases hend : slot > slots.length - 1
    · rw [if_pos (by omega), if_pos hend]
    have hslot : slot < slots.length := by omega
    rw [if_neg (by omega), if_neg hend, slotAt_node size hslot]
    show (if 0 ≤ compareRowsAndPtr oidOf _ (slots[slot].mRowPtr.map .inl)
      ((some row).map .inl) then some (slot : Int) else _) = _
    rw [compareRowsAndPtr_node, rowAt_of_lt hslot]
    by_cases hrow : 0 ≤ Smnb.compareRowsAndPtr slots[slot].mRowPtr (some row)
    · rw [if_pos hrow, if_pos hrow]
    · rw [if_neg hrow, if_neg hrow]
      have hrest := byRows_node h cut size row (show slot + 1 ≤ slots.length from hslot)
      rw [Nat.cast_add, Nat.cast_one] at hrest
      rw [hrest]
      congr 2
      split_ifs <;> first | rfl | omega
  · have hrows : ¬ isDirectKeyIndex (headerOf h cut) = true := by
      simp [isDirectKeyIndex, headerOf, hd]
    rw [if_neg hrows, if_neg hd]
    have hrest := byRows_node h cut size row (Nat.zero_le slots.length)
    rw [Nat.cast_zero, if_pos (show 0 < slots.length by omega)] at hrest
    exact hrest

end Node

end Altibase.Smnb.DirectKey
