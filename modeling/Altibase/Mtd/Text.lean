/-
  Altibase.Mtd.Text
  ─────────────────
  **THE KEY COMPARISONS OF CHAR AND VARCHAR.**

  VARCHAR values are compared byte by byte and the longer of two with one prefix
  is the greater.  CHAR values are compared as if the shorter one went on with
  blanks, but bytes below the blank are not compared on the spot: the first byte
  above the blank decides, and it decides for "smaller" if a byte below the
  blank came before it.  NULL, the empty value, is put last in both directions.

    * `mtdChar`, `mtdVarchar` with `keyCompare` — as in the source;
    * `charCompare_append` — a value against a prefix of it, as CHAR;
    * `tailOrder_neg_iff` — when a CHAR value is below one of its prefixes;
    * `charCompare_differ`, `varcharCompare_differ` — the first difference
      decides.
-/

import Mathlib.Data.List.Basic
import Mathlib.Tactic.SplitIfs

namespace Altibase.Mtd

/-! ## §1. The comparisons. -/

/-- The difference of the first bytes that are not equal. -/
def cmpBytes : List UInt8 → List UInt8 → Int
  | x :: xs, y :: ys => if x = y then cmpBytes xs ys else (x.toNat : Int) - y.toNat
  | _, _ => 0

/-- `idlOS::memcmp`, of which only the sign is specified. -/
def memcmp (aValue1 aValue2 : List UInt8) (n : ℕ) : Int :=
  cmpBytes (aValue1.take n) (aValue2.take n)

/-- The loop from `sIterator` to `sFence` over the bytes that only the longer
value has: how this value stands to the shorter one. -/
def tailOrder (sExist : Bool) : List UInt8 → Int
  | [] => 0
  | c :: rest =>
      if c > 0x20 then if sExist = false then 1 else -1
      else if c < 0x20 then tailOrder true rest
      else tailOrder sExist rest

/-- The comparison of two CHAR values that are not NULL. -/
def charCompare (aValue1 aValue2 : List UInt8) : Int :=
  if aValue1.length ≥ aValue2.length then
    let sCompared := memcmp aValue1 aValue2 aValue2.length
    if sCompared ≠ 0 then sCompared else tailOrder false (aValue1.drop aValue2.length)
  else
    let sCompared := memcmp aValue1 aValue2 aValue1.length
    if sCompared ≠ 0 then sCompared else -tailOrder false (aValue2.drop aValue1.length)

/-- The comparison of two VARCHAR values that are not NULL. -/
def varcharCompare (aValue1 aValue2 : List UInt8) : Int :=
  if aValue1.length > aValue2.length then
    if memcmp aValue1 aValue2 aValue2.length ≥ 0 then 1 else -1
  else if aValue1.length < aValue2.length then
    if memcmp aValue1 aValue2 aValue1.length > 0 then 1 else -1
  else memcmp aValue1 aValue2 aValue1.length

/-- NULL is greater than any value, and equal to itself. -/
def nullCompare (aValue1 aValue2 : List UInt8) : Int :=
  if aValue1.length < aValue2.length then 1
  else if aValue1.length > aValue2.length then -1
  else 0

/-- `MTD_COMPARE_ASCENDING` and `MTD_COMPARE_DESCENDING`. -/
inductive Direction where
  | ascending | descending
  deriving DecidableEq, Repr

/-- A comparison of values that are not NULL as a key comparison: descending
keys swap the values, but not NULL. -/
def keyCompareBy (compare : List UInt8 → List UInt8 → Int) (d : Direction)
    (aValue1 aValue2 : List UInt8) : Int :=
  if aValue1.length ≠ 0 ∧ aValue2.length ≠ 0 then
    match d with
    | .ascending => compare aValue1 aValue2
    | .descending => compare aValue2 aValue1
  else nullCompare aValue1 aValue2

/-- The two modules. -/
inductive TextModule where
  | mtdChar | mtdVarchar
  deriving DecidableEq, Repr

/-- `keyCompare[..][aDirection]` of a module: `mtdCharMtdMtdKeyAscComp`,
`mtdVarcharMtdMtdKeyAscComp` and their siblings, which differ in where they read
the values. -/
def TextModule.keyCompare : TextModule → Direction → List UInt8 → List UInt8 → Int
  | .mtdChar => keyCompareBy charCompare
  | .mtdVarchar => keyCompareBy varcharCompare

/-- `isNull` of both modules. -/
def isNull (aValue : List UInt8) : Bool := aValue.length = 0

/-! ## §2. The first difference. -/

theorem cmpBytes_self (s : List UInt8) : cmpBytes s s = 0 := by
  induction s with
  | nil => rfl
  | cons x xs ih =>
    unfold cmpBytes
    rw [if_pos rfl, ih]

theorem cmpBytes_differ (p s t : List UInt8) {x y : UInt8} (h : x ≠ y) :
    cmpBytes (p ++ x :: s) (p ++ y :: t) = (x.toNat : Int) - y.toNat := by
  induction p with
  | nil => exact if_neg h
  | cons z zs ih =>
    show (if z = z then cmpBytes (zs ++ x :: s) (zs ++ y :: t) else _) = _
    rw [if_pos rfl, ih]

/-- A comparison of more bytes than the common ones sees the first difference. -/
theorem memcmp_differ (p s t : List UInt8) {x y : UInt8} (h : x ≠ y) {n : ℕ} (hn : p.length < n) :
    memcmp (p ++ x :: s) (p ++ y :: t) n = (x.toNat : Int) - y.toNat := by
  obtain ⟨m, rfl⟩ : ∃ m, n = p.length + (m + 1) := ⟨n - p.length - 1, by omega⟩
  unfold memcmp
  rw [List.take_length_add_append, List.take_length_add_append, List.take_succ_cons,
    List.take_succ_cons]
  exact cmpBytes_differ p _ _ h

theorem memcmp_append (key rest : List UInt8) : memcmp (key ++ rest) key key.length = 0 := by
  unfold memcmp
  rw [List.take_left, List.take_length]
  exact cmpBytes_self key

theorem memcmp_append' (key rest : List UInt8) : memcmp key (key ++ rest) key.length = 0 := by
  unfold memcmp
  rw [List.take_left, List.take_length]
  exact cmpBytes_self key

/-! ## §3. Two values that differ. -/

/-- CHAR: the first byte that differs decides. -/
theorem charCompare_differ (p s t : List UInt8) {x y : UInt8} (h : x ≠ y) :
    charCompare (p ++ x :: s) (p ++ y :: t) = (x.toNat : Int) - y.toNat := by
  have hne : (x.toNat : Int) - y.toNat ≠ 0 := by
    intro heq
    exact h (UInt8.toNat_inj.mp (by omega))
  have hlen : ∀ (z : UInt8) (r : List UInt8), p.length < (p ++ z :: r).length := by
    intro z r
    rw [List.length_append, List.length_cons]
    omega
  unfold charCompare
  rw [memcmp_differ p s t h (hlen y t), memcmp_differ p s t h (hlen x s)]
  dsimp only
  rw [if_pos hne, if_pos hne, ite_self]

/-- VARCHAR: so it does. -/
theorem varcharCompare_differ (p s t : List UInt8) {x y : UInt8} (h : x ≠ y) :
    (varcharCompare (p ++ x :: s) (p ++ y :: t) < 0 ↔ x < y) ∧
      (0 < varcharCompare (p ++ x :: s) (p ++ y :: t) ↔ y < x) := by
  have hne : x.toNat ≠ y.toNat := fun heq => h (UInt8.toNat_inj.mp heq)
  have hlen : ∀ (z : UInt8) (r : List UInt8), p.length < (p ++ z :: r).length := by
    intro z r
    rw [List.length_append, List.length_cons]
    omega
  unfold varcharCompare
  rw [memcmp_differ p s t h (hlen y t), memcmp_differ p s t h (hlen x s),
    UInt8.lt_iff_toNat_lt, UInt8.lt_iff_toNat_lt]
  split_ifs <;> omega

/-! ## §4. A value and a prefix of it. -/

/-- CHAR: the bytes after the prefix decide. -/
theorem charCompare_append (key rest : List UInt8) :
    charCompare (key ++ rest) key = tailOrder false rest := by
  unfold charCompare
  rw [if_pos (by rw [List.length_append]; omega), memcmp_append, List.drop_left]
  exact if_neg (not_not_intro rfl)

theorem charCompare_append' (key rest : List UInt8) :
    charCompare key (key ++ rest) = -tailOrder false rest := by
  unfold charCompare
  by_cases hrest : rest = []
  · rw [hrest, List.append_nil, if_pos (Nat.le_refl _), List.drop_length]
    have hself : memcmp key key key.length = 0 := cmpBytes_self _
    rw [hself]
    rfl
  · have hpos := List.length_pos_of_ne_nil hrest
    rw [if_neg (by rw [List.length_append]; omega), memcmp_append', List.drop_left]
    exact if_neg (not_not_intro rfl)

/-- VARCHAR: the longer value is not below. -/
theorem varcharCompare_append (key rest : List UInt8) :
    0 ≤ varcharCompare (key ++ rest) key ∧ varcharCompare key (key ++ rest) ≤ 0 := by
  have hlen : (key ++ rest).length = key.length + rest.length := List.length_append
  by_cases hrest : rest = []
  · have hself : memcmp key key key.length = 0 := cmpBytes_self _
    have hzero : varcharCompare key key = 0 := by
      unfold varcharCompare
      rw [if_neg (Nat.lt_irrefl _), if_neg (Nat.lt_irrefl _), hself]
    rw [hrest, List.append_nil, hzero]
    exact ⟨Int.le_refl 0, Int.le_refl 0⟩
  · have hpos := List.length_pos_of_ne_nil hrest
    have hlong : (key ++ rest).length > key.length := by omega
    have hup : varcharCompare (key ++ rest) key = 1 := by
      unfold varcharCompare
      rw [if_pos hlong, memcmp_append]
      rfl
    have hdown : varcharCompare key (key ++ rest) = -1 := by
      unfold varcharCompare
      rw [if_neg (by omega), if_pos hlong, memcmp_append']
      rfl
    rw [hup, hdown]
    decide

/-- **A byte below the blank before the first byte above it.** -/
def LowBeforeText (s : List UInt8) : Prop :=
  ∃ blanks c rest, s = blanks ++ c :: rest ∧ c > 0x20 ∧ (∀ b ∈ blanks, b ≤ 0x20) ∧
    ∃ b ∈ blanks, b < 0x20

theorem tailOrder_text (sExist : Bool) {c : UInt8} (rest : List UInt8) (h : c > 0x20) :
    tailOrder sExist (c :: rest) = if sExist = false then 1 else -1 :=
  if_pos h

theorem tailOrder_low (sExist : Bool) {c : UInt8} (rest : List UInt8) (h : ¬c > 0x20)
    (hlow : c < 0x20) : tailOrder sExist (c :: rest) = tailOrder true rest :=
  (if_neg h).trans (if_pos hlow)

theorem tailOrder_blank (sExist : Bool) {c : UInt8} (rest : List UInt8) (h : ¬c > 0x20)
    (hlow : ¬c < 0x20) : tailOrder sExist (c :: rest) = tailOrder sExist rest :=
  (if_neg h).trans (if_neg hlow)

/-- Once a byte below the blank was seen, any byte above it decides. -/
theorem tailOrder_true_neg_iff (s : List UInt8) : tailOrder true s < 0 ↔ ∃ c ∈ s, c > 0x20 := by
  induction s with
  | nil => simp [tailOrder]
  | cons c rest ih =>
    rw [List.exists_mem_cons_iff]
    by_cases h : c > 0x20
    · rw [tailOrder_text true rest h]
      exact ⟨fun _ => .inl h, fun _ => by decide⟩
    · have hsame : tailOrder true (c :: rest) = tailOrder true rest := by
        by_cases hlow : c < 0x20
        · exact tailOrder_low true rest h hlow
        · exact tailOrder_blank true rest h hlow
      rw [hsame, ih, or_iff_right h]

/-- The first byte above the blank, with what stands before it. -/
theorem exists_first_text {s : List UInt8} (h : ∃ c ∈ s, c > 0x20) :
    ∃ blanks c rest, s = blanks ++ c :: rest ∧ c > 0x20 ∧ ∀ b ∈ blanks, b ≤ 0x20 := by
  induction s with
  | nil => exact absurd h (by simp)
  | cons b rest ih =>
    by_cases hb : b > 0x20
    · exact ⟨[], b, rest, rfl, hb, fun _ hmem => absurd hmem List.not_mem_nil⟩
    · have htail : ∃ c ∈ rest, c > 0x20 := by
        obtain ⟨c, hc, htext⟩ := h
        rcases List.mem_cons.mp hc with rfl | hc
        · exact absurd htext hb
        · exact ⟨c, hc, htext⟩
      obtain ⟨blanks, c, t, heq, htext, hlow⟩ := ih htail
      refine ⟨b :: blanks, c, t, by rw [heq]; rfl, htext, ?_⟩
      intro d hd
      rcases List.mem_cons.mp hd with rfl | hd
      · exact UInt8.not_lt.mp hb
      · exact hlow d hd

/-- **When the tail makes the longer value the smaller one.** -/
theorem tailOrder_neg_iff (s : List UInt8) : tailOrder false s < 0 ↔ LowBeforeText s := by
  induction s with
  | nil =>
    refine ⟨fun h => absurd h (by decide), fun h => ?_⟩
    obtain ⟨blanks, c, rest, heq, _⟩ := h
    exact absurd heq (by simp)
  | cons b rest ih =>
    by_cases h1 : b > 0x20
    · -- a byte above the blank comes first
      rw [tailOrder_text false rest h1]
      refine ⟨fun h => absurd h (by decide), fun h => ?_⟩
      obtain ⟨blanks, c, t, heq, _, hlow, x, hx, _⟩ := h
      cases blanks with
      | nil => exact absurd hx List.not_mem_nil
      | cons y ys =>
        have hby : b = y := (List.cons.inj heq).1
        exact absurd (hlow y List.mem_cons_self) (UInt8.not_le.mpr (hby ▸ h1))
    by_cases h2 : b < 0x20
    · -- a byte below the blank: what follows decides
      rw [tailOrder_low false rest h1 h2, tailOrder_true_neg_iff]
      constructor
      · intro h
        obtain ⟨blanks, c, t, heq, htext, hlow⟩ := exists_first_text h
        refine ⟨b :: blanks, c, t, by rw [heq]; rfl, htext, ?_, b, List.mem_cons_self, h2⟩
        intro d hd
        rcases List.mem_cons.mp hd with rfl | hd
        · exact UInt8.not_lt.mp h1
        · exact hlow d hd
      · intro h
        obtain ⟨blanks, c, t, heq, htext, _, x, hx, _⟩ := h
        cases blanks with
        | nil => exact absurd hx List.not_mem_nil
        | cons y ys =>
          refine ⟨c, ?_, htext⟩
          rw [(List.cons.inj heq).2]
          exact List.mem_append_right ys List.mem_cons_self
    · -- a blank changes nothing
      have hblank : ∀ x, x < (0x20 : UInt8) → x ≠ b := fun x hx hxb => h2 (hxb ▸ hx)
      rw [tailOrder_blank false rest h1 h2, ih]
      constructor
      · intro h
        obtain ⟨blanks, c, t, heq, htext, hlow, x, hx, hxlow⟩ := h
        refine ⟨b :: blanks, c, t, by rw [heq]; rfl, htext, ?_, x, List.mem_cons_of_mem b hx, hxlow⟩
        intro d hd
        rcases List.mem_cons.mp hd with rfl | hd
        · exact UInt8.not_lt.mp h1
        · exact hlow d hd
      · intro h
        obtain ⟨blanks, c, t, heq, htext, hlow, x, hx, hxlow⟩ := h
        cases blanks with
        | nil => exact absurd hx List.not_mem_nil
        | cons y ys =>
          obtain ⟨hby, hrest⟩ := List.cons.inj heq
          rcases List.mem_cons.mp hx with hxy | hx
          · exact absurd (hxy.trans hby.symm) (hblank x hxlow)
          · exact ⟨ys, c, t, hrest, htext, fun d hd => hlow d (List.mem_cons_of_mem y hd),
              x, hx, hxlow⟩

end Altibase.Mtd
