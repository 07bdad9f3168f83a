/-
  Altibase.Mtf.LikeRange
  ──────────────────────
  **THE INDEX RANGE OF LIKE AND THE ROWS IT LOSES.**

  The rows that satisfy LIKE begin with the literal characters at the start of
  the pattern.  `mtfExtractRange` puts them between that key and the key with its
  last byte increased (with a carry over bytes 0xFF), the other way round for a
  descending index, and the index compares them in its own way.

    * `mtfExtractRange` — as in the source, with the callbacks it sets;
    * `LikeRow` — what LIKE and the key make of a row;
    * `extractRange_keeps_iff` — the row is in the range, unless it is compared as
      CHAR and goes on behind a key with a byte below the blank before the first
      byte above it.
-/

import Altibase.Mtf.LikeMatch
import Altibase.Mtd.Text
import Altibase.Mtk.IndexKey

namespace Altibase.Mtf

open Altibase.Mtl Altibase.Mtd Altibase.Mtk

/-! ## §1. `mtfExtractRange`. -/

/-- `MTD_COMPARE_FIXED_MTDVAL_FIXED_MTDVAL` and its siblings. -/
inductive CompValueType where
  | fixedMtdvalFixedMtdval | mtdvalMtdval | storedvalMtdval | storedvalStoredval
  | indexKeyFixedMtdval | indexKeyMtdval
  deriving DecidableEq, Repr

/-- The callbacks for a type of values. -/
def CompValueType.form : CompValueType → ValueForm
  | .fixedMtdvalFixedMtdval => .mtd
  | .mtdvalMtdval => .mtd
  | .storedvalMtdval => .stored
  | .storedvalStoredval => .stored
  | .indexKeyFixedMtdval => .indexKey
  | .indexKeyMtdval => .indexKey

/-- `mtkRangeInfo`, with the module of `column`. -/
structure MtkRangeInfo where
  column : TextModule
  columnIdx : ℕ
  direction : Direction
  compValueType : CompValueType
  isSameGroupType : Bool
  deriving DecidableEq, Repr

/-- A bound: the callback, and the step it has for the column. -/
structure LikeBound where
  callback : SmiCallBackFunc
  data : RangeStep (List UInt8)

/-- The range that `extractRange` makes. -/
structure LikeRange where
  minimum : LikeBound
  maximum : LikeBound

/-- `MTC_LIKE_KEY_PRECISION`: a `UShort` and 32 bytes, aligned to 8, without the
`UShort`. -/
def likeKeyPrecision : ℕ := 38

/-- The loop that increases the key, over its bytes from the last one. -/
def increaseLast : List UInt8 → List UInt8
  | [] => []
  | b :: rest => if b + 1 ≠ 0 then (b + 1) :: rest else increaseLast rest

/-- `sValue2` of a key that is not the whole pattern. -/
def increasedKey (sValue1 : List UInt8) : List UInt8 := (increaseLast sValue1.reverse).reverse

/-- The comparison of the column: its own one, or that of the text group
(`mtd::findCompareFunc`). -/
def rangeCompare (aInfo : MtkRangeInfo) : List UInt8 → List UInt8 → Int :=
  if aInfo.isSameGroupType = false then aInfo.column.keyCompare aInfo.direction
  else TextModule.mtdVarchar.keyCompare aInfo.direction

/-- `compare` of a step with a value. -/
def valueStep (aInfo : MtkRangeInfo) (v : List UInt8) : RangeStep (List UInt8) :=
  { compare := fun info => rangeCompare aInfo info.value v, columnIdx := aInfo.columnIdx }

/-- `mtk::compareMinimumLimit`. -/
def minimumLimit (aInfo : MtkRangeInfo) : RangeStep (List UInt8) :=
  { compare := fun _ => 1, columnIdx := aInfo.columnIdx }

/-- `mtk::compareMaximumLimit4Mtd`, and `mtk::compareMaximumLimit4Stored` for the other
types of values. -/
def maximumLimit (aInfo : MtkRangeInfo) : RangeStep (List UInt8) :=
  { compare := fun info =>
      if aInfo.compValueType.form = .stored then if info.length ≠ 0 then -1 else 0
      else if isNull info.value = false then -1 else 0
    columnIdx := aInfo.columnIdx }

/-- The step of `sMinimumCallBack` for its value. -/
def minimumStep (aInfo : MtkRangeInfo) (v : List UInt8) : RangeStep (List UInt8) :=
  if v.length > 0 then valueStep aInfo v else minimumLimit aInfo

/-- The step of `sMaximumCallBack` for its value. -/
def maximumStep (aInfo : MtkRangeInfo) (v : List UInt8) : RangeStep (List UInt8) :=
  if v.length > 0 then valueStep aInfo v else maximumLimit aInfo

/-- A range with the callbacks for the values of the index. -/
def likeRange (aInfo : MtkRangeInfo) (k1 k2 : Kind) (s1 s2 : RangeStep (List UInt8)) : LikeRange :=
  { minimum := { callback := { kind := k1, form := aInfo.compValueType.form }, data := s1 }
    maximum := { callback := { kind := k2, form := aInfo.compValueType.form }, data := s2 } }

/-- `mtfLikeKey` or `mtfLikeKeyMB`. -/
def likeKey (aLanguage : MtlModule) (sValue sEscape : List UInt8) :
    Except LikeError (List UInt8 × Bool) :=
  if aLanguage.id = .ascii then mtfLikeKey likeKeyPrecision sValue sEscape
  else mtfLikeKeyMB aLanguage likeKeyPrecision sValue sEscape

/-- `mtfExtractRange`.  A NULL pattern gets a range that no row is in. -/
def mtfExtractRange (aInfo : MtkRangeInfo) (aLanguage : MtlModule) (sValue sEscape : List UInt8) :
    Except LikeError LikeRange :=
  if isNull sValue then .ok (likeRange aInfo .gt .lt (minimumLimit aInfo) (minimumLimit aInfo))
  else do
    let (sValue1, sIsEqual) ← likeKey aLanguage sValue sEscape
    let sValue2 := if sIsEqual = false then increasedKey sValue1 else sValue1
    match aInfo.direction with
    | .ascending =>
        .ok (likeRange aInfo .ge (if sIsEqual then .le else .lt) (minimumStep aInfo sValue1)
          (maximumStep aInfo sValue2))
    | .descending =>
        .ok (likeRange aInfo (if sIsEqual then .ge else .gt) .le (minimumStep aInfo sValue2)
          (maximumStep aInfo sValue1))

/-- The callback of a bound on a row: its column value, which is also what is stored
of it, and no direct key beside it. -/
def LikeBound.accepts (b : LikeBound) (row : List UInt8) : Bool :=
  match b.callback.form with
  | .mtd => rangeCallBack4Mtd b.callback.kind [b.data] row
  | .stored => rangeCallBack4Stored b.callback.kind [b.data] fun _ => ⟨row, row.length⟩
  | .indexKey => rangeCallBack4IndexKey b.callback.kind [b.data] row none 0

/-- The row lies in the range. -/
def LikeRange.contains (r : LikeRange) (row : List UInt8) : Bool :=
  r.minimum.accepts row && r.maximum.accepts row

/-! ## §2. The key of a row. -/

/-- The elements of a pattern. -/
def patternTokens (aLanguage : MtlModule) (sFormat sEscape : List UInt8) :
    Except LikeError (List Token) := do
  if aLanguage.id = .ascii then
    let escape ← likeEscape 1 sEscape
    (scan mtlAscii escape (bytes sFormat)).tokens
  else
    let escape ← likeEscape (escapePrecision aLanguage) sEscape
    (scan aLanguage escape (aLanguage.chars sFormat)).tokens

/-- **The literal prefix of a pattern**: the characters before its first wildcard, as
many whole ones as an index key has room for. -/
def literalPrefix (aLanguage : MtlModule) (sFormat sEscape : List UInt8) : List UInt8 :=
  match patternTokens aLanguage sFormat sEscape with
  | .ok ts => (fit likeKeyPrecision (leading ts)).flatten
  | .error _ => []

/-- **What LIKE and the key make of a row**: the key is the literal prefix of the
pattern, and the row begins with it; if the key is the whole pattern, it is the
row. -/
structure LikeRow (aLanguage : MtlModule) (row sFormat sEscape : List UInt8) (e : Bool) : Prop where
  key : likeKey aLanguage sFormat sEscape = .ok (literalPrefix aLanguage sFormat sEscape, e)
  isPrefix : literalPrefix aLanguage sFormat sEscape <+: row
  whole : e = true → row = literalPrefix aLanguage sFormat sEscape

/-- A row that matches the blocks of a pattern begins with its leading literals. -/
theorem row_of_onePass {w : LikeSteps} {row : List UInt8} {s : Scan} {bs : List LikeBlock}
    (hbs : moreInfoLoop [] s = .ok bs) (h : assertedPass w row bs = .ok true) :
    ∃ ts, s.tokens = .ok ts ∧ (leading ts).flatten <+: row ∧
      (afterLeading ts = [] → row = (leading ts).flatten) := by
  obtain ⟨hne, h⟩ := (assertedPass_eq_ok w row).mp h
  rw [moreInfoLoop_eq] at hbs
  cases htok : s.tokens with
  | error e =>
    rw [htok] at hbs
    cases hbs
  | ok ts =>
    rw [htok] at hbs
    have hbs' : (ts.foldl pushToken []).reverse = bs := Except.ok.inj hbs
    refine ⟨ts, rfl, ?_⟩
    by_cases hlead : leading ts = []
    · rw [hlead]
      refine ⟨List.nil_prefix, fun hafter => ?_⟩
      -- there would be no block
      rw [(eq_nil_iff ts).mpr ⟨hlead, hafter⟩] at hbs'
      exact absurd hbs'.symm hne
    · obtain ⟨cs, hfirst, hrest⟩ := first_block hlead
      rw [hbs'] at hfirst
      rw [hfirst] at h
      obtain ⟨hpre, heq⟩ := begins_of_onePass w row h
      exact ⟨hpre, fun hafter => heq (hrest hafter)⟩

theorem isPrefix_flatten_fit (room : ℕ) (cs : List (List UInt8)) :
    (fit room cs).flatten <+: cs.flatten := by
  obtain ⟨ds, hds⟩ := isPrefix_fit room cs
  exact ⟨ds.flatten, by rw [← List.flatten_append, hds]⟩

/-- The key, from the elements of the pattern. -/
theorem likeRow_of_tokens {aLanguage : MtlModule} {row sFormat sEscape : List UInt8} {e : Bool}
    {ts : List Token} (htokens : patternTokens aLanguage sFormat sEscape = .ok ts)
    (hkey : likeKey aLanguage sFormat sEscape
      = .ok ((fit likeKeyPrecision (leading ts)).flatten, e))
    (he : e = true ↔ IsWhole likeKeyPrecision ts) (hpre : (leading ts).flatten <+: row)
    (hwhole : afterLeading ts = [] → row = (leading ts).flatten) :
    LikeRow aLanguage row sFormat sEscape e := by
  have hbegin : literalPrefix aLanguage sFormat sEscape
      = (fit likeKeyPrecision (leading ts)).flatten := by
    unfold literalPrefix
    rw [htokens]
  constructor
  · rw [hbegin, hkey]
  · rw [hbegin]
    exact (isPrefix_flatten_fit _ _).trans hpre
  · intro htrue
    obtain ⟨hafter, hfit⟩ := he.mp htrue
    rw [hbegin, hfit]
    exact hwhole hafter

/-- The evaluation in ASCII. -/
theorem likeRow_ascii {aLanguage : MtlModule} {row sFormat sEscape : List UInt8}
    (hascii : aLanguage.id = .ascii) {bs : List LikeBlock}
    (hbs : getMoreInfoFromPattern sFormat sEscape = .ok bs)
    (h : mtfLikeCalculateOnePass row bs = .ok true) :
    ∃ e, LikeRow aLanguage row sFormat sEscape e := by
  unfold getMoreInfoFromPattern at hbs
  split_ifs at hbs
  obtain ⟨escape, hesc, hloop⟩ := exists_of_bind_eq_ok hbs
  obtain ⟨ts, htok, hpre, hwhole⟩ := row_of_onePass hloop h
  have hone := length_of_mem_leading_bytes mtlAscii escape sFormat htok
  obtain ⟨e, he, hiff⟩ := likeKeyLoop_eq htok hone
    (show ([] : List UInt8).length < likeKeyPrecision by decide)
  have htokens : patternTokens aLanguage sFormat sEscape = .ok ts := by
    unfold patternTokens
    rw [if_pos hascii, hesc]
    exact htok
  refine ⟨e, likeRow_of_tokens htokens ?_ hiff hpre hwhole⟩
  unfold likeKey mtfLikeKey
  rw [if_pos hascii, hesc]
  exact he

/-- The evaluation in another language. -/
theorem likeRow_mb {aLanguage : MtlModule} {row sFormat sEscape : List UInt8}
    (hascii : aLanguage.id ≠ .ascii) {bs : List LikeBlock}
    (hbs : getMoreInfoFromPatternMB aLanguage sFormat sEscape = .ok bs)
    (h : mtfLikeCalculateMBOnePass aLanguage row bs = .ok true) :
    ∃ e, LikeRow aLanguage row sFormat sEscape e := by
  unfold getMoreInfoFromPatternMB at hbs
  split_ifs at hbs
  obtain ⟨escape, hesc, hloop⟩ := exists_of_bind_eq_ok hbs
  obtain ⟨ts, htok, hpre, hwhole⟩ := row_of_onePass hloop h
  obtain ⟨e, he, hiff⟩ := likeKeyLoopMB_eq htok
    (show ([] : List UInt8).length ≤ likeKeyPrecision by decide)
  have htokens : patternTokens aLanguage sFormat sEscape = .ok ts := by
    unfold patternTokens
    rw [if_neg hascii, hesc]
    exact htok
  refine ⟨e, likeRow_of_tokens htokens ?_ hiff hpre hwhole⟩
  unfold likeKey mtfLikeKeyMB
  rw [if_neg hascii, hesc]
  exact he

/-- **LIKE and the key agree on the pattern.** -/
theorem likeRow_of_like {aLanguage : MtlModule} {row sFormat sEscape : List UInt8}
    (h : likeCalculate aLanguage row sFormat sEscape = .ok (some true)) :
    row ≠ [] ∧ sFormat ≠ [] ∧ ∃ e, LikeRow aLanguage row sFormat sEscape e := by
  unfold likeCalculate at h
  split_ifs at h with hnull hascii
  · cases h
  · rw [not_or, List.length_eq_zero_iff, List.length_eq_zero_iff] at hnull
    obtain ⟨bs, hbs, hpass⟩ := exists_of_bind_eq_ok h
    obtain ⟨sResult, hmatch, hsome⟩ := exists_of_bind_eq_ok hpass
    obtain rfl := Option.some.inj (Except.ok.inj hsome)
    exact ⟨hnull.1, hnull.2, likeRow_ascii hascii hbs hmatch⟩
  · rw [not_or, List.length_eq_zero_iff, List.length_eq_zero_iff] at hnull
    obtain ⟨bs, hbs, hpass⟩ := exists_of_bind_eq_ok h
    obtain ⟨sResult, hmatch, hsome⟩ := exists_of_bind_eq_ok hpass
    obtain rfl := Option.some.inj (Except.ok.inj hsome)
    exact ⟨hnull.1, hnull.2, likeRow_mb hascii hbs hmatch⟩

/-! ## §3. The bounds. -/

/-- The index compares the column as CHAR. -/
def BlankPadded (aInfo : MtkRangeInfo) : Prop :=
  aInfo.isSameGroupType = false ∧ aInfo.column = .mtdChar

/-- What the increased key is: nothing, or a prefix with its last byte increased. -/
theorem increaseLast_spec (s : List UInt8) :
    increaseLast s = [] ∨
      ∃ t b p, s = t ++ b :: p ∧ increaseLast s = (b + 1) :: p ∧ b < b + 1 := by
  induction s with
  | nil => exact .inl rfl
  | cons b rest ih =>
    unfold increaseLast
    by_cases hb : b + 1 ≠ 0
    · rw [if_pos hb]
      refine .inr ⟨[], b, rest, rfl, rfl, ?_⟩
      rw [UInt8.lt_iff_toNat_lt]
      have hne : (b + 1).toNat ≠ 0 := fun h => hb (UInt8.toNat_inj.mp h)
      have hadd : (b + 1).toNat = (b.toNat + 1) % 256 := UInt8.toNat_add b 1
      have := b.toNat_lt
      omega
    · rw [if_neg hb]
      rcases ih with hnil | ⟨t, c, p, heq, hinc, hlt⟩
      · exact .inl hnil
      · exact .inr ⟨b :: t, c, p, by rw [heq]; rfl, hinc, hlt⟩

theorem increasedKey_spec {key : List UInt8} (h : increasedKey key ≠ []) :
    ∃ p b t, key = p ++ b :: t ∧ increasedKey key = p ++ [b + 1] ∧ b < b + 1 := by
  unfold increasedKey at h ⊢
  rcases increaseLast_spec key.reverse with hnil | ⟨t, b, p, heq, hinc, hlt⟩
  · rw [hnil] at h
    exact absurd rfl h
  · refine ⟨p.reverse, b, t.reverse, ?_, ?_, hlt⟩
    · rw [← List.reverse_reverse key, heq]
      simp
    · rw [hinc]
      simp

section Bounds

variable (aInfo : MtkRangeInfo)

/-- The comparison of values that are not NULL, in ascending order. -/
def valueCompare : List UInt8 → List UInt8 → Int :=
  if aInfo.isSameGroupType = false ∧ aInfo.column = .mtdChar then charCompare else varcharCompare

/-- A row against a value, in the direction of the index. -/
def directedCompare (d : Direction) (row v : List UInt8) : Int :=
  match d with
  | .ascending => valueCompare aInfo row v
  | .descending => valueCompare aInfo v row

theorem rangeCompare_eq {row v : List UInt8} (hrow : row ≠ []) (hv : v ≠ []) :
    rangeCompare aInfo row v = directedCompare aInfo aInfo.direction row v := by
  have hne : row.length ≠ 0 ∧ v.length ≠ 0 :=
    ⟨fun h => hrow (List.length_eq_zero_iff.mp h), fun h => hv (List.length_eq_zero_iff.mp h)⟩
  have hby : ∀ compare d, keyCompareBy compare d row v =
      match d with
      | .ascending => compare row v
      | .descending => compare v row := fun _ _ => if_pos hne
  unfold rangeCompare directedCompare valueCompare TextModule.keyCompare
  cases aInfo.isSameGroupType <;> cases aInfo.column <;> simp [hby]

/-- **A row against the key.** -/
theorem valueCompare_key (key rest : List UInt8) :
    (0 ≤ valueCompare aInfo (key ++ rest) key ↔ ¬(BlankPadded aInfo ∧ LowBeforeText rest)) ∧
      (valueCompare aInfo key (key ++ rest) ≤ 0 ↔ ¬(BlankPadded aInfo ∧ LowBeforeText rest)) := by
  unfold valueCompare BlankPadded
  split_ifs with hchar
  · rw [charCompare_append, charCompare_append', ← tailOrder_neg_iff, and_iff_right hchar]
    constructor <;> omega
  · obtain ⟨hup, hdown⟩ := varcharCompare_append key rest
    exact ⟨⟨fun _ h => hchar h.1, fun _ => hup⟩, ⟨fun _ h => hchar h.1, fun _ => hdown⟩⟩

/-- A row against the increased key. -/
theorem valueCompare_increased {key : List UInt8} (rest : List UInt8) (h : increasedKey key ≠ []) :
    valueCompare aInfo (key ++ rest) (increasedKey key) < 0 ∧
      0 < valueCompare aInfo (increasedKey key) (key ++ rest) := by
  obtain ⟨p, b, t, hkey, hinc, hlt⟩ := increasedKey_spec h
  rw [hinc, hkey, List.append_assoc, List.cons_append]
  have hne : b ≠ b + 1 := fun heq => absurd hlt (by rw [← heq]; exact UInt8.lt_irrefl b)
  have hnat := UInt8.lt_iff_toNat_lt.mp hlt
  unfold valueCompare
  split_ifs
  · rw [charCompare_differ p _ _ hne, charCompare_differ p _ _ hne.symm]
    omega
  · exact ⟨(varcharCompare_differ p _ _ hne).1.mpr hlt,
      (varcharCompare_differ p _ _ hne.symm).2.mpr hlt⟩

/-- What a callback gets of a row. -/
def rowInfo (f : ValueForm) (row : List UInt8) : ValueInfo (List UInt8) :=
  match f with
  | .stored => { value := row, length := row.length, offsetUse := true, partialKey := false }
  | _ => mtdInfo row

theorem rowInfo_value (f : ValueForm) (row : List UInt8) : (rowInfo f row).value = row := by
  cases f <;> rfl

/-- A bound of one step tests the order of that step. -/
theorem LikeBound.accepts_eq (k : Kind) (f : ValueForm) (step : RangeStep (List UInt8))
    (row : List UInt8) :
    LikeBound.accepts { callback := { kind := k, form := f }, data := step } row
      = k.test (step.compare (rowInfo f row)) := by
  have hchain : ∀ (read : RangeStep (List UInt8) → ValueInfo (List UInt8)),
      chainOrder read [step] = step.compare (read step) := by
    intro read
    unfold chainOrder chainOrder
    dsimp only
    split_ifs with h
    · exact h.symm
    · rfl
  cases f with
  | mtd => exact congrArg k.test (hchain _)
  | stored => exact congrArg k.test (hchain _)
  | indexKey =>
    show rangeCallBack4IndexKey k [step] row none 0 = _
    unfold rangeCallBack4IndexKey
    rw [indexKeyOrder_none]
    exact congrArg k.test (hchain _)

theorem minimumStep_order {row : List UInt8} (hrow : row ≠ []) (f : ValueForm) (v : List UInt8) :
    (minimumStep aInfo v).compare (rowInfo f row)
      = if v = [] then 1 else directedCompare aInfo aInfo.direction row v := by
  unfold minimumStep
  by_cases hv : v = []
  · rw [if_pos hv, if_neg (by rw [hv]; decide)]
    rfl
  · rw [if_neg hv, if_pos (List.length_pos_of_ne_nil hv)]
    show rangeCompare aInfo (rowInfo f row).value v = _
    rw [rowInfo_value, rangeCompare_eq aInfo hrow hv]

theorem maximumStep_order {row : List UInt8} (hrow : row ≠ []) (v : List UInt8) :
    (maximumStep aInfo v).compare (rowInfo aInfo.compValueType.form row)
      = if v = [] then -1 else directedCompare aInfo aInfo.direction row v := by
  unfold maximumStep
  by_cases hv : v = []
  · have hlen := List.length_pos_of_ne_nil hrow
    have hnull : isNull row = false := by
      unfold isNull
      exact decide_eq_false (by omega)
    rw [if_pos hv, if_neg (by rw [hv]; decide)]
    unfold maximumLimit
    dsimp only
    cases hform : aInfo.compValueType.form with
    | mtd => simp [rowInfo, mtdInfo, hnull]
    | stored => simp [rowInfo, hrow]
    | indexKey => simp [rowInfo, mtdInfo, hnull]
  · rw [if_neg hv, if_pos (List.length_pos_of_ne_nil hv)]
    show rangeCompare aInfo (rowInfo _ row).value v = _
    rw [rowInfo_value, rangeCompare_eq aInfo hrow hv]

theorem likeRange_contains {row : List UInt8} (k1 k2 : Kind) (s1 s2 : RangeStep (List UInt8)) :
    (likeRange aInfo k1 k2 s1 s2).contains row = true ↔
      k1.test (s1.compare (rowInfo aInfo.compValueType.form row)) = true ∧
        k2.test (s2.compare (rowInfo aInfo.compValueType.form row)) = true := by
  unfold LikeRange.contains likeRange
  rw [LikeBound.accepts_eq, LikeBound.accepts_eq, Bool.and_eq_true]

/-- **A row that goes on behind the key `key` is lost here**: compared as CHAR, behind a
key that is not empty, with a low byte first. -/
def Lost (key rest : List UInt8) : Prop := BlankPadded aInfo ∧ key ≠ [] ∧ LowBeforeText rest

/-- The bound at the key. -/
theorem keyBound_iff (key rest : List UInt8) :
    (0 ≤ (if key = [] then 1 else valueCompare aInfo (key ++ rest) key) ↔ ¬Lost aInfo key rest) ∧
      ((if key = [] then -1 else valueCompare aInfo key (key ++ rest)) ≤ 0 ↔
        ¬Lost aInfo key rest) := by
  by_cases hkey : key = []
  · have hnot : ¬Lost aInfo key rest := fun h => h.2.1 hkey
    rw [if_pos hkey, if_pos hkey]
    exact ⟨iff_of_true (by decide) hnot, iff_of_true (by decide) hnot⟩
  · have hlost : Lost aInfo key rest ↔ BlankPadded aInfo ∧ LowBeforeText rest :=
      and_congr_right' (and_iff_right hkey)
    rw [if_neg hkey, if_neg hkey, hlost]
    exact valueCompare_key aInfo key rest

/-- The bound at the increased key never loses a row. -/
theorem increasedBound (key rest : List UInt8) :
    (if increasedKey key = [] then -1
        else valueCompare aInfo (key ++ rest) (increasedKey key)) < 0 ∧
      0 < (if increasedKey key = [] then 1
        else valueCompare aInfo (increasedKey key) (key ++ rest)) := by
  by_cases hinc : increasedKey key = []
  · rw [if_pos hinc, if_pos hinc]
    decide
  · rw [if_neg hinc, if_neg hinc]
    exact valueCompare_increased aInfo rest hinc

/-- **The range between a key and the increased key**, in an ascending index. -/
theorem ascendingRange_contains {key rest : List UInt8} (hrow : key ++ rest ≠ [])
    (hdir : aInfo.direction = .ascending) :
    (likeRange aInfo .ge .lt (minimumStep aInfo key)
      (maximumStep aInfo (increasedKey key))).contains (key ++ rest) = true ↔
        ¬Lost aInfo key rest := by
  rw [likeRange_contains, minimumStep_order aInfo hrow, maximumStep_order aInfo hrow, hdir]
  show decide (0 ≤ (if key = [] then 1 else valueCompare aInfo (key ++ rest) key)) = true ∧
    decide ((if increasedKey key = [] then -1
      else valueCompare aInfo (key ++ rest) (increasedKey key)) < 0) = true ↔ _
  rw [decide_eq_true_eq, decide_eq_true_eq, (keyBound_iff aInfo key rest).1]
  exact and_iff_left (increasedBound aInfo key rest).1

/-- The same in a descending index. -/
theorem descendingRange_contains {key rest : List UInt8} (hrow : key ++ rest ≠ [])
    (hdir : aInfo.direction = .descending) :
    (likeRange aInfo .gt .le (minimumStep aInfo (increasedKey key))
      (maximumStep aInfo key)).contains (key ++ rest) = true ↔ ¬Lost aInfo key rest := by
  rw [likeRange_contains, minimumStep_order aInfo hrow, maximumStep_order aInfo hrow, hdir]
  show decide (0 < (if increasedKey key = [] then 1
      else valueCompare aInfo (increasedKey key) (key ++ rest))) = true ∧
    decide ((if key = [] then -1 else valueCompare aInfo key (key ++ rest)) ≤ 0) = true ↔ _
  rw [decide_eq_true_eq, decide_eq_true_eq, (keyBound_iff aInfo key rest).2]
  exact and_iff_right (increasedBound aInfo key rest).2

theorem not_lost_nil (key : List UInt8) : ¬Lost aInfo key [] := by
  intro h
  obtain ⟨_, _, blanks, c, rest, heq, _⟩ := h
  exact absurd heq (by simp)

/-- A range of the key alone has the key in it. -/
theorem closedRange_contains {key : List UInt8} (hkey : key ≠ []) :
    (likeRange aInfo .ge .le (minimumStep aInfo key) (maximumStep aInfo key)).contains key
      = true := by
  have hself : valueCompare aInfo key key = 0 := by
    have hlow := not_lost_nil aInfo key
    obtain ⟨⟨_, hge⟩, ⟨_, hle⟩⟩ := valueCompare_key aInfo key []
    have hnot : ¬(BlankPadded aInfo ∧ LowBeforeText []) := fun h => hlow ⟨h.1, hkey, h.2⟩
    rw [List.append_nil] at hge hle
    exact Int.le_antisymm (hle hnot) (hge hnot)
  have horder : directedCompare aInfo aInfo.direction key key = 0 := by
    unfold directedCompare
    cases aInfo.direction <;> exact hself
  rw [likeRange_contains, minimumStep_order aInfo hkey, maximumStep_order aInfo hkey,
    if_neg hkey, if_neg hkey, horder]
  decide

end Bounds

/-! ## §4. The rows in the range. -/

/-- **The range of LIKE loses exactly these rows**: in an index that compares the column
as CHAR, the rows that go on behind the literal prefix of the pattern with a byte
below the blank before the first byte above it. -/
theorem extractRange_keeps_iff (aInfo : MtkRangeInfo) (aLanguage : MtlModule)
    (row sFormat sEscape : List UInt8)
    (hlike : likeCalculate aLanguage row sFormat sEscape = .ok (some true)) :
    ∃ r, mtfExtractRange aInfo aLanguage sFormat sEscape = .ok r ∧
      (r.contains row = true ↔
        ¬(BlankPadded aInfo ∧ literalPrefix aLanguage sFormat sEscape ≠ [] ∧
          LowBeforeText (row.drop (literalPrefix aLanguage sFormat sEscape).length))) := by
  obtain ⟨hrow, hformat, e, hkey, hbegin, hwhole⟩ := likeRow_of_like hlike
  have hnull : isNull sFormat = false := by
    have := List.length_pos_of_ne_nil hformat
    unfold isNull
    exact decide_eq_false (by omega)
  set key := literalPrefix aLanguage sFormat sEscape
  obtain ⟨rest, hrest⟩ := hbegin
  have hdrop : row.drop key.length = rest := by rw [← hrest, List.drop_left]
  show ∃ r, _ ∧ (_ ↔ ¬Lost aInfo key (row.drop key.length))
  unfold mtfExtractRange
  rw [if_neg (by rw [hnull]; exact Bool.false_ne_true), hkey, hdrop]
  cases e with
  | true =>
    -- the whole pattern is the key, and so is the row
    have heq : row = key := hwhole rfl
    have hnil : rest = [] := List.append_right_eq_self.mp (hrest.trans heq)
    have hne : key ≠ [] := heq ▸ hrow
    have hin := closedRange_contains aInfo hne
    rw [hnil, heq]
    cases hdir : aInfo.direction with
    | ascending => exact ⟨_, rfl, iff_of_true hin (not_lost_nil aInfo key)⟩
    | descending => exact ⟨_, rfl, iff_of_true hin (not_lost_nil aInfo key)⟩
  | false =>
    rw [← hrest] at hrow ⊢
    cases hdir : aInfo.direction with
    | ascending => exact ⟨_, rfl, ascendingRange_contains aInfo hrow hdir⟩
    | descending => exact ⟨_, rfl, descendingRange_contains aInfo hrow hdir⟩

/-- `'ab%'`. -/
def sampleFormat : List UInt8 := [0x61, 0x62, 0x25]

/-- A CHAR column compared as such. -/
def sampleInfo (d : Direction) : MtkRangeInfo :=
  { column := .mtdChar, columnIdx := 0, direction := d, compValueType := .mtdvalMtdval
    isSameGroupType := false }

/-- A string that begins with `ab` satisfies `LIKE 'ab%'`. -/
theorem like_sample (rest : List UInt8) :
    likeCalculate mtlAscii (0x61 :: 0x62 :: rest) sampleFormat [] = .ok (some true) := by
  simp [likeCalculate, sampleFormat, getMoreInfoFromPattern, likePatternMaxSize, likeEscape, bytes,
    scan, isEscape, mtlAscii, twoByteModule, mtlPC, mtlUB, moreInfoLoop, pushToken,
    mtfLikeCalculateOnePass, assertedPass, onePass, stripTail, likeLoop, startsAt, bind, Except.bind]

/-- The row `abc` is in the range of `LIKE 'ab%'`. -/
theorem extractRange_keeps_iff_abc :
    ∃ r, mtfExtractRange (sampleInfo .ascending) mtlAscii sampleFormat [] = .ok r ∧
      r.contains [0x61, 0x62, 0x63] = true := by
  obtain ⟨r, hr, hiff⟩ := extractRange_keeps_iff (sampleInfo .ascending) mtlAscii
    [0x61, 0x62, 0x63] sampleFormat [] (like_sample [0x63])
  refine ⟨r, hr, hiff.mpr fun hlost => ?_⟩
  exact absurd ((tailOrder_neg_iff [0x63]).mpr hlost.2.2) (by decide)

/-- **A row that LIKE finds and the index does not**: `ab`, a byte 1, `c`, in an index of
either direction. -/
theorem extractRange_loses :
    likeCalculate mtlAscii [0x61, 0x62, 0x01, 0x63] sampleFormat [] = .ok (some true) ∧
      ∀ d, ∃ r, mtfExtractRange (sampleInfo d) mtlAscii sampleFormat [] = .ok r ∧
        r.contains [0x61, 0x62, 0x01, 0x63] = false := by
  refine ⟨like_sample [0x01, 0x63], fun d => ?_⟩
  cases d with
  | ascending => exact ⟨_, rfl, rfl⟩
  | descending => exact ⟨_, rfl, rfl⟩

end Altibase.Mtf
