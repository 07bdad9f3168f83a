/-
  Altibase.Mtf.LikeMatch
  ──────────────────────
  **LIKE IN ONE PASS OVER THE STRING.**

  The blocks of the pattern behind its last `%` are matched from the end of the
  string, the others from its start; the string behind a `%` is searched, and the
  search goes on behind a place where the blocks up to the next `%` do not match.
  The evaluation for ASCII counts bytes where the one for other languages steps
  from character to character.

    * `mtfLikeCalculateOnePass`, `mtfLikeCalculateMBOnePass` — as in the source;
    * `begins_of_onePass` — a string that matches begins with the first string block,
      and is that block if there is no other.
-/

import Altibase.Mtf.LikePattern

namespace Altibase.Mtf

open Altibase.Mtl

/-! ## §1. Searching a string. -/

/-- The bytes from `p` to `fence`. -/
def slice (str : List UInt8) (p fence : ℕ) : List UInt8 := (str.take fence).drop p

/-- `(h << MTC_LIKE_SHIFT) + c & MTC_LIKE_HASH_KEY`. -/
def hashStep (h : UInt32) (c : UInt8) : UInt32 := ((h <<< 8) + c.toUInt32) &&& 0x000FFFFF

/-- `sResult` after the first loop of `matchSubString`: the weight of the oldest byte. -/
def hashWeight : ℕ → UInt32
  | 0 => 1
  | n + 1 => (hashWeight n <<< 8) &&& 0x000FFFFF

/-- The loop of `matchSubString` over the offsets. -/
def matchLoop (aPattern : List UInt8) (sHashPattern : UInt32) :
    UInt32 → ℕ → List UInt8 → Option ℕ
  | sHashSource, i, [] =>
      if aPattern = [] ∧ sHashPattern = sHashSource then some i else none
  | sHashSource, i, sOldChar :: rest =>
      if sHashPattern = sHashSource ∧ (sOldChar :: rest).take aPattern.length = aPattern then some i
      else
        match (sOldChar :: rest).drop aPattern.length with
        | [] => none
        | sNewChar :: _ =>
            matchLoop aPattern sHashPattern
              (hashStep (sHashSource - sOldChar.toUInt32 * hashWeight (aPattern.length - 1))
                sNewChar)
              (i + 1) rest

/-- `matchSubString`: the offset of the pattern, `none` for -1. -/
def matchSubString (aSource aPattern : List UInt8) : Option ℕ :=
  if aSource.length ≥ aPattern.length then
    matchLoop aPattern (aPattern.foldl hashStep 0)
      ((aSource.take aPattern.length).foldl hashStep 0) 0 aSource
  else none

/-! ## §2. Stepping over characters. -/

/-- **What ASCII and the other languages do differently**: `stepBack` takes the
fence back over `sizeOrCnt` characters, `stepOver` takes a position forward over
them; `seek` takes `sValidChar` to the next character boundary not before a
position, `advance` a position to the next character. -/
structure LikeSteps where
  stepBack : List UInt8 → ℕ → ℕ → Option ℕ
  stepOver : List UInt8 → ℕ → ℕ → ℕ → Option ℕ
  seek : List UInt8 → ℕ → ℕ → ℕ → ℕ
  advance : List UInt8 → ℕ → ℕ → ℕ
  le_seek : ∀ str fence v p, p ≤ seek str fence v p
  lt_advance : ∀ str fence p, p < advance str fence p

/-- Every byte is a character. -/
def asciiSteps : LikeSteps where
  stepBack := fun _ fence cnt => if cnt ≤ fence then some (fence - cnt) else none
  stepOver := fun _ fence p cnt => if p + cnt ≤ fence then some (p + cnt) else none
  seek := fun _ _ _ p => p
  advance := fun _ _ p => p + 1
  le_seek := fun _ _ _ p => Nat.le_refl p
  lt_advance := fun _ _ p => Nat.lt_succ_self p

section Characters

variable (aLanguage : MtlModule) (str : List UInt8) (fence : ℕ)

/-- `mtf::nextChar` at `p`; the source calls it before the fence only. -/
def nextChar (p : ℕ) : ℕ × MtlNCRet :=
  if slice str p fence = [] then (p + 1, .mbIncompleted)
  else
    (p + (aLanguage.nextCharPtr (slice str p fence)).1,
      (aLanguage.nextCharPtr (slice str p fence)).2)

theorem lt_nextChar (p : ℕ) : p < (nextChar aLanguage str fence p).1 := by
  unfold nextChar
  split_ifs with h
  · exact Nat.lt_succ_self p
  · exact Nat.lt_add_of_pos_right (aLanguage.moves _ h).1

/-- The last position not behind `p` where a valid character begins. -/
def lastChar : ℕ → Option ℕ
  | 0 => if (nextChar aLanguage str fence 0).2 = .valid then some 0 else none
  | p + 1 =>
      if (nextChar aLanguage str fence (p + 1)).2 = .valid then some (p + 1) else lastChar p

/-- The loop over `sCount`, from the fence back. -/
def stepBackMB : ℕ → ℕ → Option ℕ
  | 0, sStringFence => some sStringFence
  | _ + 1, 0 => none
  | sCount + 1, last + 1 =>
      match lastChar aLanguage str (last + 1) last with
      | some p => stepBackMB sCount p
      | none => none

/-- The loop over `i`, forward. -/
def stepOverMB : ℕ → ℕ → Option ℕ
  | 0, sString => some sString
  | i + 1, sString =>
      if sString ≥ fence then none
      else if (nextChar aLanguage str fence sString).2 = .valid then
        stepOverMB i (nextChar aLanguage str fence sString).1
      else none

/-- `while ( sValidChar < sString + sCmpResult )`. -/
def seekMB (sValidChar target : ℕ) : ℕ :=
  if sValidChar < target then
    have := lt_nextChar aLanguage str fence sValidChar
    seekMB (nextChar aLanguage str fence sValidChar).1 target
  else sValidChar
  termination_by target - sValidChar

theorem le_seekMB (sValidChar target : ℕ) :
    target ≤ seekMB aLanguage str fence sValidChar target := by
  induction sValidChar using seekMB.induct aLanguage str fence target with
  | case1 v h _ ih =>
    rw [seekMB, if_pos h]
    exact ih
  | case2 v h =>
    rw [seekMB, if_neg h]
    exact Nat.le_of_not_lt h

end Characters

/-- From character to character. -/
def mbSteps (aLanguage : MtlModule) : LikeSteps where
  stepBack := fun str fence cnt => stepBackMB aLanguage str cnt fence
  stepOver := fun str fence p cnt => stepOverMB aLanguage str fence cnt p
  seek := seekMB aLanguage
  advance := fun str fence p => (nextChar aLanguage str fence p).1
  le_seek := le_seekMB aLanguage
  lt_advance := lt_nextChar aLanguage

/-! ## §3. The pass. -/

section OnePass

variable (w : LikeSteps) (str : List UInt8)

/-- The first loop, over the blocks from the last one: the blocks up to the last
`%`, in this order, and `sStringFence`; `none` if `sIsTrue` has become false. -/
def stripTail : List LikeBlock → ℕ → Option (List LikeBlock × ℕ)
  | [], sStringFence => some ([], sStringFence)
  | .percent cnt :: rest, sStringFence => some (.percent cnt :: rest, sStringFence)
  | .string start :: rest, sStringFence =>
      if start.length ≤ sStringFence then
        if (str.drop (sStringFence - start.length)).take start.length = start then
          stripTail rest (sStringFence - start.length)
        else none
      else none
  | .under cnt :: rest, sStringFence =>
      match w.stepBack str sStringFence cnt with
      | some p => stripTail rest p
      | none => none

variable (fence : ℕ)

/-- The string at `p` begins with the block. -/
def startsAt (p : ℕ) (start : List UInt8) : Bool :=
  start.length ≤ fence - p && (str.drop p).take start.length = start

/-- `mtfCheckMatchBlock`, `mtfCheckMatchBlockMB`: the blocks from the next `%` on, and
the position there. -/
def checkMatchBlock : List LikeBlock → ℕ → Option (List LikeBlock × ℕ)
  | [], sString => some ([], sString)
  | .string start :: rest, sString =>
      if startsAt str fence sString start then checkMatchBlock rest (sString + start.length)
      else none
  | .percent cnt :: rest, sString => some (.percent cnt :: rest, sString)
  | .under cnt :: rest, sString =>
      match w.stepOver str fence sString cnt with
      | some p => checkMatchBlock rest p
      | none => none

/-- **The search behind a `%`** for the block `start` with the blocks `rest` behind
it.  It may end at the fence without an answer. -/
def search (start : List UInt8) (rest : List LikeBlock) (sString sValidChar : ℕ) :
    Option (List LikeBlock × ℕ × ℕ) :=
  if sString < fence then
    match matchSubString (slice str sString fence) start with
    | none => none
    | some sCmpResult =>
        have := w.le_seek str fence sValidChar (sString + sCmpResult)
        have := w.lt_advance str fence (sString + sCmpResult)
        -- the occurrence starts at a character; if not, the search goes on at the next one
        if w.seek str fence sValidChar (sString + sCmpResult) = sString + sCmpResult then
          match checkMatchBlock w str fence rest (sString + sCmpResult + start.length) with
          | some (bs, p) => some (bs, p, sString + sCmpResult)
          | none =>
              search start rest (w.advance str fence (sString + sCmpResult)) (sString + sCmpResult)
        else
          search start rest (w.seek str fence sValidChar (sString + sCmpResult))
            (w.seek str fence sValidChar (sString + sCmpResult))
  else some (.string start :: rest, sString, sValidChar)
  termination_by fence - sString

/-- A run of `_` behind a `%` takes the position forward. -/
def skipUnder : List LikeBlock → ℕ → Option (List LikeBlock × ℕ)
  | .under cnt :: rest, sString => (w.stepOver str fence sString cnt).map fun p => (rest, p)
  | bs, sString => some (bs, sString)

/-- A string behind a `%` is searched. -/
def searchString : List LikeBlock → ℕ → ℕ → Option (List LikeBlock × ℕ × ℕ)
  | .string start :: rest, sString, sValidChar => search w str fence start rest sString sValidChar
  | bs, sString, sValidChar => some (bs, sString, sValidChar)

/-- The case `MTC_FORMAT_BLOCK_PERCENT` with more blocks behind it. -/
def percentStep (bs : List LikeBlock) (sString sValidChar : ℕ) :
    Option (List LikeBlock × ℕ × ℕ) :=
  match skipUnder w str fence bs sString with
  | none => none
  | some (cs, p) => if p > fence then none else searchString w str fence cs p sValidChar

theorem checkMatchBlock_length {bs cs : List LikeBlock} {p q : ℕ}
    (h : checkMatchBlock w str fence bs p = some (cs, q)) : cs.length ≤ bs.length := by
  induction bs generalizing p with
  | nil =>
    cases h
    exact Nat.le_refl _
  | cons b bs ih =>
    cases b with
    | string start =>
      unfold checkMatchBlock at h
      split_ifs at h
      exact Nat.le_succ_of_le (ih h)
    | under cnt =>
      unfold checkMatchBlock at h
      cases hover : w.stepOver str fence p cnt with
      | none =>
        rw [hover] at h
        cases h
      | some r =>
        rw [hover] at h
        exact Nat.le_succ_of_le (ih h)
    | percent cnt =>
      cases h
      exact Nat.le_refl _

theorem search_length {start : List UInt8} {rest cs : List LikeBlock} {p v q u : ℕ}
    (h : search w str fence start rest p v = some (cs, q, u)) : cs.length ≤ rest.length + 1 := by
  induction p, v using search.induct w str fence start rest with
  | case1 sString sValidChar hlt hnone =>
    rw [search, if_pos hlt, hnone] at h
    cases h
  | case2 sString sValidChar hlt sCmpResult hcmp _ _ hvalid bs r hmatch =>
    rw [search, if_pos hlt, hcmp] at h
    dsimp only at h
    rw [if_pos hvalid, hmatch] at h
    cases h
    exact Nat.le_succ_of_le (checkMatchBlock_length w str fence hmatch)
  | case3 sString sValidChar hlt sCmpResult hcmp _ _ hvalid hmatch ih =>
    rw [search, if_pos hlt, hcmp] at h
    dsimp only at h
    rw [if_pos hvalid, hmatch] at h
    exact ih h
  | case4 sString sValidChar hlt sCmpResult hcmp _ _ hvalid ih =>
    rw [search, if_pos hlt, hcmp] at h
    dsimp only at h
    rw [if_neg hvalid] at h
    exact ih h
  | case5 sString sValidChar hlt =>
    rw [search, if_neg hlt] at h
    cases h
    exact Nat.le_refl _

theorem skipUnder_length {bs cs : List LikeBlock} {p q : ℕ}
    (h : skipUnder w str fence bs p = some (cs, q)) : cs.length ≤ bs.length := by
  unfold skipUnder at h
  split at h
  · rename_i cnt rest
    obtain ⟨r, _, hr⟩ := Option.map_eq_some_iff.mp h
    cases hr
    exact Nat.le_succ _
  · cases h
    exact Nat.le_refl _

theorem searchString_length {bs cs : List LikeBlock} {p v q u : ℕ}
    (h : searchString w str fence bs p v = some (cs, q, u)) : cs.length ≤ bs.length := by
  unfold searchString at h
  split at h
  · exact search_length w str fence h
  · cases h
    exact Nat.le_refl _

/-- Every turn of the second loop uses up a block. -/
theorem percentStep_length {bs cs : List LikeBlock} {p v q u : ℕ}
    (h : percentStep w str fence bs p v = some (cs, q, u)) : cs.length ≤ bs.length := by
  unfold percentStep at h
  cases hskip : skipUnder w str fence bs p with
  | none =>
    rw [hskip] at h
    cases h
  | some r =>
    obtain ⟨ds, r⟩ := r
    rw [hskip] at h
    dsimp only at h
    split_ifs at h
    have hds := skipUnder_length w str fence hskip
    have hcs := searchString_length w str fence h
    exact Nat.le_trans hcs hds

/-- **The second loop**, over the blocks up to the last `%`, and the last test. -/
def likeLoop : List LikeBlock → ℕ → ℕ → Bool
  | [], sString, _ => sString = fence
  | .string start :: rest, sString, sValidChar =>
      if startsAt str fence sString start then
        likeLoop rest (sString + start.length) sValidChar
      else false
  | .under cnt :: rest, sString, sValidChar =>
      match w.stepOver str fence sString cnt with
      | some p => likeLoop rest p sValidChar
      | none => false
  -- a last `%` takes the rest of the string
  | [.percent _], _, sValidChar => likeLoop [] fence sValidChar
  | .percent _ :: b :: rest, sString, sValidChar =>
      match h : percentStep w str fence (b :: rest) sString sValidChar with
      | some (bs, p, v) =>
          have : bs.length ≤ rest.length + 1 := percentStep_length w str fence h
          likeLoop bs p v
      | none => false
  termination_by bs => bs.length

end OnePass

/-- The two loops of `mtfLikeCalculateOnePass` and `mtfLikeCalculateMBOnePass`. -/
def onePass (w : LikeSteps) (aString : List UInt8) (aBlock : List LikeBlock) : Bool :=
  match stripTail w aString aBlock.reverse aString.length with
  | some (bs, sStringFence) => likeLoop w aString sStringFence bs.reverse 0 0
  | none => false

/-- The loops behind `IDE_ASSERT( aBlockCnt != 0 )`. -/
def assertedPass (w : LikeSteps) (aString : List UInt8) (aBlock : List LikeBlock) :
    Except LikeError Bool :=
  if aBlock = [] then .error .blockAssert else .ok (onePass w aString aBlock)

/-- `mtfLikeCalculateOnePass`, for the languages of one byte a character. -/
def mtfLikeCalculateOnePass : List UInt8 → List LikeBlock → Except LikeError Bool :=
  assertedPass asciiSteps

/-- `mtfLikeCalculateMBOnePass`, for the other languages. -/
def mtfLikeCalculateMBOnePass (aLanguage : MtlModule) :
    List UInt8 → List LikeBlock → Except LikeError Bool :=
  assertedPass (mbSteps aLanguage)

/-! ## §4. What the first block demands. -/

section Prefix

variable (w : LikeSteps) (str : List UInt8)

/-- The first loop leaves the first block in place, or has matched it at the fence. -/
theorem stripTail_first {bs rem : List LikeBlock} {start : List UInt8} {f g : ℕ}
    (h : stripTail w str (bs ++ [.string start]) f = some (rem, g)) :
    (bs ≠ [] ∧ ∃ cs, rem = cs ++ [.string start]) ∨
      (rem = [] ∧ (str.drop g).take start.length = start ∧ (bs = [] → f = g + start.length)) := by
  induction bs generalizing f with
  | nil =>
    rw [List.nil_append, stripTail] at h
    split_ifs at h with hlen hmatch
    rw [stripTail] at h
    cases h
    exact .inr ⟨rfl, hmatch, fun _ => by omega⟩
  | cons b bs ih =>
    have hne : b :: bs ≠ [] := List.cons_ne_nil b bs
    -- the blocks in front of it are still there when the loop comes to it
    have hrest : ∀ {f'}, stripTail w str (bs ++ [.string start]) f' = some (rem, g) →
        (b :: bs ≠ [] ∧ ∃ cs, rem = cs ++ [.string start]) ∨
          (rem = [] ∧ (str.drop g).take start.length = start ∧
            (b :: bs = [] → f = g + start.length)) := by
      intro f' hf'
      rcases ih hf' with ⟨_, hcs⟩ | ⟨hnil, hmatch, _⟩
      · exact .inl ⟨hne, hcs⟩
      · exact .inr ⟨hnil, hmatch, fun heq => absurd heq hne⟩
    rw [List.cons_append] at h
    cases b with
    | string s =>
      unfold stripTail at h
      split_ifs at h
      exact hrest h
    | under cnt =>
      unfold stripTail at h
      cases hback : w.stepBack str f cnt with
      | none =>
        rw [hback] at h
        cases h
      | some p =>
        rw [hback] at h
        exact hrest h
    -- a percent sign ends the loop
    | percent cnt =>
      cases h
      exact .inl ⟨hne, .percent cnt :: bs, rfl⟩

theorem prefix_of_take {start : List UInt8} (h : str.take start.length = start) : start <+: str :=
  ⟨str.drop start.length, by
    conv_lhs =>
      lhs
      rw [← h]
    exact List.take_append_drop _ _⟩

/-- **What matches begins with the first string of the pattern**, and is that string
if the pattern has nothing else. -/
theorem begins_of_onePass {start : List UInt8} {bs : List LikeBlock}
    (h : onePass w str (.string start :: bs) = true) :
    start <+: str ∧ (bs = [] → str = start) := by
  unfold onePass at h
  rw [List.reverse_cons] at h
  cases hstrip : stripTail w str (bs.reverse ++ [.string start]) str.length with
  | none =>
    rw [hstrip] at h
    cases h
  | some r =>
    obtain ⟨rem, fence⟩ := r
    rw [hstrip] at h
    dsimp only at h
    rcases stripTail_first w str hstrip with ⟨hne, cs, rfl⟩ | ⟨rfl, hmatch, hlen⟩
    · -- a `%` ended the first loop, so the second one begins with the block
      rw [List.reverse_append] at h
      change likeLoop w str fence (.string start :: cs.reverse) 0 0 = true at h
      rw [likeLoop] at h
      split_ifs at h with hstarts
      unfold startsAt at hstarts
      rw [Bool.and_eq_true, decide_eq_true_eq, decide_eq_true_eq, List.drop_zero] at hstarts
      refine ⟨prefix_of_take str hstarts.2, fun hnil => ?_⟩
      exact absurd (List.reverse_eq_nil_iff.mpr hnil) hne
    · -- the whole pattern was matched from the end
      rw [List.reverse_nil, likeLoop, decide_eq_true_eq] at h
      rw [← h, List.drop_zero] at hmatch
      have hpre := prefix_of_take str hmatch
      refine ⟨hpre, fun hnil => ?_⟩
      have hlength := hlen (List.reverse_eq_nil_iff.mpr hnil)
      exact (hpre.eq_of_length (by omega)).symm

theorem assertedPass_eq_ok {aBlock : List LikeBlock} {sResult : Bool} :
    assertedPass w str aBlock = .ok sResult ↔ aBlock ≠ [] ∧ onePass w str aBlock = sResult := by
  unfold assertedPass
  split_ifs with hnil
  · exact iff_of_false (fun h => by cases h) fun h => h.1 hnil
  · exact ⟨fun h => ⟨hnil, Except.ok.inj h⟩, fun h => congrArg Except.ok h.2⟩

end Prefix

/-! ## §5. LIKE. -/

/-- **LIKE** on a column of a language: `mtfLikeCalculateNormalFast` and
`mtfLikeCalculateMBNormalFast`, with the blocks of the pattern; `none` is NULL. -/
def likeCalculate (aLanguage : MtlModule) (sString sFormat sEscape : List UInt8) :
    Except LikeError (Option Bool) :=
  if sString.length = 0 ∨ sFormat.length = 0 then .ok none
  else if aLanguage.id = .ascii then do
    let sBlock ← getMoreInfoFromPattern sFormat sEscape
    let sResult ← mtfLikeCalculateOnePass sString sBlock
    .ok (some sResult)
  else do
    let sBlock ← getMoreInfoFromPatternMB aLanguage sFormat sEscape
    let sResult ← mtfLikeCalculateMBOnePass aLanguage sString sBlock
    .ok (some sResult)

/-- A step that succeeds with the rest of the evaluation. -/
theorem exists_of_bind_eq_ok {α β : Type} {x : Except LikeError α} {f : α → Except LikeError β}
    {b : β} (h : (x >>= f) = .ok b) : ∃ a, x = .ok a ∧ f a = .ok b := by
  cases x with
  | error e => cases h
  | ok a => exact ⟨a, rfl, h⟩

/-- A step that fails, or the rest of the evaluation. -/
theorem cases_of_bind_eq_error {α β : Type} {x : Except LikeError α} {f : α → Except LikeError β}
    {e : LikeError} (h : (x >>= f) = .error e) :
    x = .error e ∨ ∃ a, x = .ok a ∧ f a = .error e := by
  cases x with
  | error e' => exact .inl (congrArg Except.error (Except.error.inj h))
  | ok a => exact .inr ⟨a, rfl, h⟩

theorem likeEscape_no_assert (precision : ℕ) (aEscape : List UInt8) :
    likeEscape precision aEscape ≠ .error .blockAssert := by
  unfold likeEscape
  split_ifs <;> simp

theorem moreInfoLoop_no_assert (s : Scan) (aBlockInfo : List LikeBlock) :
    moreInfoLoop aBlockInfo s ≠ .error .blockAssert := by
  induction s generalizing aBlockInfo with
  | done => simp [moreInfoLoop]
  | invalidLiteral => simp [moreInfoLoop]
  | token t next ih => exact ih _

/-- The elements of characters. -/
theorem scan_ne_done (aLanguage : MtlModule) (escape : Option (List UInt8))
    {cs : List (List UInt8)} (hne : cs ≠ []) : scan aLanguage escape cs ≠ .done := by
  obtain ⟨c, rest, rfl⟩ := List.exists_cons_of_ne_nil hne
  unfold scan
  split_ifs
  · cases rest with
    | nil => exact Scan.noConfusion
    | cons d rest' =>
      dsimp only
      split_ifs <;> exact Scan.noConfusion
  · exact Scan.noConfusion
  · exact Scan.noConfusion
  · exact Scan.noConfusion

/-- A pattern with characters has blocks. -/
theorem moreInfoLoop_ne_nil {s : Scan} {bs : List LikeBlock} (hs : s ≠ .done)
    (h : moreInfoLoop [] s = .ok bs) : bs ≠ [] := by
  rw [moreInfoLoop_eq] at h
  cases s with
  | done => exact absurd rfl hs
  | invalidLiteral => cases h
  | token t next =>
    unfold Scan.tokens at h
    cases htok : next.tokens with
    | error e =>
      rw [htok] at h
      cases h
    | ok ts =>
      rw [htok] at h
      obtain rfl := Except.ok.inj h
      rw [Ne, List.reverse_eq_nil_iff, foldl_pushToken_eq_nil]
      exact List.cons_ne_nil t ts

/-- **LIKE never meets the assertion**: it answers NULL for an empty pattern. -/
theorem likeCalculate_no_assert (aLanguage : MtlModule) (sString sFormat sEscape : List UInt8) :
    likeCalculate aLanguage sString sFormat sEscape ≠ .error .blockAssert := by
  -- a pattern with a character has a block
  have hpass : ∀ {w : LikeSteps} {escape : Except LikeError (Option (List UInt8))}
      {f : Option (List UInt8) → Scan}, escape ≠ .error .blockAssert →
      (∀ e, f e ≠ .done) → (do
        let sBlock ← (do
          let sEscape ← escape
          moreInfoLoop [] (f sEscape))
        let sResult ← assertedPass w sString sBlock
        Except.ok (some sResult)) ≠ .error LikeError.blockAssert := by
    intro w escape f hescape hf h
    obtain h | ⟨bs, hbs, h⟩ := cases_of_bind_eq_error h
    · obtain h | ⟨e, -, h⟩ := cases_of_bind_eq_error h
      · exact hescape h
      · exact moreInfoLoop_no_assert _ _ h
    · obtain ⟨e, -, hloop⟩ := exists_of_bind_eq_ok hbs
      have hne := moreInfoLoop_ne_nil (hf e) hloop
      obtain h | ⟨sResult, -, h⟩ := cases_of_bind_eq_error h
      · rw [assertedPass, if_neg hne] at h
        cases h
      · cases h
  unfold likeCalculate
  -- NULL is answered first
  split_ifs with hnull hascii
  · exact fun h => by cases h
  · rw [not_or, List.length_eq_zero_iff, List.length_eq_zero_iff] at hnull
    unfold getMoreInfoFromPattern
    split_ifs
    · exact fun h => by cases h
    · exact hpass (likeEscape_no_assert _ _) fun e =>
        scan_ne_done mtlAscii e fun hmap => hnull.2 (List.map_eq_nil_iff.mp hmap)
  · rw [not_or, List.length_eq_zero_iff, List.length_eq_zero_iff] at hnull
    unfold getMoreInfoFromPatternMB
    split_ifs
    · exact fun h => by cases h
    · refine hpass (likeEscape_no_assert _ _) fun e => scan_ne_done aLanguage e fun hchars => ?_
      have hflat := aLanguage.chars_flatten sFormat
      rw [hchars] at hflat
      exact hnull.2 hflat.symm

end Altibase.Mtf
