/-
  Altibase.Mtf.LikePattern
  ────────────────────────
  **THE PATTERN OF LIKE, READ TWICE.**

  `getMoreInfoFromPattern` cuts the pattern into blocks for the evaluation of
  LIKE; `mtfLikeKey` takes its leading literal characters as an index key.  Both
  read the pattern element by element: an escape with the character behind it,
  a wildcard, or a literal character.

    * `getMoreInfoFromPattern`, `getMoreInfoFromPatternMB`, `mtfLikeKey`,
      `mtfLikeKeyMB` — as in the source;
    * `moreInfoLoop_eq`, `first_block` — the first block holds the leading literals;
    * `likeKeyLoop_eq`, `likeKeyLoopMB_eq` — the key holds as many of them as fit.
-/

import Altibase.Mtl.Language

namespace Altibase.Mtf

open Altibase.Mtl

/-! ## §1. The elements of a pattern. -/

/-- The errors, and the assertion on the number of blocks. -/
inductive LikeError where
  | invalidEscape | invalidLiteral | longPattern | blockAssert
  deriving DecidableEq, Repr

/-- What an element of a pattern stands for. -/
inductive Token where
  | literal (c : List UInt8)
  | under
  | percent
  deriving DecidableEq, Repr

/-- **The elements in the order in which the loops read them**, up to the end of
the pattern or to an escape that is not followed by `%`, `_` or itself. -/
inductive Scan where
  | done
  | invalidLiteral
  | token (t : Token) (next : Scan)
  deriving DecidableEq, Repr

/-- `mtc::compareOneChar` with the escape character, to which nothing is equal if
there is none. -/
def isEscape (escape : Option (List UInt8)) (c : List UInt8) : Bool := escape = some c

/-- Characters are compared as wholes. -/
def scan (aLanguage : MtlModule) (escape : Option (List UInt8)) : List (List UInt8) → Scan
  | [] => .done
  | c :: rest =>
      if isEscape escape c then
        match rest with
        | [] => .invalidLiteral
        | d :: rest' =>
            if d = aLanguage.percent ∨ d = aLanguage.under ∨ d = c then
              .token (.literal d) (scan aLanguage escape rest')
            else .invalidLiteral
      else if c = aLanguage.under then .token .under (scan aLanguage escape rest)
      else if c = aLanguage.percent then .token .percent (scan aLanguage escape rest)
      else .token (.literal c) (scan aLanguage escape rest)

/-- The escape character: `precision` bytes of `aEscape`, none if it is shorter. -/
def likeEscape (precision : ℕ) (aEscape : List UInt8) :
    Except LikeError (Option (List UInt8)) :=
  if aEscape.length < precision then .ok none
  else if aEscape.length = precision then .ok (some aEscape)
  else .error .invalidEscape

/-- `MTL_UTF16_PRECISION` for UTF16, else 1. -/
def escapePrecision (aLanguage : MtlModule) : ℕ := if aLanguage.id = .utf16 then 2 else 1

/-- The characters of an ASCII string are its bytes. -/
def bytes (s : List UInt8) : List (List UInt8) := s.map fun b => [b]

/-! ## §2. `getMoreInfoFromPattern`. -/

/-- `mtcLikeBlockInfo`: a string, or the number of wildcards. -/
inductive LikeBlock where
  | string (start : List UInt8)
  | under (cnt : ℕ)
  | percent (cnt : ℕ)
  deriving DecidableEq, Repr

/-- The `switch` on `sType`: the element goes into the open block, which is the
head of the list, or closes it and opens the next one. -/
def pushToken : List LikeBlock → Token → List LikeBlock
  | .string start :: done, .literal c => .string (start ++ c) :: done
  | done, .literal c => .string c :: done
  | .under cnt :: done, .under => .under (cnt + 1) :: done
  | done, .under => .under 1 :: done
  | .percent cnt :: done, .percent => .percent (cnt + 1) :: done
  | done, .percent => .percent 1 :: done

/-- The loop over the pattern. -/
def moreInfoLoop : List LikeBlock → Scan → Except LikeError (List LikeBlock)
  | aBlockInfo, .done => .ok aBlockInfo.reverse
  | _, .invalidLiteral => .error .invalidLiteral
  | aBlockInfo, .token t next => moreInfoLoop (pushToken aBlockInfo t) next

/-- `MTC_LIKE_PATTERN_MAX_SIZE`. -/
def likePatternMaxSize : ℕ := 4000

/-- `getMoreInfoFromPattern`. -/
def getMoreInfoFromPattern (aFormat aEscape : List UInt8) : Except LikeError (List LikeBlock) :=
  if aFormat.length > likePatternMaxSize then .error .longPattern
  else do
    let sEscape ← likeEscape 1 aEscape
    moreInfoLoop [] (scan mtlAscii sEscape (bytes aFormat))

/-- `getMoreInfoFromPatternMB`. -/
def getMoreInfoFromPatternMB (aLanguage : MtlModule) (aFormat aEscape : List UInt8) :
    Except LikeError (List LikeBlock) :=
  if aFormat.length > likePatternMaxSize then .error .longPattern
  else do
    let sEscape ← likeEscape (escapePrecision aLanguage) aEscape
    moreInfoLoop [] (scan aLanguage sEscape (aLanguage.chars aFormat))

/-! ## §3. `mtfLikeKey`. -/

/-- `sIndex == sFence`. -/
def Scan.atFence : Scan → Bool
  | .done => true
  | _ => false

/-- The loop of `mtfLikeKey`: the key, and `aIsEqual`.  It is left behind the
character that fills the key. -/
def likeKeyLoop (aKeyMax : ℕ) : List UInt8 → Scan → Except LikeError (List UInt8 × Bool)
  | aKey, .done => .ok (aKey, true)
  | _, .invalidLiteral => .error .invalidLiteral
  | aKey, .token (.literal c) next =>
      if (aKey ++ c).length + 1 > aKeyMax then .ok (aKey ++ c, next.atFence)
      else likeKeyLoop aKeyMax (aKey ++ c) next
  | aKey, .token _ _ => .ok (aKey, false)

/-- The loop of `mtfLikeKeyMB`.  A character that does not fit is put back. -/
def likeKeyLoopMB (aKeyMax : ℕ) : List UInt8 → Scan → Except LikeError (List UInt8 × Bool)
  | aKey, .done => .ok (aKey, true)
  | _, .invalidLiteral => .error .invalidLiteral
  | aKey, .token (.literal c) next =>
      if aKey.length + c.length > aKeyMax then .ok (aKey, false)
      else likeKeyLoopMB aKeyMax (aKey ++ c) next
  | aKey, .token _ _ => .ok (aKey, false)

/-- `mtfLikeKey`. -/
def mtfLikeKey (aKeyMax : ℕ) (aSource aEscape : List UInt8) :
    Except LikeError (List UInt8 × Bool) := do
  let sEscape ← likeEscape 1 aEscape
  likeKeyLoop aKeyMax [] (scan mtlAscii sEscape (bytes aSource))

/-- `mtfLikeKeyMB`. -/
def mtfLikeKeyMB (aLanguage : MtlModule) (aKeyMax : ℕ) (aSource aEscape : List UInt8) :
    Except LikeError (List UInt8 × Bool) := do
  let sEscape ← likeEscape (escapePrecision aLanguage) aEscape
  likeKeyLoopMB aKeyMax [] (scan aLanguage sEscape (aLanguage.chars aSource))

/-! ## §4. The leading literals. -/

/-- The elements, if the pattern is valid. -/
def Scan.tokens : Scan → Except LikeError (List Token)
  | .done => .ok []
  | .invalidLiteral => .error .invalidLiteral
  | .token t next => next.tokens.map (t :: ·)

/-- The literal characters before the first wildcard. -/
def leading : List Token → List (List UInt8)
  | .literal c :: ts => c :: leading ts
  | _ => []

/-- What follows them. -/
def afterLeading : List Token → List Token
  | .literal _ :: ts => afterLeading ts
  | ts => ts

/-- **As many whole characters as fit into `room` bytes.** -/
def fit (room : ℕ) : List (List UInt8) → List (List UInt8)
  | [] => []
  | c :: cs => if c.length ≤ room then c :: fit (room - c.length) cs else []

theorem tokens_token {t : Token} {next : Scan} {ts : List Token}
    (h : (Scan.token t next).tokens = .ok ts) : ∃ us, next.tokens = .ok us ∧ ts = t :: us := by
  unfold Scan.tokens at h
  cases hnext : next.tokens with
  | error e =>
    rw [hnext] at h
    cases h
  | ok us =>
    rw [hnext] at h
    cases h
    exact ⟨us, rfl, rfl⟩

theorem tokens_done {ts : List Token} (h : Scan.done.tokens = .ok ts) : ts = [] := by
  cases h
  rfl

theorem atFence_iff {s : Scan} {ts : List Token} (h : s.tokens = .ok ts) :
    s.atFence = true ↔ ts = [] := by
  cases s with
  | done => exact ⟨fun _ => tokens_done h, fun _ => rfl⟩
  | invalidLiteral => cases h
  | token t next =>
    obtain ⟨us, _, rfl⟩ := tokens_token h
    exact ⟨fun hfence => absurd hfence Bool.false_ne_true, fun hnil => absurd hnil (by simp)⟩

theorem leading_append_afterLeading (ts : List Token) :
    (leading ts).map Token.literal ++ afterLeading ts = ts := by
  induction ts with
  | nil => rfl
  | cons t ts ih =>
    cases t with
    | literal c =>
      show Token.literal c :: ((leading ts).map Token.literal ++ afterLeading ts) = _
      rw [ih]
    | under => rfl
    | percent => rfl

/-- A pattern ends where its literals end if it has no wildcard. -/
theorem eq_nil_iff (ts : List Token) : ts = [] ↔ leading ts = [] ∧ afterLeading ts = [] := by
  constructor
  · rintro rfl
    exact ⟨rfl, rfl⟩
  · rintro ⟨hlead, hafter⟩
    have happ := leading_append_afterLeading ts
    rw [hlead, hafter] at happ
    exact happ.symm

theorem isPrefix_fit (room : ℕ) (cs : List (List UInt8)) : fit room cs <+: cs := by
  induction cs generalizing room with
  | nil => exact List.nil_prefix
  | cons c cs ih =>
    unfold fit
    split_ifs with h
    · exact (List.prefix_cons_inj c).mpr (ih _)
    · exact List.nil_prefix

/-! ## §5. The first block. -/

theorem moreInfoLoop_eq (s : Scan) (aBlockInfo : List LikeBlock) :
    moreInfoLoop aBlockInfo s
      = s.tokens.map fun ts => (ts.foldl pushToken aBlockInfo).reverse := by
  induction s generalizing aBlockInfo with
  | done => rfl
  | invalidLiteral => rfl
  | token t next ih =>
    unfold moreInfoLoop Scan.tokens
    rw [ih]
    cases next.tokens <;> rfl

/-- Blocks below the open one stay. -/
theorem foldl_pushToken_keeps (ts : List Token) (b : LikeBlock) (done : List LikeBlock) :
    ∃ p, p ≠ [] ∧ ts.foldl pushToken (b :: done) = p ++ done := by
  induction ts generalizing b done with
  | nil => exact ⟨[b], List.cons_ne_nil _ _, rfl⟩
  | cons t ts ih =>
    have hstep : ∃ c, pushToken (b :: done) t = c :: done ∨
        pushToken (b :: done) t = c :: b :: done := by
      cases b <;> cases t <;> first | exact ⟨_, .inl rfl⟩ | exact ⟨_, .inr rfl⟩
    obtain ⟨c, hc | hc⟩ := hstep
    · rw [List.foldl_cons, hc]
      exact ih c done
    · obtain ⟨p, _, hp⟩ := ih c (b :: done)
      refine ⟨p ++ [b], by simp, ?_⟩
      rw [List.foldl_cons, hc, hp, List.append_assoc]
      rfl

/-- A pattern with elements has blocks. -/
theorem foldl_pushToken_eq_nil (ts : List Token) : ts.foldl pushToken [] = [] ↔ ts = [] := by
  cases ts with
  | nil => exact iff_of_true rfl rfl
  | cons t ts =>
    obtain ⟨b, hb⟩ : ∃ b, pushToken [] t = [b] := by
      cases t <;> exact ⟨_, rfl⟩
    obtain ⟨p, hp, hfold⟩ := foldl_pushToken_keeps ts b []
    rw [List.foldl_cons, hb, hfold, List.append_nil]
    exact iff_of_false hp (List.cons_ne_nil t ts)

theorem foldl_pushToken_literals (cs : List (List UInt8)) (start : List UInt8)
    (done : List LikeBlock) :
    (cs.map Token.literal).foldl pushToken (.string start :: done)
      = .string (start ++ cs.flatten) :: done := by
  induction cs generalizing start with
  | nil => rw [List.flatten_nil, List.append_nil]; rfl
  | cons c cs ih =>
    show (cs.map Token.literal).foldl pushToken (.string (start ++ c) :: done) = _
    rw [ih, List.flatten_cons, List.append_assoc]

/-- The first wildcard closes the string. -/
theorem pushToken_wildcard {ts us : List Token} {t : Token} (h : afterLeading ts = t :: us)
    (start : List UInt8) : ∃ b, pushToken [.string start] t = b :: [.string start] := by
  induction ts with
  | nil => cases h
  | cons u ts ih =>
    cases u with
    | literal c => exact ih h
    | under =>
      cases h
      exact ⟨.under 1, rfl⟩
    | percent =>
      cases h
      exact ⟨.percent 1, rfl⟩

/-- **The first block is the string of the leading literals**, and the only one in
a pattern without wildcards. -/
theorem first_block {ts : List Token} (h : leading ts ≠ []) :
    ∃ bs, (ts.foldl pushToken []).reverse = .string (leading ts).flatten :: bs ∧
      (afterLeading ts = [] → bs = []) := by
  obtain ⟨c, cs, hlead⟩ := List.exists_cons_of_ne_nil h
  have hstart : ts.foldl pushToken []
      = (afterLeading ts).foldl pushToken [.string (leading ts).flatten] := by
    conv_lhs => rw [← leading_append_afterLeading ts]
    rw [List.foldl_append, hlead]
    show (afterLeading ts).foldl pushToken
      ((cs.map Token.literal).foldl pushToken [.string c]) = _
    rw [foldl_pushToken_literals, List.flatten_cons]
  rw [hstart]
  cases hafter : afterLeading ts with
  | nil => exact ⟨[], rfl, fun _ => rfl⟩
  | cons t us =>
    obtain ⟨b, hb⟩ := pushToken_wildcard hafter (leading ts).flatten
    obtain ⟨p, _, hp⟩ := foldl_pushToken_keeps us b [.string (leading ts).flatten]
    refine ⟨p.reverse, ?_, fun hnil => absurd hnil (List.cons_ne_nil _ _)⟩
    rw [List.foldl_cons, hb, hp, List.reverse_append]
    rfl

/-! ## §6. The key. -/

/-- The key is the whole pattern. -/
def IsWhole (room : ℕ) (ts : List Token) : Prop :=
  afterLeading ts = [] ∧ fit room (leading ts) = leading ts

theorem fit_cons_of_le {room : ℕ} {c : List UInt8} (cs : List (List UInt8)) (h : c.length ≤ room) :
    fit room (c :: cs) = c :: fit (room - c.length) cs :=
  if_pos h

theorem isWhole_literal {room : ℕ} {c : List UInt8} {ts : List Token} (h : c.length ≤ room) :
    IsWhole room (.literal c :: ts) ↔ IsWhole (room - c.length) ts := by
  show (afterLeading ts = [] ∧ fit room (c :: leading ts) = c :: leading ts) ↔ _
  rw [fit_cons_of_le _ h, List.cons_inj_right]
  exact Iff.rfl

/-- **`mtfLikeKeyMB`**: the leading characters that fit; `aIsEqual` if that is the
whole pattern. -/
theorem likeKeyLoopMB_eq {s : Scan} {ts : List Token} (h : s.tokens = .ok ts) {aKeyMax : ℕ}
    {aKey : List UInt8} (hkey : aKey.length ≤ aKeyMax) :
    ∃ e, likeKeyLoopMB aKeyMax aKey s
        = .ok (aKey ++ (fit (aKeyMax - aKey.length) (leading ts)).flatten, e) ∧
      (e = true ↔ IsWhole (aKeyMax - aKey.length) ts) := by
  induction s generalizing ts aKey with
  | done =>
    rw [tokens_done h]
    exact ⟨true, by simp [likeKeyLoopMB, leading, fit], fun _ => ⟨rfl, rfl⟩, fun _ => rfl⟩
  | invalidLiteral => cases h
  | token t next ih =>
    obtain ⟨us, hnext, rfl⟩ := tokens_token h
    cases t with
    | literal c =>
      unfold likeKeyLoopMB
      by_cases hfull : aKey.length + c.length > aKeyMax
      · have hfit : fit (aKeyMax - aKey.length) (leading (.literal c :: us)) = [] :=
          if_neg (by omega)
        rw [if_pos hfull, hfit]
        refine ⟨false, by rw [List.flatten_nil, List.append_nil], ?_, ?_⟩
        · intro hfalse
          exact absurd hfalse Bool.false_ne_true
        · intro hwhole
          exact absurd (hfit.symm.trans hwhole.2) (List.cons_ne_nil _ _).symm
      · have hroom : c.length ≤ aKeyMax - aKey.length := by omega
        have hlen : (aKey ++ c).length = aKey.length + c.length := List.length_append
        obtain ⟨e, he, hwhole⟩ := ih hnext (show (aKey ++ c).length ≤ aKeyMax by omega)
        have hsub : aKeyMax - (aKey ++ c).length = aKeyMax - aKey.length - c.length := by omega
        rw [hsub] at he hwhole
        refine ⟨e, ?_, ?_⟩
        · show _ = Except.ok (aKey ++ (fit _ (c :: leading us)).flatten, e)
          rw [if_neg hfull, he, fit_cons_of_le _ hroom, List.flatten_cons, List.append_assoc]
        · rw [hwhole, isWhole_literal hroom]
    | under => exact ⟨false, by simp [likeKeyLoopMB, leading, fit], by simp [IsWhole, afterLeading]⟩
    | percent =>
      exact ⟨false, by simp [likeKeyLoopMB, leading, fit], by simp [IsWhole, afterLeading]⟩

/-- **`mtfLikeKey`** gives the same key: its loop ends one character earlier, but
every character has one byte. -/
theorem likeKeyLoop_eq {s : Scan} {ts : List Token} (h : s.tokens = .ok ts)
    (hone : ∀ c ∈ leading ts, c.length = 1) {aKeyMax : ℕ} {aKey : List UInt8}
    (hkey : aKey.length < aKeyMax) :
    ∃ e, likeKeyLoop aKeyMax aKey s
        = .ok (aKey ++ (fit (aKeyMax - aKey.length) (leading ts)).flatten, e) ∧
      (e = true ↔ IsWhole (aKeyMax - aKey.length) ts) := by
  induction s generalizing ts aKey with
  | done =>
    rw [tokens_done h]
    exact ⟨true, by simp [likeKeyLoop, leading, fit], fun _ => ⟨rfl, rfl⟩, fun _ => rfl⟩
  | invalidLiteral => cases h
  | token t next ih =>
    obtain ⟨us, hnext, rfl⟩ := tokens_token h
    cases t with
    | literal c =>
      have hc : c.length = 1 := hone c List.mem_cons_self
      have hrest : ∀ d ∈ leading us, d.length = 1 := fun d hd => hone d (List.mem_cons_of_mem c hd)
      have hroom : c.length ≤ aKeyMax - aKey.length := by omega
      have hlen : (aKey ++ c).length = aKey.length + c.length := List.length_append
      have hsub : aKeyMax - (aKey ++ c).length = aKeyMax - aKey.length - c.length := by omega
      unfold likeKeyLoop
      show ∃ e, _ = Except.ok (aKey ++ (fit _ (c :: leading us)).flatten, e) ∧ _
      rw [fit_cons_of_le _ hroom, isWhole_literal hroom, List.flatten_cons, ← List.append_assoc]
      by_cases hfull : (aKey ++ c).length + 1 > aKeyMax
      · -- no byte is left
        have hzero : aKeyMax - aKey.length - c.length = 0 := by omega
        have hnofit : fit 0 (leading us) = [] := by
          cases hlead : leading us with
          | nil => rfl
          | cons d ds =>
            have hd : d.length = 1 := hrest d (by rw [hlead]; exact List.mem_cons_self)
            exact if_neg (by omega)
        rw [if_pos hfull, hzero]
        refine ⟨next.atFence, by rw [hnofit, List.flatten_nil, List.append_nil], ?_⟩
        rw [atFence_iff hnext, eq_nil_iff, and_comm]
        show _ ↔ afterLeading us = [] ∧ fit 0 (leading us) = leading us
        rw [hnofit, eq_comm (a := ([] : List (List UInt8)))]
      · obtain ⟨e, he, hwhole⟩ := ih hnext hrest (show (aKey ++ c).length < aKeyMax by omega)
        rw [hsub] at he hwhole
        rw [if_neg hfull]
        exact ⟨e, he, hwhole⟩
    | under => exact ⟨false, by simp [likeKeyLoop, leading, fit], by simp [IsWhole, afterLeading]⟩
    | percent =>
      exact ⟨false, by simp [likeKeyLoop, leading, fit], by simp [IsWhole, afterLeading]⟩

/-- A literal is a character of the pattern. -/
theorem mem_of_mem_leading (aLanguage : MtlModule) (escape : Option (List UInt8))
    (cs : List (List UInt8)) {ts : List Token} (h : (scan aLanguage escape cs).tokens = .ok ts) :
    ∀ c ∈ leading ts, c ∈ cs := by
  induction cs using scan.induct aLanguage escape generalizing ts with
  | case1 =>
    rw [tokens_done h]
    exact fun c hc => absurd hc List.not_mem_nil
  | case2 c hesc =>
    rw [scan, if_pos hesc] at h
    cases h
  | case3 c hesc d rest' hspecial ih =>
    -- the escaped character
    rw [scan, if_pos hesc] at h
    rw [if_pos hspecial] at h
    obtain ⟨us, hus, rfl⟩ := tokens_token h
    intro e he
    rcases List.mem_cons.mp he with rfl | he
    · exact List.mem_cons_of_mem c List.mem_cons_self
    · exact List.mem_cons_of_mem c (List.mem_cons_of_mem d (ih hus e he))
  | case4 c hesc d rest' hspecial =>
    rw [scan, if_pos hesc] at h
    rw [if_neg hspecial] at h
    cases h
  | case5 rest hesc ih =>
    unfold scan at h
    rw [if_neg hesc, if_pos rfl] at h
    obtain ⟨us, _, rfl⟩ := tokens_token h
    exact fun c hc => absurd hc List.not_mem_nil
  | case6 rest hesc hunder ih =>
    unfold scan at h
    rw [if_neg hesc, if_neg hunder, if_pos rfl] at h
    obtain ⟨us, _, rfl⟩ := tokens_token h
    exact fun c hc => absurd hc List.not_mem_nil
  | case7 c rest hesc hunder hpercent ih =>
    unfold scan at h
    rw [if_neg hesc, if_neg hunder, if_neg hpercent] at h
    obtain ⟨us, hus, rfl⟩ := tokens_token h
    intro e he
    rcases List.mem_cons.mp he with rfl | he
    · exact List.mem_cons_self
    · exact List.mem_cons_of_mem c (ih hus e he)

/-- The characters of an ASCII pattern have one byte. -/
theorem length_of_mem_leading_bytes (aLanguage : MtlModule) (escape : Option (List UInt8))
    (s : List UInt8) {ts : List Token} (h : (scan aLanguage escape (bytes s)).tokens = .ok ts) :
    ∀ c ∈ leading ts, c.length = 1 := by
  intro c hc
  obtain ⟨b, _, rfl⟩ := List.mem_map.mp (mem_of_mem_leading aLanguage escape (bytes s) h c hc)
  rfl

end Altibase.Mtf
