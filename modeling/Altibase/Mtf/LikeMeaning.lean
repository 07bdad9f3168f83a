/-
  Altibase.Mtf.LikeMeaning
  ────────────────────────
  **WHAT A PATTERN OF LIKE MEANS.**

  A pattern denotes a language: a literal its own bytes, `_` the strings of one
  byte, `%` all strings, and a sequence of elements the product.  The blocks of
  a pattern denote the same language as its elements.

    * `like`, `likeBlocks` — the language of a pattern, and of its blocks;
    * `likeBlocks_foldl` — they agree;
    * `mem_string_mul`, `mem_ofLength_mul`, `mem_top_mul` — what the first block asks
      of a string;
    * `WellFormed`, `wellFormed_foldl` — how the blocks of a pattern alternate.
-/

import Altibase.Mtf.LikeMatch
import Mathlib.Computability.Language
import Mathlib.Data.List.Chain

namespace Altibase.Mtf

open Altibase.Mtl

/-! ## §1. The languages. -/

/-- The strings of `n` bytes. -/
def ofLength (n : ℕ) : Language UInt8 := {s : List UInt8 | s.length = n}

/-- **An element of a pattern** and what it stands for. -/
def Token.language : Token → Language UInt8
  | .literal c => {c}
  | .under => ofLength 1
  | .percent => ⊤

/-- **The strings that a pattern describes.** -/
def like (ts : List Token) : Language UInt8 := (ts.map Token.language).prod

/-- What a block stands for. -/
def LikeBlock.language : LikeBlock → Language UInt8
  | .string start => {start}
  | .under cnt => ofLength cnt
  | .percent _ => ⊤

/-- **What a list of blocks stands for.** -/
def likeBlocks (bs : List LikeBlock) : Language UInt8 := (bs.map LikeBlock.language).prod

@[simp] theorem like_nil : like [] = 1 := rfl

@[simp] theorem like_cons (t : Token) (ts : List Token) :
    like (t :: ts) = t.language * like ts :=
  List.prod_cons

@[simp] theorem likeBlocks_nil : likeBlocks [] = 1 := rfl

@[simp] theorem likeBlocks_cons (b : LikeBlock) (bs : List LikeBlock) :
    likeBlocks (b :: bs) = b.language * likeBlocks bs :=
  List.prod_cons

/-- Blocks in a row. -/
theorem likeBlocks_append (bs cs : List LikeBlock) :
    likeBlocks (bs ++ cs) = likeBlocks bs * likeBlocks cs := by
  unfold likeBlocks
  rw [List.map_append, List.prod_append]

/-- The blocks are collected in reverse, so a new one stands last. -/
theorem likeBlocks_reverse_cons (b : LikeBlock) (bs : List LikeBlock) :
    likeBlocks (b :: bs).reverse = likeBlocks bs.reverse * b.language := by
  rw [List.reverse_cons, likeBlocks_append, likeBlocks_cons, likeBlocks_nil, mul_one]

/-! ## §2. What the first element asks of a string. -/

section Membership

variable {L : Language UInt8} {s : List UInt8}

/-- A string block is compared at the front, -/
theorem mem_string_mul (start : List UInt8) :
    s ∈ ({start} : Language UInt8) * L ↔ start <+: s ∧ s.drop start.length ∈ L := by
  rw [Language.mem_mul]
  constructor
  · rintro ⟨a, ha, b, hb, rfl⟩
    rw [Set.mem_singleton_iff.mp ha, List.drop_left]
    exact ⟨List.prefix_append _ _, hb⟩
  · rintro ⟨⟨b, rfl⟩, hb⟩
    rw [List.drop_left] at hb
    exact ⟨start, rfl, b, hb, rfl⟩

/-- a `_` block skips its characters, -/
theorem mem_ofLength_mul (n : ℕ) : s ∈ ofLength n * L ↔ n ≤ s.length ∧ s.drop n ∈ L := by
  rw [Language.mem_mul]
  constructor
  · rintro ⟨a, ha, b, hb, rfl⟩
    have hlen : a.length = n := ha
    rw [← hlen, List.drop_left, List.length_append]
    exact ⟨Nat.le_add_right _ _, hb⟩
  · rintro ⟨hn, hb⟩
    exact ⟨s.take n, List.length_take_of_le hn, s.drop n, hb, List.take_append_drop n s⟩

/-- and a `%` block any number of them. -/
theorem mem_top_mul : s ∈ (⊤ : Language UInt8) * L ↔ ∃ k, s.drop k ∈ L := by
  rw [Language.mem_mul]
  constructor
  · rintro ⟨a, _, b, hb, rfl⟩
    exact ⟨a.length, by rwa [List.drop_left]⟩
  · rintro ⟨k, hk⟩
    exact ⟨s.take k, Set.mem_univ _, s.drop k, hk, List.take_append_drop k s⟩

/-- The last element: a string. -/
theorem mem_mul_string (start : List UInt8) :
    s ∈ L * ({start} : Language UInt8) ↔
      start.length ≤ s.length ∧ s.drop (s.length - start.length) = start ∧
        s.take (s.length - start.length) ∈ L := by
  rw [Language.mem_mul]
  constructor
  · rintro ⟨a, ha, b, hb, rfl⟩
    rw [Set.mem_singleton_iff.mp hb, List.length_append, Nat.add_sub_cancel, List.drop_left,
      List.take_left]
    exact ⟨Nat.le_add_left _ _, rfl, ha⟩
  · rintro ⟨_, hdrop, htake⟩
    refine ⟨_, htake, start, rfl, ?_⟩
    conv_lhs =>
      rhs
      rw [← hdrop]
    exact List.take_append_drop _ _

/-- The last element: a run of `_`. -/
theorem mem_mul_ofLength (n : ℕ) :
    s ∈ L * ofLength n ↔ n ≤ s.length ∧ s.take (s.length - n) ∈ L := by
  rw [Language.mem_mul]
  constructor
  · rintro ⟨a, ha, b, hb, rfl⟩
    have hlen : b.length = n := hb
    rw [← hlen, List.length_append, Nat.add_sub_cancel, List.take_left]
    exact ⟨Nat.le_add_left _ _, ha⟩
  · rintro ⟨hn, htake⟩
    refine ⟨_, htake, s.drop (s.length - n), ?_, List.take_append_drop _ _⟩
    show (s.drop (s.length - n)).length = n
    rw [List.length_drop]
    omega

end Membership

/-! ## §3. Blocks and elements. -/

/-- Neighbouring literals are one literal, -/
theorem string_mul_string (a b : List UInt8) :
    ({a} : Language UInt8) * {b} = ({a ++ b} : Language UInt8) := by
  rw [Language.mul_def]
  exact Set.image2_singleton

/-- neighbouring `_` are counted, -/
theorem ofLength_mul_ofLength (m n : ℕ) : ofLength m * ofLength n = ofLength (m + n) := by
  ext s
  rw [mem_ofLength_mul]
  show m ≤ s.length ∧ (s.drop m).length = n ↔ s.length = m + n
  rw [List.length_drop]
  omega

/-- and neighbouring `%` are one. -/
theorem top_mul_top : (⊤ : Language UInt8) * ⊤ = ⊤ := by
  ext s
  rw [mem_top_mul]
  exact ⟨fun _ => Set.mem_univ s, fun _ => ⟨0, Set.mem_univ _⟩⟩

/-- An element goes into the open block, or opens one. -/
theorem likeBlocks_pushToken (bs : List LikeBlock) (t : Token) :
    likeBlocks (pushToken bs t).reverse = likeBlocks bs.reverse * t.language := by
  have hnew : ∀ b : LikeBlock, b.language = t.language →
      likeBlocks (b :: bs).reverse = likeBlocks bs.reverse * t.language := by
    intro b hb
    rw [likeBlocks_reverse_cons, hb]
  have hopen : ∀ (b c : LikeBlock) (done : List LikeBlock), b.language * t.language = c.language →
      likeBlocks (c :: done).reverse = likeBlocks (b :: done).reverse * t.language := by
    intro b c done hbc
    rw [likeBlocks_reverse_cons, likeBlocks_reverse_cons, mul_assoc, hbc]
  cases t with
  | literal c =>
    cases bs with
    | nil => exact hnew _ rfl
    | cons b done =>
      cases b with
      | string start => exact hopen _ _ done (string_mul_string start c)
      | under cnt => exact hnew _ rfl
      | percent cnt => exact hnew _ rfl
  | under =>
    cases bs with
    | nil => exact hnew _ rfl
    | cons b done =>
      cases b with
      | string start => exact hnew _ rfl
      | under cnt => exact hopen _ _ done (ofLength_mul_ofLength cnt 1)
      | percent cnt => exact hnew _ rfl
  | percent =>
    cases bs with
    | nil => exact hnew _ rfl
    | cons b done =>
      cases b with
      | string start => exact hnew _ rfl
      | under cnt => exact hnew _ rfl
      | percent cnt => exact hopen _ _ done top_mul_top

/-- **The blocks mean what the elements mean.** -/
theorem likeBlocks_foldl (ts : List Token) (bs : List LikeBlock) :
    likeBlocks (ts.foldl pushToken bs).reverse = likeBlocks bs.reverse * like ts := by
  induction ts generalizing bs with
  | nil => rw [like_nil, mul_one]; rfl
  | cons t ts ih =>
    rw [List.foldl_cons, ih, likeBlocks_pushToken, like_cons, mul_assoc]

/-! ## §4. The blocks of a pattern. -/

/-- Blocks of one kind do not meet. -/
def Differ : LikeBlock → LikeBlock → Prop
  | .string _, .string _ => False
  | .under _, .under _ => False
  | .percent _, .percent _ => False
  | _, _ => True

/-- **The blocks of a pattern**: neighbours differ, and no string is empty. -/
structure WellFormed (bs : List LikeBlock) : Prop where
  alternate : bs.IsChain Differ
  filled : ∀ start, LikeBlock.string start ∈ bs → start ≠ []

/-- The blocks up to the last `%`. -/
structure EndsInPercent (bs : List LikeBlock) : Prop extends WellFormed bs where
  last : ∀ b, bs.getLast? = some b → ∃ n, b = .percent n

/-- The end of a well formed list is well formed. -/
theorem WellFormed.suffix {bs cs : List LikeBlock} (h : WellFormed bs) (hs : cs <:+ bs) :
    WellFormed cs :=
  ⟨h.alternate.suffix hs, fun start hmem => h.filled start (hs.subset hmem)⟩

/-- The end of a list that ends in `%` ends in `%`. -/
theorem EndsInPercent.suffix {bs cs : List LikeBlock} (h : EndsInPercent bs) (hs : cs <:+ bs) :
    EndsInPercent cs where
  toWellFormed := h.toWellFormed.suffix hs
  last b hb := by
    obtain ⟨t, rfl⟩ := hs
    apply h.last b
    rw [List.getLast?_append, hb]
    rfl

/-- Kinds differ in both directions. -/
theorem differ_symm {b c : LikeBlock} (h : Differ b c) : Differ c b := by
  cases b <;> cases c <;> exact h

/-- A block of the same kind may stand in its place. -/
theorem isChain_head {b c : LikeBlock} {done : List LikeBlock}
    (hbc : ∀ d, Differ b d → Differ c d) (h : (b :: done).IsChain Differ) :
    (c :: done).IsChain Differ := by
  cases done with
  | nil => exact List.isChain_singleton c
  | cons d done =>
    obtain ⟨hd, hrest⟩ := List.isChain_cons_cons.mp h
    exact List.isChain_cons_cons.mpr ⟨hbc d hd, hrest⟩

/-- A block that is opened is of another kind than the one before it. -/
theorem WellFormed.open {bs : List LikeBlock} (h : WellFormed bs) {b : LikeBlock}
    (hb : ∀ c ∈ bs.head?, Differ b c) (hfull : ∀ start, b = .string start → start ≠ []) :
    WellFormed (b :: bs) where
  alternate := List.isChain_cons.mpr ⟨hb, h.alternate⟩
  filled start hmem := by
    rcases List.mem_cons.mp hmem with heq | hmem
    · exact hfull start heq.symm
    · exact h.filled start hmem

/-- The open block takes one more element. -/
theorem WellFormed.grow {b c : LikeBlock} {done : List LikeBlock} (h : WellFormed (b :: done))
    (hbc : ∀ d, Differ b d → Differ c d) (hfull : ∀ start, c = .string start → start ≠ []) :
    WellFormed (c :: done) where
  alternate := isChain_head hbc h.alternate
  filled start hmem := by
    rcases List.mem_cons.mp hmem with heq | hmem
    · exact hfull start heq.symm
    · exact h.filled start (List.mem_cons_of_mem b hmem)

/-- One more token keeps the list well formed, -/
theorem wellFormed_pushToken {bs : List LikeBlock} (h : WellFormed bs) {t : Token}
    (ht : ∀ c, t = .literal c → c ≠ []) : WellFormed (pushToken bs t) := by
  cases t with
  -- a literal is put behind a string block, or begins one
  | literal c =>
    have hc := ht c rfl
    have hnew : ∀ start, LikeBlock.string c = .string start → start ≠ [] := by
      intro start heq
      cases heq
      exact hc
    cases bs with
    | nil => exact h.open (fun d hd => (by cases hd)) hnew
    | cons b done =>
      cases b with
      | string start =>
        refine h.grow (fun d hd => ?_) fun start' heq => ?_
        · cases d <;> exact hd
        · cases heq
          exact fun hnil => hc (List.append_eq_nil_iff.mp hnil).2
      | under cnt => exact h.open (fun d hd => by cases hd; trivial) hnew
      | percent cnt => exact h.open (fun d hd => by cases hd; trivial) hnew
  -- an underscore is counted in its block
  | under =>
    have hnew : ∀ n start, LikeBlock.under n = .string start → start ≠ [] := by
      intro n start heq
      cases heq
    cases bs with
    | nil => exact h.open (fun d hd => (by cases hd)) (hnew 1)
    | cons b done =>
      cases b with
      | string start => exact h.open (fun d hd => by cases hd; trivial) (hnew 1)
      | under cnt => exact h.grow (fun d hd => by cases d <;> exact hd) (hnew (cnt + 1))
      | percent cnt => exact h.open (fun d hd => by cases hd; trivial) (hnew 1)
  -- so is a percent sign
  | percent =>
    have hnew : ∀ n start, LikeBlock.percent n = .string start → start ≠ [] := by
      intro n start heq
      cases heq
    cases bs with
    | nil => exact h.open (fun d hd => (by cases hd)) (hnew 1)
    | cons b done =>
      cases b with
      | string start => exact h.open (fun d hd => by cases hd; trivial) (hnew 1)
      | under cnt => exact h.open (fun d hd => by cases hd; trivial) (hnew 1)
      | percent cnt => exact h.grow (fun d hd => by cases d <;> exact hd) (hnew (cnt + 1))

/-- and so do all tokens. -/
theorem wellFormed_foldl {bs : List LikeBlock} (h : WellFormed bs) (ts : List Token)
    (hts : ∀ c, Token.literal c ∈ ts → c ≠ []) : WellFormed (ts.foldl pushToken bs) := by
  induction ts generalizing bs with
  | nil => exact h
  | cons t ts ih =>
    refine ih (wellFormed_pushToken h fun c hc => hts c ?_) fun c hc =>
      hts c (List.mem_cons_of_mem t hc)
    rw [hc]
    exact List.mem_cons_self

/-- A well formed list is one when it is read from its end. -/
theorem WellFormed.reverse {bs : List LikeBlock} (h : WellFormed bs) : WellFormed bs.reverse where
  alternate := List.isChain_reverse.mpr (h.alternate.imp fun _ _ => differ_symm)
  filled start hmem := h.filled start (List.mem_reverse.mp hmem)

/-- The literals of a pattern are characters of it. -/
theorem mem_of_literal_mem (aLanguage : MtlModule) (escape : Option (List UInt8))
    (cs : List (List UInt8)) {ts : List Token} (h : (scan aLanguage escape cs).tokens = .ok ts)
    {e : List UInt8} (he : Token.literal e ∈ ts) : e ∈ cs := by
  induction cs using scan.induct aLanguage escape generalizing ts with
  | case1 =>
    rw [tokens_done h] at he
    exact absurd he List.not_mem_nil
  | case2 c hesc =>
    rw [scan, if_pos hesc] at h
    cases h
  | case3 c hesc d rest' hspecial ih =>
    -- the escaped character
    rw [scan, if_pos hesc] at h
    rw [if_pos hspecial] at h
    obtain ⟨us, hus, rfl⟩ := tokens_token h
    rcases List.mem_cons.mp he with heq | he
    · cases heq
      exact List.mem_cons_of_mem c List.mem_cons_self
    · exact List.mem_cons_of_mem c (List.mem_cons_of_mem d (ih hus he))
  | case4 c hesc d rest' hspecial =>
    rw [scan, if_pos hesc] at h
    rw [if_neg hspecial] at h
    cases h
  | case5 rest hesc ih =>
    unfold scan at h
    rw [if_neg hesc, if_pos rfl] at h
    obtain ⟨us, hus, rfl⟩ := tokens_token h
    rcases List.mem_cons.mp he with heq | he
    · cases heq
    · exact List.mem_cons_of_mem _ (ih hus he)
  | case6 rest hesc hunder ih =>
    unfold scan at h
    rw [if_neg hesc, if_neg hunder, if_pos rfl] at h
    obtain ⟨us, hus, rfl⟩ := tokens_token h
    rcases List.mem_cons.mp he with heq | he
    · cases heq
    · exact List.mem_cons_of_mem _ (ih hus he)
  | case7 c rest hesc hunder hpercent ih =>
    unfold scan at h
    rw [if_neg hesc, if_neg hunder, if_neg hpercent] at h
    obtain ⟨us, hus, rfl⟩ := tokens_token h
    rcases List.mem_cons.mp he with heq | he
    · cases heq
      exact List.mem_cons_self
    · exact List.mem_cons_of_mem c (ih hus he)

end Altibase.Mtf
