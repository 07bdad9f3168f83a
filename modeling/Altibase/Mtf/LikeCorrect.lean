/-
  Altibase.Mtf.LikeCorrect
  ────────────────────────
  **ONE PASS IS ENOUGH.**

  The evaluation of LIKE never goes back behind a `%`: where the blocks up to the
  next `%` match at the first place, a later place would leave less of the string
  to a `%` that takes everything.  So the first place decides, if the blocks end
  with a `%`, which the first loop sees to.

    * `MatchesAt` — the string from one place on is described by the blocks;
    * `checkMatchBlock_some`, `checkMatchBlock_shift` — the blocks up to the next `%`;
    * `SearchResult`, `search_result` — the search behind a `%`;
    * `likeLoop_iff`, `stripTail_some` — the two loops;
    * `mtfLikeCalculateOnePass_iff` — LIKE means what its pattern says.
-/

import Altibase.Mtf.LikeMeaning
import Altibase.Mtf.LikeRange
import Altibase.Mtf.SubString

namespace Altibase.Mtf

open Altibase.Mtl

/-! ## §1. A string from one place on. -/

section Ascii

variable {str : List UInt8} {fence p q : ℕ} {bs cs rest : List LikeBlock} {start : List UInt8}

/-- **The string from `p` to the fence is described by the blocks.** -/
def MatchesAt (str : List UInt8) (fence : ℕ) (bs : List LikeBlock) (p : ℕ) : Prop :=
  slice str p fence ∈ likeBlocks bs

/-- What is left of the string before the fence. -/
theorem slice_length (hf : fence ≤ str.length) (p : ℕ) :
    (slice str p fence).length = fence - p := by
  unfold slice
  rw [List.length_drop, List.length_take_of_le hf]

/-- Further on there is less left. -/
theorem slice_drop (p n : ℕ) : (slice str p fence).drop n = slice str (p + n) fence := by
  unfold slice
  rw [List.drop_drop]

/-- Without blocks the string must be at its end. -/
theorem matchesAt_nil (hf : fence ≤ str.length) (hp : p ≤ fence) :
    MatchesAt str fence [] p ↔ p = fence := by
  unfold MatchesAt
  rw [likeBlocks_nil, Language.mem_one, ← List.length_eq_zero_iff, slice_length hf]
  omega

/-- A literal stands at the position, and the rest behind it. -/
theorem matchesAt_string : MatchesAt str fence (.string start :: rest) p ↔
    start <+: slice str p fence ∧ MatchesAt str fence rest (p + start.length) := by
  unfold MatchesAt
  rw [likeBlocks_cons, ← slice_drop]
  exact mem_string_mul start

/-- A `_` block has its characters before the fence, -/
theorem matchesAt_under_sub (hf : fence ≤ str.length) (cnt : ℕ) :
    MatchesAt str fence (.under cnt :: rest) p ↔
      cnt ≤ fence - p ∧ MatchesAt str fence rest (p + cnt) := by
  unfold MatchesAt
  rw [likeBlocks_cons, ← slice_drop, ← slice_length hf]
  exact mem_ofLength_mul cnt

/-- which is the test of the code. -/
theorem matchesAt_under (hf : fence ≤ str.length) (hp : p ≤ fence) (cnt : ℕ) :
    MatchesAt str fence (.under cnt :: rest) p ↔
      p + cnt ≤ fence ∧ MatchesAt str fence rest (p + cnt) := by
  rw [matchesAt_under_sub hf]
  exact and_congr_left' (by omega)

/-- Behind the fence nothing is left. -/
theorem matchesAt_beyond (hq : fence ≤ q) :
    MatchesAt str fence bs q ↔ MatchesAt str fence bs fence := by
  have hnil : ∀ k, fence ≤ k → slice str k fence = [] := by
    intro k hk
    unfold slice
    exact List.drop_eq_nil_of_le ((List.length_take_le _ _).trans hk)
  unfold MatchesAt
  rw [hnil q hq, hnil fence (Nat.le_refl _)]

/-- A `%` block ends anywhere. -/
theorem matchesAt_percent (n : ℕ) : MatchesAt str fence (.percent n :: rest) p ↔
    ∃ k, MatchesAt str fence rest (p + k) := by
  unfold MatchesAt
  rw [likeBlocks_cons]
  refine mem_top_mul.trans (exists_congr fun k => ?_)
  rw [slice_drop]

/-- A `%` that is reached later is reached before, too. -/
theorem matchesAt_mono {n : ℕ} (h : MatchesAt str fence (.percent n :: rest) q) (hpq : p ≤ q) :
    MatchesAt str fence (.percent n :: rest) p := by
  obtain ⟨k, hk⟩ := (matchesAt_percent n).mp h
  refine (matchesAt_percent n).mpr ⟨q - p + k, ?_⟩
  rwa [show p + (q - p + k) = q + k by omega]

/-- A literal that stands there ends before the fence. -/
theorem prefix_fence (hf : fence ≤ str.length) (hp : p ≤ fence)
    (h : start <+: slice str p fence) : p + start.length ≤ fence := by
  have hlen := h.length_le
  rw [slice_length hf] at hlen
  omega

/-- A string that is not empty occurs before the fence only. -/
theorem prefix_fits (hf : fence ≤ str.length) (hstart : start ≠ [])
    (h : start <+: slice str p fence) : p + start.length ≤ fence := by
  have hpos := List.length_pos_iff.mpr hstart
  have hlen := h.length_le
  rw [slice_length hf] at hlen
  omega

/-- `startsAt` compares with the front of what is left. -/
theorem startsAt_iff : startsAt str fence p start = true ↔ start <+: slice str p fence := by
  unfold startsAt slice
  rw [Bool.and_eq_true, decide_eq_true_eq, decide_eq_true_eq, List.drop_take,
    List.prefix_take_iff, List.prefix_iff_eq_take, and_comm, eq_comm]

/-! ## §2. The blocks up to the next `%`. -/

/-- Characters that are there are stepped over, -/
theorem stepOver_fits {cnt : ℕ} (h : p + cnt ≤ fence) :
    asciiSteps.stepOver str fence p cnt = some (p + cnt) := if_pos h

/-- and others are not. -/
theorem stepOver_beyond {cnt : ℕ} (h : ¬p + cnt ≤ fence) :
    asciiSteps.stepOver str fence p cnt = none := if_neg h

/-- **What `checkMatchBlock` consumes** does not change what matches. -/
theorem checkMatchBlock_some (hf : fence ≤ str.length) (hp : p ≤ fence)
    (h : checkMatchBlock asciiSteps str fence bs p = some (cs, q)) :
    (MatchesAt str fence bs p ↔ MatchesAt str fence cs q) ∧ q ≤ fence ∧ cs <:+ bs ∧
      ((cs = [] ∧ ∀ n, LikeBlock.percent n ∉ bs) ∨ ∃ n ds, cs = .percent n :: ds) := by
  induction bs generalizing p with
  | nil =>
    cases h
    exact ⟨Iff.rfl, hp, List.suffix_refl _, Or.inl ⟨rfl, fun n => List.not_mem_nil⟩⟩
  | cons b bs ih =>
    cases b with
    | string start =>
      rw [checkMatchBlock] at h
      split_ifs at h with hstarts
      rw [startsAt_iff] at hstarts
      obtain ⟨hiff, hq, hsuf, hcs⟩ := ih (prefix_fence hf hp hstarts) h
      refine ⟨?_, hq, hsuf.trans (List.suffix_cons _ _), hcs.imp_left fun hnil => ⟨hnil.1, ?_⟩⟩
      · rw [matchesAt_string, ← hiff]
        exact and_iff_right hstarts
      · intro n hmem
        exact hnil.2 n ((List.mem_cons.mp hmem).resolve_left (by simp))
    | under cnt =>
      rw [checkMatchBlock] at h
      by_cases hfit : p + cnt ≤ fence
      · rw [stepOver_fits hfit] at h
        obtain ⟨hiff, hq, hsuf, hcs⟩ := ih hfit h
        refine ⟨?_, hq, hsuf.trans (List.suffix_cons _ _), hcs.imp_left fun hnil => ⟨hnil.1, ?_⟩⟩
        · rw [matchesAt_under hf hp, ← hiff]
          exact and_iff_right hfit
        · intro n hmem
          exact hnil.2 n ((List.mem_cons.mp hmem).resolve_left (by simp))
      · rw [stepOver_beyond hfit] at h
        cases h
    | percent n =>
      cases h
      exact ⟨Iff.rfl, hp, List.suffix_refl _, Or.inr ⟨n, bs, rfl⟩⟩

/-- **Where it fails** nothing matches. -/
theorem checkMatchBlock_none (hf : fence ≤ str.length) (hp : p ≤ fence)
    (h : checkMatchBlock asciiSteps str fence bs p = none) : ¬MatchesAt str fence bs p := by
  induction bs generalizing p with
  | nil => cases h
  | cons b bs ih =>
    cases b with
    | string start =>
      rw [checkMatchBlock] at h
      rw [matchesAt_string]
      rintro ⟨hstarts, hrest⟩
      rw [if_pos (startsAt_iff.mpr hstarts)] at h
      exact ih (prefix_fence hf hp hstarts) h hrest
    | under cnt =>
      rw [checkMatchBlock] at h
      rw [matchesAt_under hf hp]
      rintro ⟨hfit, hrest⟩
      rw [stepOver_fits hfit] at h
      exact ih hfit h hrest
    | percent n => cases h

/-- The blocks up to the next `%` take the same number of bytes everywhere. -/
theorem checkMatchBlock_shift {cs' : List LikeBlock} {p' q' : ℕ}
    (h : checkMatchBlock asciiSteps str fence bs p = some (cs, q))
    (h' : checkMatchBlock asciiSteps str fence bs p' = some (cs', q')) :
    cs = cs' ∧ q + p' = q' + p := by
  induction bs generalizing p p' with
  | nil =>
    cases h
    cases h'
    exact ⟨rfl, Nat.add_comm _ _⟩
  | cons b bs ih =>
    cases b with
    | string start =>
      rw [checkMatchBlock] at h h'
      split_ifs at h h'
      obtain ⟨hcs, hq⟩ := ih h h'
      exact ⟨hcs, by omega⟩
    | under cnt =>
      rw [checkMatchBlock] at h h'
      by_cases hfit : p + cnt ≤ fence
      · by_cases hfit' : p' + cnt ≤ fence
        · rw [stepOver_fits hfit] at h
          rw [stepOver_fits hfit'] at h'
          obtain ⟨hcs, hq⟩ := ih h h'
          exact ⟨hcs, by omega⟩
        · rw [stepOver_beyond hfit'] at h'
          cases h'
      · rw [stepOver_beyond hfit] at h
        cases h
    | percent n =>
      cases h
      cases h'
      exact ⟨rfl, Nat.add_comm _ _⟩

/-! ## §3. The search behind a `%`. -/

/-- At no place from `p` to `k` does the string occur with the blocks behind it. -/
def Free (str : List UInt8) (fence : ℕ) (start : List UInt8) (rest : List LikeBlock) (p k : ℕ) :
    Prop :=
  ∀ j, p ≤ j → j < k → start <+: slice str j fence →
    checkMatchBlock asciiSteps str fence rest (j + start.length) = none

/-- **What the search returns**: the first place, or nothing if there is none. -/
def SearchResult (str : List UInt8) (fence : ℕ) (start : List UInt8) (rest : List LikeBlock)
    (p : ℕ) (r : Option (List LikeBlock × ℕ × ℕ)) : Prop :=
  (∃ k cs q v, r = some (cs, q, v) ∧ p ≤ k ∧ start <+: slice str k fence ∧
    checkMatchBlock asciiSteps str fence rest (k + start.length) = some (cs, q) ∧
    Free str fence start rest p k) ∨
  ((r = none ∨ ∃ v, r = some (.string start :: rest, fence, v)) ∧
    ∀ k, Free str fence start rest p k)

/-- Positions without a match in a row. -/
theorem Free.trans {k m : ℕ} (h : Free str fence start rest p k)
    (h' : Free str fence start rest k m) : Free str fence start rest p m := by
  intro j hpj hjm hocc
  by_cases hjk : j < k
  · exact h j hpj hjk hocc
  · exact h' j (by omega) hjm hocc

/-- Where the string does not occur, nothing is found. -/
theorem free_of_absent {k : ℕ}
    (h : ∀ m, p + m < k → ¬start <+: (slice str p fence).drop m) :
    Free str fence start rest p k := by
  intro j hpj hjk hocc
  have hno := h (j - p) (by omega)
  rw [slice_drop, show p + (j - p) = j by omega] at hno
  exact absurd hocc hno

/-- The search may begin earlier if nothing is there. -/
theorem SearchResult.earlier {p' : ℕ} {r : Option (List LikeBlock × ℕ × ℕ)}
    (h : SearchResult str fence start rest p' r) (hpp : p ≤ p')
    (hfree : Free str fence start rest p p') : SearchResult str fence start rest p r := by
  rcases h with ⟨k, cs, q, v, hr, hpk, hocc, hcheck, hbefore⟩ | ⟨hr, hnone⟩
  · exact Or.inl ⟨k, cs, q, v, hr, by omega, hocc, hcheck, hfree.trans hbefore⟩
  · exact Or.inr ⟨hr, fun k => hfree.trans (hnone k)⟩

/-- **The search** stops at the first place where its literal and the blocks behind it
    match, or finds none. -/
theorem search_result (hf : fence ≤ str.length) (hstart : start ≠ []) (hp : p ≤ fence) (v : ℕ) :
    SearchResult str fence start rest p (search asciiSteps str fence start rest p v) := by
  induction p, v using search.induct asciiSteps str fence start rest with
  | case1 p v hlt hnone =>
    rw [search, if_pos hlt, hnone]
    exact Or.inr ⟨Or.inl rfl, fun k => free_of_absent fun m _ =>
      matchSubString_none hstart hnone m⟩
  | case2 p v hlt k hcmp _ _ hvalid bs r hmatch =>
    obtain ⟨hocc, hbefore⟩ := matchSubString_some hstart hcmp
    rw [slice_drop] at hocc
    rw [search, if_pos hlt, hcmp]
    dsimp only
    rw [if_pos hvalid, hmatch]
    exact Or.inl ⟨p + k, bs, r, p + k, rfl, Nat.le_add_right _ _, hocc, hmatch,
      free_of_absent fun m hm => hbefore m (by omega)⟩
  | case3 p v hlt k hcmp _ _ hvalid hmatch ih =>
    obtain ⟨hocc, hbefore⟩ := matchSubString_some hstart hcmp
    rw [slice_drop] at hocc
    have hpos := List.length_pos_iff.mpr hstart
    have hfit := prefix_fits hf hstart hocc
    rw [search, if_pos hlt, hcmp]
    dsimp only
    rw [if_pos hvalid, hmatch]
    have hnext : asciiSteps.advance str fence (p + k) = p + k + 1 := rfl
    have hbefore : Free str fence start rest p (p + k) :=
      free_of_absent fun m hm => hbefore m (by omega)
    -- the string occurs at `p + k`, but the blocks behind it do not match there
    refine (ih (by omega)).earlier (by omega) (hbefore.trans fun j hkj hjk _ => ?_)
    obtain rfl : j = p + k := by omega
    exact hmatch
  | case4 p v hlt k hcmp _ _ hvalid ih =>
    -- with characters of one byte every place is the start of one
    exact absurd rfl hvalid
  | case5 p v hlt =>
    rw [search, if_neg hlt]
    obtain rfl : p = fence := by omega
    refine Or.inr ⟨Or.inr ⟨v, rfl⟩, fun k j hpj _ hocc => ?_⟩
    have hpos := List.length_pos_iff.mpr hstart
    have hfit := prefix_fits hf hstart hocc
    omega

/-- A string behind a `%`: what follows the first place decides. -/
theorem SearchResult.matchesAt (hf : fence ≤ str.length)
    (hbs : EndsInPercent (.string start :: rest))
    {r : Option (List LikeBlock × ℕ × ℕ)} (h : SearchResult str fence start rest p r) :
    (r = none → ¬∃ k, MatchesAt str fence (.string start :: rest) (p + k)) ∧
    ∀ cs q v, r = some (cs, q, v) →
      ((∃ k, MatchesAt str fence (.string start :: rest) (p + k)) ↔ MatchesAt str fence cs q) ∧
        q ≤ fence ∧ cs <:+ .string start :: rest := by
  have hstart := hbs.filled start List.mem_cons_self
  rcases h with ⟨k, cs, q, v, rfl, hpk, hocc, hcheck, hbefore⟩ | ⟨hr, hnone⟩
  · refine ⟨fun hnone => (by cases hnone), fun cs' q' v' hsome => ?_⟩
    cases hsome
    obtain ⟨hiff, hq, hsuf, hcs⟩ := checkMatchBlock_some hf (prefix_fits hf hstart hocc) hcheck
    refine ⟨⟨?_, fun hm => ?_⟩, hq, hsuf.trans (List.suffix_cons _ _)⟩
    · rintro ⟨i, hi⟩
      obtain ⟨hocc', hrest⟩ := matchesAt_string.mp hi
      -- what matches at a later place leaves less to the `%` than the first place
      have hk : k ≤ p + i := by
        by_contra hlt
        exact checkMatchBlock_none hf (prefix_fits hf hstart hocc')
          (hbefore (p + i) (Nat.le_add_right _ _) (by omega) hocc') hrest
      cases hcheck' : checkMatchBlock asciiSteps str fence rest (p + i + start.length) with
      | none => exact absurd hrest (checkMatchBlock_none hf (prefix_fits hf hstart hocc') hcheck')
      | some s =>
        obtain ⟨cs', q'⟩ := s
        have hm := (checkMatchBlock_some hf (prefix_fits hf hstart hocc') hcheck').1.mp hrest
        obtain ⟨rfl, hshift⟩ := checkMatchBlock_shift hcheck hcheck'
        rcases hcs with ⟨-, hno⟩ | ⟨n, ds, rfl⟩
        · -- the blocks end with a `%`, which is not the string
          obtain ⟨b, hb⟩ : ∃ b, (LikeBlock.string start :: rest).getLast? = some b :=
            ⟨_, List.getLast?_eq_some_getLast (List.cons_ne_nil _ _)⟩
          obtain ⟨n, rfl⟩ := hbs.last b hb
          have hmem := List.mem_of_getLast? hb
          exact absurd ((List.mem_cons.mp hmem).resolve_left (by simp)) (hno n)
        · exact matchesAt_mono hm (by omega)
    · refine ⟨k - p, ?_⟩
      rw [show p + (k - p) = k by omega, matchesAt_string]
      exact ⟨hocc, hiff.mpr hm⟩
  · have hno : ¬∃ k, MatchesAt str fence (.string start :: rest) (p + k) := by
      rintro ⟨i, hi⟩
      obtain ⟨hocc', hrest⟩ := matchesAt_string.mp hi
      exact checkMatchBlock_none hf (prefix_fits hf hstart hocc')
        (hnone (p + i + 1) (p + i) (Nat.le_add_right _ _) (Nat.lt_succ_self _) hocc') hrest
    refine ⟨fun _ => hno, fun cs q v hsome => ?_⟩
    rcases hr with rfl | ⟨v', rfl⟩
    · cases hsome
    · -- the search ran to the fence and leaves the string to be matched there
      cases hsome
      refine ⟨iff_of_false hno fun hm => ?_, Nat.le_refl _, List.suffix_refl _⟩
      have hpos := List.length_pos_iff.mpr hstart
      have hfit := prefix_fits hf hstart (matchesAt_string.mp hm).1
      omega

/-- The search of a literal block. -/
theorem searchString_string (v : ℕ) :
    searchString asciiSteps str fence (.string start :: rest) p v =
      search asciiSteps str fence start rest p v := rfl

/-- A run of `_` behind a `%` is skipped. -/
theorem matchesAt_percent_under (hf : fence ≤ str.length) {cnt : ℕ} (hfit : p + cnt ≤ fence) :
    (∃ k, MatchesAt str fence (.under cnt :: rest) (p + k)) ↔
      ∃ k, MatchesAt str fence rest (p + cnt + k) := by
  constructor
  · rintro ⟨k, hk⟩
    refine ⟨k, ?_⟩
    have hrest := ((matchesAt_under_sub hf cnt).mp hk).2
    rwa [show p + k + cnt = p + cnt + k by omega] at hrest
  · rintro ⟨k, hk⟩
    by_cases hk' : p + cnt + k ≤ fence
    · refine ⟨k, (matchesAt_under_sub hf cnt).mpr ⟨by omega, ?_⟩⟩
      rwa [show p + k + cnt = p + cnt + k by omega]
    · rw [matchesAt_beyond (by omega)] at hk
      refine ⟨fence - (p + cnt), (matchesAt_under_sub hf cnt).mpr ⟨by omega, ?_⟩⟩
      rwa [show p + (fence - (p + cnt)) + cnt = fence by omega]

/-- **A turn of the loop at a `%`.** -/
theorem percentStep_spec (hf : fence ≤ str.length) {n : ℕ} {b : LikeBlock}
    (hbs : EndsInPercent (.percent n :: b :: rest)) (hp : p ≤ fence) (v : ℕ) :
    (percentStep asciiSteps str fence (b :: rest) p v = none →
      ¬MatchesAt str fence (.percent n :: b :: rest) p) ∧
    ∀ cs q u, percentStep asciiSteps str fence (b :: rest) p v = some (cs, q, u) →
      (MatchesAt str fence (.percent n :: b :: rest) p ↔ MatchesAt str fence cs q) ∧
        q ≤ fence ∧ cs <:+ b :: rest := by
  have htail := hbs.suffix (List.suffix_cons _ _)
  rw [matchesAt_percent]
  cases b with
  | percent m => exact ((List.isChain_cons_cons.mp hbs.alternate).1).elim
  | string start =>
    have hstep : percentStep asciiSteps str fence (.string start :: rest) p v =
        search asciiSteps str fence start rest p v := by
      unfold percentStep skipUnder
      dsimp only
      rw [if_neg (by omega), searchString_string]
    rw [hstep]
    exact (search_result hf (htail.filled start List.mem_cons_self) hp v).matchesAt hf htail
  | under cnt =>
    by_cases hfit : p + cnt ≤ fence
    · have hstep : percentStep asciiSteps str fence (.under cnt :: rest) p v =
          searchString asciiSteps str fence rest (p + cnt) v := by
        unfold percentStep skipUnder
        dsimp only
        rw [stepOver_fits hfit]
        dsimp only [Option.map]
        rw [if_neg (by omega)]
      rw [hstep, matchesAt_percent_under hf hfit]
      cases rest with
      | nil =>
        obtain ⟨m, hm⟩ := htail.last (.under cnt) rfl
        cases hm
      | cons c rest =>
        have hrest := htail.suffix (List.suffix_cons _ _)
        cases c with
        | under m => exact ((List.isChain_cons_cons.mp htail.alternate).1).elim
        | string start =>
          rw [searchString_string]
          obtain ⟨hnone, hsome⟩ :=
            (search_result hf (hrest.filled start List.mem_cons_self) hfit v).matchesAt hf hrest
          refine ⟨hnone, fun cs q u hr => ?_⟩
          obtain ⟨hiff, hq, hsuf⟩ := hsome cs q u hr
          exact ⟨hiff, hq, hsuf.trans (List.suffix_cons _ _)⟩
        | percent m =>
          -- `%_%`: nothing is searched, the next turn is at the second `%`
          refine ⟨fun hr => (by cases hr), fun cs q u hr => ?_⟩
          cases hr
          refine ⟨⟨?_, fun hm => ⟨0, hm⟩⟩, hfit, List.suffix_cons _ _⟩
          rintro ⟨k, hk⟩
          exact matchesAt_mono hk (Nat.le_add_right _ _)
    · have hstep : percentStep asciiSteps str fence (.under cnt :: rest) p v = none := by
        unfold percentStep skipUnder
        dsimp only
        rw [stepOver_beyond hfit]
        rfl
      rw [hstep]
      refine ⟨fun _ => ?_, fun cs q u hr => (by cases hr)⟩
      rintro ⟨k, hk⟩
      have := ((matchesAt_under_sub hf cnt).mp hk).1
      omega

/-! ## §4. The second loop. -/

/-- **The second loop** decides whether the string matches. -/
theorem likeLoop_iff (hf : fence ≤ str.length) (hbs : EndsInPercent bs) (hp : p ≤ fence) (v : ℕ) :
    likeLoop asciiSteps str fence bs p v = true ↔ MatchesAt str fence bs p := by
  induction hn : bs.length using Nat.strong_induction_on generalizing bs p v with
  | h n ih =>
    cases bs with
    | nil =>
      rw [likeLoop, matchesAt_nil hf hp]
      exact decide_eq_true_iff
    | cons b rest =>
      have hrest := hbs.suffix (List.suffix_cons _ _)
      have hless : rest.length < n := by
        rw [← hn, List.length_cons]
        exact Nat.lt_succ_self _
      cases b with
      | string start =>
        rw [likeLoop, matchesAt_string]
        by_cases hstarts : startsAt str fence p start = true
        · have hocc := startsAt_iff.mp hstarts
          rw [if_pos hstarts, ih _ hless hrest (prefix_fence hf hp hocc) v rfl]
          exact (and_iff_right hocc).symm
        · rw [if_neg hstarts]
          exact iff_of_false Bool.false_ne_true fun h => hstarts (startsAt_iff.mpr h.1)
      | under cnt =>
        rw [likeLoop, matchesAt_under hf hp]
        by_cases hfit : p + cnt ≤ fence
        · rw [stepOver_fits hfit]
          dsimp only
          rw [ih _ hless hrest hfit v rfl]
          exact (and_iff_right hfit).symm
        · rw [stepOver_beyond hfit]
          exact iff_of_false Bool.false_ne_true fun h => hfit h.1
      | percent m =>
        cases rest with
        | nil =>
          rw [likeLoop, likeLoop, matchesAt_percent]
          -- a last `%` takes the rest of the string
          refine iff_of_true (decide_eq_true rfl) ⟨fence - p, ?_⟩
          rw [matchesAt_nil hf (by omega)]
          omega
        | cons c rest =>
          -- the first place at which the part behind the `%` occurs is enough
          obtain ⟨hnone, hsome⟩ := percentStep_spec hf hbs hp v
          rw [likeLoop]
          split
          · rename_i cs q u hstep
            obtain ⟨hiff, hq, hsuf⟩ := hsome cs q u hstep
            have hlen := hsuf.length_le
            rw [hiff]
            exact ih cs.length (by omega) (hrest.suffix hsuf) hq u rfl
          · rename_i hstep
            exact iff_of_false Bool.false_ne_true (hnone hstep)

/-! ## §5. The first loop. -/

/-- A literal block at the end is compared there, -/
theorem take_string {L : Language UInt8} (hf : fence ≤ str.length) :
    str.take fence ∈ L * ({start} : Language UInt8) ↔ start.length ≤ fence ∧
      (str.drop (fence - start.length)).take start.length = start ∧
      str.take (fence - start.length) ∈ L := by
  rw [mem_mul_string, List.length_take_of_le hf]
  refine and_congr_right fun hle => ?_
  rw [List.drop_take, List.take_take, min_eq_left (Nat.sub_le _ _),
    show fence - (fence - start.length) = start.length by omega]

/-- and a `_` block there is cut off. -/
theorem take_under {L : Language UInt8} (hf : fence ≤ str.length) (cnt : ℕ) :
    str.take fence ∈ L * ofLength cnt ↔ cnt ≤ fence ∧ str.take (fence - cnt) ∈ L := by
  rw [mem_mul_ofLength, List.length_take_of_le hf, List.take_take, min_eq_left (Nat.sub_le _ _)]

/-- **What is stripped from the end** does not change what matches. -/
theorem stripTail_some {f g : ℕ} (hf : f ≤ str.length)
    (h : stripTail asciiSteps str bs f = some (cs, g)) :
    (str.take f ∈ likeBlocks bs.reverse ↔ str.take g ∈ likeBlocks cs.reverse) ∧ g ≤ f ∧
      cs <:+ bs ∧ (cs = [] ∨ ∃ n ds, cs = .percent n :: ds) := by
  induction bs generalizing f with
  | nil =>
    cases h
    exact ⟨Iff.rfl, Nat.le_refl _, List.suffix_refl _, Or.inl rfl⟩
  | cons b bs ih =>
    rw [likeBlocks_reverse_cons]
    cases b with
    | string start =>
      rw [stripTail] at h
      split_ifs at h with hle heq
      obtain ⟨hiff, hg, hsuf, hcs⟩ := ih (by omega) h
      refine ⟨?_, by omega, hsuf.trans (List.suffix_cons _ _), hcs⟩
      rw [← hiff]
      refine (take_string hf).trans ?_
      rw [and_iff_right hle, and_iff_right heq]
    | under cnt =>
      rw [stripTail] at h
      by_cases hle : cnt ≤ f
      · have hback : asciiSteps.stepBack str f cnt = some (f - cnt) := if_pos hle
        rw [hback] at h
        obtain ⟨hiff, hg, hsuf, hcs⟩ := ih (by omega) h
        refine ⟨?_, by omega, hsuf.trans (List.suffix_cons _ _), hcs⟩
        rw [← hiff]
        exact (take_under hf cnt).trans (and_iff_right hle)
      · have hback : asciiSteps.stepBack str f cnt = none := if_neg hle
        rw [hback] at h
        cases h
    | percent n =>
      cases h
      refine ⟨?_, Nat.le_refl _, List.suffix_refl _, Or.inr ⟨n, bs, rfl⟩⟩
      rw [likeBlocks_reverse_cons]

/-- **Where that fails** nothing matches. -/
theorem stripTail_none {f : ℕ} (hf : f ≤ str.length)
    (h : stripTail asciiSteps str bs f = none) : str.take f ∉ likeBlocks bs.reverse := by
  induction bs generalizing f with
  | nil => cases h
  | cons b bs ih =>
    rw [likeBlocks_reverse_cons]
    cases b with
    | string start =>
      intro hmem
      obtain ⟨hle, heq, hrest⟩ := (take_string hf).mp hmem
      rw [stripTail, if_pos hle, if_pos heq] at h
      exact ih (by omega) h hrest
    | under cnt =>
      intro hmem
      obtain ⟨hle, hrest⟩ := (take_under hf cnt).mp hmem
      have hback : asciiSteps.stepBack str f cnt = some (f - cnt) := if_pos hle
      rw [stripTail, hback] at h
      exact ih (by omega) h hrest
    | percent n => cases h

/-- **One pass over the string decides whether it matches.** -/
theorem onePass_iff (str : List UInt8) (hbs : WellFormed bs) :
    onePass asciiSteps str bs = true ↔ str ∈ likeBlocks bs := by
  unfold onePass
  cases hstrip : stripTail asciiSteps str bs.reverse str.length with
  | none =>
    have hno := stripTail_none (Nat.le_refl _) hstrip
    rw [List.take_length, List.reverse_reverse] at hno
    exact iff_of_false Bool.false_ne_true hno
  | some s =>
    obtain ⟨cs, g⟩ := s
    obtain ⟨hiff, hg, hsuf, hcs⟩ := stripTail_some (Nat.le_refl _) hstrip
    rw [List.take_length, List.reverse_reverse] at hiff
    have hpre : cs.reverse <+: bs := by
      rw [← List.reverse_reverse bs]
      exact List.reverse_prefix.mpr hsuf
    have hends : EndsInPercent cs.reverse := by
      have halternate := List.IsChain.prefix hbs.alternate hpre
      refine ⟨⟨halternate, fun start hmem => hbs.filled start (hpre.subset hmem)⟩,
        fun b hb => ?_⟩
      rcases hcs with rfl | ⟨n, ds, rfl⟩
      · cases hb
      · rw [List.getLast?_reverse] at hb
        exact ⟨n, (Option.some.inj hb).symm⟩
    rw [hiff]
    exact likeLoop_iff hg hends (Nat.zero_le _) 0

end Ascii

/-! ## §6. LIKE. -/

/-- An empty pattern has no elements. -/
theorem tokens_bytes_eq_nil {escape : Option (List UInt8)} {aFormat : List UInt8}
    {ts : List Token} (h : (scan mtlAscii escape (bytes aFormat)).tokens = .ok ts) :
    ts = [] ↔ aFormat = [] := by
  constructor
  · rintro rfl
    by_contra hne
    have hbytes : bytes aFormat ≠ [] := fun hmap => hne (List.map_eq_nil_iff.mp hmap)
    have hscan := scan_ne_done mtlAscii escape hbytes
    cases hs : scan mtlAscii escape (bytes aFormat) with
    | done => exact hscan hs
    | invalidLiteral =>
      rw [hs] at h
      cases h
    | token t next =>
      rw [hs] at h
      obtain ⟨us, -, hus⟩ := tokens_token h
      cases hus
  · rintro rfl
    exact (Except.ok.inj h).symm

/-- **LIKE means what its pattern says**: a valid pattern that is not too long is cut
    into blocks, and these decide for every string whether it is described.  An empty
    pattern has no block, and the assertion fails. -/
theorem mtfLikeCalculateOnePass_iff {aFormat aEscape : List UInt8} {ts : List Token}
    (h : patternTokens mtlAscii aFormat aEscape = .ok ts)
    (hlen : aFormat.length ≤ likePatternMaxSize) :
    ∃ aBlock, getMoreInfoFromPattern aFormat aEscape = .ok aBlock ∧
      (aFormat ≠ [] → ∀ aString, ∃ sResult, mtfLikeCalculateOnePass aString aBlock = .ok sResult ∧
        (sResult = true ↔ aString ∈ like ts)) ∧
      (aFormat = [] → ∀ aString, mtfLikeCalculateOnePass aString aBlock = .error .blockAssert) := by
  unfold patternTokens at h
  rw [if_pos (show mtlAscii.id = MtlId.ascii from rfl)] at h
  cases hesc : likeEscape 1 aEscape with
  | error e =>
    rw [hesc] at h
    cases h
  | ok sEscape =>
    rw [hesc] at h
    replace h : (scan mtlAscii sEscape (bytes aFormat)).tokens = .ok ts := h
    have hblocks : (ts.foldl pushToken []).reverse = [] ↔ aFormat = [] := by
      rw [List.reverse_eq_nil_iff, foldl_pushToken_eq_nil, tokens_bytes_eq_nil h]
    refine ⟨(ts.foldl pushToken []).reverse, ?_, fun hne aString => ?_, fun hnil aString => ?_⟩
    · unfold getMoreInfoFromPattern
      rw [if_neg (by omega), hesc]
      show moreInfoLoop [] _ = _
      rw [moreInfoLoop_eq, h]
      rfl
    · have hliteral : ∀ c, Token.literal c ∈ ts → c ≠ [] := by
        intro c hc
        obtain ⟨b, -, rfl⟩ := List.mem_map.mp (mem_of_literal_mem _ _ _ h hc)
        exact List.cons_ne_nil b []
      have hnil : WellFormed [] :=
        ⟨List.isChain_nil, fun start hmem => absurd hmem List.not_mem_nil⟩
      have hiff := onePass_iff aString (wellFormed_foldl hnil ts hliteral).reverse
      rw [likeBlocks_foldl, List.reverse_nil, likeBlocks_nil, one_mul] at hiff
      exact ⟨_, (assertedPass_eq_ok _ _).mpr ⟨fun hnil => hne (hblocks.mp hnil), rfl⟩, hiff⟩
    · exact if_pos (hblocks.mpr hnil)

/-- The pattern `a%_b`. -/
theorem mtfLikeCalculateOnePass_iff_ab : ∃ aBlock,
    getMoreInfoFromPattern [97, 37, 95, 98] [] = .ok aBlock ∧
      ∀ aString, ∃ sResult, mtfLikeCalculateOnePass aString aBlock = .ok sResult ∧
        (sResult = true ↔ aString ∈ like [.literal [97], .percent, .under, .literal [98]]) := by
  have htokens : patternTokens mtlAscii [97, 37, 95, 98] []
      = .ok [.literal [97], .percent, .under, .literal [98]] := by decide
  obtain ⟨aBlock, hblock, hmatch, -⟩ := mtfLikeCalculateOnePass_iff htokens (by decide)
  exact ⟨aBlock, hblock, hmatch (by decide)⟩

end Altibase.Mtf
