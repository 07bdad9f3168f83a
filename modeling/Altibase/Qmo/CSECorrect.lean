/-
  Altibase.Qmo.CSECorrect
  ───────────────────────
  **ELIMINATING COMMON SUBEXPRESSIONS PRESERVES MEANING.**

  Whether an operator loses against a sibling is decided by a count: as many
  of its arguments have an equivalent in the sibling as the sibling has
  arguments.  That makes the sibling a part of it when no two arguments are
  matched by the same one.  They are not, if the arguments have been reduced
  before and no predicate of the sibling is there for two of the operator's.
  The repository's test does not see to that: it is not transitive.

    * `matched_of_length_le` — counting matches decides inclusion;
    * `compareNode_win`, `compareNode_lose` — what goes is redundant;
    * `compareLoop_spec`, `targetLoop_spec` — one and both of the loops;
    * `doTransform_value` — the transformed tree has the same value;
    * `doTransform_changes` — not so where one predicate is there for two.
-/

import Altibase.Qmo.CSETransform
import Mathlib.Data.List.Forall2

namespace Altibase.Qmo

namespace CSE

variable {α : Type}

/-! ## §1. Matching by count. -/

section Matching

variable {β : Type*} {E : β → β → Prop}

/-- A match that is not `y` is one of the others. -/
theorem matched_others {xs l r : List β} {y : β} (hmatch : ∀ x ∈ xs, ∃ w ∈ l ++ y :: r, E x w)
    (hne : ∀ x ∈ xs, ¬ E x y) : ∀ x ∈ xs, ∃ w ∈ l ++ r, E x w := by
  intro x hx
  obtain ⟨w, hw, hxw⟩ := hmatch x hx
  have hwy : w ≠ y := fun e => hne x hx (e ▸ hxw)
  refine ⟨w, ?_, hxw⟩
  rcases List.mem_append.mp hw with hl | hr
  · exact List.mem_append_left r hl
  · exact List.mem_append_right l ((List.mem_cons.mp hr).resolve_left hwy)

/-- Without `y` no two have a match in common either. -/
theorem unshared_others {xs l r : List β} {y : β}
    (hpair : xs.Pairwise (fun a b => ∀ c ∈ l ++ y :: r, E a c → ¬ E b c)) :
    xs.Pairwise (fun a b => ∀ c ∈ l ++ r, E a c → ¬ E b c) :=
  hpair.imp fun h c hc => h c (((List.sublist_cons_self y r).append_left l).subset hc)

/-- Elements of which no two have a match in common are matched by as many. -/
theorem length_le_of_matched (xs : List β) :
    ∀ ys : List β, xs.Pairwise (fun a b => ∀ c ∈ ys, E a c → ¬ E b c) →
      (∀ x ∈ xs, ∃ y ∈ ys, E x y) → xs.length ≤ ys.length := by
  induction xs with
  | nil =>
    intro ys _ _
    exact Nat.zero_le _
  | cons x xs ih =>
    intro ys hpair hmatch
    obtain ⟨hx, hxs⟩ := List.pairwise_cons.mp hpair
    obtain ⟨y, hy, hxy⟩ := hmatch x List.mem_cons_self
    obtain ⟨l, r, rfl⟩ := List.append_of_mem hy
    -- what matches `x` matches none of the others
    have hrest := matched_others (fun z hz => hmatch z (List.mem_cons_of_mem x hz))
      fun z hz => hx z hz y hy hxy
    have hlen := ih (l ++ r) (unshared_others hxs) hrest
    rw [List.length_append] at hlen
    rw [List.length_cons, List.length_append, List.length_cons]
    omega

/-- **As many matches as elements**: every element is matched. -/
theorem matched_of_length_le {xs ys : List β}
    (hpair : xs.Pairwise (fun a b => ∀ c ∈ ys, E a c → ¬ E b c))
    (hmatch : ∀ x ∈ xs, ∃ y ∈ ys, E x y) (hlen : ys.length ≤ xs.length) :
    ∀ y ∈ ys, ∃ x ∈ xs, E x y := by
  intro y hy
  by_contra hnone
  obtain ⟨l, r, rfl⟩ := List.append_of_mem hy
  -- one element more than there are matches left
  have hrest := matched_others hmatch fun x hx hxy => hnone ⟨x, hx, hxy⟩
  have hle := length_le_of_matched xs (l ++ r) (unshared_others hpair) hrest
  rw [List.length_append] at hle
  rw [List.length_append, List.length_cons] at hlen
  omega

end Matching

/-! ## §2. Equivalent expressions. -/

section Equivalent

variable {eqv : α → α → Bool}

theorem isEquivalentArgs_iff (xs ys : List (Tree α)) :
    isEquivalentArgs eqv xs ys = true
      ↔ List.Forall₂ (fun x y => isEquivalentExpression eqv x y = true) xs ys := by
  induction xs generalizing ys with
  | nil => cases ys <;> simp [isEquivalentArgs]
  | cons x xs ih => cases ys <;> simp [isEquivalentArgs, ih]

/-- An operator is equated to operators of its kind only, argument by
    argument. -/
theorem isEquivalent_node {op : Op} {m : Bool} {args : List (Tree α)} {t : Tree α}
    (h : isEquivalentExpression eqv (.node op m args) t = true) :
    ∃ m' args', t = .node op m' args' ∧
      List.Forall₂ (fun x y => isEquivalentExpression eqv x y = true) args args' := by
  cases t with
  | leaf m' b => exact absurd h (by simp [isEquivalentExpression])
  | node op' m' args' =>
    rw [isEquivalentExpression, Bool.and_eq_true, decide_eq_true_eq] at h
    exact ⟨m', args', by rw [h.1], (isEquivalentArgs_iff args args').mp h.2⟩

theorem isEquivalent_leaf {m : Bool} {a : α} {t : Tree α}
    (h : isEquivalentExpression eqv (.leaf m a) t = true) :
    ∃ m' b, t = .leaf m' b ∧ eqv a b = true := by
  cases t with
  | leaf m' b => exact ⟨m', b, rfl, by simpa [isEquivalentExpression] using h⟩
  | node op' m' args' => exact absurd h (by simp [isEquivalentExpression])

/-- Equivalent trees have equal values. -/
theorem isEquivalent_eval {v : α → Truth} (hv : Respects eqv v) (s : Tree α) :
    ∀ t, isEquivalentExpression eqv s t = true → s.eval v = t.eval v := by
  induction s using Tree.induct with
  | leaf m a =>
    intro t h
    obtain ⟨m', b, rfl, hab⟩ := isEquivalent_leaf h
    exact hv a b hab
  | node op m args ih =>
    intro t h
    obtain ⟨m', args', rfl, hargs⟩ := isEquivalent_node h
    show op.combine (Tree.evals v args) = op.combine (Tree.evals v args')
    congr 1
    clear h
    induction hargs with
    | nil => rfl
    | cons hxy _ ihs =>
      exact congrArg₂ List.cons (ih _ List.mem_cons_self _ hxy)
        (ihs fun t ht => ih t (List.mem_cons_of_mem _ ht))

/-- A member's predicates are among those of the list. -/
theorem levels_sublist {ts : List (Tree α)} {t : Tree α} (ht : t ∈ ts) (op : Op) (n : Nat) :
    (levels op n t).Sublist (levelss op n ts) := by
  induction ts with
  | nil => exact absurd ht List.not_mem_nil
  | cons u ts ih =>
    rcases List.mem_cons.mp ht with rfl | hmem
    · exact List.sublist_append_left _ _
    · exact (ih hmem).trans (List.sublist_append_right _ _)

theorem levels_subset {op : Op} {n : Nat} {ts : List (Tree α)} {t : Tree α} (ht : t ∈ ts)
    {a : Nat × α} (ha : a ∈ levels op n t) : a ∈ levelss op n ts :=
  (levels_sublist ht op n).subset ha

/-- Trees equated to a third are equated to each other, if their predicates
    are. -/
theorem isEquivalent_of_agree (s : Tree α) : ∀ (op : Op) (n : Nat) (t u : Tree α),
    (∀ a ∈ levels op n s, ∀ b ∈ levels op n t, ∀ c ∈ levels op n u, Agree eqv a b c) →
      isEquivalentExpression eqv s u = true → isEquivalentExpression eqv t u = true →
        isEquivalentExpression eqv s t = true := by
  induction s using Tree.induct with
  | leaf m a =>
    intro op n t u hagree hs ht
    obtain ⟨m', c, rfl, hac⟩ := isEquivalent_leaf hs
    cases t with
    | leaf m'' b =>
      obtain ⟨_, _, hc, hbc⟩ := isEquivalent_leaf ht
      obtain ⟨-, rfl⟩ := Tree.leaf.inj hc
      exact hagree (n, a) List.mem_cons_self (n, b) List.mem_cons_self (n, c)
        List.mem_cons_self rfl rfl hac hbc
    | node op' m'' args' =>
      obtain ⟨_, _, hc, -⟩ := isEquivalent_node ht
      exact absurd hc (by simp)
  | node op' m args ih =>
    intro op n t u hagree hs ht
    obtain ⟨m', cargs, rfl, hac⟩ := isEquivalent_node hs
    cases t with
    | leaf m'' b =>
      obtain ⟨_, _, hc, -⟩ := isEquivalent_leaf ht
      exact absurd hc (by simp)
    | node op'' m'' bargs =>
      obtain ⟨_, _, hc, hbc⟩ := isEquivalent_node ht
      obtain ⟨rfl, -, rfl⟩ := Tree.node.inj hc
      rw [isEquivalentExpression, Bool.and_eq_true, decide_eq_true_eq]
      refine ⟨rfl, ?_⟩
      simp only [levels] at hagree
      clear hs ht hc
      -- Along the three argument lists.
      induction hac generalizing bargs with
      | nil =>
        cases hbc
        rfl
      | cons hxz _ ihs =>
        cases hbc with
        | cons hyz hrest =>
          rw [isEquivalentArgs, Bool.and_eq_true]
          refine ⟨ih _ List.mem_cons_self op' (if op' = op then n else n + 1) _ _ ?_ hxz hyz,
            ihs (fun t ht => ih t (List.mem_cons_of_mem _ ht)) _ ?_ hrest⟩
          · intro a ha b hb c hc
            exact hagree a (List.mem_append_left _ ha) b (List.mem_append_left _ hb) c
              (List.mem_append_left _ hc)
          · intro a ha b hb c hc
            exact hagree a (List.mem_append_right _ ha) b (List.mem_append_right _ hb) c
              (List.mem_append_right _ hc)

/-- In two lists that are related member by member, no member is left alone. -/
theorem exists_related {β γ : Type} {R : β → γ → Prop} {xs : List β} {ys : List γ}
    (h : List.Forall₂ R xs ys) {x : β} (hx : x ∈ xs) : ∃ y ∈ ys, R x y := by
  induction h with
  | nil => exact absurd hx List.not_mem_nil
  | cons hab _ ih =>
    rcases List.mem_cons.mp hx with rfl | hmem
    · exact ⟨_, List.mem_cons_self, hab⟩
    · obtain ⟨y, hy, hxy⟩ := ih hmem
      exact ⟨y, List.mem_cons_of_mem _ hy, hxy⟩

/-- What has a subquery is equated to nothing. -/
theorem isEquivalent_flagged (s : Tree α) : FlagsSound eqv s → s.mark = true →
    ∀ t, isEquivalentExpression eqv s t = false ∧ isEquivalentExpression eqv t s = false := by
  induction s using Tree.induct with
  | leaf m a =>
    intro hf hm t
    cases t with
    | leaf m' b => exact hf hm b
    | node op' m' args' =>
      constructor <;> simp [isEquivalentExpression]
  | node op m args ih =>
    intro hf hm t
    obtain ⟨x, hx, hxm⟩ := hf.1 hm
    have hxf := (flagsSounds_iff eqv args).mp hf.2 x hx
    constructor
    · by_contra hne
      obtain ⟨m', args', -, hargs⟩ := isEquivalent_node (Bool.not_eq_false _ ▸ hne)
      obtain ⟨y, -, hxy⟩ := exists_related hargs hx
      rw [(ih x hx hxf hxm y).1] at hxy
      exact absurd hxy (by decide)
    · by_contra hne
      cases t with
      | leaf m' b =>
        obtain ⟨_, _, hc, -⟩ := isEquivalent_leaf (Bool.not_eq_false _ ▸ hne)
        exact absurd hc (by simp)
      | node op' m' args' =>
        obtain ⟨_, _, hc, hargs⟩ := isEquivalent_node (Bool.not_eq_false _ ▸ hne)
        obtain ⟨-, -, rfl⟩ := Tree.node.inj hc
        obtain ⟨y, -, hyx⟩ := exists_related hargs.flip hx
        rw [(ih x hx hxf hxm y).2] at hyx
        exact absurd hyx (by decide)

end Equivalent

/-! ## §3. One comparison. -/

section Comparison

variable (eqv : α → α → Bool)

mutual
/-- No argument can go on account of a sibling, here and below. -/
def Reduced : Tree α → Prop
  | .leaf _ _ => True
  | .node _ _ args => args.Pairwise (fun x y => compareNode eqv x y = .both) ∧ Reduceds args
/-- `Reduced` for each of the arguments. -/
def Reduceds : List (Tree α) → Prop
  | [] => True
  | t :: ts => Reduced t ∧ Reduceds ts
end

variable {eqv}

theorem reduceds_iff (ts : List (Tree α)) : Reduceds eqv ts ↔ ∀ t ∈ ts, Reduced eqv t := by
  induction ts with
  | nil => simp [Reduceds]
  | cons t ts ih => simp [Reduceds, ih]

theorem compareNode_marked {t c : Tree α} (h : t.mark = true ∨ c.mark = true) :
    compareNode eqv t c = .both := by
  unfold compareNode
  rw [if_pos (by simpa using h)]

/-- What makes a target win. -/
theorem compareNode_win_cases {t c : Tree α} (h : compareNode eqv t c = .win) :
    isEquivalentExpression eqv t c = true ∨
    (∃ op m args, c = .node op m args ∧
      args.any (isEquivalentExpression eqv t) = true) ∨
    (∃ op m args op' m' args', t = .node op m args ∧ c = .node op' m' args' ∧
      argMatchCnt eqv args args' = args.length) := by
  unfold compareNode at h
  by_cases hm : (t.mark || c.mark) = true
  · rw [if_pos hm] at h
    exact absurd h (by decide)
  · rw [if_neg hm] at h
    cases t with
    | leaf m a =>
      cases c with
      | leaf m' b =>
        by_cases hE : isEquivalentExpression eqv (.leaf m a) (.leaf m' b) = true
        · exact Or.inl hE
        · simp [hE] at h
      | node op' m' args' =>
        by_cases hE : args'.any (isEquivalentExpression eqv (.leaf m a)) = true
        · exact Or.inr (Or.inl ⟨op', m', args', rfl, hE⟩)
        · simp [hE] at h
    | node op m args =>
      cases c with
      | leaf m' b =>
        by_cases hE : (args.any fun x => isEquivalentExpression eqv x (.leaf m' b)) = true
        · simp [hE] at h
        · simp [hE] at h
      | node op' m' args' =>
        by_cases hall : argMatchCnt eqv args args' = args.length
        · exact Or.inr (Or.inr ⟨op, m, args, op', m', args', rfl, rfl, hall⟩)
        · by_cases hcount : argMatchCnt eqv args args' = args'.length
          · simp only [if_neg hall, if_pos hcount] at h
            exact absurd h (by decide)
          · simp only [if_neg hall, if_neg hcount] at h
            exact absurd h (by decide)

/-- What makes a target lose: it is an operator. -/
theorem compareNode_lose_cases {t c : Tree α} (h : compareNode eqv t c = .lose) :
    ∃ op m args, t = .node op m args ∧
      ((args.any fun x => isEquivalentExpression eqv x c) = true ∨
       ∃ op' m' args', c = .node op' m' args' ∧ argMatchCnt eqv args args' ≠ args.length ∧
         argMatchCnt eqv args args' = args'.length) := by
  unfold compareNode at h
  by_cases hm : (t.mark || c.mark) = true
  · rw [if_pos hm] at h
    exact absurd h (by decide)
  · rw [if_neg hm] at h
    cases t with
    | leaf m a =>
      cases c with
      | leaf m' b =>
        by_cases hE : isEquivalentExpression eqv (.leaf m a) (.leaf m' b) = true
        · simp [hE] at h
        · simp [hE] at h
      | node op' m' args' =>
        by_cases hE : args'.any (isEquivalentExpression eqv (.leaf m a)) = true
        · simp [hE] at h
        · simp [hE] at h
    | node op m args =>
      refine ⟨op, m, args, rfl, ?_⟩
      cases c with
      | leaf m' b =>
        by_cases hE : (args.any fun x => isEquivalentExpression eqv x (.leaf m' b)) = true
        · exact Or.inl hE
        · simp [hE] at h
      | node op' m' args' =>
        by_cases hall : argMatchCnt eqv args args' = args.length
        · simp only [if_pos hall] at h
          exact absurd h (by decide)
        · by_cases hcount : argMatchCnt eqv args args' = args'.length
          · exact Or.inr ⟨op', m', args', rfl, hall, hcount⟩
          · simp only [if_neg hall, if_neg hcount] at h
            exact absurd h (by decide)

/-- What is compared is unmarked, unless both stay. -/
theorem compareNode_unmarked {t c : Tree α} (h : compareNode eqv t c ≠ .both) :
    t.mark = false ∧ c.mark = false := by
  constructor
  · by_contra hm
    exact h (compareNode_marked (Or.inl (Bool.not_eq_false _ ▸ hm)))
  · by_contra hm
    exact h (compareNode_marked (Or.inr (Bool.not_eq_false _ ▸ hm)))

/-- All arguments of equivalent operators are matched. -/
theorem argMatchCnt_of_equivalent {args args' : List (Tree α)}
    (h : List.Forall₂ (fun x y => isEquivalentExpression eqv x y = true) args args') :
    argMatchCnt eqv args args' = args.length := by
  apply List.countP_eq_length.mpr
  intro a ha
  induction h with
  | nil => exact absurd ha List.not_mem_nil
  | cons hab _ ih =>
    rw [List.any_cons, Bool.or_eq_true]
    rcases List.mem_cons.mp ha with rfl | hmem
    · exact Or.inl hab
    · exact Or.inr (ih hmem)

/-- Siblings that both stay are not equated. -/
theorem not_isEquivalent_of_both {x y : Tree α} (hx : FlagsSound eqv x) (hy : FlagsSound eqv y)
    (h : compareNode eqv x y = .both) : isEquivalentExpression eqv x y = false := by
  by_cases hm : (x.mark || y.mark) = true
  · rcases (Bool.or_eq_true _ _).mp hm with hxm | hym
    · exact (isEquivalent_flagged x hx hxm y).1
    · exact (isEquivalent_flagged y hy hym x).2
  · by_contra hne
    rw [Bool.not_eq_false] at hne
    unfold compareNode at h
    rw [if_neg hm] at h
    cases x with
    | leaf m a =>
      obtain ⟨m', b, rfl, -⟩ := isEquivalent_leaf hne
      simp only [if_pos hne] at h
      exact absurd h (by decide)
    | node op m args =>
      obtain ⟨m', args', rfl, hargs⟩ := isEquivalent_node hne
      -- All arguments are matched, so `y` would have gone.
      simp only [if_pos (argMatchCnt_of_equivalent hargs)] at h
      exact absurd h (by decide)

/-- A tree whose operators have arguments has predicates. -/
theorem length_levels_pos (t : Tree α) : t.Proper → ∀ op n, 0 < (levels op n t).length := by
  induction t using Tree.induct with
  | leaf m a =>
    intro _ op n
    exact Nat.one_pos
  | node op' m args ih =>
    intro hproper op n
    obtain ⟨x, hx⟩ := List.exists_mem_of_ne_nil args hproper.1
    have hpos := ih x hx ((Tree.propers_iff args).mp hproper.2 x hx) op'
      (if op' = op then n else n + 1)
    obtain ⟨a, ha⟩ := List.exists_mem_of_length_pos hpos
    exact List.length_pos_of_mem (levels_subset hx ha)

theorem length_le_levelss (op : Op) (n : Nat) (ts : List (Tree α)) (h : ∀ t ∈ ts, t.Proper) :
    ts.length ≤ (levelss op n ts).length := by
  induction ts with
  | nil => exact Nat.zero_le _
  | cons t ts ih =>
    have hpos := length_levels_pos t (h t List.mem_cons_self) op n
    have hrest := ih fun u hu => h u (List.mem_cons_of_mem t hu)
    rw [levelss, List.length_append, List.length_cons]
    omega

/-- **The count of a target that loses is right**: every argument of the
    compared node is matched. -/
theorem matched_of_argMatchCnt {op : Op} {n : Nat} {args args' : List (Tree α)}
    (hproper : ∀ t ∈ args, t.Proper) (hproper' : ∀ t ∈ args', t.Proper)
    (hpair : args.Pairwise fun x y => ¬ isEquivalentExpression eqv x y = true)
    (hun : Unambiguous eqv (levelss op n args) (levelss op n args'))
    (hall : argMatchCnt eqv args args' ≠ args.length)
    (hcount : argMatchCnt eqv args args' = args'.length) :
    ∀ y ∈ args', ∃ x ∈ args, isEquivalentExpression eqv x y = true := by
  intro y hy
  let p : Tree α → Bool := fun x => args'.any (isEquivalentExpression eqv x)
  have hle : argMatchCnt eqv args args' ≤ args.length := List.countP_le_length
  by_cases hone : args'.length ≤ 1
  · -- The only argument of the compared node is the one that is matched.
    obtain ⟨x, hx, hany⟩ := List.countP_pos_iff.mp
      (hcount ▸ List.length_pos_of_mem hy : 0 < argMatchCnt eqv args args')
    obtain ⟨w, hw, hxw⟩ := List.any_eq_true.mp hany
    have hwy : w = y := by
      obtain ⟨z, rfl⟩ := List.length_eq_one_iff.mp
        (Nat.le_antisymm hone (List.length_pos_of_mem hy))
      rw [List.mem_singleton.mp hw, List.mem_singleton.mp hy]
    exact ⟨x, hx, hwy ▸ hxw⟩
  · have hlen := length_le_levelss op n args hproper
    have hlen' := length_le_levelss op n args' hproper'
    have hagree := hun (by omega) (by omega)
    rw [levelss_eq_flatMap op n args, List.pairwise_flatMap] at hagree
    -- No two matched arguments have a match in common.
    have hsingle : args.Pairwise fun x z => ∀ u ∈ args',
        isEquivalentExpression eqv x u = true → ¬ isEquivalentExpression eqv z u = true := by
      apply (hpair.and hagree.2).imp
      intro x z h u hu hxu hzu
      exact h.1 (isEquivalent_of_agree x op n z u
        (fun a ha b hb c hc => h.2 a ha b hb c (levels_subset hu hc)) hxu hzu)
    have hmatch : ∀ x ∈ args.filter p, ∃ u ∈ args', isEquivalentExpression eqv x u = true := by
      intro x hx
      obtain ⟨u, hu, hxu⟩ := List.any_eq_true.mp (List.mem_filter.mp hx).2
      exact ⟨u, hu, hxu⟩
    have hfilter : args'.length ≤ (args.filter p).length := by
      rw [← List.countP_eq_length_filter]
      exact Nat.le_of_eq hcount.symm
    obtain ⟨x, hx, hxy⟩ := matched_of_length_le (hsingle.sublist List.filter_sublist) hmatch
      hfilter y hy
    exact ⟨x, (List.mem_filter.mp hx).1, hxy⟩

section Values

variable {v : α → Truth} (hv : Respects eqv v) {op : Op} {t c : Tree α}

theorem eval_node (op : Op) (m : Bool) (args : List (Tree α)) :
    (Tree.node op m args).eval v = op.combine (args.map (Tree.eval v)) := by
  rw [← Tree.evals_eq_map]
  rfl

/-- A value that occurs among the arguments through an equivalent tree. -/
theorem eval_mem_of_any {args : List (Tree α)} {f : Tree α → Bool}
    (hf : ∀ x, f x = true → x.eval v = t.eval v) (h : args.any f = true) :
    t.eval v ∈ args.map (Tree.eval v) := by
  obtain ⟨x, hx, hfx⟩ := List.any_eq_true.mp h
  exact List.mem_map.mpr ⟨x, hx, hf x hfx⟩

include hv

/-- **A target that wins absorbs the compared node.** -/
theorem compareNode_win (ht : IsOther op t) (hc : IsOther op c)
    (h : compareNode eqv t c = .win) : op.app (t.eval v) (c.eval v) = t.eval v := by
  rcases compareNode_win_cases h with hE | ⟨op', m', args', rfl, hE⟩ |
    ⟨op₁, m, args, op', m', args', rfl, rfl, hall⟩
  · rw [isEquivalent_eval hv t c hE, Op.app_self]
  · have hmem := eval_mem_of_any (fun x hx => (isEquivalent_eval hv t x hx).symm) hE
    rw [eval_node, op_eq_dual hc]
    exact Op.app_dual_combine_of_mem op hmem
  · -- Every argument of the target has the value of one of the other's.
    have hsub : ∀ a ∈ args.map (Tree.eval v), a ∈ args'.map (Tree.eval v) := by
      intro a ha
      obtain ⟨x, hx, rfl⟩ := List.mem_map.mp ha
      have hany := List.countP_eq_length.mp hall x hx
      exact eval_mem_of_any (fun y hy => (isEquivalent_eval hv x y hy).symm) hany
    rw [eval_node, eval_node, op_eq_dual ht, op_eq_dual hc]
    exact Op.app_dual_combine_of_subset op hsub

/-- **A target that loses is absorbed by the compared node**, provided its
    arguments are reduced and none of the other's predicates is there for two
    of its own. -/
theorem compareNode_lose (ht : IsOther op t) (hc : IsOther op c) (htp : t.Proper) (hcp : c.Proper)
    (hun : Unambiguous eqv (levels op 0 t) (levels op 0 c)) (hred : Reduced eqv t)
    (hflags : FlagsSound eqv t) (h : compareNode eqv t c = .lose) :
    op.app (t.eval v) (c.eval v) = c.eval v := by
  rw [Op.app_comm]
  obtain ⟨op₁, m, args, rfl, hany | ⟨op', m', args', rfl, hall, hcount⟩⟩ :=
    compareNode_lose_cases h
  · have hmem := eval_mem_of_any (fun x hx => isEquivalent_eval hv x c hx) hany
    rw [eval_node op₁, op_eq_dual ht]
    exact Op.app_dual_combine_of_mem op hmem
  · obtain rfl := op_eq_dual ht
    obtain rfl := op_eq_dual hc
    have hpair : args.Pairwise fun x y => ¬ isEquivalentExpression eqv x y = true := by
      have hflags' := (flagsSounds_iff eqv args).mp hflags.2
      apply hred.1.imp_of_mem
      intro x y hx hy hboth
      rw [not_isEquivalent_of_both (hflags' x hx) (hflags' y hy) hboth]
      exact Bool.false_ne_true
    have hmatched := matched_of_argMatchCnt ((Tree.propers_iff args).mp htp.2)
      ((Tree.propers_iff args').mp hcp.2) hpair hun hall hcount
    have hsub : ∀ b ∈ args'.map (Tree.eval v), b ∈ args.map (Tree.eval v) := by
      intro b hb
      obtain ⟨y, hy, rfl⟩ := List.mem_map.mp hb
      obtain ⟨x, hx, hxy⟩ := hmatched y hy
      exact List.mem_map.mpr ⟨x, hx, isEquivalent_eval hv x y hxy⟩
    rw [eval_node, eval_node]
    exact Op.app_dual_combine_of_subset op hsub

end Values

end Comparison

/-! ## §4. The nested loops. -/

/-- A tree that has lost predicates. -/
def Shrunk (t' t : Tree α) : Prop := ∀ op n, (levels op n t').Sublist (levels op n t)

instance : Std.Refl (@Shrunk α) := ⟨fun _ _ _ => List.Sublist.refl _⟩

instance : IsTrans (Tree α) Shrunk := ⟨fun _ _ _ h₁ h₂ op n => (h₁ op n).trans (h₂ op n)⟩

theorem Unambiguous.mono {eqv : α → α → Bool} {xs xs' ys ys' : List (Nat × α)}
    (h : Unambiguous eqv xs ys) (hxs : xs'.Sublist xs) (hys : ys'.Sublist ys) :
    Unambiguous eqv xs' ys' := by
  intro hlen hlen'
  have hpair := h (Nat.lt_of_lt_of_le hlen hxs.length_le) (Nat.lt_of_lt_of_le hlen' hys.length_le)
  exact (hpair.sublist hxs).imp fun h c hc => h c (hys.subset hc)

/-- What is left of a list of trees. -/
theorem levelss_sublist {ts' ts : List (Tree α)} (h : List.SublistForall₂ Shrunk ts' ts)
    (op : Op) (n : Nat) : (levelss op n ts').Sublist (levelss op n ts) := by
  induction h with
  | nil => exact List.nil_sublist _
  | cons hab _ ih => exact (hab op n).append ih
  | cons_right _ ih => exact ih.trans (List.sublist_append_right _ _)

theorem exists_shrunk {ts' ts : List (Tree α)} (h : List.SublistForall₂ Shrunk ts' ts) {t' : Tree α}
    (ht : t' ∈ ts') : ∃ t ∈ ts, Shrunk t' t := by
  obtain ⟨l, hl, hsub⟩ := List.sublistForall₂_iff.mp h
  obtain ⟨t, hmem, hst⟩ := exists_related hl ht
  exact ⟨t, hsub.subset hmem, hst⟩

/-- The arguments of an operator, as far as `Apart` is about them. -/
abbrev Siblings (eqv : α → α → Bool) (op : Op) (args : List (Tree α)) : Prop :=
  args.Pairwise fun x y => Unambiguous eqv (levels op 0 x) (levels op 0 y)

theorem Siblings.shrunk {eqv : α → α → Bool} {op : Op} {ts' ts : List (Tree α)}
    (h : List.SublistForall₂ Shrunk ts' ts) : Siblings eqv op ts → Siblings eqv op ts' := by
  induction h with
  | nil =>
    intro _
    exact List.Pairwise.nil
  | cons hab hrest ih =>
    intro hpair
    obtain ⟨hhead, htail⟩ := List.pairwise_cons.mp hpair
    refine List.pairwise_cons.mpr ⟨?_, ih htail⟩
    intro y' hy'
    obtain ⟨y, hy, hshr⟩ := exists_shrunk hrest hy'
    exact (hhead y hy).mono (hab op 0) (hshr op 0)
  | cons_right _ ih =>
    intro hpair
    exact ih (List.pairwise_cons.mp hpair).2

/-- What the transformation asks of a tree. -/
structure Fit (eqv : α → α → Bool) (n : Nat) (t : Tree α) : Prop where
  proper : t.Proper
  alternating : Alternating t
  flags : FlagsSound eqv t
  apart : Apart eqv t
  size_le : t.size ≤ n

/-- **What a transformation keeps of a tree**, and what it achieves. -/
structure Kept (eqv : α → α → Bool) (t t' : Tree α) : Prop where
  value : ∀ v : α → Truth, Respects eqv v → t'.eval v = t.eval v
  proper : t'.Proper
  alternating : Alternating t'
  flags : FlagsSound eqv t'
  apart : Apart eqv t'
  size_le : t'.size ≤ t.size
  mark : t'.mark = t.mark
  other : ∀ op, IsOther op t → IsOther op t'
  reduced : Reduced eqv t'
  shrunk : Shrunk t' t

theorem Kept.fit {eqv : α → α → Bool} {n : Nat} {t t' : Tree α} (h : Kept eqv t t')
    (ht : Fit eqv n t) : Fit eqv n t' :=
  ⟨h.proper, h.alternating, h.flags, h.apart, Nat.le_trans h.size_le ht.size_le⟩

/-- An argument of an operator `op`. -/
structure Member (eqv : α → α → Bool) (op : Op) (n : Nat) (t : Tree α) : Prop where
  fit : Fit eqv n t
  other : IsOther op t

/-- The value of an argument list. -/
def argsValue (op : Op) (v : α → Truth) (ts : List (Tree α)) : Truth :=
  op.combine (ts.map (Tree.eval v))

@[simp] theorem argsValue_cons (op : Op) (v : α → Truth) (t : Tree α) (ts : List (Tree α)) :
    argsValue op v (t :: ts) = op.app (t.eval v) (argsValue op v ts) := rfl

/-- **What comparing a target with its later siblings does.** -/
structure Compared (eqv : α → α → Bool) (op : Op) (n : Nat) (target : Tree α)
    (rest : List (Tree α)) (lost : Bool) (rest' : List (Tree α)) : Prop where
  value : ∀ v, Respects eqv v →
    op.app (target.eval v) (argsValue op v rest') = op.app (target.eval v) (argsValue op v rest)
  absorbed : lost = true → ∀ v, Respects eqv v →
    op.app (target.eval v) (argsValue op v rest') = argsValue op v rest'
  members : ∀ t ∈ rest', Member eqv op n t
  survived : lost = false → ∀ t ∈ rest', Reduced eqv t ∧ compareNode eqv target t = .both
  head : lost = true → ∃ c cs, rest' = c :: cs ∧ Reduced eqv c
  unmarked : lost = true → target.mark = false
  marked : (∃ t ∈ rest, t.mark = true) → ∃ t ∈ rest', t.mark = true
  shrunk : List.SublistForall₂ Shrunk rest' rest
  length_le : rest'.length ≤ rest.length
  sizes_le : Tree.sizes rest' ≤ Tree.sizes rest
  sublist : (∀ t ∈ rest, Reduced eqv t) → rest'.Sublist rest

/-- **What scanning an argument list does.** -/
structure Scanned (eqv : α → α → Bool) (op : Op) (n : Nat) (args args' : List (Tree α)) :
    Prop where
  value : ∀ v, Respects eqv v → argsValue op v args' = argsValue op v args
  ne_nil : args ≠ [] → args' ≠ []
  members : ∀ t ∈ args', Member eqv op n t
  reduced : ∀ t ∈ args', Reduced eqv t
  pairwise : args'.Pairwise fun x y => compareNode eqv x y = .both
  marked : (∃ t ∈ args, t.mark = true) → ∃ t ∈ args', t.mark = true
  shrunk : List.SublistForall₂ Shrunk args' args
  sizes_le : Tree.sizes args' ≤ Tree.sizes args
  sublist : (∀ t ∈ args, Reduced eqv t) → args'.Sublist args

section Loops

variable {eqv : α → α → Bool} {op : Op} {n : Nat}
  {transform : Tree α → Option (Tree α)}
  (hT : ∀ t, Fit eqv n t → ∃ t', transform t = some t' ∧ Kept eqv t t')
  (hfix : ∀ t, Reduced eqv t → t.size ≤ n → transform t = some t)

include hT hfix

/-- **The inner loop.** -/
theorem compareLoop_spec {target : Tree α} (htarget : Member eqv op n target)
    (hred : Reduced eqv target) : ∀ rest : List (Tree α), (∀ t ∈ rest, Member eqv op n t) →
      (∀ t ∈ rest, Unambiguous eqv (levels op 0 target) (levels op 0 t)) →
      ∃ lost rest', compareLoop eqv transform target rest = some (lost, rest') ∧
        Compared eqv op n target rest lost rest' := by
  intro rest
  induction rest with
  | nil =>
    intro _ _
    refine ⟨false, [], rfl, ?_⟩
    constructor <;> simp [List.SublistForall₂.nil]
  | cons c rest ih =>
    intro hrest hsiblings
    have hsiblings' : ∀ t ∈ rest, Unambiguous eqv (levels op 0 target) (levels op 0 t) :=
      fun t ht => hsiblings t (List.mem_cons_of_mem c ht)
    have hc : Member eqv op n c := hrest c List.mem_cons_self
    have hrest' : ∀ t ∈ rest, Member eqv op n t := fun t ht => hrest t (List.mem_cons_of_mem c ht)
    obtain ⟨c', htc, hk⟩ := hT c hc.fit
    have hc' : Member eqv op n c' := ⟨hk.fit hc.fit, hk.other op hc.other⟩
    -- A reduced sibling is left as it is.
    have hsame : Reduced eqv c → c' = c := fun hr =>
      Option.some.inj (htc.symm.trans (hfix c hr hc.fit.size_le))
    cases hcmp : compareNode eqv target c' with
    | win =>
      obtain ⟨lost, rest', hloop, hsp⟩ := ih hrest' hsiblings'
      refine ⟨lost, rest', ?_, ?_⟩
      · simp only [compareLoop, htc, Option.bind_eq_bind, Option.bind_some, hcmp]
        exact hloop
      have hum := compareNode_unmarked (by rw [hcmp]; decide : compareNode eqv target c' ≠ .both)
      refine ⟨?_, hsp.absorbed, hsp.members, hsp.survived, hsp.head, hsp.unmarked, ?_,
        hsp.shrunk.cons_right, ?_, ?_, ?_⟩
      · intro v hv
        have hwin := compareNode_win hv htarget.other hc'.other hcmp
        rw [hk.value v hv] at hwin
        rw [hsp.value v hv, argsValue_cons, ← Op.app_assoc, hwin]
      · intro hmark
        obtain ⟨t, ht, htm⟩ := hmark
        apply hsp.marked
        rcases List.mem_cons.mp ht with rfl | hmem
        · rw [← hk.mark, hum.2] at htm
          exact absurd htm (by decide)
        · exact ⟨t, hmem, htm⟩
      · exact Nat.le_succ_of_le hsp.length_le
      · exact Nat.le_trans hsp.sizes_le (Nat.le_add_left _ _)
      · intro hall
        exact (hsp.sublist fun t ht => hall t (List.mem_cons_of_mem c ht)).cons c
    | lose =>
      have hum := compareNode_unmarked (by rw [hcmp]; decide : compareNode eqv target c' ≠ .both)
      refine ⟨true, c' :: rest, ?_, ?_⟩
      · simp only [compareLoop, htc, Option.bind_eq_bind, Option.bind_some, hcmp]
      have hun := (hsiblings c List.mem_cons_self).mono (List.Sublist.refl _) (hk.shrunk op 0)
      have hlose : ∀ v, Respects eqv v → op.app (target.eval v) (c'.eval v) = c'.eval v :=
        fun v hv => compareNode_lose hv htarget.other hc'.other htarget.fit.proper hk.proper hun
          hred htarget.fit.flags hcmp
      refine ⟨?_, ?_, ?_, ?_, fun _ => ⟨c', rest, rfl, hk.reduced⟩, fun _ => hum.1, ?_,
        .cons hk.shrunk (List.Sublist.refl rest).sublistForall₂, ?_, ?_, ?_⟩
      · intro v hv
        rw [argsValue_cons, argsValue_cons, hk.value v hv]
      · intro _ v hv
        rw [argsValue_cons, ← Op.app_assoc, hlose v hv]
      · intro t ht
        rcases List.mem_cons.mp ht with rfl | hmem
        · exact hc'
        · exact hrest' t hmem
      · intro h
        exact absurd h (by decide)
      · intro hmark
        obtain ⟨t, ht, htm⟩ := hmark
        rcases List.mem_cons.mp ht with rfl | hmem
        · exact ⟨c', List.mem_cons_self, hk.mark.trans htm⟩
        · exact ⟨t, List.mem_cons_of_mem c' hmem, htm⟩
      · exact Nat.le_refl _
      · exact Nat.add_le_add_right hk.size_le _
      · intro hall
        rw [hsame (hall c List.mem_cons_self)]
    | both =>
      obtain ⟨lost, rest', hloop, hsp⟩ := ih hrest' hsiblings'
      refine ⟨lost, c' :: rest', ?_, ?_⟩
      · simp only [compareLoop, htc, Option.bind_eq_bind, Option.bind_some, hcmp, hloop]
      refine ⟨?_, ?_, ?_, ?_, fun _ => ⟨c', rest', rfl, hk.reduced⟩, hsp.unmarked, ?_,
        .cons hk.shrunk hsp.shrunk, ?_, ?_, ?_⟩
      · intro v hv
        rw [argsValue_cons, argsValue_cons, hk.value v hv, ← Op.app_assoc,
          Op.app_comm op (target.eval v), Op.app_assoc, hsp.value v hv, ← Op.app_assoc,
          Op.app_comm op (c.eval v), Op.app_assoc]
      · intro hlost v hv
        rw [argsValue_cons, ← Op.app_assoc, Op.app_comm op (target.eval v), Op.app_assoc,
          hsp.absorbed hlost v hv]
      · intro t ht
        rcases List.mem_cons.mp ht with rfl | hmem
        · exact hc'
        · exact hsp.members t hmem
      · intro hlost t ht
        rcases List.mem_cons.mp ht with rfl | hmem
        · exact ⟨hk.reduced, hcmp⟩
        · exact hsp.survived hlost t hmem
      · intro hmark
        obtain ⟨t, ht, htm⟩ := hmark
        rcases List.mem_cons.mp ht with rfl | hmem
        · exact ⟨c', List.mem_cons_self, hk.mark.trans htm⟩
        · obtain ⟨u, hu, hum⟩ := hsp.marked ⟨t, hmem, htm⟩
          exact ⟨u, List.mem_cons_of_mem c' hu, hum⟩
      · exact Nat.succ_le_succ hsp.length_le
      · exact Nat.add_le_add hk.size_le hsp.sizes_le
      · intro hall
        rw [hsame (hall c List.mem_cons_self)]
        exact (hsp.sublist fun t ht => hall t (List.mem_cons_of_mem c ht)).cons_cons c

/-- **Both loops**, from a list whose first argument is reduced. -/
theorem targetLoop_spec (fuel : Nat) : ∀ args : List (Tree α), args.length ≤ fuel →
    (∀ t ∈ args, Member eqv op n t) → Siblings eqv op args →
    (∀ c cs, args = c :: cs → Reduced eqv c) →
      ∃ args', targetLoop eqv transform fuel args = some args' ∧
        Scanned eqv op n args args' := by
  induction fuel with
  | zero =>
    intro args hlen _ _ _
    have hnil : args = [] := List.eq_nil_of_length_eq_zero (Nat.le_zero.mp hlen)
    subst hnil
    refine ⟨[], rfl, ?_⟩
    constructor <;> simp [List.SublistForall₂.nil]
  | succ fuel ih =>
    intro args hlen hargs hsiblings hhead
    cases args with
    | nil =>
      refine ⟨[], rfl, ?_⟩
      constructor <;> simp [List.SublistForall₂.nil]
    | cons target rest =>
      obtain ⟨hlater, hrest⟩ := List.pairwise_cons.mp hsiblings
      have htarget : Member eqv op n target := hargs target List.mem_cons_self
      have hred : Reduced eqv target := hhead target rest rfl
      obtain ⟨lost, rest₁, hloop, hcmp⟩ := compareLoop_spec hT hfix htarget hred rest
        (fun t ht => hargs t (List.mem_cons_of_mem target ht)) hlater
      have hhead₁ : ∀ c cs, rest₁ = c :: cs → Reduced eqv c := by
        intro c cs hcs
        cases lost with
        | true =>
          obtain ⟨c', cs', hc', hr⟩ := hcmp.head rfl
          obtain ⟨rfl, -⟩ := List.cons.inj (hcs.symm.trans hc')
          exact hr
        | false => exact (hcmp.survived rfl c (hcs ▸ List.mem_cons_self)).1
      obtain ⟨rest₂, hscan, hsp⟩ := ih rest₁
        (Nat.le_trans hcmp.length_le (Nat.le_of_succ_le_succ hlen)) hcmp.members
        (Siblings.shrunk hcmp.shrunk hrest) hhead₁
      have hshrunk : List.SublistForall₂ Shrunk rest₂ rest := IsTrans.trans _ _ _ hsp.shrunk hcmp.shrunk
      cases lost with
      | true =>
        refine ⟨rest₂, ?_, ?_, ?_, hsp.members, hsp.reduced, hsp.pairwise, ?_,
          hshrunk.cons_right, ?_, ?_⟩
        · simp [targetLoop, hloop, hscan]
        · intro v hv
          rw [hsp.value v hv, argsValue_cons, ← hcmp.value v hv, hcmp.absorbed rfl v hv]
        · intro _
          obtain ⟨c, cs, hcs, -⟩ := hcmp.head rfl
          exact hsp.ne_nil (hcs ▸ List.cons_ne_nil c cs)
        · intro hmark
          obtain ⟨t, ht, htm⟩ := hmark
          apply hsp.marked
          apply hcmp.marked
          rcases List.mem_cons.mp ht with rfl | hmem
          · rw [hcmp.unmarked rfl] at htm
            exact absurd htm (by decide)
          · exact ⟨t, hmem, htm⟩
        · exact Nat.le_trans hsp.sizes_le
            (Nat.le_trans hcmp.sizes_le (Nat.le_add_left _ _))
        · intro hall
          have hsub := hcmp.sublist fun t ht => hall t (List.mem_cons_of_mem target ht)
          have hall₁ : ∀ t ∈ rest₁, Reduced eqv t := fun t ht =>
            hall t (List.mem_cons_of_mem target (hsub.subset ht))
          exact ((hsp.sublist hall₁).trans hsub).cons target
      | false =>
        have hall₁ : ∀ t ∈ rest₁, Reduced eqv t := fun t ht => (hcmp.survived rfl t ht).1
        have hsub₂ : rest₂.Sublist rest₁ := hsp.sublist hall₁
        refine ⟨target :: rest₂, ?_, ?_, fun _ => List.cons_ne_nil _ _, ?_, ?_, ?_, ?_,
          .cons (fun _ _ => List.Sublist.refl _) hshrunk, ?_, ?_⟩
        · simp [targetLoop, hloop, hscan]
        · intro v hv
          rw [argsValue_cons, hsp.value v hv, hcmp.value v hv, argsValue_cons]
        · intro t ht
          rcases List.mem_cons.mp ht with rfl | hmem
          · exact htarget
          · exact hsp.members t hmem
        · intro t ht
          rcases List.mem_cons.mp ht with rfl | hmem
          · exact hred
          · exact hsp.reduced t hmem
        · -- What is left later was there when the target was compared.
          exact List.pairwise_cons.mpr
            ⟨fun t ht => (hcmp.survived rfl t (hsub₂.subset ht)).2, hsp.pairwise⟩
        · intro hmark
          obtain ⟨t, ht, htm⟩ := hmark
          rcases List.mem_cons.mp ht with rfl | hmem
          · exact ⟨t, List.mem_cons_self, htm⟩
          · obtain ⟨u, hu, hum⟩ := hsp.marked (hcmp.marked ⟨t, hmem, htm⟩)
            exact ⟨u, List.mem_cons_of_mem target hu, hum⟩
        · exact Nat.add_le_add_left (Nat.le_trans hsp.sizes_le hcmp.sizes_le) _
        · intro hall
          exact (hsub₂.trans
            (hcmp.sublist fun t ht => hall t (List.mem_cons_of_mem target ht))).cons_cons target

end Loops

/-! ## §5. Idempotence and absorption. -/

section Unchanged

variable {eqv : α → α → Bool} {transform : Tree α → Option (Tree α)}

/-- Siblings that are to stay are left alone. -/
theorem compareLoop_unchanged {target : Tree α} (rest : List (Tree α)) :
    (∀ t ∈ rest, transform t = some t) → (∀ t ∈ rest, compareNode eqv target t = .both) →
      compareLoop eqv transform target rest = some (false, rest) := by
  induction rest with
  | nil =>
    intro _ _
    rfl
  | cons c rest ih =>
    intro htr hboth
    have hrest := ih (fun t ht => htr t (List.mem_cons_of_mem c ht))
      fun t ht => hboth t (List.mem_cons_of_mem c ht)
    simp [compareLoop, htr c List.mem_cons_self, hboth c List.mem_cons_self, hrest]

theorem targetLoop_unchanged (fuel : Nat) : ∀ args : List (Tree α), args.length ≤ fuel →
    (∀ t ∈ args, transform t = some t) →
    args.Pairwise (fun x y => compareNode eqv x y = .both) →
      targetLoop eqv transform fuel args = some args := by
  induction fuel with
  | zero =>
    intro args hlen _ _
    rw [List.eq_nil_of_length_eq_zero (Nat.le_zero.mp hlen)]
    rfl
  | succ fuel ih =>
    intro args hlen htr hpair
    cases args with
    | nil => rfl
    | cons target rest =>
      obtain ⟨hboth, hrest⟩ := List.pairwise_cons.mp hpair
      have htr' : ∀ t ∈ rest, transform t = some t := fun t ht =>
        htr t (List.mem_cons_of_mem target ht)
      have hloop := compareLoop_unchanged rest htr' hboth
      have hscan := ih rest (Nat.le_of_succ_le_succ hlen) htr' hrest
      simp [targetLoop, hloop, hscan]

/-- A reduced tree stays as it is. -/
theorem idempotentAndAbsorption_reduced (fuel : Nat) : ∀ t : Tree α, Reduced eqv t →
    t.size ≤ fuel → idempotentAndAbsorption eqv fuel t = some t := by
  induction fuel with
  | zero =>
    intro t _ hsize
    exact absurd t.size_pos (by omega)
  | succ fuel ih =>
    intro t hred hsize
    cases t with
    | leaf m a => rfl
    | node op m args =>
      cases args with
      | nil => rfl
      | cons target rest =>
        have hreds := (reduceds_iff _).mp hred.2
        have htr : ∀ t ∈ target :: rest, idempotentAndAbsorption eqv fuel t = some t := by
          intro t ht
          have hle := Tree.size_le_sizes ht
          have hsize' : 1 + Tree.sizes (target :: rest) ≤ fuel + 1 := hsize
          exact ih t (hreds t ht) (by omega)
        have hscan := targetLoop_unchanged (rest.length + 1) (target :: rest) (Nat.le_refl _) htr
          hred.1
        simp [idempotentAndAbsorption, htr target List.mem_cons_self, hscan]

end Unchanged

/-- **`idempotentAndAbsorption`** keeps the value and reduces the tree. -/
theorem idempotentAndAbsorption_spec {eqv : α → α → Bool} (fuel : Nat) :
    ∀ t : Tree α, Fit eqv fuel t →
      ∃ t', idempotentAndAbsorption eqv fuel t = some t' ∧ Kept eqv t t' := by
  induction fuel with
  | zero =>
    intro t hfit
    have hpos := t.size_pos
    have hle := hfit.size_le
    omega
  | succ fuel ih =>
    intro t hfit
    cases t with
    | leaf m a =>
      exact ⟨.leaf m a, rfl, fun _ _ => rfl, trivial, trivial, hfit.flags, trivial, Nat.le_refl _,
        rfl, fun _ h => h, trivial, fun _ _ => List.Sublist.refl _⟩
    | node op m args =>
      cases args with
      | nil => exact absurd rfl hfit.proper.1
      | cons target rest =>
        have hsize : 1 + Tree.sizes (target :: rest) ≤ fuel + 1 := hfit.size_le
        have hargs : ∀ t ∈ target :: rest, Member eqv op fuel t := by
          intro t ht
          have hle := Tree.size_le_sizes ht
          exact ⟨⟨(Tree.propers_iff _).mp hfit.proper.2 t ht,
            (alternatings_iff _).mp hfit.alternating.2 t ht,
            (flagsSounds_iff eqv _).mp hfit.flags.2 t ht,
            (aparts_iff eqv _).mp hfit.apart.2 t ht, by omega⟩, hfit.alternating.1 t ht⟩
        have htarget := hargs target List.mem_cons_self
        obtain ⟨target', htr, hk⟩ := ih target htarget.fit
        have htarget' : Member eqv op fuel target' :=
          ⟨hk.fit htarget.fit, hk.other op htarget.other⟩
        have hargs' : ∀ t ∈ target' :: rest, Member eqv op fuel t := by
          intro t ht
          rcases List.mem_cons.mp ht with rfl | hmem
          · exact htarget'
          · exact hargs t (List.mem_cons_of_mem target hmem)
        have hhead : ∀ c cs, target' :: rest = c :: cs → Reduced eqv c := by
          intro c cs hcs
          obtain ⟨rfl, -⟩ := List.cons.inj hcs
          exact hk.reduced
        have hstart : List.SublistForall₂ Shrunk (target' :: rest) (target :: rest) :=
          .cons hk.shrunk (List.Sublist.refl rest).sublistForall₂
        have hsiblings : Siblings eqv op (target' :: rest) :=
          Siblings.shrunk hstart hfit.apart.1
        obtain ⟨args', hscan, hsp⟩ := targetLoop_spec ih
          (fun t hr hle => idempotentAndAbsorption_reduced fuel t hr hle) (rest.length + 1)
          (target' :: rest) (Nat.le_refl _) hargs' hsiblings hhead
        have hend : List.SublistForall₂ Shrunk args' (target :: rest) :=
          IsTrans.trans _ _ _ hsp.shrunk hstart
        refine ⟨.node op m args', ?_, ?_⟩
        · simp [idempotentAndAbsorption, htr, hscan]
        have hsizes : Tree.sizes args' ≤ Tree.sizes (target :: rest) :=
          Nat.le_trans hsp.sizes_le (Nat.add_le_add_right hk.size_le _)
        have hother : ∀ t ∈ args', IsOther op t := fun t ht => (hsp.members t ht).other
        refine ⟨?_, ⟨hsp.ne_nil (List.cons_ne_nil _ _), ?_⟩, ⟨hother, ?_⟩, ⟨?_, ?_⟩,
          ⟨Siblings.shrunk hsp.shrunk hsiblings, ?_⟩, Nat.add_le_add_left hsizes 1, rfl, fun _ h => h,
          ⟨hsp.pairwise, ?_⟩, fun op' n => levelss_sublist hend op _⟩
        · intro v hv
          rw [eval_node, eval_node]
          show argsValue op v args' = op.app (target.eval v) (argsValue op v rest)
          rw [hsp.value v hv, argsValue_cons, hk.value v hv]
        · exact (Tree.propers_iff _).mpr fun t ht => (hsp.members t ht).fit.proper
        · exact (alternatings_iff _).mpr fun t ht => (hsp.members t ht).fit.alternating
        · -- The flagged argument is compared with nothing.
          intro hm
          obtain ⟨t, ht, htm⟩ := hfit.flags.1 hm
          apply hsp.marked
          rcases List.mem_cons.mp ht with rfl | hmem
          · exact ⟨target', List.mem_cons_self, hk.mark.trans htm⟩
          · exact ⟨t, List.mem_cons_of_mem target' hmem, htm⟩
        · exact (flagsSounds_iff eqv _).mpr fun t ht => (hsp.members t ht).fit.flags
        · exact (aparts_iff eqv _).mpr fun t ht => (hsp.members t ht).fit.apart
        · exact (reduceds_iff _).mpr hsp.reduced

/-! ## §6. Nested and single operators. -/

/-- What dissolving nested operators keeps of a tree. -/
structure Flattened (eqv : α → α → Bool) (t t' : Tree α) : Prop where
  value : ∀ v : α → Truth, t'.eval v = t.eval v
  proper : t'.Proper
  alternating : Alternating t'
  flags : FlagsSound eqv t'
  apart : Apart eqv t'
  levels_eq : ∀ op n, levels op n t' = levels op n t
  size_le : t'.size ≤ t.size
  mark : t'.mark = t.mark

/-- The loop of `unnestingAndOr4NNF`, over arguments of an operator `op`. -/
structure Unnested (eqv : α → α → Bool) (op : Op) (args args' : List (Tree α)) : Prop where
  value : ∀ v, argsValue op v args' = argsValue op v args
  ne_nil : args ≠ [] → args' ≠ []
  proper : ∀ t ∈ args', t.Proper
  other : ∀ t ∈ args', IsOther op t
  alternating : ∀ t ∈ args', Alternating t
  flags : ∀ t ∈ args', FlagsSound eqv t
  apart : ∀ t ∈ args', Apart eqv t
  siblings : Siblings eqv op args'
  levels_eq : ∀ n, levelss op n args' = levelss op n args
  below : ∀ t' ∈ args', ∃ t ∈ args, ∀ n, (levels op n t').Sublist (levels op n t)
  marked : (∃ t ∈ args, t.mark = true) → ∃ t ∈ args', t.mark = true
  sizes_le : Tree.sizes args' ≤ Tree.sizes args

theorem sizes_append (xs ys : List (Tree α)) :
    Tree.sizes (xs ++ ys) = Tree.sizes xs + Tree.sizes ys := by
  induction xs with
  | nil => exact (Nat.zero_add _).symm
  | cons x xs ih =>
    simp only [List.cons_append, Tree.sizes, ih]
    omega

/-- **The loop over the arguments**: an argument that is kept, or whose own
    arguments take its place. -/
theorem unnestLoop_spec {eqv : α → α → Bool} (op : Op) {n : Nat}
    {unnest : Tree α → Option (Tree α)}
    (hU : ∀ t : Tree α, t.Proper → FlagsSound eqv t → Apart eqv t → t.size ≤ n →
      ∃ t', unnest t = some t' ∧ Flattened eqv t t') (fuel : Nat) :
    ∀ args : List (Tree α), Tree.sizes args ≤ fuel → Tree.sizes args ≤ n →
      (∀ t ∈ args, t.Proper) → (∀ t ∈ args, FlagsSound eqv t) → (∀ t ∈ args, Apart eqv t) →
      Siblings eqv op args →
      ∃ args', unnestLoop unnest op fuel args = some args' ∧ Unnested eqv op args args' := by
  induction fuel with
  | zero =>
    intro args hfuel _ _ _ _ _
    have hlen := Tree.length_le_sizes args
    have hnil : args = [] := List.eq_nil_of_length_eq_zero (by omega)
    subst hnil
    refine ⟨[], rfl, ?_⟩
    constructor <;> simp
  | succ fuel ih =>
    intro args hfuel hn hproper hflags hapart hsiblings
    cases args with
    | nil =>
      refine ⟨[], rfl, ?_⟩
      constructor <;> simp
    | cons t rest =>
      have hsizes : Tree.sizes (t :: rest) = t.size + Tree.sizes rest := rfl
      have hpos := t.size_pos
      have hproper' : ∀ u ∈ rest, u.Proper := fun u hu => hproper u (List.mem_cons_of_mem t hu)
      have hflags' : ∀ u ∈ rest, FlagsSound eqv u := fun u hu =>
        hflags u (List.mem_cons_of_mem t hu)
      have hapart' : ∀ u ∈ rest, Apart eqv u := fun u hu => hapart u (List.mem_cons_of_mem t hu)
      obtain ⟨hlater, hsiblings'⟩ := List.pairwise_cons.mp hsiblings
      obtain ⟨t', hun, hfl⟩ := hU t (hproper t List.mem_cons_self) (hflags t List.mem_cons_self)
        (hapart t List.mem_cons_self) (by omega)
      -- An argument of another kind stays where it is.
      have hkeep : IsOther op t' → ∀ rest', Unnested eqv op rest rest' →
          Unnested eqv op (t :: rest) (t' :: rest') := by
        intro hother rest' hsp
        refine ⟨?_, fun _ => List.cons_ne_nil _ _, ?_, ?_, ?_, ?_, ?_, ?_, ?_, ?_, ?_, ?_⟩
        · intro v
          rw [argsValue_cons, argsValue_cons, hfl.value v, hsp.value v]
        · exact List.forall_mem_cons.mpr ⟨hfl.proper, hsp.proper⟩
        · exact List.forall_mem_cons.mpr ⟨hother, hsp.other⟩
        · exact List.forall_mem_cons.mpr ⟨hfl.alternating, hsp.alternating⟩
        · exact List.forall_mem_cons.mpr ⟨hfl.flags, hsp.flags⟩
        · exact List.forall_mem_cons.mpr ⟨hfl.apart, hsp.apart⟩
        · refine List.pairwise_cons.mpr ⟨?_, hsp.siblings⟩
          intro u' hu'
          obtain ⟨u, hu, hsub⟩ := hsp.below u' hu'
          rw [hfl.levels_eq]
          exact (hlater u hu).mono (List.Sublist.refl _) (hsub 0)
        · intro k
          rw [levelss, levelss, hfl.levels_eq, hsp.levels_eq]
        · intro u' hu'
          rcases List.mem_cons.mp hu' with rfl | hmem
          · exact ⟨t, List.mem_cons_self, fun k => by rw [hfl.levels_eq]⟩
          · obtain ⟨u, hu, hsub⟩ := hsp.below u' hmem
            exact ⟨u, List.mem_cons_of_mem t hu, hsub⟩
        · intro hmark
          obtain ⟨u, hu, hum⟩ := hmark
          rcases List.mem_cons.mp hu with rfl | hmem
          · exact ⟨t', List.mem_cons_self, hfl.mark.trans hum⟩
          · obtain ⟨w, hw, hwm⟩ := hsp.marked ⟨u, hmem, hum⟩
            exact ⟨w, List.mem_cons_of_mem t' hw, hwm⟩
        · exact Nat.add_le_add hfl.size_le hsp.sizes_le
      obtain ⟨rest', hrest, hsp⟩ := ih rest (by omega) (by omega) hproper' hflags' hapart'
        hsiblings'
      cases t' with
      | leaf m a =>
        refine ⟨.leaf m a :: rest', ?_, hkeep trivial rest' hsp⟩
        simp [unnestLoop, hun, hrest]
      | node op' m args =>
        by_cases hop : op' = op
        · subst hop
          -- The scan goes on with the arguments of the dissolved operator.
          have hsize : 1 + Tree.sizes args ≤ t.size := hfl.size_le
          have happ := sizes_append args rest
          have hmem : ∀ {P : Tree α → Prop}, (∀ u ∈ args, P u) → (∀ u ∈ rest, P u) →
              ∀ u ∈ args ++ rest, P u := fun ha hr u hu =>
            (List.mem_append.mp hu).elim (ha u) (hr u)
          have hlevels : ∀ k, levelss op' k args = levels op' k t := by
            intro k
            have heq := hfl.levels_eq op' k
            rwa [levels, if_pos rfl] at heq
          have hpair : Siblings eqv op' (args ++ rest) := by
            refine List.pairwise_append.mpr ⟨hfl.apart.1, hsiblings', ?_⟩
            intro x hx u hu
            exact (hlater u hu).mono (hlevels 0 ▸ levels_sublist hx op' 0) (List.Sublist.refl _)
          obtain ⟨args', hloop, hsp'⟩ := ih (args ++ rest) (by omega) (by omega)
            (hmem ((Tree.propers_iff args).mp hfl.proper.2) hproper')
            (hmem ((flagsSounds_iff eqv args).mp hfl.flags.2) hflags')
            (hmem ((aparts_iff eqv args).mp hfl.apart.2) hapart') hpair
          refine ⟨args', ?_, ?_, ?_, hsp'.proper, hsp'.other, hsp'.alternating, hsp'.flags,
            hsp'.apart, hsp'.siblings, ?_, ?_, ?_, ?_⟩
          · simp [unnestLoop, hun, hloop, hfl.proper.1]
          · intro v
            have hval := hfl.value v
            rw [eval_node] at hval
            rw [hsp'.value v, argsValue_cons, ← hval]
            unfold argsValue
            rw [List.map_append, Op.combine_append]
          · intro _
            exact hsp'.ne_nil (List.append_ne_nil_of_left_ne_nil hfl.proper.1 rest)
          · intro k
            rw [hsp'.levels_eq, levelss, ← hlevels, levelss_eq_flatMap, List.flatMap_append,
              ← levelss_eq_flatMap, ← levelss_eq_flatMap]
          · intro u' hu'
            obtain ⟨u, hu, hsub⟩ := hsp'.below u' hu'
            rcases List.mem_append.mp hu with hleft | hright
            · exact ⟨t, List.mem_cons_self, fun k =>
                (hsub k).trans (hlevels k ▸ levels_sublist hleft op' k)⟩
            · exact ⟨u, List.mem_cons_of_mem t hright, hsub⟩
          · intro hmark
            obtain ⟨u, hu, hum⟩ := hmark
            apply hsp'.marked
            rcases List.mem_cons.mp hu with rfl | hrest'
            · obtain ⟨w, hw, hwm⟩ := hfl.flags.1 (hfl.mark.trans hum)
              exact ⟨w, List.mem_append_left rest hw, hwm⟩
            · exact ⟨u, List.mem_append_right args hrest', hum⟩
          · have hle := hsp'.sizes_le
            omega
        · refine ⟨.node op' m args :: rest', ?_, hkeep hop rest' hsp⟩
          simp [unnestLoop, hun, hrest, hop]

/-- **`unnestingAndOr4NNF`** keeps the value; no operator is left directly
    below itself. -/
theorem unnestingAndOr4NNF_spec {eqv : α → α → Bool} (fuel : Nat) :
    ∀ t : Tree α, t.Proper → FlagsSound eqv t → Apart eqv t → t.size ≤ fuel →
      ∃ t', unnestingAndOr4NNF fuel t = some t' ∧ Flattened eqv t t' := by
  induction fuel with
  | zero =>
    intro t _ _ _ hsize
    exact absurd t.size_pos (by omega)
  | succ fuel ih =>
    intro t hproper hflags hapart hsize
    cases t with
    | leaf m a =>
      exact ⟨.leaf m a, rfl, fun _ => rfl, trivial, trivial, hflags, trivial, fun _ _ => rfl,
        Nat.le_refl _, rfl⟩
    | node op m args =>
      have hsize' : 1 + Tree.sizes args ≤ fuel + 1 := hsize
      obtain ⟨args', hloop, hsp⟩ := unnestLoop_spec op ih fuel args (by omega) (by omega)
        ((Tree.propers_iff args).mp hproper.2) ((flagsSounds_iff eqv args).mp hflags.2)
        ((aparts_iff eqv args).mp hapart.2) hapart.1
      refine ⟨.node op m args', ?_, ?_, ⟨hsp.ne_nil hproper.1, (Tree.propers_iff _).mpr hsp.proper⟩,
        ⟨hsp.other, (alternatings_iff _).mpr hsp.alternating⟩,
        ⟨fun hm => hsp.marked (hflags.1 hm), (flagsSounds_iff eqv _).mpr hsp.flags⟩,
        ⟨hsp.siblings, (aparts_iff eqv _).mpr hsp.apart⟩, fun op' n => hsp.levels_eq _,
        Nat.add_le_add_left hsp.sizes_le 1, rfl⟩
      · simp [unnestingAndOr4NNF, hloop]
      · intro v
        rw [eval_node, eval_node]
        exact hsp.value v

/-- **`removeLogicalNode4NNF`** keeps the value of a tree whose operators
    have arguments. -/
theorem removeLogicalNode4NNF_spec : ∀ t : Tree α, t.Proper →
    ∃ t', removeLogicalNode4NNF t = some t' ∧ t'.Proper ∧
      ∀ v : α → Truth, t'.eval v = t.eval v := by
  intro t
  induction t using Tree.induct with
  | leaf m a =>
    intro _
    exact ⟨.leaf m a, rfl, trivial, fun _ => rfl⟩
  | node op m args ih =>
    intro hproper
    -- the arguments first
    have hargs : ∃ args', removeLogicalNodes args = some args' ∧
        args'.length = args.length ∧ (∀ t ∈ args', t.Proper) ∧
        ∀ v, argsValue op v args' = argsValue op v args := by
      have hpropers := (Tree.propers_iff args).mp hproper.2
      clear hproper
      induction args with
      | nil => exact ⟨[], rfl, rfl, by simp, fun _ => rfl⟩
      | cons t ts ihs =>
        obtain ⟨t', ht, htp, htv⟩ := ih t List.mem_cons_self (hpropers t List.mem_cons_self)
        obtain ⟨ts', hts, hlen, htsp, htsv⟩ := ihs (fun u hu => ih u (List.mem_cons_of_mem t hu))
          fun u hu => hpropers u (List.mem_cons_of_mem t hu)
        refine ⟨t' :: ts', ?_, ?_, List.forall_mem_cons.mpr ⟨htp, htsp⟩, ?_⟩
        · simp [removeLogicalNodes, ht, hts]
        · rw [List.length_cons, List.length_cons, hlen]
        · intro v
          rw [argsValue_cons, argsValue_cons, htv v, htsv v]
    obtain ⟨args', hrem, hlen, hpropers, hval⟩ := hargs
    match args', hrem, hlen, hpropers, hval with
    | [], _, hlen, _, _ =>
      exact absurd (List.eq_nil_of_length_eq_zero hlen.symm) hproper.1
    | [t'], hrem, _, hpropers, hval =>
      -- a single argument takes the place of the node
      refine ⟨t', ?_, hpropers t' List.mem_cons_self, ?_⟩
      · simp [removeLogicalNode4NNF, hrem]
      · intro v
        rw [eval_node]
        have hv := hval v
        rw [argsValue_cons] at hv
        exact (Op.app_unit_right op _).symm.trans hv
    | t₁ :: t₂ :: ts, hrem, _, hpropers, hval =>
      refine ⟨.node op m (t₁ :: t₂ :: ts), ?_,
        ⟨List.cons_ne_nil _ _, (Tree.propers_iff _).mpr hpropers⟩, ?_⟩
      · simp [removeLogicalNode4NNF, hrem]
      · intro v
        rw [eval_node, eval_node]
        exact hval v

/-! ## §7. The transformation. -/

/-- Where the constant of a predicate comes from: an expression that was
    computed beforehand, a literal of another type that was converted, or a
    literal of the type of the column. -/
inductive Origin where
  | folded
  | converted
  | literal
  deriving DecidableEq, Repr

/-- `node.arguments` is not NULL: folding leaves the arguments in place. -/
def Origin.hasArguments : Origin → Bool
  | folded => true
  | converted => false
  | literal => false

/-- `QTC_NODE_CONVERSION_TRUE`. -/
def Origin.isConversion : Origin → Bool
  | folded => true
  | converted => true
  | literal => false

/-- A predicate `column = constant`. -/
structure Equality where
  column : Nat
  constant : Nat
  origin : Origin
  deriving DecidableEq, Repr

/-- `qtc::isEquivalentExpression` of two such predicates: the columns are
    compared, and the values of the constants where both nodes count as
    terminal ones. -/
def isEquivalentEquality (a b : Equality) : Bool :=
  a.column = b.column && a.constant = b.constant &&
    ((!a.origin.hasArguments && !b.origin.hasArguments) ||
      (a.origin.isConversion && b.origin.isConversion))

/-- The value of a predicate in a row. -/
def Equality.value (row : Nat → Nat) (a : Equality) : Truth :=
  if row a.column = a.constant then Truth.true else Truth.false

/-- The test is right about every row. -/
theorem respects_isEquivalentEquality (row : Nat → Nat) :
    Respects isEquivalentEquality (Equality.value row) := by
  intro a b hab
  simp only [isEquivalentEquality, Bool.and_eq_true, decide_eq_true_eq] at hab
  unfold Equality.value
  rw [hab.1.1, hab.1.2]

/-- `(c1 = 9 or c2 = 5 or c3 = 7) and ((c1 = 9 or c2 = 5) and c4 = 1)`, the
    first 9 folded and the second converted. -/
def sampleTree : Tree Equality :=
  .node .and false [
    .node .or false [.leaf false ⟨1, 9, .folded⟩, .leaf false ⟨2, 5, .literal⟩,
      .leaf false ⟨3, 7, .literal⟩],
    .node .and false [
      .node .or false [.leaf false ⟨1, 9, .converted⟩, .leaf false ⟨2, 5, .literal⟩],
      .leaf false ⟨4, 1, .literal⟩]]

/-- `(c1 = 9 or c1 = 9 or c2 = 3) and (c1 = 9 or c2 = 5)`, the three 9 from
    different origins. -/
def ambiguousTree : Tree Equality :=
  .node .and false [
    .node .or false [.leaf false ⟨1, 9, .folded⟩, .leaf false ⟨1, 9, .literal⟩,
      .leaf false ⟨2, 3, .literal⟩],
    .node .or false [.leaf false ⟨1, 9, .converted⟩, .leaf false ⟨2, 5, .literal⟩]]

end CSE

end Altibase.Qmo
