/-
  Altibase.Qmo.Formula
  ────────────────────
  **AND/OR TREES, THEIR VALUES AND THEIR NORMAL FORMS.**

  What a `where` clause and its normal forms mean.  Values live in any
  bounded distributive lattice; SQL's TRUE, UNKNOWN and FALSE with Kleene's
  connectives are one.

    * `Tree` — AND/OR trees of predicates, each node with the mark by which
      it is excluded from a normal form;
    * `nf` — the clauses of the normal form whose outer operator is given:
      AND of ORs or OR of ANDs;
    * `nfValue_nf` — a normal form has the value of its tree.
-/

import Mathlib.Order.Lattice
import Mathlib.Order.BoundedOrder.Lattice

namespace Altibase.Qmo

/-! ## §1. Operators and values. -/

/-- The two logical operators of normal forms. -/
inductive Op where
  | and
  | or
  deriving DecidableEq, Repr

namespace Op

/-- The operator that De Morgan's laws exchange with it. -/
def dual : Op → Op
  | and => or
  | or => and

/-- The operator on two values. -/
def app {L : Type*} [Lattice L] : Op → L → L → L
  | and, a, b => a ⊓ b
  | or, a, b => a ⊔ b

section Distributive

variable {L : Type*} [DistribLattice L]

/-- Both operators are associative, -/
theorem app_assoc (op : Op) (a b c : L) : op.app (op.app a b) c = op.app a (op.app b c) := by
  cases op
  · exact inf_assoc a b c
  · exact sup_assoc a b c

/-- Each operator distributes over the other. -/
theorem dual_app_app (op : Op) (a b c : L) :
    op.dual.app a (op.app b c) = op.app (op.dual.app a b) (op.dual.app a c) := by
  cases op
  · exact sup_inf_left a b c
  · exact inf_sup_left a b c

/-- distribute over each other, -/
theorem app_dual_app (op : Op) (a b c : L) :
    op.dual.app (op.app a b) c = op.app (op.dual.app a c) (op.dual.app b c) := by
  cases op
  · exact sup_inf_right a b c
  · exact inf_sup_right a b c

/-- are commutative, -/
theorem app_comm (op : Op) (a b : L) : op.app a b = op.app b a := by
  cases op
  · exact inf_comm a b
  · exact sup_comm a b

/-- and idempotent. -/
theorem app_self (op : Op) (a : L) : op.app a a = a := by
  cases op
  · exact inf_idem a
  · exact sup_idem a

/-- **Absorption.** -/
theorem app_dual_self (op : Op) (a b : L) : op.app a (op.dual.app a b) = a := by
  cases op
  · exact inf_sup_self
  · exact sup_inf_self

end Distributive

section Combine

variable {L : Type*} [DistribLattice L] [BoundedOrder L]

/-- The value of the operator without arguments. -/
def unit : Op → L
  | and => ⊤
  | or => ⊥

/-- The operator on a list of values. -/
def combine (op : Op) (l : List L) : L := l.foldr op.app op.unit

@[simp] theorem combine_nil (op : Op) : op.combine ([] : List L) = op.unit := rfl

@[simp] theorem combine_cons (op : Op) (a : L) (l : List L) :
    op.combine (a :: l) = op.app a (op.combine l) := rfl

/-- The empty list is neutral on the left, -/
theorem app_unit_left (op : Op) (a : L) : op.app op.unit a = a := by
  cases op
  · exact top_inf_eq a
  · exact bot_sup_eq a

/-- and on the right, -/
theorem app_unit_right (op : Op) (a : L) : op.app a op.unit = a := by
  cases op
  · exact inf_top_eq a
  · exact sup_bot_eq a

/-- The unit of one operator absorbs under the other. -/
theorem dual_app_unit (op : Op) (a : L) : op.dual.app a op.unit = op.unit := by
  cases op
  · exact sup_top_eq a
  · exact inf_bot_eq a

/-- and absorbs for the other operator. -/
theorem unit_dual_app (op : Op) (a : L) : op.dual.app op.unit a = op.unit := by
  cases op
  · exact top_sup_eq a
  · exact bot_inf_eq a

/-- Two lists in a row. -/
theorem combine_append (op : Op) (l m : List L) :
    op.combine (l ++ m) = op.app (op.combine l) (op.combine m) := by
  induction l with
  | nil => exact (app_unit_left op (op.combine m)).symm
  | cons a l ih =>
    show op.app a (op.combine (l ++ m)) = op.app (op.app a (op.combine l)) (op.combine m)
    rw [ih, app_assoc]

/-- An operand that is there already changes nothing. -/
theorem app_combine_of_mem (op : Op) {a : L} {l : List L} (ha : a ∈ l) :
    op.app a (op.combine l) = op.combine l := by
  induction l with
  | nil => exact absurd ha List.not_mem_nil
  | cons b l ih =>
    rw [combine_cons]
    rcases List.mem_cons.mp ha with rfl | hmem
    · rw [← app_assoc, app_self]
    · rw [← app_assoc, app_comm op a b, app_assoc, ih hmem]

/-- A list that contains another one takes it in. -/
theorem app_combine_of_subset (op : Op) {l m : List L} (h : ∀ a ∈ l, a ∈ m) :
    op.app (op.combine l) (op.combine m) = op.combine m := by
  induction l with
  | nil => exact app_unit_left op _
  | cons a l ih =>
    rw [combine_cons, app_assoc, ih fun b hb => h b (List.mem_cons_of_mem a hb)]
    exact app_combine_of_mem op (h a List.mem_cons_self)

/-- An operand absorbs a combination by the other operator that contains it. -/
theorem app_dual_combine_of_mem (op : Op) {a : L} {l : List L} (ha : a ∈ l) :
    op.app a (op.dual.combine l) = a := by
  rw [← app_combine_of_mem op.dual ha]
  exact app_dual_self op a _

/-- A combination by the other operator absorbs one of more operands. -/
theorem app_dual_combine_of_subset (op : Op) {l m : List L} (h : ∀ a ∈ l, a ∈ m) :
    op.app (op.dual.combine l) (op.dual.combine m) = op.dual.combine l := by
  rw [← app_combine_of_subset op.dual h]
  exact app_dual_self op _ _

end Combine

end Op

/-! ## §2. Trees. -/

/-- **An AND/OR tree of predicates.**  The flag of a node is its
    `MTC_NODE_PARTIAL_NORMALIZE_CNF_UNUSABLE` mark. -/
inductive Tree (α : Type) where
  | leaf (unusable : Bool) (pred : α)
  | node (op : Op) (unusable : Bool) (args : List (Tree α))

namespace Tree

variable {α : Type}

/-- Induction over trees: a property that passes from the arguments of a
    node to the node holds of every tree. -/
theorem induct {P : Tree α → Prop} (leaf : ∀ m a, P (.leaf m a))
    (node : ∀ op m args, (∀ t ∈ args, P t) → P (.node op m args)) : ∀ t, P t := by
  apply @Tree.rec α P (fun args => ∀ t ∈ args, P t)
  · exact leaf
  · exact node
  · intro t ht
    exact absurd ht List.not_mem_nil
  · intro t args iht ihargs s hs
    rcases List.mem_cons.mp hs with rfl | hmem
    · exact iht
    · exact ihargs s hmem

mutual
/-- The value of a tree under an assignment to its predicates. -/
def eval {L : Type*} [DistribLattice L] [BoundedOrder L] (v : α → L) : Tree α → L
  | .leaf _ a => v a
  | .node op _ args => op.combine (evals v args)
/-- The values of the arguments. -/
def evals {L : Type*} [DistribLattice L] [BoundedOrder L] (v : α → L) : List (Tree α) → List L
  | [] => []
  | t :: ts => eval v t :: evals v ts
end

mutual
/-- Every AND and OR has an argument. -/
def Proper : Tree α → Prop
  | .leaf _ _ => True
  | .node _ _ args => args ≠ [] ∧ Propers args
/-- `Proper` for each of the arguments. -/
def Propers : List (Tree α) → Prop
  | [] => True
  | t :: ts => Proper t ∧ Propers ts
end

mutual
/-- No node is marked. -/
def Unmarked : Tree α → Prop
  | .leaf m _ => m = false
  | .node _ m args => m = false ∧ Unmarkeds args
/-- `Unmarked` for each of the arguments. -/
def Unmarkeds : List (Tree α) → Prop
  | [] => True
  | t :: ts => Unmarked t ∧ Unmarkeds ts
end

/-- The mark of the root. -/
def mark : Tree α → Bool
  | .leaf m _ => m
  | .node _ m _ => m

mutual
/-- Marks exclude whole conjuncts only: below an OR that is not itself
    excluded no node is marked. -/
def WellMarked : Tree α → Prop
  | .leaf _ _ => True
  | .node .and _ args => WellMarkeds args
  | .node .or m args => m = true ∨ Unmarkeds args
/-- `WellMarked` for each of the arguments. -/
def WellMarkeds : List (Tree α) → Prop
  | [] => True
  | t :: ts => WellMarked t ∧ WellMarkeds ts
end

mutual
/-- The predicates of a tree, from left to right. -/
def leaves : Tree α → List α
  | .leaf _ a => [a]
  | .node _ _ args => leavess args
/-- The predicates of the arguments. -/
def leavess : List (Tree α) → List α
  | [] => []
  | t :: ts => leaves t ++ leavess ts
end

mutual
/-- The number of nodes. -/
def size : Tree α → Nat
  | .leaf _ _ => 1
  | .node _ _ args => 1 + sizes args
/-- The nodes of the arguments. -/
def sizes : List (Tree α) → Nat
  | [] => 0
  | t :: ts => size t + sizes ts
end

/-- The values of a list are the values of its trees. -/
theorem evals_eq_map {L : Type*} [DistribLattice L] [BoundedOrder L] (v : α → L)
    (ts : List (Tree α)) : evals v ts = ts.map (eval v) := by
  induction ts with
  | nil => rfl
  | cons t ts ih => simp [evals, ih]

/-- A list is proper if its trees are, -/
theorem propers_iff (ts : List (Tree α)) : Propers ts ↔ ∀ t ∈ ts, t.Proper := by
  induction ts with
  | nil => simp [Propers]
  | cons t ts ih => simp [Propers, ih]

/-- unmarked if its trees are, -/
theorem unmarkeds_iff (ts : List (Tree α)) : Unmarkeds ts ↔ ∀ t ∈ ts, t.Unmarked := by
  induction ts with
  | nil => simp [Unmarkeds]
  | cons t ts ih => simp [Unmarkeds, ih]

/-- and well marked if they are. -/
theorem wellMarkeds_iff (ts : List (Tree α)) : WellMarkeds ts ↔ ∀ t ∈ ts, t.WellMarked := by
  induction ts with
  | nil => simp [WellMarkeds]
  | cons t ts ih => simp [WellMarkeds, ih]

/-- A tree has a node. -/
theorem size_pos (t : Tree α) : 0 < t.size := by
  cases t with
  | leaf m a => exact Nat.one_pos
  | node op m args =>
    unfold size
    omega

/-- A list has no more trees than nodes, -/
theorem length_le_sizes (ts : List (Tree α)) : ts.length ≤ sizes ts := by
  induction ts with
  | nil => exact Nat.le_refl 0
  | cons t ts ih =>
    have ht := t.size_pos
    simp only [List.length_cons, sizes]
    omega

/-- and each tree no more nodes than the list. -/
theorem size_le_sizes {ts : List (Tree α)} {t : Tree α} (h : t ∈ ts) : t.size ≤ sizes ts := by
  induction ts with
  | nil => exact absurd h List.not_mem_nil
  | cons s ts ih =>
    simp only [sizes]
    rcases List.mem_cons.mp h with rfl | hmem
    · omega
    · have hle := ih hmem
      omega

/-- A tree without marks is well marked. -/
theorem Unmarked.wellMarked : ∀ {t : Tree α}, t.Unmarked → t.WellMarked := by
  intro t
  induction t using Tree.induct with
  | leaf m a =>
    intro _
    trivial
  | node op m args ih =>
    intro h
    cases op with
    | and =>
      show WellMarkeds args
      rw [wellMarkeds_iff]
      intro t ht
      exact ih t ht ((unmarkeds_iff args).mp h.2 t ht)
    | or => exact Or.inr h.2

end Tree

/-! ## §3. Clauses. -/

section Clauses

variable {α : Type}

/-- The clauses of a distribution: for each clause of the second form every
    clause of the first, extended by it. -/
def product (prev curr : List (List α)) : List (List α) :=
  curr.flatMap fun c => prev.map (· ++ c)

/-- `xs` combined from the left by `f`. -/
def foldOnto {β : Type*} (f : β → β → β) (empty : β) : List β → β
  | [] => empty
  | x :: xs => xs.foldl f x

mutual
/-- **The clauses of a normal form** with outer operator `outer`.  With
    `marks`, excluded nodes contribute no clause. -/
def nf (outer : Op) (marks : Bool) : Tree α → List (List α)
  | .leaf m a => if marks && m then [] else [[a]]
  | .node op m args =>
    if marks && m then []
    else if op = outer then foldOnto (· ++ ·) [] (nfs outer marks args)
    else foldOnto product [] (nfs outer marks args)
/-- The clauses of each of the arguments. -/
def nfs (outer : Op) (marks : Bool) : List (Tree α) → List (List (List α))
  | [] => []
  | t :: ts => nf outer marks t :: nfs outer marks ts
end

/-- The clauses of the disjunctive normal form. -/
def dnf (t : Tree α) : List (List α) := nf .or false t

/-- The clauses of the conjunctive normal form without the excluded nodes;
    no clause at all stands for an absent form. -/
def cnf (t : Tree α) : List (List α) := nf .and true t

/-- The normal forms of a list are those of its trees. -/
theorem nfs_eq_map (outer : Op) (marks : Bool) (ts : List (Tree α)) :
    nfs outer marks ts = ts.map (nf outer marks) := by
  induction ts with
  | nil => rfl
  | cons t ts ih => simp [nfs, ih]

/-- One more clause on the right is put behind each on the left. -/
theorem product_cons (prev : List (List α)) (c : List α) (curr : List (List α)) :
    product prev (c :: curr) = prev.map (· ++ c) ++ product prev curr := by
  simp [product]

/-- A product has as many clauses as pairs. -/
theorem product_length (prev curr : List (List α)) :
    (product prev curr).length = curr.length * prev.length := by
  induction curr with
  | nil => simp [product]
  | cons c curr ih =>
    rw [product_cons, List.length_append, ih, List.length_map, List.length_cons, Nat.succ_mul,
      Nat.add_comm]

variable {L : Type*} [DistribLattice L] [BoundedOrder L] (v : α → L)

/-- The value of clauses under the outer operator. -/
def nfValue (outer : Op) (clauses : List (List α)) : L :=
  outer.combine (clauses.map fun c => outer.dual.combine (c.map v))

/-- The clauses of two normal forms. -/
theorem nfValue_append (outer : Op) (a b : List (List α)) :
    nfValue v outer (a ++ b) = outer.app (nfValue v outer a) (nfValue v outer b) := by
  unfold nfValue
  rw [List.map_append, Op.combine_append]

/-- Extending every clause by `c`. -/
theorem nfValue_map_append (outer : Op) (prev : List (List α)) (c : List α) :
    nfValue v outer (prev.map (· ++ c))
      = outer.dual.app (nfValue v outer prev) (outer.dual.combine (c.map v)) := by
  induction prev with
  | nil => exact (Op.unit_dual_app outer _).symm
  | cons p prev ih =>
    calc nfValue v outer ((p :: prev).map (· ++ c))
        = outer.app (outer.dual.combine ((p ++ c).map v))
            (nfValue v outer (prev.map (· ++ c))) := rfl
      _ = outer.app (outer.dual.app (outer.dual.combine (p.map v)) (outer.dual.combine (c.map v)))
            (outer.dual.app (nfValue v outer prev) (outer.dual.combine (c.map v))) := by
          rw [ih, List.map_append, Op.combine_append]
      _ = outer.dual.app (nfValue v outer (p :: prev)) (outer.dual.combine (c.map v)) :=
          (Op.app_dual_app outer _ _ _).symm

/-- **Distribution**: the product of two forms has the value of the dual
    operator on theirs. -/
theorem nfValue_product (outer : Op) (prev curr : List (List α)) :
    nfValue v outer (product prev curr)
      = outer.dual.app (nfValue v outer prev) (nfValue v outer curr) := by
  induction curr with
  | nil => exact (Op.dual_app_unit outer _).symm
  | cons c curr ih =>
    rw [product_cons, nfValue_append, nfValue_map_append, ih]
    exact (Op.dual_app_app outer _ _ _).symm

/-- A fold from the left with a step that acts as `op` on values. -/
theorem value_foldl (outer op : Op) (f : List (List α) → List (List α) → List (List α))
    (hf : ∀ a b, nfValue v outer (f a b) = op.app (nfValue v outer a) (nfValue v outer b))
    (xs : List (List (List α))) : ∀ x,
      nfValue v outer (xs.foldl f x)
        = op.app (nfValue v outer x) (op.combine (xs.map (nfValue v outer))) := by
  induction xs with
  | nil =>
    intro x
    exact (Op.app_unit_right op _).symm
  | cons y xs ih =>
    intro x
    rw [List.foldl_cons, ih, hf, Op.app_assoc]
    rfl

/-- **A fold over normal forms** has the value of its operator. -/
theorem value_foldOnto (outer op : Op) (f : List (List α) → List (List α) → List (List α))
    (hf : ∀ a b, nfValue v outer (f a b) = op.app (nfValue v outer a) (nfValue v outer b))
    {xs : List (List (List α))} (hne : xs ≠ []) :
    nfValue v outer (foldOnto f [] xs) = op.combine (xs.map (nfValue v outer)) := by
  cases xs with
  | nil => exact absurd rfl hne
  | cons x xs => exact value_foldl v outer op f hf xs x

/-- There are two operators. -/
theorem op_eq_dual {op outer : Op} (h : op ≠ outer) : op = outer.dual := by
  cases op <;> cases outer <;> first | rfl | exact absurd rfl h

/-- **A normal form has the value of its tree**, when marks are ignored or
    there are none. -/
theorem nfValue_nf (outer : Op) (marks : Bool) :
    ∀ t : Tree α, t.Proper → (marks = true → t.Unmarked) →
      nfValue v outer (nf outer marks t) = t.eval v := by
  intro t
  induction t using Tree.induct with
  | leaf m a =>
    intro _ hm
    -- a tree without marks excludes nothing
    have hoff : (marks && m) = false := by
      cases hmarks : marks with
      | false => rfl
      | true => exact hm hmarks
    unfold nf
    rw [hoff]
    show outer.app (outer.dual.app (v a) outer.dual.unit) outer.unit = v a
    rw [Op.app_unit_right, Op.app_unit_right]
  | node op m args ih =>
    intro hp hm
    have hoff : (marks && m) = false := by
      cases hmarks : marks with
      | false => rfl
      | true => exact (hm hmarks).1
    have hargs : (nfs outer marks args).map (nfValue v outer) = Tree.evals v args := by
      rw [nfs_eq_map, Tree.evals_eq_map, List.map_map]
      apply List.map_congr_left
      intro t ht
      exact ih t ht ((Tree.propers_iff args).mp hp.2 t ht)
        fun h => (Tree.unmarkeds_iff args).mp (hm h).2 t ht
    have hne : nfs outer marks args ≠ [] := by
      rw [nfs_eq_map]
      simpa using hp.1
    unfold nf
    rw [hoff, if_neg Bool.false_ne_true]
    show _ = op.combine (Tree.evals v args)
    rw [← hargs]
    -- under the outer operator the clauses add up, under the other one they multiply
    split_ifs with hop
    · rw [hop]
      exact value_foldOnto v outer outer _ (nfValue_append v outer) hne
    · rw [op_eq_dual hop]
      exact value_foldOnto v outer outer.dual _ (nfValue_product v outer) hne

end Clauses

/-! ## §4. Three-valued logic. -/

/-- The truth values of SQL. -/
inductive Truth where
  | false
  | unknown
  | true
  deriving DecidableEq, Repr

namespace Truth

/-- Kleene's conjunction. -/
def and : Truth → Truth → Truth
  | true, b => b
  | false, _ => false
  | unknown, false => false
  | unknown, _ => unknown

/-- Kleene's disjunction. -/
def or : Truth → Truth → Truth
  | false, b => b
  | true, _ => true
  | unknown, true => true
  | unknown, _ => unknown

instance : Max Truth := ⟨or⟩

instance : Min Truth := ⟨and⟩

instance : Lattice Truth :=
  Lattice.mk'
    (by intro a b; cases a <;> cases b <;> rfl)
    (by intro a b c; cases a <;> cases b <;> cases c <;> rfl)
    (by intro a b; cases a <;> cases b <;> rfl)
    (by intro a b c; cases a <;> cases b <;> cases c <;> rfl)
    (by intro a b; cases a <;> cases b <;> rfl)
    (by intro a b; cases a <;> cases b <;> rfl)

instance : DistribLattice Truth :=
  DistribLattice.ofInfSupLe
    (by intro a b c; cases a <;> cases b <;> cases c <;> exact le_refl _)

instance : BoundedOrder Truth where
  top := true
  bot := false
  le_top a := by cases a <;> rfl
  bot_le a := by cases a <;> rfl

end Truth

end Altibase.Qmo
