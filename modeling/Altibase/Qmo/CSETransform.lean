/-
  Altibase.Qmo.CSETransform
  ─────────────────────────
  **COMMON SUBEXPRESSION ELIMINATION** (`qmoCSETransform`).

  Predicate trees lose what the idempotent and the absorption law make
  redundant: `A and A`, `A and (A or B)` and their duals.  The argument lists
  are scanned by two nested loops that compare a target with every later
  sibling and delete one of the two where that is possible.

    * `unnestingAndOr4NNF` — an AND below an AND, an OR below an OR dissolved;
    * `compareNode` — which of two siblings can go;
    * `idempotentAndAbsorption` — the nested loops;
    * `removeLogicalNode4NNF` — operators with one argument replaced by it.

  Argument lists are lists; a deletion relinks the neighbours.  The flag of a
  node is here `QTC_NODE_SUBQUERY_EXIST`.  Reading through a null pointer
  fails, as does a recursion that runs out of `fuel`.
-/

import Altibase.Qmo.Formula
import Mathlib.Data.List.Basic

namespace Altibase.Qmo

namespace CSE

variable {α : Type}

/-! ## §1. Comparing two nodes. -/

section Compare

-- `eqv` is `qtc::isEquivalentExpression` for predicates that are neither AND nor OR.
variable (eqv : α → α → Bool)

mutual
/-- `qtc::isEquivalentExpression`: AND and OR are not commutative modules, so
    the arguments are compared pairwise in order. -/
def isEquivalentExpression : Tree α → Tree α → Bool
  | .leaf _ a, .leaf _ b => eqv a b
  | .node op _ args, .node op' _ args' => op = op' && isEquivalentArgs args args'
  | _, _ => false
/-- The arguments, pairwise and to the end of both lists. -/
def isEquivalentArgs : List (Tree α) → List (Tree α) → Bool
  | [], [] => true
  | x :: xs, y :: ys => isEquivalentExpression x y && isEquivalentArgs xs ys
  | _, _ => false
end

/-- `qmoCSECompareResult`: keep both, remove the compared node, or remove the
    target. -/
inductive CompareResult where
  | both
  | win
  | lose
  deriving DecidableEq, Repr

/-- `sArgMatchCnt`: the arguments of the target with an equivalent argument
    of the compared node. -/
def argMatchCnt (targetArgs compareArgs : List (Tree α)) : Nat :=
  targetArgs.countP fun x => compareArgs.any (isEquivalentExpression eqv x)

/-- **`compareNode`**. -/
def compareNode (target compare : Tree α) : CompareResult :=
  if target.mark || compare.mark then .both
  else
    match target, compare with
    | .leaf _ _, .leaf _ _ => if isEquivalentExpression eqv target compare then .win else .both
    | .node _ _ args, .leaf _ _ =>
      if args.any fun x => isEquivalentExpression eqv x compare then .lose else .both
    | .leaf _ _, .node _ _ args =>
      if args.any (isEquivalentExpression eqv target) then .win else .both
    | .node _ _ targetArgs, .node _ _ compareArgs =>
      if argMatchCnt eqv targetArgs compareArgs = targetArgs.length then .win
      else if argMatchCnt eqv targetArgs compareArgs = compareArgs.length then .lose
      else .both

/-! ## §2. The nested loops. -/

/-- The loop over `sCompare`: every later sibling is transformed and compared
    with the target.  Returns whether the target lost, and the siblings that
    are left. -/
def compareLoop (transform : Tree α → Option (Tree α)) (target : Tree α) :
    List (Tree α) → Option (Bool × List (Tree α))
  | [] => some (false, [])
  | compare :: rest => do
    let compare ← transform compare
    match compareNode eqv target compare with
    | .win => compareLoop transform target rest
    | .lose => some (true, compare :: rest)
    | .both => do
      let (lost, rest) ← compareLoop transform target rest
      some (lost, compare :: rest)

/-- The loop over `sTarget`. -/
def targetLoop (transform : Tree α → Option (Tree α)) :
    Nat → List (Tree α) → Option (List (Tree α))
  | _, [] => some []
  | 0, _ :: _ => none
  | fuel + 1, target :: rest => do
    let (lost, rest) ← compareLoop eqv transform target rest
    let rest ← targetLoop transform fuel rest
    some (if lost then rest else target :: rest)

/-- **`idempotentAndAbsorption`**. -/
def idempotentAndAbsorption : Nat → Tree α → Option (Tree α)
  | 0, _ => none
  | _ + 1, .leaf m a => some (.leaf m a)
  | _ + 1, .node op m [] => some (.node op m [])
  | fuel + 1, .node op m (target :: rest) => do
    let target ← idempotentAndAbsorption fuel target
    let args ← targetLoop eqv (idempotentAndAbsorption fuel) (rest.length + 1) (target :: rest)
    some (.node op m args)

end Compare

/-! ## §3. Nested and single operators. -/

/-- The loop of `unnestingAndOr4NNF`: an argument with the operator of the
    node gives way to its own arguments, where the scan goes on.  An operator
    without arguments does not occur here. -/
def unnestLoop (unnest : Tree α → Option (Tree α)) (op : Op) :
    Nat → List (Tree α) → Option (List (Tree α))
  | _, [] => some []
  | 0, _ :: _ => none
  | fuel + 1, node :: rest => do
    let node ← unnest node
    match node with
    | .leaf m a => do
      let rest ← unnestLoop unnest op fuel rest
      some (.leaf m a :: rest)
    | .node op' m args =>
      if op' = op then
        if args = [] then none else unnestLoop unnest op fuel (args ++ rest)
      else do
        let rest ← unnestLoop unnest op fuel rest
        some (.node op' m args :: rest)

/-- **`unnestingAndOr4NNF`**. -/
def unnestingAndOr4NNF : Nat → Tree α → Option (Tree α)
  | 0, _ => none
  | _ + 1, .leaf m a => some (.leaf m a)
  | fuel + 1, .node op m args => do
    let args ← unnestLoop (unnestingAndOr4NNF fuel) op fuel args
    some (.node op m args)

mutual
/-- **`removeLogicalNode4NNF`**: an operator with one argument gives way to
    it.  One without arguments is read through a null pointer. -/
def removeLogicalNode4NNF : Tree α → Option (Tree α)
  | .leaf m a => some (.leaf m a)
  | .node op m args => do
    let args ← removeLogicalNodes args
    match args with
    | [] => none
    | [arg] => some arg
    | args => some (.node op m args)
/-- The loop over the arguments. -/
def removeLogicalNodes : List (Tree α) → Option (List (Tree α))
  | [] => some []
  | t :: ts => do
    let t ← removeLogicalNode4NNF t
    let ts ← removeLogicalNodes ts
    some (t :: ts)
end

/-- **`doTransform`**, for a condition without outer join operator: the three
    steps for a tree before normalization, the second one for a normal form. -/
def doTransform (eqv : α → α → Bool) (aIsNNF : Bool) (fuel : Nat) (node : Tree α) :
    Option (Tree α) :=
  if aIsNNF then do
    let node ← unnestingAndOr4NNF fuel node
    let node ← idempotentAndAbsorption eqv fuel node
    removeLogicalNode4NNF node
  else idempotentAndAbsorption eqv fuel node

/-! ## §4. What the transformation relies on. -/

section Conditions

variable (eqv : α → α → Bool)

/-- An assignment under which equivalent predicates have equal values. -/
def Respects (v : α → Truth) : Prop := ∀ a b, eqv a b = true → v a = v b

mutual
/-- The predicates of a tree below an operator `op`, each with its depth: how
    often the operator changes on the way down to it. -/
def levels : Op → Nat → Tree α → List (Nat × α)
  | _, n, .leaf _ a => [(n, a)]
  | op, n, .node op' _ args => levelss op' (if op' = op then n else n + 1) args
/-- `levels` of each of the arguments. -/
def levelss : Op → Nat → List (Tree α) → List (Nat × α)
  | _, _, [] => []
  | op, n, t :: ts => levels op n t ++ levelss op n ts
end

/-- If two predicates are both equated to a third of their depth, the first is
    equated to the second. -/
def Agree (a b c : Nat × α) : Prop :=
  a.1 = c.1 → b.1 = c.1 → eqv a.2 c.2 = true → eqv b.2 c.2 = true → eqv a.2 b.2 = true

/-- **No predicate of a sibling is there for two of an earlier one.**  With
    two predicates on the earlier side, or one on the later, counting twice
    does no harm. -/
def Unambiguous (xs ys : List (Nat × α)) : Prop :=
  2 < xs.length → 1 < ys.length → xs.Pairwise fun a b => ∀ c ∈ ys, Agree eqv a b c

instance (a b c : Nat × α) : Decidable (Agree eqv a b c) :=
  inferInstanceAs (Decidable (_ → _ → _ → _ → _))

instance (xs ys : List (Nat × α)) : Decidable (Unambiguous eqv xs ys) :=
  inferInstanceAs (Decidable (_ → _ → _))

mutual
/-- The condition for any two arguments of an operator, here and below. -/
def Apart : Tree α → Prop
  | .leaf _ _ => True
  | .node op _ args =>
    args.Pairwise (fun x y => Unambiguous eqv (levels op 0 x) (levels op 0 y)) ∧ Aparts args
/-- `Apart` for each of the arguments. -/
def Aparts : List (Tree α) → Prop
  | [] => True
  | t :: ts => Apart t ∧ Aparts ts
end

mutual
/-- A predicate with a subquery is equated to nothing, and an operator is
    flagged only over a flagged argument. -/
def FlagsSound : Tree α → Prop
  | .leaf m a => m = true → ∀ b, eqv a b = false ∧ eqv b a = false
  | .node _ m args => (m = true → ∃ t ∈ args, t.mark = true) ∧ FlagsSounds args
/-- `FlagsSound` for each of the arguments. -/
def FlagsSounds : List (Tree α) → Prop
  | [] => True
  | t :: ts => FlagsSound t ∧ FlagsSounds ts
end

end Conditions

/-- Not an operator `op`. -/
def IsOther (op : Op) : Tree α → Prop
  | .leaf _ _ => True
  | .node op' _ _ => op' ≠ op

mutual
/-- No operator directly below itself, as in the normal forms. -/
def Alternating : Tree α → Prop
  | .leaf _ _ => True
  | .node op _ args => (∀ t ∈ args, IsOther op t) ∧ Alternatings args
/-- `Alternating` for each of the arguments. -/
def Alternatings : List (Tree α) → Prop
  | [] => True
  | t :: ts => Alternating t ∧ Alternatings ts
end

theorem levelss_eq_flatMap (op : Op) (n : Nat) (ts : List (Tree α)) :
    levelss op n ts = ts.flatMap (levels op n) := by
  induction ts with
  | nil => rfl
  | cons t ts ih => rw [levelss, ih, List.flatMap_cons]

theorem aparts_iff (eqv : α → α → Bool) (ts : List (Tree α)) :
    Aparts eqv ts ↔ ∀ t ∈ ts, Apart eqv t := by
  induction ts with
  | nil => simp [Aparts]
  | cons t ts ih => simp [Aparts, ih]

theorem flagsSounds_iff (eqv : α → α → Bool) (ts : List (Tree α)) :
    FlagsSounds eqv ts ↔ ∀ t ∈ ts, FlagsSound eqv t := by
  induction ts with
  | nil => simp [FlagsSounds]
  | cons t ts ih => simp [FlagsSounds, ih]

theorem alternatings_iff (ts : List (Tree α)) : Alternatings ts ↔ ∀ t ∈ ts, Alternating t := by
  induction ts with
  | nil => simp [Alternatings]
  | cons t ts ih => simp [Alternatings, ih]

end CSE

end Altibase.Qmo
