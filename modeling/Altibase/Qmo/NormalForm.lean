/-
  Altibase.Qmo.NormalForm
  ───────────────────────
  **NORMALIZATION OF PREDICATE TREES** (`qmoNormalForm`), on a heap.

  The optimizer normalizes a `where` clause by building new AND and OR
  nodes, copying the predicates below them and relinking `arguments` and
  `next` pointers in place.  The functions below do the same to a heap of
  `qtcNode`s.  Reading through a null or dangling pointer fails, as does a
  recursion or loop that runs out of `fuel`; allocation always succeeds.

  Every loop of the source is a recursion that carries the loop's own
  pointer variables and rereads the heap where the source does.
-/

import Altibase.Lib.Heap
import Altibase.Qmo.Formula
import Mathlib.Algebra.Group.Nat.Defs

namespace Altibase.Qmo

open Altibase.Lib (lastFrom count)

/-! ## §1. Nodes. -/

/-- What the logical bits of `mtcNode.lflag` say: an operator with
    `MTC_NODE_LOGICAL_CONDITION_TRUE`, or a predicate. -/
inductive Kind where
  | and
  | or
  | not
  | pred
  deriving DecidableEq, Repr

/-- The kind of a logical operator. -/
def Op.kind : Op → Kind
  | .and => .and
  | .or => .or

/-- `MTC_NODE_LOGICAL_CONDITION_TRUE`. -/
def Kind.isLogical (k : Kind) : Bool := k ≠ .pred

/-- **A `qtcNode`**: its kind, the two flags that normalization handles, its
    links, and all else it holds, which is copied with it. -/
structure QtcNode (α : Type) where
  kind : Kind
  cnfUnusable : Bool
  pushedPredForce : Bool
  arguments : Option Nat
  next : Option Nat
  content : Option α
  deriving DecidableEq, Repr

/-- The memory of the optimizer, cell by cell. -/
abbrev Heap (α : Type) := Lib.Heap (QtcNode α)

variable {α : Type}

/-- `qtc::makeNode` for `"AND"` and `"OR"`. -/
def makeNode (op : Op) : QtcNode α := ⟨op.kind, false, false, none, none, none⟩

/-- Stores a new value of `next` in a cell. -/
def setNext (h : Heap α) (p : Nat) (next : Option Nat) : Option (Heap α) := do
  let c ← h.get p
  some (h.set p { c with next })

/-- Stores a new value of `arguments` in a cell. -/
def setArguments (h : Heap α) (p : Nat) (arguments : Option Nat) : Option (Heap α) := do
  let c ← h.get p
  some (h.set p { c with arguments })

/-! ## §2. Merging two normal forms. -/

/-- `addToMerge`: the clauses of `currNF` are linked behind those of
    `prevNF`. -/
def addToMerge (h : Heap α) (prevNF currNF : Nat) : Option (Heap α × Nat) := do
  let p ← h.get prevNF
  let node ← p.arguments
  let last ← lastFrom QtcNode.next h h.size node
  let c ← h.get currNF
  let h ← setNext h last c.arguments
  some (h, prevNF)

/-- `addToMerge2`: `addToMerge` for forms that may be absent. -/
def addToMerge2 (h : Heap α) (prevNF currNF : Option Nat) : Option (Heap α × Option Nat) :=
  match prevNF, currNF with
  | none, curr => some (h, curr)
  | some prev, none => some (h, some prev)
  | some prev, some curr => do
    let (h, nf) ← addToMerge h prev curr
    some (h, some nf)

/-- Links a copied argument below `newNode`, behind the one copied before. -/
def linkArg (h : Heap α) (newNode : Nat) (prevNewArg : Option Nat) (newArg : Nat) :
    Option (Heap α) := do
  let n ← h.get newNode
  match n.arguments with
  | none => setArguments h newNode (some newArg)
  | some _ => do
    let prev ← prevNewArg
    setNext h prev (some newArg)

/-- The loop of `productToMerge` that copies the arguments from `arg` on
    below `newNode`. -/
def copyArgs : Nat → Heap α → Nat → Option Nat → Option Nat → Option (Heap α)
  | _, h, _, _, none => some h
  | 0, _, _, _, some _ => none
  | fuel + 1, h, newNode, prevNewArg, some arg => do
    let a ← h.get arg
    let newArg := h.size
    let h := h.alloc { a with next := none }
    let h ← linkArg h newNode prevNewArg newArg
    let a ← h.get arg
    copyArgs fuel h newNode (some newArg) a.next

/-- The loop over `j` that copies the clauses from `node` on behind
    `lastNode`. -/
def copyNodes : Nat → Heap α → Option Nat → Nat → Option (Heap α × Nat)
  | 0, h, _, lastNode => some (h, lastNode)
  | j + 1, h, node, lastNode => do
    let p ← node
    let c ← h.get p
    let newNode := h.size
    let h := h.alloc { c with arguments := none, next := none }
    let h ← copyArgs h.size h newNode none c.arguments
    let h ← setNext h lastNode (some newNode)
    let c ← h.get p
    copyNodes j h c.next newNode

/-- The loop over `i` that replicates the clauses of `prevNF`. -/
def copyRounds : Nat → Heap α → Nat → Nat → Option Nat → Option (Heap α)
  | 0, h, _, _, _ => some h
  | i + 1, h, prevNF, prevCnt, lastNode => do
    let node ← lastNode
    let last ← lastFrom QtcNode.next h h.size node
    let p ← h.get prevNF
    let (h, last) ← copyNodes prevCnt h p.arguments last
    copyRounds i h prevNF prevCnt (some last)

/-- The loop that appends copies of the arguments from `arg` on behind
    `lastArg`. -/
def appendArgs : Nat → Heap α → Nat → Option Nat → Option (Heap α)
  | _, h, _, none => some h
  | 0, _, _, some _ => none
  | fuel + 1, h, lastArg, some arg => do
    let a ← h.get arg
    let newArg := h.size
    let h := h.alloc { a with next := none }
    let h ← setNext h lastArg (some newArg)
    let a ← h.get arg
    appendArgs fuel h newArg a.next

/-- The loop over `j` that extends `prevCnt` clauses from `lastNode` on by
    the arguments of `node`. -/
def extendNodes : Nat → Heap α → Nat → Option Nat → Option (Heap α × Option Nat)
  | 0, h, _, lastNode => some (h, lastNode)
  | j + 1, h, node, lastNode => do
    let p ← lastNode
    let c ← h.get p
    let arg ← c.arguments
    let lastArg ← lastFrom QtcNode.next h h.size arg
    let n ← h.get node
    let h ← appendArgs h.size h lastArg n.arguments
    let c ← h.get p
    extendNodes j h node c.next

/-- The loop over `i` along the clauses of `currNF`. -/
def extendRounds : Nat → Heap α → Nat → Option Nat → Option Nat → Option (Heap α)
  | 0, h, _, _, _ => some h
  | i + 1, h, prevCnt, node, lastNode => do
    let n ← node
    let (h, lastNode) ← extendNodes prevCnt h n lastNode
    let c ← h.get n
    extendRounds i h prevCnt c.next lastNode

/-- **`productToMerge`**: the distribution step.  The clauses of `prevNF`
    are replicated once for every further clause of `currNF`; then each
    block is extended by the arguments of one clause. -/
def productToMerge (h : Heap α) (prevNF currNF : Nat) : Option (Heap α × Nat) := do
  let p ← h.get prevNF
  let prevCnt ← count QtcNode.next h h.size p.arguments
  let c ← h.get currNF
  let currCnt ← count QtcNode.next h h.size c.arguments
  let h ← copyRounds (currCnt - 1) h prevNF prevCnt p.arguments
  let p ← h.get prevNF
  let c ← h.get currNF
  let h ← extendRounds currCnt h prevCnt c.arguments p.arguments
  some (h, prevNF)

/-- `productToMerge` as `makeCNF` calls it; a form that is absent is read
    through a null pointer. -/
def productToMergeCNF (h : Heap α) (prevNF currNF : Option Nat) :
    Option (Heap α × Option Nat) := do
  let prev ← prevNF
  let curr ← currNF
  let (h, nf) ← productToMerge h prev curr
  some (h, some nf)

/-! ## §3. `makeDNF` and `makeCNF`. -/

/-- The loop over the arguments after the first: each is converted by
    `make` and merged into the form so far. -/
def mergeArgs {R : Type} (make : Heap α → Nat → Option (Heap α × R))
    (merge : Heap α → R → R → Option (Heap α × R)) :
    Nat → Heap α → R → Option Nat → Option (Heap α × R)
  | _, h, prevNF, none => some (h, prevNF)
  | 0, _, _, some _ => none
  | fuel + 1, h, prevNF, some arg => do
    let (h, currNF) ← make h arg
    let (h, nf) ← merge h prevNF currNF
    let a ← h.get arg
    mergeArgs make merge fuel h nf a.next

/-- A terminal predicate: an outer node over an inner node over a copy of
    the predicate. -/
def makeTerminal (outer : Op) (force : Bool) (h : Heap α) (c : QtcNode α) : Heap α × Nat :=
  let nf := h.size
  let h := h.alloc { (makeNode outer : QtcNode α) with arguments := some (nf + 1) }
  let h := h.alloc { (makeNode outer.dual : QtcNode α) with
    pushedPredForce := force, arguments := some (nf + 2) }
  let h := h.alloc { c with next := none }
  (h, nf)

/-- **`makeDNF`**. -/
def makeDNF : Nat → Heap α → Nat → Option (Heap α × Nat)
  | 0, _, _ => none
  | fuel + 1, h, node => do
    let c ← h.get node
    match c.kind with
    | .and => do
      let arg ← c.arguments
      let (h, prevDNF) ← makeDNF fuel h arg
      let a ← h.get arg
      mergeArgs (makeDNF fuel) productToMerge fuel h prevDNF a.next
    | .or => do
      let arg ← c.arguments
      let (h, prevDNF) ← makeDNF fuel h arg
      let a ← h.get arg
      mergeArgs (makeDNF fuel) addToMerge fuel h prevDNF a.next
    | _ => some (makeTerminal .or false h c)

/-- The flag `MTC_NODE_PUSHED_PRED_FORCE` of a node is handed to its first
    argument. -/
def pushForce (h : Heap α) (c : QtcNode α) : Option (Heap α) :=
  if c.pushedPredForce then do
    let arg ← c.arguments
    let a ← h.get arg
    some (h.set arg { a with pushedPredForce := true })
  else some h

/-- **`makeCNF`**; the result is absent where nodes are excluded. -/
def makeCNF : Nat → Heap α → Nat → Option (Heap α × Option Nat)
  | 0, _, _ => none
  | fuel + 1, h, node => do
    let c ← h.get node
    if c.cnfUnusable then some (h, none)
    else
      match c.kind with
      | .and => do
        let h ← pushForce h c
        let arg ← c.arguments
        let (h, prevCNF) ← makeCNF fuel h arg
        let a ← h.get arg
        -- the clauses of the arguments behind each other
        mergeArgs (makeCNF fuel) addToMerge2 fuel h prevCNF a.next
      | .or => do
        let h ← pushForce h c
        let arg ← c.arguments
        let (h, prevCNF) ← makeCNF fuel h arg
        let a ← h.get arg
        -- the product of the arguments' clauses
        mergeArgs (makeCNF fuel) productToMergeCNF fuel h prevCNF a.next
      | _ =>
        let (h, nf) := makeTerminal .and c.pushedPredForce h c
        some (h, some nf)

/-! ## §4. Partial normalization. -/

/-- `UINT_MAX`. -/
def uintMax : Nat := 2 ^ 32 - 1

/-- Sets `MTC_NODE_PARTIAL_NORMALIZE_CNF_UNUSABLE`. -/
def setUnusable (h : Heap α) (p : Nat) : Option (Heap α) := do
  let c ← h.get p
  some (h.set p { c with cnfUnusable := true })

/-- The argument loop of `estimatePartialCNF` below an OR: `count` is the
    product so far and `args` the number of arguments met.  The counters
    are exact: a `double` is compared with the limit before it can round. -/
def estimateOr (estimate : Heap α → Nat → Option (Heap α × Nat)) (root max : Nat) :
    Nat → Heap α → Nat → Nat → Option Nat → Option (Heap α × Nat)
  | _, h, count, args, none => some (h, count * args)
  | 0, _, _, _, some _ => none
  | fuel + 1, h, count, args, some arg => do
    let args := args + 1
    let (h, child) ← estimate h arg
    let count := count * child
    if count * args > max then do
      let h ← setUnusable h root
      some (h, count * args)
    else do
      let a ← h.get arg
      estimateOr estimate root max fuel h count args a.next

/-- The argument loop below an AND. -/
def estimateAnd (estimate : Heap α → Nat → Option (Heap α × Nat)) (root max : Nat) :
    Nat → Heap α → Nat → Option Nat → Option (Heap α × Nat)
  | _, h, count, none => some (h, count)
  | 0, _, _, some _ => none
  | fuel + 1, h, count, some arg => do
    let (h, child) ← estimate h arg
    let count := count + child
    if count > max then do
      let h ← setUnusable h root
      some (h, count)
    else do
      let a ← h.get arg
      estimateAnd estimate root max fuel h count a.next

/-- **`estimatePartialCNF`**: the number of predicates of the CNF, and a
    mark on the topmost OR (or the AND that no OR is above) where it would
    exceed the limit. -/
def estimatePartialCNF : Nat → Heap α → Nat → Option Nat → Nat → Option (Heap α × Nat)
  | 0, _, _, _, _ => none
  | fuel + 1, h, node, root, max => do
    let c ← h.get node
    let (h, count) ← match c.kind with
      | .or =>
        let root := root.getD node
        estimateOr (fun h arg => estimatePartialCNF fuel h arg (some root) max) root max fuel h
          1 0 c.arguments
      | .and =>
        estimateAnd (fun h arg => estimatePartialCNF fuel h arg root max) (root.getD node) max
          fuel h 0 c.arguments
      | _ => some (h, 1)
    let c ← h.get node
    let count := if c.cnfUnusable then 0 else count
    some (h, min count uintMax)

/-- The loop of `copyNodeTree` that copies the arguments from `arg` on
    behind `cursor`. -/
def copyNexts (copy : Heap α → Nat → Option (Heap α × Nat)) :
    Nat → Heap α → Nat → Option Nat → Option (Heap α)
  | _, h, _, none => some h
  | 0, _, _, some _ => none
  | fuel + 1, h, cursor, some arg => do
    let (h, node) ← copy h arg
    let h ← setNext h cursor (some node)
    let a ← h.get arg
    copyNexts copy fuel h node a.next

/-- `copyNodeTree`. -/
def copyNodeTree : Nat → Heap α → Nat → Option (Heap α × Nat)
  | 0, _, _ => none
  | fuel + 1, h, node => do
    let c ← h.get node
    let tree := h.size
    let h := h.alloc { c with next := none }
    if c.kind.isLogical then do
      let arg ← c.arguments
      let (h, first) ← copyNodeTree fuel h arg
      let h ← setArguments h tree (some first)
      let a ← h.get arg
      let h ← copyNexts (copyNodeTree fuel) fuel h first a.next
      some (h, tree)
    else some (h, tree)

/-- **`makeNNF4CNFByCopyNodeTree`**: a copy of the excluded nodes. -/
def makeNNF4CNFByCopyNodeTree : Nat → Heap α → Nat → Option (Heap α × Option Nat)
  | 0, _, _ => none
  | fuel + 1, h, node => do
    let c ← h.get node
    if c.cnfUnusable then do
      let nnf := h.size
      let h := h.alloc (makeNode .and)
      let (h, copy) ← copyNodeTree fuel h node
      let h ← setArguments h nnf (some copy)
      some (h, some nnf)
    else
      match c.kind with
      | .and => do
        let arg ← c.arguments
        let (h, nnf) ← makeNNF4CNFByCopyNodeTree fuel h arg
        let a ← h.get arg
        mergeArgs (makeNNF4CNFByCopyNodeTree fuel) addToMerge2 fuel h nnf a.next
      | _ => some (h, none)

/-- **`extractNNFFilter4CNF`**: the filter for what the CNF leaves out. -/
def extractNNFFilter4CNF (fuel : Nat) (h : Heap α) (node : Nat) :
    Option (Heap α × Option Nat) := do
  let c ← h.get node
  if c.cnfUnusable then some (h, some node)
  else makeNNF4CNFByCopyNodeTree fuel h node

end Altibase.Qmo
