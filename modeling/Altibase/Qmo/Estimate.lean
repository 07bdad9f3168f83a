/-
  Altibase.Qmo.Estimate
  ─────────────────────
  **THE ESTIMATES BOUND THE NORMAL FORMS** (`estimateDNF`, `estimateCNF`).

  Before it normalizes, the optimizer estimates how many predicates the
  normal form would have, and gives up where the estimate exceeds a limit.
  One number stands for the clauses and for the predicates of a subtree.

    * `leafCount_product` — the predicates of a product;
    * `estimateNF_spec` — an estimate bounds both numbers, or it is
      `UINT_MAX`;
    * `estimates_bound` — below a limit under `UINT_MAX` only forms within
      the limit are built;
    * `estimates_admit_more` — at the limit `UINT_MAX` larger ones are too.
-/

import Altibase.Qmo.Convert
import Mathlib.Algebra.GroupWithZero.Nat

namespace Altibase.Qmo

variable {α : Type}

/-! ## §1. The source. -/

/-- The argument loop of the operator that is distributed: `count` is the
    product so far, `nnfCount` the number of arguments met.  `sCount` is a
    `double`; a product that it would round is far above `UINT_MAX`, and so
    is the rounded one. -/
def estimateProduct (estimate : Nat → Option Nat) (h : Heap α) :
    Nat → Nat → Nat → Option Nat → Option Nat
  | _, count, nnfCount, none => some (count * nnfCount)
  | 0, _, _, some _ => none
  | fuel + 1, count, nnfCount, some arg => do
    let nnfCount := nnfCount + 1
    let childCount ← estimate arg
    if nnfCount ≠ 0 ∧ count ≥ uintMax / 2 then some uintMax
    else do
      let a ← h.get arg
      estimateProduct estimate h fuel (count * childCount) nnfCount a.next

/-- The argument loop of the outer operator. -/
def estimateSum (estimate : Nat → Option Nat) (h : Heap α) : Nat → Nat → Option Nat → Option Nat
  | _, count, none => some count
  | 0, _, some _ => none
  | fuel + 1, count, some arg => do
    let nnfCount ← estimate arg
    if nnfCount ≠ 0 ∧ count ≥ uintMax / 2 then some uintMax
    else do
      let a ← h.get arg
      estimateSum estimate h fuel (count + nnfCount) a.next

/-- **The estimate** for the form with outer operator `outer`. -/
def estimateNF (outer : Op) : Nat → Heap α → Nat → Option Nat
  | 0, _, _ => none
  | fuel + 1, h, node => do
    let c ← h.get node
    let count ← (if c.kind = outer.dual.kind then
        estimateProduct (estimateNF outer fuel h) h fuel 1 0 c.arguments
      else if c.kind = outer.kind then
        estimateSum (estimateNF outer fuel h) h fuel 0 c.arguments
      else some 1 : Option Nat)
    some (if count ≥ uintMax then uintMax else count)

/-- `estimateDNF`. -/
def estimateDNF (fuel : Nat) (h : Heap α) (node : Nat) : Option Nat := estimateNF .or fuel h node

/-- `estimateCNF`. -/
def estimateCNF (fuel : Nat) (h : Heap α) (node : Nat) : Option Nat := estimateNF .and fuel h node

/-! ## §2. Counting predicates. -/

/-- The predicates in the clauses of a form. -/
def leafCount (cs : List (List α)) : Nat := (cs.map List.length).sum

@[simp] theorem leafCount_nil : leafCount ([] : List (List α)) = 0 := rfl

@[simp] theorem leafCount_cons (c : List α) (cs : List (List α)) :
    leafCount (c :: cs) = c.length + leafCount cs := rfl

/-- The predicates of two clause lists. -/
theorem leafCount_append (cs ds : List (List α)) :
    leafCount (cs ++ ds) = leafCount cs + leafCount ds := by
  simp [leafCount]

/-- Extending every clause. -/
theorem leafCount_map_append (prev : List (List α)) (c : List α) :
    leafCount (prev.map (· ++ c)) = leafCount prev + prev.length * c.length := by
  induction prev with
  | nil => simp
  | cons p prev ih =>
    rw [List.map_cons, leafCount_cons, ih, List.length_append, leafCount_cons, List.length_cons,
      Nat.succ_mul]
    omega

/-- **The predicates of a product**: each form's predicates once for every
    clause of the other. -/
theorem leafCount_product (prev curr : List (List α)) :
    leafCount (product prev curr)
      = curr.length * leafCount prev + prev.length * leafCount curr := by
  induction curr with
  | nil => simp [product]
  | cons c curr ih =>
    rw [product_cons, leafCount_append, ih, leafCount_map_append, leafCount_cons, List.length_cons,
      Nat.succ_mul, Nat.mul_add]
    omega

/-- The empty clause is the unit of the product. -/
theorem product_unit (cs : List (List α)) : product [[]] cs = cs := by
  induction cs with
  | nil => rfl
  | cons c cs ih =>
    rw [product_cons, ih]
    rfl

/-- The first argument may be multiplied onto the unit. -/
theorem foldOnto_product {xs : List (List (List α))} (hne : xs ≠ []) :
    foldOnto product [] xs = xs.foldl product [[]] := by
  obtain ⟨x, xs, rfl⟩ := List.exists_cons_of_ne_nil hne
  show xs.foldl product x = xs.foldl product (product [[]] x)
  rw [product_unit]

/-- The first argument may be put behind no clause. -/
theorem foldOnto_append (xs : List (List (List α))) :
    foldOnto (· ++ ·) [] xs = xs.foldl (· ++ ·) [] := by
  cases xs with
  | nil => rfl
  | cons x xs => rfl

/-! ## §3. One number for both. -/

/-- **`e` bounds the clauses and the predicates** of a form, or it has
    reached `UINT_MAX`. -/
def Covers (e : Nat) (cs : List (List α)) : Prop :=
  uintMax ≤ e ∨ (cs.length ≤ e ∧ leafCount cs ≤ e)

/-- What the product loop keeps: after `n` arguments with the product
    `count`, the form so far has at most `count` clauses of at most `n`
    times as many predicates. -/
def CoversProduct (count n : Nat) (cs : List (List α)) : Prop :=
  uintMax ≤ count ∨ (cs.length ≤ count ∧ leafCount cs ≤ n * count)

/-- One more argument under the operator that multiplies. -/
theorem CoversProduct.step {count n e : Nat} {cs ds : List (List α)}
    (a : CoversProduct count n cs) (b : Covers e ds) (hcount : 1 ≤ count) (he : 1 ≤ e) :
    CoversProduct (count * e) (n + 1) (product cs ds) := by
  rcases a with ha | ⟨hc, hl⟩
  · exact Or.inl (Nat.le_trans ha (Nat.le_mul_of_pos_right count he))
  · rcases b with hb | ⟨hd, hm⟩
    · exact Or.inl (Nat.le_trans hb (Nat.le_mul_of_pos_left e hcount))
    · right
      constructor
      · rw [product_length, Nat.mul_comm]
        exact Nat.mul_le_mul hc hd
      · have h1 : ds.length * leafCount cs ≤ e * (n * count) := Nat.mul_le_mul hd hl
        have h2 : cs.length * leafCount ds ≤ count * e := Nat.mul_le_mul hc hm
        calc leafCount (product cs ds)
            = ds.length * leafCount cs + cs.length * leafCount ds := leafCount_product cs ds
          _ ≤ e * (n * count) + count * e := Nat.add_le_add h1 h2
          _ = (n + 1) * (count * e) := by
            rw [Nat.succ_mul, Nat.mul_comm e, Nat.mul_assoc]

/-- One more argument under the operator that adds up. -/
theorem Covers.append {count e : Nat} {cs ds : List (List α)} (a : Covers count cs)
    (b : Covers e ds) : Covers (count + e) (cs ++ ds) := by
  unfold Covers at *
  rw [List.length_append, leafCount_append]
  omega

section Loops

variable {h : Heap α} {estimate : Nat → Option Nat} {conv : Tree α → List (List α)}

/-- What the estimate of a tree is. -/
def Estimates (h : Heap α) (estimate : Nat → Option Nat) (t : Tree α) (cs : List (List α)) :
    Prop :=
  ∀ p, IsTree h p t → ∃ e, estimate p = some e ∧ 1 ≤ e ∧ Covers e cs

/-- **The product loop**, by induction on the arguments. -/
theorem estimateProduct_spec (ts : List (Tree α)) :
    ∀ (fuel count n : Nat) (arg : Option Nat) (cs : List (List α)),
      (∀ t ∈ ts, Estimates h estimate t (conv t)) → ts.length ≤ fuel → IsTrees h arg ts →
      1 ≤ count → 1 ≤ n + ts.length → CoversProduct count n cs →
      ∃ e, estimateProduct estimate h fuel count n arg = some e ∧ 1 ≤ e ∧
        Covers e ((ts.map conv).foldl product cs) := by
  induction ts with
  | nil =>
    intro fuel count n arg cs _ _ hargs hcount hn hcov
    have harg : arg = none := hargs
    have hn' : 1 ≤ n := hn
    refine ⟨count * n, ?_, Nat.mul_pos hcount hn', ?_⟩
    · rw [harg]
      cases fuel <;> rfl
    · have hle : count ≤ count * n := Nat.le_mul_of_pos_right count hn'
      -- a saturated count bounds everything
      rcases hcov with hsat | ⟨hc, hl⟩
      · exact Or.inl (Nat.le_trans hsat hle)
      · rw [Nat.mul_comm] at hl
        exact Or.inr ⟨Nat.le_trans hc hle, hl⟩
  | cons t ts ih =>
    intro fuel count n arg cs hest hfuel hargs hcount _ hcov
    obtain ⟨fuel, rfl⟩ : ∃ m, fuel = m + 1 := by
      rw [List.length_cons] at hfuel
      exact ⟨fuel - 1, by omega⟩
    obtain ⟨p, rfl, ht, hts⟩ := hargs
    obtain ⟨e, he, hpos, hcov'⟩ := hest t List.mem_cons_self p ht
    rw [estimateProduct, he]
    show ∃ e', (if n + 1 ≠ 0 ∧ count ≥ uintMax / 2 then some uintMax else _) = _ ∧ _
    -- the loop stops where the next product might not fit
    by_cases hsat : n + 1 ≠ 0 ∧ count ≥ uintMax / 2
    · rw [if_pos hsat]
      exact ⟨uintMax, rfl, by decide, Or.inl (Nat.le_refl _)⟩
    · rw [if_neg hsat]
      show ∃ e', (h.get p).bind _ = _ ∧ _
      rw [h.get_eq ht.lt]
      have hlen : ts.length ≤ fuel := by
        rw [List.length_cons] at hfuel
        omega
      exact ih fuel (count * e) (n + 1) (h.cell p).next (product cs (conv t))
        (fun u hu => hest u (List.mem_cons_of_mem _ hu)) hlen hts (Nat.mul_pos hcount hpos)
        (by omega) (hcov.step hcov' hcount hpos)

/-- **The sum loop**, by induction on the arguments. -/
theorem estimateSum_spec (ts : List (Tree α)) :
    ∀ (fuel count : Nat) (arg : Option Nat) (cs : List (List α)),
      (∀ t ∈ ts, Estimates h estimate t (conv t)) → ts.length ≤ fuel → IsTrees h arg ts →
      1 ≤ count + ts.length → Covers count cs →
      ∃ e, estimateSum estimate h fuel count arg = some e ∧ 1 ≤ e ∧
        Covers e ((ts.map conv).foldl (· ++ ·) cs) := by
  induction ts with
  | nil =>
    intro fuel count arg cs _ _ hargs hcount hcov
    have harg : arg = none := hargs
    refine ⟨count, ?_, hcount, hcov⟩
    rw [harg]
    cases fuel <;> rfl
  | cons t ts ih =>
    intro fuel count arg cs hest hfuel hargs _ hcov
    obtain ⟨fuel, rfl⟩ : ∃ m, fuel = m + 1 := by
      rw [List.length_cons] at hfuel
      exact ⟨fuel - 1, by omega⟩
    obtain ⟨p, rfl, ht, hts⟩ := hargs
    obtain ⟨e, he, hpos, hcov'⟩ := hest t List.mem_cons_self p ht
    rw [estimateSum, he]
    show ∃ e', (if e ≠ 0 ∧ count ≥ uintMax / 2 then some uintMax else _) = _ ∧ _
    by_cases hsat : e ≠ 0 ∧ count ≥ uintMax / 2
    · rw [if_pos hsat]
      exact ⟨uintMax, rfl, by decide, Or.inl (Nat.le_refl _)⟩
    · rw [if_neg hsat]
      show ∃ e', (h.get p).bind _ = _ ∧ _
      rw [h.get_eq ht.lt]
      have hlen : ts.length ≤ fuel := by
        rw [List.length_cons] at hfuel
        omega
      exact ih fuel (count + e) (h.cell p).next (cs ++ conv t)
        (fun u hu => hest u (List.mem_cons_of_mem _ hu)) hlen hts (by omega) (hcov.append hcov')

end Loops

/-! ## §4. The bound. -/

/-- **The estimate covers the form**, whether or not the form leaves out
    excluded nodes; by induction on the tree. -/
theorem estimateNF_spec (outer : Op) (marks : Bool) (h : Heap α) (t : Tree α) :
    ∀ fuel, t.Proper → t.size ≤ fuel → ∀ p, IsTree h p t →
      ∃ e, estimateNF outer fuel h p = some e ∧ 1 ≤ e ∧ e ≤ uintMax ∧
        Covers e (nf outer marks t) := by
  -- The clamp at the end loses nothing.
  have hclamp : ∀ (count : Nat) (cs : List (List α)), 1 ≤ count → Covers count cs →
      ∃ e, some (if count ≥ uintMax then uintMax else count) = some e ∧ 1 ≤ e ∧ e ≤ uintMax ∧
        Covers e cs := by
    intro count cs hpos hcov
    by_cases hsat : count ≥ uintMax
    · rw [if_pos hsat]
      exact ⟨uintMax, rfl, by decide, Nat.le_refl _, Or.inl (Nat.le_refl _)⟩
    · rw [if_neg hsat]
      exact ⟨count, rfl, hpos, by omega, hcov⟩
  -- An excluded node has no clause.
  have hmarked : ∀ (m : Bool) (e : Nat) (cs : List (List α)), Covers e cs →
      Covers e (if marks && m then [] else cs) := by
    intro m e cs hcov
    cases marks && m with
    | true => exact Or.inr ⟨Nat.zero_le _, Nat.zero_le _⟩
    | false => exact hcov
  induction t using Tree.induct with
  | leaf m a =>
    intro fuel _ hfuel p ht
    obtain ⟨fuel, rfl⟩ : ∃ n, fuel = n + 1 := ⟨fuel - 1, by unfold Tree.size at hfuel; omega⟩
    obtain ⟨hp, hl, -⟩ := ht
    have hdual : (h.cell p).kind ≠ outer.dual.kind := by
      rw [hl.kind]
      cases outer <;> decide
    have houter : (h.cell p).kind ≠ outer.kind := by
      rw [hl.kind]
      cases outer <;> decide
    rw [estimateNF, h.get_eq hp]
    show ∃ e, ((if (h.cell p).kind = outer.dual.kind then _ else _ : Option Nat)).bind _ = _ ∧ _
    rw [if_neg hdual, if_neg houter, nf]
    exact hclamp 1 _ (Nat.le_refl 1) (hmarked m 1 _ (Or.inr ⟨Nat.le_refl 1, Nat.le_refl 1⟩))
  | node op m args ih =>
    intro fuel hproper hfuel p ht
    obtain ⟨fuel, rfl⟩ : ∃ n, fuel = n + 1 := ⟨fuel - 1, by unfold Tree.size at hfuel; omega⟩
    have hsizes : Tree.sizes args ≤ fuel := by
      unfold Tree.size at hfuel
      omega
    have hlen : args.length ≤ fuel := Nat.le_trans (Tree.length_le_sizes args) hsizes
    have hpos : 1 ≤ args.length := List.length_pos_iff.mpr hproper.1
    obtain ⟨hp, hk, -, hargs⟩ := ht
    have hest : ∀ t ∈ args, Estimates h (estimateNF outer fuel h) t (nf outer marks t) := by
      intro t ht q hq
      obtain ⟨e, he, h1, -, hcov⟩ := ih t ht fuel ((Tree.propers_iff args).mp hproper.2 t ht)
        (Nat.le_trans (Tree.size_le_sizes ht) hsizes) q hq
      exact ⟨e, he, h1, hcov⟩
    have hne : nfs outer marks args ≠ [] := by
      rw [nfs_eq_map]
      simpa using hproper.1
    rw [estimateNF, h.get_eq hp, nf]
    show ∃ e, ((if (h.cell p).kind = outer.dual.kind then _ else _ : Option Nat)).bind _ = _ ∧ _
    rw [hk]
    by_cases hop : op = outer
    · have hdual : op.kind ≠ outer.dual.kind := by
        rw [hop]
        cases outer <;> decide
      obtain ⟨count, hcount, h1, hcov⟩ := estimateSum_spec args fuel 0 (h.cell p).arguments []
        hest hlen hargs (by omega) (Or.inr ⟨Nat.le_refl 0, Nat.le_refl 0⟩)
      rw [if_neg hdual, if_pos (congrArg Op.kind hop), if_pos hop, hcount, foldOnto_append,
        nfs_eq_map]
      exact hclamp count _ h1 (hmarked m count _ hcov)
    · have hdual : op.kind = outer.dual.kind := congrArg Op.kind (op_eq_dual hop)
      obtain ⟨count, hcount, h1, hcov⟩ :=
        estimateProduct_spec args fuel 1 0 (h.cell p).arguments [[]] hest hlen hargs
          (Nat.le_refl 1) (by omega) (Or.inr ⟨Nat.le_refl 1, Nat.le_refl 0⟩)
      rw [if_pos hdual, if_neg hop, hcount, foldOnto_product hne, nfs_eq_map]
      exact hclamp count _ h1 (hmarked m count _ hcov)

/-- **What an estimate is worth**: it does not exceed `UINT_MAX`, it is no
    less than the number of predicates as far as `UINT_MAX` goes, and where
    it is within a limit under `UINT_MAX`, so is that number. -/
structure Bounds (e leaves : Nat) : Prop where
  le_max : e ≤ uintMax
  covers : min leaves uintMax ≤ e
  within : ∀ limit, limit < uintMax → e ≤ limit → leaves ≤ limit

/-- A count that does not saturate bounds the predicates. -/
theorem Covers.bounds {e : Nat} {cs : List (List α)} (hcov : Covers e cs) (hle : e ≤ uintMax) :
    Bounds e (leafCount cs) := by
  constructor
  · exact hle
  · rcases hcov with hsat | ⟨-, hl⟩
    · exact Nat.le_trans (Nat.min_le_right _ _) hsat
    · exact Nat.le_trans (Nat.min_le_left _ _) hl
  · intro limit hlimit he
    rcases hcov with hsat | ⟨-, hl⟩
    · omega
    · omega

/-- **Estimate and conversion of one tree**: both return, and the estimate
    is worth its `Bounds` for the form that is built.  A CNF that leaves out
    every conjunct is absent. -/
theorem estimates_bound {h : Heap α} {p fuel : Nat} {t : Tree α} (ht : IsTree h p t)
    (hproper : t.Proper) (hfuel : t.size ≤ fuel) :
    (∃ e h' root M, estimateDNF fuel h p = some e ∧ makeDNF fuel h p = some (h', root) ∧
      IsNF .or h' root M ∧ Bounds e (leafCount (clauses M))) ∧
    (t.WellMarked → ∃ e h' r, estimateCNF fuel h p = some e ∧ makeCNF fuel h p = some (h', r) ∧
      e ≤ uintMax ∧
      ∀ root, r = some root → ∃ M, IsNF .and h' root M ∧ Bounds e (leafCount (clauses M))) := by
  constructor
  · obtain ⟨e, he, -, hle, hcov⟩ := estimateNF_spec .or false h t fuel hproper hfuel p ht
    obtain ⟨h', root, hrun, -, M, nf, hM, -⟩ := makeDNF_spec t fuel hproper hfuel h p ht
      fun hfalse => absurd hfalse (by decide)
    refine ⟨e, h', root, M, he, hrun, nf, ?_⟩
    rw [hM]
    exact hcov.bounds hle
  · intro hwell
    obtain ⟨e, he, -, hle, hcov⟩ := estimateNF_spec .and true h t fuel hproper hfuel p ht
    obtain ⟨h', r, hrun, -, hform⟩ := makeCNF_spec true t fuel hproper hwell hfuel h p ht
      fun hfalse => absurd hfalse (by decide)
    refine ⟨e, h', r, he, hrun, hle, ?_⟩
    intro root hr
    rw [hr] at hform
    obtain ⟨M, nf, hM, -⟩ := hform
    refine ⟨M, nf, ?_⟩
    rw [hM]
    exact hcov.bounds hle

/-! ## §5. The largest limit. -/

/-- An OR of two predicates. -/
def pair : Tree Nat := .node .or false [.leaf false 0, .leaf false 0]

/-- An AND of 28 such ORs: 2^28 clauses of 28 predicates. -/
def wide : Tree Nat := .node .and false (List.replicate 28 pair)

/-- `wide` in a heap: the AND at 0, the ORs at 1 to 28, their predicates
    from 29 on. -/
def wideHeap : Heap Nat where
  cell p :=
    if p = 0 then ⟨.and, false, false, some 1, none, none⟩
    else if p ≤ 28 then
      ⟨.or, false, false, some (27 + 2 * p), if p < 28 then some (p + 1) else none, none⟩
    else ⟨.pred, false, false, none, if p % 2 = 1 then some (p + 1) else none, some 0⟩
  size := 85

/-- Cells 29 to 84 are the predicates. -/
theorem wideHeap_pred {p : Nat} (hlt : 28 < p) : wideHeap.cell p
    = ⟨.pred, false, false, none, if p % 2 = 1 then some (p + 1) else none, some 0⟩ := by
  show (if p = 0 then _ else if p ≤ 28 then _ else _) = _
  rw [if_neg (by omega), if_neg (by omega)]

/-- Cells 1 to 28 are the pairs. -/
theorem wideHeap_or {p : Nat} (hpos : 0 < p) (hle : p ≤ 28) : wideHeap.cell p
    = ⟨.or, false, false, some (27 + 2 * p), if p < 28 then some (p + 1) else none, none⟩ := by
  show (if p = 0 then _ else if p ≤ 28 then _ else _) = _
  rw [if_neg (by omega), if_pos hle]

/-- Each of these cells holds a pair. -/
theorem isTree_pair {p : Nat} (hpos : 0 < p) (hle : p ≤ 28) : IsTree wideHeap p pair := by
  have h1 : wideHeap.cell (27 + 2 * p)
      = ⟨.pred, false, false, none, some (27 + 2 * p + 1), some 0⟩ := by
    rw [wideHeap_pred (by omega), if_pos (by omega)]
  have h2 : wideHeap.cell (27 + 2 * p + 1) = ⟨.pred, false, false, none, none, some 0⟩ := by
    rw [wideHeap_pred (by omega), if_neg (by omega)]
  have hsize : wideHeap.size = 85 := rfl
  have hleaf : ∀ q, q < 85 → 28 < q → IsTree wideHeap q (.leaf false 0) := by
    intro q hq hlt
    have hcell := wideHeap_pred hlt
    exact ⟨hq, ⟨by rw [hcell], by rw [hcell]⟩, by rw [hcell]⟩
  refine ⟨by omega, by rw [wideHeap_or hpos hle]; rfl, by rw [wideHeap_or hpos hle], ?_⟩
  rw [wideHeap_or hpos hle]
  refine ⟨27 + 2 * p, rfl, hleaf _ (by omega) (by omega), 27 + 2 * p + 1, ?_,
    hleaf _ (by omega) (by omega), ?_⟩
  · rw [h1]
  · rw [h2]
    rfl

/-- The last `n + 1` pairs. -/
theorem isTrees_pairs (n : Nat) : ∀ p, 0 < p → p + n = 28 →
    IsTrees wideHeap (some p) (List.replicate (n + 1) pair) := by
  induction n with
  | zero =>
    intro p hpos hp
    refine ⟨p, rfl, isTree_pair hpos (by omega), ?_⟩
    rw [wideHeap_or hpos (by omega), if_neg (by omega)]
    rfl
  | succ n ih =>
    intro p hpos hp
    refine ⟨p, rfl, isTree_pair hpos (by omega), ?_⟩
    rw [wideHeap_or hpos (by omega), if_pos (by omega)]
    exact ih (p + 1) (by omega) (by omega)

/-- The heap holds the whole condition. -/
theorem isTree_wide : IsTree wideHeap 0 wide := by
  refine ⟨by decide, rfl, rfl, ?_⟩
  exact isTrees_pairs 27 1 (by omega) (by omega)

/-- Every further factor of two one-predicate clauses doubles the form and
    adds a predicate to each clause. -/
theorem count_pairs (n : Nat) : ∀ cs : List (List Nat),
    ((List.replicate n (dnf pair)).foldl product cs).length = 2 ^ n * cs.length ∧
    leafCount ((List.replicate n (dnf pair)).foldl product cs)
      = 2 ^ n * (leafCount cs + n * cs.length) := by
  have hlen : (dnf pair).length = 2 := rfl
  have hleaf : leafCount (dnf pair) = 2 := rfl
  induction n with
  | zero =>
    intro cs
    simp
  | succ n ih =>
    intro cs
    have hstep := ih (product cs (dnf pair))
    rw [product_length, leafCount_product, hlen, hleaf] at hstep
    rw [List.replicate_succ, List.foldl_cons, hstep.1, hstep.2, Nat.pow_succ]
    constructor
    · rw [Nat.mul_assoc]
    · have hsucc : (n + 1) * cs.length = n * cs.length + cs.length := Nat.succ_mul _ _
      have hswap : n * (2 * cs.length) = 2 * (n * cs.length) := Nat.mul_left_comm _ _ _
      rw [Nat.mul_assoc]
      congr 1
      omega

/-- Its disjunctive form has `28 * 2 ^ 28` predicates. -/
theorem leafCount_wide : leafCount (dnf wide) = 28 * 2 ^ 28 := by
  have hfold : dnf wide = (List.replicate 28 (dnf pair)).foldl product [[]] := by
    have hne : List.replicate 28 (dnf pair) ≠ [] := by simp
    show foldOnto product [] (nfs .or false (List.replicate 28 pair)) = _
    rw [nfs_eq_map, List.map_replicate]
    exact foldOnto_product hne
  rw [hfold, (count_pairs 28 [[]]).2]
  rfl

theorem wide_proper : wide.Proper := by
  refine ⟨by simp, ?_⟩
  rw [Tree.propers_iff]
  intro t ht
  rw [List.eq_of_mem_replicate ht]
  exact ⟨List.cons_ne_nil _ _, trivial, trivial, trivial⟩

theorem wide_size : wide.size ≤ 85 := by decide

/-- **At the limit `UINT_MAX` a larger form is admitted**: the estimate has
    reached the limit and does not exceed it. -/
theorem estimates_admit_more : ∃ e h' root M,
    estimateDNF 85 wideHeap 0 = some e ∧ makeDNF 85 wideHeap 0 = some (h', root) ∧
    IsNF .or h' root M ∧
    ¬ ∀ limit, limit ≤ uintMax → e ≤ limit → leafCount (clauses M) ≤ limit := by
  obtain ⟨e, he, -, hle, -⟩ :=
    estimateNF_spec .or false wideHeap wide 85 wide_proper wide_size 0 isTree_wide
  obtain ⟨h', root, hrun, -, M, nf, hM, -⟩ :=
    makeDNF_spec wide 85 wide_proper wide_size wideHeap 0 isTree_wide
      fun hfalse => absurd hfalse (by decide)
  refine ⟨e, h', root, M, he, hrun, nf, ?_⟩
  intro hall
  have hbound := hall uintMax (Nat.le_refl _) hle
  rw [hM, leafCount_wide] at hbound
  exact absurd hbound (by decide)

/-- The same tree, under a smaller limit and in both forms. -/
theorem estimates_bound_wide :
    (∃ e h' root M, estimateDNF 85 wideHeap 0 = some e ∧ makeDNF 85 wideHeap 0 = some (h', root) ∧
      IsNF .or h' root M ∧ Bounds e (leafCount (clauses M))) ∧
    ∃ e h' r, estimateCNF 85 wideHeap 0 = some e ∧ makeCNF 85 wideHeap 0 = some (h', r) ∧
      e ≤ uintMax ∧
      ∀ root, r = some root → ∃ M, IsNF .and h' root M ∧ Bounds e (leafCount (clauses M)) := by
  have hwell : wide.WellMarked := by
    show Tree.WellMarkeds (List.replicate 28 pair)
    rw [Tree.wellMarkeds_iff]
    intro t ht
    rw [List.eq_of_mem_replicate ht]
    exact Or.inr ⟨rfl, rfl, trivial⟩
  have hboth := estimates_bound isTree_wide wide_proper wide_size
  exact ⟨hboth.1, hboth.2 hwell⟩

end Altibase.Qmo
