/-
  Altibase.Qmo.Merge
  ──────────────────
  **MERGING NORMAL FORMS IN PLACE.**

  `IsNF outer h root M` says that the cells from `root` on are a normal
  form: an `outer` node over a linked list of dual nodes, each over a linked
  list of predicates, no cell used twice.  `M` lists its clauses with the
  pointers they occupy.

    * `IsNF.extend` — clauses linked behind the last one;
    * `IsNF.grow` — predicates linked behind the last one of a clause;
    * `appendArgs_spec`, `copyArgs_spec` — the loops that copy predicates.
-/

import Altibase.Qmo.NormalForm
import Mathlib.Data.List.Nodup
import Mathlib.Data.List.Range

namespace Altibase.Qmo

open Altibase.Lib (lastFrom count Seg lastFrom_eq count_eq length_le_size)

variable {α : Type}

/-! ## §1. Normal forms in the heap. -/

/-- A predicate node. -/
structure IsLeaf (h : Heap α) (p : Nat) (a : α) : Prop where
  kind : (h.cell p).kind = .pred
  content : (h.cell p).content = some a

/-- A clause and the pointers it occupies: its node, and the predicates
    with theirs. -/
structure Entry (α : Type) where
  node : Nat
  args : List (Nat × α)

namespace Entry

/-- The cells of the copied arguments, -/
def argCells (x : Entry α) : List Nat := x.args.map Prod.fst

/-- their predicates, -/
def preds (x : Entry α) : List α := x.args.map Prod.snd

/-- and all cells of a clause. -/
def cells (x : Entry α) : List Nat := x.node :: x.argCells

end Entry

/-- The pointers of the clause nodes. -/
def nodes (M : List (Entry α)) : List Nat := M.map Entry.node

/-- All pointers that clauses occupy. -/
def foot (M : List (Entry α)) : List Nat := M.flatMap Entry.cells

/-- The clauses. -/
def clauses (M : List (Entry α)) : List (List α) := M.map Entry.preds

/-- The nodes of two lists of clauses. -/
@[simp] theorem nodes_append (M N : List (Entry α)) : nodes (M ++ N) = nodes M ++ nodes N :=
  List.map_append

@[simp] theorem nodes_cons (x : Entry α) (M : List (Entry α)) :
    nodes (x :: M) = x.node :: nodes M := rfl

/-- The cells of two lists of clauses. -/
@[simp] theorem foot_append (M N : List (Entry α)) : foot (M ++ N) = foot M ++ foot N :=
  List.flatMap_append

@[simp] theorem foot_cons (x : Entry α) (M : List (Entry α)) :
    foot (x :: M) = x.cells ++ foot M := rfl

@[simp] theorem foot_nil : foot ([] : List (Entry α)) = [] := rfl

/-- The predicates of two lists of clauses. -/
@[simp] theorem clauses_append (M N : List (Entry α)) :
    clauses (M ++ N) = clauses M ++ clauses N :=
  List.map_append

/-- The nodes are among the cells, -/
theorem nodes_sub_foot (M : List (Entry α)) : ∀ p ∈ nodes M, p ∈ foot M := by
  intro p hp
  obtain ⟨x, hx, rfl⟩ := List.mem_map.mp hp
  exact List.mem_flatMap.mpr ⟨x, hx, List.mem_cons_self⟩

/-- and so are the cells of each clause. -/
theorem cells_sub_foot {x : Entry α} {M : List (Entry α)} (hx : x ∈ M) :
    ∀ p ∈ x.cells, p ∈ foot M :=
  fun _ hp => List.mem_flatMap.mpr ⟨x, hx, hp⟩

/-- A clause: a node of the inner operator over a non-empty list of
    predicates. -/
structure IsClause (inner : Op) (h : Heap α) (x : Entry α) : Prop where
  kind : (h.cell x.node).kind = inner.kind
  args : Seg QtcNode.next h (h.cell x.node).arguments x.argCells none
  ne : x.args ≠ []
  leaf : ∀ y ∈ x.args, IsLeaf h y.1 y.2

/-- **A normal form in the heap.** -/
structure IsNF (outer : Op) (h : Heap α) (root : Nat) (M : List (Entry α)) : Prop where
  root_lt : root < h.size
  kind : (h.cell root).kind = outer.kind
  args : Seg QtcNode.next h (h.cell root).arguments (nodes M) none
  ne : M ≠ []
  clause : ∀ x ∈ M, IsClause outer.dual h x
  nodup : (root :: foot M).Nodup

section Frame

variable {outer inner : Op} {h h' : Heap α} {root : Nat} {M : List (Entry α)} {x : Entry α}

/-- A leaf stays where its kind and its content stay. -/
theorem IsLeaf.frame {p : Nat} {a : α} (l : IsLeaf h p a)
    (hk : (h'.cell p).kind = (h.cell p).kind) (hc : (h'.cell p).content = (h.cell p).content) :
    IsLeaf h' p a :=
  ⟨hk.trans l.kind, hc.trans l.content⟩

/-- A clause stays where its node and its arguments stay. -/
theorem IsClause.frame (c : IsClause inner h x) (hsize : h.size ≤ h'.size)
    (hk : (h'.cell x.node).kind = (h.cell x.node).kind)
    (ha : (h'.cell x.node).arguments = (h.cell x.node).arguments)
    (hcell : ∀ p ∈ x.argCells, h'.cell p = h.cell p) : IsClause inner h' x := by
  constructor
  · exact hk.trans c.kind
  · rw [ha]
    exact c.args.frame hsize fun p hp => by rw [hcell p hp]
  · exact c.ne
  · intro y hy
    have hmem : y.1 ∈ x.argCells := List.mem_map.mpr ⟨y, hy, rfl⟩
    exact (c.leaf y hy).frame (by rw [hcell _ hmem]) (by rw [hcell _ hmem])

/-- The arguments of a clause are allocated, -/
theorem IsClause.lt_size (c : IsClause inner h x) : ∀ p ∈ x.argCells, p < h.size :=
  c.args.lt_size

/-- and so is the whole normal form. -/
theorem IsNF.lt_size (nf : IsNF outer h root M) : ∀ p ∈ root :: foot M, p < h.size := by
  intro p hp
  rcases List.mem_cons.mp hp with rfl | hmem
  · exact nf.root_lt
  · obtain ⟨x, hx, hpx⟩ := List.mem_flatMap.mp hmem
    rcases List.mem_cons.mp hpx with rfl | harg
    · exact nf.args.lt_size _ (List.mem_map.mpr ⟨x, hx, rfl⟩)
    · exact (nf.clause x hx).lt_size p harg

/-- A normal form depends on its own cells only. -/
theorem IsNF.frame (nf : IsNF outer h root M) (hsize : h.size ≤ h'.size)
    (hcell : ∀ p ∈ root :: foot M, h'.cell p = h.cell p) : IsNF outer h' root M := by
  have hroot : h'.cell root = h.cell root := hcell root List.mem_cons_self
  have hfoot : ∀ p ∈ foot M, h'.cell p = h.cell p :=
    fun p hp => hcell p (List.mem_cons_of_mem root hp)
  constructor
  · exact Nat.lt_of_lt_of_le nf.root_lt hsize
  · -- its kind
    rw [hroot]
    exact nf.kind
  · -- its arguments are the clauses
    rw [hroot]
    exact nf.args.frame hsize fun p hp => by rw [hfoot p (nodes_sub_foot M p hp)]
  · exact nf.ne
  · -- the clauses
    intro x hx
    have hnode := hfoot x.node (cells_sub_foot hx _ List.mem_cons_self)
    exact (nf.clause x hx).frame hsize (by rw [hnode]) (by rw [hnode])
      fun p hp => hfoot p (cells_sub_foot hx p (List.mem_cons_of_mem _ hp))
  · exact nf.nodup

/-- The clause list can be walked: its length is bounded by the heap. -/
theorem IsNF.length_le (nf : IsNF outer h root M) : M.length ≤ h.size := by
  have hnodup : (nodes M).Nodup := by
    have hsub : (nodes M).Sublist (foot M) := by
      clear nf
      induction M with
      | nil => exact List.Sublist.refl _
      | cons x M ih =>
        show (x.node :: nodes M).Sublist (x.node :: x.argCells ++ foot M)
        exact List.Sublist.cons_cons _ (ih.trans (List.sublist_append_right _ _))
    exact hsub.nodup (List.nodup_cons.mp nf.nodup).2
  have hlt : ∀ p ∈ nodes M, p < h.size := nf.args.lt_size
  have := length_le_size (h := h) (nodes M) hnodup hlt
  rwa [nodes, List.length_map] at this

/-- A clause has no more arguments than there are cells. -/
theorem IsClause.length_le (c : IsClause inner h x) (hnodup : x.argCells.Nodup) :
    x.args.length ≤ h.size := by
  have := length_le_size (h := h) x.argCells hnodup c.lt_size
  rwa [Entry.argCells, List.length_map] at this

/-- The arguments of a clause are cells of their own. -/
theorem nodup_argCells (hnodup : (foot M).Nodup) (hx : x ∈ M) : x.argCells.Nodup := by
  have := (List.nodup_flatMap.mp hnodup).1 x hx
  exact (List.nodup_cons.mp this).2

/-- **Clauses linked behind the last one.** -/
theorem IsNF.extend {M₀ D : List (Entry α)} {q : Option Nat}
    (nf : IsNF outer h root (M₀ ++ [x])) (hsize : h.size ≤ h'.size)
    (hcell : ∀ p ∈ root :: foot (M₀ ++ [x]), p ≠ x.node → h'.cell p = h.cell p)
    (hlast : h'.cell x.node = { h.cell x.node with next := q })
    (hseg : Seg QtcNode.next h' q (nodes D) none) (hD : ∀ y ∈ D, IsClause outer.dual h' y)
    (hnodup : (foot D).Nodup) (hdisj : ∀ p ∈ foot D, p ∉ root :: foot (M₀ ++ [x])) :
    IsNF outer h' root (M₀ ++ [x] ++ D) := by
  have hnd := nf.nodup
  have hx : x ∈ M₀ ++ [x] := List.mem_append_right _ List.mem_cons_self
  have hxfoot : x.node ∈ foot (M₀ ++ [x]) := cells_sub_foot hx _ List.mem_cons_self
  have hroot_ne : root ≠ x.node := fun e => (List.nodup_cons.mp hnd).1 (e ▸ hxfoot)
  have hroot : h'.cell root = h.cell root := hcell root List.mem_cons_self hroot_ne
  have hfoot : ∀ p ∈ foot (M₀ ++ [x]), p ≠ x.node → h'.cell p = h.cell p :=
    fun p hp => hcell p (List.mem_cons_of_mem root hp)
  -- The other pointers of the form are not the node that was relinked.
  have hne : ∀ p ∈ foot M₀ ++ x.argCells, p ≠ x.node := by
    intro p hp e
    subst e
    have hfn := (List.nodup_cons.mp hnd).2
    rw [foot_append, foot_cons, foot_nil, List.append_nil] at hfn
    rcases List.mem_append.mp hp with hm | hm
    · exact (List.nodup_append.mp hfn).2.2 _ hm _ List.mem_cons_self rfl
    · exact (List.nodup_cons.mp (List.nodup_append.mp hfn).2.1).1 hm
  constructor
  · exact Nat.lt_of_lt_of_le nf.root_lt hsize
  · -- its kind
    rw [hroot]
    exact nf.kind
  · -- its arguments are the clauses
    rw [hroot, nodes_append]
    have hold : Seg QtcNode.next h (h.cell root).arguments (nodes M₀ ++ [x.node]) none := by
      have := nf.args
      rwa [nodes_append] at this
    have hnew : Seg QtcNode.next h' (h.cell root).arguments (nodes M₀ ++ [x.node]) q := by
      apply hold.relink x.node hsize
      · intro p hp
        have hpf : p ∈ foot M₀ := nodes_sub_foot M₀ p hp
        rw [hfoot p (by simp [hpf]) (hne p (List.mem_append_left _ hpf))]
      · rw [hlast]
    rw [nodes_append]
    exact hnew.append hseg
  · simp
  · -- the clauses
    intro y hy
    rcases List.mem_append.mp hy with hM | hd
    · have hc := nf.clause y hM
      have hargs : ∀ p ∈ y.argCells, h'.cell p = h.cell p := by
        intro p hp
        apply hfoot p (cells_sub_foot hM p (List.mem_cons_of_mem _ hp))
        rcases List.mem_append.mp hM with h0 | h1
        · exact hne p (List.mem_append_left _ (cells_sub_foot h0 p (List.mem_cons_of_mem _ hp)))
        · have hyx : y = x := List.mem_singleton.mp h1
          exact hne p (List.mem_append_right _ (hyx ▸ hp))
      by_cases hyx : y.node = x.node
      · have hcell' : h'.cell y.node = { h.cell y.node with next := q } := by rw [hyx, hlast]
        exact hc.frame hsize (by rw [hcell']) (by rw [hcell']) hargs
      · have hcell' := hfoot y.node (cells_sub_foot hM _ List.mem_cons_self) hyx
        exact hc.frame hsize (by rw [hcell']) (by rw [hcell']) hargs
    · exact hD y hd
  · -- no cell is used twice
    rw [foot_append, ← List.cons_append]
    exact List.nodup_append.mpr ⟨hnd, hnodup, fun a ha b hb e => hdisj b hb (e ▸ ha)⟩

/-- Predicates linked behind the last one of a clause. -/
theorem IsClause.grow {ys zs : List (Nat × α)} {l : Nat} {a : α} {q : Option Nat}
    (c : IsClause inner h x) (hx : x.args = ys ++ [(l, a)]) (hsize : h.size ≤ h'.size)
    (hk : (h'.cell x.node).kind = (h.cell x.node).kind)
    (ha : (h'.cell x.node).arguments = (h.cell x.node).arguments)
    (hcell : ∀ p ∈ ys.map Prod.fst, h'.cell p = h.cell p)
    (hlast : h'.cell l = { h.cell l with next := q })
    (hseg : Seg QtcNode.next h' q (zs.map Prod.fst) none)
    (hzs : ∀ y ∈ zs, IsLeaf h' y.1 y.2) : IsClause inner h' ⟨x.node, x.args ++ zs⟩ := by
  constructor
  · exact hk.trans c.kind
  · show Seg QtcNode.next h' (h'.cell x.node).arguments ((x.args ++ zs).map Prod.fst) none
    have hold : Seg QtcNode.next h (h.cell x.node).arguments (ys.map Prod.fst ++ [l]) none := by
      have := c.args
      rw [Entry.argCells, hx, List.map_append] at this
      exact this
    have hnew : Seg QtcNode.next h' (h.cell x.node).arguments (ys.map Prod.fst ++ [l]) q := by
      apply hold.relink l hsize
      · intro p hp
        rw [hcell p hp]
      · rw [hlast]
    rw [ha, List.map_append, hx, List.map_append]
    exact hnew.append hseg
  · show x.args ++ zs ≠ []
    exact List.append_ne_nil_of_left_ne_nil c.ne zs
  · intro y hy
    rcases List.mem_append.mp hy with hold | hnew
    · have hl := c.leaf y hold
      rw [hx] at hold
      rcases List.mem_append.mp hold with h0 | h1
      · have hcell' := hcell y.1 (List.mem_map.mpr ⟨y, h0, rfl⟩)
        exact hl.frame (by rw [hcell']) (by rw [hcell'])
      · have hy1 : y.1 = l := by rw [List.mem_singleton.mp h1]
        have hcell' : h'.cell y.1 = { h.cell y.1 with next := q } := by rw [hy1, hlast]
        exact hl.frame (by rw [hcell']) (by rw [hcell'])
    · exact hzs y hnew

/-- **One clause of a form grows.** -/
theorem IsNF.grow {A T : List (Entry α)} {ys zs : List (Nat × α)} {l : Nat} {a : α}
    {q : Option Nat} (nf : IsNF outer h root (A ++ x :: T)) (hx : x.args = ys ++ [(l, a)])
    (hsize : h.size ≤ h'.size)
    (hcell : ∀ p ∈ root :: foot (A ++ x :: T), p ≠ l → h'.cell p = h.cell p)
    (hlast : h'.cell l = { h.cell l with next := q })
    (hseg : Seg QtcNode.next h' q (zs.map Prod.fst) none) (hzs : ∀ y ∈ zs, IsLeaf h' y.1 y.2)
    (hnodup : (zs.map Prod.fst).Nodup)
    (hdisj : ∀ p ∈ zs.map Prod.fst, p ∉ root :: foot (A ++ x :: T)) :
    IsNF outer h' root (A ++ ⟨x.node, x.args ++ zs⟩ :: T) := by
  have hnd := nf.nodup
  have hlx : l ∈ x.argCells := by
    rw [Entry.argCells, hx]
    simp
  have hfoot_eq : foot (A ++ x :: T) = foot A ++ (x.cells ++ foot T) := by
    rw [foot_append, foot_cons]
  have hfn : (foot A ++ (x.cells ++ foot T)).Nodup := hfoot_eq ▸ (List.nodup_cons.mp hnd).2
  have hxT := List.nodup_append.mp (List.nodup_append.mp hfn).2.1
  have hl_root : root ≠ l := by
    intro e
    apply (List.nodup_cons.mp hnd).1
    rw [hfoot_eq, e]
    simp [Entry.cells, hlx]
  have hl_node : x.node ≠ l := fun e => (List.nodup_cons.mp hxT.1).1 (e ▸ hlx)
  have hl_A : ∀ p ∈ foot A, p ≠ l := fun p hp =>
    (List.nodup_append.mp hfn).2.2 p hp l (by simp [Entry.cells, hlx])
  have hl_T : ∀ p ∈ foot T, p ≠ l := fun p hp e =>
    hxT.2.2 l (List.mem_cons_of_mem _ hlx) p hp e.symm
  have hl_ys : ∀ p ∈ ys.map Prod.fst, p ≠ l := by
    have hargs : x.argCells.Nodup := (List.nodup_cons.mp hxT.1).2
    rw [Entry.argCells, hx, List.map_append] at hargs
    exact fun p hp => (List.nodup_append.mp hargs).2.2 p hp l (by simp)
  have hfoot : ∀ p ∈ foot (A ++ x :: T), p ≠ l → h'.cell p = h.cell p :=
    fun p hp => hcell p (List.mem_cons_of_mem root hp)
  have hroot : h'.cell root = h.cell root := hcell root List.mem_cons_self hl_root
  have hnode : h'.cell x.node = h.cell x.node :=
    hfoot x.node (by rw [hfoot_eq]; simp [Entry.cells]) hl_node
  -- The clauses other than `x` do not own the cell that was relinked.
  have hother : ∀ y ∈ A ++ T, ∀ p ∈ y.cells, h'.cell p = h.cell p := by
    intro y hy p hp
    rcases List.mem_append.mp hy with hA | hT
    · have hpA := cells_sub_foot hA p hp
      exact hfoot p (by rw [hfoot_eq]; simp [hpA]) (hl_A p hpA)
    · have hpT := cells_sub_foot hT p hp
      exact hfoot p (by rw [hfoot_eq]; simp [hpT]) (hl_T p hpT)
  constructor
  · exact Nat.lt_of_lt_of_le nf.root_lt hsize
  · -- its kind
    rw [hroot]
    exact nf.kind
  · -- its arguments are the clauses
    have hnodes : nodes (A ++ ⟨x.node, x.args ++ zs⟩ :: T) = nodes (A ++ x :: T) := by simp
    rw [hnodes, hroot]
    apply nf.args.frame hsize
    intro p hp
    rw [nodes_append, nodes_cons] at hp
    rcases List.mem_append.mp hp with hA | hrest
    · obtain ⟨y, hy, rfl⟩ := List.mem_map.mp hA
      rw [hother y (List.mem_append_left _ hy) _ List.mem_cons_self]
    · rcases List.mem_cons.mp hrest with rfl | hT
      · rw [hnode]
      · obtain ⟨y, hy, rfl⟩ := List.mem_map.mp hT
        rw [hother y (List.mem_append_right _ hy) _ List.mem_cons_self]
  · simp
  · -- the clauses
    intro y hy
    have hframe : ∀ z ∈ A ++ T, IsClause outer.dual h' z := by
      intro z hz
      have hzM : z ∈ A ++ x :: T := by
        rcases List.mem_append.mp hz with hA | hT
        · exact List.mem_append_left _ hA
        · exact List.mem_append_right _ (List.mem_cons_of_mem _ hT)
      have hcn := hother z hz z.node List.mem_cons_self
      exact (nf.clause z hzM).frame hsize (by rw [hcn]) (by rw [hcn])
        fun p hp => hother z hz p (List.mem_cons_of_mem _ hp)
    rcases List.mem_append.mp hy with hA | hrest
    · exact hframe y (List.mem_append_left _ hA)
    · rcases List.mem_cons.mp hrest with rfl | hT
      · apply (nf.clause x (by simp)).grow hx hsize (by rw [hnode]) (by rw [hnode]) _ hlast hseg hzs
        intro p hp
        refine hfoot p ?_ (hl_ys p hp)
        rw [hfoot_eq]
        have hpx : p ∈ x.argCells := by
          rw [Entry.argCells, hx, List.map_append]
          exact List.mem_append_left _ hp
        simp [Entry.cells, hpx]
      · exact hframe y (List.mem_append_right _ hT)
  · -- no cell is used twice
    have hperm : (root :: foot (A ++ ⟨x.node, x.args ++ zs⟩ :: T)).Perm
        (root :: foot (A ++ x :: T) ++ zs.map Prod.fst) := by
      have h1 : foot (A ++ ⟨x.node, x.args ++ zs⟩ :: T)
          = foot A ++ (x.cells ++ zs.map Prod.fst ++ foot T) := by
        simp [Entry.cells, Entry.argCells]
      rw [h1, hfoot_eq]
      simp only [List.cons_append, List.append_assoc]
      apply List.Perm.cons
      apply List.Perm.append_left
      apply List.Perm.append_left
      exact List.perm_append_comm
    rw [hperm.nodup_iff]
    exact List.nodup_append.mpr ⟨hnd, hnodup, fun a ha b hb e => hdisj b hb (e ▸ ha)⟩

end Frame

/-! ## §2. Copying predicates. -/

/-- Predicates at consecutive pointers from `n` on, where an allocation
    loop puts them. -/
def fresh (n : Nat) : List α → List (Nat × α)
  | [] => []
  | a :: as => (n, a) :: fresh (n + 1) as

/-- The copies carry the predicates they are copies of. -/
@[simp] theorem map_snd_fresh (as : List α) : ∀ n, (fresh n as).map Prod.snd = as := by
  induction as with
  | nil =>
    intro n
    rfl
  | cons a as ih =>
    intro n
    show a :: (fresh (n + 1) as).map Prod.snd = a :: as
    rw [ih]

/-- The copies are the next cells, -/
theorem mem_fresh (as : List α) :
    ∀ n, ∀ p ∈ (fresh n as).map Prod.fst, n ≤ p ∧ p < n + as.length := by
  induction as with
  | nil =>
    intro n p hp
    exact absurd hp List.not_mem_nil
  | cons a as ih =>
    intro n p hp
    rw [List.length_cons]
    rcases List.mem_cons.mp hp with heq | hmem
    · have hn : p = n := heq
      omega
    · have := ih (n + 1) p hmem
      omega

/-- and all different. -/
theorem nodup_fresh (as : List α) : ∀ n, ((fresh n as).map Prod.fst).Nodup := by
  induction as with
  | nil =>
    intro n
    exact List.nodup_nil
  | cons a as ih =>
    intro n
    apply List.nodup_cons.mpr
    constructor
    · intro hmem
      have := mem_fresh as (n + 1) n hmem
      omega
    · exact ih (n + 1)

/-- Setting `next` of an allocated node does not fail. -/
@[simp] theorem setNext_eq (h : Heap α) {p : Nat} (hp : p < h.size) (q : Option Nat) :
    setNext h p q = some (h.set p { h.cell p with next := q }) := by
  unfold setNext
  rw [h.get_eq hp]
  rfl

/-- Nor does setting `arguments`. -/
@[simp] theorem setArguments_eq (h : Heap α) {p : Nat} (hp : p < h.size) (q : Option Nat) :
    setArguments h p q = some (h.set p { h.cell p with arguments := q }) := by
  unfold setArguments
  rw [h.get_eq hp]
  rfl

/-- Copies of `preds` were linked behind the cell `last`, at fresh
    pointers. -/
structure Appended (h h' : Heap α) (last : Nat) (preds : List α) : Prop where
  size : h'.size = h.size + preds.length
  cell : ∀ p, p < h.size → p ≠ last → h'.cell p = h.cell p
  relinked : h'.cell last = { h.cell last with next := (h'.cell last).next }
  seg : Seg QtcNode.next h' (h'.cell last).next ((fresh h.size preds).map Prod.fst) none
  leaf : ∀ y ∈ fresh h.size preds, IsLeaf h' y.1 y.2

/-- **The loop that appends copies**, by induction on the arguments it still
    has to copy; the cell allocated last takes the place of `last`. -/
theorem appendArgs_spec (src : List (Nat × α)) :
    ∀ (fuel : Nat) (h : Heap α) (last : Nat) (arg : Option Nat),
      src.length ≤ fuel → last < h.size → (h.cell last).next = none →
      Seg QtcNode.next h arg (src.map Prod.fst) none → (∀ y ∈ src, IsLeaf h y.1 y.2) →
      last ∉ src.map Prod.fst →
      ∃ h', appendArgs fuel h last arg = some h' ∧ Appended h h' last (src.map Prod.snd) := by
  induction src with
  | nil =>
    intro fuel h last arg _ _ hnext hseg _ _
    have harg : arg = none := hseg
    refine ⟨h, ?_, rfl, fun _ _ _ => rfl, rfl, hnext, ?_⟩
    · rw [harg]
      cases fuel <;> rfl
    · intro y hy
      exact absurd hy List.not_mem_nil
  | cons s src ih =>
    intro fuel h last arg hfuel hlast hnext hseg hleaf hnot
    obtain ⟨fuel, rfl⟩ : ∃ f, fuel = f + 1 := by
      rw [List.length_cons] at hfuel
      exact ⟨fuel - 1, by omega⟩
    have hlen : src.length ≤ fuel := by
      rw [List.length_cons] at hfuel
      omega
    obtain ⟨rfl, hs, htail⟩ := hseg
    rw [List.map_cons] at hnot
    have hs_last : s.1 ≠ last := fun e => hnot (e ▸ List.mem_cons_self)
    have hrest : last ∉ src.map Prod.fst := fun hm => hnot (List.mem_cons_of_mem _ hm)
    -- The heap after one copy has been linked.
    let c : QtcNode α := { h.cell s.1 with next := none }
    let h₂ : Heap α := (h.alloc c).set last { h.cell last with next := some h.size }
    have hsize₂ : h₂.size = h.size + 1 := rfl
    have hold : ∀ p, p < h.size → p ≠ last → h₂.cell p = h.cell p := by
      intro p hp hne
      show ((h.alloc c).set last _).cell p = h.cell p
      rw [Lib.Heap.set_cell_of_ne _ _ hne, Lib.Heap.alloc_cell_of_lt _ _ hp]
    have hnew : h₂.cell h.size = c := by
      show ((h.alloc c).set last _).cell h.size = c
      rw [Lib.Heap.set_cell_of_ne _ _ (by omega), Lib.Heap.alloc_cell_self]
    have hlast₂ : h₂.cell last = { h.cell last with next := some h.size } :=
      Lib.Heap.set_cell_self _ _ _
    have hsrc : ∀ p ∈ src.map Prod.fst, h₂.cell p = h.cell p := fun p hp =>
      hold p (htail.lt_size p hp) fun e => hrest (e ▸ hp)
    have hrun : appendArgs (fuel + 1) h last (some s.1)
        = appendArgs fuel h₂ h.size (h.cell s.1).next := by
      have hl' : last < (h.alloc c).size := by
        rw [Lib.Heap.alloc_size]
        omega
      have hs₂ : s.1 < h₂.size := by
        rw [hsize₂]
        omega
      have hset : setNext (h.alloc c) last (some h.size) = some h₂ := by
        rw [setNext_eq _ hl', Lib.Heap.alloc_cell_of_lt _ _ hlast]
      rw [appendArgs, h.get_eq hs]
      show ((setNext (h.alloc c) last (some h.size)).bind fun h' =>
        (h'.get s.1).bind fun a => appendArgs fuel h' h.size a.next) = _
      rw [hset, Option.bind_some, h₂.get_eq hs₂, hold s.1 hs hs_last]
      rfl
    have hleaf₂ : ∀ y ∈ src, IsLeaf h₂ y.1 y.2 := by
      intro y hy
      have hcell := hsrc y.1 (List.mem_map.mpr ⟨y, hy, rfl⟩)
      exact (hleaf y (List.mem_cons_of_mem _ hy)).frame (by rw [hcell]) (by rw [hcell])
    have hfresh : h.size ∉ src.map Prod.fst := fun hm =>
      absurd (htail.lt_size _ hm) (Nat.lt_irrefl _)
    obtain ⟨h', hh', app⟩ := ih fuel h₂ h.size (h.cell s.1).next hlen (by rw [hsize₂]; omega)
      (by rw [hnew]) (htail.frame (by rw [hsize₂]; omega) fun p hp => by rw [hsrc p hp])
      hleaf₂ hfresh
    have hlast' : h'.cell last = h₂.cell last :=
      app.cell last (by rw [hsize₂]; omega) (Nat.ne_of_lt hlast)
    refine ⟨h', hrun.trans hh', ?_, ?_, ?_, ?_, ?_⟩
    · rw [app.size, hsize₂, List.map_cons, List.length_cons]
      omega
    · intro p hp hne
      rw [app.cell p (by rw [hsize₂]; omega) (Nat.ne_of_lt hp), hold p hp hne]
    · rw [hlast', hlast₂]
    · rw [hlast', hlast₂]
      refine ⟨rfl, ?_, ?_⟩
      · show h.size < h'.size
        rw [app.size, hsize₂]
        omega
      · exact app.seg
    · intro y hy
      rcases List.mem_cons.mp hy with rfl | hmem
      · have hl := hleaf s List.mem_cons_self
        have hcell : h'.cell h.size = { c with next := (h'.cell h.size).next } := by
          rw [app.relinked, hnew]
        constructor
        · show (h'.cell h.size).kind = .pred
          rw [hcell]
          exact hl.kind
        · show (h'.cell h.size).content = some s.2
          rw [hcell]
          exact hl.content
      · exact app.leaf y hmem

/-- Once the new node has an argument, `copyArgs` appends. -/
theorem copyArgs_eq_appendArgs :
    ∀ (fuel : Nat) (h : Heap α) (newNode last : Nat) (arg : Option Nat), newNode < h.size →
      last < h.size → (h.cell newNode).arguments ≠ none →
      copyArgs fuel h newNode (some last) arg = appendArgs fuel h last arg := by
  intro fuel
  induction fuel with
  | zero =>
    intro h newNode last arg _ _ _
    cases arg <;> rfl
  | succ fuel ih =>
    intro h newNode last arg hnew hlast hargs
    cases arg with
    | none => rfl
    | some arg =>
      cases ha : h.get arg with
      | none => simp [copyArgs, appendArgs, ha]
      | some a =>
        let h₁ : Heap α := h.alloc { a with next := none }
        have hsize₁ : h₁.size = h.size + 1 := rfl
        have hn₁ : newNode < h₁.size := by omega
        have hl₁ : last < h₁.size := by omega
        have hcell : h₁.cell newNode = h.cell newNode := Lib.Heap.alloc_cell_of_lt _ _ hnew
        obtain ⟨first, hfirst⟩ := Option.ne_none_iff_exists'.mp hargs
        let h₂ : Heap α := h₁.set last { h₁.cell last with next := some h.size }
        -- the new node keeps its arguments
        have hargs₂ : (h₂.cell newNode).arguments ≠ none := by
          by_cases hne : newNode = last
          · show (Function.update h₁.cell last _ newNode).arguments ≠ none
            rw [← hne, Function.update_self, hcell]
            exact hargs
          · rw [Lib.Heap.set_cell_of_ne _ _ hne, hcell]
            exact hargs
        have hstep : ∀ q, copyArgs fuel h₂ newNode (some h.size) q = appendArgs fuel h₂ h.size q :=
          fun q => ih h₂ newNode h.size q hn₁ (by show h.size < h₁.size; omega) hargs₂
        -- both link the copy behind the last argument, and go on from the same heap
        have hcopy : copyArgs (fuel + 1) h newNode (some last) (some arg)
            = (h₂.get arg).bind fun a => copyArgs fuel h₂ newNode (some h.size) a.next := by
          have hlink : linkArg h₁ newNode (some last) h.size = some h₂ := by
            rw [linkArg, h₁.get_eq hn₁, hcell]
            simp only [Option.bind_eq_bind, Option.bind_some, hfirst]
            exact setNext_eq h₁ hl₁ (some h.size)
          rw [copyArgs, ha]
          show ((linkArg h₁ newNode (some last) h.size).bind _) = _
          rw [hlink]
          rfl
        have happend : appendArgs (fuel + 1) h last (some arg)
            = (h₂.get arg).bind fun a => appendArgs fuel h₂ h.size a.next := by
          rw [appendArgs, ha]
          show ((setNext h₁ last (some h.size)).bind _) = _
          rw [setNext_eq _ hl₁]
          rfl
        rw [hcopy, happend]
        simp only [hstep]

/-- **Copying a clause**: its node at the first fresh pointer, its
    predicates behind it. -/
theorem copyArgs_spec {inner : Op} {h : Heap α} {x : Entry α} {fuel : Nat}
    (c : IsClause inner h x) (hfuel : x.args.length ≤ fuel) :
    ∃ h', copyArgs fuel (h.alloc { h.cell x.node with arguments := none, next := none }) h.size none
        (h.cell x.node).arguments = some h' ∧
      h.Extends h' [] ∧ h'.size = h.size + 1 + x.args.length ∧ (h'.cell h.size).next = none ∧
      IsClause inner h' ⟨h.size, fresh (h.size + 1) x.preds⟩ := by
  obtain ⟨s, src, hargs⟩ := List.exists_cons_of_ne_nil c.ne
  have hseg : Seg QtcNode.next h (h.cell x.node).arguments (s.1 :: src.map Prod.fst) none := by
    have := c.args
    rwa [Entry.argCells, hargs, List.map_cons] at this
  obtain ⟨hfirst, hs, htail⟩ := hseg
  obtain ⟨fuel, rfl⟩ : ∃ f, fuel = f + 1 := by
    rw [hargs, List.length_cons] at hfuel
    exact ⟨fuel - 1, by omega⟩
  have hlen : src.length ≤ fuel := by
    rw [hargs, List.length_cons] at hfuel
    omega
  -- The new node, the first copy, and the link between them.
  let n : QtcNode α := { h.cell x.node with arguments := none, next := none }
  let a : QtcNode α := { h.cell s.1 with next := none }
  let h₁ : Heap α := h.alloc n
  let h₂ : Heap α := h₁.alloc a
  let h₃ : Heap α := h₂.set h.size { n with arguments := some (h.size + 1) }
  have hsize₁ : h₁.size = h.size + 1 := rfl
  have hsize₃ : h₃.size = h.size + 2 := rfl
  have hnew₂ : h₂.cell h.size = n := by
    rw [Lib.Heap.alloc_cell_of_lt _ _ (by omega), Lib.Heap.alloc_cell_self]
  have hold : ∀ p, p < h.size → h₃.cell p = h.cell p := by
    intro p hp
    rw [Lib.Heap.set_cell_of_ne _ _ (Nat.ne_of_lt hp), Lib.Heap.alloc_cell_of_lt _ _ (by omega),
      Lib.Heap.alloc_cell_of_lt _ _ hp]
  have hcopy : h₃.cell (h.size + 1) = a := by
    rw [Lib.Heap.set_cell_of_ne _ _ (by omega)]
    exact Lib.Heap.alloc_cell_self h₁ a
  have hnew₃ : h₃.cell h.size = { n with arguments := some (h.size + 1) } :=
    Lib.Heap.set_cell_self _ _ _
  have hrun : copyArgs (fuel + 1) h₁ h.size none (some s.1)
      = appendArgs fuel h₃ (h.size + 1) (h.cell s.1).next := by
    have hs₁ : h₁.get s.1 = some (h.cell s.1) := by
      rw [h₁.get_eq (by omega), Lib.Heap.alloc_cell_of_lt _ _ hs]
    have hn₂ : h₂.get h.size = some n := by
      rw [h₂.get_eq (by show h.size < h.size + 1 + 1; omega), hnew₂]
    have hset : setArguments h₂ h.size (some (h.size + 1)) = some h₃ := by
      rw [setArguments_eq _ (by show h.size < h.size + 1 + 1; omega), hnew₂]
    have hs₃ : h₃.get s.1 = some (h.cell s.1) := by
      rw [h₃.get_eq (by omega), hold s.1 hs]
    have hlink : linkArg h₂ h.size none (h.size + 1) = some h₃ := by
      rw [linkArg, hn₂]
      exact hset
    rw [copyArgs, hs₁]
    show ((linkArg h₂ h.size none (h.size + 1)).bind _) = _
    rw [hlink, Option.bind_some, hs₃]
    show copyArgs fuel h₃ h.size (some (h.size + 1)) (h.cell s.1).next = _
    apply copyArgs_eq_appendArgs
    · omega
    · omega
    · rw [hnew₃]
      simp
  have hsrc : ∀ p ∈ src.map Prod.fst, h₃.cell p = h.cell p :=
    fun p hp => hold p (htail.lt_size p hp)
  have hleaf₃ : ∀ y ∈ src, IsLeaf h₃ y.1 y.2 := by
    intro y hy
    have hcell := hsrc y.1 (List.mem_map.mpr ⟨y, hy, rfl⟩)
    exact (c.leaf y (by rw [hargs]; exact List.mem_cons_of_mem _ hy)).frame (by rw [hcell])
      (by rw [hcell])
  obtain ⟨h', hh', app⟩ := appendArgs_spec src fuel h₃ (h.size + 1) (h.cell s.1).next hlen
    (by omega) (by rw [hcopy]) (htail.frame (by omega) fun p hp => by rw [hsrc p hp]) hleaf₃
    (fun hm => by have := htail.lt_size _ hm; omega)
  have hnode' : h'.cell h.size = { n with arguments := some (h.size + 1) } := by
    rw [app.cell h.size (by omega) (by omega), hnew₃]
  refine ⟨h', ?_, ⟨?_, ?_⟩, ?_, ?_, ?_, ?_, ?_, ?_⟩
  · rw [hfirst]
    exact hrun.trans hh'
  · rw [app.size]
    omega
  · intro p hp _
    rw [app.cell p (by omega) (by omega), hold p hp]
  · rw [app.size, hsize₃, List.length_map, hargs, List.length_cons]
    omega
  · rw [hnode']
  · show (h'.cell h.size).kind = inner.kind
    rw [hnode']
    exact c.kind
  · show Seg QtcNode.next h' (h'.cell h.size).arguments
      ((fresh (h.size + 1) x.preds).map Prod.fst) none
    rw [hnode', Entry.preds, hargs]
    refine ⟨rfl, ?_, app.seg⟩
    rw [app.size]
    omega
  · show fresh (h.size + 1) x.preds ≠ []
    rw [Entry.preds, hargs]
    exact List.cons_ne_nil _ _
  · intro y hy
    have hy' : y ∈ fresh (h.size + 1) (s.2 :: src.map Prod.snd) := by
      have := hy
      rwa [Entry.preds, hargs, List.map_cons] at this
    rcases List.mem_cons.mp hy' with rfl | hmem
    · have hl := c.leaf s (by rw [hargs]; exact List.mem_cons_self)
      have hcell : h'.cell (h.size + 1) = { a with next := (h'.cell (h.size + 1)).next } := by
        rw [app.relinked, hcopy]
      constructor
      · show (h'.cell (h.size + 1)).kind = .pred
        rw [hcell]
        exact hl.kind
      · show (h'.cell (h.size + 1)).content = some s.2
        rw [hcell]
        exact hl.content
    · exact app.leaf y hmem

end Altibase.Qmo
