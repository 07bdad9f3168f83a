/-
  Altibase.Qmo.Convert
  ────────────────────
  **`makeDNF` AND `makeCNF` BUILD THE NORMAL FORMS.**

    * `IsTree h p t` — the cells from `p` on hold the tree `t`;
    * `mergeArgs_spec` — the loop over the arguments folds their forms;
    * `makeDNF_spec`, `makeCNF_spec` — on a heap that holds a tree both
      return, with a form on fresh cells whose clauses are those of `dnf`
      and `cnf`;
    * `normalForms_value` — the forms have the value of the tree.

  Of the cells in use before, `makeDNF` changes none and `makeCNF` only the
  flag `MTC_NODE_PUSHED_PRED_FORCE`.
-/

import Altibase.Qmo.Product

namespace Altibase.Qmo

open Altibase.Lib (Seg)

variable {α : Type}

/-! ## §1. Trees in the heap. -/

mutual
/-- **The cells from `p` on hold a tree**: its root at `p`, the arguments of
    every AND and OR linked through `next`. -/
def IsTree (h : Heap α) : Nat → Tree α → Prop
  | p, .leaf m a => p < h.size ∧ IsLeaf h p a ∧ (h.cell p).cnfUnusable = m
  | p, .node op m args =>
    p < h.size ∧ (h.cell p).kind = op.kind ∧ (h.cell p).cnfUnusable = m ∧
      IsTrees h (h.cell p).arguments args
/-- The arguments of a node, from the pointer to the first. -/
def IsTrees (h : Heap α) : Option Nat → List (Tree α) → Prop
  | q, [] => q = none
  | q, t :: ts => ∃ p, q = some p ∧ IsTree h p t ∧ IsTrees h (h.cell p).next ts
end

mutual
/-- **The flag is handed down already**: where a node of the tree has
    `MTC_NODE_PUSHED_PRED_FORCE`, its first argument has it too. -/
def Handed (h : Heap α) : Nat → Tree α → Prop
  | _, .leaf _ _ => True
  | p, .node _ _ args =>
    ((h.cell p).pushedPredForce = true → ∀ arg, (h.cell p).arguments = some arg →
      (h.cell arg).pushedPredForce = true) ∧ Handeds h (h.cell p).arguments args
/-- `Handed` for each of the arguments. -/
def Handeds (h : Heap α) : Option Nat → List (Tree α) → Prop
  | _, [] => True
  | q, t :: ts => ∀ p, q = some p → Handed h p t ∧ Handeds h (h.cell p).next ts
end

/-- The root of a tree is in the heap. -/
theorem IsTree.lt {h : Heap α} {p : Nat} {t : Tree α} (ht : IsTree h p t) : p < h.size := by
  cases t with
  | leaf m a => exact ht.1
  | node op m args => exact ht.1

/-- So is the first argument. -/
theorem IsTrees.lt_of_some {h : Heap α} {q : Option Nat} {p : Nat} {ts : List (Tree α)}
    (hts : IsTrees h q ts) (hq : q = some p) : p < h.size := by
  cases ts with
  | nil =>
    have hnone : q = none := hts
    rw [hnone] at hq
    cases hq
  | cons t ts =>
    obtain ⟨r, hr, ht, -⟩ := hts
    rw [hr] at hq
    cases hq
    exact ht.lt

/-- **What a conversion leaves of a heap**: every cell but for one flag;
    with `force` off, that flag too. -/
structure Keeps (force : Bool) (h h' : Heap α) : Prop where
  size_le : h.size ≤ h'.size
  cell_eq : ∀ p, p < h.size →
    h'.cell p = { h.cell p with pushedPredForce := (h'.cell p).pushedPredForce }
  flag_eq : force = false → ∀ p, p < h.size → h'.cell p = h.cell p

namespace Keeps

variable {force : Bool} {h h₁ h₂ : Heap α}

/-- A heap keeps its own cells. -/
theorem refl (h : Heap α) : Keeps force h h :=
  ⟨Nat.le_refl _, fun _ _ => rfl, fun _ _ _ => rfl⟩

/-- Two conversions one after the other. -/
theorem trans (a : Keeps force h h₁) (b : Keeps force h₁ h₂) : Keeps force h h₂ := by
  constructor
  · exact Nat.le_trans a.size_le b.size_le
  · intro p hp
    rw [b.cell_eq p (Nat.lt_of_lt_of_le hp a.size_le), a.cell_eq p hp]
  · intro hf p hp
    rw [b.flag_eq hf p (Nat.lt_of_lt_of_le hp a.size_le), a.flag_eq hf p hp]

/-- Agreement below `h.size` keeps `h`. -/
theorem of_agree (a : Keeps force h h₁) (hsize : h.size ≤ h₂.size)
    (hcell : ∀ p, p < h.size → h₂.cell p = h₁.cell p) : Keeps force h h₂ := by
  constructor
  · exact hsize
  · intro p hp
    rw [hcell p hp]
    exact a.cell_eq p hp
  · intro hf p hp
    rw [hcell p hp]
    exact a.flag_eq hf p hp

/-- A node stays what it is. -/
theorem kind_eq (a : Keeps force h h₁) {p : Nat} (hp : p < h.size) :
    (h₁.cell p).kind = (h.cell p).kind := by
  rw [a.cell_eq p hp]

/-- A predicate keeps its content. -/
theorem content_eq (a : Keeps force h h₁) {p : Nat} (hp : p < h.size) :
    (h₁.cell p).content = (h.cell p).content := by
  rw [a.cell_eq p hp]

/-- The mark of the partial CNF is only read. -/
theorem unusable_eq (a : Keeps force h h₁) {p : Nat} (hp : p < h.size) :
    (h₁.cell p).cnfUnusable = (h.cell p).cnfUnusable := by
  rw [a.cell_eq p hp]

/-- Old nodes keep their arguments. -/
theorem arguments_eq (a : Keeps force h h₁) {p : Nat} (hp : p < h.size) :
    (h₁.cell p).arguments = (h.cell p).arguments := by
  rw [a.cell_eq p hp]

/-- Old nodes keep their siblings. -/
theorem next_eq (a : Keeps force h h₁) {p : Nat} (hp : p < h.size) :
    (h₁.cell p).next = (h.cell p).next := by
  rw [a.cell_eq p hp]

end Keeps

section Kept

variable {force : Bool} {h h' : Heap α}

/-- A conversion keeps trees. -/
theorem IsTree.keeps (k : Keeps force h h') :
    ∀ (t : Tree α) (p : Nat), IsTree h p t → IsTree h' p t := by
  intro t
  induction t using Tree.induct with
  | leaf m a =>
    intro p ht
    obtain ⟨hp, hl, hm⟩ := ht
    refine ⟨Nat.lt_of_lt_of_le hp k.size_le, ?_, ?_⟩
    · exact hl.frame (k.kind_eq hp) (k.content_eq hp)
    · rw [k.unusable_eq hp, hm]
  | node op m args ih =>
    intro p ht
    obtain ⟨hp, hk, hm, hargs⟩ := ht
    refine ⟨Nat.lt_of_lt_of_le hp k.size_le, ?_, ?_, ?_⟩
    · rw [k.kind_eq hp, hk]
    · rw [k.unusable_eq hp, hm]
    · rw [k.arguments_eq hp]
      clear hk hm hp
      -- The argument list, by induction from its start.
      generalize (h.cell p).arguments = q at hargs
      induction args generalizing q with
      | nil => exact hargs
      | cons t ts ihs =>
        obtain ⟨r, hq, ht, hts⟩ := hargs
        refine ⟨r, hq, ih t List.mem_cons_self r ht, ?_⟩
        rw [k.next_eq ht.lt]
        exact ihs (fun s hs => ih s (List.mem_cons_of_mem _ hs)) _ hts

/-- A conversion that leaves the flags leaves what is handed down. -/
theorem Handed.keeps (k : Keeps false h h') :
    ∀ (t : Tree α) (p : Nat), IsTree h p t → Handed h p t → Handed h' p t := by
  intro t
  induction t using Tree.induct with
  | leaf m a =>
    intro p _ _
    trivial
  | node op m args ih =>
    intro p ht hh
    obtain ⟨hp, -, -, hargs⟩ := ht
    obtain ⟨hfirst, hrest⟩ := hh
    have hcell : ∀ q, q < h.size → h'.cell q = h.cell q := k.flag_eq rfl
    constructor
    · intro hf arg harg
      rw [hcell p hp] at hf harg
      rw [hcell arg (hargs.lt_of_some harg)]
      exact hfirst hf arg harg
    · rw [hcell p hp]
      clear hfirst hp
      generalize (h.cell p).arguments = q at hargs hrest
      induction args generalizing q with
      | nil => trivial
      | cons t ts ihs =>
        obtain ⟨r, rfl, ht, hts⟩ := hargs
        intro r' hr'
        cases hr'
        obtain ⟨hh, hhs⟩ := hrest r rfl
        refine ⟨ih t List.mem_cons_self r ht hh, ?_⟩
        rw [hcell r ht.lt]
        exact ihs (fun s hs => ih s (List.mem_cons_of_mem _ hs)) _ hts hhs

/-- A conversion keeps forms. -/
theorem IsNF.keeps {outer : Op} {root : Nat} {M : List (Entry α)} (k : Keeps force h h')
    (nf : IsNF outer h root M) : IsNF outer h' root M := by
  constructor
  · exact Nat.lt_of_lt_of_le nf.root_lt k.size_le
  · -- its kind
    rw [k.kind_eq nf.root_lt]
    exact nf.kind
  · -- its arguments are the clauses
    rw [k.arguments_eq nf.root_lt]
    exact nf.args.frame k.size_le fun p hp => k.next_eq (nf.args.lt_size p hp)
  · exact nf.ne
  · -- the clauses
    intro x hx
    have c := nf.clause x hx
    have hnode : x.node < h.size := nf.lt_of_mem hx _ List.mem_cons_self
    constructor
    · rw [k.kind_eq hnode]
      exact c.kind
    · rw [k.arguments_eq hnode]
      exact c.args.frame k.size_le fun p hp => k.next_eq (c.lt_size p hp)
    · exact c.ne
    · intro y hy
      have hylt := c.lt_size y.1 (List.mem_map.mpr ⟨y, hy, rfl⟩)
      exact (c.leaf y hy).frame (k.kind_eq hylt) (k.content_eq hylt)
  · exact nf.nodup

end Kept

/-! ## §2. Forms on fresh cells. -/

/-- A form with the clauses `cs` on cells from `base` up to `top`. -/
def IsForm (outer : Op) (base top : Nat) (h : Heap α) (root : Nat) (cs : List (List α)) : Prop :=
  ∃ M, IsNF outer h root M ∧ clauses M = cs ∧ ∀ p ∈ root :: foot M, base ≤ p ∧ p < top

/-- The same of a form that may be absent; an absent form has no clause. -/
def IsOptForm (outer : Op) (base top : Nat) (h : Heap α) : Option Nat → List (List α) → Prop
  | none, cs => cs = []
  | some root, cs => IsForm outer base top h root cs

section Forms

variable {outer : Op} {base mid top : Nat} {h : Heap α} {cs ds : List (List α)}

/-- A form has a clause. -/
theorem IsForm.ne {root : Nat} (a : IsForm outer base top h root cs) : cs ≠ [] := by
  obtain ⟨M, nf, rfl, -⟩ := a
  intro hnil
  exact nf.ne (List.map_eq_nil_iff.mp hnil)

/-- The new nodes of a form may be said to be in a larger range. -/
theorem IsForm.mono {root base' top' : Nat} (a : IsForm outer base top h root cs)
    (hbase : base' ≤ base) (htop : top ≤ top') : IsForm outer base' top' h root cs := by
  obtain ⟨M, nf, hM, hp⟩ := a
  refine ⟨M, nf, hM, ?_⟩
  intro p hmem
  have := hp p hmem
  omega

/-- **A form outlasts the conversions behind it.** -/
theorem IsForm.keeps {force : Bool} {h' : Heap α} {root : Nat}
    (a : IsForm outer base top h root cs) (k : Keeps force h h') :
    IsForm outer base top h' root cs := by
  obtain ⟨M, nf, hM, hp⟩ := a
  exact ⟨M, nf.keeps k, hM, hp⟩

/-- So does an optional one. -/
theorem IsOptForm.keeps {force : Bool} {h' : Heap α} {r : Option Nat}
    (a : IsOptForm outer base top h r cs) (k : Keeps force h h') :
    IsOptForm outer base top h' r cs := by
  cases r with
  | none => exact a
  | some root => exact IsForm.keeps a k

/-- A merge of two forms, the second on later cells, works on cells from
    `base` on only. -/
theorem Merges.forms {merge : Heap α → Nat → Nat → Option (Heap α × Nat)}
    {f : List (List α) → List (List α) → List (List α)} (hm : Merges outer merge f)
    {prev curr : Nat} (a : IsForm outer base mid h prev cs) (b : IsForm outer mid top h curr ds)
    (hbase : base ≤ mid) (hmid : mid ≤ h.size) :
    ∃ h', merge h prev curr = some (h', prev) ∧ h.size ≤ h'.size ∧
      (∀ p, p < base → h'.cell p = h.cell p) ∧
      IsForm outer base h'.size h' prev (f cs ds) := by
  obtain ⟨M, nfM, rfl, hM⟩ := a
  obtain ⟨N, nfN, rfl, hN⟩ := b
  have hdisj : ∀ p ∈ curr :: foot N, p ∉ prev :: foot M := by
    intro p hp hmem
    have h1 := hN p hp
    have h2 := hM p hmem
    omega
  obtain ⟨h', M', hrun, nf', hM', hext, hfoot⟩ := hm h prev curr M N nfM nfN hdisj
  refine ⟨h', hrun, hext.size_le, ?_, M', nf', hM', ?_⟩
  · intro p hp
    apply hext.cell_eq p (by omega)
    intro hmem
    have := hM p (List.mem_cons_of_mem _ hmem)
    omega
  · intro p hp
    refine ⟨?_, nf'.lt_size p hp⟩
    rcases List.mem_cons.mp hp with rfl | hmem
    · exact (hM p List.mem_cons_self).1
    · rcases hfoot p hmem with hm | hn | hnew
      · exact (hM p (List.mem_cons_of_mem _ hm)).1
      · have := hN p (List.mem_cons_of_mem _ hn)
        omega
      · omega

end Forms

/-! ## §3. The arguments of a node. -/

section Args

variable {R : Type} {force hand : Bool}
  -- `Holds base top h r cs`: the result `r` has the clauses `cs`.
  {Holds : Nat → Nat → Heap α → R → List (List α) → Prop}
  {make : Heap α → Nat → Option (Heap α × R)} {merge : Heap α → R → R → Option (Heap α × R)}
  {f : List (List α) → List (List α) → List (List α)} {conv : Tree α → List (List α)}
  {ok : List (List α) → Prop}

/-- What the conversion `make` does for a tree; with `hand` on, for a tree in
    which the flag is handed down already. -/
def Makes (force hand : Bool) (Holds : Nat → Nat → Heap α → R → List (List α) → Prop)
    (make : Heap α → Nat → Option (Heap α × R)) (t : Tree α) (cs : List (List α)) : Prop :=
  ∀ h p, IsTree h p t → (hand = true → Handed h p t) →
    ∃ h' r, make h p = some (h', r) ∧ Keeps force h h' ∧ Holds h.size h'.size h' r cs

/-- What `merge` does for two results; `ok` says which clauses it can take. -/
def MergesHeld (Holds : Nat → Nat → Heap α → R → List (List α) → Prop)
    (ok : List (List α) → Prop) (merge : Heap α → R → R → Option (Heap α × R))
    (f : List (List α) → List (List α) → List (List α)) : Prop :=
  ∀ base mid h r s cs ds, Holds base mid h r cs → Holds mid h.size h s ds → base ≤ mid →
    mid ≤ h.size → ok cs → ok ds →
    ∃ h' r', merge h r s = some (h', r') ∧ h.size ≤ h'.size ∧
      (∀ p, p < base → h'.cell p = h.cell p) ∧ Holds base h'.size h' r' (f cs ds) ∧ ok (f cs ds)

/-- **The loop over the arguments**, by induction on them: each is converted
    and merged into the form so far. -/
theorem mergeArgs_spec
    (hkeeps : ∀ base top h h' r cs, Holds base top h r cs → Keeps force h h' →
      Holds base top h' r cs)
    (hmerge : MergesHeld Holds ok merge f) (hforce : hand = true → force = false)
    (ts : List (Tree α)) :
    ∀ (fuel : Nat) (h₀ h : Heap α) (r : R) (arg : Option Nat) (cs : List (List α)),
      (∀ t ∈ ts, Makes force hand Holds make t (conv t) ∧ ok (conv t)) → ts.length ≤ fuel →
      IsTrees h₀ arg ts → (hand = true → Handeds h₀ arg ts) → Keeps force h₀ h →
      Holds h₀.size h.size h r cs → ok cs →
      ∃ h' r', mergeArgs make merge fuel h r arg = some (h', r') ∧ Keeps force h₀ h' ∧
        Holds h₀.size h'.size h' r' ((ts.map conv).foldl f cs) := by
  induction ts with
  | nil =>
    intro fuel h₀ h r arg cs _ _ hargs _ k hr _
    have harg : arg = none := hargs
    refine ⟨h, r, ?_, k, hr⟩
    rw [harg]
    cases fuel <;> rfl
  | cons t ts ih =>
    intro fuel h₀ h r arg cs hmake hfuel hargs hhands k hr hok
    obtain ⟨fuel, rfl⟩ : ∃ n, fuel = n + 1 := by
      rw [List.length_cons] at hfuel
      exact ⟨fuel - 1, by omega⟩
    obtain ⟨p, rfl, ht, hts⟩ := hargs
    obtain ⟨hm, hokt⟩ := hmake t List.mem_cons_self
    have hhand : hand = true → Handed h p t := by
      intro hh
      have k' := k
      rw [hforce hh] at k'
      exact Handed.keeps k' t p ht (hhands hh p rfl).1
    -- the next argument is converted, which leaves what was merged so far
    obtain ⟨h₁, s, hrun₁, k₁, hs⟩ := hm h p (ht.keeps k t p) hhand
    have k₀₁ : Keeps force h₀ h₁ := k.trans k₁
    -- its form is merged in
    obtain ⟨h₂, r', hrun₂, hle, hagree, hr', hok'⟩ :=
      hmerge h₀.size h.size h₁ r s cs (conv t) (hkeeps _ _ _ _ _ _ hr k₁) hs k.size_le k₁.size_le
        hok hokt
    have k₂ : Keeps force h₀ h₂ :=
      k₀₁.of_agree (Nat.le_trans k₀₁.size_le hle) hagree
    have hlen : ts.length ≤ fuel := by
      rw [List.length_cons] at hfuel
      omega
    -- the link to the argument behind it is the one of the source tree
    obtain ⟨h', r'', hrun, k', hr''⟩ :=
      ih fuel h₀ h₂ r' (h₀.cell p).next (f cs (conv t))
        (fun u hu => hmake u (List.mem_cons_of_mem _ hu)) hlen hts
        (fun hh => (hhands hh p rfl).2) k₂ hr' hok'
    refine ⟨h', r'', ?_, k', hr''⟩
    have hget : h₂.get p = some (h₂.cell p) := h₂.get_eq (Nat.lt_of_lt_of_le ht.lt k₂.size_le)
    rw [mergeArgs, hrun₁]
    show (merge h₁ r s).bind _ = _
    rw [hrun₂]
    show (h₂.get p).bind _ = _
    rw [hget]
    show mergeArgs make merge fuel h₂ r' (h₂.cell p).next = _
    rw [k₂.next_eq ht.lt]
    exact hrun

/-- **All arguments of a node**: the first is converted, the others are
    merged behind it. -/
theorem makeArgs_spec
    (hkeeps : ∀ base top h h' r cs, Holds base top h r cs → Keeps force h h' →
      Holds base top h' r cs)
    (hmerge : MergesHeld Holds ok merge f) (hforce : hand = true → force = false)
    {ts : List (Tree α)} {fuel : Nat} {h : Heap α} {q : Option Nat}
    (hmake : ∀ t ∈ ts, Makes force hand Holds make t (conv t) ∧ ok (conv t))
    (hfuel : ts.length ≤ fuel) (hargs : IsTrees h q ts) (hhands : hand = true → Handeds h q ts)
    (hne : ts ≠ []) :
    ∃ arg h₁ r h' r', q = some arg ∧ make h arg = some (h₁, r) ∧
      h₁.get arg = some (h₁.cell arg) ∧
      mergeArgs make merge fuel h₁ r (h₁.cell arg).next = some (h', r') ∧ Keeps force h h' ∧
      Holds h.size h'.size h' r' (foldOnto f [] (ts.map conv)) := by
  obtain ⟨t, ts, rfl⟩ := List.exists_cons_of_ne_nil hne
  obtain ⟨arg, hq, ht, hts⟩ := hargs
  obtain ⟨hm, hok⟩ := hmake t List.mem_cons_self
  obtain ⟨h₁, r, hrun, k, hr⟩ := hm h arg ht fun hh => (hhands hh arg hq).1
  rw [List.length_cons] at hfuel
  obtain ⟨h', r', hrun', k', hr'⟩ :=
    mergeArgs_spec hkeeps hmerge hforce ts fuel h h₁ r (h.cell arg).next (conv t)
      (fun u hu => hmake u (List.mem_cons_of_mem _ hu)) (by omega) hts
      (fun hh => (hhands hh arg hq).2) k hr hok
  refine ⟨arg, h₁, r, h', r', hq, hrun, h₁.get_eq (Nat.lt_of_lt_of_le ht.lt k.size_le), ?_, k', hr'⟩
  rw [k.next_eq ht.lt]
  exact hrun'

end Args

/-- A terminal predicate becomes a form of one clause. -/
theorem makeTerminal_spec (outer : Op) (force flag : Bool) {h : Heap α} {p : Nat} {a : α}
    (hl : IsLeaf h p a) :
    ∃ h' root, makeTerminal outer flag h (h.cell p) = (h', root) ∧ Keeps force h h' ∧
      IsForm outer h.size h'.size h' root [[a]] := by
  -- the three cells: the root, its clause, and the copy of the predicate
  let n₁ : QtcNode α := { (makeNode outer : QtcNode α) with arguments := some (h.size + 1) }
  let n₂ : QtcNode α := { (makeNode outer.dual : QtcNode α) with
    pushedPredForce := flag, arguments := some (h.size + 2) }
  let c : QtcNode α := { h.cell p with next := none }
  let h₁ : Heap α := h.alloc n₁
  let h₂ : Heap α := h₁.alloc n₂
  have hsize : (h₂.alloc c).size = h.size + 3 := rfl
  -- what was there before is untouched
  have hold : ∀ r, r < h.size → (h₂.alloc c).cell r = h.cell r := by
    intro r hr
    have h1 : r < h₁.size := Nat.lt_succ_of_lt hr
    have h2 : r < h₂.size := Nat.lt_succ_of_lt h1
    rw [Lib.Heap.alloc_cell_of_lt _ _ h2, Lib.Heap.alloc_cell_of_lt _ _ h1,
      Lib.Heap.alloc_cell_of_lt _ _ hr]
  have hc₀ : (h₂.alloc c).cell h.size = n₁ := by
    have h1 : h.size < h₁.size := Nat.lt_succ_self _
    have h2 : h.size < h₂.size := Nat.lt_succ_of_lt h1
    rw [Lib.Heap.alloc_cell_of_lt _ _ h2, Lib.Heap.alloc_cell_of_lt _ _ h1,
      Lib.Heap.alloc_cell_self]
  have hc₁ : (h₂.alloc c).cell (h.size + 1) = n₂ := by
    have h2 : h.size + 1 < h₂.size := Nat.lt_succ_self _
    rw [Lib.Heap.alloc_cell_of_lt _ _ h2]
    exact Lib.Heap.alloc_cell_self h₁ n₂
  have hc₂ : (h₂.alloc c).cell (h.size + 2) = c := Lib.Heap.alloc_cell_self h₂ c
  refine ⟨h₂.alloc c, h.size, rfl, ?_, ?_⟩
  · exact (Keeps.refl h).of_agree (by omega) hold
  · refine ⟨[⟨h.size + 1, [(h.size + 2, a)]⟩], ?_, rfl, ?_⟩
    · constructor
      · omega
      · -- its kind
        rw [hc₀]
        rfl
      · -- its arguments are the clauses
        rw [hc₀]
        refine ⟨rfl, ?_, ?_⟩
        · show h.size + 1 < (h₂.alloc c).size
          omega
        · show ((h₂.alloc c).cell (h.size + 1)).next = none
          rw [hc₁]
          rfl
      · exact List.cons_ne_nil _ _
      · -- the clauses
        intro x hx
        rw [List.mem_singleton.mp hx]
        constructor
        · -- the kind
          show ((h₂.alloc c).cell (h.size + 1)).kind = outer.dual.kind
          rw [hc₁]
          rfl
        · -- the arguments
          show Seg QtcNode.next (h₂.alloc c) ((h₂.alloc c).cell (h.size + 1)).arguments
            [h.size + 2] none
          rw [hc₁]
          refine ⟨rfl, ?_, ?_⟩
          · omega
          · rw [hc₂]
            rfl
        · exact List.cons_ne_nil _ _
        · -- the arguments are leaves
          intro y hy
          rw [List.mem_singleton.mp hy]
          constructor
          · show ((h₂.alloc c).cell (h.size + 2)).kind = .pred
            rw [hc₂]
            exact hl.kind
          · show ((h₂.alloc c).cell (h.size + 2)).content = some a
            rw [hc₂]
            exact hl.content
      · -- no cell is used twice
        show [h.size, h.size + 1, h.size + 2].Nodup
        simp
    · intro r hr
      have hr' : r ∈ [h.size, h.size + 1, h.size + 2] := hr
      simp only [List.mem_cons, List.not_mem_nil, or_false] at hr'
      omega

/-! ## §4. `makeDNF`. -/

/-- The clauses of two forms, one list behind the other. -/
theorem addToMerge_held (outer : Op) : MergesHeld (α := α) (IsForm outer) (fun _ => True)
    addToMerge (· ++ ·) := by
  intro base mid h r s cs ds hr hs hbase hmid _ _
  obtain ⟨h', hrun, hle, hagree, hform⟩ := (addToMerge_spec outer).forms hr hs hbase hmid
  exact ⟨h', r, hrun, hle, hagree, hform, trivial⟩

/-- The clauses of two forms, each with each. -/
theorem productToMerge_held (outer : Op) : MergesHeld (α := α) (IsForm outer) (fun _ => True)
    productToMerge product := by
  intro base mid h r s cs ds hr hs hbase hmid _ _
  obtain ⟨h', hrun, hle, hagree, hform⟩ := (productToMerge_spec outer).forms hr hs hbase hmid
  exact ⟨h', r, hrun, hle, hagree, hform, trivial⟩

/-- **`makeDNF` returns the disjunctive normal form** and changes no cell
    that was in use. -/
theorem makeDNF_spec (t : Tree α) : ∀ fuel, t.Proper → t.size ≤ fuel →
    Makes false false (IsForm .or) (makeDNF fuel) t (dnf t) := by
  induction t using Tree.induct with
  | leaf m a =>
    intro fuel _ hfuel h p ht _
    obtain ⟨fuel, rfl⟩ : ∃ n, fuel = n + 1 := ⟨fuel - 1, by unfold Tree.size at hfuel; omega⟩
    obtain ⟨hp, hl, -⟩ := ht
    obtain ⟨h', root, hrun, k, hform⟩ := makeTerminal_spec .or false false hl
    refine ⟨h', root, ?_, k, hform⟩
    rw [makeDNF, h.get_eq hp]
    dsimp only [Option.bind_eq_bind, Option.bind_some]
    rw [hl.kind]
    exact congrArg some hrun
  | node op m args ih =>
    intro fuel hproper hfuel h p ht _
    obtain ⟨fuel, rfl⟩ : ∃ n, fuel = n + 1 := ⟨fuel - 1, by unfold Tree.size at hfuel; omega⟩
    have hsizes : Tree.sizes args ≤ fuel := by
      unfold Tree.size at hfuel
      omega
    have hlen : args.length ≤ fuel := Nat.le_trans (Tree.length_le_sizes args) hsizes
    obtain ⟨hp, hk, -, hargs⟩ := ht
    have hmake : ∀ t ∈ args, Makes false false (IsForm .or) (makeDNF fuel) t (dnf t) ∧ True :=
      fun t ht => ⟨ih t ht fuel ((Tree.propers_iff args).mp hproper.2 t ht)
        (Nat.le_trans (Tree.size_le_sizes ht) hsizes), trivial⟩
    have hnfs : args.map dnf = nfs .or false args := (nfs_eq_map .or false args).symm
    cases op with
    | and =>
      -- the forms of the arguments of an AND are multiplied
      obtain ⟨arg, h₁, r, h', r', hq, hfirst, hget, hrest, k, hform⟩ :=
        makeArgs_spec (fun _ _ _ _ _ _ hr k => hr.keeps k) (productToMerge_held .or)
          (fun hfalse => absurd hfalse (by decide)) hmake hlen hargs
          (fun hfalse => absurd hfalse (by decide)) hproper.1
      rw [hnfs] at hform
      refine ⟨h', r', ?_, k, hform⟩
      rw [makeDNF, h.get_eq hp]
      dsimp only [Option.bind_eq_bind, Option.bind_some]
      rw [hk]
      show (h.cell p).arguments.bind _ = _
      rw [hq]
      show (makeDNF fuel h arg).bind _ = _
      rw [hfirst]
      show (h₁.get arg).bind _ = _
      rw [hget]
      exact hrest
    | or =>
      -- those of an OR are put behind each other
      obtain ⟨arg, h₁, r, h', r', hq, hfirst, hget, hrest, k, hform⟩ :=
        makeArgs_spec (fun _ _ _ _ _ _ hr k => hr.keeps k) (addToMerge_held .or)
          (fun hfalse => absurd hfalse (by decide)) hmake hlen hargs
          (fun hfalse => absurd hfalse (by decide)) hproper.1
      rw [hnfs] at hform
      refine ⟨h', r', ?_, k, hform⟩
      rw [makeDNF, h.get_eq hp]
      dsimp only [Option.bind_eq_bind, Option.bind_some]
      rw [hk]
      show (h.cell p).arguments.bind _ = _
      rw [hq]
      show (makeDNF fuel h arg).bind _ = _
      rw [hfirst]
      show (h₁.get arg).bind _ = _
      rw [hget]
      exact hrest

/-! ## §5. `makeCNF`. -/

/-- What holds of all members and passes to `f` holds of a fold. -/
theorem foldOnto_induct {β : Type*} {P : β → Prop} {f : β → β → β} {e : β} {xs : List β}
    (hf : ∀ a b, P a → P b → P (f a b)) (hne : xs ≠ []) (hP : ∀ x ∈ xs, P x) :
    P (foldOnto f e xs) := by
  obtain ⟨x, xs, rfl⟩ := List.exists_cons_of_ne_nil hne
  show P (xs.foldl f x)
  have hx := hP x List.mem_cons_self
  have hxs : ∀ y ∈ xs, P y := fun y hy => hP y (List.mem_cons_of_mem x hy)
  clear hne hP
  induction xs generalizing x with
  | nil => exact hx
  | cons y xs ih =>
    exact ih (f x y) (hf x y hx (hxs y List.mem_cons_self))
      fun z hz => hxs z (List.mem_cons_of_mem y hz)

/-- The product of two forms with clauses has a clause. -/
theorem product_ne_nil {prev curr : List (List α)} (hp : prev ≠ []) (hc : curr ≠ []) :
    product prev curr ≠ [] := by
  apply List.ne_nil_of_length_pos
  rw [product_length]
  exact Nat.mul_pos (List.length_pos_iff.mpr hc) (List.length_pos_iff.mpr hp)

/-- A tree that no mark excludes has a clause. -/
theorem nf_ne_nil (outer : Op) (marks : Bool) (t : Tree α) :
    t.Proper → (marks = true → t.Unmarked) → nf outer marks t ≠ [] := by
  induction t using Tree.induct with
  | leaf m a =>
    intro _ hm
    have hoff : (marks && m) = false := by
      cases hmarks : marks with
      | false => rfl
      | true => exact hm hmarks
    rw [nf, hoff]
    exact List.cons_ne_nil _ _
  | node op m args ih =>
    intro hp hm
    have hoff : (marks && m) = false := by
      cases hmarks : marks with
      | false => rfl
      | true => exact (hm hmarks).1
    have hall : ∀ cs ∈ nfs outer marks args, cs ≠ [] := by
      intro cs hcs
      rw [nfs_eq_map] at hcs
      obtain ⟨t, ht, rfl⟩ := List.mem_map.mp hcs
      exact ih t ht ((Tree.propers_iff args).mp hp.2 t ht)
        fun h => (Tree.unmarkeds_iff args).mp (hm h).2 t ht
    have hne : nfs outer marks args ≠ [] := by
      rw [nfs_eq_map]
      simpa using hp.1
    rw [nf, hoff, if_neg Bool.false_ne_true]
    split_ifs
    · exact foldOnto_induct (P := (· ≠ []))
        (fun a b ha _ => List.append_ne_nil_of_left_ne_nil ha b) hne hall
    · exact foldOnto_induct (P := (· ≠ [])) (fun a b ha hb => product_ne_nil ha hb) hne hall

/-- The same where a side may be absent. -/
theorem addToMerge2_held (outer : Op) : MergesHeld (α := α) (IsOptForm outer) (fun _ => True)
    addToMerge2 (· ++ ·) := by
  intro base mid h r s cs ds hr hs hbase hmid _ _
  cases r with
  | none =>
    have hcs : cs = [] := hr
    refine ⟨h, s, rfl, Nat.le_refl _, fun _ _ => rfl, ?_, trivial⟩
    rw [hcs]
    cases s with
    | none => exact hs
    | some curr => exact IsForm.mono hs hbase (Nat.le_refl _)
  | some prev =>
    cases s with
    | none =>
      have hds : ds = [] := hs
      refine ⟨h, some prev, rfl, Nat.le_refl _, fun _ _ => rfl, ?_, trivial⟩
      show IsForm outer base h.size h prev (cs ++ ds)
      rw [hds, List.append_nil]
      exact IsForm.mono hr (Nat.le_refl _) hmid
    | some curr =>
      obtain ⟨h', hrun, hle, hagree, hform⟩ := (addToMerge_spec outer).forms hr hs hbase hmid
      refine ⟨h', some prev, ?_, hle, hagree, hform, trivial⟩
      show (addToMerge h prev curr).bind _ = _
      rw [hrun]
      rfl

/-- The same for the product; here a form that is there must have a clause. -/
theorem productToMergeCNF_held (outer : Op) : MergesHeld (α := α) (IsOptForm outer) (· ≠ [])
    productToMergeCNF product := by
  intro base mid h r s cs ds hr hs hbase hmid hcs hds
  -- Neither form is absent: an absent one has no clause.
  cases r with
  | none => exact absurd hr hcs
  | some prev =>
    cases s with
    | none => exact absurd hs hds
    | some curr =>
      obtain ⟨h', hrun, hle, hagree, hform⟩ := (productToMerge_spec outer).forms hr hs hbase hmid
      refine ⟨h', some prev, ?_, hle, hagree, hform, product_ne_nil hcs hds⟩
      show (productToMerge h prev curr).bind _ = _
      rw [hrun]
      rfl

/-- Handing the flag down writes nothing but flags, and nothing where the
    first argument has it. -/
theorem pushForce_spec {h : Heap α} {c : QtcNode α} {args : List (Tree α)} (force : Bool)
    (hargs : IsTrees h c.arguments args) (hne : args ≠ [])
    (hhand : force = false → c.pushedPredForce = true → ∀ arg, c.arguments = some arg →
      (h.cell arg).pushedPredForce = true) :
    ∃ h', pushForce h c = some h' ∧ Keeps force h h' ∧ h'.size = h.size := by
  unfold pushForce
  by_cases hf : c.pushedPredForce = true
  · obtain ⟨t, ts, rfl⟩ := List.exists_cons_of_ne_nil hne
    obtain ⟨arg, hq, ht, -⟩ := hargs
    let h' : Heap α := h.set arg { h.cell arg with pushedPredForce := true }
    refine ⟨h', ?_, ⟨Nat.le_refl _, ?_, ?_⟩, rfl⟩
    · rw [if_pos hf, hq]
      show (h.get arg).bind _ = _
      rw [h.get_eq ht.lt]
      rfl
    · intro p _
      by_cases hp : p = arg
      · rw [hp]
        show h'.cell arg = { h.cell arg with pushedPredForce := (h'.cell arg).pushedPredForce }
        rw [Lib.Heap.set_cell_self]
      · rw [Lib.Heap.set_cell_of_ne _ _ hp]
    · intro hforce p _
      by_cases hp : p = arg
      · have hflag := hhand hforce hf arg hq
        rw [hp]
        show (h.set arg { h.cell arg with pushedPredForce := true }).cell arg = h.cell arg
        rw [Lib.Heap.set_cell_self, ← hflag]
      · rw [Lib.Heap.set_cell_of_ne _ _ hp]
  · exact ⟨h, if_neg hf, Keeps.refl h, rfl⟩

/-- **`makeCNF` returns the conjunctive normal form** of a tree whose marks
    exclude whole conjuncts, and changes nothing that was in use but flags;
    where the flags are handed down already, nothing at all. -/
theorem makeCNF_spec (force : Bool) (t : Tree α) : ∀ fuel, t.Proper → t.WellMarked →
    t.size ≤ fuel → Makes force (!force) (IsOptForm .and) (makeCNF fuel) t (cnf t) := by
  have hhf : (!force) = true → force = false := by
    cases force <;> simp
  have hfh : force = false → (!force) = true := by
    cases force <;> simp
  induction t using Tree.induct with
  | leaf m a =>
    intro fuel _ _ hfuel h p ht _
    obtain ⟨fuel, rfl⟩ : ∃ n, fuel = n + 1 := ⟨fuel - 1, by unfold Tree.size at hfuel; omega⟩
    obtain ⟨hp, hl, hm⟩ := ht
    rw [makeCNF, h.get_eq hp]
    show ∃ h' r, (if (h.cell p).cnfUnusable then _ else _) = _ ∧ _
    rw [hm]
    cases m with
    | true => exact ⟨h, none, rfl, Keeps.refl h, rfl⟩
    | false =>
      obtain ⟨h', root, hrun, k, hform⟩ :=
        makeTerminal_spec .and force (h.cell p).pushedPredForce hl
      refine ⟨h', some root, ?_, k, hform⟩
      dsimp only [Option.bind_eq_bind, Option.bind_some]
      rw [hl.kind]
      show some ((makeTerminal .and (h.cell p).pushedPredForce h (h.cell p)).1,
        some (makeTerminal .and (h.cell p).pushedPredForce h (h.cell p)).2) = _
      rw [hrun]
  | node op m args ih =>
    intro fuel hproper hwell hfuel h p ht hhand
    obtain ⟨fuel, rfl⟩ : ∃ n, fuel = n + 1 := ⟨fuel - 1, by unfold Tree.size at hfuel; omega⟩
    have hsizes : Tree.sizes args ≤ fuel := by
      unfold Tree.size at hfuel
      omega
    have hlen : args.length ≤ fuel := Nat.le_trans (Tree.length_le_sizes args) hsizes
    obtain ⟨hp, hk, hm, hargs⟩ := ht
    have hpropers := (Tree.propers_iff args).mp hproper.2
    have hmake : ∀ t ∈ args, t.WellMarked →
        Makes force (!force) (IsOptForm .and) (makeCNF fuel) t (cnf t) := fun t ht hw =>
      ih t ht fuel (hpropers t ht) hw (Nat.le_trans (Tree.size_le_sizes ht) hsizes)
    have hnfs : args.map cnf = nfs .and true args := (nfs_eq_map .and true args).symm
    rw [makeCNF, h.get_eq hp]
    show ∃ h' r, (if (h.cell p).cnfUnusable then _ else _) = _ ∧ _
    rw [hm]
    cases m with
    | true => exact ⟨h, none, rfl, Keeps.refl h, rfl⟩
    | false =>
      obtain ⟨h₀, hpush, k₀, hsize₀⟩ := pushForce_spec force hargs hproper.1
        fun hf => (hhand (hfh hf)).1
      -- The arguments are read from the heap with the flag handed down.
      have hargs₀ : IsTrees h₀ (h.cell p).arguments args := by
        have hnode : IsTree h p (.node op false args) := ⟨hp, hk, hm, hargs⟩
        have := (hnode.keeps k₀ _ p).2.2.2
        rwa [k₀.arguments_eq hp] at this
      have hhands₀ : (!force) = true → Handeds h₀ (h.cell p).arguments args := by
        intro hh
        have k' := k₀
        rw [hhf hh] at k'
        have hnode : IsTree h p (.node op false args) := ⟨hp, hk, hm, hargs⟩
        have := (Handed.keeps k' _ p hnode (hhand hh)).2
        rwa [k₀.arguments_eq hp] at this
      cases op with
      | and =>
        have hall : ∀ t ∈ args,
            Makes force (!force) (IsOptForm .and) (makeCNF fuel) t (cnf t) ∧ True :=
          fun t ht => ⟨hmake t ht ((Tree.wellMarkeds_iff args).mp hwell t ht), trivial⟩
        obtain ⟨arg, h₁, r, h', r', hq, hfirst, hget, hrest, k, hform⟩ :=
          makeArgs_spec (fun _ _ _ _ _ _ hr k => hr.keeps k) (addToMerge2_held .and) hhf hall
            hlen hargs₀ hhands₀ hproper.1
        rw [hnfs, hsize₀] at hform
        refine ⟨h', r', ?_, k₀.trans k, hform⟩
        dsimp only [Option.bind_eq_bind, Option.bind_some]
        rw [hk]
        show (pushForce h (h.cell p)).bind _ = _
        rw [hpush]
        show (h.cell p).arguments.bind _ = _
        rw [hq]
        show (makeCNF fuel h₀ arg).bind _ = _
        rw [hfirst]
        show (h₁.get arg).bind _ = _
        rw [hget]
        exact hrest
      | or =>
        have hun : ∀ t ∈ args, t.Unmarked := by
          rcases hwell with htrue | hun
          · exact absurd htrue (by decide)
          · exact (Tree.unmarkeds_iff args).mp hun
        have hall : ∀ t ∈ args,
            Makes force (!force) (IsOptForm .and) (makeCNF fuel) t (cnf t) ∧
              cnf t ≠ [] := fun t ht =>
          ⟨hmake t ht (hun t ht).wellMarked,
            nf_ne_nil .and true t (hpropers t ht) fun _ => hun t ht⟩
        obtain ⟨arg, h₁, r, h', r', hq, hfirst, hget, hrest, k, hform⟩ :=
          makeArgs_spec (fun _ _ _ _ _ _ hr k => hr.keeps k) (productToMergeCNF_held .and) hhf
            hall hlen hargs₀ hhands₀ hproper.1
        rw [hnfs, hsize₀] at hform
        refine ⟨h', r', ?_, k₀.trans k, hform⟩
        dsimp only [Option.bind_eq_bind, Option.bind_some]
        rw [hk]
        show (pushForce h (h.cell p)).bind _ = _
        rw [hpush]
        show (h.cell p).arguments.bind _ = _
        rw [hq]
        show (makeCNF fuel h₀ arg).bind _ = _
        rw [hfirst]
        show (h₁.get arg).bind _ = _
        rw [hget]
        exact hrest

/-! ## §6. Meaning. -/

/-- **Normalization preserves meaning.**  On a heap that holds a tree
    `makeDNF` returns an OR of ANDs with the tree's value under every
    assignment and changes no cell in use; without marks `makeCNF` returns
    an AND of ORs with the same value and changes nothing in use but the
    flag `MTC_NODE_PUSHED_PRED_FORCE`, and nothing at all where that flag is
    handed down already. -/
theorem normalForms_value {h : Heap α} {p fuel : Nat} {t : Tree α} (ht : IsTree h p t)
    (hproper : t.Proper) (hfuel : t.size ≤ fuel) :
    (∃ h' root M, makeDNF fuel h p = some (h', root) ∧ IsNF .or h' root M ∧
      (∀ v : α → Truth, nfValue v .or (clauses M) = t.eval v) ∧
      ∀ q, q < h.size → h'.cell q = h.cell q) ∧
    (t.Unmarked → ∃ h' root M, makeCNF fuel h p = some (h', some root) ∧ IsNF .and h' root M ∧
      (∀ v : α → Truth, nfValue v .and (clauses M) = t.eval v) ∧
      (∀ q, q < h.size →
        h'.cell q = { h.cell q with pushedPredForce := (h'.cell q).pushedPredForce }) ∧
      (Handed h p t → ∀ q, q < h.size → h'.cell q = h.cell q)) := by
  constructor
  · obtain ⟨h', root, hrun, k, M, nf, hM, -⟩ := makeDNF_spec t fuel hproper hfuel h p ht
      fun hfalse => absurd hfalse (by decide)
    refine ⟨h', root, M, hrun, nf, ?_, k.flag_eq rfl⟩
    intro v
    rw [hM]
    exact nfValue_nf v .or false t hproper fun hfalse => absurd hfalse (by decide)
  · intro hun
    obtain ⟨h', r, hrun, k, hform⟩ := makeCNF_spec true t fuel hproper hun.wellMarked hfuel h p ht
      fun hfalse => absurd hfalse (by decide)
    have hne : cnf t ≠ [] := nf_ne_nil .and true t hproper fun _ => hun
    cases r with
    | none => exact absurd hform hne
    | some root =>
      obtain ⟨M, nf, hM, -⟩ := hform
      refine ⟨h', root, M, hrun, nf, ?_, k.cell_eq, fun hh => ?_⟩
      · intro v
        rw [hM]
        exact nfValue_nf v .and true t hproper fun _ => hun
      · -- The same run, with the flags handed down.
        obtain ⟨h'', r'', hrun'', k'', -⟩ :=
          makeCNF_spec false t fuel hproper hun.wellMarked hfuel h p ht fun _ => hh
        rw [hrun] at hrun''
        cases hrun''
        exact k''.flag_eq rfl

/-- `(1 OR 2) AND (3 OR 4)`, to be pushed down as a whole. -/
def nestedHeap : Heap Nat where
  cell p := match p with
    | 0 => ⟨.and, false, true, some 1, none, none⟩
    | 1 => ⟨.or, false, true, some 2, some 4, none⟩
    | 2 => ⟨.pred, false, true, none, some 3, some 1⟩
    | 3 => ⟨.pred, false, true, none, none, some 2⟩
    | 4 => ⟨.or, false, true, some 5, none, none⟩
    | 5 => ⟨.pred, false, true, none, some 6, some 3⟩
    | _ => ⟨.pred, false, true, none, none, some 4⟩
  size := 7

/-- The condition that `nestedHeap` holds. -/
def nestedTree : Tree Nat :=
  .node .and false [.node .or false [.leaf false 1, .leaf false 2],
    .node .or false [.leaf false 3, .leaf false 4]]

/-- Both forms of `nestedHeap`. -/
theorem normalForms_value_nested :
    (∃ h' root M, makeDNF 7 nestedHeap 0 = some (h', root) ∧ IsNF .or h' root M ∧
      (∀ v : Nat → Truth, nfValue v .or (clauses M) = nestedTree.eval v) ∧
      ∀ q, q < nestedHeap.size → h'.cell q = nestedHeap.cell q) ∧
    ∃ h' root M, makeCNF 7 nestedHeap 0 = some (h', some root) ∧ IsNF .and h' root M ∧
      (∀ v : Nat → Truth, nfValue v .and (clauses M) = nestedTree.eval v) ∧
      ∀ q, q < nestedHeap.size → h'.cell q = nestedHeap.cell q := by
  have hleaf : ∀ p a, p < 7 → IsLeaf nestedHeap p a → (nestedHeap.cell p).cnfUnusable = false →
      IsTree nestedHeap p (.leaf false a) := fun p a hp hl hm => ⟨hp, hl, hm⟩
  have ht : IsTree nestedHeap 0 nestedTree :=
    ⟨by decide, rfl, rfl, 1, rfl,
      ⟨by decide, rfl, rfl, 2, rfl, hleaf 2 1 (by decide) ⟨rfl, rfl⟩ rfl, 3, rfl,
        hleaf 3 2 (by decide) ⟨rfl, rfl⟩ rfl, rfl⟩,
      4, rfl,
      ⟨by decide, rfl, rfl, 5, rfl, hleaf 5 3 (by decide) ⟨rfl, rfl⟩ rfl, 6, rfl,
        hleaf 6 4 (by decide) ⟨rfl, rfl⟩ rfl, rfl⟩,
      rfl⟩
  have hproper : nestedTree.Proper := by
    simp [nestedTree, Tree.Proper, Tree.Propers]
  have hhanded : Handed nestedHeap 0 nestedTree := by
    simp [nestedTree, Handed, Handeds, nestedHeap]
  have hfuel : nestedTree.size ≤ 7 := by decide
  obtain ⟨hdnf, hcnf⟩ := normalForms_value ht hproper hfuel
  obtain ⟨h', root, M, hrun, nf, hvalue, -, hkept⟩ := hcnf (by simp [nestedTree, Tree.Unmarked,
    Tree.Unmarkeds])
  exact ⟨hdnf, h', root, M, hrun, nf, hvalue, hkept hhanded⟩

/-- `1 AND (2 OR 3)`. -/
def conjunctHeap : Heap Nat where
  cell p := match p with
    | 0 => ⟨.and, false, false, some 1, none, none⟩
    | 1 => ⟨.pred, false, false, none, some 2, some 1⟩
    | 2 => ⟨.or, false, false, some 3, none, none⟩
    | 3 => ⟨.pred, false, false, none, some 4, some 2⟩
    | _ => ⟨.pred, false, false, none, none, some 3⟩
  size := 5

/-- The same with the OR excluded. -/
def conjunctTree : Tree Nat :=
  .node .and false [.leaf false 1, .node .or true [.leaf false 2, .leaf false 3]]

/-- With `NORMALFORM_MAXIMUM` 1 the OR is marked, and the CNF is the first
    conjunct alone. -/
theorem makeCNF_leaves_conjunct_out :
    ∃ h n, estimatePartialCNF 5 conjunctHeap 0 none 1 = some (h, n) ∧ IsTree h 0 conjunctTree ∧
      ∃ h' root M, makeCNF 5 h 0 = some (h', some root) ∧ IsNF .and h' root M ∧
        ∃ v : Nat → Truth, nfValue v .and (clauses M) ≠ conjunctTree.eval v := by
  refine ⟨_, _, rfl, ?_⟩
  have ht : IsTree (conjunctHeap.set 2 { conjunctHeap.cell 2 with cnfUnusable := true }) 0
      conjunctTree :=
    ⟨by decide, rfl, rfl, 1, rfl, ⟨by decide, ⟨rfl, rfl⟩, rfl⟩, 2, rfl,
      ⟨by decide, rfl, rfl, 3, rfl, ⟨by decide, ⟨rfl, rfl⟩, rfl⟩, 4, rfl,
        ⟨by decide, ⟨rfl, rfl⟩, rfl⟩, rfl⟩, rfl⟩
  refine ⟨ht, ?_⟩
  have hproper : conjunctTree.Proper := by
    simp [conjunctTree, Tree.Proper, Tree.Propers]
  have hwell : conjunctTree.WellMarked := by
    simp [conjunctTree, Tree.WellMarked, Tree.WellMarkeds]
  obtain ⟨h', r, hrun, -, hform⟩ := makeCNF_spec true conjunctTree 5 hproper hwell (by decide) _ 0
    ht fun hfalse => absurd hfalse (by decide)
  cases r with
  | none =>
    have hnil : cnf conjunctTree = [] := hform
    exact absurd hnil (by decide)
  | some root =>
    obtain ⟨M, nf, hM, -⟩ := hform
    refine ⟨h', root, M, hrun, nf, fun a => if a = 1 then ⊤ else ⊥, ?_⟩
    rw [hM]
    decide

end Altibase.Qmo
