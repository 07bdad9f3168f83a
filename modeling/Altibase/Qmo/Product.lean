/-
  Altibase.Qmo.Product
  ────────────────────
  **THE DISTRIBUTION STEP, IN PLACE** (`productToMerge`).

  Each loop is followed on a form whose clause list splits at the pointer
  the loop has reached.

    * `copyNodes_spec`, `copyRounds_spec` — the clauses of the first form
      are replicated behind its last one;
    * `extendNodes_spec`, `extendRounds_spec` — each block of replicas grows
      by one clause of the second form;
    * `productToMerge_spec` — together they yield the product;
    * `addToMerge_spec` — linking one form behind another.

  All of them write to cells of the first form and to fresh cells only.
-/

import Altibase.Qmo.Merge

namespace Altibase.Qmo

open Altibase.Lib (lastFrom count Seg lastFrom_eq)

variable {α : Type}

/-! ## §1. Positions in a form. -/

section Positions

variable {outer inner : Op} {h h' : Heap α} {root : Nat} {A B L : List (Entry α)} {x : Entry α}

theorem clauses_length (M : List (Entry α)) : (clauses M).length = M.length := List.length_map _

theorem IsNF.foot_nodup (nf : IsNF outer h root L) : (foot L).Nodup :=
  (List.nodup_cons.mp nf.nodup).2

/-- The pointer behind the clauses `A` starts the remaining ones. -/
theorem IsNF.seg_behind {q : Option Nat} (nf : IsNF outer h root (A ++ x :: B))
    (hq : (h.cell x.node).next = q) : Seg QtcNode.next h q (nodes B) none := by
  have hseg := nf.args
  rw [nodes_append, nodes_cons] at hseg
  obtain ⟨m, _, hx⟩ := hseg.split
  rw [← hq]
  exact hx.2.2

theorem IsNF.lt_of_mem (nf : IsNF outer h root L) (hx : x ∈ L) : ∀ p ∈ x.cells, p < h.size :=
  fun p hp => nf.lt_size p (List.mem_cons_of_mem _ (cells_sub_foot hx p hp))

theorem IsNF.args_le (nf : IsNF outer h root L) (hx : x ∈ L) : x.args.length ≤ h.size :=
  (nf.clause x hx).length_le (nodup_argCells nf.foot_nodup hx)

/-- Cells of a copied clause are fresh. -/
theorem le_of_mem_copy {n : Nat} {as : List α} :
    ∀ p ∈ Entry.cells (⟨n, fresh (n + 1) as⟩ : Entry α), n ≤ p := by
  intro p hp
  rcases List.mem_cons.mp hp with rfl | hmem
  · exact Nat.le_refl _
  · have := mem_fresh as (n + 1) p hmem
    omega

theorem nodup_copy {n : Nat} {as : List α} :
    (Entry.cells (⟨n, fresh (n + 1) as⟩ : Entry α)).Nodup := by
  apply List.nodup_cons.mpr
  constructor
  · intro hmem
    have := mem_fresh as (n + 1) n hmem
    omega
  · exact nodup_fresh as (n + 1)

end Positions

/-! ## §2. Replicating clauses. -/

/-- **The loop over `j`** copies the clauses `B`, by induction on them.  The
    list it walks grows at its end while it walks: the copies join the part
    `C` behind `B`. -/
theorem copyNodes_spec {outer : Op} {root : Nat} (B : List (Entry α)) :
    ∀ (A C L : List (Entry α)) (x : Entry α) (h : Heap α) (node : Option Nat),
      IsNF outer h root (A ++ B ++ C) → A ++ B ++ C = L ++ [x] →
      Seg QtcNode.next h node (nodes (B ++ C)) none →
      ∃ h' D L' y, copyNodes B.length h node x.node = some (h', y.node) ∧
        IsNF outer h' root (A ++ B ++ C ++ D) ∧ A ++ B ++ C ++ D = L' ++ [y] ∧
        clauses D = clauses B ∧ h.Extends h' [x.node] ∧ (∀ p ∈ foot D, h.size ≤ p) ∧
        (y.node = x.node ∨ h.size ≤ y.node) := by
  induction B with
  | nil =>
    intro A C L x h node nf hL _
    refine ⟨h, [], L, x, rfl, ?_, ?_, rfl, Lib.Heap.Extends.refl h _, ?_, Or.inl rfl⟩
    · rw [List.append_nil]
      exact nf
    · rw [List.append_nil]
      exact hL
    · intro p hp
      exact absurd hp List.not_mem_nil
  | cons b B ih =>
    intro A C L x h node nf hL hseg
    have hb : b ∈ A ++ b :: B ++ C := by simp
    have hx : x ∈ A ++ b :: B ++ C := hL ▸ List.mem_append_right _ List.mem_cons_self
    have hblt : b.node < h.size := nf.lt_of_mem hb _ List.mem_cons_self
    have hxlt : x.node < h.size := nf.lt_of_mem hx _ List.mem_cons_self
    obtain ⟨hnode, -, -⟩ := hseg
    have hfuel : b.args.length ≤ h.size + 1 := Nat.le_succ_of_le (nf.args_le hb)
    obtain ⟨h₂, hcopy, hext, hsize₂, hnext₂, hnew⟩ :=
      copyArgs_spec (nf.clause b hb) hfuel
    let new : Entry α := ⟨h.size, fresh (h.size + 1) b.preds⟩
    let h₃ : Heap α := h₂.set x.node { h₂.cell x.node with next := some h.size }
    have hxne : h.size ≠ x.node := by omega
    have hold : ∀ p, p < h.size → p ≠ x.node → h₃.cell p = h.cell p := by
      intro p hp hne
      rw [Lib.Heap.set_cell_of_ne _ _ hne, hext.cell_eq p hp List.not_mem_nil]
    have hxcell : h₃.cell x.node = { h.cell x.node with next := some h.size } := by
      rw [Lib.Heap.set_cell_self, hext.cell_eq _ hxlt List.not_mem_nil]
    have hext₃ : h.Extends h₃ [x.node] := by
      constructor
      · exact hext.size_le
      · intro p hp hne
        exact hold p hp fun e => hne (List.mem_singleton.mpr e)
    have hle₃ : h.size ≤ h₃.size := hext.size_le
    have hfoot : foot [new] = new.cells := List.append_nil _
    -- The copy is linked behind the last clause.
    have nf₃ : IsNF outer h₃ root (L ++ [x] ++ [new]) := by
      have nfL : IsNF outer h root (L ++ [x]) := hL ▸ nf
      apply nfL.extend hle₃ (q := some h.size)
      · intro p hp hne
        exact hold p (nfL.lt_size p hp) hne
      · exact hxcell
      · refine ⟨rfl, ?_, ?_⟩
        · show h.size < h₂.size
          omega
        · show (h₃.cell h.size).next = none
          rw [Lib.Heap.set_cell_of_ne _ _ hxne]
          exact hnext₂
      · intro y hy
        rw [List.mem_singleton.mp hy]
        have hkeep : ∀ p, p ≠ x.node → h₃.cell p = h₂.cell p :=
          fun p hp => Lib.Heap.set_cell_of_ne _ _ hp
        have hsize₃ : h₂.size ≤ h₃.size := Nat.le_refl _
        apply IsClause.frame hnew hsize₃
        · rw [hkeep _ hxne]
        · rw [hkeep _ hxne]
        · intro p hp
          have := le_of_mem_copy p (List.mem_cons_of_mem _ hp)
          exact hkeep p (by omega)
      · rw [hfoot]
        exact nodup_copy
      · intro p hp hmem
        have h1 := le_of_mem_copy p (hfoot ▸ hp)
        have h2 := nfL.lt_size p hmem
        omega
    have hshape : L ++ [x] ++ [new] = (A ++ [b]) ++ B ++ (C ++ [new]) := by
      rw [← hL]
      simp
    have nf₃' : IsNF outer h₃ root ((A ++ [b]) ++ B ++ (C ++ [new])) := hshape ▸ nf₃
    have hseg₃ : Seg QtcNode.next h₃ (h₃.cell b.node).next (nodes (B ++ (C ++ [new]))) none := by
      have nf₄ : IsNF outer h₃ root (A ++ b :: (B ++ (C ++ [new]))) := by
        have hshape' : (A ++ [b]) ++ B ++ (C ++ [new]) = A ++ b :: (B ++ (C ++ [new])) := by simp
        exact hshape' ▸ nf₃'
      exact nf₄.seg_behind rfl
    obtain ⟨h', D, L', y, hrun, nf', hL', hD, hext', hfresh, hy⟩ :=
      ih (A ++ [b]) (C ++ [new]) (L ++ [x]) new h₃ (h₃.cell b.node).next nf₃' hshape.symm hseg₃
    have hbig : A ++ b :: B ++ C ++ (new :: D) = (A ++ [b]) ++ B ++ (C ++ [new]) ++ D := by simp
    refine ⟨h', new :: D, L', y, ?_, ?_, ?_, ?_, ?_, ?_, ?_⟩
    · have hget₃ : h₃.get b.node = some (h₃.cell b.node) :=
        h₃.get_eq (Nat.lt_of_lt_of_le hblt hle₃)
      have hset : setNext h₂ x.node (some h.size) = some h₃ :=
        setNext_eq h₂ (Nat.lt_of_lt_of_le hxlt hext.size_le) _
      rw [hnode, List.length_cons, copyNodes, Option.bind_eq_bind, Option.bind_some, h.get_eq hblt]
      show (copyArgs (h.size + 1) _ h.size none (h.cell b.node).arguments).bind _ = _
      rw [hcopy]
      show (setNext h₂ x.node (some h.size)).bind _ = _
      rw [hset]
      show (h₃.get b.node).bind _ = _
      rw [hget₃]
      exact hrun
    · rw [hbig]
      exact nf'
    · rw [hbig]
      exact hL'
    · show new.preds :: clauses D = b.preds :: clauses B
      rw [hD]
      show (fresh (h.size + 1) b.preds).map Prod.snd :: clauses B = _
      rw [map_snd_fresh]
    · apply hext₃.trans hext'
      intro p hp hlt
      have hpn : p = h.size := List.mem_singleton.mp hp
      omega
    · intro p hp
      rw [foot_cons] at hp
      rcases List.mem_append.mp hp with hn | hd
      · exact le_of_mem_copy p hn
      · have h1 := hfresh p hd
        omega
    · right
      rcases hy with hnew' | hge
      · exact Nat.le_of_eq hnew'.symm
      · omega

/-- **The loop over `i`**: one more copy of `M` behind the form in every
    round. -/
theorem copyRounds_spec {outer : Op} {root : Nat} (M : List (Entry α)) :
    ∀ (i : Nat) (R L : List (Entry α)) (x : Entry α) (h : Heap α) (q : Nat) (S : List Nat),
      IsNF outer h root (M ++ R) → M ++ R = L ++ [x] →
      Seg QtcNode.next h (some q) (S ++ [x.node]) none → S.length < h.size →
      ∃ h' R', copyRounds i h root M.length (some q) = some h' ∧ IsNF outer h' root (M ++ R') ∧
        clauses R' = clauses R ++ (List.replicate i (clauses M)).flatten ∧
        h.Extends h' [x.node] ∧ ∀ p ∈ foot R', p ∈ foot R ∨ h.size ≤ p := by
  intro i
  induction i with
  | zero =>
    intro R L x h q S nf _ _ _
    refine ⟨h, R, rfl, nf, ?_, Lib.Heap.Extends.refl h _, fun p hp => Or.inl hp⟩
    simp
  | succ i ih =>
    intro R L x h q S nf hL hseg hS
    have hlast : lastFrom QtcNode.next h h.size q = some x.node := lastFrom_eq _ S q _ hseg hS
    have hargs : Seg QtcNode.next h (h.cell root).arguments (nodes (M ++ R)) none := nf.args
    have hnil : [] ++ M ++ R = M ++ R := rfl
    obtain ⟨h₁, D, L', y, hrun, nf₁, hL', hD, hext, hfresh, hy⟩ :=
      copyNodes_spec M [] R L x h (h.cell root).arguments (hnil ▸ nf) (hnil ▸ hL) hargs
    have hshape : [] ++ M ++ R ++ D = M ++ (R ++ D) := by simp
    rw [hshape] at nf₁ hL'
    -- The next round starts at the last copy, which ends the list.
    have hylt : y.node < h₁.size := by
      apply nf₁.lt_of_mem _ _ List.mem_cons_self
      rw [hL']
      exact List.mem_append_right _ List.mem_cons_self
    have hyend : Seg QtcNode.next h₁ (some y.node) ([] ++ [y.node]) none := by
      have nfL : IsNF outer h₁ root (L' ++ y :: []) := hL' ▸ nf₁
      exact ⟨rfl, hylt, nfL.seg_behind rfl⟩
    obtain ⟨h', R', hrun', nf', hR', hext', hfresh'⟩ :=
      ih (R ++ D) L' y h₁ y.node [] nf₁ hL' hyend (Nat.zero_lt_of_lt hylt)
    refine ⟨h', R', ?_, nf', ?_, ?_, ?_⟩
    · rw [copyRounds, Option.bind_eq_bind, Option.bind_some, hlast]
      show (h.get root).bind _ = _
      rw [h.get_eq nf.root_lt]
      show (copyNodes M.length h (h.cell root).arguments x.node).bind _ = _
      rw [hrun]
      exact hrun'
    · rw [hR', clauses_append, hD, List.replicate_succ, List.flatten_cons, List.append_assoc]
    · apply hext.trans hext'
      intro p hp hlt
      rw [List.mem_singleton.mp hp] at hlt ⊢
      rcases hy with heq | hge
      · exact List.mem_singleton.mpr heq
      · omega
    · intro p hp
      have hle : h.size ≤ h₁.size := hext.size_le
      rcases hfresh' p hp with hold | hnew
      · rw [foot_append] at hold
        rcases List.mem_append.mp hold with hR | hd
        · exact Or.inl hR
        · exact Or.inr (hfresh p hd)
      · exact Or.inr (by omega)

/-! ## §3. Extending clauses. -/

/-- **The loop over `j`** extends the clauses `B` by the predicates of `z`,
    by induction on `B`. -/
theorem extendNodes_spec {outer : Op} {root : Nat} {z : Entry α} (B : List (Entry α)) :
    ∀ (A C : List (Entry α)) (h : Heap α) (lastNode : Option Nat),
      IsNF outer h root (A ++ B ++ C) → Seg QtcNode.next h lastNode (nodes (B ++ C)) none →
      IsClause outer.dual h z → z.node < h.size → z.argCells.Nodup →
      (∀ p ∈ z.cells, p ∉ root :: foot (A ++ B ++ C)) →
      ∃ h' B' q, extendNodes B.length h z.node lastNode = some (h', q) ∧
        IsNF outer h' root (A ++ B' ++ C) ∧ Seg QtcNode.next h' q (nodes C) none ∧
        clauses B' = (clauses B).map (· ++ z.preds) ∧ h.Extends h' (foot B) ∧
        ∀ p ∈ foot B', p ∈ foot B ∨ h.size ≤ p := by
  induction B with
  | nil =>
    intro A C h lastNode nf hseg _ _ _ _
    exact ⟨h, [], lastNode, rfl, nf, hseg, rfl, Lib.Heap.Extends.refl h _, fun p hp => Or.inl hp⟩
  | cons b B ih =>
    intro A C h lastNode nf hseg cz hzlt hznd hdisj
    have hshape : A ++ b :: B ++ C = A ++ b :: (B ++ C) := by simp
    rw [hshape] at nf hdisj
    have hb : b ∈ A ++ b :: (B ++ C) := List.mem_append_right _ List.mem_cons_self
    have hblt : b.node < h.size := nf.lt_of_mem hb _ List.mem_cons_self
    have cb := nf.clause b hb
    obtain ⟨hnode, -, -⟩ := hseg
    -- The last predicate of `b`, where the loop arrives.
    obtain ⟨ys, l, hargs⟩ := b.args.eq_nil_or_concat'.resolve_left cb.ne
    have hcells : b.argCells = ys.map Prod.fst ++ [l.1] := by
      rw [Entry.argCells, hargs, List.map_append]
      rfl
    have hl_arg : l.1 ∈ b.argCells := by
      rw [hcells]
      exact List.mem_append_right _ List.mem_cons_self
    have hl_cell : l.1 ∈ b.cells := List.mem_cons_of_mem _ hl_arg
    have hllt : l.1 < h.size := nf.lt_of_mem hb _ hl_cell
    have hl_foot : l.1 ∈ foot (A ++ b :: (B ++ C)) := cells_sub_foot hb _ hl_cell
    have hbseg : Seg QtcNode.next h (h.cell b.node).arguments (ys.map Prod.fst ++ [l.1]) none :=
      hcells ▸ cb.args
    have hlast : ∀ first, (h.cell b.node).arguments = some first →
        lastFrom QtcNode.next h h.size first = some l.1 := by
      intro first hfirst
      rw [hfirst] at hbseg
      apply lastFrom_eq _ _ _ _ hbseg
      have := nf.args_le hb
      rw [hargs, List.length_append, List.length_singleton] at this
      rw [List.length_map]
      omega
    obtain ⟨first, hfirst⟩ : ∃ first, (h.cell b.node).arguments = some first := by
      cases hys : ys.map Prod.fst with
      | nil =>
        rw [hys] at hbseg
        exact ⟨_, hbseg.1⟩
      | cons f fs =>
        rw [hys] at hbseg
        exact ⟨_, hbseg.1⟩
    have hzl : l.1 ∉ z.argCells := fun hm =>
      hdisj l.1 (List.mem_cons_of_mem _ hm) (List.mem_cons_of_mem _ hl_foot)
    have hzle : z.args.length ≤ h.size := cz.length_le hznd
    obtain ⟨h₁, happ, app⟩ := appendArgs_spec z.args h.size h l.1 (h.cell z.node).arguments hzle hllt
      hbseg.end_eq.symm cz.args cz.leaf hzl
    let zs : List (Nat × α) := fresh h.size z.preds
    let b' : Entry α := ⟨b.node, b.args ++ zs⟩
    have hle₁ : h.size ≤ h₁.size := by
      rw [app.size]
      exact Nat.le_add_right _ _
    have hzs : ∀ p ∈ zs.map Prod.fst, h.size ≤ p := fun p hp => (mem_fresh _ _ p hp).1
    have nf₁ : IsNF outer h₁ root (A ++ b' :: (B ++ C)) := by
      apply nf.grow hargs hle₁
      · intro p hp hne
        exact app.cell p (nf.lt_size p hp) hne
      · exact app.relinked
      · exact app.seg
      · exact app.leaf
      · exact nodup_fresh _ _
      · intro p hp hmem
        have h1 := hzs p hp
        have h2 := nf.lt_size p hmem
        omega
    have hb_ne : b.node ≠ l.1 := by
      have hnd := (List.nodup_flatMap.mp nf.foot_nodup).1 b hb
      exact fun e => (List.nodup_cons.mp hnd).1 (e ▸ hl_arg)
    have hb₁ : h₁.cell b.node = h.cell b.node := app.cell _ hblt hb_ne
    have hseg₁ : Seg QtcNode.next h₁ (h₁.cell b.node).next (nodes (B ++ C)) none :=
      nf₁.seg_behind rfl
    -- The clause `z` lies outside the form and is not touched.
    have hz_ne : ∀ p ∈ z.cells, p ≠ l.1 := fun p hp e =>
      hdisj p hp (List.mem_cons_of_mem _ (e ▸ hl_foot))
    have hzcell : ∀ p ∈ z.cells, h₁.cell p = h.cell p := by
      intro p hp
      apply app.cell p _ (hz_ne p hp)
      rcases List.mem_cons.mp hp with rfl | harg
      · exact hzlt
      · exact cz.lt_size p harg
    have cz₁ : IsClause outer.dual h₁ z := by
      have hzn := hzcell z.node List.mem_cons_self
      exact cz.frame hle₁ (by rw [hzn]) (by rw [hzn])
        fun p hp => hzcell p (List.mem_cons_of_mem _ hp)
    have hfoot' : ∀ p ∈ foot (A ++ b' :: (B ++ C)),
        p ∈ foot (A ++ b :: (B ++ C)) ∨ h.size ≤ p := by
      intro p hp
      rw [foot_append, foot_cons] at hp ⊢
      rcases List.mem_append.mp hp with hA | hrest
      · exact Or.inl (List.mem_append_left _ hA)
      · rcases List.mem_append.mp hrest with hb' | hBC
        · have hb'' : p ∈ b.cells ++ zs.map Prod.fst := by
            have : b'.cells = b.cells ++ zs.map Prod.fst := by
              show b.node :: (b.args ++ zs).map Prod.fst = _
              rw [List.map_append]
              rfl
            exact this ▸ hb'
          rcases List.mem_append.mp hb'' with hbc | hz
          · exact Or.inl (List.mem_append_right _ (List.mem_append_left _ hbc))
          · exact Or.inr (hzs p hz)
        · exact Or.inl (List.mem_append_right _ (List.mem_append_right _ hBC))
    have hdisj₁ : ∀ p ∈ z.cells, p ∉ root :: foot (A ++ b' :: (B ++ C)) := by
      intro p hp hmem
      rcases List.mem_cons.mp hmem with rfl | hf
      · exact hdisj p hp List.mem_cons_self
      · rcases hfoot' p hf with hold | hnew
        · exact hdisj p hp (List.mem_cons_of_mem _ hold)
        · have hlt : p < h.size := by
            rcases List.mem_cons.mp hp with rfl | harg
            · exact hzlt
            · exact cz.lt_size p harg
          omega
    have hshape₁ : (A ++ [b']) ++ B ++ C = A ++ b' :: (B ++ C) := by simp
    obtain ⟨h', B', q, hrun, nf', hq, hB', hext, hfresh⟩ :=
      ih (A ++ [b']) C h₁ (h₁.cell b.node).next (hshape₁ ▸ nf₁) hseg₁ cz₁
        (Nat.lt_of_lt_of_le hzlt hle₁) hznd (hshape₁ ▸ hdisj₁)
    have hshape' : A ++ (b' :: B') ++ C = (A ++ [b']) ++ B' ++ C := by simp
    refine ⟨h', b' :: B', q, ?_, hshape' ▸ nf', hq, ?_, ?_, ?_⟩
    · rw [hnode, List.length_cons, extendNodes, Option.bind_eq_bind, Option.bind_some,
        h.get_eq hblt]
      show (h.cell b.node).arguments.bind _ = _
      rw [hfirst, Option.bind_some]
      show (lastFrom QtcNode.next h h.size first).bind _ = _
      rw [hlast first hfirst]
      show (h.get z.node).bind _ = _
      rw [h.get_eq hzlt]
      show (appendArgs h.size h l.1 (h.cell z.node).arguments).bind _ = _
      rw [happ]
      show (h₁.get b.node).bind _ = _
      rw [h₁.get_eq (Nat.lt_of_lt_of_le hblt hle₁)]
      exact hrun
    · show (b.args ++ zs).map Prod.snd :: clauses B' = (b.preds ++ z.preds) :: _
      rw [hB', List.map_append, map_snd_fresh]
      rfl
    · have hstep : h.Extends h₁ (foot (b :: B)) := by
        constructor
        · exact hle₁
        · intro p hp hne
          apply app.cell p hp
          intro e
          exact hne (List.mem_append_left _ (e ▸ hl_cell))
      apply hstep.trans hext
      intro p hp _
      exact List.mem_append_right _ hp
    · intro p hp
      rw [foot_cons] at hp
      rcases List.mem_append.mp hp with hb' | hrest
      · have : b'.cells = b.cells ++ zs.map Prod.fst := by
          show b.node :: (b.args ++ zs).map Prod.fst = _
          rw [List.map_append]
          rfl
        rw [this] at hb'
        rcases List.mem_append.mp hb' with hbc | hz
        · exact Or.inl (List.mem_append_left _ hbc)
        · exact Or.inr (hzs p hz)
      · rcases hfresh p hrest with hold | hnew
        · exact Or.inl (List.mem_append_right _ hold)
        · exact Or.inr (by omega)

/-- **The loop over `i`** takes one clause of the second form for each block
    of `cs.length` clauses, by induction on these clauses. -/
theorem extendRounds_spec {outer : Op} {root : Nat} (cs : List (List α)) (N : List (Entry α)) :
    ∀ (A R : List (Entry α)) (h : Heap α) (node lastNode : Option Nat),
      IsNF outer h root (A ++ R) → Seg QtcNode.next h lastNode (nodes R) none →
      Seg QtcNode.next h node (nodes N) none → (∀ z ∈ N, IsClause outer.dual h z) →
      (foot N).Nodup → (∀ p ∈ foot N, p ∉ root :: foot (A ++ R)) →
      clauses R = (List.replicate N.length cs).flatten →
      ∃ h' R', extendRounds N.length h cs.length node lastNode = some h' ∧
        IsNF outer h' root (A ++ R') ∧ clauses R' = product cs (clauses N) ∧
        h.Extends h' (foot R) ∧ ∀ p ∈ foot R', p ∈ foot R ∨ h.size ≤ p := by
  induction N with
  | nil =>
    intro A R h node lastNode nf _ _ _ _ _ hR
    exact ⟨h, R, rfl, nf, hR, Lib.Heap.Extends.refl h _, fun p hp => Or.inl hp⟩
  | cons z N ih =>
    intro A R h node lastNode nf hlast hnode hN hnd hdisj hR
    obtain ⟨rfl, hzlt, hrest⟩ := hnode
    -- The block of `z` and the later ones.
    rw [List.length_cons, List.replicate_succ, List.flatten_cons] at hR
    obtain ⟨B, C, rfl, hB, hC⟩ := List.map_eq_append_iff.mp hR
    have hlen : B.length = cs.length := by
      rw [← hB, List.length_map]
    rw [foot_cons] at hnd hdisj
    have hndz := List.nodup_append.mp hnd
    have nf' : IsNF outer h root (A ++ B ++ C) := by
      rw [List.append_assoc]
      exact nf
    have hdisjz : ∀ p ∈ z.cells, p ∉ root :: foot (A ++ B ++ C) := by
      intro p hp
      rw [List.append_assoc]
      exact hdisj p (List.mem_append_left _ hp)
    obtain ⟨h₁, B', q, hrun, nf₁, hq, hB', hext, hfresh⟩ :=
      extendNodes_spec B A C h lastNode nf' hlast (hN z List.mem_cons_self) hzlt
        (List.nodup_cons.mp hndz.1).2 hdisjz
    have hle₁ : h.size ≤ h₁.size := hext.size_le
    -- The second form lies outside the first and keeps its cells.
    have hkeep : ∀ p ∈ z.cells ++ foot N, p < h.size → h₁.cell p = h.cell p := by
      intro p hp hlt
      apply hext.cell_eq p hlt
      intro hmem
      apply hdisj p hp
      apply List.mem_cons_of_mem
      rw [foot_append, foot_append]
      exact List.mem_append_right _ (List.mem_append_left _ hmem)
    have hNlt : ∀ p ∈ foot N, p < h.size := by
      intro p hp
      obtain ⟨y, hy, hpy⟩ := List.mem_flatMap.mp hp
      rcases List.mem_cons.mp hpy with rfl | harg
      · exact hrest.lt_size _ (List.mem_map.mpr ⟨y, hy, rfl⟩)
      · exact (hN y (List.mem_cons_of_mem _ hy)).lt_size p harg
    have hkeepN : ∀ p ∈ foot N, h₁.cell p = h.cell p := fun p hp =>
      hkeep p (List.mem_append_right _ hp) (hNlt p hp)
    have hz₁ : h₁.cell z.node = h.cell z.node :=
      hkeep _ (List.mem_append_left _ List.mem_cons_self) hzlt
    have hrest₁ : Seg QtcNode.next h₁ (h₁.cell z.node).next (nodes N) none := by
      rw [hz₁]
      exact hrest.frame hle₁ fun p hp => by rw [hkeepN p (nodes_sub_foot N p hp)]
    have hN₁ : ∀ y ∈ N, IsClause outer.dual h₁ y := by
      intro y hy
      have hcell : ∀ p ∈ y.cells, h₁.cell p = h.cell p := fun p hp =>
        hkeepN p (cells_sub_foot hy p hp)
      have hyn := hcell y.node List.mem_cons_self
      exact (hN y (List.mem_cons_of_mem _ hy)).frame hle₁ (by rw [hyn]) (by rw [hyn])
        fun p hp => hcell p (List.mem_cons_of_mem _ hp)
    have hdisj₁ : ∀ p ∈ foot N, p ∉ root :: foot ((A ++ B') ++ C) := by
      intro p hp hmem
      have hlt := hNlt p hp
      have hnot := hdisj p (List.mem_append_right _ hp)
      rw [foot_append, foot_append] at hmem hnot
      rcases List.mem_cons.mp hmem with rfl | hf
      · exact hnot List.mem_cons_self
      · rcases List.mem_append.mp hf with hAB | hC'
        · rcases List.mem_append.mp hAB with hA | hBm
          · exact hnot (List.mem_cons_of_mem _ (List.mem_append_left _ hA))
          · rcases hfresh p hBm with hold | hnew
            · exact hnot (List.mem_cons_of_mem _
                (List.mem_append_right _ (List.mem_append_left _ hold)))
            · omega
        · exact hnot (List.mem_cons_of_mem _
            (List.mem_append_right _ (List.mem_append_right _ hC')))
    obtain ⟨h', R', hrun', nf'', hR', hext', hfresh'⟩ :=
      ih (A ++ B') C h₁ (h₁.cell z.node).next q nf₁ hq hrest₁ hN₁ hndz.2.1 hdisj₁ hC
    refine ⟨h', B' ++ R', ?_, ?_, ?_, ?_, ?_⟩
    · rw [List.length_cons, extendRounds, Option.bind_eq_bind, Option.bind_some, ← hlen]
      show (extendNodes B.length h z.node lastNode).bind _ = _
      rw [hrun]
      show (h₁.get z.node).bind _ = _
      rw [h₁.get_eq (Nat.lt_of_lt_of_le hzlt hle₁), hlen]
      exact hrun'
    · rw [← List.append_assoc]
      exact nf''
    · show clauses (B' ++ R') = product cs (z.preds :: clauses N)
      rw [clauses_append, hB', hR', product_cons]
      show (clauses B).map _ ++ _ = _
      rw [show clauses B = cs from hB]
    · rw [foot_append]
      apply (hext.mono fun p hp _ => List.mem_append_left _ hp).trans hext'
      intro p hp _
      exact List.mem_append_right _ hp
    · intro p hp
      rw [foot_append] at hp ⊢
      rcases List.mem_append.mp hp with hb | hr
      · rcases hfresh p hb with hold | hnew
        · exact Or.inl (List.mem_append_left _ hold)
        · exact Or.inr hnew
      · rcases hfresh' p hr with hold | hnew
        · exact Or.inl (List.mem_append_right _ hold)
        · exact Or.inr (by omega)

/-! ## §4. Merging two forms. -/

/-- **`merge` joins two forms as `f` joins their clauses.**  The result
    starts at the first form's root; of the cells in use only those of the
    first form are written. -/
def Merges {α : Type} (outer : Op) (merge : Heap α → Nat → Nat → Option (Heap α × Nat))
    (f : List (List α) → List (List α) → List (List α)) : Prop :=
  ∀ (h : Heap α) (prev curr : Nat) (M N : List (Entry α)),
    IsNF outer h prev M → IsNF outer h curr N → (∀ p ∈ curr :: foot N, p ∉ prev :: foot M) →
    ∃ h' M', merge h prev curr = some (h', prev) ∧ IsNF outer h' prev M' ∧
      clauses M' = f (clauses M) (clauses N) ∧ h.Extends h' (foot M) ∧
      ∀ p ∈ foot M', p ∈ foot M ∨ p ∈ foot N ∨ h.size ≤ p

/-- A form's clause list ends at its last clause. -/
theorem IsNF.to_last {outer : Op} {h : Heap α} {root : Nat} {M : List (Entry α)}
    (nf : IsNF outer h root M) :
    ∃ L x first, M = L ++ [x] ∧ (h.cell root).arguments = some first ∧
      Seg QtcNode.next h (some first) (nodes L ++ [x.node]) none ∧ (nodes L).length < h.size := by
  obtain ⟨L, x, rfl⟩ := M.eq_nil_or_concat'.resolve_left nf.ne
  have hseg := nf.args
  rw [nodes_append] at hseg
  have hfirst : ∃ first, (h.cell root).arguments = some first := by
    cases hL : nodes L with
    | nil =>
      rw [hL] at hseg
      exact ⟨_, hseg.1⟩
    | cons f fs =>
      rw [hL] at hseg
      exact ⟨_, hseg.1⟩
  obtain ⟨first, hfirst⟩ := hfirst
  refine ⟨L, x, first, rfl, hfirst, hfirst ▸ hseg, ?_⟩
  have := nf.length_le
  rw [List.length_append, List.length_singleton] at this
  rw [nodes, List.length_map]
  omega

/-- **`addToMerge` appends the clauses.** -/
theorem addToMerge_spec (outer : Op) : Merges (α := α) outer addToMerge (· ++ ·) := by
  intro h prev curr M N nfM nfN hdisj
  obtain ⟨L, x, first, rfl, hfirst, hseg, hlen⟩ := nfM.to_last
  have hx : x ∈ L ++ [x] := List.mem_append_right _ List.mem_cons_self
  have hxlt : x.node < h.size := nfM.lt_of_mem hx _ List.mem_cons_self
  have hxfoot : x.node ∈ foot (L ++ [x]) := cells_sub_foot hx _ List.mem_cons_self
  -- one link is written: from the last clause of the first form to the second
  let h' : Heap α := h.set x.node { h.cell x.node with next := (h.cell curr).arguments }
  have hkeep : ∀ p, p ≠ x.node → h'.cell p = h.cell p := fun p hp =>
    Lib.Heap.set_cell_of_ne _ _ hp
  have hN_ne : ∀ p ∈ curr :: foot N, p ≠ x.node := fun p hp e =>
    hdisj p hp (List.mem_cons_of_mem _ (e ▸ hxfoot))
  have hle : h.size ≤ h'.size := Nat.le_refl _
  refine ⟨h', L ++ [x] ++ N, ?_, ?_, clauses_append _ _, ?_, ?_⟩
  · rw [addToMerge, h.get_eq nfM.root_lt]
    show (h.cell prev).arguments.bind _ = _
    rw [hfirst, Option.bind_some]
    show (lastFrom QtcNode.next h h.size first).bind _ = _
    rw [lastFrom_eq _ _ _ _ hseg hlen]
    show (h.get curr).bind _ = _
    rw [h.get_eq nfN.root_lt]
    show (setNext h x.node (h.cell curr).arguments).bind _ = _
    rw [setNext_eq h hxlt]
    rfl
  · apply nfM.extend hle
    · intro p _ hne
      exact hkeep p hne
    · exact Lib.Heap.set_cell_self _ _ _
    · apply nfN.args.frame hle
      intro p hp
      rw [hkeep p (hN_ne p (List.mem_cons_of_mem _ (nodes_sub_foot N p hp)))]
    · intro y hy
      have hcell : ∀ p ∈ y.cells, h'.cell p = h.cell p := fun p hp =>
        hkeep p (hN_ne p (List.mem_cons_of_mem _ (cells_sub_foot hy p hp)))
      have hyn := hcell y.node List.mem_cons_self
      exact (nfN.clause y hy).frame hle (by rw [hyn]) (by rw [hyn])
        fun p hp => hcell p (List.mem_cons_of_mem _ hp)
    · exact nfN.foot_nodup
    · exact fun p hp => hdisj p (List.mem_cons_of_mem _ hp)
  · apply (h.extends_set x.node _).mono
    intro p hp _
    rw [List.mem_singleton.mp hp]
    exact hxfoot
  · intro p hp
    rw [foot_append] at hp
    rcases List.mem_append.mp hp with hM | hN
    · exact Or.inl hM
    · exact Or.inr (Or.inl hN)

/-- The loop that counts a form's clauses. -/
theorem IsNF.count_eq {outer : Op} {h : Heap α} {root : Nat} {M : List (Entry α)}
    (nf : IsNF outer h root M) :
    count QtcNode.next h h.size (h.cell root).arguments = some M.length := by
  have hlen : (nodes M).length = M.length := List.length_map _
  have hcount := Lib.count_eq (nodes M) _ h.size nf.args (hlen ▸ nf.length_le)
  rwa [hlen] at hcount

/-- **`productToMerge` distributes.** -/
theorem productToMerge_spec (outer : Op) : Merges (α := α) outer productToMerge product := by
  intro h prev curr M N nfM nfN hdisj
  obtain ⟨L, x, first, hM, hfirst, hseg, hlen⟩ := nfM.to_last
  have hxM : x ∈ M := hM ▸ List.mem_append_right _ List.mem_cons_self
  have hxfoot : x.node ∈ foot M := cells_sub_foot hxM _ List.mem_cons_self
  -- first round: `M` is copied, once for each further clause of `N`
  obtain ⟨h₁, R, hrun, nf₁, hR, hext, hfresh⟩ :=
    copyRounds_spec M (N.length - 1) [] L x h first (nodes L) (by rwa [List.append_nil])
      (by rwa [List.append_nil]) hseg hlen
  have hle₁ : h.size ≤ h₁.size := hext.size_le
  -- the copying wrote to no cell of `N`
  have hN_keep : ∀ p ∈ curr :: foot N, h₁.cell p = h.cell p := by
    intro p hp
    apply hext.cell_eq p (nfN.lt_size p hp)
    intro hmem
    rw [List.mem_singleton.mp hmem] at hp
    exact hdisj _ hp (List.mem_cons_of_mem _ hxfoot)
  have nfN₁ : IsNF outer h₁ curr N := nfN.frame hle₁ hN_keep
  have hR_fresh : ∀ p ∈ foot R, h.size ≤ p := by
    intro p hp
    rcases hfresh p hp with hnil | hnew
    · exact absurd hnil List.not_mem_nil
    · exact hnew
  have hdisj₁ : ∀ p ∈ foot N, p ∉ prev :: foot ([] ++ (M ++ R)) := by
    intro p hp hmem
    have hlt := nfN.lt_size p (List.mem_cons_of_mem _ hp)
    have hnot := hdisj p (List.mem_cons_of_mem _ hp)
    rw [List.nil_append, foot_append, ← List.cons_append] at hmem
    rcases List.mem_append.mp hmem with hold | hnew
    · exact hnot hold
    · have := hR_fresh p hnew
      omega
  have hclauses : clauses (M ++ R) = (List.replicate N.length (clauses M)).flatten := by
    obtain ⟨n, hn⟩ : ∃ n, N.length = n + 1 :=
      ⟨N.length - 1, by have := List.length_pos_iff.mpr nfN.ne; omega⟩
    rw [clauses_append, hR, hn, List.replicate_succ, List.flatten_cons]
    rfl
  -- second round: each clause of `N` is appended to the clauses of one copy
  obtain ⟨h', M', hrun', nf', hM', hext', hfresh'⟩ :=
    extendRounds_spec (clauses M) N [] (M ++ R) h₁ (h₁.cell curr).arguments
      (h₁.cell prev).arguments nf₁ nf₁.args nfN₁.args nfN₁.clause nfN.foot_nodup hdisj₁ hclauses
  refine ⟨h', M', ?_, nf', hM', ?_, ?_⟩
  · rw [productToMerge, h.get_eq nfM.root_lt]
    show (count QtcNode.next h h.size (h.cell prev).arguments).bind _ = _
    rw [nfM.count_eq]
    show (h.get curr).bind _ = _
    rw [h.get_eq nfN.root_lt]
    show (count QtcNode.next h h.size (h.cell curr).arguments).bind _ = _
    rw [nfN.count_eq]
    show (copyRounds (N.length - 1) h prev M.length (h.cell prev).arguments).bind _ = _
    rw [hfirst, hrun]
    show (h₁.get prev).bind _ = _
    rw [h₁.get_eq nf₁.root_lt]
    show (h₁.get curr).bind _ = _
    rw [h₁.get_eq nfN₁.root_lt, ← clauses_length M]
    show (extendRounds N.length h₁ (clauses M).length (h₁.cell curr).arguments
      (h₁.cell prev).arguments).bind _ = _
    rw [hrun']
    rfl
  · apply (hext.mono fun p hp _ => (List.mem_singleton.mp hp) ▸ hxfoot).trans hext'
    intro p hp hlt
    rw [foot_append] at hp
    rcases List.mem_append.mp hp with hold | hnew
    · exact hold
    · have := hR_fresh p hnew
      omega
  · intro p hp
    rcases hfresh' p hp with hold | hnew
    · rw [foot_append] at hold
      rcases List.mem_append.mp hold with hm | hr
      · exact Or.inl hm
      · exact Or.inr (Or.inr (hR_fresh p hr))
    · exact Or.inr (Or.inr (by omega))

end Altibase.Qmo
