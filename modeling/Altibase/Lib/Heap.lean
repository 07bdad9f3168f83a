/-
  Altibase.Lib.Heap
  ─────────────────
  **A HEAP OF CELLS AND THE LISTS LINKED IN IT.**

  A heap gives every allocated pointer a cell; a null or dangling pointer
  cannot be read.  Lists are linked through a field `next` of the cells.

    * `Seg next h p xs q` — following `next` from `p` one meets exactly the
      cells `xs` and arrives at `q`;
    * `Seg.append`, `Seg.split` — segments compose and split;
    * `Seg.frame` — a segment depends on the links of its own cells only;
    * `Seg.relink` — writing the last link redirects the end;
    * `lastFrom_eq`, `count_eq` — the usual two walks over a list.
-/

import Mathlib.Data.List.Basic
import Mathlib.Data.List.Perm.Subperm
import Mathlib.Logic.Function.Basic

namespace Altibase.Lib

/-! ## §1. Heaps. -/

/-- Cells at the pointers below `size`. -/
structure Heap (C : Type) where
  cell : Nat → C
  size : Nat

namespace Heap

variable {C : Type}

/-- Reads a cell; reading outside the allocated range fails. -/
def get (h : Heap C) (p : Nat) : Option C := if p < h.size then some (h.cell p) else none

/-- Reads through a pointer that may be null. -/
def deref (h : Heap C) (p : Option Nat) : Option C := p.bind h.get

/-- Writes a cell. -/
def set (h : Heap C) (p : Nat) (c : C) : Heap C :=
  { h with cell := Function.update h.cell p c }

/-- Allocates a cell at the first free pointer. -/
def alloc (h : Heap C) (c : C) : Heap C := ⟨Function.update h.cell h.size c, h.size + 1⟩

/-- A cell below the size can be read. -/
theorem get_eq (h : Heap C) {p : Nat} (hp : p < h.size) : h.get p = some (h.cell p) := if_pos hp

@[simp] theorem deref_some (h : Heap C) (p : Nat) : h.deref (some p) = h.get p := rfl

@[simp] theorem set_size (h : Heap C) (p : Nat) (c : C) : (h.set p c).size = h.size := rfl

/-- A written cell is read back, -/
@[simp] theorem set_cell_self (h : Heap C) (p : Nat) (c : C) : (h.set p c).cell p = c := by
  show Function.update h.cell p c p = c
  rw [Function.update_self]

/-- and the others stay. -/
theorem set_cell_of_ne (h : Heap C) {p r : Nat} (c : C) (hne : r ≠ p) :
    (h.set p c).cell r = h.cell r := by
  show Function.update h.cell p c r = h.cell r
  rw [Function.update_of_ne hne]

@[simp] theorem alloc_size (h : Heap C) (c : C) : (h.alloc c).size = h.size + 1 := rfl

/-- The new cell is read back, -/
@[simp] theorem alloc_cell_self (h : Heap C) (c : C) : (h.alloc c).cell h.size = c := by
  show Function.update h.cell h.size c h.size = c
  rw [Function.update_self]

/-- and the old ones stay. -/
theorem alloc_cell_of_lt (h : Heap C) {p : Nat} (c : C) (hp : p < h.size) :
    (h.alloc c).cell p = h.cell p := by
  show Function.update h.cell h.size c p = h.cell p
  rw [Function.update_of_ne (Nat.ne_of_lt hp)]

/-- `h'` extends `h`: nothing is freed and the cells of `h` other than those
    in `except` are unchanged. -/
structure Extends (h h' : Heap C) (except : List Nat) : Prop where
  size_le : h.size ≤ h'.size
  cell_eq : ∀ p, p < h.size → p ∉ except → h'.cell p = h.cell p

/-- A heap extends itself. -/
theorem Extends.refl (h : Heap C) (except : List Nat) : h.Extends h except :=
  ⟨Nat.le_refl _, fun _ _ _ => rfl⟩

/-- Extensions compose when the second changes no cell of the first heap
    but those already excepted. -/
theorem Extends.trans {h₁ h₂ h₃ : Heap C} {E₁ E₂ : List Nat} (a : h₁.Extends h₂ E₁)
    (b : h₂.Extends h₃ E₂) (hsub : ∀ p ∈ E₂, p < h₁.size → p ∈ E₁) : h₁.Extends h₃ E₁ := by
  constructor
  · exact Nat.le_trans a.size_le b.size_le
  · intro p hp hne
    have hp₂ : p ∉ E₂ := fun hmem => hne (hsub p hmem hp)
    rw [b.cell_eq p (Nat.lt_of_lt_of_le hp a.size_le) hp₂, a.cell_eq p hp hne]

/-- More exceptions may be made, and a new cell is none. -/
theorem Extends.mono {h h' : Heap C} {except except' : List Nat} (a : h.Extends h' except)
    (hsub : ∀ p ∈ except, p < h.size → p ∈ except') : h.Extends h' except' :=
  ⟨a.size_le, fun p hp hne => a.cell_eq p hp fun hmem => hne (hsub p hmem hp)⟩

/-- A written cell is the only exception. -/
theorem extends_set (h : Heap C) (p : Nat) (c : C) : h.Extends (h.set p c) [p] :=
  ⟨Nat.le_refl _, fun _ _ hne => h.set_cell_of_ne c fun e => hne (e ▸ List.mem_singleton.mpr rfl)⟩

end Heap

/-! ## §2. Linked segments. -/

variable {C : Type} (next : C → Option Nat)

/-- **A linked segment**: from `p` through the cells `xs` to `q`. -/
def Seg (h : Heap C) : Option Nat → List Nat → Option Nat → Prop
  | p, [], q => p = q
  | p, x :: xs, q => p = some x ∧ x < h.size ∧ Seg h (next (h.cell x)) xs q

namespace Seg

variable {next} {h h' : Heap C} {p q r : Option Nat} {xs ys : List Nat}

/-- Two segments in a row. -/
theorem append (a : Seg next h p xs q) (b : Seg next h q ys r) : Seg next h p (xs ++ ys) r := by
  induction xs generalizing p with
  | nil =>
    have hpq : p = q := a
    rw [hpq]
    exact b
  | cons x xs ih => exact ⟨a.1, a.2.1, ih a.2.2⟩

/-- A segment is cut anywhere. -/
theorem split (a : Seg next h p (xs ++ ys) r) :
    ∃ q, Seg next h p xs q ∧ Seg next h q ys r := by
  induction xs generalizing p with
  | nil => exact ⟨p, rfl, a⟩
  | cons x xs ih =>
    obtain ⟨q, h1, h2⟩ := ih a.2.2
    exact ⟨q, ⟨a.1, a.2.1, h1⟩, h2⟩

/-- The end of a segment is the link of its last cell. -/
theorem end_eq {x : Nat} (a : Seg next h p (xs ++ [x]) q) : q = next (h.cell x) := by
  obtain ⟨m, _, h2⟩ := a.split
  exact h2.2.2.symm

/-- The cells of a segment are allocated. -/
theorem lt_size (a : Seg next h p xs q) : ∀ x ∈ xs, x < h.size := by
  induction xs generalizing p with
  | nil =>
    intro x hx
    exact absurd hx List.not_mem_nil
  | cons y xs ih =>
    intro x hx
    rcases List.mem_cons.mp hx with rfl | hmem
    · exact a.2.1
    · exact ih a.2.2 x hmem

/-- A segment survives whatever leaves the links of its cells alone. -/
theorem frame (a : Seg next h p xs q) (hsize : h.size ≤ h'.size)
    (hnext : ∀ x ∈ xs, next (h'.cell x) = next (h.cell x)) : Seg next h' p xs q := by
  induction xs generalizing p with
  | nil => exact a
  | cons x xs ih =>
    have htail : Seg next h' (next (h.cell x)) xs q :=
      ih a.2.2 fun y hy => hnext y (List.mem_cons_of_mem x hy)
    refine ⟨a.1, Nat.lt_of_lt_of_le a.2.1 hsize, ?_⟩
    rw [hnext x List.mem_cons_self]
    exact htail

/-- Writing the link of the last cell redirects the end. -/
theorem relink (l : Nat) (a : Seg next h p (xs ++ [l]) q)
    (hsize : h.size ≤ h'.size) (hnext : ∀ x ∈ xs, next (h'.cell x) = next (h.cell x))
    (hlast : next (h'.cell l) = r) : Seg next h' p (xs ++ [l]) r := by
  obtain ⟨m, h1, h2⟩ := a.split
  exact (h1.frame hsize hnext).append ⟨h2.1, Nat.lt_of_lt_of_le h2.2.1 hsize, hlast⟩

end Seg

/-! ## §3. Walks. -/

/-- `while (p->next != NULL) p = p->next;` with `fuel` steps allowed. -/
def lastFrom (h : Heap C) : Nat → Nat → Option Nat
  | 0, _ => none
  | fuel + 1, p => do
    let c ← h.get p
    match next c with
    | none => some p
    | some p' => lastFrom h fuel p'

/-- `for (n = 0; p != NULL; p = p->next) n++;` with `fuel` steps allowed. -/
def count (h : Heap C) : Nat → Option Nat → Option Nat
  | _, none => some 0
  | 0, some _ => none
  | fuel + 1, some p => do
    let c ← h.get p
    let n ← count h fuel (next c)
    some (n + 1)

variable {next} {h : Heap C}

/-- **The walk to the last cell** finds it. -/
theorem lastFrom_eq (l : Nat) (xs : List Nat) :
    ∀ (p fuel : Nat), Seg next h (some p) (xs ++ [l]) none → xs.length < fuel →
      lastFrom next h fuel p = some l := by
  induction xs with
  | nil =>
    intro p fuel a hfuel
    obtain ⟨fuel, rfl⟩ : ∃ f, fuel = f + 1 := ⟨fuel - 1, by omega⟩
    obtain ⟨hp, hlt, hend⟩ := a
    have hpl : p = l := Option.some.inj hp
    have hnone : next (h.cell l) = none := hend
    unfold lastFrom
    rw [hpl, h.get_eq hlt]
    simp [hnone]
  | cons x xs ih =>
    intro p fuel a hfuel
    obtain ⟨fuel, rfl⟩ : ∃ f, fuel = f + 1 := ⟨fuel - 1, by omega⟩
    obtain ⟨hp, hlt, htail⟩ := a
    have hpx : p = x := Option.some.inj hp
    have hlen : xs.length < fuel := by
      rw [List.length_cons] at hfuel
      omega
    unfold lastFrom
    rw [hpx, h.get_eq hlt]
    cases hn : next (h.cell x) with
    | none =>
      rw [hn] at htail
      cases xs with
      | nil => exact absurd htail.1 (by simp)
      | cons y ys => exact absurd htail.1 (by simp)
    | some p' =>
      rw [hn] at htail
      simpa [hn] using ih p' fuel htail hlen

/-- **The walk over a list** counts its cells. -/
theorem count_eq (xs : List Nat) :
    ∀ (p : Option Nat) (fuel : Nat), Seg next h p xs none → xs.length ≤ fuel →
      count next h fuel p = some xs.length := by
  induction xs with
  | nil =>
    intro p fuel a _
    have hp : p = none := a
    rw [hp]
    cases fuel <;> rfl
  | cons x xs ih =>
    intro p fuel a hfuel
    obtain ⟨hp, hlt, htail⟩ := a
    obtain ⟨fuel, rfl⟩ : ∃ f, fuel = f + 1 := by
      rw [List.length_cons] at hfuel
      exact ⟨fuel - 1, by omega⟩
    have hlen : xs.length ≤ fuel := by
      rw [List.length_cons] at hfuel
      omega
    rw [hp]
    unfold count
    rw [h.get_eq hlt]
    simp [ih _ fuel htail hlen]

/-- A list of distinct allocated pointers is no longer than the heap. -/
theorem length_le_size (xs : List Nat) (hnodup : xs.Nodup) (hlt : ∀ x ∈ xs, x < h.size) :
    xs.length ≤ h.size := by
  have hsub : xs ⊆ List.range h.size := fun x hx => List.mem_range.mpr (hlt x hx)
  have := (List.subperm_of_subset hnodup hsub).length_le
  rwa [List.length_range] at this

end Altibase.Lib
