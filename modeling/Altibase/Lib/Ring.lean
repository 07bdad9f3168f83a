/-
  Altibase.Lib.Ring
  ─────────────────
  **DOUBLY LINKED LISTS.**

  Nodes carry a `prev` and a `next` pointer.  `Links node l` says that
  consecutive nodes of `l` point at each other; a circular list with header
  `b` and members `xs` is `Links node (b :: xs ++ [b])`.

    * `links_append` — a linked list splits at any of its nodes;
    * `Links.frame` — it depends on the pointers along it only;
    * `Links.link_in`, `Links.unlink` — the two edits;
    * `IsRing.insertAfter`, `IsRing.delete` — the two edits of a circular list,
      as pointer writes.
-/

import Mathlib.Data.List.Basic
import Mathlib.Data.List.Nodup
import Mathlib.Logic.Function.Basic

namespace Altibase.Lib

/-- The two pointers of a node; `none` is a null pointer. -/
structure Link (R : Type) where
  prev : Option R
  next : Option R
  deriving DecidableEq, Repr

variable {R : Type}

/-! ## §1. Writing pointers. -/

section Write

variable [DecidableEq R]

/-- `v` is written into the `prev` pointer of `r`. -/
def setPrev (node : R → Link R) (r : R) (v : Option R) : R → Link R :=
  Function.update node r { node r with prev := v }

/-- `v` is written into the `next` pointer of `r`. -/
def setNext (node : R → Link R) (r : R) (v : Option R) : R → Link R :=
  Function.update node r { node r with next := v }

@[simp] theorem setPrev_next (node : R → Link R) (r q : R) (v : Option R) :
    (setPrev node r v q).next = (node q).next := by
  unfold setPrev
  by_cases h : q = r
  · rw [h, Function.update_self]
  · rw [Function.update_of_ne h]

@[simp] theorem setNext_prev (node : R → Link R) (r q : R) (v : Option R) :
    (setNext node r v q).prev = (node q).prev := by
  unfold setNext
  by_cases h : q = r
  · rw [h, Function.update_self]
  · rw [Function.update_of_ne h]

@[simp] theorem setPrev_prev_self (node : R → Link R) (r : R) (v : Option R) :
    (setPrev node r v r).prev = v := by
  unfold setPrev
  rw [Function.update_self]

@[simp] theorem setNext_next_self (node : R → Link R) (r : R) (v : Option R) :
    (setNext node r v r).next = v := by
  unfold setNext
  rw [Function.update_self]

/-- The other nodes keep their `prev` pointers. -/
theorem setPrev_prev_of_ne (node : R → Link R) {r q : R} (v : Option R) (h : q ≠ r) :
    (setPrev node r v q).prev = (node q).prev := by
  unfold setPrev
  rw [Function.update_of_ne h]

/-- The other nodes keep their `next` pointers. -/
theorem setNext_next_of_ne (node : R → Link R) {r q : R} (v : Option R) (h : q ≠ r) :
    (setNext node r v q).next = (node q).next := by
  unfold setNext
  rw [Function.update_of_ne h]

end Write

/-! ## §2. Linked lists. -/

/-- **Consecutive nodes point at each other.** -/
def Links (node : R → Link R) : List R → Prop
  | x :: y :: rest => (node x).next = some y ∧ (node y).prev = some x ∧ Links node (y :: rest)
  | _ => True

variable {node node' : R → Link R}

/-- The first two nodes of a chain point to each other. -/
theorem links_cons_cons {x y : R} {rest : List R} :
    Links node (x :: y :: rest) ↔
      (node x).next = some y ∧ (node y).prev = some x ∧ Links node (y :: rest) :=
  Iff.rfl

/-- A linked list is two linked lists that share a node. -/
theorem links_append (l₁ : List R) (x : R) (l₂ : List R) :
    Links node (l₁ ++ x :: l₂) ↔ Links node (l₁ ++ [x]) ∧ Links node (x :: l₂) := by
  induction l₁ with
  | nil =>
    show Links node (x :: l₂) ↔ True ∧ Links node (x :: l₂)
    rw [true_and]
  | cons a l₁ ih =>
    cases l₁ with
    | nil =>
      show ((node a).next = some x ∧ (node x).prev = some a ∧ Links node (x :: l₂)) ↔
        ((node a).next = some x ∧ (node x).prev = some a ∧ True) ∧ Links node (x :: l₂)
      rw [and_true, and_assoc]
    | cons b l₁ =>
      have hl : Links node (a :: b :: (l₁ ++ x :: l₂)) ↔
          (node a).next = some b ∧ (node b).prev = some a ∧ Links node (b :: (l₁ ++ x :: l₂)) :=
        links_cons_cons
      have hr : Links node (a :: b :: (l₁ ++ [x])) ↔
          (node a).next = some b ∧ (node b).prev = some a ∧ Links node (b :: (l₁ ++ [x])) :=
        links_cons_cons
      show Links node (a :: b :: (l₁ ++ x :: l₂)) ↔
        Links node (a :: b :: (l₁ ++ [x])) ∧ Links node (x :: l₂)
      rw [hl, hr, and_assoc, and_assoc]
      have ih' : Links node (b :: (l₁ ++ x :: l₂)) ↔
          Links node (b :: (l₁ ++ [x])) ∧ Links node (x :: l₂) := ih
      rw [ih']

/-- **The frame rule**: the forward pointers of all nodes but the last and
    the backward pointers of all nodes but the first are what counts. -/
theorem Links.frame : ∀ {l : List R}, Links node l →
    (∀ a ∈ l.dropLast, (node' a).next = (node a).next) →
    (∀ a ∈ l.tail, (node' a).prev = (node a).prev) → Links node' l := by
  intro l
  induction l with
  | nil =>
    intro _ _ _
    trivial
  | cons x l ih =>
    cases l with
    | nil =>
      intro _ _ _
      trivial
    | cons y rest =>
      intro h hnext hprev
      have hx : (node' x).next = (node x).next := hnext x List.mem_cons_self
      have hy : (node' y).prev = (node y).prev := hprev y List.mem_cons_self
      refine ⟨hx.trans h.1, hy.trans h.2.1, ih h.2.2 ?_ ?_⟩
      · intro a ha
        exact hnext a (List.mem_cons_of_mem x ha)
      · intro a ha
        exact hprev a (List.mem_cons_of_mem y ha)

/-- **A node is linked in** between `x` and `z`. -/
theorem Links.link_in {pre post : List R} {x y z : R} (h : Links node (pre ++ x :: z :: post))
    (hxy : (node' x).next = some y) (hyx : (node' y).prev = some x)
    (hyz : (node' y).next = some z) (hzy : (node' z).prev = some y)
    (hnext : ∀ a ∈ pre ++ (z :: post).dropLast, (node' a).next = (node a).next)
    (hprev : ∀ a ∈ (pre ++ [x]).tail ++ post, (node' a).prev = (node a).prev) :
    Links node' (pre ++ x :: y :: z :: post) := by
  rw [links_append] at h ⊢
  constructor
  · apply h.1.frame
    · intro a ha
      rw [List.dropLast_concat] at ha
      exact hnext a (List.mem_append_left _ ha)
    · intro a ha
      exact hprev a (List.mem_append_left _ ha)
  · refine ⟨hxy, hyx, hyz, hzy, h.2.2.2.frame ?_ ?_⟩
    · intro a ha
      exact hnext a (List.mem_append_right _ ha)
    · intro a ha
      exact hprev a (List.mem_append_right _ ha)

/-- **A node is taken out** between `x` and `z`. -/
theorem Links.unlink {pre post : List R} {x y z : R}
    (h : Links node (pre ++ x :: y :: z :: post)) (hxz : (node' x).next = some z)
    (hzx : (node' z).prev = some x)
    (hnext : ∀ a ∈ pre ++ (z :: post).dropLast, (node' a).next = (node a).next)
    (hprev : ∀ a ∈ (pre ++ [x]).tail ++ post, (node' a).prev = (node a).prev) :
    Links node' (pre ++ x :: z :: post) := by
  rw [links_append] at h ⊢
  constructor
  · apply h.1.frame
    · intro a ha
      rw [List.dropLast_concat] at ha
      exact hnext a (List.mem_append_left _ ha)
    · intro a ha
      exact hprev a (List.mem_append_left _ ha)
  · refine ⟨hxz, hzx, h.2.2.2.2.2.frame ?_ ?_⟩
    · intro a ha
      exact hnext a (List.mem_append_right _ ha)
    · intro a ha
      exact hprev a (List.mem_append_right _ ha)

/-- Around two neighbours of a circular list no node comes twice: the first
    is not among the nodes whose forward pointers, the second not among
    those whose backward pointers make up the rest of the list. -/
theorem ring_neighbours {pre post : List R} {x z b : R} (xs : List R)
    (h : b :: xs ++ [b] = pre ++ x :: z :: post) (hnodup : (b :: xs).Nodup) :
    x ∉ pre ++ (z :: post).dropLast ∧ z ∉ (pre ++ [x]).tail ++ post := by
  constructor
  · have hd : b :: xs = pre ++ x :: (z :: post).dropLast := by
      have := congrArg List.dropLast h
      rw [List.dropLast_concat, List.dropLast_append_of_ne_nil (by simp)] at this
      exact this
    rw [hd] at hnodup
    intro hx
    exact (List.nodup_middle.mp hnodup).notMem hx
  · have ht : xs ++ [b] = (pre ++ [x]).tail ++ z :: post := by
      have := congrArg List.tail h
      rw [List.tail_append_of_ne_nil (by simp)] at this
      cases pre with
      | nil => simpa using this
      | cons p pre => simpa using this
    have hn : (xs ++ [b]).Nodup := by
      have hperm : (xs ++ [b]).Perm (b :: xs) := List.perm_append_singleton b xs
      exact hperm.nodup_iff.mpr hnodup
    rw [ht] at hn
    intro hz
    exact (List.nodup_middle.mp hn).notMem hz

/-- Two nodes that are next to each other in a linked list. -/
theorem Links.adjacent {pre post : List R} {x y : R} (h : Links node (pre ++ x :: y :: post)) :
    (node x).next = some y ∧ (node y).prev = some x := by
  rw [links_append] at h
  exact ⟨h.2.1, h.2.2.1⟩

/-! ## §3. Circular lists. -/

/-- **A circular list** with header `b` and members `xs`. -/
structure IsRing (node : R → Link R) (b : R) (xs : List R) : Prop where
  links : Links node (b :: xs ++ [b])
  nodup : (b :: xs).Nodup

section Ring

variable {b y : R} {pre post xs : List R}

/-- The last of `b` and the nodes behind it. -/
theorem exists_last (b : R) (xs : List R) : ∃ A, b :: xs = A ++ [xs.getLastD b] := by
  rcases List.eq_nil_or_concat xs with rfl | ⟨ys, z, rfl⟩
  · exact ⟨[], rfl⟩
  · exact ⟨b :: ys, by simp⟩

/-- The first of the nodes and `b` behind them. -/
theorem exists_first (b : R) (xs : List R) : ∃ B, xs ++ [b] = xs.headD b :: B := by
  cases xs with
  | nil => exact ⟨[], rfl⟩
  | cons x xs => exact ⟨xs ++ [b], rfl⟩

/-- The two nodes at a place of a circular list. -/
theorem ring_split (b : R) (pre post : List R) :
    ∃ A B, b :: (pre ++ post) ++ [b] = A ++ pre.getLastD b :: post.headD b :: B ∧
      b :: pre = A ++ [pre.getLastD b] ∧ post ++ [b] = post.headD b :: B := by
  obtain ⟨A, hA⟩ := exists_last b pre
  obtain ⟨B, hB⟩ := exists_first b post
  refine ⟨A, B, ?_, hA, hB⟩
  calc b :: (pre ++ post) ++ [b] = (b :: pre) ++ (post ++ [b]) := by simp
    _ = A ++ pre.getLastD b :: post.headD b :: B := by rw [hA, hB]; simp

/-- A node moved to the front. -/
theorem ring_perm (b y : R) (pre post : List R) :
    (b :: (pre ++ y :: post)).Perm (y :: b :: (pre ++ post)) := by
  show ((b :: pre) ++ y :: post).Perm (y :: ((b :: pre) ++ post))
  exact List.perm_middle

/-- The nodes on the two sides of a place point at each other. -/
theorem IsRing.at_place (h : IsRing node b (pre ++ post)) :
    (node (pre.getLastD b)).next = some (post.headD b) ∧
      (node (post.headD b)).prev = some (pre.getLastD b) := by
  obtain ⟨A, B, heq, -, -⟩ := ring_split b pre post
  exact Links.adjacent (heq ▸ h.links)

/-- A circular list depends on the pointers of its nodes only. -/
theorem IsRing.congr (h : IsRing node b xs) (heq : ∀ a ∈ b :: xs, node' a = node a) :
    IsRing node' b xs := by
  have hmem : ∀ a ∈ b :: xs ++ [b], a ∈ b :: xs := by
    intro a ha
    rcases List.mem_append.mp ha with ha | ha
    · exact ha
    · rw [List.mem_singleton.mp ha]
      exact List.mem_cons_self
  refine ⟨h.links.frame ?_ ?_, h.nodup⟩
  · intro a ha
    rw [heq a (hmem a (List.dropLast_subset _ ha))]
  · intro a ha
    rw [heq a (hmem a (List.mem_of_mem_tail ha))]

/-- A base that points to itself is the empty ring. -/
theorem isRing_nil (b : R) (h : node b = ⟨some b, some b⟩) : IsRing node b [] := by
  refine ⟨⟨?_, ?_, trivial⟩, List.nodup_singleton b⟩
  · rw [h]
  · rw [h]

variable [DecidableEq R]

/-- The pointer writes that link `y` in behind `x`; none if the pointer of `x` is
    null. -/
def insertAfter (node : R → Link R) (x y : R) : Option (R → Link R) := do
  let node := setPrev node y (some x)
  let node := setNext node y (node x).next
  let z ← (node x).next
  let node := setPrev node z (some y)
  some (setNext node x (some y))

/-- The pointer writes that take `y` out of its list. -/
def delete (node : R → Link R) (y : R) : Option (R → Link R) := do
  let x ← (node y).prev
  let node := setNext node x (node y).next
  let z ← (node y).next
  some (setPrev node z (node y).prev)

/-- **A node is linked in** at a place of a circular list, and no other node is
    touched. -/
theorem IsRing.insertAfter (h : IsRing node b (pre ++ post)) (hy : y ∉ b :: (pre ++ post)) :
    ∃ node', insertAfter node (pre.getLastD b) y = some node' ∧
      IsRing node' b (pre ++ y :: post) ∧ ∀ a, a ∉ y :: b :: (pre ++ post) → node' a = node a := by
  -- the ring as a closed path, cut between the neighbours `x` and `z` of the place
  obtain ⟨A, B, heq, hA, hB⟩ := ring_split b pre post
  obtain ⟨x, hx⟩ : ∃ x, x = pre.getLastD b := ⟨_, rfl⟩
  obtain ⟨z, hz⟩ : ∃ z, z = post.headD b := ⟨_, rfl⟩
  rw [← hx, ← hz] at heq
  rw [← hx] at hA ⊢
  rw [← hz] at hB
  have hnext : (node x).next = some z := by
    rw [hx, hz]
    exact h.at_place.1
  have hring : Links node (A ++ x :: z :: B) := heq ▸ h.links
  have hin : ∀ a ∈ A ++ x :: z :: B, a ∈ b :: (pre ++ post) := by
    intro a ha
    rw [← heq] at ha
    rcases List.mem_append.mp ha with ha | ha
    · exact ha
    · rw [List.mem_singleton.mp ha]
      exact List.mem_cons_self
  -- `y` is not on it, and `x` and `z` are on it once
  have hne : ∀ a ∈ A ++ x :: z :: B, a ≠ y := fun a ha e => hy (e ▸ hin a ha)
  have hxy : x ≠ y := hne x (by simp)
  have hzy : z ≠ y := hne z (by simp)
  obtain ⟨hxout, hzout⟩ := ring_neighbours (pre ++ post) heq h.nodup
  refine ⟨setNext (setPrev (setNext (setPrev node y (some x)) y (some z)) z (some y)) x (some y),
    ?_, ⟨?_, ?_⟩, ?_⟩
  · unfold Lib.insertAfter
    simp only [setPrev_next, hnext, setNext_next_of_ne _ _ hxy, Option.bind_eq_bind,
      Option.bind_some]
  · have hgoal : b :: (pre ++ y :: post) ++ [b] = A ++ x :: y :: z :: B := by
      calc b :: (pre ++ y :: post) ++ [b] = (b :: pre) ++ y :: (post ++ [b]) := by simp
        _ = A ++ x :: y :: z :: B := by rw [hA, hB]; simp
    rw [hgoal]
    -- four pointers are written, all others stay
    apply hring.link_in
    · simp
    · simp [setPrev_prev_of_ne _ _ hzy.symm]
    · simp [setNext_next_of_ne _ _ hxy.symm]
    · simp
    · intro a ha
      have hay : a ≠ y := hne a (by
        rcases List.mem_append.mp ha with ha | ha
        · exact List.mem_append_left _ ha
        · exact List.mem_append_right _ (List.mem_cons_of_mem _ (List.dropLast_subset _ ha)))
      have hax : a ≠ x := fun e => hxout (e ▸ ha)
      simp [setNext_next_of_ne _ _ hax, setNext_next_of_ne _ _ hay]
    · intro a ha
      have hay : a ≠ y := hne a (by
        rcases List.mem_append.mp ha with ha | ha
        · have := List.mem_of_mem_tail ha
          simp only [List.mem_append, List.mem_singleton] at this
          rcases this with h1 | h1
          · exact List.mem_append_left _ h1
          · rw [h1]; simp
        · simp [ha])
      have haz : a ≠ z := fun e => hzout (e ▸ ha)
      simp [setPrev_prev_of_ne _ _ haz, setPrev_prev_of_ne _ _ hay]
  · exact (ring_perm b y pre post).nodup_iff.mpr (List.nodup_cons.mpr ⟨hy, h.nodup⟩)
  · intro a ha
    have hay : a ≠ y := fun e => ha (e ▸ List.mem_cons_self)
    have hax : a ≠ x := fun e => ha (List.mem_cons_of_mem _ (e ▸ hin x (by simp)))
    have haz : a ≠ z := fun e => ha (List.mem_cons_of_mem _ (e ▸ hin z (by simp)))
    unfold setNext setPrev
    rw [Function.update_of_ne hax, Function.update_of_ne haz, Function.update_of_ne hay,
      Function.update_of_ne hay]

/-- **A node is taken out** of a circular list, and no other node outside is
    touched. -/
theorem IsRing.delete (h : IsRing node b (pre ++ y :: post)) :
    ∃ node', delete node y = some node' ∧ IsRing node' b (pre ++ post) ∧
      ∀ a, a ∉ b :: (pre ++ post) → node' a = node a := by
  obtain ⟨A, hA⟩ := exists_last b pre
  obtain ⟨B, hB⟩ := exists_first b post
  obtain ⟨x, hx⟩ : ∃ x, x = pre.getLastD b := ⟨_, rfl⟩
  obtain ⟨z, hz⟩ : ∃ z, z = post.headD b := ⟨_, rfl⟩
  rw [← hx] at hA
  rw [← hz] at hB
  -- the ring as a closed path through `x`, `y`, `z`
  have heq : b :: (pre ++ y :: post) ++ [b] = A ++ x :: y :: z :: B := by
    calc b :: (pre ++ y :: post) ++ [b] = (b :: pre) ++ y :: (post ++ [b]) := by simp
      _ = A ++ x :: y :: z :: B := by rw [hA, hB]; simp
  have heq' : b :: (pre ++ y :: post) ++ [b] = (A ++ [x]) ++ y :: z :: B := by
    rw [heq]
    simp
  have hgoal : b :: (pre ++ post) ++ [b] = A ++ x :: z :: B := by
    calc b :: (pre ++ post) ++ [b] = (b :: pre) ++ (post ++ [b]) := by simp
      _ = A ++ x :: z :: B := by rw [hA, hB]; simp
  have hring : Links node (A ++ x :: y :: z :: B) := heq ▸ h.links
  have hprev : (node y).prev = some x := (Links.adjacent hring).2
  have hnext : (node y).next = some z := by
    have hring' : Links node ((A ++ [x]) ++ y :: z :: B) := heq' ▸ h.links
    exact (Links.adjacent hring').1
  have hnodup := List.nodup_cons.mp ((ring_perm b y pre post).nodup_iff.mp h.nodup)
  have hin : ∀ a ∈ A ++ x :: z :: B, a ∈ b :: (pre ++ post) := by
    intro a ha
    rw [← hgoal] at ha
    rcases List.mem_append.mp ha with ha | ha
    · exact ha
    · rw [List.mem_singleton.mp ha]
      exact List.mem_cons_self
  have hxy : y ≠ x := fun e => hnodup.1 (e ▸ hin x (by simp))
  -- what is left has `x` and `z` once, so only their pointers to `y` are written
  obtain ⟨hxout, hzout⟩ := ring_neighbours (pre ++ post) hgoal hnodup.2
  refine ⟨setPrev (setNext node x (some z)) z (some x), ?_, ⟨?_, hnodup.2⟩, ?_⟩
  · unfold Lib.delete
    simp only [hprev, hnext, setNext_next_of_ne _ _ hxy, setNext_prev, Option.bind_eq_bind,
      Option.bind_some]
  · rw [hgoal]
    apply hring.unlink
    · simp
    · simp
    · intro a ha
      have hax : a ≠ x := fun e => hxout (e ▸ ha)
      simp [setNext_next_of_ne _ _ hax]
    · intro a ha
      have haz : a ≠ z := fun e => hzout (e ▸ ha)
      simp [setPrev_prev_of_ne _ _ haz]
  · intro a ha
    have hax : a ≠ x := fun e => ha (e ▸ hin x (by simp))
    have haz : a ≠ z := fun e => ha (e ▸ hin z (by simp))
    unfold setNext setPrev
    rw [Function.update_of_ne haz, Function.update_of_ne hax]

end Ring

end Altibase.Lib
