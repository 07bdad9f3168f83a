/-
  Altibase.Sml.Cycle
  ──────────────────
  **THE SEARCH FOR A WAIT CYCLE IS EXACT.**

  `isCycle` extends the row of the waiter level by level: the slots at
  distance `pathLen` lend their direct waits to the row, at distance
  `pathLen + 1`.  The row is its own visited set, so the search is sound and
  complete once four things are kept:

    * every linked slot is reached from the waiter by direct waits;
    * the direct waits of the waiter are linked from the start;
    * the direct waits of every slot below the current level are linked;
    * each level that goes on has linked at least one more slot, so that the
      bound `mTransCnt` on the path length cuts nothing off.

  Main results:

    * `searched_visitItems` — one round keeps the invariant;
    * `isCycle_iff` — the search answers yes exactly when the waiter lies on a
      cycle of direct waits.
-/

import Altibase.Sml.DistDeadlock
import Mathlib.Data.Finset.Card
import Mathlib.Data.List.Nodup
import Mathlib.Logic.Relation

namespace Altibase.Sml

open Relation (TransGen)

/-! ## §1. Direct waits. -/

/-- Slot `i` waits for slot `j` directly: `j` is linked in row `i` with path
    length one. -/
def Node.Waits (n : Node) (i j : Nat) : Prop := j ∈ n.items i ∧ n.index i j = 1

/-- **The row of a waiter before the search.**  It links the direct waits of
    the waiter, once each, and nothing else; rows of other slots may hold
    entries of any path length. -/
structure Node.Fresh (n : Node) (slot : Nat) : Prop where
  nodup : (n.items slot).Nodup
  direct : ∀ j ∈ n.items slot, n.index slot j = 1
  rest : ∀ j < n.transCnt, j ∉ n.items slot → n.index slot j = 0
  lt : ∀ i < n.transCnt, ∀ j ∈ n.items i, j < n.transCnt
  slot_lt : slot < n.transCnt

/-! ## §2. The invariant of the row. -/

/-- What holds of the row at every moment of the search. -/
structure Sound (n : Node) (slot : Nat) (w : Walk) : Prop where
  nodup : w.items.Nodup
  lt : ∀ j ∈ w.items, j < n.transCnt
  mem_iff : ∀ j < n.transCnt, (j ∈ w.items ↔ w.index j ≠ 0)
  reach : ∀ j ∈ w.items, TransGen n.Waits slot j

/-- **The row before the round for `pathLen`.**  The slots that are linked at
    a smaller distance have had their turn. -/
structure Searched (n : Node) (slot pathLen : Nat) (w : Walk) : Prop
    extends Sound n slot w where
  index_le : ∀ j ∈ w.items, w.index j ≤ pathLen
  start : ∀ j, n.Waits slot j → j ∈ w.items
  closed : ∀ i ∈ w.items, w.index i < pathLen → ∀ j, n.Waits i j → j ∈ w.items
  found : w.found = true → slot ∈ w.items

/-- **The row inside the round for `pathLen`**, which started at `w₀`: only
    slots at the next distance have been added. -/
structure During (n : Node) (slot pathLen : Nat) (w₀ w : Walk) : Prop
    extends Sound n slot w where
  old : ∀ j ∈ w₀.items, j ∈ w.items ∧ w.index j = w₀.index j
  new : ∀ j ∈ w.items, j ∉ w₀.items → w.index j = pathLen + 1
  grow : w.exitPathFlag = true → w₀.items.length < w.items.length
  still : w.exitPathFlag = false → slot ∈ w.items ∨ ∀ j ∈ w.items, j ∈ w₀.items
  le : w₀.items.length ≤ w.items.length
  found : w.found = true → slot ∈ w.items

section Search

variable {n : Node} {slot pathLen i : Nat} {ready : Bool} {w₀ w : Walk}

/-! ## §3. One slot. -/

/-- Linking a slot that a reached slot waits for. -/
theorem during_linkHolder (h : During n slot pathLen w₀ w) {j : Nat}
    (hreach : TransGen n.Waits slot j) (hlt : j < n.transCnt) (hj : j ∉ w.items) :
    During n slot pathLen w₀ (n.linkHolder slot ready pathLen i w j) := by
  -- the slots that are marked keep their marks
  have hold : ∀ a ∈ w.items, Function.update w.index j (pathLen + 1) a = w.index a := by
    intro a ha
    apply Function.update_of_ne
    intro e
    exact hj (e ▸ ha)
  constructor
  · constructor
    · exact List.nodup_cons.mpr ⟨hj, h.nodup⟩
    · intro a ha
      rcases List.mem_cons.mp ha with rfl | ha
      · exact hlt
      · exact h.lt a ha
    · intro a hlta
      show a ∈ j :: w.items ↔ Function.update w.index j (pathLen + 1) a ≠ 0
      by_cases haj : a = j
      · subst haj
        simp
      · rw [Function.update_of_ne haj, List.mem_cons, ← h.mem_iff a hlta]
        simp [haj]
    · intro a ha
      rcases List.mem_cons.mp ha with rfl | ha
      · exact hreach
      · exact h.reach a ha
  · -- what was linked keeps its mark
    intro a ha
    have hmem := (h.old a ha).1
    exact ⟨List.mem_cons_of_mem j hmem, (hold a hmem).trans (h.old a ha).2⟩
  · -- what is new has the mark of this round
    intro a ha hnew
    show Function.update w.index j (pathLen + 1) a = pathLen + 1
    rcases List.mem_cons.mp ha with rfl | ha
    · exact Function.update_self ..
    · exact (hold a ha).trans (h.new a ha hnew)
  · -- the flag: the list has grown
    intro _
    show w₀.items.length < (j :: w.items).length
    have := h.le
    simp only [List.length_cons]
    omega
  · -- no flag: nothing is new
    intro he
    have hslot : slot = j := by
      by_contra hne
      simp [Node.linkHolder, hne] at he
    exact .inl (hslot ▸ List.mem_cons_self)
  · -- the list does not shrink
    show w₀.items.length ≤ (j :: w.items).length
    have := h.le
    simp only [List.length_cons]
    omega
  · -- the waiter was met
    intro hf
    have hslot : slot = j := by simpa [Node.linkHolder] using hf
    exact hslot ▸ List.mem_cons_self

/-- One transaction that `i` waits for. -/
theorem during_visitHolder (hn : n.Fresh slot) (h : During n slot pathLen w₀ w) {j : Nat}
    (hi : TransGen n.Waits slot i) (hlt : i < n.transCnt) (hj : j ∈ n.items i) :
    During n slot pathLen w₀ (n.visitHolder slot ready pathLen i w j) := by
  unfold Node.visitHolder
  split_ifs with hf hl
  · exact h
  · exact during_linkHolder h (hi.tail ⟨hj, hl.1⟩) (hn.lt i hlt j hj) hl.2
  · exact h

/-- Only the table of transactions is written; the row is as it was. -/
theorem during_markDirect (h : During n slot pathLen w₀ w) :
    During n slot pathLen w₀ (n.markDirect slot ready pathLen i w) := by
  unfold Node.markDirect
  split_ifs with hd
  · exact ⟨⟨h.nodup, h.lt, h.mem_iff, h.reach⟩, h.old, h.new, h.grow, h.still, h.le, h.found⟩
  · exact h

/-- One waiting transaction of the row. -/
theorem during_visitItem (hn : n.Fresh slot) (h : During n slot pathLen w₀ w) (hi : i ∈ w.items) :
    During n slot pathLen w₀ (n.visitItem slot ready pathLen w i) := by
  have hreach := h.reach i hi
  have hlt := h.lt i hi
  unfold Node.visitItem
  split_ifs with hs hp
  · exact h
  · exact h
  · apply List.foldlRecOn
    · exact during_markDirect h
    · intro w' h' j hj
      exact during_visitHolder hn h' hreach hlt hj

/-! ## §4. One row lends all its direct waits. -/

/-- Slot `j` is linked, or the search is over. -/
def Covered (slot j : Nat) (w : Walk) : Prop := j ∈ w.items ∨ slot ∈ w.items

/-- A slot that is linked stays linked -/
theorem covered_visitHolder {j : Nat} (h : Covered slot j w) (a : Nat) :
    Covered slot j (n.visitHolder slot ready pathLen i w a) := by
  unfold Node.visitHolder
  split_ifs with hf hl
  · exact h
  · exact h.imp (List.mem_cons_of_mem a) (List.mem_cons_of_mem a)
  · exact h

/-- when a transaction is marked -/
theorem covered_markDirect {j : Nat} (h : Covered slot j w) :
    Covered slot j (n.markDirect slot ready pathLen i w) := by
  unfold Node.markDirect
  split_ifs <;> exact h

/-- and when the row is gone through. -/
theorem covered_visitItem {j : Nat} (h : Covered slot j w) (a : Nat) :
    Covered slot j (n.visitItem slot ready pathLen w a) := by
  unfold Node.visitItem
  split_ifs
  · exact h
  · exact h
  · apply List.foldlRecOn
    · exact covered_markDirect h
    · intro w' h' b _
      exact covered_visitHolder h' b

/-- Visiting a direct wait covers it. -/
theorem visitHolder_covers {j : Nat} (hfound : w.found = true → slot ∈ w.items)
    (hidx : n.index i j = 1) :
    Covered slot j (n.visitHolder slot ready pathLen i w j) := by
  unfold Node.visitHolder
  split_ifs with hf hl
  · exact .inr (hfound hf)
  · exact .inl List.mem_cons_self
  · left
    by_contra hj
    exact hl ⟨hidx, hj⟩

/-- **One row lends all its direct waits.** -/
theorem visitItem_covers (hn : n.Fresh slot) (h : During n slot pathLen w₀ w) (hi : i ∈ w.items)
    (hp : w.index i = pathLen) {j : Nat} (hw : n.Waits i j) :
    Covered slot j (n.visitItem slot ready pathLen w i) := by
  have hreach := h.reach i hi
  have hlt := h.lt i hi
  unfold Node.visitItem
  rw [if_neg (not_not.mpr hp)]
  split_ifs with hs
  · exact .inr hs
  · obtain ⟨before, after, hsplit⟩ := List.append_of_mem hw.1
    rw [hsplit, List.foldl_append, List.foldl_cons]
    have hbefore : During n slot pathLen w₀
        (before.foldl (n.visitHolder slot ready pathLen i)
          (n.markDirect slot ready pathLen i w)) := by
      apply List.foldlRecOn
      · exact during_markDirect h
      · intro w' h' b hb
        apply during_visitHolder hn h' hreach hlt
        rw [hsplit]
        exact List.mem_append_left _ hb
    apply List.foldlRecOn
    · exact visitHolder_covers hbefore.found hw.2
    · intro w' h' b _
      exact covered_visitHolder h' b

/-! ## §5. One round. -/

/-- The rows that the round for `pathLen` has passed are covered. -/
def Passed (n : Node) (slot pathLen : Nat) (w₀ w : Walk) (slots : List Nat) : Prop :=
  ∀ i ∈ slots, w₀.index i = pathLen → ∀ j, n.Waits i j → Covered slot j w

variable (ready) in
/-- A round over the waiting transactions, by induction on those that are left. -/
theorem round_foldl (hn : n.Fresh slot) (slots : List Nat) :
    ∀ w done, During n slot pathLen w₀ w → (∀ i ∈ slots, i ∈ w₀.items) →
      Passed n slot pathLen w₀ w done →
      During n slot pathLen w₀ (slots.foldl (n.visitItem slot ready pathLen) w) ∧
      Passed n slot pathLen w₀ (slots.foldl (n.visitItem slot ready pathLen) w)
        (done ++ slots) := by
  induction slots with
  | nil =>
    intro w done h _ hd
    rw [List.append_nil]
    exact ⟨h, hd⟩
  | cons i slots ih =>
    intro w done h hmem hd
    have hi := h.old i (hmem i List.mem_cons_self)
    have hpassed : Passed n slot pathLen w₀ (n.visitItem slot ready pathLen w i)
        (done ++ [i]) := by
      intro a ha hp j hw
      rcases List.mem_append.mp ha with ha | ha
      · exact covered_visitItem (hd a ha hp j hw) i
      · obtain rfl := List.mem_singleton.mp ha
        exact visitItem_covers hn h hi.1 (hi.2.trans hp) hw
    have := ih (n.visitItem slot ready pathLen w i) (done ++ [i]) (during_visitItem hn h hi.1)
      (fun a ha => hmem a (List.mem_cons_of_mem i ha)) hpassed
    rwa [List.append_assoc] at this

/-- A round begins with the flag cleared. -/
theorem during_start (h : Searched n slot pathLen w) :
    During n slot pathLen w { w with exitPathFlag := false } := by
  constructor
  · exact ⟨h.nodup, h.lt, h.mem_iff, h.reach⟩
  · -- what was linked keeps its mark
    intro j hj
    exact ⟨hj, rfl⟩
  · -- what is new has the mark of this round
    intro j hj hnot
    exact absurd hj hnot
  · -- the flag: the list has grown
    intro he
    cases he
  · -- no flag: nothing is new
    intro _
    exact .inr (fun j hj => hj)
  · exact le_refl _
  · exact h.found

variable (ready) in
/-- What a whole round keeps, and that every row of its distance is covered. -/
theorem during_visitItems (hn : n.Fresh slot) (h : Searched n slot pathLen w) :
    During n slot pathLen w (n.visitItems slot ready pathLen w) ∧
    Passed n slot pathLen w (n.visitItems slot ready pathLen w) w.items := by
  have := round_foldl ready hn w.items { w with exitPathFlag := false } []
    (during_start h) (fun i hi => hi) (fun i hi => absurd hi List.not_mem_nil)
  exact this

/-- **One round keeps the invariant**, unless it links the waiter. -/
theorem searched_visitItems (hn : n.Fresh slot) (h : Searched n slot pathLen w)
    (hs : slot ∉ (n.visitItems slot ready pathLen w).items) :
    Searched n slot (pathLen + 1) (n.visitItems slot ready pathLen w) := by
  obtain ⟨hd, hp⟩ := during_visitItems ready hn h
  constructor
  · exact hd.toSound
  · -- the marks are at most the level
    intro j hj
    by_cases hold : j ∈ w.items
    · rw [(hd.old j hold).2]
      have := h.index_le j hold
      omega
    · exact (hd.new j hj hold).le
  · -- the direct waits are linked
    intro j hw
    exact (hd.old j (h.start j hw)).1
  · -- the waits of nearer slots are linked
    intro i hi hlt j hw
    -- A slot below the new level was linked before this round.
    have hold : i ∈ w.items := by
      by_contra hnot
      have := hd.new i hi hnot
      omega
    rw [(hd.old i hold).2] at hlt
    by_cases hlast : w.index i = pathLen
    · exact (hp i hold hlast j hw).resolve_right hs
    · exact (hd.old j (h.closed i hold (by omega) j hw)).1
  · exact hd.found

/-- A round that links nothing has reached every slot that can be reached. -/
theorem closed_visitItems (hn : n.Fresh slot) (h : Searched n slot pathLen w)
    (hflag : (n.visitItems slot ready pathLen w).exitPathFlag = false)
    (hs : slot ∉ (n.visitItems slot ready pathLen w).items) :
    ∀ i ∈ (n.visitItems slot ready pathLen w).items, ∀ j, n.Waits i j →
      j ∈ (n.visitItems slot ready pathLen w).items := by
  have hsearched := searched_visitItems hn h hs
  obtain ⟨hd, -⟩ := during_visitItems ready hn h
  intro i hi j hw
  have hold := (hd.still hflag).resolve_left hs i hi
  apply hsearched.closed i hi _ j hw
  rw [(hd.old i hold).2]
  have := h.index_le i hold
  omega

/-! ## §6. The whole search. -/

/-- Distinct slots below `n` that are `n` in number are all of them. -/
theorem mem_of_length_ge {items : List Nat} {cnt : Nat} (hnodup : items.Nodup)
    (hlt : ∀ j ∈ items, j < cnt) (hlen : cnt ≤ items.length) (hslot : slot < cnt) :
    slot ∈ items := by
  have hsub : items.toFinset ⊆ Finset.range cnt := by
    intro j hj
    exact Finset.mem_range.mpr (hlt j (List.mem_toFinset.mp hj))
  have hcard : (Finset.range cnt).card ≤ items.toFinset.card := by
    rw [Finset.card_range, List.toFinset_card_of_nodup hnodup]
    exact hlen
  have heq := Finset.eq_of_subset_of_card_le hsub hcard
  rw [← List.mem_toFinset, heq]
  exact Finset.mem_range.mpr hslot

/-- Following the waits from a closed row never leaves it. -/
theorem mem_of_transGen {items : List Nat} (hstart : ∀ j, n.Waits slot j → j ∈ items)
    (hclosed : ∀ i ∈ items, ∀ j, n.Waits i j → j ∈ items) {j : Nat}
    (h : TransGen n.Waits slot j) : j ∈ items := by
  induction h with
  | single hw => exact hstart _ hw
  | tail _ hw ih => exact hclosed _ ih _ hw

/-- What the search leaves: the waiter is linked, or the row contains every
    slot that the waiter reaches. -/
structure Complete (n : Node) (slot : Nat) (w : Walk) : Prop extends Sound n slot w where
  start : ∀ j, n.Waits slot j → j ∈ w.items
  closed : slot ∈ w.items ∨ ∀ i ∈ w.items, ∀ j, n.Waits i j → j ∈ w.items

/-- The loop ends where its condition fails. -/
theorem walk_stop {left : Nat} (h : ¬ (w.exitPathFlag = true ∧ w.index slot = 0)) :
    n.walk slot ready left pathLen w = w := by
  cases left with
  | zero => rfl
  | succ left =>
    unfold Node.walk
    exact if_neg h

/-- **The walk is complete when it ends**, by induction on the rounds left: a round adds a slot to
the row, or is the last one. -/
theorem complete_walk (hn : n.Fresh slot) (left : Nat) :
    ∀ pathLen w, Searched n slot pathLen w → left + pathLen = n.transCnt →
      w.exitPathFlag = true → (w.items = [] ∨ pathLen ≤ w.items.length) →
      Complete n slot (n.walk slot ready left pathLen w) := by
  induction left with
  | zero =>
    intro pathLen w h hsum _ hlen
    show Complete n slot w
    constructor
    · exact h.toSound
    · exact h.start
    rcases hlen with hnil | hlen
    · right
      intro i hi
      rw [hnil] at hi
      exact absurd hi List.not_mem_nil
    · left
      exact mem_of_length_ge h.nodup h.lt (by omega) hn.slot_lt
  | succ left ih =>
    intro pathLen w h hsum hflag hlen
    unfold Node.walk
    by_cases hgo : w.index slot = 0
    · rw [if_pos ⟨hflag, hgo⟩]
      have hd := (during_visitItems ready hn h).1
      have hstart : ∀ j, n.Waits slot j → j ∈ (n.visitItems slot ready pathLen w).items :=
        fun j hw => (hd.old j (h.start j hw)).1
      by_cases hs : slot ∈ (n.visitItems slot ready pathLen w).items
      · -- The waiter has been linked: the next test ends the search.
        rw [walk_stop (fun hboth => (hd.mem_iff slot hn.slot_lt).mp hs hboth.2)]
        exact ⟨hd.toSound, hstart, .inl hs⟩
      · by_cases hflag' : (n.visitItems slot ready pathLen w).exitPathFlag = true
        · apply ih _ _ (searched_visitItems hn h hs) (by omega) hflag'
          have := hd.grow hflag'
          right
          rcases hlen with hnil | hlen
          · exfalso
            have hnone : n.visitItems slot ready pathLen w = { w with exitPathFlag := false } := by
              unfold Node.visitItems
              rw [hnil]
              rfl
            rw [hnone] at hflag'
            cases hflag'
          · omega
        · -- Nothing was linked: the row is closed, and the search ends.
          have hfalse : (n.visitItems slot ready pathLen w).exitPathFlag = false := by
            simpa using hflag'
          rw [walk_stop (fun hboth => hflag' hboth.1)]
          exact ⟨hd.toSound, hstart, .inr (closed_visitItems hn h hfalse hs)⟩
    · rw [if_neg (fun hboth => hgo hboth.2)]
      exact ⟨h.toSound, h.start, .inl ((h.mem_iff slot hn.slot_lt).mpr hgo)⟩

/-- The walk begins with what the searcher waits for itself. -/
theorem searched_walkInit (hn : n.Fresh slot) : Searched n slot 1 (n.walkInit slot) := by
  have hwaits : ∀ j ∈ n.items slot, n.Waits slot j := fun j hj => ⟨hj, hn.direct j hj⟩
  constructor
  · constructor
    · exact hn.nodup
    · exact hn.lt slot hn.slot_lt
    · intro j hlt
      constructor
      · intro hj
        show n.index slot j ≠ 0
        rw [hn.direct j hj]
        exact one_ne_zero
      · intro hne
        by_contra hj
        exact hne (hn.rest j hlt hj)
    · intro j hj
      exact .single (hwaits j hj)
  · -- the marks are at most the level
    intro j hj
    exact (hn.direct j hj).le
  · -- the direct waits are linked
    intro j hw
    exact hw.1
  · -- the waits of nearer slots are linked
    intro i hi hlt
    have : n.index slot i = 1 := hn.direct i hi
    have : n.index slot i < 1 := hlt
    omega
  · -- the waiter was met
    intro hf
    cases hf

/-- The whole search. -/
theorem complete_isCycle (hn : n.Fresh slot) (ready : Bool) :
    Complete n slot (n.isCycle slot ready).2 := by
  have hpos := hn.slot_lt
  apply complete_walk hn (n.transCnt - 1) 1 _ (searched_walkInit hn) (by omega) rfl
  by_cases hnil : n.items slot = []
  · exact .inl hnil
  · exact .inr (List.length_pos_iff.mpr hnil)

/-- **The search is exact.**  `isCycle` answers yes exactly when the waiter
    lies on a cycle of direct waits. -/
theorem isCycle_iff (hn : n.Fresh slot) (ready : Bool) :
    (n.isCycle slot ready).1 = true ↔ TransGen n.Waits slot slot := by
  have h := complete_isCycle hn ready
  have hfound : (n.isCycle slot ready).1 = true ↔ slot ∈ (n.isCycle slot ready).2.items := by
    rw [h.mem_iff slot hn.slot_lt]
    simp [Node.isCycle]
  rw [hfound]
  constructor
  · exact h.reach slot
  · intro hcycle
    rcases h.closed with hs | hclosed
    · exact hs
    · exact mem_of_transGen h.start hclosed hcycle

end Search

end Altibase.Sml
