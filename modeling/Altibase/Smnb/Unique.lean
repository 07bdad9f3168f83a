/-
  Altibase.Smnb.Unique
  ────────────────────
  **THE UNIQUENESS CHECK OF THE MEMORY B-TREE** (`smnbModule.cpp`,
  `isRowUnique`, `checkUniqueness`).

  Before a row goes into a unique index, the rows with its key are visited:
  backwards from the insert position, then forwards, over as many leaves as
  the run of equal keys covers.  `isRowUnique` looks at the two SCN words of a
  row and answers: passed, wait for a transaction, or an error.

    * `Ctx.liveCommitted_fails` — a live committed version never passes;
    * `scanSide_spec` — what one direction has visited when it ends;
    * `normal_spec` — a normal transaction that is neither sent to wait nor
      sent back has seen every row with its key pass;
    * `checkUniqueness_correct` — a replication transaction may be told to
      wait with a live committed row of its key unseen, and exactly when.
-/

import Altibase.Smnb.Node

namespace Altibase.Smnb

/-! ## §1. SCN words (`smDef.h`, 64 bit). -/

/-- `smSCN`, as one word. -/
abbrev Scn := BitVec 64

/-- `SM_NULL_TID`. -/
def smNullTid : Nat := 0x7FFFFFFF

namespace Scn

/-- `SM_SCN_IS_INFINITE`. -/
def isInfinite (s : Scn) : Bool := decide (0x8000000000000000#64 ≤ s)

/-- `SM_SCN_IS_LOCK_ROW`. -/
def isLockRow (s : Scn) : Bool := s &&& 0xFFFFFFFF00000000#64 == 0xFFFFFFFF00000000#64

/-- `SM_SCN_IS_FREE_ROW`. -/
def isFreeRow (s : Scn) : Bool := s == 0x7FFFFFFFFFFFFFF9#64

/-- `SM_SCN_IS_DELETED`. -/
def isDeleted (s : Scn) : Bool :=
  if isInfinite s then s &&& 0x0000000100000000#64 == 0x0000000100000000#64
  else s &&& 1#64 == 1#64

/-- `SM_SCN_IS_INIT`. -/
def isInit (s : Scn) : Bool := s == 0#64

/-- `SMP_GET_TID`: the transaction in the low word of an infinite SCN. -/
def tid (s : Scn) : Nat :=
  if isInfinite s then (s &&& 0x00000000FFFFFFFF#64).toNat else smNullTid

end Scn

/-- The SCN words of a row version. -/
structure SlotHeader where
  mCreateSCN : Scn
  mLimitSCN : Scn
  deriving DecidableEq, Repr

/-- **What one evaluation of a row reads.**  `first` and `again` are the words of
the row header before and after the waits of a global transaction, the two flags
the results of `waitPendingTx`, and `transCommitSCN` the answers of
`smxTrans::getTransCommitSCN`. -/
structure RowView where
  first : SlotHeader
  again : SlotHeader
  createWaitOk : Bool
  limitWaitOk : Bool
  transCommitSCN : Nat → Scn → Scn

/-- The checking transaction. -/
structure Trans where
  mTransID : Nat
  mReplID : Nat
  mIsGCTx : Bool
  deriving DecidableEq, Repr

/-- `smxTrans::isReplTrans`. -/
def Trans.isReplTrans (tx : Trans) : Bool := tx.mReplID != 0x7FFFFFFF

/-- `SMX_GET_SCN_AND_TID`. -/
def getScnAndTid (commitSCN : Nat → Scn → Scn) (src : Scn) : Scn × Nat :=
  if src.isInfinite then
    (if src.isLockRow then src else commitSCN src.tid src, src.tid)
  else (src, smNullTid)

/-! ## §2. `isRowUnique`. -/

variable {κ : Type}

/-- The errors of the check. -/
inductive UniqueError (κ : Type) where
  /-- `smERR_ABORT_smnUniqueViolation`, with `*aExistUniqueRow`. -/
  | uniqueViolation (existUniqueRow : Row κ)
  /-- `smERR_RETRY_Already_Modified`. -/
  | alreadyModified
  /-- `smERR_ABORT_StatementTooOld`. -/
  | statementTooOld
  /-- `waitPendingTx` failed. -/
  | waitFailed
  /-- `smERR_ABORT_INCONSISTENT_INDEX`. -/
  | inconsistentIndex
  deriving DecidableEq, Repr

/-- `*aTid = tid`, with its two checks. -/
def waitFor (tid : Nat) : Except (UniqueError κ) Nat :=
  if tid = 0 ∨ tid = smNullTid then .error .inconsistentIndex else .ok tid

/-- The row header that is judged. -/
def RowView.header (tx : Trans) (v : RowView) : SlotHeader :=
  if tx.mIsGCTx then v.again else v.first

/-- A global transaction waits for a pending transaction that is not itself. -/
def needsWait (tx : Trans) (s : Scn) : Bool := s.isInfinite && s.tid != tx.mTransID

/-- Both `waitPendingTx` of a global transaction succeed, where they are called. -/
def RowView.waitsOk (tx : Trans) (v : RowView) : Bool :=
  !tx.mIsGCTx ||
    ((!needsWait tx v.first.mCreateSCN || v.createWaitOk) &&
      (!needsWait tx v.first.mLimitSCN || v.limitWaitOk))

/-- **`smnbBTree::isRowUnique`.**  Returns the new value of `*aTid`. -/
def isRowUnique (aTrans : Option Trans) (v : RowView) (aRow : Row κ) (aStmtViewSCN : Scn)
    (aForbiddenToRetry : Bool) (aTid : Nat) : Except (UniqueError κ) Nat :=
  match aTrans with
  | none => .ok aTid
  | some tx =>
      if v.waitsOk tx = false then .error .waitFailed
      else
        let row := getScnAndTid v.transCommitSCN (v.header tx).mCreateSCN
        let nxt := getScnAndTid v.transCommitSCN (v.header tx).mLimitSCN
        -- a row that was rolled back
        if row.1.isDeleted then .ok aTid
        -- a row that is not committed: of another transaction, or of this one
        else if row.1.isInfinite then
          if row.2 ≠ tx.mTransID then waitFor row.2
          else if nxt.1.isFreeRow then .error (.uniqueViolation aRow)
          else .ok aTid
        -- a committed row that nobody has updated or deleted
        else if nxt.1.isFreeRow then .error (.uniqueViolation aRow)
        else if nxt.1.isLockRow then
          if nxt.2 = tx.mTransID then .error (.uniqueViolation aRow) else waitFor nxt.2
        else if nxt.1.isInfinite then
          if nxt.2 ≠ tx.mTransID then waitFor nxt.2 else .ok aTid
        -- its successor was committed after the view of the statement
        else if !aStmtViewSCN.isInit && decide (aStmtViewSCN < nxt.1) then
          .error (if aForbiddenToRetry then .statementTooOld else .alreadyModified)
        else .ok aTid

/-- **A live committed version**: created by a transaction that has committed, and
neither deleted, updated nor locked by another transaction. -/
def RowView.liveCommitted (tx : Trans) (v : RowView) : Bool :=
  let row := getScnAndTid v.transCommitSCN (v.header tx).mCreateSCN
  let nxt := getScnAndTid v.transCommitSCN (v.header tx).mLimitSCN
  !row.1.isDeleted && !row.1.isInfinite &&
    (nxt.1.isFreeRow || (nxt.1.isLockRow && nxt.2 == tx.mTransID))

theorem waitFor_ne {tid t : Nat} (h : waitFor (κ := κ) tid = .ok t) : t ≠ smNullTid := by
  unfold waitFor at h
  split at h
  · cases h
  · rename_i hne
    injection h with h
    subst h
    exact fun heq => hne (Or.inr heq)

/-- `*aTid` is left alone or set to a transaction, or there is an error; which of
them, does not depend on the old value. -/
def TidSteady (f : Nat → Except (UniqueError κ) Nat) : Prop :=
  (∀ t, f t = .ok t) ∨ (∃ t', t' ≠ smNullTid ∧ ∀ t, f t = .ok t') ∨ (∃ e, ∀ t, f t = .error e)

theorem TidSteady.keep : TidSteady (κ := κ) fun t => .ok t := Or.inl fun _ => rfl

theorem TidSteady.fail (e : UniqueError κ) : TidSteady fun _ => .error e :=
  Or.inr (Or.inr ⟨e, fun _ => rfl⟩)

theorem TidSteady.wait (tid : Nat) : TidSteady (κ := κ) fun _ => waitFor tid := by
  cases hw : waitFor (κ := κ) tid with
  | ok t' => exact Or.inr (Or.inl ⟨t', waitFor_ne hw, fun _ => rfl⟩)
  | error e => exact Or.inr (Or.inr ⟨e, fun _ => rfl⟩)

theorem TidSteady.ite {c : Prop} [Decidable c] {f g : Nat → Except (UniqueError κ) Nat}
    (hf : TidSteady f) (hg : TidSteady g) : TidSteady fun t => if c then f t else g t := by
  by_cases hc : c
  · simpa only [if_pos hc] using hf
  · simpa only [if_neg hc] using hg

theorem isRowUnique_tid (aTrans : Option Trans) (v : RowView) (r : Row κ) (scn : Scn) (b : Bool) :
    TidSteady (isRowUnique aTrans v r scn b) := by
  cases aTrans with
  | none => exact .keep
  | some tx =>
    refine .ite (.fail _) (.ite .keep (.ite ?_ (.ite (.fail _) (.ite ?_ ?_))))
    · -- the creator has not committed
      exact .ite (.wait _) (.ite (.fail _) .keep)
    · -- the row is locked
      exact .ite (.fail _) (.wait _)
    · -- the row is deleted, or has been
      exact .ite (.ite (.wait _) .keep) (.ite (.fail _) .keep)

/-- A live committed version is never judged unique. -/
theorem liveCommitted_error {tx : Trans} {v : RowView} (h : v.liveCommitted tx = true) (r : Row κ)
    (scn : Scn) (b : Bool) (t : Nat) : ∃ e, isRowUnique (some tx) v r scn b t = .error e := by
  simp only [RowView.liveCommitted, Bool.and_eq_true, Bool.not_eq_true', Bool.or_eq_true,
    beq_iff_eq] at h
  obtain ⟨⟨hdel, hinf⟩, hlimit⟩ := h
  simp only [isRowUnique, hdel, hinf, Bool.false_eq_true, if_false]
  obtain hfree | ⟨hlock, htid⟩ := hlimit
  · simp only [hfree, if_true]
    split_ifs <;> exact ⟨_, rfl⟩
  · simp only [hlock, htid, if_true]
    split_ifs <;> exact ⟨_, rfl⟩

/-! ## §3. The scan (`checkUniqueness`). -/

/-- The arguments of `checkUniqueness` that do not change during the scan; `view` is
what the evaluation of a row reads. -/
structure Ctx (κ : Type) where
  trans : Trans
  row : Row κ
  stmtViewSCN : Scn
  isTreeLatched : Bool
  forbiddenToRetry : Bool
  view : Row κ → RowView

/-- The output parameters.  `checked` is a ghost: the rows for which `isRowUnique`
was evaluated and returned success. -/
structure Scan (κ : Type) where
  transID : Nat
  isRetraverse : Bool
  diffRow : Option (Row κ)
  diffSlotPos : Nat
  checked : List (Row κ)

/-- The output parameters before the first row. -/
def Scan.start : Scan κ := ⟨smNullTid, false, none, 0, []⟩

/-- The two directions of the scan. -/
inductive Direction where
  | backward
  | forward
  deriving DecidableEq, Repr

namespace Direction

/-- The comparison that ends the scan: `sCompareResult > 0` backwards,
`sCompareResult < 0` forwards. -/
def past : Direction → Int → Bool
  | backward, x => decide (0 < x)
  | forward, x => decide (x < 0)

/-- Comparison results in the order the direction meets them. -/
def along : Direction → Int → Int
  | backward, x => x
  | forward, x => -x

theorem past_iff (d : Direction) (x : Int) : d.past x = true ↔ 0 < d.along x := by
  cases d
  · simp [past, along]
  · simp only [past, along, decide_eq_true_eq]
    omega

theorem along_eq_zero (d : Direction) {x : Int} : d.along x = 0 ↔ x = 0 := by
  cases d
  · exact Iff.rfl
  · simp only [along]
    omega

end Direction

/-- How the loop over the slots of one leaf ends. -/
inductive Stop where
  /-- `i` ran off the leaf. -/
  | exhausted
  /-- `break`. -/
  | broke
  /-- `IDE_CONT( need_to_retraverse )` -/
  | retraverse
  deriving DecidableEq, Repr

section Scan

variable [LinearOrder κ] (c : Ctx κ)

/-- `compareRows( aRow, r )` -/
def Ctx.cmp (r : Row κ) : Int := compareRows (some c.row) (some r)

/-- One evaluation of `isRowUnique`. -/
def check (r : Row κ) (s : Scan κ) : Except (UniqueError κ) (Scan κ) :=
  match isRowUnique (some c.trans) (c.view r) r c.stmtViewSCN c.forbiddenToRetry s.transID with
  | .error e => .error e
  | .ok tid => .ok { s with transID := tid, checked := s.checked ++ [r] }

/-- The replication loop over further slots of a leaf: on while the key is equal.  The
flag tells whether it ran off the leaf. -/
def scanEqual : List (Row κ × Nat) → Scan κ → Except (UniqueError κ) (Scan κ × Bool)
  | [], s => .ok (s, true)
  | x :: rest, s =>
      if c.cmp x.1 = 0 then
        match check c x.1 s with
        | .error e => .error e
        | .ok s1 => scanEqual rest s1
      else .ok (s, false)

/-- The replication loop over the leaves beyond. -/
def scanEqualNodes : List (List (Row κ × Nat)) → Scan κ → Except (UniqueError κ) (Scan κ)
  | [], s => .ok s
  | node :: nodes, s =>
      match scanEqual c node s with
      | .error e => .error e
      | .ok (s1, true) => scanEqualNodes nodes s1
      | .ok (s1, false) => .ok s1

/-- What replication does after the first unfinished transaction: `rest` are the
slots left in the leaf, `others` the leaves beyond. -/
def scanRepl (others : List (List (Row κ × Nat))) (rest : List (Row κ × Nat)) (s : Scan κ) :
    Except (UniqueError κ) (Scan κ × Stop) :=
  match scanEqual c rest s with
  | .error e => .error e
  | .ok (s1, all) =>
      if all = false ∨ others = [] then .ok (s1, .broke)
      else if c.isTreeLatched = false then .ok ({ s1 with isRetraverse := true }, .retraverse)
      else
        match scanEqualNodes c others s1 with
        | .error e => .error e
        | .ok s2 => .ok (s2, .broke)

/-- The loop over the slots of one leaf, in the order of the direction. -/
def scanSlots (d : Direction) (others : List (List (Row κ × Nat))) :
    List (Row κ × Nat) → Scan κ → Except (UniqueError κ) (Scan κ × Stop)
  | [], s => .ok (s, .exhausted)
  | x :: rest, s =>
      if d.past (c.cmp x.1) then .ok (s, .broke)
      else if c.cmp x.1 ≠ 0 then .error .inconsistentIndex
      else
        match check c x.1 s with
        | .error e => .error e
        | .ok s1 =>
            if s1.transID ≠ smNullTid then
              let s2 := { s1 with diffRow := some x.1, diffSlotPos := x.2 }
              if c.trans.isReplTrans = false then .ok (s2, .broke)
              else scanRepl c others rest s2
            else scanSlots d others rest s1

/-- The loop over the leaves of one direction.  The flag tells that the function is
done (`need_to_wait`, `need_to_retraverse`). -/
def scanSide (d : Direction) : List (List (Row κ × Nat)) → List (Row κ × Nat) → Scan κ →
    Except (UniqueError κ) (Scan κ × Bool)
  | others, slots, s =>
      match scanSlots c d others slots s with
      | .error e => .error e
      | .ok (s1, stop) =>
          if stop = .retraverse ∨ s1.transID ≠ smNullTid then .ok (s1, true)
          else if stop = .broke then .ok (s1, false)
          -- only the forward loop makes this check before it moves on
          else if d = .forward ∧ c.isTreeLatched = false then .error .inconsistentIndex
          else
            match others with
            | [] => .ok (s1, false)
            | node :: nodes =>
                if c.isTreeLatched = false then .error .inconsistentIndex
                else scanSide d nodes node s1

/-- The order of the index: by key, then by OID. -/
def Row.Before (r1 r2 : Row κ) : Prop :=
  r1.key < r2.key ∨ r1.key = r2.key ∧ r1.oid < r2.oid

instance (r1 r2 : Row κ) : Decidable (Row.Before r1 r2) :=
  inferInstanceAs (Decidable (r1.key < r2.key ∨ r1.key = r2.key ∧ r1.oid < r2.oid))

/-- **The leaf chain seen from the leaf of the insertion**: the leaves left of it,
nearest one first, its own rows and the leaves right of it; the rows are in order. -/
structure Chain (κ : Type) [LinearOrder κ] where
  prevs : List (List (Row κ))
  rows : List (Row κ)
  nexts : List (List (Row κ))
  sorted : (prevs.reverse.flatten ++ (rows ++ nexts.flatten)).Pairwise Row.Before

namespace Chain

/-- Every row of the index, in order. -/
def allRows (l : Chain κ) : List (Row κ) := l.prevs.reverse.flatten ++ (l.rows ++ l.nexts.flatten)

/-- The rows before an insert position of the leaf. -/
def rowsBefore (l : Chain κ) (slotPos : Nat) : List (Row κ) :=
  l.prevs.reverse.flatten ++ l.rows.take slotPos

/-- The rows from an insert position of the leaf on. -/
def rowsFrom (l : Chain κ) (slotPos : Nat) : List (Row κ) :=
  l.rows.drop slotPos ++ l.nexts.flatten

/-- The slots of the leaf. -/
def slots {δ : Type} (l : Chain κ) (h : KeyInfo κ δ) : List (Slot κ δ) :=
  l.rows.map (fun r => h.slotOf (some r))

end Chain

/-- The slots of a leaf from the first or from the last one on. -/
def slotsUp (rows : List (Row κ)) : List (Row κ × Nat) := rows.zipIdx

/-- The slots of a leaf from the last one on. -/
def slotsDown (rows : List (Row κ)) : List (Row κ × Nat) := rows.zipIdx.reverse

/-- An insert position at an end of the leaf, or an equal key there. -/
def atBoundary (rows : List (Row κ)) (slotPos : Nat) : Bool :=
  (slotPos == rows.length || (rows.getLast?.any (fun r => c.cmp r == 0))) ||
    (slotPos == 0 || (rows.head?.any (fun r => c.cmp r == 0)))

/-- **`smnbBTree::checkUniqueness`.** -/
def checkUniqueness (l : Chain κ) (slotPos : Nat) : Except (UniqueError κ) (Scan κ) :=
  if c.isTreeLatched = false ∧ atBoundary c l.rows slotPos = true then
    .ok { Scan.start with isRetraverse := true }
  else
    match scanSide c .backward (l.prevs.map slotsDown)
        (slotsUp l.rows |>.take slotPos |>.reverse) Scan.start with
    | .error e => .error e
    | .ok (s1, true) => .ok s1
    | .ok (s1, false) =>
        match scanSide c .forward (l.nexts.map slotsUp) (slotsUp l.rows |>.drop slotPos) s1 with
        | .error e => .error e
        | .ok (s2, _) => .ok s2

/-! ## §4. One evaluation. -/

/-- The verdict of `isRowUnique` on a row, from an unset `*aTid`. -/
def Ctx.judge (r : Row κ) : Except (UniqueError κ) Nat :=
  isRowUnique (some c.trans) (c.view r) r c.stmtViewSCN c.forbiddenToRetry smNullTid

/-- `isRowUnique` succeeds and names no transaction to wait for. -/
def Ctx.Passes (r : Row κ) : Prop := c.judge r = .ok smNullTid

/-- `isRowUnique` succeeds. -/
def Ctx.Succeeds (r : Row κ) : Prop := ∃ t, c.judge r = .ok t

/-- The row is a live committed version. -/
def Ctx.LiveCommitted (r : Row κ) : Prop := (c.view r).liveCommitted c.trans = true

variable {c}

omit [LinearOrder κ] in
theorem Ctx.Passes.succeeds {r : Row κ} (h : c.Passes r) : c.Succeeds r := ⟨_, h⟩

omit [LinearOrder κ] in
theorem Ctx.liveCommitted_fails {r : Row κ} (h : c.LiveCommitted r) : ¬ c.Succeeds r := by
  rintro ⟨t, ht⟩
  obtain ⟨e, he⟩ := liveCommitted_error h r c.stmtViewSCN c.forbiddenToRetry smNullTid
  unfold Ctx.judge at ht
  rw [he] at ht
  cases ht

/-- What one evaluation does to the output parameters. -/
structure CheckSpec (c : Ctx κ) (r : Row κ) (s s' : Scan κ) : Prop where
  succeeds : c.Succeeds r
  isRetraverse : s'.isRetraverse = s.isRetraverse
  checked : s'.checked = s.checked ++ [r]
  transID : s'.transID = smNullTid ↔ s.transID = smNullTid ∧ c.Passes r

omit [LinearOrder κ] in
theorem check_spec {r : Row κ} {s s' : Scan κ} (h : check c r s = .ok s') :
    CheckSpec c r s s' := by
  unfold check at h
  obtain hall | ⟨t', hne, hall⟩ | ⟨e, hall⟩ := isRowUnique_tid (some c.trans) (c.view r) r
    c.stmtViewSCN c.forbiddenToRetry
  · rw [hall] at h
    injection h with h
    subst h
    exact ⟨⟨_, hall _⟩, rfl, rfl, fun h => ⟨h, hall _⟩, fun h => h.1⟩
  · rw [hall] at h
    injection h with h
    subst h
    refine ⟨⟨_, hall _⟩, rfl, rfl, fun h => absurd h hne, fun h => ?_⟩
    have hp := h.2
    unfold Ctx.Passes Ctx.judge at hp
    rw [hall] at hp
    injection hp
  · rw [hall] at h
    cases h

omit [LinearOrder κ] in
theorem check_total {r : Row κ} (h : c.Succeeds r) (s : Scan κ) : ∃ s', check c r s = .ok s' := by
  obtain ⟨t, ht⟩ := h
  unfold check
  obtain hall | ⟨t', _, hall⟩ | ⟨e, hall⟩ := isRowUnique_tid (some c.trans) (c.view r) r
    c.stmtViewSCN c.forbiddenToRetry
  · rw [hall]
    exact ⟨_, rfl⟩
  · rw [hall]
    exact ⟨_, rfl⟩
  · unfold Ctx.judge at ht
    rw [hall] at ht
    cases ht

/-! ## §5. One direction. -/

/-- The comparison results do not decrease along the direction. -/
def Along (c : Ctx κ) (d : Direction) (xs : List (Row κ × Nat)) : Prop :=
  xs.Pairwise (fun x y => d.along (c.cmp x.1) ≤ d.along (c.cmp y.1))

/-- Every row with the key has been evaluated with success. -/
def Seen (c : Ctx κ) (xs : List (Row κ × Nat)) : Prop :=
  ∀ x ∈ xs, c.cmp x.1 = 0 → c.Succeeds x.1

/-- Every row with the key has passed. -/
def AllPassed (c : Ctx κ) (xs : List (Row κ × Nat)) (s : Scan κ) : Prop :=
  ∀ x ∈ xs, c.cmp x.1 = 0 → c.Passes x.1 ∧ x.1 ∈ s.checked

/-- **A transaction to wait for was found**: the rows are those a scan may meet, one
of them with the key does not pass, and a replication transaction has seen all. -/
structure Waiting (c : Ctx κ) (d : Direction) (xs : List (Row κ × Nat)) : Prop where
  notWrong : ∀ x ∈ xs, 0 ≤ d.along (c.cmp x.1)
  blocked : ∃ x ∈ xs, c.cmp x.1 = 0 ∧ ¬ c.Passes x.1
  seen : c.trans.isReplTrans = true → Seen c xs

/-- Behind a row that is past the key there is no row with the key. -/
theorem Along.past_rest {d : Direction} {x : Row κ × Nat} {xs : List (Row κ × Nat)}
    (h : Along c d (x :: xs)) (hx : 0 < d.along (c.cmp x.1)) : ∀ y ∈ x :: xs, c.cmp y.1 ≠ 0 := by
  intro y hy h0
  obtain heq | hmem := List.mem_cons.mp hy
  · rw [heq] at h0
    rw [h0, d.along_eq_zero.mpr rfl] at hx
    exact lt_irrefl _ hx
  · have hle := (List.pairwise_cons.mp h).1 y hmem
    rw [h0, d.along_eq_zero.mpr rfl] at hle
    omega

theorem Along.nonneg {d : Direction} {x : Row κ × Nat} {xs : List (Row κ × Nat)}
    (h : Along c d (x :: xs)) (hx : c.cmp x.1 = 0) : ∀ y ∈ x :: xs, 0 ≤ d.along (c.cmp y.1) := by
  intro y hy
  obtain heq | hmem := List.mem_cons.mp hy
  · rw [heq, d.along_eq_zero.mpr hx]
  · have hle := (List.pairwise_cons.mp h).1 y hmem
    rwa [d.along_eq_zero.mpr hx] at hle

/-- The loop over further slots: what it has seen, and that it keeps its transaction. -/
theorem scanEqual_spec {d : Direction} : ∀ {slots more : List (Row κ × Nat)} {s s' : Scan κ}
    {all : Bool}, scanEqual c slots s = .ok (s', all) → Along c d (slots ++ more) →
    (∀ x ∈ slots, 0 ≤ d.along (c.cmp x.1)) →
    s'.isRetraverse = s.isRetraverse ∧ s.checked ⊆ s'.checked ∧
      (s.transID ≠ smNullTid → s'.transID ≠ smNullTid) ∧
      Seen c slots ∧ (all = false → Seen c (slots ++ more)) := by
  intro slots
  induction slots with
  | nil =>
    intro more s s' all h _ _
    simp only [scanEqual, Except.ok.injEq, Prod.mk.injEq] at h
    obtain ⟨rfl, rfl⟩ := h
    exact ⟨rfl, List.Subset.refl _, id, by simp [Seen], by simp⟩
  | cons x rest ih =>
    intro more s s' all h halong hnn
    unfold scanEqual at h
    by_cases hx : c.cmp x.1 = 0
    · rw [if_pos hx] at h
      cases hc : check c x.1 s with
      | error e => rw [hc] at h; cases h
      | ok s1 =>
        rw [hc] at h
        have hspec := check_spec hc
        obtain ⟨h1, h2, h3, h4, h5⟩ := ih h (List.pairwise_cons.mp halong).2
          (fun y hy => hnn y (List.mem_cons_of_mem _ hy))
        have hhead : ∀ zs, Seen c zs → Seen c (x :: zs) := by
          intro zs hz y hy hy0
          obtain heq | hmem := List.mem_cons.mp hy
          · rw [heq]
            exact hspec.succeeds
          · exact hz y hmem hy0
        refine ⟨h1.trans hspec.isRetraverse, ?_, ?_, hhead _ h4, fun ha => hhead _ (h5 ha)⟩
        · intro r hr
          apply h2
          rw [hspec.checked]
          exact List.mem_append_left _ hr
        · intro hs
          apply h3
          intro hnull
          exact hs (hspec.transID.mp hnull).1
    · -- the first different key ends the loop; none equal can follow
      rw [if_neg hx] at h
      simp only [Except.ok.injEq, Prod.mk.injEq] at h
      obtain ⟨rfl, rfl⟩ := h
      have hpos : 0 < d.along (c.cmp x.1) := by
        have h0 := hnn x List.mem_cons_self
        have hne : d.along (c.cmp x.1) ≠ 0 := fun h => hx (d.along_eq_zero.mp h)
        omega
      have hnone := halong.past_rest hpos
      refine ⟨rfl, List.Subset.refl _, id, ?_, fun _ => ?_⟩
      · intro y hy hy0
        exact absurd hy0 (hnone y (List.mem_append_left more hy))
      · intro y hy hy0
        exact absurd hy0 (hnone y hy)

theorem scanEqualNodes_spec {d : Direction} : ∀ {nodes : List (List (Row κ × Nat))} {s s' : Scan κ},
    scanEqualNodes c nodes s = .ok s' → Along c d nodes.flatten →
    (∀ x ∈ nodes.flatten, 0 ≤ d.along (c.cmp x.1)) →
    s'.isRetraverse = s.isRetraverse ∧ s.checked ⊆ s'.checked ∧
      (s.transID ≠ smNullTid → s'.transID ≠ smNullTid) ∧ Seen c nodes.flatten := by
  intro nodes
  induction nodes with
  | nil =>
    intro s s' h _ _
    simp only [scanEqualNodes, Except.ok.injEq] at h
    subst h
    exact ⟨rfl, List.Subset.refl _, id, by simp [Seen]⟩
  | cons node nodes ih =>
    intro s s' h halong hnn
    rw [List.flatten_cons] at halong hnn ⊢
    have hnn1 : ∀ x ∈ node, 0 ≤ d.along (c.cmp x.1) :=
      fun x hx => hnn x (List.mem_append_left _ hx)
    unfold scanEqualNodes at h
    cases he : scanEqual c node s with
    | error e => rw [he] at h; cases h
    | ok p =>
      obtain ⟨s1, all⟩ := p
      rw [he] at h
      obtain ⟨h1, h2, h3, h4, h5⟩ := scanEqual_spec he halong hnn1
      cases all with
      -- the scan ended in this node: what follows has greater keys
      | false =>
        simp only [Except.ok.injEq] at h
        subst h
        exact ⟨h1, h2, h3, h5 rfl⟩
      -- the run of equal keys goes on in the next one
      | true =>
        simp only at h
        obtain ⟨k1, k2, k3, k4⟩ := ih h (List.pairwise_append.mp halong).2.1
          (fun x hx => hnn x (List.mem_append_right _ hx))
        refine ⟨k1.trans h1, List.Subset.trans h2 k2, fun hs => k3 (h3 hs), ?_⟩
        intro x hx hx0
        obtain hmem | hmem := List.mem_append.mp hx
        · exact h4 x hmem hx0
        · exact k4 x hmem hx0

/-- What the rest of a replication scan has seen when it does not ask to retraverse. -/
theorem scanRepl_spec {d : Direction} {others : List (List (Row κ × Nat))}
    {rest : List (Row κ × Nat)} {s s' : Scan κ} {stop : Stop}
    (h : scanRepl c others rest s = .ok (s', stop)) (halong : Along c d (rest ++ others.flatten))
    (hnn : ∀ x ∈ rest ++ others.flatten, 0 ≤ d.along (c.cmp x.1)) (hs : s.transID ≠ smNullTid) :
    s.checked ⊆ s'.checked ∧ s'.transID ≠ smNullTid ∧
      ((stop = .retraverse ∧ s'.isRetraverse = true) ∨
        (stop = .broke ∧ s'.isRetraverse = s.isRetraverse ∧ Seen c (rest ++ others.flatten))) := by
  unfold scanRepl at h
  cases he : scanEqual c rest s with
  | error e => rw [he] at h; cases h
  | ok p =>
    obtain ⟨s1, all⟩ := p
    rw [he] at h
    obtain ⟨h1, h2, h3, h4, h5⟩ := scanEqual_spec he halong
      (fun x hx => hnn x (List.mem_append_left _ hx))
    -- the scan ends in this leaf
    by_cases hend : all = false ∨ others = []
    · simp only [if_pos hend, Except.ok.injEq, Prod.mk.injEq] at h
      obtain ⟨rfl, rfl⟩ := h
      refine ⟨h2, h3 hs, Or.inr ⟨rfl, h1, ?_⟩⟩
      obtain hall | hnil := hend
      · exact h5 hall
      · rw [hnil, List.flatten_nil, List.append_nil]
        exact h4
    simp only [if_neg hend] at h
    -- it would go on to the next leaf, which needs the latch of the tree
    by_cases hl : c.isTreeLatched = false
    · simp only [if_pos hl, Except.ok.injEq, Prod.mk.injEq] at h
      obtain ⟨rfl, rfl⟩ := h
      exact ⟨h2, h3 hs, Or.inl ⟨rfl, rfl⟩⟩
    · simp only [if_neg hl] at h
      cases hn : scanEqualNodes c others s1 with
      | error e => rw [hn] at h; cases h
      | ok s2 =>
        simp only [hn, Except.ok.injEq, Prod.mk.injEq] at h
        obtain ⟨rfl, rfl⟩ := h
        obtain ⟨k1, k2, k3, k4⟩ := scanEqualNodes_spec hn (List.pairwise_append.mp halong).2.1
          (fun x hx => hnn x (List.mem_append_right _ hx))
        refine ⟨List.Subset.trans h2 k2, k3 (h3 hs), Or.inr ⟨rfl, k1.trans h1, ?_⟩⟩
        intro x hx hx0
        obtain hmem | hmem := List.mem_append.mp hx
        · exact h4 x hmem hx0
        · exact k4 x hmem hx0

/-- How the loop over one leaf leaves the output parameters: `xs` are the slots of the
leaf, `ys` those of the leaves beyond. -/
def SlotsEnd (c : Ctx κ) (d : Direction) (xs ys : List (Row κ × Nat)) (s' : Scan κ) : Stop → Prop
  | .exhausted => s'.transID = smNullTid ∧ s'.isRetraverse = false ∧ AllPassed c xs s' ∧
      ∀ x ∈ xs, c.cmp x.1 = 0
  | .broke => s'.isRetraverse = false ∧
      (s'.transID = smNullTid ∧ AllPassed c (xs ++ ys) s' ∨
        s'.transID ≠ smNullTid ∧ Waiting c d (xs ++ ys))
  | .retraverse => s'.isRetraverse = true

/-- A slot that passes, put in front of what the loop does with the rest. -/
theorem SlotsEnd.cons {d : Direction} {x : Row κ × Nat} {xs ys : List (Row κ × Nat)}
    {s' : Scan κ} {stop : Stop} (h : SlotsEnd c d xs ys s' stop) (hx : c.cmp x.1 = 0)
    (hp : c.Passes x.1) (hin : x.1 ∈ s'.checked) : SlotsEnd c d (x :: xs) ys s' stop := by
  have hpassed : ∀ zs, AllPassed c zs s' → AllPassed c (x :: zs) s' := by
    intro zs hz y hy hy0
    obtain heq | hmem := List.mem_cons.mp hy
    · rw [heq]
      exact ⟨hp, hin⟩
    · exact hz y hmem hy0
  cases stop with
  | exhausted =>
    obtain ⟨h1, h2, h3, h4⟩ := h
    refine ⟨h1, h2, hpassed _ h3, ?_⟩
    intro y hy
    obtain heq | hmem := List.mem_cons.mp hy
    · rw [heq]
      exact hx
    · exact h4 y hmem
  | broke =>
    obtain ⟨h1, ⟨h2, h3⟩ | ⟨h2, h3⟩⟩ := h
    · exact ⟨h1, Or.inl ⟨h2, hpassed _ h3⟩⟩
    · refine ⟨h1, Or.inr ⟨h2, ?_, ?_, ?_⟩⟩
      · intro y hy
        obtain heq | hmem := List.mem_cons.mp hy
        · rw [heq, d.along_eq_zero.mpr hx]
        · exact h3.notWrong y hmem
      · obtain ⟨y, hy, hb⟩ := h3.blocked
        exact ⟨y, List.mem_cons_of_mem _ hy, hb⟩
      · intro hr y hy hy0
        obtain heq | hmem := List.mem_cons.mp hy
        · rw [heq]
          exact hp.succeeds
        · exact h3.seen hr y hmem hy0
  | retraverse => exact h

/-- **The loop over one leaf.** -/
theorem scanSlots_spec {d : Direction} {others : List (List (Row κ × Nat))} :
    ∀ {slots : List (Row κ × Nat)} {s s' : Scan κ} {stop : Stop},
    scanSlots c d others slots s = .ok (s', stop) → Along c d (slots ++ others.flatten) →
    s.transID = smNullTid → s.isRetraverse = false →
    s.checked ⊆ s'.checked ∧ SlotsEnd c d slots others.flatten s' stop := by
  intro slots
  induction slots with
  | nil =>
    intro s s' stop h _ hs hr
    simp only [scanSlots, Except.ok.injEq, Prod.mk.injEq] at h
    obtain ⟨rfl, rfl⟩ := h
    exact ⟨List.Subset.refl _, hs, hr, by simp [AllPassed], by simp⟩
  | cons x rest ih =>
    intro s s' stop h halong hs hr
    unfold scanSlots at h
    by_cases hpast : d.past (c.cmp x.1) = true
    · simp only [if_pos hpast, Except.ok.injEq, Prod.mk.injEq] at h
      obtain ⟨rfl, rfl⟩ := h
      refine ⟨List.Subset.refl _, hr, Or.inl ⟨hs, ?_⟩⟩
      intro y hy hy0
      exact absurd hy0 (halong.past_rest ((d.past_iff _).mp hpast) y hy)
    rw [if_neg hpast] at h
    by_cases hx : c.cmp x.1 = 0
    · rw [if_neg (not_not_intro hx)] at h
      have hnn := halong.nonneg hx
      cases hc : check c x.1 s with
      | error e => rw [hc] at h; cases h
      | ok s1 =>
        simp only [hc] at h
        have hspec := check_spec hc
        have hsub : s.checked ⊆ s1.checked := by
          rw [hspec.checked]
          exact List.subset_append_left _ _
        by_cases hwait : s1.transID = smNullTid
        · -- the row passes: on to the next slot
          simp only [hwait, ne_eq, not_true_eq_false, if_false] at h
          obtain ⟨h1, h2⟩ := ih h (List.pairwise_cons.mp halong).2 hwait
            (hspec.isRetraverse.trans hr)
          refine ⟨List.Subset.trans hsub h1, h2.cons hx (hspec.transID.mp hwait).2 ?_⟩
          apply h1
          rw [hspec.checked]
          exact List.mem_append_right _ List.mem_cons_self
        · have hblocked : ∃ y ∈ (x :: rest) ++ others.flatten,
              c.cmp y.1 = 0 ∧ ¬ c.Passes y.1 :=
            ⟨x, List.mem_cons_self, hx, fun hp => hwait (hspec.transID.mpr ⟨hs, hp⟩)⟩
          simp only [ne_eq, hwait, not_false_eq_true, if_true] at h
          by_cases hrepl : c.trans.isReplTrans = false
          · simp only [if_pos hrepl, Except.ok.injEq, Prod.mk.injEq] at h
            obtain ⟨rfl, rfl⟩ := h
            refine ⟨hsub, hspec.isRetraverse.trans hr, Or.inr ⟨hwait, hnn, hblocked, ?_⟩⟩
            intro ht
            rw [hrepl] at ht
            cases ht
          · rw [if_neg hrepl] at h
            obtain ⟨k1, k2, k3⟩ := scanRepl_spec h (List.pairwise_cons.mp halong).2
              (fun y hy => hnn y (List.mem_cons_of_mem _ hy)) hwait
            refine ⟨List.Subset.trans hsub k1, ?_⟩
            obtain ⟨rfl, hret⟩ | ⟨rfl, hret, hseen⟩ := k3
            · exact hret
            · refine ⟨hret.trans (hspec.isRetraverse.trans hr),
                Or.inr ⟨k2, hnn, hblocked, ?_⟩⟩
              intro _ y hy hy0
              obtain heq | hmem := List.mem_cons.mp hy
              · rw [heq]
                exact hspec.succeeds
              · exact hseen y hmem hy0
    · rw [if_pos hx] at h
      cases h

/-- How one direction ends: `done` is the flag of `scanSide`. -/
structure SideEnd (c : Ctx κ) (d : Direction) (xs : List (Row κ × Nat)) (s s' : Scan κ)
    (done : Bool) : Prop where
  kept : s.checked ⊆ s'.checked
  passed : done = false →
    s'.transID = smNullTid ∧ s'.isRetraverse = false ∧ AllPassed c xs s'
  stopped : done = true →
    s'.isRetraverse = true ∨ s'.transID ≠ smNullTid ∧ Waiting c d xs

/-- A leaf that passes as a whole, put in front of the rest of a direction. -/
theorem SideEnd.prepend {d : Direction} {xs ys : List (Row κ × Nat)} {s s1 s' : Scan κ}
    {done : Bool} (h : SideEnd c d ys s1 s' done) (hsub : s.checked ⊆ s1.checked)
    (hpassed : AllPassed c xs s1) (hall : ∀ x ∈ xs, c.cmp x.1 = 0) :
    SideEnd c d (xs ++ ys) s s' done := by
  refine ⟨List.Subset.trans hsub h.kept, ?_, ?_⟩
  · intro hd
    obtain ⟨h1, h2, h3⟩ := h.passed hd
    refine ⟨h1, h2, ?_⟩
    intro x hx hx0
    obtain hmem | hmem := List.mem_append.mp hx
    · exact ⟨(hpassed x hmem hx0).1, h.kept (hpassed x hmem hx0).2⟩
    · exact h3 x hmem hx0
  · intro hd
    obtain h1 | ⟨h1, hw⟩ := h.stopped hd
    · exact Or.inl h1
    · refine Or.inr ⟨h1, ?_, ?_, ?_⟩
      · intro x hx
        obtain hmem | hmem := List.mem_append.mp hx
        · rw [d.along_eq_zero.mpr (hall x hmem)]
        · exact hw.notWrong x hmem
      · obtain ⟨y, hy, hb⟩ := hw.blocked
        exact ⟨y, List.mem_append_right _ hy, hb⟩
      · intro hr x hx hx0
        obtain hmem | hmem := List.mem_append.mp hx
        · exact (hpassed x hmem hx0).1.succeeds
        · exact hw.seen hr x hmem hx0

/-- A direction whose loop over a leaf ended early. -/
theorem sideEnd_of_stop {d : Direction} {xs ys : List (Row κ × Nat)} {s s1 s' : Scan κ}
    {done : Bool} {stop : Stop} {X : Except (UniqueError κ) (Scan κ × Bool)}
    (h : (if stop = .retraverse ∨ s1.transID ≠ smNullTid then .ok (s1, true)
      else if stop = .broke then .ok (s1, false) else X) = .ok (s', done))
    (hsub : s.checked ⊆ s1.checked) (hend : SlotsEnd c d xs ys s1 stop)
    (hstop : stop ≠ .exhausted) : SideEnd c d (xs ++ ys) s s' done := by
  cases stop with
  | exhausted => exact absurd rfl hstop
  | broke =>
    obtain ⟨hret, ⟨hnull, hpassed⟩ | ⟨hwait, hw⟩⟩ := hend
    · simp only [hnull, reduceCtorEq, ne_eq, not_true_eq_false, or_self, if_false, if_true,
        Except.ok.injEq, Prod.mk.injEq] at h
      obtain ⟨rfl, rfl⟩ := h
      exact ⟨hsub, fun _ => ⟨hnull, hret, hpassed⟩, fun hd => (nomatch hd)⟩
    · simp only [hwait, reduceCtorEq, ne_eq, not_false_eq_true, false_or, if_true,
        Except.ok.injEq, Prod.mk.injEq] at h
      obtain ⟨rfl, rfl⟩ := h
      exact ⟨hsub, fun hd => (nomatch hd), fun _ => Or.inr ⟨hwait, hw⟩⟩
  | retraverse =>
    simp only [true_or, if_true, Except.ok.injEq, Prod.mk.injEq] at h
    obtain ⟨rfl, rfl⟩ := h
    exact ⟨hsub, fun hd => (nomatch hd), fun _ => Or.inl hend⟩

/-- **One direction of the scan.** -/
theorem scanSide_spec {d : Direction} : ∀ {others : List (List (Row κ × Nat))}
    {slots : List (Row κ × Nat)} {s s' : Scan κ} {done : Bool},
    scanSide c d others slots s = .ok (s', done) → Along c d (slots ++ others.flatten) →
    s.transID = smNullTid → s.isRetraverse = false →
    SideEnd c d (slots ++ others.flatten) s s' done := by
  intro others
  induction others with
  | nil =>
    intro slots s s' done h halong hs hr
    unfold scanSide at h
    cases hl : scanSlots c d [] slots s with
    | error e => rw [hl] at h; cases h
    | ok p =>
      obtain ⟨s1, stop⟩ := p
      simp only [hl] at h
      obtain ⟨hsub, hend⟩ := scanSlots_spec hl halong hs hr
      by_cases hstop : stop = .exhausted
      · -- no leaf is left in this direction
        subst hstop
        obtain ⟨hnull, hret, hpassed, _⟩ := hend
        simp only [hnull, reduceCtorEq, ne_eq, not_true_eq_false, or_self, if_false] at h
        split at h
        · cases h
        · simp only [Except.ok.injEq, Prod.mk.injEq] at h
          obtain ⟨rfl, rfl⟩ := h
          refine ⟨hsub, fun _ => ⟨hnull, hret, ?_⟩, fun hd => (nomatch hd)⟩
          rw [List.flatten_nil, List.append_nil]
          exact hpassed
      · exact sideEnd_of_stop h hsub hend hstop
  | cons node nodes ih =>
    intro slots s s' done h halong hs hr
    unfold scanSide at h
    cases hl : scanSlots c d (node :: nodes) slots s with
    | error e => rw [hl] at h; cases h
    | ok p =>
      obtain ⟨s1, stop⟩ := p
      simp only [hl] at h
      obtain ⟨hsub, hend⟩ := scanSlots_spec hl halong hs hr
      by_cases hstop : stop = .exhausted
      · subst hstop
        obtain ⟨hnull, hret, hpassed, hall⟩ := hend
        simp only [hnull, reduceCtorEq, ne_eq, not_true_eq_false, or_self, if_false] at h
        split at h
        · cases h
        · split at h
          · cases h
          · -- the whole leaf passed: on to the next one
            rw [List.flatten_cons]
            rw [List.flatten_cons] at halong
            exact (ih h (List.pairwise_append.mp halong).2.1 hnull hret).prepend hsub hpassed hall
      · exact sideEnd_of_stop h hsub hend hstop

/-! ## §6. A direction that finds a transaction to wait for. -/

/-- The evaluation loop over rows that all succeed does not fail; a different key in the
leaf ends it there. -/
theorem scanEqual_total : ∀ (slots : List (Row κ × Nat)) (s : Scan κ), Seen c slots →
    ∃ s' all, scanEqual c slots s = .ok (s', all) ∧
      ((∃ x ∈ slots, c.cmp x.1 ≠ 0) → all = false) := by
  intro slots
  induction slots with
  | nil => exact fun s _ => ⟨s, true, rfl, by simp⟩
  | cons x rest ih =>
    intro s hseen
    by_cases hx : c.cmp x.1 = 0
    · obtain ⟨s1, hc⟩ := check_total (hseen x List.mem_cons_self hx) s
      obtain ⟨s', all, he, hend⟩ := ih s1 (fun y hy => hseen y (List.mem_cons_of_mem _ hy))
      refine ⟨s', all, ?_, ?_⟩
      · simp only [scanEqual, if_pos hx, hc, he]
      · rintro ⟨y, hy, hne⟩
        obtain heq | hmem := List.mem_cons.mp hy
        · rw [heq] at hne
          exact absurd hx hne
        · exact hend ⟨y, hmem, hne⟩
    · exact ⟨s, false, by simp only [scanEqual, if_neg hx], fun _ => rfl⟩

theorem scanEqualNodes_total : ∀ (nodes : List (List (Row κ × Nat))) (s : Scan κ),
    Seen c nodes.flatten → ∃ s', scanEqualNodes c nodes s = .ok s' := by
  intro nodes
  induction nodes with
  | nil => exact fun s _ => ⟨s, rfl⟩
  | cons node nodes ih =>
    intro s hseen
    rw [List.flatten_cons] at hseen
    obtain ⟨s1, all, he, _⟩ := scanEqual_total node s
      (fun x hx => hseen x (List.mem_append_left _ hx))
    cases all with
    | false => exact ⟨s1, by simp only [scanEqualNodes, he]⟩
    | true =>
      obtain ⟨s', hn⟩ := ih s1 (fun x hx => hseen x (List.mem_append_right _ hx))
      exact ⟨s', by simp only [scanEqualNodes, he, hn]⟩

/-- Rows a scan may meet, all of them evaluated with success: the loop over a leaf does
not fail, and asks to retraverse only without the tree latch. -/
theorem scanSlots_total {d : Direction} (others : List (List (Row κ × Nat))) :
    ∀ (slots : List (Row κ × Nat)) (s : Scan κ),
    (∀ x ∈ slots, 0 ≤ d.along (c.cmp x.1)) → Seen c (slots ++ others.flatten) →
    (c.isTreeLatched = true ∨ ∃ x ∈ slots, c.cmp x.1 ≠ 0) →
    ∃ s' stop, scanSlots c d others slots s = .ok (s', stop) ∧ stop ≠ .retraverse := by
  intro slots
  induction slots with
  | nil => exact fun s _ _ _ => ⟨s, .exhausted, rfl, by simp⟩
  | cons x rest ih =>
    intro s hnn hseen hlatch
    by_cases hpast : d.past (c.cmp x.1) = true
    · exact ⟨s, .broke, by simp only [scanSlots, if_pos hpast], by simp⟩
    have hx : c.cmp x.1 = 0 := by
      have h0 := hnn x List.mem_cons_self
      rw [d.past_iff] at hpast
      exact d.along_eq_zero.mp (by omega)
    obtain ⟨s1, hc⟩ := check_total (hseen x List.mem_cons_self hx) s
    -- the row that ends the scan is still ahead
    have hlatch' : c.isTreeLatched = true ∨ ∃ y ∈ rest, c.cmp y.1 ≠ 0 := by
      obtain h | ⟨y, hy, hne⟩ := hlatch
      · exact Or.inl h
      · obtain heq | hmem := List.mem_cons.mp hy
        · rw [heq] at hne
          exact absurd hx hne
        · exact Or.inr ⟨y, hmem, hne⟩
    have hseen' : Seen c (rest ++ others.flatten) :=
      fun y hy => hseen y (List.mem_cons_of_mem _ hy)
    unfold scanSlots
    rw [if_neg hpast, if_neg (not_not_intro hx), hc]
    simp only
    -- a wait was found: a replication transaction looks at the equal rows that are left
    by_cases hwait : s1.transID ≠ smNullTid
    · rw [if_pos hwait]
      by_cases hrepl : c.trans.isReplTrans = false
      · rw [if_pos hrepl]
        exact ⟨_, .broke, rfl, by simp⟩
      · rw [if_neg hrepl]
        obtain ⟨s2, all, he, hall⟩ := scanEqual_total rest
          { s1 with diffRow := some x.1, diffSlotPos := x.2 }
          (fun y hy => hseen' y (List.mem_append_left _ hy))
        unfold scanRepl
        rw [he]
        simp only
        by_cases hend : all = false ∨ others = []
        · rw [if_pos hend]
          exact ⟨_, .broke, rfl, by simp⟩
        · have hl : c.isTreeLatched = true := by
            obtain h | h := hlatch'
            · exact h
            · exact absurd (Or.inl (hall h)) hend
          obtain ⟨s3, hn⟩ := scanEqualNodes_total others s2
            (fun y hy => hseen' y (List.mem_append_right _ hy))
          rw [if_neg hend, if_neg (by rw [hl]; decide), hn]
          exact ⟨_, .broke, rfl, by simp⟩
    · rw [if_neg hwait]
      exact ih s1 (fun y hy => hnn y (List.mem_cons_of_mem _ hy)) hseen' hlatch'

/-- **A direction with a blocking row, all of whose rows succeed, ends with a
transaction to wait for.** -/
theorem scanSide_waits {d : Direction} : ∀ (others : List (List (Row κ × Nat)))
    (slots : List (Row κ × Nat)) (s : Scan κ),
    Along c d (slots ++ others.flatten) → s.transID = smNullTid → s.isRetraverse = false →
    (∀ x ∈ slots ++ others.flatten, 0 ≤ d.along (c.cmp x.1)) →
    Seen c (slots ++ others.flatten) →
    (∃ x ∈ slots ++ others.flatten, c.cmp x.1 = 0 ∧ ¬ c.Passes x.1) →
    (c.isTreeLatched = true ∨ ∃ x ∈ slots, c.cmp x.1 ≠ 0) →
    ∃ s', scanSide c d others slots s = .ok (s', true) ∧ s'.isRetraverse = false := by
  intro others
  induction others with
  | nil =>
    intro slots s halong hs hr hnn hseen hblocked hlatch
    obtain ⟨s1, stop, hl, hstop⟩ := scanSlots_total [] slots s
      (fun x hx => hnn x (List.mem_append_left _ hx)) hseen hlatch
    obtain ⟨_, hend⟩ := scanSlots_spec hl halong hs hr
    obtain ⟨y, hy, hy0, hnp⟩ := hblocked
    unfold scanSide
    rw [hl]
    cases stop with
    | exhausted =>
      -- every row of the leaf passed, and there is no other leaf
      rw [List.flatten_nil, List.append_nil] at hy
      exact absurd (hend.2.2.1 y hy hy0).1 hnp
    | broke =>
      obtain ⟨hret, ⟨_, hpassed⟩ | ⟨hwait, _⟩⟩ := hend
      · exact absurd (hpassed y hy hy0).1 hnp
      · simp only [ne_eq, hwait, not_false_eq_true, or_true, if_true]
        exact ⟨s1, rfl, hret⟩
    | retraverse => exact absurd rfl hstop
  | cons node nodes ih =>
    intro slots s halong hs hr hnn hseen hblocked hlatch
    obtain ⟨s1, stop, hl, hstop⟩ := scanSlots_total (node :: nodes) slots s
      (fun x hx => hnn x (List.mem_append_left _ hx)) hseen hlatch
    obtain ⟨_, hend⟩ := scanSlots_spec hl halong hs hr
    obtain ⟨y, hy, hy0, hnp⟩ := hblocked
    unfold scanSide
    rw [hl]
    cases stop with
    | exhausted =>
      obtain ⟨hnull, hret, hpassed, hall⟩ := hend
      have hlatched : c.isTreeLatched = true := by
        obtain h | ⟨x, hx, hne⟩ := hlatch
        · exact h
        · exact absurd (hall x hx) hne
      simp only [hnull, hlatched, reduceCtorEq, ne_eq, not_true_eq_false, or_self, if_false,
        and_false]
      rw [List.flatten_cons] at halong hnn hseen hy
      refine ih node s1 (List.pairwise_append.mp halong).2.1 hnull hret
        (fun x hx => hnn x (List.mem_append_right _ hx))
        (fun x hx => hseen x (List.mem_append_right _ hx)) ⟨y, ?_, hy0, hnp⟩ (Or.inl hlatched)
      obtain hmem | hmem := List.mem_append.mp hy
      · exact absurd (hpassed y hmem hy0).1 hnp
      · exact hmem
    | broke =>
      obtain ⟨hret, ⟨_, hpassed⟩ | ⟨hwait, _⟩⟩ := hend
      · exact absurd (hpassed y hy hy0).1 hnp
      · simp only [ne_eq, hwait, not_false_eq_true, or_true, if_true]
        exact ⟨s1, rfl, hret⟩
    | retraverse => exact absurd rfl hstop

/-! ## §7. The whole check. -/

theorem Ctx.cmp_eq_zero {r : Row κ} : c.cmp r = 0 ↔ r.key = c.row.key :=
  (compareKey_eq_zero_iff c.row.key r.key).trans eq_comm

theorem Ctx.cmp_nonneg {r : Row κ} : 0 ≤ c.cmp r ↔ r.key ≤ c.row.key := by
  rw [← not_lt, ← not_lt]
  exact not_congr (compareKey_neg_iff c.row.key r.key)

/-- Comparison results go down while the rows go up. -/
theorem Ctx.cmp_anti {r1 r2 : Row κ} (h : Row.Before r1 r2) : c.cmp r2 ≤ c.cmp r1 := by
  have hle : r1.key ≤ r2.key := by
    obtain hlt | ⟨heq, _⟩ := h
    · exact le_of_lt hlt
    · exact le_of_eq heq
  show compareKey c.row.key r2.key ≤ compareKey c.row.key r1.key
  unfold compareKey
  by_cases h2 : c.row.key < r2.key
  · rw [if_pos h2]
    split_ifs <;> decide
  · have h1 : ¬ c.row.key < r1.key := fun hlt => h2 (lt_of_lt_of_le hlt hle)
    rw [if_neg h2, if_neg h1]
    by_cases h3 : r2.key < c.row.key
    · rw [if_pos h3, if_pos (lt_of_le_of_lt hle h3)]
    · rw [if_neg h3]
      split_ifs <;> decide

/-- The slots of the two directions, in the order they are met. -/
def slotsBefore (l : Chain κ) (slotPos : Nat) : List (Row κ × Nat) :=
  ((slotsUp l.rows).take slotPos).reverse ++ (l.prevs.map slotsDown).flatten

/-- The slots of the forward scan. -/
def slotsFrom (l : Chain κ) (slotPos : Nat) : List (Row κ × Nat) :=
  (slotsUp l.rows).drop slotPos ++ (l.nexts.map slotsUp).flatten

omit [LinearOrder κ] in
@[simp] theorem slotsUp_map_fst (rows : List (Row κ)) : (slotsUp rows).map Prod.fst = rows := by
  unfold slotsUp
  exact List.zipIdx_map_fst 0 rows

omit [LinearOrder κ] in
@[simp] theorem slotsDown_map_fst (rows : List (Row κ)) :
    (slotsDown rows).map Prod.fst = rows.reverse := by
  unfold slotsDown
  rw [List.map_reverse]
  exact congrArg List.reverse (slotsUp_map_fst rows)

theorem slotsBefore_map_fst (l : Chain κ) (slotPos : Nat) :
    (slotsBefore l slotPos).map Prod.fst = (l.rowsBefore slotPos).reverse := by
  have hprevs : ∀ nodes : List (List (Row κ)),
      ((nodes.map slotsDown).flatten).map Prod.fst = nodes.reverse.flatten.reverse := by
    intro nodes
    induction nodes with
    | nil => rfl
    | cons node nodes ih => simp [ih]
  unfold slotsBefore Chain.rowsBefore
  rw [List.map_append, hprevs, List.map_reverse, List.map_take, slotsUp_map_fst,
    List.reverse_append]

theorem slotsFrom_map_fst (l : Chain κ) (slotPos : Nat) :
    (slotsFrom l slotPos).map Prod.fst = l.rowsFrom slotPos := by
  have hnexts : ∀ nodes : List (List (Row κ)),
      ((nodes.map slotsUp).flatten).map Prod.fst = nodes.flatten := by
    intro nodes
    induction nodes with
    | nil => rfl
    | cons node nodes ih => simp [ih]
  unfold slotsFrom Chain.rowsFrom
  rw [List.map_append, hnexts, List.map_drop, slotsUp_map_fst]

theorem allRows_eq (l : Chain κ) (slotPos : Nat) :
    l.allRows = l.rowsBefore slotPos ++ l.rowsFrom slotPos := by
  unfold Chain.allRows Chain.rowsBefore Chain.rowsFrom
  rw [List.append_assoc, ← List.append_assoc (l.rows.take slotPos), List.take_append_drop]

theorem exists_slot_before {l : Chain κ} {slotPos : Nat} {r : Row κ}
    (h : r ∈ l.rowsBefore slotPos) : ∃ x ∈ slotsBefore l slotPos, x.1 = r := by
  rw [← List.mem_reverse, ← slotsBefore_map_fst] at h
  obtain ⟨x, hx, heq⟩ := List.mem_map.mp h
  exact ⟨x, hx, heq⟩

theorem mem_rowsBefore {l : Chain κ} {slotPos : Nat} {x : Row κ × Nat}
    (h : x ∈ slotsBefore l slotPos) : x.1 ∈ l.rowsBefore slotPos := by
  rw [← List.mem_reverse, ← slotsBefore_map_fst]
  exact List.mem_map.mpr ⟨x, h, rfl⟩

theorem exists_slot_from {l : Chain κ} {slotPos : Nat} {r : Row κ}
    (h : r ∈ l.rowsFrom slotPos) : ∃ x ∈ slotsFrom l slotPos, x.1 = r := by
  rw [← slotsFrom_map_fst] at h
  obtain ⟨x, hx, heq⟩ := List.mem_map.mp h
  exact ⟨x, hx, heq⟩

theorem along_before (l : Chain κ) (slotPos : Nat) :
    Along c .backward (slotsBefore l slotPos) := by
  have hs : ((slotsBefore l slotPos).map Prod.fst).Pairwise (fun a b => c.cmp a ≤ c.cmp b) := by
    rw [slotsBefore_map_fst, List.pairwise_reverse]
    have hall := l.sorted
    change l.allRows.Pairwise Row.Before at hall
    rw [allRows_eq l slotPos] at hall
    exact (List.pairwise_append.mp hall).1.imp fun h => Ctx.cmp_anti h
  rw [List.pairwise_map] at hs
  exact hs

theorem along_from (l : Chain κ) (slotPos : Nat) : Along c .forward (slotsFrom l slotPos) := by
  have hs : ((slotsFrom l slotPos).map Prod.fst).Pairwise (fun a b => -c.cmp a ≤ -c.cmp b) := by
    rw [slotsFrom_map_fst]
    have hall := l.sorted
    change l.allRows.Pairwise Row.Before at hall
    rw [allRows_eq l slotPos] at hall
    exact (List.pairwise_append.mp hall).2.1.imp fun h => Int.neg_le_neg (Ctx.cmp_anti h)
  rw [List.pairwise_map] at hs
  exact hs

/-- **A normal transaction sees every row with its key pass**, when the check returns
success with nothing to wait for and without a retraverse request. -/
def NormalSafe (c : Ctx κ) (l : Chain κ) (slotPos : Nat) : Prop :=
  c.trans.isReplTrans = false → ∀ s, checkUniqueness c l slotPos = .ok s →
    s.transID = smNullTid → s.isRetraverse = false →
    ∀ r ∈ l.allRows, r.key = c.row.key → r ∈ s.checked ∧ c.Passes r

/-- **A replication transaction does not get past a live committed row of its key.** -/
def ReplSafe (c : Ctx κ) (l : Chain κ) (slotPos : Nat) : Prop :=
  c.trans.isReplTrans = true → (∃ r ∈ l.allRows, r.key = c.row.key ∧ c.LiveCommitted r) →
    ∀ s, checkUniqueness c l slotPos = .ok s → s.isRetraverse = true

/-- **The live committed row stands behind the insert position, an unfinished one
before it**: the check stays in the leaf, every row with the key before the position
succeeds, one of them has a transaction to wait for, and a row with the key from the
position on is a live committed version. -/
structure LiveRowHidden (c : Ctx κ) (l : Chain κ) (slotPos : Nat) : Prop where
  repl : c.trans.isReplTrans = true
  stays : ¬ (c.isTreeLatched = false ∧ atBoundary c l.rows slotPos = true)
  notAbove : ∀ r ∈ l.rowsBefore slotPos, r.key ≤ c.row.key
  succeed : ∀ r ∈ l.rowsBefore slotPos, r.key = c.row.key → c.Succeeds r
  unfinished : ∃ r ∈ l.rowsBefore slotPos, r.key = c.row.key ∧ ¬ c.Passes r
  live : ∃ r ∈ l.rowsFrom slotPos, r.key = c.row.key ∧ c.LiveCommitted r

/-- The two directions of a check that returns success without a retraverse request. -/
theorem checkUniqueness_ok {l : Chain κ} {slotPos : Nat} {s : Scan κ}
    (h : checkUniqueness c l slotPos = .ok s) (hr : s.isRetraverse = false) :
    ¬ (c.isTreeLatched = false ∧ atBoundary c l.rows slotPos = true) ∧
      (SideEnd c .backward (slotsBefore l slotPos) Scan.start s true ∨
        ∃ s1 done, SideEnd c .backward (slotsBefore l slotPos) Scan.start s1 false ∧
          SideEnd c .forward (slotsFrom l slotPos) s1 s done) := by
  unfold checkUniqueness at h
  by_cases hb : c.isTreeLatched = false ∧ atBoundary c l.rows slotPos = true
  · simp only [if_pos hb, Except.ok.injEq] at h
    subst h
    cases hr
  refine ⟨hb, ?_⟩
  rw [if_neg hb] at h
  cases h1 : scanSide c .backward (l.prevs.map slotsDown)
      (slotsUp l.rows |>.take slotPos |>.reverse) Scan.start with
  | error e => rw [h1] at h; cases h
  | ok p =>
    obtain ⟨s1, done⟩ := p
    rw [h1] at h
    have hback := scanSide_spec h1 (along_before l slotPos) rfl rfl
    cases done with
    | true =>
      simp only [Except.ok.injEq] at h
      subst h
      exact Or.inl hback
    | false =>
      simp only at h
      obtain ⟨hnull, hret, _⟩ := hback.passed rfl
      cases h2 : scanSide c .forward (l.nexts.map slotsUp) (slotsUp l.rows |>.drop slotPos) s1 with
      | error e => rw [h2] at h; cases h
      | ok q =>
        obtain ⟨s2, done⟩ := q
        simp only [h2, Except.ok.injEq] at h
        subst h
        exact Or.inr ⟨s1, done, hback, scanSide_spec h2 (along_from l slotPos) hnull hret⟩

theorem normal_spec (l : Chain κ) (slotPos : Nat) : NormalSafe c l slotPos := by
  intro _ s h htid hret r hr hkey
  obtain ⟨_, hback | ⟨s1, done, hback, hfwd⟩⟩ := checkUniqueness_ok h hret
  · obtain h1 | ⟨h1, _⟩ := hback.stopped rfl
    · rw [hret] at h1
      cases h1
    · exact absurd htid h1
  · rw [allRows_eq l slotPos] at hr
    obtain hmem | hmem := List.mem_append.mp hr
    · obtain ⟨x, hx, rfl⟩ := exists_slot_before hmem
      obtain ⟨hp, hin⟩ := (hback.passed rfl).2.2 x hx (Ctx.cmp_eq_zero.mpr hkey)
      exact ⟨hfwd.kept hin, hp⟩
    · obtain ⟨x, hx, rfl⟩ := exists_slot_from hmem
      cases done with
      | false =>
        obtain ⟨hp, hin⟩ := (hfwd.passed rfl).2.2 x hx (Ctx.cmp_eq_zero.mpr hkey)
        exact ⟨hin, hp⟩
      | true =>
        obtain h1 | ⟨h1, _⟩ := hfwd.stopped rfl
        · rw [hret] at h1
          cases h1
        · exact absurd htid h1

/-- Without the hidden constellation a live committed row is not passed by. -/
theorem repl_spec {l : Chain κ} {slotPos : Nat} (hno : ¬ LiveRowHidden c l slotPos) :
    ReplSafe c l slotPos := by
  intro hrepl ⟨r, hr, hkey, hlive⟩ s h
  by_contra hret
  rw [Bool.not_eq_true] at hret
  have hfails := Ctx.liveCommitted_fails hlive
  rw [allRows_eq l slotPos] at hr
  obtain ⟨hstays, hback | ⟨s1, done, hback, hfwd⟩⟩ := checkUniqueness_ok h hret
  · -- the backward scan found a transaction to wait for
    obtain h1 | ⟨_, hw⟩ := hback.stopped rfl
    · rw [hret] at h1
      cases h1
    obtain hmem | hmem := List.mem_append.mp hr
    · obtain ⟨x, hx, rfl⟩ := exists_slot_before hmem
      exact hfails (hw.seen hrepl x hx (Ctx.cmp_eq_zero.mpr hkey))
    · refine hno ⟨hrepl, hstays, ?_, ?_, ?_, ⟨r, hmem, hkey, hlive⟩⟩
      · intro q hq
        obtain ⟨x, hx, rfl⟩ := exists_slot_before hq
        exact Ctx.cmp_nonneg.mp (hw.notWrong x hx)
      · intro q hq hqk
        obtain ⟨x, hx, rfl⟩ := exists_slot_before hq
        exact hw.seen hrepl x hx (Ctx.cmp_eq_zero.mpr hqk)
      · obtain ⟨x, hx, hx0, hnp⟩ := hw.blocked
        exact ⟨x.1, mem_rowsBefore hx, Ctx.cmp_eq_zero.mp hx0, hnp⟩
  · obtain hmem | hmem := List.mem_append.mp hr
    · obtain ⟨x, hx, rfl⟩ := exists_slot_before hmem
      exact hfails ((hback.passed rfl).2.2 x hx (Ctx.cmp_eq_zero.mpr hkey)).1.succeeds
    · obtain ⟨x, hx, rfl⟩ := exists_slot_from hmem
      cases done with
      | false =>
        exact hfails ((hfwd.passed rfl).2.2 x hx (Ctx.cmp_eq_zero.mpr hkey)).1.succeeds
      | true =>
        obtain h1 | ⟨_, hw⟩ := hfwd.stopped rfl
        · rw [hret] at h1
          cases h1
        · exact hfails (hw.seen hrepl x hx (Ctx.cmp_eq_zero.mpr hkey))

/-- In the hidden constellation the check returns success without a retraverse request. -/
theorem hidden_passes {l : Chain κ} {slotPos : Nat} (hpos : slotPos ≤ l.rows.length)
    (hid : LiveRowHidden c l slotPos) :
    ∃ s, checkUniqueness c l slotPos = .ok s ∧ s.isRetraverse = false := by
  have hlatch : c.isTreeLatched = true ∨
      ∃ x ∈ ((slotsUp l.rows).take slotPos).reverse, c.cmp x.1 ≠ 0 := by
    by_cases hl : c.isTreeLatched = true
    · exact Or.inl hl
    · -- away from the ends of the leaf, the first row has another key
      right
      have hb : atBoundary c l.rows slotPos ≠ true :=
        fun h => hid.stays ⟨by simpa using hl, h⟩
      cases hrows : l.rows with
      | nil =>
        have h0 : slotPos = 0 := by
          rw [hrows] at hpos
          exact Nat.le_zero.mp hpos
        exact absurd (by simp [atBoundary, h0]) hb
      | cons r rest =>
        cases slotPos with
        | zero => exact absurd (by simp [atBoundary]) hb
        | succ n =>
          refine ⟨(r, 0), by simp [slotsUp, List.zipIdx_cons], ?_⟩
          intro h0
          exact hb (by simp [atBoundary, hrows, h0])
  have hnn : ∀ x ∈ slotsBefore l slotPos, 0 ≤ Direction.backward.along (c.cmp x.1) :=
    fun x hx => Ctx.cmp_nonneg.mpr (hid.notAbove x.1 (mem_rowsBefore hx))
  have hseen : Seen c (slotsBefore l slotPos) :=
    fun x hx hx0 => hid.succeed x.1 (mem_rowsBefore hx) (Ctx.cmp_eq_zero.mp hx0)
  have hblocked : ∃ x ∈ slotsBefore l slotPos, c.cmp x.1 = 0 ∧ ¬ c.Passes x.1 := by
    obtain ⟨r, hr, hkey, hnp⟩ := hid.unfinished
    obtain ⟨x, hx, rfl⟩ := exists_slot_before hr
    exact ⟨x, hx, Ctx.cmp_eq_zero.mpr hkey, hnp⟩
  obtain ⟨s, hs, hret⟩ := scanSide_waits (l.prevs.map slotsDown)
    (slotsUp l.rows |>.take slotPos |>.reverse) Scan.start (along_before l slotPos) rfl rfl
    hnn hseen hblocked hlatch
  refine ⟨s, ?_, hret⟩
  unfold checkUniqueness
  rw [if_neg hid.stays, hs]

/-- The check meets its purpose at an insert position exactly when no live committed
row is hidden there. -/
theorem checkUniqueness_iff {l : Chain κ} {slotPos : Nat} (hpos : slotPos ≤ l.rows.length) :
    NormalSafe c l slotPos ∧ ReplSafe c l slotPos ↔ ¬ LiveRowHidden c l slotPos := by
  constructor
  · rintro ⟨_, hsafe⟩ hid
    obtain ⟨s, hs, hret⟩ := hidden_passes hpos hid
    obtain ⟨r, hr, hkey, hlive⟩ := hid.live
    have hmem : r ∈ l.allRows := by
      rw [allRows_eq l slotPos]
      exact List.mem_append_right _ hr
    rw [hsafe hid.repl ⟨r, hmem, hkey, hlive⟩ s hs] at hret
    cases hret
  · intro hno
    exact ⟨normal_spec l slotPos, repl_spec hno⟩

/-- The slots of a leaf of the chain are searchable. -/
theorem Chain.slotsOk {δ : Type} (l : Chain κ) (h : KeyInfo κ δ) : SlotsOk h (l.slots h) := by
  have hsorted := (List.pairwise_append.mp (List.pairwise_append.mp l.sorted).2.1).1
  refine ⟨?_, ?_⟩
  · unfold Chain.slots
    rw [List.pairwise_map]
    exact hsorted.imp fun hb => rank_some_lt.mpr hb
  · intro s hs
    obtain ⟨r, _, rfl⟩ := List.mem_map.mp hs
    rfl

/-- **The uniqueness check at the position `findSlotInNode` computes**, with or without
direct keys: it keeps both promises exactly when no live committed row is hidden behind
the position. -/
theorem checkUniqueness_correct {δ : Type} (h : KeyInfo κ δ) (c : Ctx κ) (l : Chain κ) :
    NormalSafe c l (findSlotInNode h (l.slots h) c.row) ∧
        ReplSafe c l (findSlotInNode h (l.slots h) c.row) ↔
      ¬ LiveRowHidden c l (findSlotInNode h (l.slots h) c.row) := by
  apply checkUniqueness_iff
  have hle := (findSlotInNode_spec (l.slotsOk h) c.row).le_length
  unfold Chain.slots at hle ⊢
  rw [List.length_map] at hle
  exact hle

end Scan

/-! ## §8. The hidden row. -/

section Example

/-- Row `1` was inserted by transaction 7, which is unfinished; row `3` is committed and
live.  Both have the key of the new row `2`. -/
def hiddenView (r : Row Nat) : RowView :=
  let free : Scn := 0x7FFFFFFFFFFFFFF9#64
  let header : SlotHeader :=
    if r.oid = 1 then ⟨0x8000000000000007#64, free⟩ else ⟨0x0000000000000050#64, free⟩
  ⟨header, header, true, true, fun _ scn => scn⟩

/-- Replication transaction 9 inserts row `2` with the tree latched. -/
def hiddenCtx : Ctx Nat :=
  { trans := ⟨9, 1, false⟩, row := ⟨5, 2⟩, stmtViewSCN := 0x0000000000000087#64,
    isTreeLatched := true, forbiddenToRetry := false, view := hiddenView }

/-- The leaf: an insertion not yet committed, and a live row of the same key. -/
def hiddenChain : Chain Nat :=
  { prevs := [], rows := [⟨5, 1⟩, ⟨5, 3⟩], nexts := [], sorted := by decide }

/-- An index without direct keys. -/
def plainKeys : KeyInfo Nat Unit :=
  { isDirectKey := false, makeKeyFromRow := fun _ => (), compareFirst := fun _ _ => 0,
    noKey := (), compareFirst_sound := by simp, compareFirst_mono := by simp }

/-- **Replication is sent to wait for transaction 7 while a live committed row with the
key stands in the same leaf.** -/
theorem checkUniqueness_hides_live_row :
    findSlotInNode plainKeys (hiddenChain.slots plainKeys) hiddenCtx.row = 1 ∧
      (⟨5, 3⟩ : Row Nat) ∈ hiddenChain.allRows ∧
      hiddenCtx.LiveCommitted ⟨5, 3⟩ ∧
      ¬ ReplSafe hiddenCtx hiddenChain
        (findSlotInNode plainKeys (hiddenChain.slots plainKeys) hiddenCtx.row) := by
  have hpos : findSlotInNode plainKeys (hiddenChain.slots plainKeys) hiddenCtx.row = 1 := by
    decide
  have hmem : (⟨5, 3⟩ : Row Nat) ∈ hiddenChain.allRows := by decide
  have hlive : hiddenCtx.LiveCommitted ⟨5, 3⟩ := by
    unfold Ctx.LiveCommitted
    decide
  refine ⟨hpos, hmem, hlive, ?_⟩
  rw [hpos]
  intro hsafe
  have hok : checkUniqueness hiddenCtx hiddenChain 1 =
      .ok ⟨7, false, some ⟨5, 1⟩, 0, [⟨5, 1⟩]⟩ := by rfl
  exact absurd (hsafe (by decide) ⟨_, hmem, rfl, hlive⟩ _ hok) (by decide)

end Example

end Altibase.Smnb
