/-
  Altibase.Smx.Savepoint
  ──────────────────────
  **PARTIAL ROLLBACK AND ITS REPLICATION.**

  A statement that begins pushes an implicit savepoint; a failed statement is
  undone to it.  The standby does not know these savepoints.  It sets one of
  its own, named by a depth, when a log record says that it is the first
  replicated one of its statement, and it rolls back to a name.  `smxSavepointMgr`
  assigns the depths lazily, writes them back into the enclosing statements that
  had none, and uses them again once the statement is over.

  The innermost statement is the only one that logs, so the depths are a prefix
  of the list that never decreases.  A new depth is above all that are in use,
  which is why the standby's savepoints of the depths in use are in the order of
  their names, and why a rollback to the innermost name leaves all of them.

  Main results:
    * `checkAndSetImpSVP4Repl_eq` — what the lazy assignment writes;
    * `sync_perform` — one step of both;
    * `partial_rollback_replicated` — both sides agree after every run.
-/
import Mathlib.Data.List.TakeWhile
import Altibase.Lib.System

namespace Altibase.Smx

open Altibase.Lib

variable {α : Type}

/-! ## §1. The primary's savepoint manager. -/

/-- `SMI_STATEMENT_DEPTH_NULL`: no replication savepoint yet. -/
def stmtDepthNull : Nat := 0

/-- `SMI_STATEMENT_DEPTH_MAX`, checked when a statement begins. -/
def stmtDepthMax : Nat := 255

/-- `smxSavepoint`.  `mUndoLSN` is a position in the undo chain of the transaction. -/
structure Savepoint where
  mUndoLSN : Nat
  mStmtDepth : Nat
  mReplImpSvpStmtDepth : Nat
  deriving Repr, DecidableEq

/-- The first loop of `setReplSavepoint`, over the previous savepoints: how many
    without a depth it passes, and the depth it finds.  The list header has
    depth 0. -/
def findReplDepth : List Savepoint → Nat × Nat
  | [] => (0, 0)
  | sCur :: prv =>
      if sCur.mReplImpSvpStmtDepth ≠ stmtDepthNull then
        (0, sCur.mReplImpSvpStmtDepth)
      else
        ((findReplDepth prv).1 + 1, (findReplDepth prv).2)

/-- The second loop of `setReplSavepoint`; `none` when its assertion fails. -/
def backFill (depth : Nat) : Nat → List Savepoint → Option (List Savepoint)
  | 0, l => some l
  | _ + 1, [] => none
  | k + 1, sCur :: prv =>
      if sCur.mReplImpSvpStmtDepth = stmtDepthNull then
        (backFill depth k prv).map ({ sCur with mReplImpSvpStmtDepth := depth } :: ·)
      else
        none

/-- `setReplSavepoint` for the savepoint at the end of the list. -/
def setReplSavepoint (aSavepoint : Savepoint) (prv : List Savepoint) : Option (List Savepoint) :=
  let depth := (findReplDepth prv).2 + 1
  (backFill depth (findReplDepth prv).1 prv).map
    ({ aSavepoint with mReplImpSvpStmtDepth := depth } :: ·)

/-- `checkAndSetImpSVP4Repl`, on the list from the last savepoint back.  Only a
    statement logs, so the list is not empty. -/
def checkAndSetImpSVP4Repl : List Savepoint → Option (Bool × List Savepoint)
  | [] => none
  | sCur :: prv =>
      if sCur.mReplImpSvpStmtDepth = stmtDepthNull then
        (setReplSavepoint sCur prv).map fun l => (false, l)
      else
        some (true, sCur :: prv)

/-- `getLstReplStmtDepth`. -/
def getLstReplStmtDepth : List Savepoint → Nat
  | [] => 0
  | sCur :: _ => sCur.mReplImpSvpStmtDepth

/-- A log record that can be undone, and whether the sender has to send it. -/
structure Change (α : Type) where
  replicated : Bool
  data : α

/-- The transaction: its implicit savepoints, the last one first, and the records
    that have not been undone, the oldest one first. -/
structure Primary (α : Type) where
  mImpSavepoint : List Savepoint
  undoChain : List (Change α)

/-- What the standby receives.  `svpDepth` is `mReplSvPNumber` of the log header
    when the record has `SMR_LOG_SAVEPOINT_OK`. -/
inductive XLog (α : Type)
  | change (svpDepth : Option Nat) (data : α)
  | abortSvp (name : Nat)

/-- `setImpSavepoint`. -/
def Primary.setImpSavepoint (p : Primary α) (aStmtDepth : Nat) : Primary α :=
  { p with mImpSavepoint :=
      { mUndoLSN := p.undoChain.length, mStmtDepth := aStmtDepth,
        mReplImpSvpStmtDepth := stmtDepthNull } :: p.mImpSavepoint }

/-- A replicated log record: `checkAndSetImpSVP4Repl`, then the header with the
    depth in one byte. -/
def Primary.writeReplLog (p : Primary α) (data : α) : Option (Primary α × List (XLog α)) :=
  (checkAndSetImpSVP4Repl p.mImpSavepoint).map fun r =>
    ({ mImpSavepoint := r.2, undoChain := p.undoChain ++ [⟨true, data⟩] },
      [.change (if r.1 then none else some (getLstReplStmtDepth r.2 % 256)) data])

/-- A log record the sender does not send. -/
def Primary.writeLog (p : Primary α) (data : α) : Primary α :=
  { p with undoChain := p.undoChain ++ [⟨false, data⟩] }

/-- `abortToImpSavepoint`: the abort record first, then the undo. -/
def Primary.abortToImpSavepoint (p : Primary α) (aSavepoint : Savepoint) :
    Primary α × List (XLog α) :=
  ({ p with undoChain := p.undoChain.take aSavepoint.mUndoLSN },
    if aSavepoint.mReplImpSvpStmtDepth ≠ stmtDepthNull then
      [.abortSvp aSavepoint.mReplImpSvpStmtDepth]
    else [])

/-! ## §2. The standby. -/

/-- A savepoint of the standby's transaction: its name, and how much of the undo
    chain is before it. -/
structure NamedSvp where
  name : Nat
  pos : Nat
  deriving Repr, DecidableEq

/-- The standby's transaction: its savepoints, the last one first. -/
structure Standby (α : Type) where
  savepoints : List NamedSvp
  undoChain : List α

/-- `setExpSavepoint`: an older one of that name goes. -/
def Standby.setSavepoint (q : Standby α) (name : Nat) : Standby α :=
  { q with savepoints :=
      { name := name, pos := q.undoChain.length } :: q.savepoints.filter (·.name ≠ name) }

/-- `abortToExpSavepoint`: the named savepoint stays, the later ones go; `none`
    when there is none of that name. -/
def Standby.abortSavepoint (q : Standby α) (name : Nat) : Option (Standby α) :=
  match q.savepoints.dropWhile (·.name ≠ name) with
  | [] => none
  | svp :: older =>
      some { savepoints := svp :: older, undoChain := q.undoChain.take svp.pos }

/-- The receiver applies one record. -/
def Standby.apply (q : Standby α) : XLog α → Option (Standby α)
  | .change none data => some { q with undoChain := q.undoChain ++ [data] }
  | .change (some depth) data =>
      let q := q.setSavepoint depth
      some { q with undoChain := q.undoChain ++ [data] }
  | .abortSvp name => q.abortSavepoint name

/-- The receiver applies the records one after the other. -/
def Standby.applyAll (q : Standby α) (logs : List (XLog α)) : Option (Standby α) :=
  logs.foldlM Standby.apply q

/-! ## §3. Both, step by step. -/

/-- Both transactions. -/
structure Pair (α : Type) where
  primary : Primary α
  standby : Standby α

/-- What the statements of the transaction do; the last three are done by the
    innermost one. -/
inductive Act (α : Type)
  | beginStmt (aStmtDepth : Nat)
  | log (replicated : Bool) (data : α)
  | abortStmt
  | endStmt

/-- A statement may begin below the open ones, up to the maximum depth; the
    rest is for an open statement. -/
def allowed (s : Pair α) : Act α → Bool
  | .beginStmt aStmtDepth =>
      aStmtDepth ≠ stmtDepthNull ∧ aStmtDepth ≤ stmtDepthMax ∧
        ∀ svp ∈ s.primary.mImpSavepoint.head?, svp.mStmtDepth < aStmtDepth
  | _ => s.primary.mImpSavepoint ≠ []

/-- What the primary does, with the records it sends; `none` where an assertion
    fails. -/
def Primary.act (p : Primary α) : Act α → Option (Primary α × List (XLog α))
  | .beginStmt aStmtDepth => some (p.setImpSavepoint aStmtDepth, [])
  | .log true data => p.writeReplLog data
  | .log false data => some (p.writeLog data, [])
  | .abortStmt => p.mImpSavepoint.head?.map p.abortToImpSavepoint
  | .endStmt => some ({ p with mImpSavepoint := p.mImpSavepoint.tail }, [])

/-- One action of the primary, and the standby after its records. -/
def perform (s : Pair α) (a : Act α) : Option (Pair α) :=
  (s.primary.act a).bind fun r =>
    (s.standby.applyAll r.2).map fun q => { primary := r.1, standby := q }

/-- The transaction and its replica, from its beginning on. -/
def replication (α : Type) : System (Pair α) (Act α) where
  init := { primary := ⟨[], []⟩, standby := ⟨[], []⟩ }
  step s a := if allowed s a then perform s a else none

/-- The replicated changes among those that survive on the primary. -/
def replicatedOf (l : List (Change α)) : List α :=
  (l.filter (·.replicated)).map (·.data)

/-- **The depths form a prefix and never decrease**: a savepoint has no depth, or
    the ones before it have one that is not above its own. -/
def DepthsInOrder (l : List Savepoint) : Prop :=
  l.Pairwise fun inner outer => inner.mReplImpSvpStmtDepth = stmtDepthNull ∨
    (outer.mReplImpSvpStmtDepth ≠ stmtDepthNull ∧
      outer.mReplImpSvpStmtDepth ≤ inner.mReplImpSvpStmtDepth)

/-! ## §4. What the lazy assignment writes. -/

/-- The savepoints at the end of the list that have no depth. -/
def unmarked (l : List Savepoint) : List Savepoint :=
  l.takeWhile (·.mReplImpSvpStmtDepth = stmtDepthNull)

/-- The list from the last savepoint on that has a depth. -/
def marked (l : List Savepoint) : List Savepoint :=
  l.dropWhile (·.mReplImpSvpStmtDepth = stmtDepthNull)

/-- The depth of the last savepoint that has one. -/
def lastDepth (l : List Savepoint) : Nat :=
  getLstReplStmtDepth (marked l)

/-- The list after the savepoints without a depth got the next one. -/
def mark (l : List Savepoint) : List Savepoint :=
  (unmarked l).map ({ · with mReplImpSvpStmtDepth := lastDepth l + 1 }) ++ marked l

theorem unmarked_append_marked (l : List Savepoint) : unmarked l ++ marked l = l :=
  List.takeWhile_append_dropWhile

theorem depth_of_mem_unmarked {l : List Savepoint} {s : Savepoint} (hs : s ∈ unmarked l) :
    s.mReplImpSvpStmtDepth = stmtDepthNull := by
  simpa using List.mem_takeWhile_imp hs

theorem findReplDepth_eq (l : List Savepoint) :
    findReplDepth l = ((unmarked l).length, lastDepth l) := by
  induction l with
  | nil => rfl
  | cons s prv ih =>
    rw [findReplDepth]
    by_cases hs : s.mReplImpSvpStmtDepth = stmtDepthNull
    · simp [hs, ih, unmarked, marked, lastDepth]
    · simp [hs, unmarked, marked, lastDepth, getLstReplStmtDepth]

theorem backFill_append (depth : Nat) (l l' : List Savepoint)
    (hl : ∀ s ∈ l, s.mReplImpSvpStmtDepth = stmtDepthNull) :
    backFill depth l.length (l ++ l')
      = some (l.map ({ · with mReplImpSvpStmtDepth := depth }) ++ l') := by
  induction l with
  | nil => rfl
  | cons s l ih =>
    have hs := hl s (List.mem_cons_self ..)
    have hrest := ih fun t ht => hl t (List.mem_cons_of_mem _ ht)
    simp [backFill, hs, hrest]

/-- **The first replicated record of a statement** gives the next depth to all
    savepoints that have none; the assertion holds. -/
theorem checkAndSetImpSVP4Repl_eq {s : Savepoint} {prv : List Savepoint}
    (hs : s.mReplImpSvpStmtDepth = stmtDepthNull) :
    checkAndSetImpSVP4Repl (s :: prv) = some (false, mark (s :: prv)) := by
  have hfill := backFill_append (lastDepth prv + 1) (unmarked prv) (marked prv)
    fun t ht => depth_of_mem_unmarked ht
  rw [unmarked_append_marked] at hfill
  have hmark : mark (s :: prv)
      = { s with mReplImpSvpStmtDepth := lastDepth prv + 1 } ::
          ((unmarked prv).map ({ · with mReplImpSvpStmtDepth := lastDepth prv + 1 })
            ++ marked prv) := by
    simp [mark, unmarked, marked, lastDepth, hs]
  rw [hmark, checkAndSetImpSVP4Repl, if_pos hs, setReplSavepoint, findReplDepth_eq]
  simp [hfill]

/-- Every later one finds a depth. -/
theorem checkAndSetImpSVP4Repl_of_marked {s : Savepoint} {prv : List Savepoint}
    (hs : s.mReplImpSvpStmtDepth ≠ stmtDepthNull) :
    checkAndSetImpSVP4Repl (s :: prv) = some (true, s :: prv) := by
  rw [checkAndSetImpSVP4Repl, if_neg hs]

theorem marked_depths {l : List Savepoint} (hl : DepthsInOrder l) {s : Savepoint}
    (hs : s ∈ marked l) :
    s.mReplImpSvpStmtDepth ≠ stmtDepthNull ∧ s.mReplImpSvpStmtDepth ≤ lastDepth l := by
  cases hm : marked l with
  | nil =>
    rw [hm] at hs
    cases hs
  | cons t older =>
    have ht : t.mReplImpSvpStmtDepth ≠ stmtDepthNull := by
      have := List.head?_dropWhile_not (fun s : Savepoint =>
        decide (s.mReplImpSvpStmtDepth = stmtDepthNull)) l
      rw [show l.dropWhile _ = t :: older from hm] at this
      simpa using this
    have hord : DepthsInOrder (t :: older) := by
      rw [← hm]
      exact hl.sublist (List.dropWhile_sublist _)
    rw [lastDepth, hm]
    rw [hm] at hs
    rcases List.mem_cons.mp hs with rfl | hmem
    · exact ⟨ht, Nat.le_refl _⟩
    · rcases (List.pairwise_cons.mp hord).1 s hmem with h | h
      · exact absurd h ht
      · exact h

theorem mem_mark {l : List Savepoint} {t : Savepoint} (ht : t ∈ mark l) :
    (∃ s ∈ unmarked l, t = { s with mReplImpSvpStmtDepth := lastDepth l + 1 }) ∨
      t ∈ marked l := by
  rcases List.mem_append.mp ht with h | h
  · obtain ⟨s, hs, rfl⟩ := List.mem_map.mp h
    exact Or.inl ⟨s, hs, rfl⟩
  · exact Or.inr h

theorem depthsInOrder_mark {l : List Savepoint} (hl : DepthsInOrder l) :
    DepthsInOrder (mark l) := by
  rw [DepthsInOrder, mark, List.pairwise_append]
  refine ⟨?_, hl.sublist (List.dropWhile_sublist _), ?_⟩
  · rw [List.pairwise_map]
    exact List.pairwise_of_forall fun _ _ => Or.inr ⟨Nat.succ_ne_zero _, Nat.le_refl _⟩
  · intro a ha b hb
    obtain ⟨s, -, rfl⟩ := List.mem_map.mp ha
    have hb' := marked_depths hl hb
    exact Or.inr ⟨hb'.1, Nat.le_succ_of_le hb'.2⟩

/-- Marking keeps every relation between savepoints that does not read the depth. -/
theorem pairwise_mark {l : List Savepoint} {r : Savepoint → Savepoint → Prop}
    (hr : ∀ a b d, r a b → r { a with mReplImpSvpStmtDepth := d } b)
    (hr' : ∀ a b d, r a b → r a { b with mReplImpSvpStmtDepth := d })
    (hl : l.Pairwise r) : (mark l).Pairwise r := by
  rw [← unmarked_append_marked l, List.pairwise_append] at hl
  obtain ⟨hun, hma, hcross⟩ := hl
  rw [mark, List.pairwise_append, List.pairwise_map]
  refine ⟨hun.imp fun h => hr _ _ _ (hr' _ _ _ h), hma, ?_⟩
  intro a ha b hb
  obtain ⟨s, hs, rfl⟩ := List.mem_map.mp ha
  exact hr _ _ _ (hcross s hs b hb)

/-! ## §5. The invariant. -/

/-- A name is in use: some statement's abort would write it. -/
def Live (l : List Savepoint) (n : Nat) : Prop :=
  n ≠ stmtDepthNull ∧ ∃ s ∈ l, s.mReplImpSvpStmtDepth = n

/-- The list of the primary: positions, statement depths and replication depths
    grow with the nesting. -/
structure Nested (p : Primary α) : Prop where
  depths : p.mImpSavepoint.Pairwise fun inner outer => outer.mStmtDepth < inner.mStmtDepth
  bounds : ∀ s ∈ p.mImpSavepoint, 0 < s.mStmtDepth ∧ s.mStmtDepth ≤ stmtDepthMax ∧
    s.mReplImpSvpStmtDepth ≤ s.mStmtDepth
  order : DepthsInOrder p.mImpSavepoint
  undo : p.mImpSavepoint.Pairwise fun inner outer => outer.mUndoLSN ≤ inner.mUndoLSN
  within : ∀ s ∈ p.mImpSavepoint, s.mUndoLSN ≤ p.undoChain.length

/-- The standby's savepoints: their positions grow, and the ones in use are in
    the order of their names. -/
structure Ordered (l : List Savepoint) (q : Standby α) : Prop where
  positions : q.savepoints.Pairwise fun newer older => older.pos ≤ newer.pos
  within : ∀ v ∈ q.savepoints, v.pos ≤ q.undoChain.length
  names : q.savepoints.Pairwise fun newer older =>
    Live l newer.name → Live l older.name → older.name < newer.name
  known : ∀ n, Live l n → ∃ v ∈ q.savepoints, v.name = n

/-- **Both sides agree.**  A savepoint with a depth has its changes saved under
    that name; one without a depth has seen no replicated change yet. -/
structure Sync (s : Pair α) : Prop where
  nested : Nested s.primary
  ordered : Ordered s.primary.mImpSavepoint s.standby
  same : s.standby.undoChain = replicatedOf s.primary.undoChain
  saved : ∀ svp ∈ s.primary.mImpSavepoint, ∀ v ∈ s.standby.savepoints,
    svp.mReplImpSvpStmtDepth ≠ stmtDepthNull → v.name = svp.mReplImpSvpStmtDepth →
      s.standby.undoChain.take v.pos
        = replicatedOf (s.primary.undoChain.take svp.mUndoLSN)
  fresh : ∀ svp ∈ s.primary.mImpSavepoint, svp.mReplImpSvpStmtDepth = stmtDepthNull →
    replicatedOf (s.primary.undoChain.take svp.mUndoLSN) = replicatedOf s.primary.undoChain

@[simp] theorem replicatedOf_append (l l' : List (Change α)) :
    replicatedOf (l ++ l') = replicatedOf l ++ replicatedOf l' := by
  simp [replicatedOf]

@[simp] theorem replicatedOf_true (data : α) : replicatedOf [⟨true, data⟩] = [data] := rfl

@[simp] theorem replicatedOf_false (data : α) : replicatedOf [⟨false, data⟩] = [] := rfl

theorem live_mark {l : List Savepoint} {n : Nat} (h : Live (mark l) n) :
    n = lastDepth l + 1 ∨ Live l n := by
  obtain ⟨hn, t, ht, hd⟩ := h
  rcases mem_mark ht with ⟨s, -, rfl⟩ | hold
  · exact Or.inl hd.symm
  · exact Or.inr ⟨hn, t, (List.dropWhile_sublist _).subset hold, hd⟩

theorem live_le_lastDepth {l : List Savepoint} (hl : DepthsInOrder l) {n : Nat}
    (h : Live l n) : n ≤ lastDepth l := by
  obtain ⟨hn, s, hs, rfl⟩ := h
  rw [← unmarked_append_marked l] at hs
  rcases List.mem_append.mp hs with hun | hma
  · exact absurd (depth_of_mem_unmarked hun) hn
  · exact (marked_depths hl hma).2

/-- A depth is at most the nesting, so it fits the byte of the log header. -/
theorem bounds_mark {p : Primary α} (hp : Nested p) {t : Savepoint}
    (ht : t ∈ mark p.mImpSavepoint) :
    0 < t.mStmtDepth ∧ t.mStmtDepth ≤ stmtDepthMax ∧
      t.mReplImpSvpStmtDepth ≤ t.mStmtDepth := by
  rcases mem_mark ht with ⟨s, hs, rfl⟩ | hold
  · have hmem : s ∈ p.mImpSavepoint := (List.takeWhile_sublist _).subset hs
    refine ⟨(hp.bounds s hmem).1, (hp.bounds s hmem).2.1, ?_⟩
    show lastDepth p.mImpSavepoint + 1 ≤ s.mStmtDepth
    cases hm : marked p.mImpSavepoint with
    | nil =>
      rw [lastDepth, hm]
      exact (hp.bounds s hmem).1
    | cons o older =>
      have ho : o ∈ marked p.mImpSavepoint := by simp [hm]
      have hcross := hp.depths
      rw [← unmarked_append_marked p.mImpSavepoint, List.pairwise_append] at hcross
      have hlt : o.mStmtDepth < s.mStmtDepth := hcross.2.2 s hs o ho
      have hle := (hp.bounds o ((List.dropWhile_sublist _).subset ho)).2.2
      rw [lastDepth, hm]
      show o.mReplImpSvpStmtDepth + 1 ≤ _
      omega
  · exact hp.bounds t ((List.dropWhile_sublist _).subset hold)

theorem nested_mark {p : Primary α} (hp : Nested p) :
    Nested { p with mImpSavepoint := mark p.mImpSavepoint } where
  depths := pairwise_mark (fun _ _ _ h => h) (fun _ _ _ h => h) hp.depths
  bounds := fun _ ht => bounds_mark hp ht
  order := depthsInOrder_mark hp.order
  undo := pairwise_mark (fun _ _ _ h => h) (fun _ _ _ h => h) hp.undo
  within := by
    intro t ht
    rcases mem_mark ht with ⟨s, hs, rfl⟩ | hold
    · exact hp.within s ((List.takeWhile_sublist _).subset hs)
    · exact hp.within t ((List.dropWhile_sublist _).subset hold)

/-- A longer undo chain leaves the nesting as it is. -/
theorem nested_append {p : Primary α} (hp : Nested p) (c : Change α) :
    Nested { p with undoChain := p.undoChain ++ [c] } where
  depths := hp.depths
  bounds := hp.bounds
  order := hp.order
  undo := hp.undo
  within := by
    intro s hs
    have := hp.within s hs
    simp only [List.length_append, List.length_singleton]
    omega

theorem nested_tail {p : Primary α} (hp : Nested p) :
    Nested { p with mImpSavepoint := p.mImpSavepoint.tail } where
  depths := hp.depths.sublist (List.tail_sublist _)
  bounds := fun s hs => hp.bounds s (List.mem_of_mem_tail hs)
  order := hp.order.sublist (List.tail_sublist _)
  undo := hp.undo.sublist (List.tail_sublist _)
  within := fun s hs => hp.within s (List.mem_of_mem_tail hs)

/-! ## §6. A log record. -/

/-- The standby's savepoint of a new depth: its position is the last, and its name
    is above all in use. -/
theorem ordered_setSavepoint {l : List Savepoint} {q : Standby α} (hl : DepthsInOrder l)
    (hq : Ordered l q) : Ordered (mark l) (q.setSavepoint (lastDepth l + 1)) where
  positions := by
    rw [Standby.setSavepoint, List.pairwise_cons]
    exact ⟨fun v hv => hq.within v (List.mem_filter.mp hv).1, hq.positions.filter _⟩
  within := by
    intro v hv
    rcases List.mem_cons.mp hv with rfl | hold
    · exact Nat.le_refl _
    · exact hq.within v (List.mem_filter.mp hold).1
  names := by
    have hold : ∀ v ∈ q.savepoints.filter (·.name ≠ lastDepth l + 1),
        Live (mark l) v.name → Live l v.name := by
      intro v hv hlive
      have hne : v.name ≠ lastDepth l + 1 := by simpa using (List.mem_filter.mp hv).2
      exact (live_mark hlive).resolve_left hne
    rw [Standby.setSavepoint, List.pairwise_cons]
    constructor
    · intro v hv _ hlive
      exact Nat.lt_succ_of_le (live_le_lastDepth hl (hold v hv hlive))
    · apply (hq.names.filter _).imp_of_mem
      intro a b ha hb hab hla hlb
      exact hab (hold a ha hla) (hold b hb hlb)
  known := by
    intro n hn
    by_cases hnew : n = lastDepth l + 1
    · exact ⟨_, List.mem_cons_self .., hnew.symm⟩
    · obtain ⟨v, hv, hname⟩ := hq.known n ((live_mark hn).resolve_left hnew)
      refine ⟨v, List.mem_cons_of_mem _ (List.mem_filter.mpr ⟨hv, ?_⟩), hname⟩
      simpa [hname] using hnew

theorem ordered_append {l : List Savepoint} {q : Standby α} (hq : Ordered l q) (data : α) :
    Ordered l { q with undoChain := q.undoChain ++ [data] } where
  positions := hq.positions
  within := by
    intro v hv
    have := hq.within v hv
    simp only [List.length_append, List.length_singleton]
    omega
  names := hq.names
  known := hq.known

/-- Fewer names in use. -/
theorem ordered_sublist {l l' : List Savepoint} {q : Standby α} (hq : Ordered l q)
    (hsub : ∀ s ∈ l', s ∈ l) : Ordered l' q := by
  have hlive : ∀ n, Live l' n → Live l n := by
    intro n ⟨hn, s, hs, hd⟩
    exact ⟨hn, s, hsub s hs, hd⟩
  exact ⟨hq.positions, hq.within,
    hq.names.imp fun h ha hb => h (hlive _ ha) (hlive _ hb), fun n hn => hq.known n (hlive n hn)⟩

/-- **The first replicated record of a statement**: the savepoints that had seen no
    replicated change get the name under which the standby saves its chain now. -/
theorem sync_mark {s : Pair α} (hs : Sync s) :
    Sync { primary := { s.primary with mImpSavepoint := mark s.primary.mImpSavepoint },
           standby := s.standby.setSavepoint (lastDepth s.primary.mImpSavepoint + 1) } where
  nested := nested_mark hs.nested
  ordered := ordered_setSavepoint hs.nested.order hs.ordered
  same := hs.same
  saved := by
    intro svp hsvp v hv hne hname
    rcases mem_mark hsvp with ⟨t, ht, rfl⟩ | hold
    · rcases List.mem_cons.mp hv with rfl | hvold
      · show s.standby.undoChain.take s.standby.undoChain.length = _
        have hfresh := hs.fresh t ((List.takeWhile_sublist _).subset ht) (depth_of_mem_unmarked ht)
        rw [List.take_length, hs.same]
        exact hfresh.symm
      · have hne' : v.name ≠ lastDepth s.primary.mImpSavepoint + 1 := by
          simpa using (List.mem_filter.mp hvold).2
        exact absurd hname hne'
    · have hle := (marked_depths hs.nested.order hold).2
      rcases List.mem_cons.mp hv with rfl | hvold
      · have heq : lastDepth s.primary.mImpSavepoint + 1 = svp.mReplImpSvpStmtDepth := hname
        omega
      · exact hs.saved svp ((List.dropWhile_sublist _).subset hold) v (List.mem_filter.mp hvold).1
          hne hname
  fresh := by
    intro svp hsvp hnull
    rcases mem_mark hsvp with ⟨t, -, rfl⟩ | hold
    · exact absurd hnull (Nat.succ_ne_zero _)
    · exact absurd hnull (marked_depths hs.nested.order hold).1

/-- A replicated record, once all savepoints have a depth. -/
theorem sync_append_true {s : Pair α} (hs : Sync s) (data : α)
    (hall : ∀ svp ∈ s.primary.mImpSavepoint, svp.mReplImpSvpStmtDepth ≠ stmtDepthNull) :
    Sync { primary := { s.primary with undoChain := s.primary.undoChain ++ [⟨true, data⟩] },
           standby := { s.standby with undoChain := s.standby.undoChain ++ [data] } } where
  nested := nested_append hs.nested _
  ordered := ordered_append hs.ordered data
  same := by simp [hs.same]
  saved := by
    intro svp hsvp v hv hne hname
    show (s.standby.undoChain ++ [data]).take v.pos
      = replicatedOf ((s.primary.undoChain ++ [Change.mk true data]).take svp.mUndoLSN)
    rw [List.take_append_of_le_length (hs.ordered.within v hv),
      List.take_append_of_le_length (hs.nested.within svp hsvp)]
    exact hs.saved svp hsvp v hv hne hname
  fresh := fun svp hsvp hnull => absurd hnull (hall svp hsvp)

/-- A record that is not replicated. -/
theorem sync_append_false {s : Pair α} (hs : Sync s) (data : α) :
    Sync { s with primary := s.primary.writeLog data } where
  nested := nested_append hs.nested _
  ordered := hs.ordered
  same := by
    rw [Primary.writeLog]
    simpa using hs.same
  saved := by
    intro svp hsvp v hv hne hname
    show _ = replicatedOf ((s.primary.undoChain ++ [Change.mk false data]).take svp.mUndoLSN)
    rw [List.take_append_of_le_length (hs.nested.within svp hsvp)]
    exact hs.saved svp hsvp v hv hne hname
  fresh := by
    intro svp hsvp hnull
    show replicatedOf ((s.primary.undoChain ++ [Change.mk false data]).take svp.mUndoLSN)
      = replicatedOf (s.primary.undoChain ++ [Change.mk false data])
    rw [List.take_append_of_le_length (hs.nested.within svp hsvp)]
    simpa using hs.fresh svp hsvp hnull

theorem getLstReplStmtDepth_mark {s : Savepoint} {prv : List Savepoint}
    (hs : s.mReplImpSvpStmtDepth = stmtDepthNull) :
    getLstReplStmtDepth (mark (s :: prv)) = lastDepth (s :: prv) + 1 := by
  simp [mark, unmarked, hs, getLstReplStmtDepth]

theorem sync_writeReplLog {s : Pair α} (hs : Sync s) (hne : s.primary.mImpSavepoint ≠ [])
    (data : α) : ∃ s', perform s (.log true data) = some s' ∧ Sync s' := by
  cases hl : s.primary.mImpSavepoint with
  | nil => exact absurd hl hne
  | cons svp prv =>
    by_cases hnull : svp.mReplImpSvpStmtDepth = stmtDepthNull
    · -- the first change under the savepoint: those not yet sent are marked
      have hsync := sync_mark hs
      rw [hl] at hsync
      have hsmall : lastDepth (svp :: prv) + 1 < 256 := by
        have hmem : ({ svp with mReplImpSvpStmtDepth := lastDepth (svp :: prv) + 1 } : Savepoint)
            ∈ mark (svp :: prv) := by
          simp [mark, unmarked, hnull]
        have hb := hsync.nested.bounds _ hmem
        simp only [stmtDepthMax] at hb
        omega
      refine ⟨_, ?_, sync_append_true hsync data ?_⟩
      · simp only [perform, Primary.act, Primary.writeReplLog, hl,
          checkAndSetImpSVP4Repl_eq hnull, getLstReplStmtDepth_mark hnull, Option.map_some,
          Option.bind_some, Standby.applyAll, List.foldlM_cons, List.foldlM_nil, Standby.apply,
          Nat.mod_eq_of_lt hsmall]
        rfl
      · intro t ht
        rcases mem_mark ht with ⟨u, -, rfl⟩ | hold
        · exact Nat.succ_ne_zero _
        · exact (marked_depths (hl ▸ hs.nested.order) hold).1
    · -- the savepoint is known to the standby already
      refine ⟨_, ?_, sync_append_true hs data ?_⟩
      · simp only [perform, Primary.act, Primary.writeReplLog, hl,
          checkAndSetImpSVP4Repl_of_marked hnull, Option.map_some, Option.bind_some,
          Standby.applyAll, List.foldlM_cons, List.foldlM_nil, Standby.apply]
        rfl
      · intro t ht
        have horder := hs.nested.order
        rw [hl] at ht horder
        rcases List.mem_cons.mp ht with rfl | hmem
        · exact hnull
        · rcases (List.pairwise_cons.mp horder).1 t hmem with h | h
          · exact absurd h hnull
          · exact h.1

/-! ## §7. A statement that fails, begins or ends. -/

/-- The standby finds the savepoint of the largest name in use, and no name in use
    is above it in the list. -/
theorem abortSavepoint_eq {l : List Savepoint} {q : Standby α} (hq : Ordered l q) {n : Nat}
    (hn : Live l n) (hmax : ∀ m, Live l m → m ≤ n) :
    ∃ v older, v ∈ q.savepoints ∧ v.name = n ∧ (v :: older).Sublist q.savepoints ∧
      (∀ w ∈ q.savepoints, Live l w.name → w ∈ v :: older) ∧
      q.abortSavepoint n
        = some { savepoints := v :: older, undoChain := q.undoChain.take v.pos } := by
  obtain ⟨w, hw, hwn⟩ := hq.known n hn
  have hsplit := List.takeWhile_append_dropWhile (p := (·.name ≠ n)) (l := q.savepoints)
  cases hd : q.savepoints.dropWhile (·.name ≠ n) with
  | nil =>
    have := List.dropWhile_eq_nil_iff.mp hd w hw
    simp [hwn] at this
  | cons v older =>
    have hv : v.name = n := by
      have := List.head?_dropWhile_not (fun x : NamedSvp => decide (x.name ≠ n)) q.savepoints
      rw [show q.savepoints.dropWhile _ = v :: older from hd] at this
      simpa using this
    have hsub : (v :: older).Sublist q.savepoints := by
      rw [← hd]
      exact List.dropWhile_sublist _
    refine ⟨v, older, hsub.subset (List.mem_cons_self ..), hv, hsub, ?_, ?_⟩
    · intro x hx hlive
      rw [hd] at hsplit
      rw [← hsplit] at hx
      rcases List.mem_append.mp hx with hnew | hold
      · -- a newer one in use would have a larger name
        have hnames := hq.names
        rw [← hsplit, List.pairwise_append] at hnames
        have hlt := hnames.2.2 x hnew v (List.mem_cons_self ..) hlive (hv ▸ hn)
        have hle := hmax x.name hlive
        omega
      · exact hold
    · rw [Standby.abortSavepoint, hd]

theorem sync_abortToImpSavepoint {s : Pair α} (hs : Sync s)
    (hne : s.primary.mImpSavepoint ≠ []) :
    ∃ s', perform s .abortStmt = some s' ∧ Sync s' := by
  cases hl : s.primary.mImpSavepoint with
  | nil => exact absurd hl hne
  | cons h prv =>
    have hmem : h ∈ s.primary.mImpSavepoint := by simp [hl]
    have hundo : ∀ svp ∈ s.primary.mImpSavepoint, svp.mUndoLSN ≤ h.mUndoLSN := by
      intro svp hsvp
      have hord := hs.nested.undo
      rw [hl] at hsvp hord
      rcases List.mem_cons.mp hsvp with rfl | hprv
      · exact Nat.le_refl _
      · exact (List.pairwise_cons.mp hord).1 svp hprv
    have htake : ∀ svp ∈ s.primary.mImpSavepoint,
        (s.primary.undoChain.take h.mUndoLSN).take svp.mUndoLSN
          = s.primary.undoChain.take svp.mUndoLSN := by
      intro svp hsvp
      rw [List.take_take, Nat.min_eq_left (hundo svp hsvp)]
    have hnested : Nested
        { s.primary with undoChain := s.primary.undoChain.take h.mUndoLSN } :=
      { hs.nested with
        within := by
          intro svp hsvp
          have h1 := hundo svp hsvp
          have h2 := hs.nested.within svp hsvp
          simp only [List.length_take]
          omega }
    by_cases hnull : h.mReplImpSvpStmtDepth = stmtDepthNull
    · -- nothing was replicated since the statement began, and nothing is sent
      have hfresh := hs.fresh h hmem hnull
      refine ⟨⟨{ s.primary with undoChain := s.primary.undoChain.take h.mUndoLSN }, s.standby⟩,
        ?_, ?_⟩
      · simp [perform, Primary.act, hl, Primary.abortToImpSavepoint, hnull, Standby.applyAll]
      · refine ⟨hnested, hs.ordered, hs.same.trans hfresh.symm, ?_, ?_⟩
        · intro svp hsvp v hv hd hname
          show _ = replicatedOf ((s.primary.undoChain.take h.mUndoLSN).take svp.mUndoLSN)
          rw [htake svp hsvp]
          exact hs.saved svp hsvp v hv hd hname
        · intro svp hsvp hd
          show replicatedOf ((s.primary.undoChain.take h.mUndoLSN).take svp.mUndoLSN) = _
          rw [htake svp hsvp, hs.fresh svp hsvp hd]
          exact hfresh.symm
    · have hlive : Live s.primary.mImpSavepoint h.mReplImpSvpStmtDepth := ⟨hnull, h, hmem, rfl⟩
      have houter : ∀ svp ∈ s.primary.mImpSavepoint,
          svp.mReplImpSvpStmtDepth ≠ stmtDepthNull ∧
            svp.mReplImpSvpStmtDepth ≤ h.mReplImpSvpStmtDepth := by
        intro svp hsvp
        have hord := hs.nested.order
        rw [hl] at hsvp hord
        rcases List.mem_cons.mp hsvp with rfl | hprv
        · exact ⟨hnull, Nat.le_refl _⟩
        · exact ((List.pairwise_cons.mp hord).1 svp hprv).resolve_left hnull
      have hmax : ∀ m, Live s.primary.mImpSavepoint m → m ≤ h.mReplImpSvpStmtDepth := by
        intro m ⟨_, svp, hsvp, hd⟩
        exact hd ▸ (houter svp hsvp).2
      obtain ⟨v, older, hv, hvn, hsub, hkept, habort⟩ := abortSavepoint_eq hs.ordered hlive hmax
      have hpos : ∀ w ∈ v :: older, w.pos ≤ v.pos := by
        intro w hw
        rcases List.mem_cons.mp hw with rfl | hold
        · exact Nat.le_refl _
        · exact (List.pairwise_cons.mp (hs.ordered.positions.sublist hsub)).1 w hold
      refine ⟨⟨{ s.primary with undoChain := s.primary.undoChain.take h.mUndoLSN },
        { savepoints := v :: older, undoChain := s.standby.undoChain.take v.pos }⟩, ?_, ?_⟩
      · simp [perform, Primary.act, hl, Primary.abortToImpSavepoint, hnull, Standby.applyAll,
          Standby.apply, habort]
      · refine ⟨hnested, ⟨hs.ordered.positions.sublist hsub, ?_, hs.ordered.names.sublist hsub, ?_⟩,
          hs.saved h hmem v hv hnull hvn, ?_, ?_⟩
        · intro w hw
          have h1 := hpos w hw
          have h2 := hs.ordered.within v hv
          simp only [List.length_take]
          omega
        · intro n hn
          obtain ⟨w, hw, hname⟩ := hs.ordered.known n hn
          exact ⟨w, hkept w hw (hname ▸ hn), hname⟩
        · intro svp hsvp w hw hd hname
          show (s.standby.undoChain.take v.pos).take w.pos
            = replicatedOf ((s.primary.undoChain.take h.mUndoLSN).take svp.mUndoLSN)
          rw [htake svp hsvp, List.take_take, Nat.min_eq_left (hpos w hw)]
          exact hs.saved svp hsvp w (hsub.subset hw) hd hname
        · intro svp hsvp hd
          exact absurd hd (houter svp hsvp).1

theorem sync_setImpSavepoint {s : Pair α} (hs : Sync s) {aStmtDepth : Nat}
    (hpos : 0 < aStmtDepth) (hmax : aStmtDepth ≤ stmtDepthMax)
    (hlast : ∀ svp ∈ s.primary.mImpSavepoint.head?, svp.mStmtDepth < aStmtDepth) :
    Sync { s with primary := s.primary.setImpSavepoint aStmtDepth } := by
  -- the new savepoint is the deepest
  have hbelow : ∀ svp ∈ s.primary.mImpSavepoint, svp.mStmtDepth < aStmtDepth := by
    intro svp hsvp
    cases hl : s.primary.mImpSavepoint with
    | nil => simp [hl] at hsvp
    | cons h prv =>
      have hdepths := hs.nested.depths
      rw [hl] at hsvp hdepths
      have hh := hlast h (by simp [hl])
      rcases List.mem_cons.mp hsvp with rfl | hprv
      · exact hh
      · exact ((List.pairwise_cons.mp hdepths).1 svp hprv).trans hh
  -- no replicated savepoint becomes live by it: its replication depth is not set yet
  have hlive : ∀ n, Live (s.primary.setImpSavepoint aStmtDepth).mImpSavepoint n →
      Live s.primary.mImpSavepoint n := by
    intro n ⟨hn, svp, hsvp, hd⟩
    rcases List.mem_cons.mp hsvp with rfl | hold
    · exact absurd hd.symm hn
    · exact ⟨hn, svp, hold, hd⟩
  refine ⟨⟨?_, ?_, ?_, ?_, ?_⟩, ⟨hs.ordered.positions, hs.ordered.within, ?_, ?_⟩,
    hs.same, ?_, ?_⟩
  · exact List.pairwise_cons.mpr ⟨hbelow, hs.nested.depths⟩
  · intro svp hsvp
    rcases List.mem_cons.mp hsvp with rfl | hold
    · exact ⟨hpos, hmax, Nat.zero_le _⟩
    · exact hs.nested.bounds svp hold
  · exact List.pairwise_cons.mpr ⟨fun _ _ => Or.inl rfl, hs.nested.order⟩
  · exact List.pairwise_cons.mpr ⟨hs.nested.within, hs.nested.undo⟩
  · intro svp hsvp
    rcases List.mem_cons.mp hsvp with rfl | hold
    · exact Nat.le_refl _
    · exact hs.nested.within svp hold
  · exact hs.ordered.names.imp fun h ha hb => h (hlive _ ha) (hlive _ hb)
  · exact fun n hn => hs.ordered.known n (hlive n hn)
  · intro svp hsvp v hv hd hname
    rcases List.mem_cons.mp hsvp with rfl | hold
    · exact absurd rfl hd
    · exact hs.saved svp hold v hv hd hname
  · intro svp hsvp hd
    rcases List.mem_cons.mp hsvp with rfl | hold
    · show replicatedOf (s.primary.undoChain.take s.primary.undoChain.length) = _
      rw [List.take_length]
      rfl
    · exact hs.fresh svp hold hd

theorem sync_unsetImpSavepoint {s : Pair α} (hs : Sync s) :
    Sync { s with primary :=
      { s.primary with mImpSavepoint := s.primary.mImpSavepoint.tail } } where
  nested := nested_tail hs.nested
  ordered := ordered_sublist hs.ordered fun _ h => List.mem_of_mem_tail h
  same := hs.same
  saved := fun svp hsvp => hs.saved svp (List.mem_of_mem_tail hsvp)
  fresh := fun svp hsvp => hs.fresh svp (List.mem_of_mem_tail hsvp)

/-! ## §8. Every run. -/

/-- **One step of both sides**: what the primary may do, it does without a failed
    assertion, the standby applies it, and both agree again. -/
theorem sync_perform {s : Pair α} (hs : Sync s) {a : Act α} (ha : allowed s a = true) :
    ∃ s', perform s a = some s' ∧ Sync s' := by
  cases a with
  | beginStmt aStmtDepth =>
    obtain ⟨hne, hmax, hlast⟩ := of_decide_eq_true ha
    exact ⟨_, rfl, sync_setImpSavepoint hs (Nat.pos_of_ne_zero hne) hmax hlast⟩
  | log replicated data =>
    cases replicated with
    | true => exact sync_writeReplLog hs (of_decide_eq_true ha) data
    | false => exact ⟨_, rfl, sync_append_false hs data⟩
  | abortStmt => exact sync_abortToImpSavepoint hs (of_decide_eq_true ha)
  | endStmt => exact ⟨_, rfl, sync_unsetImpSavepoint hs⟩

theorem sync_init : Sync (replication α).init where
  nested := ⟨List.Pairwise.nil, by simp [replication], List.Pairwise.nil, List.Pairwise.nil,
    by simp [replication]⟩
  ordered := by
    refine ⟨List.Pairwise.nil, by simp [replication], List.Pairwise.nil, ?_⟩
    intro n ⟨_, svp, hsvp, _⟩
    cases hsvp
  same := rfl
  saved := by simp [replication]
  fresh := by simp [replication]

theorem sync_reachable {s : Pair α} (hs : (replication α).Reachable s) : Sync s := by
  apply System.Path.invariant hs _ sync_init
  intro s a s' hsync _ hst
  have hst' : (if allowed s a then perform s a else none) = some s' := hst
  rw [Option.ite_none_right_eq_some] at hst'
  obtain ⟨t, ht, hsynct⟩ := sync_perform hsync hst'.1
  rw [ht, Option.some.injEq] at hst'
  exact hst'.2 ▸ hsynct

/-- **Partial rollback is replicated faithfully.**  After every run of nested
    statements the standby's changes are the replicated ones that survive on the
    primary, the depths form a prefix that never decreases, and whatever the
    primary may do next, the assertion in `setReplSavepoint` holds and the standby
    finds the savepoint it is told to roll back to. -/
theorem partial_rollback_replicated {s : Pair α} (hs : (replication α).Reachable s) :
    s.standby.undoChain = replicatedOf s.primary.undoChain ∧
      DepthsInOrder s.primary.mImpSavepoint ∧
      ∀ a, allowed s a = true → (perform s a).isSome := by
  have hsync := sync_reachable hs
  refine ⟨hsync.same, hsync.nested.order, ?_⟩
  intro a ha
  obtain ⟨t, ht, -⟩ := sync_perform hsync ha
  simp [ht]

/-- The example of the source: the inner statement of a statement replicates its
    first change, and the outer one fails. -/
def nestedFailure : List (Act Nat) :=
  [.beginStmt 1, .log false 1, .beginStmt 2, .beginStmt 3, .log true 2, .endStmt, .log true 3,
    .abortStmt, .endStmt, .log true 4]

theorem partial_rollback_replicated_nestedFailure :
    let s := (replication Nat).after nestedFailure (by decide)
    s.standby.undoChain = replicatedOf s.primary.undoChain ∧
      DepthsInOrder s.primary.mImpSavepoint ∧
      ∀ a, allowed s a = true → (perform s a).isSome :=
  partial_rollback_replicated (System.reachable_after _ nestedFailure (by decide))

end Altibase.Smx
