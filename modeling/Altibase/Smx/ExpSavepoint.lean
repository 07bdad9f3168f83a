/-
  Altibase.Smx.ExpSavepoint
  ─────────────────────────
  **SETTING AN EXPLICIT SAVEPOINT, AND FAILING TO** (`setExpSavepoint`).

  A savepoint of the same name is taken out of the list first; a new one is
  allocated, and under the internal DDL name it backs up table information.
  Then the savepoint is linked at the end with the current positions, and at
  last the log record is written.  The failure path only removes the table
  information that this call backed up.

  Main results:
    * `setExpSavepoint_restores_iff` — when a failed call leaves everything
      as it was;
    * `setExpSavepoint_live` — a call that succeeds leaves references to
      existing table information only;
    * `destroy_eq`, `cleanup_after_failure` — the cleanup at the end of the
      transaction, without and after a failed log record.
-/
import Mathlib.Data.List.Basic
import Mathlib.Data.List.Nodup
import Mathlib.Data.List.Perm.Basic

namespace Altibase.Smx

/-! ## §1. The explicit savepoints of a transaction. -/

/-- `SM_DDL_INFO_SAVEPOINT`. -/
def ddlInfoSavepoint : List Char := "$$DDL_INFO_SAVEPOINT$$".toList

/-- `SMX_MAX_SVPNAME_SIZE`. -/
def maxSvpNameSize : Nat := 256

/-- The positions a savepoint saves. -/
structure SavedPosition where
  mUndoLSN : Nat × Nat
  mVolatileLSN : Nat
  mOIDNode : Nat
  mOffset : Nat
  mLockSequence : Nat
  deriving Repr, DecidableEq

/-- `smxSavepoint`, as far as explicit savepoints use it.  A reference to table
    information is the address of it. -/
structure ExpSavepoint where
  mName : List Char
  pos : SavedPosition
  mDDLTargetTableInfo : Option Nat
  deriving Repr, DecidableEq

/-- **`smxSavepointMgr`**: the list of explicit savepoints, the last one first,
    and the addresses of all table information that is allocated. -/
structure SavepointMgr where
  mExpSavepoint : List ExpSavepoint
  mIsUsedPreparedSP : Bool
  mDDLInfoCount : UInt32
  infos : List Nat
  deriving Repr, DecidableEq

/-- `smrLogType` of a transaction. -/
inductive LogType where
  | normal
  | replicated
  | replRecovery
  deriving DecidableEq, Repr

/-- The arguments of `setExpSavepoint`; the positions are those of the
    transaction, `mOffset` the number of OIDs in the node `aOIDNode`. -/
structure SetArgs where
  aSavepointName : List Char
  aOldTableOID : Nat
  aNewTableOID : Nat
  position : SavedPosition
  mLogTypeFlag : LogType

/-- What the calls of other modules return: `mSvpPool.alloc`, the backup callback of
    the query processor (with or without table information, or failing), and
    `writeSetSvpLog`. -/
structure Outcome where
  alloc : Bool
  backup : Option (Option Nat)
  writeLog : Bool

/-- `findInExpSvpList` that removes: the last savepoint of the name, and the list
    without it. -/
def findInExpSvpList (aSavepointName : List Char) :
    List ExpSavepoint → Option (ExpSavepoint × List ExpSavepoint)
  | [] => none
  | sPrv :: l =>
      if sPrv.mName = aSavepointName then some (sPrv, l)
      else (findInExpSvpList aSavepointName l).map fun r => (r.1, sPrv :: r.2)

/-- `backupDDLTargetTableInfo`: nothing to back up unless exactly one table is
    given.  0 is `SM_OID_NULL`. -/
def backupDDLTargetTableInfo (a : SetArgs) (o : Outcome) : Option (Option Nat) :=
  if (a.aOldTableOID ≠ 0 ∧ a.aNewTableOID = 0) ∨ (a.aOldTableOID = 0 ∧ a.aNewTableOID ≠ 0) then
    o.backup
  else
    some none

/-- `snprintf( mName, …, "%s_%u", aSavepointName, mDDLInfoCount )`. -/
def ddlInfoName (aSavepointName : List Char) (count : UInt32) : List Char :=
  (aSavepointName ++ '_' :: Nat.toDigits 10 count.toNat).take (maxSvpNameSize - 1)

/-- The savepoint for a name that is not in the list, with the table information
    backed up for it; the other fields are still those of the allocated memory.
    `.error` is the failure path with nothing backed up. -/
def newSavepoint (m : SavepointMgr) (a : SetArgs) (o : Outcome) :
    Except SavepointMgr (SavepointMgr × ExpSavepoint × Option Nat) :=
  -- `alloc`: the prepared savepoint first, then the pool.
  if m.mIsUsedPreparedSP ∧ ¬ o.alloc then .error m
  else
    let m := { m with mIsUsedPreparedSP := true }
    if a.aSavepointName ≠ ddlInfoSavepoint then
      .ok (m, { mName := a.aSavepointName.take maxSvpNameSize, pos := a.position,
                mDDLTargetTableInfo := none }, none)
    else
      match backupDDLTargetTableInfo a o with
      | none => .error m
      | some sDDLTargetTableInfo =>
        let m := { m with infos := sDDLTargetTableInfo.toList ++ m.infos,
                          mDDLInfoCount := m.mDDLInfoCount + 1 }
        .ok (m, { mName := ddlInfoName a.aSavepointName m.mDDLInfoCount, pos := a.position,
                  mDDLTargetTableInfo := sDDLTargetTableInfo }, sDDLTargetTableInfo)

/-- The savepoint to link: the one of the name, taken out of the list, or a new
    one. -/
def findOrNew (m : SavepointMgr) (a : SetArgs) (o : Outcome) :
    Except SavepointMgr (SavepointMgr × ExpSavepoint × Option Nat) :=
  match findInExpSvpList a.aSavepointName m.mExpSavepoint with
  | some (sSavepoint, rest) => .ok ({ m with mExpSavepoint := rest }, sSavepoint, none)
  | none => newSavepoint m a o

/-- `addToSvpListTail`, and the positions written. -/
def link (m : SavepointMgr) (sSavepoint : ExpSavepoint) (position : SavedPosition) :
    SavepointMgr :=
  { m with mExpSavepoint := { sSavepoint with pos := position } :: m.mExpSavepoint }

/-- Whether a transaction of this type writes savepoint records. -/
def LogType.writes (t : LogType) : Bool := t = .normal ∨ t = .replRecovery

/-- The failure path: `removeDDLTargetTableInfo` for what the call backed up, and
    nothing else. -/
def removeBackup (m : SavepointMgr) : Option Nat → SavepointMgr
  | none => m
  | some info => { m with infos := m.infos.erase info }

/-- **`setExpSavepoint`**: whether it succeeds, and the manager afterwards. -/
def setExpSavepoint (m : SavepointMgr) (a : SetArgs) (o : Outcome) : Bool × SavepointMgr :=
  match findOrNew m a o with
  | .error m => (false, m)
  | .ok (m, sSavepoint, sDDLTargetTableInfo) =>
    let m := link m sSavepoint a.position
    if a.mLogTypeFlag.writes ∧ ¬ o.writeLog then
      (false, removeBackup m sDDLTargetTableInfo)
    else
      (true, m)

/-! ## §2. Rollback and the end of the transaction. -/

/-- The loop of `rollbackDDLTargetTableInfo`, from the last savepoint back: the table
    information is read and put in force again, up to the savepoint of the name.
    Reading what is not allocated is a fault. -/
def rollbackLoop (aSavepointName : Option (List Char)) (infos : List Nat) :
    List ExpSavepoint → UInt32 → Option (List ExpSavepoint × UInt32)
  | [], count => some ([], count)
  | s :: l, count =>
      match s.mDDLTargetTableInfo with
      | none =>
          if aSavepointName = some s.mName then some (s :: l, count)
          else (rollbackLoop aSavepointName infos l count).map fun r => (s :: r.1, r.2)
      | some info =>
          if info ∈ infos then
            let s := { s with mDDLTargetTableInfo := none }
            if aSavepointName = some s.mName then some (s :: l, count - 1)
            else (rollbackLoop aSavepointName infos l (count - 1)).map fun r => (s :: r.1, r.2)
          else none

/-- `rollbackDDLTargetTableInfo`; without a name it is the abort of the transaction. -/
def rollbackDDLTargetTableInfo (m : SavepointMgr) (aSavepointName : Option (List Char)) :
    Option SavepointMgr :=
  if m.mDDLInfoCount > 0 then
    (rollbackLoop aSavepointName m.infos m.mExpSavepoint m.mDDLInfoCount).map fun r =>
      { m with mExpSavepoint := r.1, mDDLInfoCount := r.2 }
  else some m

/-- `removeDDLTargetTableInfo`; using what is not allocated is a fault. -/
def removeInfo (infos : List Nat) (info : Nat) : Option (List Nat) :=
  if info ∈ infos then some (infos.erase info) else none

/-- The loop of `destroy` over the savepoints, the oldest one first; the memory of the
    savepoints goes back to the pool. -/
def destroyLoop : List ExpSavepoint → List Nat → UInt32 → Option (List Nat × UInt32)
  | [], infos, count => some (infos, count)
  | s :: l, infos, count =>
      match s.mDDLTargetTableInfo with
      | none => destroyLoop l infos count
      | some info => (removeInfo infos info).bind fun infos => destroyLoop l infos (count - 1)

/-- `destroy`. -/
def destroy (m : SavepointMgr) : Option (List Nat × UInt32) :=
  destroyLoop m.mExpSavepoint.reverse m.infos m.mDDLInfoCount

/-! ## §3. One call. -/

section Calls

variable {m m' : SavepointMgr} {a : SetArgs} {o : Outcome} {s : ExpSavepoint}
  {info : Option Nat}

theorem findInExpSvpList_eq_none {name : List Char} {l : List ExpSavepoint} :
    findInExpSvpList name l = none ↔ ∀ s ∈ l, s.mName ≠ name := by
  induction l with
  | nil => simp [findInExpSvpList]
  | cons t l ih =>
    unfold findInExpSvpList
    by_cases ht : t.mName = name
    · rw [if_pos ht]
      simp [ht]
    · rw [if_neg ht]
      simp [ht, ih]

/-- What is found is the last savepoint of the name; the others stay in order. -/
theorem findInExpSvpList_eq_some {name : List Char} {l rest : List ExpSavepoint}
    (h : findInExpSvpList name l = some (s, rest)) :
    ∃ later older, l = later ++ s :: older ∧ rest = later ++ older ∧ s.mName = name ∧
      ∀ t ∈ later, t.mName ≠ name := by
  induction l generalizing rest with
  | nil => exact absurd h (by simp [findInExpSvpList])
  | cons t l ih =>
    unfold findInExpSvpList at h
    by_cases ht : t.mName = name
    · rw [if_pos ht] at h
      obtain ⟨rfl, rfl⟩ := Prod.mk.inj (Option.some.inj h)
      exact ⟨[], l, rfl, rfl, ht, fun _ hmem => absurd hmem List.not_mem_nil⟩
    · rw [if_neg ht] at h
      obtain ⟨⟨s', rest'⟩, hfind, heq⟩ := Option.map_eq_some_iff.mp h
      obtain ⟨rfl, rfl⟩ := Prod.mk.inj heq
      obtain ⟨later, older, rfl, rfl, hs, hlater⟩ := ih hfind
      refine ⟨t :: later, older, rfl, rfl, hs, ?_⟩
      intro u hu
      rcases List.mem_cons.mp hu with rfl | hmem
      · exact ht
      · exact hlater u hmem

/-- **A call that fails before it links a savepoint**: no savepoint has the name, and
    either the pool or the backup fails. -/
def FailsEarly (m : SavepointMgr) (a : SetArgs) (o : Outcome) : Prop :=
  (∀ s ∈ m.mExpSavepoint, s.mName ≠ a.aSavepointName) ∧
    ((m.mIsUsedPreparedSP = true ∧ o.alloc = false) ∨
      (a.aSavepointName = ddlInfoSavepoint ∧ backupDDLTargetTableInfo a o = none))

/-- The call would set the last savepoint where it is. -/
def SetsInPlace (m : SavepointMgr) (a : SetArgs) : Prop :=
  ∃ s older, m.mExpSavepoint = s :: older ∧ s.mName = a.aSavepointName ∧ s.pos = a.position

/-- Failing to make a savepoint leaves list, count and table information alone. -/
theorem newSavepoint_error (h : newSavepoint m a o = .error m') :
    ((m.mIsUsedPreparedSP = true ∧ o.alloc = false) ∨
      (a.aSavepointName = ddlInfoSavepoint ∧ backupDDLTargetTableInfo a o = none)) ∧
    m'.mExpSavepoint = m.mExpSavepoint ∧ m'.mDDLInfoCount = m.mDDLInfoCount ∧
    m'.infos = m.infos := by
  unfold newSavepoint at h
  by_cases halloc : m.mIsUsedPreparedSP ∧ ¬ o.alloc
  · rw [if_pos halloc] at h
    obtain rfl := Except.error.inj h
    exact ⟨Or.inl ⟨halloc.1, Bool.eq_false_iff.mpr halloc.2⟩, rfl, rfl, rfl⟩
  · rw [if_neg halloc] at h
    by_cases hname : a.aSavepointName ≠ ddlInfoSavepoint
    · rw [if_pos hname] at h
      exact absurd h (by simp)
    · rw [if_neg hname] at h
      cases hb : backupDDLTargetTableInfo a o with
      | none =>
        rw [hb] at h
        obtain rfl := Except.error.inj h
        exact ⟨Or.inr ⟨not_not.mp hname, rfl⟩, rfl, rfl, rfl⟩
      | some info =>
        rw [hb] at h
        exact absurd h (by simp)

/-- A new savepoint refers to the table information backed up for it. -/
theorem newSavepoint_ok (h : newSavepoint m a o = .ok (m', s, info)) :
    m'.mExpSavepoint = m.mExpSavepoint ∧ m'.infos = info.toList ++ m.infos ∧
    s.mDDLTargetTableInfo = info ∧ (∀ i, info = some i → o.backup = some (some i)) := by
  unfold newSavepoint at h
  by_cases halloc : m.mIsUsedPreparedSP ∧ ¬ o.alloc
  · rw [if_pos halloc] at h
    exact absurd h (by simp)
  · rw [if_neg halloc] at h
    by_cases hname : a.aSavepointName ≠ ddlInfoSavepoint
    · rw [if_pos hname] at h
      obtain ⟨rfl, rfl, rfl⟩ := by simpa using h
      exact ⟨rfl, rfl, rfl, fun i hi => absurd hi (by simp)⟩
    · rw [if_neg hname] at h
      cases hb : backupDDLTargetTableInfo a o with
      | none =>
        rw [hb] at h
        exact absurd h (by simp)
      | some got =>
        rw [hb] at h
        obtain ⟨rfl, rfl, rfl⟩ := by simpa using h
        refine ⟨rfl, rfl, rfl, ?_⟩
        intro i hi
        unfold backupDDLTargetTableInfo at hb
        split_ifs at hb
        · rw [hb, hi]
        · rw [← Option.some.inj hb] at hi
          exact absurd hi (by simp)

/-- The savepoint to link, by cases on the search. -/
theorem findOrNew_cases (m : SavepointMgr) (a : SetArgs) (o : Outcome) :
    (∃ s later older, m.mExpSavepoint = later ++ s :: older ∧ s.mName = a.aSavepointName ∧
      (∀ t ∈ later, t.mName ≠ a.aSavepointName) ∧
      findOrNew m a o = .ok ({ m with mExpSavepoint := later ++ older }, s, none)) ∨
    ((∀ s ∈ m.mExpSavepoint, s.mName ≠ a.aSavepointName) ∧
      findOrNew m a o = newSavepoint m a o) := by
  unfold findOrNew
  cases hfind : findInExpSvpList a.aSavepointName m.mExpSavepoint with
  | none => exact Or.inr ⟨findInExpSvpList_eq_none.mp hfind, rfl⟩
  | some r =>
    obtain ⟨later, older, hl, hr, hs, hlater⟩ := findInExpSvpList_eq_some hfind
    refine Or.inl ⟨r.1, later, older, hl, hs, hlater, ?_⟩
    rw [← hr]

@[simp] theorem removeBackup_list (m : SavepointMgr) (info : Option Nat) :
    (removeBackup m info).mExpSavepoint = m.mExpSavepoint := by
  cases info <;> rfl

@[simp] theorem removeBackup_count (m : SavepointMgr) (info : Option Nat) :
    (removeBackup m info).mDDLInfoCount = m.mDDLInfoCount := by
  cases info <;> rfl

/-- What a call does once the savepoint is there. -/
theorem setExpSavepoint_of_ok (h : findOrNew m a o = .ok (m', s, info)) :
    setExpSavepoint m a o
      = if a.mLogTypeFlag.writes ∧ ¬ o.writeLog then
          (false, removeBackup (link m' s a.position) info)
        else (true, link m' s a.position) := by
  unfold setExpSavepoint
  rw [h]

/-- A call that fails after that failed to write the record. -/
theorem setExpSavepoint_log_fails (h : findOrNew m a o = .ok (m', s, info))
    (hfail : (setExpSavepoint m a o).1 = false) :
    (setExpSavepoint m a o).2 = removeBackup (link m' s a.position) info := by
  rw [setExpSavepoint_of_ok h] at hfail ⊢
  split_ifs at hfail ⊢
  rfl

theorem setExpSavepoint_of_error (h : findOrNew m a o = .error m') :
    setExpSavepoint m a o = (false, m') := by
  unfold setExpSavepoint
  rw [h]

/-- **A failed call has left everything as it was**: the savepoints with their names,
    positions and references in the same order, the count, and all table information
    they refer to. -/
structure Restored (m m' : SavepointMgr) : Prop where
  list : m'.mExpSavepoint = m.mExpSavepoint
  count : m'.mDDLInfoCount = m.mDDLInfoCount
  infos : ∀ s ∈ m'.mExpSavepoint, ∀ i, s.mDDLTargetTableInfo = some i → i ∈ m.infos →
    i ∈ m'.infos

/-- **When a failed call restores everything**: exactly if it failed before it linked a
    savepoint, or would have set the last savepoint where it is. -/
theorem setExpSavepoint_restores_iff (hfail : (setExpSavepoint m a o).1 = false) :
    Restored m (setExpSavepoint m a o).2 ↔ FailsEarly m a o ∨ SetsInPlace m a := by
  rcases findOrNew_cases m a o with ⟨s, later, older, hl, hs, hlater, hfind⟩ | ⟨hnone, hfind⟩
  · -- A savepoint of the name: it was moved to the end, with the new positions.
    rw [setExpSavepoint_log_fails hfind hfail]
    constructor
    · intro hr
      have heq : { s with pos := a.position } :: (later ++ older) = later ++ s :: older :=
        hr.list.trans hl
      right
      cases later with
      | nil =>
        obtain ⟨hhead, -⟩ := List.cons.inj heq
        exact ⟨s, older, hl, hs, (congrArg ExpSavepoint.pos hhead).symm⟩
      | cons t later =>
        obtain ⟨hhead, -⟩ := List.cons.inj heq
        have ht : s.mName = t.mName := by rw [← hhead]
        exact absurd (ht.symm.trans hs) (hlater t List.mem_cons_self)
    · intro hcond
      rcases hcond with ⟨hno, -⟩ | ⟨u, tail, hu, hname, hpos⟩
      · have hmem : s ∈ m.mExpSavepoint := hl ▸ List.mem_append_right _ List.mem_cons_self
        exact absurd hs (hno s hmem)
      · have hsame : later = [] ∧ s = u ∧ older = tail := by
          cases later with
          | nil =>
            obtain ⟨h1, h2⟩ := List.cons.inj (hl.symm.trans hu)
            exact ⟨rfl, h1, h2⟩
          | cons t later =>
            obtain ⟨h1, -⟩ := List.cons.inj (hl.symm.trans hu)
            exact absurd (h1 ▸ hname) (hlater t List.mem_cons_self)
        obtain ⟨rfl, rfl, rfl⟩ := hsame
        have hback : ({ s with pos := a.position } : ExpSavepoint) = s := by rw [← hpos]
        constructor
        · show { s with pos := a.position } :: ([] ++ older) = m.mExpSavepoint
          rw [hback, hl]
          rfl
        · rfl
        · intro t _ i _ hi
          exact hi
  · cases hnew : newSavepoint m a o with
    | error m' =>
      obtain ⟨hearly, hlist, hcount, hinfos⟩ := newSavepoint_error hnew
      rw [setExpSavepoint_of_error (hfind.trans hnew)]
      constructor
      · intro _
        exact Or.inl ⟨hnone, hearly⟩
      · intro _
        refine ⟨hlist, hcount, ?_⟩
        intro t _ i _ hi
        rw [hinfos]
        exact hi
    | ok r =>
      -- A new savepoint was linked, and the list is longer.
      obtain ⟨m', s, info⟩ := r
      rw [setExpSavepoint_log_fails (hfind.trans hnew) hfail]
      obtain ⟨hkeep, -, -, -⟩ := newSavepoint_ok hnew
      constructor
      · intro hr
        have hlen := congrArg List.length hr.list
        rw [removeBackup_list] at hlen
        have hcons : (link m' s a.position).mExpSavepoint.length = m'.mExpSavepoint.length + 1 :=
          List.length_cons
        rw [hcons, hkeep] at hlen
        omega
      · intro hcond
        rcases hcond with ⟨-, hearly⟩ | ⟨u, tail, hu, hname, -⟩
        · exfalso
          unfold newSavepoint at hnew
          rcases hearly with ⟨h1, h2⟩ | ⟨h1, h2⟩
          · rw [if_pos ⟨h1, by simp [h2]⟩] at hnew
            exact absurd hnew (by simp)
          · rw [h2] at hnew
            split_ifs at hnew
            · exact absurd h1 (by assumption)
        · exact absurd hname (hnone u (hu ▸ List.mem_cons_self))

end Calls

/-! ## §4. What later calls find. -/

/-- The table information that savepoints refer to. -/
def references (l : List ExpSavepoint) : List Nat := l.filterMap (·.mDDLTargetTableInfo)

/-- **Every reference is to table information of its own that is allocated.** -/
structure SavepointMgr.Live (m : SavepointMgr) : Prop where
  nodup : (references m.mExpSavepoint).Nodup
  allocated : ∀ i ∈ references m.mExpSavepoint, i ∈ m.infos

section Later

variable {m : SavepointMgr} {a : SetArgs} {o : Outcome}

theorem references_cons (s : ExpSavepoint) (l : List ExpSavepoint) :
    references (s :: l) = s.mDDLTargetTableInfo.toList ++ references l := by
  unfold references
  cases h : s.mDDLTargetTableInfo with
  | none => rw [List.filterMap_cons_none h]; rfl
  | some i => rw [List.filterMap_cons_some h]; rfl

theorem references_append (l l' : List ExpSavepoint) :
    references (l ++ l') = references l ++ references l' := List.filterMap_append

/-- **A call that succeeds keeps the references live**, when the backup returns memory
    that was not in use. -/
theorem setExpSavepoint_live (hlive : m.Live) (hfresh : ∀ i, o.backup = some (some i) → i ∉ m.infos)
    (hok : (setExpSavepoint m a o).1 = true) : (setExpSavepoint m a o).2.Live := by
  rcases findOrNew_cases m a o with ⟨s, later, older, hl, -, -, hfind⟩ | ⟨-, hfind⟩
  · rw [setExpSavepoint_of_ok hfind] at hok ⊢
    split_ifs at hok ⊢
    -- The savepoint has moved: the same references in another order.
    have hperm : (references ({ s with pos := a.position } :: (later ++ older))).Perm
        (references m.mExpSavepoint) := by
      rw [hl, references_cons, references_append, references_append, references_cons,
        ← List.append_assoc, ← List.append_assoc]
      exact List.perm_append_comm.append_right _
    exact ⟨hperm.nodup_iff.mpr hlive.nodup, fun i hi => hlive.allocated i (hperm.mem_iff.mp hi)⟩
  · cases hnew : newSavepoint m a o with
    | error m' =>
      rw [setExpSavepoint_of_error (hfind.trans hnew)] at hok
      exact absurd hok Bool.false_ne_true
    | ok r =>
      obtain ⟨m', s, info⟩ := r
      obtain ⟨hkeep, hinfos, hs, hgot⟩ := newSavepoint_ok hnew
      rw [setExpSavepoint_of_ok (hfind.trans hnew)] at hok ⊢
      split_ifs at hok ⊢
      have hrefs : references (link m' s a.position).mExpSavepoint
          = info.toList ++ references m.mExpSavepoint := by
        show references ({ s with pos := a.position } :: m'.mExpSavepoint) = _
        rw [references_cons, hkeep, hs]
      have hall : (link m' s a.position).infos = info.toList ++ m.infos := hinfos
      constructor
      · rw [hrefs]
        cases info with
        | none => exact hlive.nodup
        | some i =>
          refine List.nodup_cons.mpr ⟨?_, hlive.nodup⟩
          exact fun hi => hfresh i (hgot i rfl) (hlive.allocated i hi)
      · intro i hi
        rw [hrefs] at hi
        rw [hall]
        rcases List.mem_append.mp hi with hnew | hold
        · exact List.mem_append_left _ hnew
        · exact List.mem_append_right _ (hlive.allocated i hold)

theorem destroyLoop_cons (s : ExpSavepoint) (l : List ExpSavepoint) (infos : List Nat)
    (count : UInt32) : destroyLoop (s :: l) infos count
      = match s.mDDLTargetTableInfo with
        | none => destroyLoop l infos count
        | some info =>
          (removeInfo infos info).bind fun infos => destroyLoop l infos (count - 1) := rfl

/-- The loop of `destroy` removes what the savepoints refer to, once each. -/
theorem destroyLoop_eq (l : List ExpSavepoint) : ∀ (infos : List Nat) (count : UInt32),
    (references l).Nodup → (∀ i ∈ references l, i ∈ infos) →
    ∃ count', destroyLoop l infos count = some ((references l).foldl List.erase infos, count') := by
  induction l with
  | nil =>
    intro infos count _ _
    exact ⟨count, rfl⟩
  | cons s l ih =>
    intro infos count hnd hin
    rw [references_cons] at hnd hin ⊢
    rw [destroyLoop_cons]
    cases hs : s.mDDLTargetTableInfo with
    | none =>
      rw [hs] at hnd hin
      exact ih infos count hnd hin
    | some i =>
      rw [hs] at hnd hin
      obtain ⟨hi, hnd'⟩ := List.nodup_cons.mp hnd
      have hmem : i ∈ infos := hin i List.mem_cons_self
      have hrest : ∀ j ∈ references l, j ∈ infos.erase i := by
        intro j hj
        have hne : j ≠ i := fun e => hi (e ▸ hj)
        exact (List.mem_erase_of_ne hne).mpr (hin j (List.mem_cons_of_mem i hj))
      obtain ⟨count', hrun⟩ := ih (infos.erase i) (count - 1) hnd' hrest
      refine ⟨count', ?_⟩
      show (removeInfo infos i).bind _ = _
      rw [removeInfo, if_pos hmem]
      exact hrun

theorem destroyLoop_append (l l' : List ExpSavepoint) : ∀ (infos : List Nat) (count : UInt32),
    destroyLoop (l ++ l') infos count
      = (destroyLoop l infos count).bind fun r => destroyLoop l' r.1 r.2 := by
  induction l with
  | nil =>
    intro infos count
    rfl
  | cons s l ih =>
    intro infos count
    rw [List.cons_append, destroyLoop_cons, destroyLoop_cons]
    cases s.mDDLTargetTableInfo with
    | none => exact ih infos count
    | some i =>
      show (removeInfo infos i).bind _ = ((removeInfo infos i).bind _).bind _
      cases removeInfo infos i with
      | none => rfl
      | some infos' => exact ih infos' (count - 1)

theorem references_reverse_perm (l : List ExpSavepoint) :
    (references l.reverse).Perm (references l) :=
  (List.reverse_perm l).filterMap _

/-- **The cleanup works on live references.** -/
theorem destroy_eq (hlive : m.Live) : ∃ count', destroy m
    = some ((references m.mExpSavepoint.reverse).foldl List.erase m.infos, count') := by
  have hperm := references_reverse_perm m.mExpSavepoint
  exact destroyLoop_eq _ _ _ (hperm.nodup_iff.mpr hlive.nodup)
    fun i hi => hlive.allocated i (hperm.mem_iff.mp hi)

/-- **After a failed record of the DDL savepoint the cleanup uses what has been
    removed**, and so does every rollback (unless the count has wrapped to 0). -/
theorem cleanup_after_failure (hlive : m.Live) {i : Nat}
    (hnone : ∀ s ∈ m.mExpSavepoint, s.mName ≠ ddlInfoSavepoint)
    (hname : a.aSavepointName = ddlInfoSavepoint)
    (halloc : o.alloc = true) (hbackup : backupDDLTargetTableInfo a o = some (some i))
    (hfresh : i ∉ m.infos) (hlog : a.mLogTypeFlag.writes = true ∧ o.writeLog = false) :
    (setExpSavepoint m a o).1 = false ∧ destroy (setExpSavepoint m a o).2 = none ∧
      ∀ name, (setExpSavepoint m a o).2.mDDLInfoCount > 0 →
        rollbackDDLTargetTableInfo (setExpSavepoint m a o).2 name = none := by
  have hfind : findOrNew m a o = newSavepoint m a o := by
    rcases findOrNew_cases m a o with ⟨s, later, older, hl, hs, -, -⟩ | ⟨-, hfind⟩
    · have hmem : s ∈ m.mExpSavepoint := hl ▸ List.mem_append_right _ List.mem_cons_self
      exact absurd (hs.trans hname) (hnone s hmem)
    · exact hfind
  obtain ⟨m', s, hnew⟩ : ∃ m' s, newSavepoint m a o = .ok (m', s, some i) := by
    unfold newSavepoint
    rw [if_neg (by simp [halloc]), if_neg (by simp [hname]), hbackup]
    exact ⟨_, _, rfl⟩
  obtain ⟨hkeep, hinfos, hs, -⟩ := newSavepoint_ok hnew
  rw [setExpSavepoint_of_ok (hfind.trans hnew), if_pos ⟨hlog.1, by simp [hlog.2]⟩]
  have hback : (link m' s a.position).infos.erase i = m.infos := by
    show m'.infos.erase i = m.infos
    rw [hinfos]
    exact List.erase_cons_head i m.infos
  have href : ({ s with pos := a.position } : ExpSavepoint).mDDLTargetTableInfo = some i := hs
  refine ⟨rfl, ?_, ?_⟩
  rotate_left
  · -- The last savepoint comes first and refers to `i`.
    intro name hcount
    have hrest : rollbackLoop name m.infos ({ s with pos := a.position } :: m'.mExpSavepoint)
        (link m' s a.position).mDDLInfoCount = none := by
      unfold rollbackLoop
      rw [href]
      exact if_neg hfresh
    have hcount' : (link m' s a.position).mDDLInfoCount > 0 := hcount
    show rollbackDDLTargetTableInfo { link m' s a.position with
      infos := (link m' s a.position).infos.erase i } name = none
    rw [hback, rollbackDDLTargetTableInfo, if_pos hcount']
    show (rollbackLoop name m.infos ({ s with pos := a.position } :: m'.mExpSavepoint)
      (link m' s a.position).mDDLInfoCount).map _ = none
    rw [hrest]
    rfl
  show destroyLoop ({ s with pos := a.position } :: m'.mExpSavepoint).reverse
    ((link m' s a.position).infos.erase i) _ = none
  rw [hback, hkeep, List.reverse_cons, destroyLoop_append]
  -- The older savepoints are cleaned up; the last one refers to `i`.
  have hperm := references_reverse_perm m.mExpSavepoint
  obtain ⟨count', hrun⟩ := destroyLoop_eq m.mExpSavepoint.reverse m.infos
    (link m' s a.position).mDDLInfoCount (hperm.nodup_iff.mpr hlive.nodup)
    fun j hj => hlive.allocated j (hperm.mem_iff.mp hj)
  have hgone : i ∉ (references m.mExpSavepoint.reverse).foldl List.erase m.infos := by
    have hsub : ∀ (l infos : List Nat), l.foldl List.erase infos ⊆ infos := by
      intro l
      induction l with
      | nil => exact fun infos => List.Subset.refl infos
      | cons j l ih => exact fun infos => List.Subset.trans (ih (infos.erase j)) List.erase_subset
    exact fun hi => hfresh (hsub _ _ hi)
  show (destroyLoop m.mExpSavepoint.reverse m.infos (link m' s a.position).mDDLInfoCount).bind _
    = none
  rw [hrun]
  show destroyLoop [{ s with pos := a.position }] _ _ = none
  rw [destroyLoop_cons, href]
  show (removeInfo _ i).bind _ = none
  rw [removeInfo, if_neg hgone]
  rfl

end Later

/-! ## §5. A lost savepoint. -/

/-- Position `n` of a transaction. -/
def positionAt (n : Nat) : SavedPosition := ⟨(0, n), 0, 0, 0, n⟩

/-- Savepoints `A` at 1 and `B` at 2. -/
def twoSavepoints : SavepointMgr :=
  ⟨[⟨['B'], positionAt 2, none⟩, ⟨['A'], positionAt 1, none⟩], true, 0, []⟩

/-- `A` is set again at 3. -/
def setA : SetArgs := ⟨['A'], 0, 0, positionAt 3, .normal⟩

/-- The log record cannot be written. -/
def logFails : Outcome := ⟨true, some none, false⟩

/-- **Setting `A` again fails, and the older `A` is lost**: the list has `A` behind `B`,
    at the position of the failed call. -/
theorem setExpSavepoint_loses : (setExpSavepoint twoSavepoints setA logFails).1 = false ∧
    (setExpSavepoint twoSavepoints setA logFails).2.mExpSavepoint
      = [⟨['A'], positionAt 3, none⟩, ⟨['B'], positionAt 2, none⟩] ∧
    ¬ Restored twoSavepoints (setExpSavepoint twoSavepoints setA logFails).2 := by
  refine ⟨by decide, by decide, ?_⟩
  intro hr
  exact absurd hr.list (by decide)

/-- The condition at work: `B` is the last savepoint but was set elsewhere. -/
theorem setExpSavepoint_restores_iff_two :
    Restored twoSavepoints (setExpSavepoint twoSavepoints setA logFails).2 ↔
      FailsEarly twoSavepoints setA logFails ∨ SetsInPlace twoSavepoints setA :=
  setExpSavepoint_restores_iff (by decide)

end Altibase.Smx
