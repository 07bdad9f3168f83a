/-
  Altibase.Rpr.SNMap
  ──────────────────
  **THE SN MAP OF A REPLICATION RECEIVER AND ITS RECOVERY POINT.**

  `rprSNMapMgr` records one entry for every replicated transaction: the begin
  and commit SN it had on the master, and the ones its replay got here.  From
  the local flush SN, `getLocalFlushedRemoteSN` computes the master SN up to
  which everything is on the local disk, and drops the entries that are on both
  disks.

  The scan keeps one property of the SN it carries, `Covered`: no entry still
  ahead of it has its master commit at or below that SN without its replay
  being flushed.  The order in which transactions are applied carries it past a
  finished entry and to the begin SN of a half flushed one.

  Main results:
    * `scan_covered`, `scan_removed` — what one scan returns and what it drops;
    * `localFlushedRemoteSN_safe` — the same in every reachable map.
-/
import Mathlib.Order.Fin.Basic
import Altibase.Lib.System
import Mathlib.Algebra.GroupWithZero.Nat

namespace Altibase.Rpr

open Altibase.Lib

/-! ## §1. Log sequence numbers and entries. -/

/-- `smSN`, a 64-bit log sequence number. -/
abbrev SmSN := Fin (2 ^ 64)

instance smSN_neZero : NeZero (2 ^ 64 : Nat) := ⟨by decide⟩

/-- `SM_SN_NULL`, the largest value: above every SN a log record can have. -/
def smSNNull : SmSN := Fin.last _

theorem lt_null_of_ne {sn : SmSN} (h : sn ≠ smSNNull) : sn < smSNNull :=
  lt_of_le_of_ne (Fin.le_last sn) h

/-- `rprSNMapEntry`.  `mNode` is its list node, by which the receiver's
    transaction table refers to it. -/
structure SNMapEntry where
  mNode : Nat
  mMasterBeginSN : SmSN
  mMasterCommitSN : SmSN
  mReplicatedBeginSN : SmSN
  mReplicatedCommitSN : SmSN
  deriving Repr, DecidableEq

/-- The entry of a transaction that has not been committed here. -/
def SNMapEntry.Unfinished (e : SNMapEntry) : Prop :=
  e.mMasterCommitSN = smSNNull ∧ e.mReplicatedBeginSN = smSNNull ∧
    e.mReplicatedCommitSN = smSNNull

/-- The entry of a committed transaction: it has a commit SN on the master, where
    it began before that. -/
def SNMapEntry.Finished (e : SNMapEntry) : Prop :=
  e.mMasterCommitSN ≠ smSNNull ∧ e.mMasterBeginSN < e.mMasterCommitSN

instance (e : SNMapEntry) : Decidable e.Unfinished :=
  inferInstanceAs (Decidable (_ ∧ _ ∧ _))

instance (e : SNMapEntry) : Decidable e.Finished :=
  inferInstanceAs (Decidable (_ ∧ _))

/-! ## §2. The operations. -/

/-- `insertNewTx`: the new entry goes to the end of the list. -/
def insertNewTx (mSNMap : List SNMapEntry) (node : Nat) (aMasterBeginSN : SmSN) :
    List SNMapEntry :=
  mSNMap ++ [{ mNode := node, mMasterBeginSN := aMasterBeginSN, mMasterCommitSN := smSNNull,
               mReplicatedBeginSN := smSNNull, mReplicatedCommitSN := smSNNull }]

/-- `setSNs`, on the entry itself. -/
def SNMapEntry.setSNs (e : SNMapEntry) (aMasterCommitSN aReplicatedBeginSN
    aReplicatedCommitSN : SmSN) : SNMapEntry :=
  { e with mMasterCommitSN := aMasterCommitSN, mReplicatedBeginSN := aReplicatedBeginSN,
           mReplicatedCommitSN := aReplicatedCommitSN }

/-- `setSNs`, seen from the list the entry is in. -/
def setSNs (mSNMap : List SNMapEntry) (node : Nat) (aMasterCommitSN aReplicatedBeginSN
    aReplicatedCommitSN : SmSN) : List SNMapEntry :=
  mSNMap.map fun e => if e.mNode = node
    then e.setSNs aMasterCommitSN aReplicatedBeginSN aReplicatedCommitSN else e

/-- `deleteTxByEntry`. -/
def deleteTxByEntry (mSNMap : List SNMapEntry) (node : Nat) : List SNMapEntry :=
  mSNMap.filter fun e => e.mNode ≠ node

/-- What one call of `getLocalFlushedRemoteSN` leaves: the SN it returns, the
    entries it keeps and the ones it removes. -/
structure Scan where
  sLFRSN : SmSN
  kept : List SNMapEntry
  removed : List SNMapEntry
  deriving Repr, DecidableEq

/-- The removal test of the loop body. -/
def flushedOnBoth (aLocalFlushSN aRemoteFlushSN : SmSN) (e : SNMapEntry) : Bool :=
  aRemoteFlushSN ≠ smSNNull ∧ aRemoteFlushSN ≥ e.mMasterCommitSN ∧
    aLocalFlushSN ≥ e.mReplicatedCommitSN

/-- The loop of `getLocalFlushedRemoteSN` from the entry it has reached on, with
    the value of `sLFRSN` there. -/
def scan (aLocalFlushSN aRemoteFlushSN : SmSN) : SmSN → List SNMapEntry → Scan
  | sLFRSN, [] => ⟨sLFRSN, [], []⟩
  | sLFRSN, e :: es =>
      if aLocalFlushSN < e.mReplicatedBeginSN then
        ⟨sLFRSN, e :: es, []⟩
      else if aLocalFlushSN < e.mReplicatedCommitSN then
        ⟨e.mMasterBeginSN, e :: es, []⟩
      else
        let rest := scan aLocalFlushSN aRemoteFlushSN e.mMasterCommitSN es
        if flushedOnBoth aLocalFlushSN aRemoteFlushSN e then
          { rest with removed := e :: rest.removed }
        else
          { rest with kept := e :: rest.kept }

/-- `getLocalFlushedRemoteSN`. -/
def getLocalFlushedRemoteSN (mSNMap : List SNMapEntry)
    (aLocalFlushSN aRemoteFlushSN aRestartSN : SmSN) : Scan :=
  if aLocalFlushSN ≠ smSNNull then
    match mSNMap with
    | [] => ⟨aRestartSN, [], []⟩
    | e :: es => scan aLocalFlushSN aRemoteFlushSN smSNNull (e :: es)
  else
    ⟨smSNNull, mSNMap, []⟩

/-! ## §3. The receiver's runs. -/

/-- An entry that a scan removed, with the flush SNs of that call. -/
structure Purged where
  entry : SNMapEntry
  localFlushSN : SmSN
  remoteFlushSN : SmSN
  deriving Repr, DecidableEq

/-- The map, the next node of the entry pool, and what the scans removed so far. -/
structure State where
  mSNMap : List SNMapEntry
  nextNode : Nat
  purged : List Purged
  deriving Repr, DecidableEq

/-- The calls that change the map. -/
inductive Act
  | insertNewTx (aMasterBeginSN : SmSN)
  | setSNs (node : Nat) (aMasterCommitSN aReplicatedBeginSN aReplicatedCommitSN : SmSN)
  | deleteTxByEntry (node : Nat)
  | getLocalFlushedRemoteSN (aLocalFlushSN aRemoteFlushSN aRestartSN : SmSN)
  deriving Repr, DecidableEq

/-- One call.  The pointers the receiver passes are to entries in the list. -/
def step (s : State) : Act → Option State
  | .insertNewTx mb =>
      some { s with mSNMap := insertNewTx s.mSNMap s.nextNode mb, nextNode := s.nextNode + 1 }
  | .setSNs node mc rb rc =>
      if ∃ e ∈ s.mSNMap, e.mNode = node then
        some { s with mSNMap := setSNs s.mSNMap node mc rb rc }
      else none
  | .deleteTxByEntry node =>
      if ∃ e ∈ s.mSNMap, e.mNode = node then
        some { s with mSNMap := deleteTxByEntry s.mSNMap node }
      else none
  | .getLocalFlushedRemoteSN f r restart =>
      let out := getLocalFlushedRemoteSN s.mSNMap f r restart
      some { s with
        mSNMap := out.kept
        purged := s.purged ++ out.removed.map fun e => ⟨e, f, r⟩ }

/-- The receiver, from the empty map on. -/
def snMap : System State Act where
  init := { mSNMap := [], nextNode := 0, purged := [] }
  step := step

/-- **Applied in master commit order**, for an entry `a` listed before `b`, when
    both are finished: `b` did not commit on the master before `a` began there,
    and if it committed before `a` did, so did its replay. -/
def AppliedInOrder (a b : SNMapEntry) : Prop :=
  a.Finished → b.Finished →
    a.mMasterBeginSN < b.mMasterCommitSN ∧
      (b.mMasterCommitSN ≤ a.mMasterCommitSN →
        b.mReplicatedCommitSN ≤ a.mReplicatedCommitSN)

instance (a b : SNMapEntry) : Decidable (AppliedInOrder a b) :=
  inferInstanceAs (Decidable (_ → _ → _ ∧ (_ → _)))

/-- Lists in which the replicated SNs grow together with the master commit SNs
    are an instance: commit order and list order are then the same. -/
theorem AppliedInOrder.of_growing {a b : SNMapEntry}
    (h : a.Finished → b.Finished → a.mMasterCommitSN < b.mMasterCommitSN ∧
      a.mReplicatedBeginSN < b.mReplicatedBeginSN ∧
      a.mReplicatedCommitSN < b.mReplicatedCommitSN) : AppliedInOrder a b := by
  intro ha hb
  have hmc := (h ha hb).1
  exact ⟨ha.2.trans hmc, fun hle => absurd hle (not_le.mpr hmc)⟩

/-- What the receiver does at a commit: the entry was unfinished, it gets the
    SNs of a committed transaction, and the list is still in order. -/
def commitInOrder (s : State) : Act → Bool
  | .setSNs node mc rb rc =>
      (∀ e ∈ s.mSNMap, e.mNode = node → e.Unfinished ∧ (e.setSNs mc rb rc).Finished) ∧
        (setSNs s.mSNMap node mc rb rc).Pairwise AppliedInOrder
  | _ => true

/-! ## §4. One scan. -/

/-- Every entry is either untouched since `insertNewTx` or complete. -/
def Settled (l : List SNMapEntry) : Prop :=
  ∀ e ∈ l, e.Unfinished ∨ e.Finished

/-- **The SN is covered** by the local flush SN: what it promises of `l` holds. -/
def Covered (aLocalFlushSN sn : SmSN) (l : List SNMapEntry) : Prop :=
  sn ≠ smSNNull → ∀ e ∈ l, e.mMasterCommitSN ≤ sn → e.mReplicatedCommitSN ≤ aLocalFlushSN

theorem finished_of_commit_le {l : List SNMapEntry} (hl : Settled l) {e : SNMapEntry}
    (he : e ∈ l) {sn : SmSN} (hsn : sn ≠ smSNNull) (hle : e.mMasterCommitSN ≤ sn) :
    e.Finished := by
  rcases hl e he with hun | hfin
  · rw [hun.1] at hle
    exact absurd (lt_of_le_of_lt hle (lt_null_of_ne hsn)) (lt_irrefl _)
  · exact hfin

/-- An entry whose replay has begun within the flushed log is finished. -/
theorem finished_of_begin_le {l : List SNMapEntry} (hl : Settled l) {e : SNMapEntry}
    (he : e ∈ l) {f : SmSN} (hf : f ≠ smSNNull) (hle : e.mReplicatedBeginSN ≤ f) :
    e.Finished := by
  rcases hl e he with hun | hfin
  · rw [hun.2.1] at hle
    exact absurd (lt_of_le_of_lt hle (lt_null_of_ne hf)) (lt_irrefl _)
  · exact hfin

/-- The master commit SN of a flushed entry covers the entries after it. -/
theorem covered_commit {f : SmSN} {e : SNMapEntry} {es : List SNMapEntry}
    (hl : Settled (e :: es)) (hord : ∀ x ∈ es, AppliedInOrder e x) (he : e.Finished)
    (hrc : e.mReplicatedCommitSN ≤ f) : Covered f e.mMasterCommitSN es := by
  intro hne x hx hle
  have hfin : x.Finished := finished_of_commit_le hl (List.mem_cons_of_mem _ hx) hne hle
  exact ((hord x hx he hfin).2 hle).trans hrc

/-- The master begin SN of a finished entry covers it and the entries after it:
    none of them committed on the master by then. -/
theorem covered_begin {f : SmSN} {e : SNMapEntry} {es : List SNMapEntry}
    (hl : Settled (e :: es)) (hord : ∀ x ∈ es, AppliedInOrder e x) (he : e.Finished) :
    Covered f e.mMasterBeginSN (e :: es) := by
  intro hne x hx hle
  have hlt : e.mMasterBeginSN < x.mMasterCommitSN := by
    rcases List.mem_cons.mp hx with rfl | hmem
    · exact he.2
    · exact (hord x hmem he (finished_of_commit_le hl hx hne hle)).1
  exact absurd hle (not_le.mpr hlt)

/-- **What a scan returns is covered.**  The invariant of the loop is that the SN
    it carries covers the entries still ahead. -/
theorem scan_covered {f r : SmSN} (hf : f ≠ smSNNull) (l : List SNMapEntry) :
    ∀ sn, Settled l → l.Pairwise AppliedInOrder → Covered f sn l →
      Covered f (scan f r sn l).sLFRSN l := by
  induction l with
  | nil =>
    intro sn _ _ _ _ e he
    cases he
  | cons e es ih =>
    intro sn hl hord hcov
    obtain ⟨hhead, htail⟩ := List.pairwise_cons.mp hord
    rw [scan]
    split_ifs with hrb hrc hboth
    · exact hcov
    · exact covered_begin hl hhead (finished_of_begin_le hl (List.mem_cons_self ..) hf
        (not_lt.mp hrb))
    all_goals
      -- the entry is flushed here: the loop goes on with its commit SN
      have hfin : e.Finished :=
        finished_of_begin_le hl (List.mem_cons_self ..) hf (not_lt.mp hrb)
      have hnext : Covered f e.mMasterCommitSN es := covered_commit hl hhead hfin (not_lt.mp hrc)
      have hrest := ih e.mMasterCommitSN (fun x hx => hl x (List.mem_cons_of_mem _ hx)) htail hnext
      intro hne x hx hle
      rcases List.mem_cons.mp hx with rfl | hmem
      · exact not_lt.mp hrc
      · exact hrest hne x hmem hle

/-- A scan removes only entries that are on both disks. -/
theorem scan_removed {f r : SmSN} (l : List SNMapEntry) :
    ∀ sn, ∀ e ∈ (scan f r sn l).removed, flushedOnBoth f r e = true := by
  induction l with
  | nil =>
    intro sn e he
    cases he
  | cons x xs ih =>
    intro sn e he
    rw [scan] at he
    split_ifs at he with hrb hrc hboth
    · cases he
    · cases he
    · rcases List.mem_cons.mp he with rfl | hmem
      · exact hboth
      · exact ih _ e hmem
    · exact ih _ e he

/-- What a scan keeps is in the order it was in. -/
theorem scan_kept_sublist {f r : SmSN} (l : List SNMapEntry) :
    ∀ sn, (scan f r sn l).kept.Sublist l := by
  induction l with
  | nil =>
    intro sn
    exact List.Sublist.refl _
  | cons x xs ih =>
    intro sn
    rw [scan]
    split_ifs with hrb hrc hboth
    · exact List.Sublist.refl _
    · exact List.Sublist.refl _
    · exact (ih _).trans (List.sublist_cons_self ..)
    · exact (ih _).cons_cons x

/-- A scan loses nothing: an entry is kept or removed. -/
theorem scan_mem {f r : SmSN} (l : List SNMapEntry) :
    ∀ sn, ∀ e ∈ l, e ∈ (scan f r sn l).kept ∨ e ∈ (scan f r sn l).removed := by
  induction l with
  | nil =>
    intro sn e he
    cases he
  | cons x xs ih =>
    intro sn e he
    rw [scan]
    split_ifs with hrb hrc hboth
    · exact Or.inl he
    · exact Or.inl he
    all_goals
      rcases List.mem_cons.mp he with rfl | hmem
      · simp
      · rcases ih x.mMasterCommitSN e hmem with h | h <;> simp [h]

/-! ## §5. One call. -/

/-- The commits of the entry are on both disks, for the flush SNs of a call. -/
def OnBothDisks (aLocalFlushSN aRemoteFlushSN : SmSN) (e : SNMapEntry) : Prop :=
  aLocalFlushSN ≠ smSNNull ∧ aRemoteFlushSN ≠ smSNNull ∧
    e.mReplicatedCommitSN ≤ aLocalFlushSN ∧ e.mMasterCommitSN ≤ aRemoteFlushSN

theorem getLocalFlushedRemoteSN_covered {l : List SNMapEntry} (hl : Settled l)
    (hord : l.Pairwise AppliedInOrder) (f r restart : SmSN) :
    Covered f (getLocalFlushedRemoteSN l f r restart).sLFRSN l := by
  unfold getLocalFlushedRemoteSN
  split_ifs with hf
  · cases l with
    | nil =>
      intro _ e he
      cases he
    | cons e es =>
      have hstart : Covered f smSNNull (e :: es) := fun hne => absurd rfl hne
      exact scan_covered hf _ _ hl hord hstart
  · intro hne
    exact absurd rfl hne

theorem getLocalFlushedRemoteSN_null (l : List SNMapEntry) (r restart : SmSN) :
    getLocalFlushedRemoteSN l smSNNull r restart = ⟨smSNNull, l, []⟩ := by
  simp [getLocalFlushedRemoteSN]

theorem getLocalFlushedRemoteSN_removed {l : List SNMapEntry} {f r restart : SmSN}
    {e : SNMapEntry} (he : e ∈ (getLocalFlushedRemoteSN l f r restart).removed) :
    OnBothDisks f r e := by
  unfold getLocalFlushedRemoteSN at he
  split_ifs at he with hf
  · cases l with
    | nil => cases he
    | cons x xs =>
      have hboth : flushedOnBoth f r e = true := scan_removed _ _ e he
      obtain ⟨hr, hmc, hrc⟩ := of_decide_eq_true hboth
      exact ⟨hf, hr, hrc, hmc⟩
  · cases he

theorem getLocalFlushedRemoteSN_kept_sublist (l : List SNMapEntry) (f r restart : SmSN) :
    (getLocalFlushedRemoteSN l f r restart).kept.Sublist l := by
  unfold getLocalFlushedRemoteSN
  split_ifs with hf
  · cases l with
    | nil => exact List.Sublist.refl _
    | cons x xs => exact scan_kept_sublist _ _
  · exact List.Sublist.refl _

theorem getLocalFlushedRemoteSN_mem {l : List SNMapEntry} {e : SNMapEntry} (he : e ∈ l)
    (f r restart : SmSN) :
    e ∈ (getLocalFlushedRemoteSN l f r restart).kept ∨
      e ∈ (getLocalFlushedRemoteSN l f r restart).removed := by
  unfold getLocalFlushedRemoteSN
  split_ifs with hf
  · cases l with
    | nil => cases he
    | cons x xs => exact scan_mem _ _ e he
  · exact Or.inl he

/-! ## §6. Every reachable map. -/

/-- **The invariant of the runs**: entries are untouched or complete, the list is
    in the order of application, and whatever a scan removed was on both disks. -/
structure Inv (s : State) : Prop where
  settled : Settled s.mSNMap
  ordered : s.mSNMap.Pairwise AppliedInOrder
  purged : ∀ p ∈ s.purged, OnBothDisks p.localFlushSN p.remoteFlushSN p.entry

theorem Inv.of_sublist {s s' : State} (hs : Inv s) (hsub : s'.mSNMap.Sublist s.mSNMap)
    (hp : ∀ p ∈ s'.purged, OnBothDisks p.localFlushSN p.remoteFlushSN p.entry) : Inv s' where
  settled := fun e he => hs.settled e (hsub.subset he)
  ordered := hs.ordered.sublist hsub
  purged := hp

/-- A new transaction has committed nowhere yet, so it fits in any order. -/
theorem inv_insertNewTx {s s' : State} {mb : SmSN} (hs : Inv s)
    (h : step s (.insertNewTx mb) = some s') : Inv s' := by
  cases h
  refine ⟨?_, ?_, hs.purged⟩
  · intro e he
    rcases List.mem_append.mp he with hold | hnew
    · exact hs.settled e hold
    · rw [List.mem_singleton.mp hnew]
      exact Or.inl ⟨rfl, rfl, rfl⟩
  · show (insertNewTx s.mSNMap s.nextNode mb).Pairwise AppliedInOrder
    rw [insertNewTx, List.pairwise_append]
    refine ⟨hs.ordered, List.pairwise_singleton .., ?_⟩
    intro a _ b hb _ hfin
    rw [List.mem_singleton.mp hb] at hfin
    exact absurd rfl hfin.1

theorem inv_setSNs {s s' : State} {node : Nat} {mc rb rc : SmSN} (hs : Inv s)
    (hok : commitInOrder s (.setSNs node mc rb rc) = true)
    (h : step s (.setSNs node mc rb rc) = some s') : Inv s' := by
  obtain ⟨hentry, hord⟩ := of_decide_eq_true hok
  simp only [step, Option.ite_none_right_eq_some, Option.some.injEq] at h
  obtain ⟨-, rfl⟩ := h
  refine ⟨?_, hord, hs.purged⟩
  intro e he
  obtain ⟨x, hx, rfl⟩ := List.mem_map.mp he
  split_ifs with hnode
  · exact Or.inr (hentry x hx hnode).2
  · exact hs.settled x hx

theorem inv_deleteTxByEntry {s s' : State} {node : Nat} (hs : Inv s)
    (h : step s (.deleteTxByEntry node) = some s') : Inv s' := by
  simp only [step, Option.ite_none_right_eq_some, Option.some.injEq] at h
  obtain ⟨-, rfl⟩ := h
  exact hs.of_sublist List.filter_sublist hs.purged

theorem inv_getLocalFlushedRemoteSN {s s' : State} {f r restart : SmSN} (hs : Inv s)
    (h : step s (.getLocalFlushedRemoteSN f r restart) = some s') : Inv s' := by
  cases h
  apply hs.of_sublist (getLocalFlushedRemoteSN_kept_sublist ..)
  intro p hp
  rcases List.mem_append.mp hp with hold | hnew
  · exact hs.purged p hold
  · obtain ⟨e, he, rfl⟩ := List.mem_map.mp hnew
    exact getLocalFlushedRemoteSN_removed he

theorem inv_step {s s' : State} {a : Act} (hs : Inv s) (hok : commitInOrder s a = true)
    (h : step s a = some s') : Inv s' := by
  cases a with
  | insertNewTx mb => exact inv_insertNewTx hs h
  | setSNs node mc rb rc => exact inv_setSNs hs hok h
  | deleteTxByEntry node => exact inv_deleteTxByEntry hs h
  | getLocalFlushedRemoteSN f r restart => exact inv_getLocalFlushedRemoteSN hs h

theorem inv_init : Inv snMap.init where
  settled := fun e he => by cases he
  ordered := List.Pairwise.nil
  purged := fun p hp => by cases hp

theorem inv_reachable {s : State}
    (hs : snMap.ReachableBy (fun s a => commitInOrder s a = true) s) : Inv s :=
  System.Path.invariant hs (fun _ _ _ hi hok hst => inv_step hi hok hst) inv_init

/-- **The recovery point is safe.**  In every map that commits in master order
    produce, for all flush SNs: a transaction whose master commit SN is not above
    the returned SN has its replay flushed; an entry that a call removes, now or
    in an earlier call, is on both disks by the flush SNs of that call. -/
theorem localFlushedRemoteSN_safe {s : State}
    (hs : snMap.ReachableBy (fun s a => commitInOrder s a = true) s)
    (aLocalFlushSN aRemoteFlushSN aRestartSN : SmSN) :
    let out := getLocalFlushedRemoteSN s.mSNMap aLocalFlushSN aRemoteFlushSN aRestartSN
    (out.sLFRSN ≠ smSNNull → aLocalFlushSN ≠ smSNNull ∧
      ∀ e ∈ s.mSNMap, e.mMasterCommitSN ≤ out.sLFRSN →
        e.mReplicatedCommitSN ≤ aLocalFlushSN) ∧
    (∀ e ∈ s.mSNMap, e ∉ out.kept → OnBothDisks aLocalFlushSN aRemoteFlushSN e) ∧
    (∀ p ∈ s.purged, OnBothDisks p.localFlushSN p.remoteFlushSN p.entry) := by
  have hinv := inv_reachable hs
  intro out
  refine ⟨?_, ?_, hinv.purged⟩
  · intro hne
    refine ⟨?_, getLocalFlushedRemoteSN_covered hinv.settled hinv.ordered _ _ _ hne⟩
    intro hnull
    apply hne
    show (getLocalFlushedRemoteSN s.mSNMap aLocalFlushSN aRemoteFlushSN aRestartSN).sLFRSN = _
    rw [hnull, getLocalFlushedRemoteSN_null]
  · intro e he hkept
    rcases getLocalFlushedRemoteSN_mem he aLocalFlushSN aRemoteFlushSN aRestartSN with hk | hr
    · exact absurd hk hkept
    · exact getLocalFlushedRemoteSN_removed hr

/-- Overlapping transactions: the second begins and commits within the first, and
    one call has removed both; the fourth commits within the third; the replay of the
    fifth is not flushed. -/
def overlapping : List Act :=
  [.insertNewTx 10, .insertNewTx 20, .setSNs 1 30 120 130, .setSNs 0 40 110 140,
    .insertNewTx 50, .getLocalFlushedRemoteSN 145 45 10, .insertNewTx 60,
    .setSNs 3 160 155 170, .setSNs 2 163 150 172, .insertNewTx 165, .setSNs 4 190 175 200]

/-- The call returns 165, where the fifth began; it keeps the third, whose commit is
    not flushed remotely, and removes the fourth. -/
theorem localFlushedRemoteSN_safe_overlapping :
    let s := (snMap.restrict commitInOrder).after overlapping (by decide)
    let out := getLocalFlushedRemoteSN s.mSNMap 180 162 10
    (out.sLFRSN ≠ smSNNull → (180 : SmSN) ≠ smSNNull ∧
      ∀ e ∈ s.mSNMap, e.mMasterCommitSN ≤ out.sLFRSN → e.mReplicatedCommitSN ≤ 180) ∧
    (∀ e ∈ s.mSNMap, e ∉ out.kept → OnBothDisks 180 162 e) ∧
    (∀ p ∈ s.purged, OnBothDisks p.localFlushSN p.remoteFlushSN p.entry) :=
  localFlushedRemoteSN_safe
    (System.path_of_restrict overlapping (Option.some_get _).symm) 180 162 10

end Altibase.Rpr
