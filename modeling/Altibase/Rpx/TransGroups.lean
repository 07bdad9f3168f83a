/-
  Altibase.Rpx.TransGroups
  ────────────────────────
  **WHICH TRANSACTIONS SHARE A GROUP.**

  A log stream is read from the start of a log file.  A transaction slot is
  reused only after its transaction has ended; an aborted transaction still
  undoes its changes after its pre-abort record, and records that belong to no
  transaction carry `SM_NULL_TID`.

  The node of a slot and the entries made for it obey one invariant, `SlotInv`:
  every replicated change is in exactly one entry, or it is pending in the node
  of its slot.  A record with `SM_NULL_TID` takes a slot of its own in the table
  if no transaction is active there, and the next transaction of that slot whose
  begin was not read is then held under `SM_NULL_TID`.

    * `SlotInv.step_open`, `SlotInv.close_entry` — one record of one slot;
    * `transGroups_correct` — the groups, in every run whose file ends find no
      replicated node under `SM_NULL_TID`;
    * `transGroups_lose_change` — a run that does not.
-/

import Altibase.Lib.System
import Altibase.Rpx.AheadAnalyzer

namespace Altibase.Rpx

open Altibase.Lib

/-! ## §1. Log streams. -/

/-- The kinds of log records. -/
inductive EventKind where
  | commit | preAbort | ddl | tableMeta | savepointAbort | change | fileEnd | other
  deriving DecidableEq, Repr

/-- What a log record says of one transaction. -/
structure Event where
  sn : ℕ
  tid : ℕ
  begins : Bool
  kind : EventKind
  replicated : Bool
  deriving DecidableEq, Repr

/-- The transaction ends. -/
def EventKind.ends : EventKind → Bool
  | .commit => true
  | .preAbort => true
  | _ => false

/-- The transaction may not share a group. -/
def EventKind.bars : EventKind → Bool
  | .ddl => true
  | .tableMeta => true
  | .savepointAbort => true
  | _ => false

/-- Who used a slot last.  A transaction that is `early` has only logged records
of no interest, and may have ended before the stream. -/
inductive SlotUse where
  | unseen
  | early (tid : ℕ)
  | live (tid : ℕ)
  | ended (tid : ℕ)
  deriving DecidableEq, Repr

/-- The transaction that used the slot last. -/
def SlotUse.user : SlotUse → Option ℕ
  | .unseen => none
  | .early tid => some tid
  | .live tid => some tid
  | .ended tid => some tid

/-- A transaction may log here if nobody else holds the slot. -/
def SlotUse.mayLog : SlotUse → ℕ → Bool
  | .unseen, _ => true
  | .early t, tid => t = tid
  | .live t, tid => t = tid
  | .ended _, _ => false

/-- A first log record makes the transaction the slot's user; it finds no live one there. -/
def afterBegin (u : SlotUse) (e : Event) : Option SlotUse :=
  match e.begins, u with
  | true, .live _ => none
  | true, _ => some (.live e.tid)
  | false, u => some u

/-- After its end a transaction logs nothing but its undo. -/
def afterLog (u : SlotUse) (e : Event) : Option SlotUse :=
  if e.kind.ends then
    if u.mayLog e.tid then some (.ended e.tid) else none
  else if e.kind = .other then
    if u = .unseen then some (.early e.tid)
    else if u.user = some e.tid then some u
    else none
  else if u.mayLog e.tid then some (.live e.tid)
  else none

/-- The use of a slot after an event, if the event may come. -/
def nextUse (u : SlotUse) (e : Event) : Option SlotUse :=
  match afterBegin u e with
  | none => none
  | some u' => afterLog u' e

section Stream

variable {Oid Item Meta : Type} (mTransTableSize mReplicationTransGroupMaxCount : ℕ)
variable (searchTable : Meta → Oid → Bool) (updateMeta : Meta → Item → Meta)

/-- What kind of event a log record is. -/
def kindOf : LogType Oid Item → EventKind
  | .transCommit => .commit
  | .transGroupCommit _ => .commit
  | .transPreAbort => .preAbort
  | .savepointAbort => .savepointAbort
  | .fileEnd => .fileEnd
  | .memoryChange _ => .change
  | .diskChange _ => .change
  | .ddl => .ddl
  | .tableMeta _ _ => .tableMeta
  | .other => .other

/-- What a log record says of the transaction `tid`. -/
def eventOf (aLog : LogRec Oid Item) (replicated : Bool) (tid : ℕ) : Event where
  sn := aLog.mRecordSN
  tid := tid
  begins := aLog.isBeginLog
  kind := kindOf aLog.mLogType
  replicated := replicated

/-- The events of a log record: one for each transaction of a group commit. -/
def eventsOf (aLog : LogRec Oid Item) (replicated : Bool) : List Event :=
  match aLog.mLogType with
  | .transGroupCommit aTransIDs => aTransIDs.map (eventOf aLog replicated)
  | _ => [eventOf aLog replicated aLog.mTransID]

/-- The slots' uses after an event, if the stream may go on with it. -/
def advance (use : ℕ → SlotUse) (e : Event) : Option (ℕ → SlotUse) :=
  if e.kind = .fileEnd then some use
  else if e.tid = SM_NULL_TID then
    if e.kind = .other && !e.begins then some use else none
  else
    match nextUse (use (e.tid % mTransTableSize)) e with
    | none => none
    | some u => some (Function.update use (e.tid % mTransTableSize) u)

/-- The same for the events of one log record. -/
def advanceAll (use : ℕ → SlotUse) : List Event → Option (ℕ → SlotUse)
  | [] => some use
  | e :: l =>
      match advance mTransTableSize use e with
      | none => none
      | some use' => advanceAll use' l

/-- The analyzer, and what it has read. -/
structure LogRun (Item Meta : Type) where
  analyzer : AheadAnalyzer Item Meta
  use : ℕ → SlotUse
  nextSN : ℕ
  seen : List Event

/-- Whether the table of a log record is replicated when it is read. -/
def replicatedIn (r : LogRun Item Meta) (aLog : LogRec Oid Item) : Bool :=
  searchTableOf searchTable (analyzeMeta mTransTableSize updateMeta r.analyzer aLog).mMeta
    aLog.mLogType

/-- A group commit is logged by a transaction that has logged before. -/
def headIsPlain (aLog : LogRec Oid Item) : Bool :=
  match aLog.mLogType with
  | .transGroupCommit _ => !aLog.isBeginLog
  | _ => true

/-- The next log record, with an SN above those read. -/
def readStep (r : LogRun Item Meta) (aLog : LogRec Oid Item) : Option (LogRun Item Meta) :=
  let events := eventsOf aLog (replicatedIn mTransTableSize searchTable updateMeta r aLog)
  match advanceAll mTransTableSize r.use events with
  | none => none
  | some use =>
      if r.nextSN ≤ aLog.mRecordSN ∧ headIsPlain aLog = true then
        some {
          analyzer := analyze mTransTableSize mReplicationTransGroupMaxCount searchTable
            updateMeta r.analyzer aLog
          use := use
          nextSN := aLog.mRecordSN + 1
          seen := r.seen ++ events }
      else none

/-- The analyzer that reads a log from its start. -/
def readSystem (mMeta : Meta) : System (LogRun Item Meta) (LogRec Oid Item) where
  init := ⟨startToAnalyze mMeta, fun _ => .unseen, 0, []⟩
  step := readStep mTransTableSize mReplicationTransGroupMaxCount searchTable updateMeta

/-- A file end finds no active replicated node under `SM_NULL_TID`. -/
def FileEndHeld (r : LogRun Item Meta) (aLog : LogRec Oid Item) : Prop :=
  aLog.mLogType = .fileEnd → ∀ i < mTransTableSize,
    (r.analyzer.mTransTable i).mIsActive = true →
    (r.analyzer.mTransTable i).mIsReplicationTrans = true →
    (r.analyzer.mTransTable i).mTransID ≠ SM_NULL_TID

instance (t : LogType Oid Item) : Decidable (t = .fileEnd) :=
  decidable_of_iff (kindOf t = .fileEnd) (by cases t <;> simp [kindOf])

instance (r : LogRun Item Meta) (aLog : LogRec Oid Item) :
    Decidable (FileEndHeld mTransTableSize r aLog) :=
  inferInstanceAs (Decidable (_ → ∀ i < mTransTableSize, _ → _ → _ ≠ _))

end Stream

/-! ## §2. The invariants. -/

section Invariants

/-- The entry is of the event's transaction, and its SNs enclose the event. -/
def covers (e : Event) (m : ReplicatedTrans) : Bool :=
  m.mReplicatedTransID = e.tid && m.mBeginSN ≤ e.sn && e.sn ≤ m.mEndSN

/-- How many entries cover an event. -/
def coverCount (entries : List ReplicatedTrans) (e : Event) : ℕ := entries.countP (covers e)

/-- The event ends the transaction, or the log file. -/
def Closes (x : Event) (tid : ℕ) : Prop :=
  x.kind = .fileEnd ∨ x.tid = tid ∧ x.kind.ends = true

/-- The first event after `e` that ends its transaction, or the file, has the
SN `n`. -/
def FirstClose (seen : List Event) (e : Event) (n : ℕ) : Prop :=
  e.sn < n ∧ (∃ y ∈ seen, y.sn = n ∧ Closes y e.tid)
    ∧ ∀ z ∈ seen, e.sn < z.sn → Closes z e.tid → n ≤ z.sn

/-- **Exactly one entry covers the event**, and it ends where the part of its
transaction does. -/
structure Covered (seen : List Event) (entries : List ReplicatedTrans) (e : Event) : Prop where
  one : coverCount entries e = 1
  closes : ∃ m ∈ entries, covers e m = true ∧ FirstClose seen e m.mEndSN

/-- The transaction's first log record has been read, under the SN `sn`. -/
def BeginSeen (seen : List Event) (tid sn : ℕ) : Prop :=
  ∃ x ∈ seen, x.tid = tid ∧ x.begins = true ∧ x.sn = sn

/-- A committed transaction whose begin was read and that logged nothing that
keeps it out of a group. -/
structure Groupable (seen : List Event) (m : ReplicatedTrans) : Prop where
  committed : ∃ x ∈ seen, x.tid = m.mReplicatedTransID ∧ x.kind = .commit ∧ x.sn = m.mEndSN
  begun : BeginSeen seen m.mReplicatedTransID m.mBeginSN
  unbarred : ∀ x ∈ seen, x.tid = m.mReplicatedTransID → m.mBeginSN ≤ x.sn → x.sn ≤ m.mEndSN →
    x.kind.bars = false

/-- The entry ends with a pre-abort of its transaction. -/
def PreAborted (seen : List Event) (m : ReplicatedTrans) : Prop :=
  ∃ x ∈ seen, x.tid = m.mReplicatedTransID ∧ x.kind = .preAbort ∧ x.sn = m.mEndSN

/-- **The node of a slot, and the entries made for the slot.** -/
structure SlotInv {Item : Type} (size i : ℕ) (node : AnalyzingTransNode Item) (use : SlotUse)
    (seen : List Event) (entries : List ReplicatedTrans) : Prop where
  inactive : node.mIsActive = false → node.mIsReplicationTrans = false
  holder : node.mIsActive = true →
    node.mTransID = SM_NULL_TID ∨ use.user = some node.mTransID
  inSlot : node.mIsActive = true → node.mTransID % size = i
  began : node.mIsActive = true → ∃ x ∈ seen, x.tid % size = i ∧ x.sn = node.mBeginSN
  replic : node.mIsReplicationTrans = true → ∃ t, use = .live t
  grouping : node.mIsActive = true → node.mAllowToGroup = true → ∃ t, use = .live t
    ∧ t % size = i ∧ BeginSeen seen t node.mBeginSN
    ∧ ∀ x ∈ seen, x.tid = t → node.mBeginSN ≤ x.sn → x.kind.bars = false
  earlier : node.mIsActive = true → ∀ m ∈ entries, m.mReplicatedTransID % size = i →
    m.mEndSN < node.mBeginSN
  changes : ∀ e ∈ seen, e.replicated = true → e.tid % size = i →
    (Covered seen entries e ∧ (node.mIsActive = true → e.sn < node.mBeginSN))
      ∨ (coverCount entries e = 0 ∧ node.mIsReplicationTrans = true ∧ use = .live e.tid
          ∧ node.mBeginSN ≤ e.sn ∧ ∀ x ∈ seen, e.sn < x.sn → ¬ Closes x e.tid)

/-- **The groups**: their order, their sizes and who shares one. -/
structure GroupInv (max : ℕ) (g : ReplicatedTransGroup) (seen : List Event) : Prop where
  sorted : g.mCompletedGroupList.Pairwise fun c d => c.mEndSN ≤ d.mEndSN
  openLater : g.mAnalyzingGroup.mReplicatedTrans ≠ [] → ∀ c ∈ g.mCompletedGroupList,
    c.mEndSN ≤ g.mAnalyzingGroup.mEndSN
  openSize : g.mAnalyzingGroup.mReplicatedTrans.length < max
  openGood : ∀ m ∈ g.mAnalyzingGroup.mReplicatedTrans, Groupable seen m ∧ ¬ PreAborted seen m
  size : ∀ c ∈ g.mCompletedGroupList, c.mReplicatedTrans.length ≤ max
  several : ∀ c ∈ g.mCompletedGroupList, 2 ≤ c.mReplicatedTrans.length →
    ∀ m ∈ c.mReplicatedTrans, Groupable seen m
  operation : ∀ c ∈ g.mCompletedGroupList,
    (c.mOperation = .send ∧ ∀ m ∈ c.mReplicatedTrans, ¬ PreAborted seen m)
      ∨ (c.mOperation = .dontSend ∧ ∃ m, c.mReplicatedTrans = [m] ∧ PreAborted seen m)

end Invariants

/-! ## §3. One slot. -/

section Slot

variable {Item : Type} {size i : ℕ} {node : AnalyzingTransNode Item} {use u' : SlotUse}
variable {seen : List Event} {entries entries' : List ReplicatedTrans} {e : Event}

/-- An entry covers the events of its transaction between its two SNs. -/
theorem covers_iff {m : ReplicatedTrans} : covers e m = true ↔
    m.mReplicatedTransID = e.tid ∧ m.mBeginSN ≤ e.sn ∧ e.sn ≤ m.mEndSN := by
  unfold covers
  simp only [Bool.and_eq_true, decide_eq_true_eq]
  tauto

/-- Entries that ended before the event do not cover it. -/
theorem coverCount_eq_zero (size : ℕ)
    (h : ∀ m ∈ entries, m.mReplicatedTransID % size = e.tid % size → m.mEndSN < e.sn) :
    coverCount entries e = 0 := by
  unfold coverCount
  rw [List.countP_eq_zero]
  intro m hm hcover
  obtain ⟨hid, -, hle⟩ := covers_iff.mp hcover
  have hlt := h m hm (by rw [hid])
  omega

/-- The order of the entries does not matter. -/
theorem coverCount_perm (h : entries'.Perm entries) (e : Event) :
    coverCount entries' e = coverCount entries e :=
  h.countP_eq _

/-- One entry more. -/
theorem coverCount_insert {m : ReplicatedTrans} (h : entries'.Perm (m :: entries)) (e : Event) :
    coverCount entries' e = coverCount entries e + if covers e m = true then 1 else 0 := by
  rw [coverCount_perm h]
  exact List.countP_cons

/-- What an open event does to its slot's use. -/
theorem nextUse_open (h : nextUse use e = some u') (hends : e.kind.ends = false) :
    u'.user = some e.tid ∧ (e.begins = true → u' = .live e.tid ∧ ∀ t, use ≠ .live t)
      ∧ (e.begins = false → (e.kind ≠ .other → u' = .live e.tid)
          ∧ ∀ t, use.user = some t → t = e.tid ∧ (use = .live t → u' = .live t)) := by
  unfold nextUse afterBegin afterLog at h
  cases hbegins : e.begins with
  | true =>
    cases use <;> simp_all [SlotUse.user, SlotUse.mayLog] <;> grind
  | false =>
    cases use <;> simp_all [SlotUse.user, SlotUse.mayLog] <;> grind [SlotUse.user]

/-- What an end does to its slot's use. -/
theorem nextUse_ends (h : nextUse use e = some u') (hends : e.kind.ends = true) :
    u' = .ended e.tid ∧ (∀ t, use ≠ .ended t ∨ e.begins = true)
      ∧ ∀ t, use = .live t → t = e.tid ∧ e.begins = false := by
  unfold nextUse afterBegin afterLog at h
  cases hbegins : e.begins with
  | true =>
    cases use <;> simp_all [SlotUse.mayLog]
  | false =>
    cases use <;> simp_all [SlotUse.mayLog]

/-- The slot's events and entries are before `s`. -/
structure SlotBefore (size i s : ℕ) (seen : List Event) (entries : List ReplicatedTrans) :
    Prop where
  events : ∀ x ∈ seen, x.tid % size = i → x.sn < s
  ends : ∀ m ∈ entries, m.mReplicatedTransID % size = i → m.mEndSN < s

theorem mem_snoc {α : Type} {l : List α} {a b : α} : b ∈ l ++ [a] ↔ b ∈ l ∨ b = a := by
  rw [List.mem_append, List.mem_singleton]

/-- What has been read stays read. -/
theorem BeginSeen.snoc {tid sn : ℕ} (h : BeginSeen seen tid sn) (e : Event) :
    BeginSeen (seen ++ [e]) tid sn := by
  obtain ⟨x, hx, hrest⟩ := h
  exact ⟨x, List.mem_append_left _ hx, hrest⟩

variable {Oid : Type} {aLog : LogRec Oid Item} {b : Bool} {tid : ℕ}

/-- A node allows a group from the first log record on, until a record bars it. -/
theorem builtNode_allow : (builtNode node aLog b tid).mAllowToGroup
    = ((aLog.isBeginLog || (node.mIsActive && node.mAllowToGroup))
        && !(kindOf aLog.mLogType).bars) := by
  unfold builtNode
  cases aLog.mLogType <;> rfl

/-- Later events and other entries leave a covered event covered. -/
theorem Covered.mono {xs : List Event} {x : Event} (h : Covered seen entries x)
    (hxs : ∀ z ∈ xs, ∀ y ∈ seen, y.sn ≤ z.sn)
    (hcount : coverCount entries' x = coverCount entries x)
    (hkeep : ∀ m ∈ entries, m ∈ entries') : Covered (seen ++ xs) entries' x := by
  obtain ⟨m, hm, hcover, hlt, ⟨y, hy, hyn, hcloses⟩, hfirst⟩ := h.closes
  refine ⟨hcount.trans h.one, m, hkeep m hm, hcover, hlt,
    ⟨y, List.mem_append_left _ hy, hyn, hcloses⟩, fun z hz hlt' hz' => ?_⟩
  rcases List.mem_append.mp hz with hold | hnew
  · exact hfirst z hold hlt' hz'
  · rw [← hyn]
    exact hxs z hnew y hy

/-- No replicated change is pending in a slot whose node is not replicated. -/
theorem SlotInv.settled (h : SlotInv size i node use seen entries)
    (hrepl : node.mIsReplicationTrans = false) {x : Event} (hx : x ∈ seen)
    (hr : x.replicated = true) (hi : x.tid % size = i) : Covered seen entries x := by
  rcases h.changes x hx hr hi with ⟨hone, -⟩ | ⟨-, hpending, -⟩
  · exact hone
  · rw [hrepl] at hpending
    cases hpending

/-- **A node that is taken anew**: by a begin, or by the first record that is
read of its transaction. -/
theorem SlotInv.step_fresh (h : SlotInv size i node use seen entries)
    (hrepl : node.mIsReplicationTrans = false) (hi : tid % size = i)
    (huser : u'.user = some tid ∨ tid = SM_NULL_TID)
    (hlive : b = true ∨ aLog.isBeginLog = true → u' = .live tid)
    (hfresh : aLog.isBeginLog = true ∨ node.mIsActive = false)
    (hbefore : SlotBefore size i aLog.mRecordSN seen entries)
    (hupto : ∀ x ∈ seen, x.sn ≤ aLog.mRecordSN) :
    SlotInv size i (builtNode node aLog b tid) u' (seen ++ [eventOf aLog b tid]) entries := by
  have hanew : (aLog.isBeginLog || !node.mIsActive) = true := by
    rcases hfresh with hb | ha
    · rw [hb, Bool.true_or]
    · rw [ha, Bool.not_false, Bool.or_true]
  have hid : (builtNode node aLog b tid).mTransID = tid := if_pos hanew
  have hbegin : (builtNode node aLog b tid).mBeginSN = aLog.mRecordSN := if_pos hanew
  have hr : (builtNode node aLog b tid).mIsReplicationTrans = b := by
    show (b || node.mIsReplicationTrans) = b
    rw [hrepl, Bool.or_false]
  have hself : eventOf aLog b tid ∈ seen ++ [eventOf aLog b tid] := mem_snoc.mpr (Or.inr rfl)
  constructor
  · -- an inactive node is not replicated
    intro hinactive
    cases hinactive
  · -- who holds the node
    intro _
    rw [hid]
    exact huser.symm
  · -- the slot of its transaction
    intro _
    rw [hid]
    exact hi
  · -- its begin was read
    intro _
    exact ⟨_, hself, hi, hbegin.symm⟩
  · -- a replicated node is of the live transaction
    intro hb
    rw [hr] at hb
    exact ⟨tid, hlive (Or.inl hb)⟩
  · -- a node that may join a group
    intro _ hallow
    rw [builtNode_allow, Bool.and_eq_true] at hallow
    obtain ⟨hmay, hbars⟩ := hallow
    -- only a begin lets a node into a group: a node that was inactive starts without it
    have hisBegin : aLog.isBeginLog = true := by
      rcases hfresh with hb | ha
      · exact hb
      · rw [ha, Bool.false_and, Bool.or_false] at hmay
        exact hmay
    refine ⟨tid, hlive (Or.inr hisBegin), hi, ⟨_, hself, rfl, hisBegin, hbegin.symm⟩, ?_⟩
    intro x hx hxt hle
    rw [hbegin] at hle
    rcases mem_snoc.mp hx with hold | rfl
    · have := hbefore.events x hold (by rw [hxt]; exact hi)
      omega
    · have hnot : (kindOf aLog.mLogType).bars = false := by simpa using hbars
      exact hnot
  · -- the entries of the slot ended before it
    intro _ m hm hmi
    rw [hbegin]
    exact hbefore.ends m hm hmi
  · -- each change is in one entry, or it is pending
    intro x hx hxr hxi
    rw [hbegin, hr]
    rcases mem_snoc.mp hx with hold | rfl
    · left
      -- an earlier change is in its entry already, the node that is left was not replicated
      refine ⟨(h.settled hrepl hold hxr hxi).mono (fun z hz y hy => ?_) rfl fun _ hm => hm,
        fun _ => hbefore.events x hold hxi⟩
      rw [List.mem_singleton.mp hz]
      exact hupto y hy
    · right
      -- the change of this record is pending
      refine ⟨coverCount_eq_zero size fun m hm hmi => hbefore.ends m hm (hmi.trans hi),
        hxr, hlive (Or.inl hxr), Nat.le_refl _, fun y hy hlt => ?_⟩
      rcases mem_snoc.mp hy with hold | rfl
      · have hle := hupto y hold
        have hsn : aLog.mRecordSN < y.sn := hlt
        omega
      · exact absurd hlt (Nat.lt_irrefl _)

/-- **A record of the transaction that holds the slot.** -/
theorem SlotInv.step_held (h : SlotInv size i node use seen entries)
    (hactive : node.mIsActive = true) (hbegins : aLog.isBeginLog = false) (hi : tid % size = i)
    (huser : ∀ t, use.user = some t → u'.user = some t)
    (hlive : b = true → u' = .live tid)
    (hkeep : ∀ t, use = .live t → u' = .live t)
    (hends : (kindOf aLog.mLogType).ends = false) (hfile : kindOf aLog.mLogType ≠ .fileEnd)
    (hbefore : SlotBefore size i aLog.mRecordSN seen entries)
    (hupto : ∀ x ∈ seen, x.sn ≤ aLog.mRecordSN) :
    SlotInv size i (builtNode node aLog b tid) u' (seen ++ [eventOf aLog b tid]) entries := by
  have hheld : (aLog.isBeginLog || !node.mIsActive) = false := by
    rw [hbegins, hactive]
    rfl
  have hid : (builtNode node aLog b tid).mTransID = node.mTransID :=
    if_neg (by rw [hheld]; exact Bool.false_ne_true)
  have hbegin : (builtNode node aLog b tid).mBeginSN = node.mBeginSN :=
    if_neg (by rw [hheld]; exact Bool.false_ne_true)
  have hr : (builtNode node aLog b tid).mIsReplicationTrans = (b || node.mIsReplicationTrans) :=
    rfl
  have hself : eventOf aLog b tid ∈ seen ++ [eventOf aLog b tid] := mem_snoc.mpr (Or.inr rfl)
  -- the record ends neither the transaction nor the file
  have hnotCloses : ∀ t, ¬ Closes (eventOf aLog b tid) t := by
    rintro t (hf | ⟨-, he⟩)
    · exact hfile hf
    · have he' : (kindOf aLog.mLogType).ends = true := he
      rw [hends] at he'
      cases he'
  constructor
  · -- an inactive node is not replicated
    intro hinactive
    cases hinactive
  · -- who holds the node
    intro _
    rw [hid]
    rcases h.holder hactive with hnull | hu
    · exact Or.inl hnull
    · exact Or.inr (huser _ hu)
  · -- the slot of its transaction
    intro _
    rw [hid]
    exact h.inSlot hactive
  · -- its begin was read
    intro _
    obtain ⟨x, hx, hxi, hxs⟩ := h.began hactive
    exact ⟨x, mem_snoc.mpr (Or.inl hx), hxi, hxs.trans hbegin.symm⟩
  · -- a replicated node is of the live transaction
    intro hrepl
    rw [hr, Bool.or_eq_true] at hrepl
    rcases hrepl with hb | hold
    · exact ⟨tid, hlive hb⟩
    · obtain ⟨t, ht⟩ := h.replic hold
      exact ⟨t, hkeep t ht⟩
  · -- a node that may join a group
    intro _ hallow
    rw [builtNode_allow, Bool.and_eq_true, hbegins, Bool.false_or, hactive, Bool.true_and]
      at hallow
    obtain ⟨hallow, hbars⟩ := hallow
    obtain ⟨t, ht, hti, hseen, hclean⟩ := h.grouping hactive hallow
    rw [hbegin]
    refine ⟨t, hkeep t ht, hti, hseen.snoc _, fun x hx hxt hle => ?_⟩
    rcases mem_snoc.mp hx with hold | rfl
    · exact hclean x hold hxt hle
    · have hnot : (kindOf aLog.mLogType).bars = false := by simpa using hbars
      exact hnot
  · -- the entries of the slot ended before it
    intro _ m hm hmi
    rw [hbegin]
    exact h.earlier hactive m hm hmi
  · -- each change is in one entry, or it is pending
    intro x hx hxr hxi
    rw [hbegin, hr]
    rcases mem_snoc.mp hx with hold | rfl
    · -- an earlier change stays where it was
      rcases h.changes x hold hxr hxi with ⟨hone, hlt⟩ | ⟨hzero, hrepl, huse, hle, hopen⟩
      · refine Or.inl ⟨hone.mono (fun z hz y hy => ?_) rfl fun _ hm => hm, fun _ => hlt hactive⟩
        rw [List.mem_singleton.mp hz]
        exact hupto y hy
      · right
        refine ⟨hzero, by rw [hrepl, Bool.or_true], hkeep _ huse, hle, fun y hy hlt => ?_⟩
        rcases mem_snoc.mp hy with hyold | rfl
        · exact hopen y hyold hlt
        · exact hnotCloses _
    · right
      -- the change of this record is pending from now on
      have hb : b = true := hxr
      obtain ⟨y, hy, hyi, hys⟩ := h.began hactive
      have hylt := hbefore.events y hy hyi
      refine ⟨coverCount_eq_zero size fun m hm hmi => hbefore.ends m hm (hmi.trans hi),
        by rw [hb, Bool.true_or], hlive hb, ?_, fun z hz hlt => ?_⟩
      · show node.mBeginSN ≤ aLog.mRecordSN
        omega
      · rcases mem_snoc.mp hz with hzold | rfl
        · have hle := hupto z hzold
          have hsn : aLog.mRecordSN < z.sn := hlt
          omega
        · exact hnotCloses _

/-- **One record of a transaction that goes on.** -/
theorem SlotInv.step_open (h : SlotInv size i node use seen entries) (hi : tid % size = i)
    (hnext : nextUse use (eventOf aLog b tid) = some u')
    (hends : (kindOf aLog.mLogType).ends = false) (hfile : kindOf aLog.mLogType ≠ .fileEnd)
    (hb : b = true → kindOf aLog.mLogType ≠ .other)
    (hbefore : SlotBefore size i aLog.mRecordSN seen entries)
    (hupto : ∀ x ∈ seen, x.sn ≤ aLog.mRecordSN) :
    SlotInv size i (builtNode node aLog b tid) u' (seen ++ [eventOf aLog b tid]) entries := by
  obtain ⟨huser, hyes, hno⟩ := nextUse_open hnext hends
  cases hbegins : aLog.isBeginLog with
  | true =>
    obtain ⟨hlive, hnotLive⟩ := hyes hbegins
    -- a replicated node would mean that a transaction is live in the slot
    have hrepl : node.mIsReplicationTrans = false := by
      rw [Bool.eq_false_iff]
      intro htrue
      obtain ⟨t, ht⟩ := h.replic htrue
      exact hnotLive t ht
    exact h.step_fresh hrepl hi (Or.inl huser) (fun _ => hlive) (Or.inl hbegins) hbefore hupto
  | false =>
    obtain ⟨hother, hkeep⟩ := hno hbegins
    have hlive : b = true → u' = .live tid := fun hbt => hother (hb hbt)
    cases hactive : node.mIsActive with
    | true =>
      refine h.step_held hactive hbegins hi (fun t ht => ?_) hlive (fun t ht => ?_) hends hfile
        hbefore hupto
      · rw [(hkeep t ht).1]
        exact huser
      · exact (hkeep t (by rw [ht]; rfl)).2 ht
    | false =>
      refine h.step_fresh (h.inactive hactive) hi (Or.inl huser) (fun hor => ?_) (Or.inr hactive)
        hbefore hupto
      rcases hor with hbt | hbegin
      · exact hlive hbt
      · rw [hbegins] at hbegin
        cases hbegin

/-- A record of no transaction. -/
theorem SlotInv.step_null (h : SlotInv size i node use seen entries)
    (hi : SM_NULL_TID % size = i) (hbegins : aLog.isBeginLog = false)
    (hother : kindOf aLog.mLogType = .other)
    (hbefore : SlotBefore size i aLog.mRecordSN seen entries)
    (hupto : ∀ x ∈ seen, x.sn ≤ aLog.mRecordSN) :
    SlotInv size i (builtNode node aLog false SM_NULL_TID) use
      (seen ++ [eventOf aLog false SM_NULL_TID]) entries := by
  have hnot : false = true ∨ aLog.isBeginLog = true → use = .live SM_NULL_TID := by
    rintro (hfalse | hbegin)
    · cases hfalse
    · rw [hbegins] at hbegin
      cases hbegin
  cases hactive : node.mIsActive with
  | true =>
    exact h.step_held hactive hbegins hi (fun t ht => ht) (fun hfalse => (nomatch hfalse))
      (fun t ht => ht) (by rw [hother]; rfl) (by rw [hother]; decide) hbefore hupto
  | false =>
    exact h.step_fresh (h.inactive hactive) hi (Or.inr rfl) hnot (Or.inr hactive) hbefore hupto

/-- A slot whose events are all covered may be cleared. -/
theorem SlotInv.of_clear {u : SlotUse} (h : ∀ x ∈ seen, x.replicated = true →
    x.tid % size = i → Covered seen entries x) :
    SlotInv size i (.clear Item) u seen entries where
  inactive := fun _ => rfl
  holder := fun hfalse => (nomatch hfalse)
  inSlot := fun hfalse => (nomatch hfalse)
  began := fun hfalse => (nomatch hfalse)
  replic := fun hfalse => (nomatch hfalse)
  grouping := fun hfalse => (nomatch hfalse)
  earlier := fun hfalse => (nomatch hfalse)
  changes := fun x hx hr hi => Or.inl ⟨h x hx hr hi, fun hfalse => (nomatch hfalse)⟩

/-- **The part of a transaction becomes an entry**, and its slot is free: the
entry covers the changes that were pending, and no other. -/
theorem SlotInv.close_entry (h : SlotInv size i node use seen entries)
    (hrepl : node.mIsReplicationTrans = true) (huse : use = .live tid) {u : SlotUse}
    (hupto : ∀ x ∈ seen, x.sn ≤ e.sn) (he : e.replicated = false) (hcloses : Closes e tid)
    (hbefore : ∀ x ∈ seen, x.tid % size = i → x.sn < e.sn)
    (hentries : entries'.Perm (⟨tid, node.mBeginSN, e.sn⟩ :: entries)) :
    SlotInv size i (.clear Item) u (seen ++ [e]) entries' := by
  have hactive : node.mIsActive = true := by
    by_contra hne
    rw [h.inactive (Bool.eq_false_iff.mpr hne)] at hrepl
    cases hrepl
  have hself : e ∈ seen ++ [e] := mem_snoc.mpr (Or.inr rfl)
  apply SlotInv.of_clear
  intro x hx hr hi
  rcases mem_snoc.mp hx with hold | rfl
  · have hcount := coverCount_insert hentries x
    -- a change of an earlier entry, or one that was pending
    rcases h.changes x hold hr hi with ⟨hone, hlt⟩ | ⟨hzero, -, hlive, hle, hopen⟩
    · have hx := hlt hactive
      rw [if_neg, Nat.add_zero] at hcount
      · refine hone.mono (fun z hz y hy => ?_) hcount fun m hm =>
          hentries.mem_iff.mpr (List.mem_cons_of_mem _ hm)
        rw [List.mem_singleton.mp hz]
        exact hupto y hy
      · intro hcover
        have hle := (covers_iff.mp hcover).2.1
        dsimp only at hle
        omega
    · rw [huse] at hlive
      cases hlive
      -- the new entry reaches from the begin of the transaction to this event
      have hcover : covers x ⟨x.tid, node.mBeginSN, e.sn⟩ = true :=
        covers_iff.mpr ⟨rfl, hle, hupto x hold⟩
      rw [hzero, if_pos hcover] at hcount
      refine ⟨hcount, _, hentries.mem_iff.mpr (List.mem_cons_self ..), hcover,
        hbefore x hold hi, ⟨e, hself, rfl, hcloses⟩, fun z hz hlt hz' => ?_⟩
      rcases mem_snoc.mp hz with hzold | rfl
      · exact absurd hz' (hopen z hzold hlt)
      · exact Nat.le_refl _
  · rw [he] at hr
    cases hr

/-- A part without a replicated change leaves no entry. -/
theorem SlotInv.close_empty (h : SlotInv size i node use seen entries)
    (hrepl : node.mIsReplicationTrans = false) {u : SlotUse}
    (hupto : ∀ x ∈ seen, x.sn ≤ e.sn) (he : e.replicated = false) :
    SlotInv size i (.clear Item) u (seen ++ [e]) entries := by
  apply SlotInv.of_clear
  intro x hx hr hi
  rcases mem_snoc.mp hx with hold | rfl
  · refine (h.settled hrepl hold hr hi).mono (fun z hz y hy => ?_) rfl fun _ hm => hm
    rw [List.mem_singleton.mp hz]
    exact hupto y hy
  · rw [he] at hr
    cases hr

/-- **An event and an entry of another slot** change nothing. -/
theorem SlotInv.frame (h : SlotInv size i node use seen entries) {xs : List Event}
    (hxs : ∀ x ∈ xs, x.tid % size ≠ i ∧ x.kind ≠ .fileEnd ∧ ∀ y ∈ seen, y.sn ≤ x.sn)
    (hkeep : ∀ m ∈ entries, m ∈ entries')
    (hmem : ∀ m ∈ entries', m.mReplicatedTransID % size = i → m ∈ entries)
    (hcount : ∀ x, x.tid % size = i → coverCount entries' x = coverCount entries x) :
    SlotInv size i node use (seen ++ xs) entries' := by
  have hnot : ∀ x ∈ seen ++ xs, x.tid % size = i → x ∈ seen := by
    intro x hx hi
    rcases List.mem_append.mp hx with hold | hnew
    · exact hold
    · exact absurd hi (hxs x hnew).1
  constructor
  · exact h.inactive
  · exact h.holder
  · exact h.inSlot
  · -- its begin was read
    intro ha
    obtain ⟨x, hx, hrest⟩ := h.began ha
    exact ⟨x, List.mem_append_left _ hx, hrest⟩
  · exact h.replic
  · -- a node that may join a group
    intro ha hallow
    obtain ⟨t, ht, hti, ⟨x, hx, hrest⟩, hclean⟩ := h.grouping ha hallow
    refine ⟨t, ht, hti, ⟨x, List.mem_append_left _ hx, hrest⟩, fun y hy hyt hle => ?_⟩
    exact hclean y (hnot y hy (by rw [hyt]; exact hti)) hyt hle
  · exact fun ha m hm hmi => h.earlier ha m (hmem m hm hmi) hmi
  · -- each change is in one entry, or it is pending
    intro x hx hr hi
    rcases h.changes x (hnot x hx hi) hr hi with ⟨hone, hlt⟩ | ⟨hzero, hrepl, huse, hle, hopen⟩
    · exact Or.inl ⟨hone.mono (fun z hz => (hxs z hz).2.2) (hcount x hi) hkeep, hlt⟩
    · right
      rw [hcount x hi]
      refine ⟨hzero, hrepl, huse, hle, fun y hy hlt => ?_⟩
      rcases List.mem_append.mp hy with hold | hnew
      · exact hopen y hold hlt
      · rintro (hf | ⟨heq, -⟩)
        · exact (hxs y hnew).2.1 hf
        · rw [← heq] at hi
          exact (hxs y hnew).1 hi

/-- The end of the file, when nothing is pending in the slot. -/
theorem SlotInv.step_fileEnd (h : SlotInv size i node use seen entries)
    (hrepl : node.mIsReplicationTrans = false) (hfile : e.kind = .fileEnd)
    (hr : e.replicated = false) (hupto : ∀ x ∈ seen, x.sn ≤ e.sn) :
    SlotInv size i node use (seen ++ [e]) entries := by
  constructor
  · exact h.inactive
  · exact h.holder
  · exact h.inSlot
  · -- its begin was read
    intro ha
    obtain ⟨x, hx, hrest⟩ := h.began ha
    exact ⟨x, List.mem_append_left _ hx, hrest⟩
  · exact h.replic
  · -- a node that may join a group
    intro ha hallow
    obtain ⟨t, ht, hti, hseen, hclean⟩ := h.grouping ha hallow
    refine ⟨t, ht, hti, hseen.snoc _, fun y hy hyt hle => ?_⟩
    rcases mem_snoc.mp hy with hold | rfl
    · exact hclean y hold hyt hle
    · rw [hfile]
      rfl
  · exact h.earlier
  · -- each change is in one entry, or it is pending
    intro x hx hxr hxi
    rcases mem_snoc.mp hx with hold | rfl
    · rcases h.changes x hold hxr hxi with ⟨hone, hlt⟩ | ⟨-, hpending, -⟩
      · refine Or.inl ⟨hone.mono (fun z hz y hy => ?_) rfl fun _ hm => hm, hlt⟩
        rw [List.mem_singleton.mp hz]
        exact hupto y hy
      · rw [hrepl] at hpending
        cases hpending
    · rw [hr] at hxr
      cases hxr

/-! ## §4. The groups. -/

variable {max : ℕ} {g : ReplicatedTransGroup} {m : ReplicatedTrans}

/-- A later event does not bar an entry. -/
theorem Groupable.snoc (h : Groupable seen m)
    (he : e.kind.bars = false ∨ m.mEndSN < e.sn) : Groupable (seen ++ [e]) m where
  committed := by
    obtain ⟨x, hx, hrest⟩ := h.committed
    exact ⟨x, List.mem_append_left _ hx, hrest⟩
  begun := h.begun.snoc e
  unbarred := by
    intro x hx hid hle hge
    rcases mem_snoc.mp hx with hold | rfl
    · exact h.unbarred x hold hid hle hge
    · rcases he with hbars | hlt
      · exact hbars
      · omega

/-- A pre-abort that was read stays one. -/
theorem PreAborted.snoc (h : PreAborted seen m) (e : Event) : PreAborted (seen ++ [e]) m := by
  obtain ⟨x, hx, hrest⟩ := h
  exact ⟨x, List.mem_append_left _ hx, hrest⟩

/-- The last event is not the pre-abort in question. -/
theorem PreAborted.of_snoc (h : PreAborted (seen ++ [e]) m)
    (he : e.kind ≠ .preAbort ∨ m.mEndSN < e.sn) : PreAborted seen m := by
  obtain ⟨x, hx, hid, hkind, hsn⟩ := h
  rcases mem_snoc.mp hx with hold | rfl
  · exact ⟨x, hold, hid, hkind, hsn⟩
  · rcases he with hne | hlt
    · exact absurd hkind hne
    · omega

/-- The entries of completed groups are entries. -/
theorem mem_entries_of_completed {c : GroupNode} (hc : c ∈ g.mCompletedGroupList)
    (hm : m ∈ c.mReplicatedTrans) : m ∈ g.entries :=
  List.mem_append_left _ (List.mem_flatMap.mpr ⟨c, hc, hm⟩)

/-- **An event more**: it is after all entries, or of no consequence for them. -/
theorem GroupInv.snoc (h : GroupInv max g seen)
    (he : (e.kind.bars = false ∧ e.kind ≠ .preAbort) ∨ ∀ m ∈ g.entries, m.mEndSN < e.sn) :
    GroupInv max g (seen ++ [e]) := by
  have hgood : ∀ m ∈ g.entries, Groupable seen m → Groupable (seen ++ [e]) m := fun m hm hg =>
    hg.snoc (he.imp (fun hk => hk.1) fun hall => hall m hm)
  have hnot : ∀ m ∈ g.entries, ¬ PreAborted seen m → ¬ PreAborted (seen ++ [e]) m :=
    fun m hm hn hp => hn (hp.of_snoc (he.imp (fun hk => hk.2) fun hall => hall m hm))
  constructor
  · exact h.sorted
  · exact h.openLater
  · exact h.openSize
  · -- who is in the open group may share it
    intro m hm
    have hin : m ∈ g.entries := List.mem_append_right _ hm
    exact ⟨hgood m hin (h.openGood m hm).1, hnot m hin (h.openGood m hm).2⟩
  · exact h.size
  · -- who shares a group
    intro c hc htwo m hm
    exact hgood m (mem_entries_of_completed hc hm) (h.several c hc htwo m hm)
  · -- what is not sent
    intro c hc
    rcases h.operation c hc with ⟨hop, hall⟩ | ⟨hop, m, heq, hp⟩
    · exact Or.inl ⟨hop, fun m hm => hnot m (mem_entries_of_completed hc hm) (hall m hm)⟩
    · exact Or.inr ⟨hop, m, heq, hp.snoc e⟩

/-- **A group is completed**: the one being analyzed, with its operation. -/
theorem GroupInv.complete {d : GroupNode} (h : GroupInv max g seen)
    (hlater : ∀ c ∈ g.mCompletedGroupList, c.mEndSN ≤ d.mEndSN)
    (hsize : d.mReplicatedTrans.length ≤ max) (hmax : 0 < max)
    (hgood : 2 ≤ d.mReplicatedTrans.length → ∀ m ∈ d.mReplicatedTrans, Groupable seen m)
    (hop : (d.mOperation = .send ∧ ∀ m ∈ d.mReplicatedTrans, ¬ PreAborted seen m)
      ∨ (d.mOperation = .dontSend ∧ ∃ m, d.mReplicatedTrans = [m] ∧ PreAborted seen m)) :
    GroupInv max ⟨g.mCompletedGroupList ++ [d], .initial⟩ seen := by
  constructor
  · -- the completed groups are in order
    rw [List.pairwise_append]
    refine ⟨h.sorted, List.pairwise_singleton _ _, fun c hc x hx => ?_⟩
    rw [List.mem_singleton.mp hx]
    exact hlater c hc
  · -- the open group ends behind them
    intro hne
    exact absurd rfl hne
  · exact hmax
  · -- who is in the open group may share it
    intro m hm
    cases hm
  · -- the sizes
    intro c hc
    rcases mem_snoc.mp hc with hold | rfl
    · exact h.size c hold
    · exact hsize
  · -- who shares a group
    intro c hc
    rcases mem_snoc.mp hc with hold | rfl
    · exact h.several c hold
    · exact hgood
  · -- what is not sent
    intro c hc
    rcases mem_snoc.mp hc with hold | rfl
    · exact h.operation c hold
    · exact hop

/-- Completing the group being analyzed, if it has an entry. -/
theorem GroupInv.flush (h : GroupInv max g seen) (hmax : 0 < max) :
    GroupInv max (if g.getReplicatedTransCount ≠ 0 then g.addCompletedReplicatedTransGroup .send
      else g) seen ∧ (if g.getReplicatedTransCount ≠ 0 then
        g.addCompletedReplicatedTransGroup .send else g).mAnalyzingGroup.mReplicatedTrans = [] := by
  by_cases hcount : g.getReplicatedTransCount ≠ 0
  · rw [if_pos hcount]
    have hne : g.mAnalyzingGroup.mReplicatedTrans ≠ [] := fun hnil => hcount (by
      unfold ReplicatedTransGroup.getReplicatedTransCount
      rw [hnil]
      rfl)
    exact ⟨h.complete (h.openLater hne) (Nat.le_of_lt h.openSize) hmax
      (fun _ m hm => (h.openGood m hm).1) (Or.inl ⟨rfl, fun m hm => (h.openGood m hm).2⟩), rfl⟩
  · rw [if_neg hcount]
    exact ⟨h, List.length_eq_zero_iff.mp (not_not.mp hcount)⟩

/-- A transaction that is alone in its group. -/
theorem GroupInv.insertOne (h : GroupInv max g seen) (hmax : 0 < max)
    (hempty : g.mAnalyzingGroup.mReplicatedTrans = []) {tid b s : ℕ} {op : GroupOperation}
    (hlater : ∀ c ∈ g.mCompletedGroupList, c.mEndSN ≤ s)
    (hop : (op = .send ∧ ¬ PreAborted seen ⟨tid, b, s⟩)
      ∨ (op = .dontSend ∧ PreAborted seen ⟨tid, b, s⟩)) :
    GroupInv max ((g.insertCompleteTrans tid b s).addCompletedReplicatedTransGroup op) seen := by
  have hone : (g.mAnalyzingGroup.insertCompleteTrans tid b s).mReplicatedTrans
      = [⟨tid, b, s⟩] := by
    apply List.perm_singleton.mp
    have hperm := g.mAnalyzingGroup.insert_perm tid b s
    rw [hempty] at hperm
    exact hperm
  apply h.complete
  · exact hlater
  · show (g.mAnalyzingGroup.insertCompleteTrans tid b s).mReplicatedTrans.length ≤ max
    rw [hone]
    exact hmax
  · exact hmax
  · intro htwo
    have hlen : 2 ≤ (g.mAnalyzingGroup.insertCompleteTrans tid b s).mReplicatedTrans.length := htwo
    rw [hone, List.length_singleton] at hlen
    omega
  · rcases hop with ⟨rfl, hnot⟩ | ⟨rfl, hyes⟩
    · refine Or.inl ⟨rfl, fun m hm => ?_⟩
      have hin : m ∈ (g.mAnalyzingGroup.insertCompleteTrans tid b s).mReplicatedTrans := hm
      rw [hone, List.mem_singleton] at hin
      rw [hin]
      exact hnot
    · exact Or.inr ⟨rfl, _, hone, hyes⟩

/-- No group ends after `s`. -/
structure EndsBy (s : ℕ) (g : ReplicatedTransGroup) : Prop where
  completed : ∀ c ∈ g.mCompletedGroupList, c.mEndSN ≤ s
  analyzing : g.mAnalyzingGroup.mReplicatedTrans ≠ [] → g.mAnalyzingGroup.mEndSN ≤ s

/-- Groups that end by `s` end by any later SN. -/
theorem EndsBy.mono {s t : ℕ} (h : EndsBy s g) (hst : s ≤ t) : EndsBy t g :=
  ⟨fun c hc => (h.completed c hc).trans hst, fun hne => (h.analyzing hne).trans hst⟩

/-- A group that ends by `s` is completed. -/
theorem EndsBy.complete {s : ℕ} {d : GroupNode} (h : EndsBy s g) (hd : d.mEndSN ≤ s) :
    EndsBy s ⟨g.mCompletedGroupList ++ [d], .initial⟩ := by
  constructor
  · intro c hc
    rcases mem_snoc.mp hc with hold | rfl
    · exact h.completed c hold
    · exact hd
  · intro hne
    exact absurd rfl hne

/-- A group with entries is closed. -/
theorem EndsBy.flush {s : ℕ} (h : EndsBy s g) : EndsBy s (if g.getReplicatedTransCount ≠ 0 then
    g.addCompletedReplicatedTransGroup .send else g) := by
  by_cases hcount : g.getReplicatedTransCount ≠ 0
  · rw [if_pos hcount]
    have hne : g.mAnalyzingGroup.mReplicatedTrans ≠ [] := fun hnil => hcount (by
      unfold ReplicatedTransGroup.getReplicatedTransCount
      rw [hnil]
      rfl)
    exact h.complete (h.analyzing hne)
  · rw [if_neg hcount]
    exact h

/-- A transaction gets a group of its own: first the open group is closed. -/
theorem GroupInv.insertAlone (h : GroupInv max g seen) (hmax : 0 < max) {tid b s : ℕ}
    {op : GroupOperation} (hends : EndsBy s g)
    (hop : (op = .send ∧ ¬ PreAborted seen ⟨tid, b, s⟩)
      ∨ (op = .dontSend ∧ PreAborted seen ⟨tid, b, s⟩)) :
    GroupInv max (Rpx.insertAlone g tid b s op) seen ∧ EndsBy s (Rpx.insertAlone g tid b s op) := by
  obtain ⟨hinv, hempty⟩ := h.flush hmax
  have hends' := hends.flush
  exact ⟨hinv.insertOne hmax hempty hends'.completed hop, hends'.complete (Nat.le_refl s)⟩

/-- **A commit joins the group being analyzed**, or is alone. -/
theorem GroupInv.commitInGroup (h : GroupInv max g seen) (hmax : 0 < max) {tid s : ℕ}
    (hends : EndsBy s g) (hnot : ¬ PreAborted seen ⟨tid, node.mBeginSN, s⟩)
    (hgood : node.mAllowToGroup = true → Groupable seen ⟨tid, node.mBeginSN, s⟩) :
    GroupInv max (Rpx.commitInGroup max g node tid s) seen
      ∧ EndsBy s (Rpx.commitInGroup max g node tid s) := by
  unfold Rpx.commitInGroup
  cases hallow : node.mAllowToGroup with
  | false => exact h.insertAlone hmax hends (Or.inl ⟨rfl, hnot⟩)
  | true =>
    rw [if_pos rfl]
    have hlen := g.mAnalyzingGroup.insert_length tid node.mBeginSN s
    have hsize := h.openSize
    have hall : ∀ m ∈ (g.mAnalyzingGroup.insertCompleteTrans tid node.mBeginSN s).mReplicatedTrans,
        Groupable seen m ∧ ¬ PreAborted seen m := by
      intro m hm
      rcases GroupNode.mem_insert.mp hm with rfl | hold
      · exact ⟨hgood hallow, hnot⟩
      · exact h.openGood m hold
    unfold ReplicatedTransGroup.checkAndAddReplicatedTransGroupToComplete
    -- the group is full now, and is completed
    by_cases hfull : max ≤ (g.insertCompleteTrans tid node.mBeginSN s).getReplicatedTransCount
    · rw [if_pos hfull]
      constructor
      · apply h.complete
        · exact hends.completed
        · show (g.mAnalyzingGroup.insertCompleteTrans tid node.mBeginSN s).mReplicatedTrans.length
            ≤ max
          omega
        · exact hmax
        · exact fun _ m hm => (hall m hm).1
        · exact Or.inl ⟨rfl, fun m hm => (hall m hm).2⟩
      · exact hends.complete (Nat.le_refl s)
    · rw [if_neg hfull]
      constructor
      · constructor
        · exact h.sorted
        · exact fun _ => hends.completed
        · exact Nat.lt_of_not_le hfull
        · exact hall
        · exact h.size
        · exact h.several
        · exact h.operation
      · exact ⟨hends.completed, fun _ => Nat.le_refl s⟩

/-! ## §5. One record. -/

/-- **All slots and the groups.**  What was changed before a file end is in a
completed group. -/
structure StreamInv (size max : ℕ) (t : TransTable Item) (use : ℕ → SlotUse)
    (g : ReplicatedTransGroup) (seen : List Event) : Prop where
  slots : ∀ i < size, SlotInv size i (t i) (use i) seen g.entries
  groups : GroupInv max g seen
  flushed : ∀ x ∈ seen, x.replicated = true →
    (∃ y ∈ seen, y.kind = .fileEnd ∧ x.sn < y.sn) → coverCount g.completedEntries x = 1

/-- Nothing was read after `s`. -/
structure Upto (s : ℕ) (g : ReplicatedTransGroup) (seen : List Event) : Prop where
  events : ∀ x ∈ seen, x.sn ≤ s
  entries : ∀ m ∈ g.entries, m.mEndSN ≤ s
  groups : EndsBy s g

variable {t : TransTable Item} {uses uses' : ℕ → SlotUse} {g' : ReplicatedTransGroup} {s : ℕ}

/-- An event whose transaction has ended is covered. -/
theorem SlotInv.closed (h : SlotInv size i node use seen entries) {x : Event} (hx : x ∈ seen)
    (hr : x.replicated = true) (hi : x.tid % size = i)
    (hclosed : ∃ y ∈ seen, x.sn < y.sn ∧ Closes y x.tid) : Covered seen entries x := by
  rcases h.changes x hx hr hi with ⟨hone, -⟩ | ⟨-, -, -, -, hopen⟩
  · exact hone
  · obtain ⟨y, hy, hlt, hcloses⟩ := hclosed
    exact absurd hcloses (hopen y hy hlt)

/-- Completed groups stay. -/
theorem flushed_snoc (hsize : 0 < size)
    (hslots : ∀ i < size, SlotInv size i (t i) (uses i) (seen ++ [e]) g'.entries)
    (hflushed : ∀ x ∈ seen, x.replicated = true →
      (∃ y ∈ seen, y.kind = .fileEnd ∧ x.sn < y.sn) → coverCount g.completedEntries x = 1)
    (hsub : g.completedEntries.Sublist g'.completedEntries) (hfile : e.kind ≠ .fileEnd)
    (hupto : ∀ x ∈ seen, x.sn ≤ e.sn) :
    ∀ x ∈ seen ++ [e], x.replicated = true →
      (∃ y ∈ seen ++ [e], y.kind = .fileEnd ∧ x.sn < y.sn) →
      coverCount g'.completedEntries x = 1 := by
  rintro x hx hr ⟨y, hy, hyfile, hlt⟩
  have hyold : y ∈ seen := by
    rcases mem_snoc.mp hy with hold | rfl
    · exact hold
    · exact absurd hyfile hfile
  have hxold : x ∈ seen := by
    rcases mem_snoc.mp hx with hold | rfl
    · exact hold
    · have := hupto y hyold
      omega
  have hold := hflushed x hxold hr ⟨y, hyold, hyfile, hlt⟩
  have hall := ((hslots (x.tid % size) (Nat.mod_lt _ hsize)).closed hx hr rfl
    ⟨y, hy, hlt, Or.inl hyfile⟩).one
  have hmore : coverCount g.completedEntries x ≤ coverCount g'.completedEntries x :=
    hsub.countP_le
  have hless : coverCount g'.completedEntries x ≤ coverCount g'.entries x :=
    (List.sublist_append_left _ _).countP_le
  omega

/-- The metas of a node do not matter. -/
theorem SlotInv.of_node {node' : AnalyzingTransNode Item}
    (h : SlotInv size i node use seen entries)
    (hnode : node' = { node with
      mItemMetaList := node'.mItemMetaList }) : SlotInv size i node' use seen entries := by
  rw [hnode]
  exact ⟨h.inactive, h.holder, h.inSlot, h.began, h.replic, h.grouping, h.earlier, h.changes⟩

/-- Nor do those of the table. -/
theorem StreamInv.of_table {t' : TransTable Item} (h : StreamInv size max t uses g seen)
    (hsame : SameButMetas t t') : StreamInv size max t' uses g seen :=
  ⟨fun i hi => (h.slots i hi).of_node (hsame i), h.groups, h.flushed⟩

/-- The use of the event's slot advances. -/
theorem advance_cases (h : advance size uses e = some uses') (hfile : e.kind ≠ .fileEnd) :
    (e.tid = SM_NULL_TID ∧ e.kind = .other ∧ e.begins = false ∧ uses' = uses)
      ∨ (e.tid ≠ SM_NULL_TID ∧ ∃ u, nextUse (uses (e.tid % size)) e = some u
          ∧ uses' = Function.update uses (e.tid % size) u) := by
  unfold advance at h
  rw [if_neg hfile] at h
  by_cases hnull : e.tid = SM_NULL_TID
  · rw [if_pos hnull] at h
    by_cases hok : (e.kind = .other && !e.begins) = true
    · rw [if_pos hok] at h
      simp only [Bool.and_eq_true, decide_eq_true_eq, Bool.not_eq_true'] at hok
      cases h
      exact Or.inl ⟨hnull, hok.1, hok.2, rfl⟩
    · rw [if_neg hok] at h
      cases h
  · rw [if_neg hnull] at h
    cases hnext : nextUse (uses (e.tid % size)) e with
    | none =>
      rw [hnext] at h
      cases h
    | some u =>
      rw [hnext] at h
      cases h
      exact Or.inr ⟨hnull, u, rfl, rfl⟩

/-- **A record of a transaction that goes on, or of none.** -/
theorem StreamInv.step_open (h : StreamInv size max t uses g seen) (hsize : 0 < size)
    (hadv : advance size uses (eventOf aLog b tid) = some uses')
    (hends : (kindOf aLog.mLogType).ends = false) (hfile : kindOf aLog.mLogType ≠ .fileEnd)
    (hb : b = true → kindOf aLog.mLogType ≠ .other)
    (hevents : ∀ x ∈ seen, x.sn < aLog.mRecordSN)
    (hentries : ∀ m ∈ g.entries, m.mEndSN < aLog.mRecordSN) :
    StreamInv size max (Function.update t (tid % size) (builtNode (t (tid % size)) aLog b tid))
      uses' g (seen ++ [eventOf aLog b tid]) := by
  have hlt : tid % size < size := Nat.mod_lt _ hsize
  have hupto : ∀ x ∈ seen, x.sn ≤ aLog.mRecordSN := fun x hx => Nat.le_of_lt (hevents x hx)
  have hbefore : SlotBefore size (tid % size) aLog.mRecordSN seen g.entries :=
    ⟨fun x hx _ => hevents x hx, fun m hm _ => hentries m hm⟩
  have hslots : ∀ i < size, SlotInv size i
      (Function.update t (tid % size) (builtNode (t (tid % size)) aLog b tid) i) (uses' i)
      (seen ++ [eventOf aLog b tid]) g.entries := by
    intro i hi
    by_cases hit : i = tid % size
    · -- the slot of the transaction
      rw [hit, Function.update_self]
      rcases advance_cases hadv hfile with ⟨hnull, hother, hbegins, rfl⟩ | ⟨-, u, hnext, rfl⟩
      · -- a record without transaction changes no table
        have hbf : b = false := by
          rw [Bool.eq_false_iff]
          exact fun hbt => hb hbt hother
        have htid : tid = SM_NULL_TID := hnull
        subst htid
        rw [hbf]
        exact (h.slots _ hlt).step_null rfl hbegins hother hbefore hupto
      · have hu : Function.update uses ((eventOf aLog b tid).tid % size) u (tid % size) = u :=
          Function.update_self _ _ _
        rw [hu]
        exact (h.slots _ hlt).step_open rfl hnext hends hfile hb hbefore hupto
    · -- the other slots
      have huse : uses' i = uses i := by
        rcases advance_cases hadv hfile with ⟨-, -, -, rfl⟩ | ⟨-, u, -, rfl⟩
        · rfl
        · exact Function.update_of_ne hit _ _
      rw [Function.update_of_ne hit, huse]
      refine (h.slots i hi).frame (fun x hx => ?_) (fun _ hm => hm) (fun m hm _ => hm)
        fun x _ => rfl
      rw [List.mem_singleton.mp hx]
      exact ⟨fun heq => hit heq.symm, hfile, hupto⟩
  exact ⟨hslots, h.groups.snoc (Or.inr hentries), flushed_snoc hsize hslots h.flushed
    (List.Sublist.refl _) hfile hupto⟩

/-- The node whose transaction ends: if it is replicated, the transaction is the
one that holds the slot. -/
theorem SlotInv.closing (h : SlotInv size i node use seen entries)
    (hnext : nextUse use (eventOf aLog false tid) = some u')
    (hends : (kindOf aLog.mLogType).ends = true) (hrepl : node.mIsReplicationTrans = true) :
    use = .live tid ∧ (builtNode node aLog false tid).mBeginSN = node.mBeginSN
      ∧ (builtNode node aLog false tid).mAllowToGroup = node.mAllowToGroup
      ∧ node.mIsActive = true := by
  obtain ⟨v, hv⟩ := h.replic hrepl
  obtain ⟨-, -, hlive⟩ := nextUse_ends hnext hends
  obtain ⟨rfl, hbegins⟩ := hlive v hv
  have hb : aLog.isBeginLog = false := hbegins
  have hactive : node.mIsActive = true := by
    by_contra hne
    rw [h.inactive (Bool.eq_false_iff.mpr hne)] at hrepl
    cases hrepl
  refine ⟨hv, ?_, ?_, hactive⟩
  · exact if_neg (by rw [hb, hactive]; decide)
  · have hbars : (kindOf aLog.mLogType).bars = false := by
      cases hk : kindOf aLog.mLogType <;> rw [hk] at hends <;> first | rfl | cases hends
    rw [builtNode_allow, hb, hactive, hbars, Bool.false_or, Bool.true_and, Bool.not_false,
      Bool.and_true]

/-- **The end of a transaction.**  If its slot's node is replicated, the groups
take one entry for it. -/
theorem StreamInv.step_close (h : StreamInv size max t uses g seen) (hsize : 0 < size)
    (hadv : advance size uses (eventOf aLog false tid) = some uses')
    (hends : (kindOf aLog.mLogType).ends = true)
    (hupto : ∀ x ∈ seen, x.sn ≤ aLog.mRecordSN)
    (hbefore : ∀ x ∈ seen, x.tid % size = tid % size → x.sn < aLog.mRecordSN)
    (hgroups : GroupInv max g' (seen ++ [eventOf aLog false tid]))
    (hentry : (t (tid % size)).mIsReplicationTrans = true →
      g'.entries.Perm (⟨tid, (t (tid % size)).mBeginSN, aLog.mRecordSN⟩ :: g.entries))
    (hsame : (t (tid % size)).mIsReplicationTrans = false → g' = g)
    (hsub : g.completedEntries.Sublist g'.completedEntries) :
    StreamInv size max (Function.update t (tid % size) (.clear Item)) uses' g'
      (seen ++ [eventOf aLog false tid]) := by
  have hfile : (eventOf aLog false tid).kind ≠ .fileEnd := by
    intro hk
    have hk' : kindOf aLog.mLogType = .fileEnd := hk
    rw [hk'] at hends
    cases hends
  have hlt : tid % size < size := Nat.mod_lt _ hsize
  obtain ⟨-, u, hnext, huses⟩ : tid ≠ SM_NULL_TID ∧ ∃ u,
      nextUse (uses (tid % size)) (eventOf aLog false tid) = some u
        ∧ uses' = Function.update uses (tid % size) u := by
    rcases advance_cases hadv hfile with ⟨-, hother, -, -⟩ | hcase
    · have hk : kindOf aLog.mLogType = .other := hother
      rw [hk] at hends
      cases hends
    · exact hcase
  have hslots : ∀ i < size, SlotInv size i (Function.update t (tid % size) (.clear Item) i)
      (uses' i) (seen ++ [eventOf aLog false tid]) g'.entries := by
    intro i hi
    by_cases hit : i = tid % size
    · rw [hit, Function.update_self]
      -- the slot of the transaction
      cases hrepl : (t (tid % size)).mIsReplicationTrans with
      | false =>
        rw [hsame hrepl]
        exact (h.slots _ hlt).close_empty hrepl hupto rfl
      | true =>
        have huse := ((h.slots _ hlt).closing hnext hends hrepl).1
        exact (h.slots _ hlt).close_entry hrepl huse hupto rfl (Or.inr ⟨rfl, hends⟩) hbefore
          (hentry hrepl)
    · rw [Function.update_of_ne hit, huses, Function.update_of_ne hit]
      -- any other slot: the record is not of it, and neither is the new entry
      have hother : ∀ x ∈ [eventOf aLog false tid],
          x.tid % size ≠ i ∧ x.kind ≠ .fileEnd ∧ ∀ y ∈ seen, y.sn ≤ x.sn := by
        intro x hx
        rw [List.mem_singleton.mp hx]
        exact ⟨fun heq => hit heq.symm, hfile, hupto⟩
      cases hrepl : (t (tid % size)).mIsReplicationTrans with
      | false =>
        rw [hsame hrepl]
        exact (h.slots i hi).frame hother (fun _ hm => hm) (fun m hm _ => hm) fun x _ => rfl
      | true =>
        have hperm := hentry hrepl
        refine (h.slots i hi).frame hother
          (fun m hm => hperm.mem_iff.mpr (List.mem_cons_of_mem _ hm)) (fun m hm hmi => ?_)
          fun x hx => ?_
        · rcases List.mem_cons.mp (hperm.mem_iff.mp hm) with rfl | hold
          · exact absurd hmi.symm hit
          · exact hold
        · rw [coverCount_insert hperm, if_neg, Nat.add_zero]
          intro hcover
          have hid := (covers_iff.mp hcover).1
          dsimp only at hid
          rw [← hid] at hx
          exact hit hx.symm
  exact ⟨hslots, hgroups, flushed_snoc hsize hslots h.flushed hsub hfile hupto⟩

/-- **A commit**, alone or in a group commit. -/
theorem StreamInv.step_commit (h : StreamInv size max t uses g seen) (hsize : 0 < size)
    (hmax : 0 < max) (hadv : advance size uses (eventOf aLog false tid) = some uses')
    (hkind : kindOf aLog.mLogType = .commit)
    (hupto : Upto aLog.mRecordSN g seen)
    (hbefore : SlotBefore size (tid % size) aLog.mRecordSN seen g.entries) :
    StreamInv size max (Function.update t (tid % size) (.clear Item)) uses'
        (if (builtNode (t (tid % size)) aLog false tid).mIsReplicationTrans then
          commitInGroup max g (builtNode (t (tid % size)) aLog false tid) tid aLog.mRecordSN
        else g) (seen ++ [eventOf aLog false tid])
      ∧ Upto aLog.mRecordSN
        (if (builtNode (t (tid % size)) aLog false tid).mIsReplicationTrans then
          commitInGroup max g (builtNode (t (tid % size)) aLog false tid) tid aLog.mRecordSN
        else g) (seen ++ [eventOf aLog false tid]) := by
  have hends : (kindOf aLog.mLogType).ends = true := by
    rw [hkind]
    rfl
  have hcalm : (eventOf aLog false tid).kind.bars = false
      ∧ (eventOf aLog false tid).kind ≠ .preAbort := by
    have hk : (eventOf aLog false tid).kind = .commit := hkind
    rw [hk]
    exact ⟨rfl, by decide⟩
  have hlt : tid % size < size := Nat.mod_lt _ hsize
  have hsnoc := h.groups.snoc (Or.inl hcalm)
  have hevents : ∀ x ∈ seen ++ [eventOf aLog false tid], x.sn ≤ aLog.mRecordSN := by
    intro x hx
    rcases mem_snoc.mp hx with hold | rfl
    · exact hupto.events x hold
    · exact Nat.le_refl _
  have hsame : (builtNode (t (tid % size)) aLog false tid).mIsReplicationTrans
      = (t (tid % size)).mIsReplicationTrans := rfl
  cases hrepl : (t (tid % size)).mIsReplicationTrans with
  | false =>
    rw [hsame, hrepl, if_neg Bool.false_ne_true]
    refine ⟨h.step_close hsize hadv hends hupto.events hbefore.events hsnoc (fun htrue => ?_)
      (fun _ => rfl) (List.Sublist.refl _), hevents, hupto.entries, hupto.groups⟩
    rw [hrepl] at htrue
    cases htrue
  | true =>
    obtain ⟨u, hnext⟩ : ∃ u, nextUse (uses (tid % size)) (eventOf aLog false tid) = some u := by
      rcases advance_cases hadv (by rw [show (eventOf aLog false tid).kind = .commit from hkind]
                                    decide) with ⟨-, hother, -, -⟩ | ⟨-, u, hnext, -⟩
      · have hk : kindOf aLog.mLogType = .other := hother
        rw [hk] at hkind
        cases hkind
      · exact ⟨u, hnext⟩
    obtain ⟨huse, hbegin, hallow, hactive⟩ := (h.slots _ hlt).closing hnext hends hrepl
    rw [hsame, hrepl, if_pos rfl]
    generalize builtNode (t (tid % size)) aLog false tid = node1 at hbegin hallow
    -- no record of the transaction was read at this SN before
    have hnot : ¬ PreAborted (seen ++ [eventOf aLog false tid])
        ⟨tid, node1.mBeginSN, aLog.mRecordSN⟩ := by
      intro hp
      obtain ⟨x, hx, hid, -, hsn⟩ := hp.of_snoc (Or.inl hcalm.2)
      have hxlt := hbefore.events x hx (by rw [hid])
      dsimp only at hsn
      omega
    have hgood : node1.mAllowToGroup = true → Groupable (seen ++ [eventOf aLog false tid])
        ⟨tid, node1.mBeginSN, aLog.mRecordSN⟩ := by
      intro htrue
      rw [hallow] at htrue
      obtain ⟨v, hv, -, hseen, hclean⟩ := (h.slots _ hlt).grouping hactive htrue
      rw [huse] at hv
      cases hv
      refine ⟨⟨_, mem_snoc.mpr (Or.inr rfl), rfl, hkind, rfl⟩, ?_, fun x hx hid hle _ => ?_⟩
      · rw [hbegin]
        exact hseen.snoc _
      · rcases mem_snoc.mp hx with hold | rfl
        · rw [hbegin] at hle
          exact hclean x hold hid hle
        · exact hcalm.1
    obtain ⟨hinv, hby⟩ := hsnoc.commitInGroup hmax hupto.groups hnot hgood
    have hperm := commitInGroup_entries max g node1 tid aLog.mRecordSN
    refine ⟨h.step_close hsize hadv hends hupto.events hbefore.events hinv (fun _ => ?_)
      (fun hfalse => ?_)
      (commitInGroup_sublist max g node1 tid aLog.mRecordSN), hevents, fun m hm => ?_, hby⟩
    · rw [← hbegin]
      exact hperm
    · rw [hrepl] at hfalse
      cases hfalse
    · rcases List.mem_cons.mp (hperm.mem_iff.mp hm) with rfl | hold
      · exact Nat.le_refl _
      · exact hupto.entries m hold

/-- **A pre-abort**: the transaction is alone in its group. -/
theorem StreamInv.step_preAbort (h : StreamInv size max t uses g seen) (hsize : 0 < size)
    (hmax : 0 < max) (hadv : advance size uses (eventOf aLog false tid) = some uses')
    (hkind : kindOf aLog.mLogType = .preAbort) (hby : EndsBy aLog.mRecordSN g)
    (hevents : ∀ x ∈ seen, x.sn < aLog.mRecordSN)
    (hentries : ∀ m ∈ g.entries, m.mEndSN < aLog.mRecordSN) :
    StreamInv size max (Function.update t (tid % size) (.clear Item)) uses'
        (if (builtNode (t (tid % size)) aLog false tid).mIsReplicationTrans then
          insertAlone g tid (builtNode (t (tid % size)) aLog false tid).mBeginSN
            aLog.mRecordSN .dontSend
        else g) (seen ++ [eventOf aLog false tid])
      ∧ Upto aLog.mRecordSN
        (if (builtNode (t (tid % size)) aLog false tid).mIsReplicationTrans then
          insertAlone g tid (builtNode (t (tid % size)) aLog false tid).mBeginSN
            aLog.mRecordSN .dontSend
        else g) (seen ++ [eventOf aLog false tid]) := by
  have hends : (kindOf aLog.mLogType).ends = true := by
    rw [hkind]
    rfl
  have hlt : tid % size < size := Nat.mod_lt _ hsize
  have hsnoc := h.groups.snoc (e := eventOf aLog false tid) (Or.inr hentries)
  have hupto : ∀ x ∈ seen, x.sn ≤ aLog.mRecordSN := fun x hx => Nat.le_of_lt (hevents x hx)
  have hevents' : ∀ x ∈ seen ++ [eventOf aLog false tid], x.sn ≤ aLog.mRecordSN := by
    intro x hx
    rcases mem_snoc.mp hx with hold | rfl
    · exact hupto x hold
    · exact Nat.le_refl _
  have hsame : (builtNode (t (tid % size)) aLog false tid).mIsReplicationTrans
      = (t (tid % size)).mIsReplicationTrans := rfl
  cases hrepl : (t (tid % size)).mIsReplicationTrans with
  | false =>
    rw [hsame, hrepl, if_neg Bool.false_ne_true]
    refine ⟨h.step_close hsize hadv hends hupto (fun x hx _ => hevents x hx) hsnoc
      (fun htrue => ?_) (fun _ => rfl) (List.Sublist.refl _), hevents',
      fun m hm => Nat.le_of_lt (hentries m hm), hby⟩
    rw [hrepl] at htrue
    cases htrue
  | true =>
    -- the transaction is the one that is live in its slot
    obtain ⟨u, hnext⟩ : ∃ u, nextUse (uses (tid % size)) (eventOf aLog false tid) = some u := by
      rcases advance_cases hadv (by rw [show (eventOf aLog false tid).kind = .preAbort from hkind]
                                    decide) with ⟨-, hother, -, -⟩ | ⟨-, u, hnext, -⟩
      · have hk : kindOf aLog.mLogType = .other := hother
        rw [hk] at hkind
        cases hkind
      · exact ⟨u, hnext⟩
    obtain ⟨-, hbegin, -, -⟩ := (h.slots _ hlt).closing hnext hends hrepl
    rw [hsame, hrepl, if_pos rfl, hbegin]
    -- its entry is the only one of a group that is not sent
    have haborted : PreAborted (seen ++ [eventOf aLog false tid])
        ⟨tid, (t (tid % size)).mBeginSN, aLog.mRecordSN⟩ :=
      ⟨_, mem_snoc.mpr (Or.inr rfl), rfl, hkind, rfl⟩
    obtain ⟨hinv, hby'⟩ := hsnoc.insertAlone hmax hby (Or.inr ⟨rfl, haborted⟩)
    have hperm := insertAlone_entries g tid (t (tid % size)).mBeginSN aLog.mRecordSN .dontSend
    refine ⟨h.step_close hsize hadv hends hupto (fun x hx _ => hevents x hx) hinv (fun _ => hperm)
      (fun hfalse => ?_)
      (insertAlone_sublist g tid (t (tid % size)).mBeginSN aLog.mRecordSN .dontSend), hevents',
      fun m hm => ?_, hby'⟩
    · rw [hrepl] at hfalse
      cases hfalse
    · rcases List.mem_cons.mp (hperm.mem_iff.mp hm) with rfl | hold
      · exact Nat.le_refl _
      · exact Nat.le_of_lt (hentries m hold)

/-- The entries stay when the group being analyzed is completed. -/
theorem flush_entries (g : ReplicatedTransGroup) :
    (if g.getReplicatedTransCount ≠ 0 then g.addCompletedReplicatedTransGroup .send
      else g).entries = g.entries := by
  split
  · exact addCompleted_entries g .send
  · rfl

variable {Meta : Type} {a : AheadAnalyzer Item Meta}

/-- **The slots below `k` have been completed** at the file end `e`. -/
structure Flushing (size max : ℕ) (uses : ℕ → SlotUse) (seen : List Event) (e : Event) (k : ℕ)
    (a : AheadAnalyzer Item Meta) : Prop where
  done : ∀ i < k, SlotInv size i (a.mTransTable i) (uses i) (seen ++ [e])
    a.mReplicatedTransGroup.entries
  rest : ∀ i < size, k ≤ i → SlotInv size i (a.mTransTable i) (uses i) seen
    a.mReplicatedTransGroup.entries
  groups : GroupInv max a.mReplicatedTransGroup seen
  empty : a.mReplicatedTransGroup.mAnalyzingGroup.mReplicatedTrans = []
  ends : EndsBy e.sn a.mReplicatedTransGroup
  entries : ∀ m ∈ a.mReplicatedTransGroup.entries, m.mEndSN ≤ e.sn
  held : ∀ i < size, k ≤ i → (a.mTransTable i).mIsActive = true →
    (a.mTransTable i).mIsReplicationTrans = true → (a.mTransTable i).mTransID ≠ SM_NULL_TID

/-- An entry of another slot. -/
theorem SlotInv.frame_entry (h : SlotInv size i node use seen entries)
    (hperm : entries'.Perm (m :: entries)) (hm : m.mReplicatedTransID % size ≠ i) :
    SlotInv size i node use seen entries' := by
  have hframe : SlotInv size i node use (seen ++ []) entries' := by
    refine h.frame (fun x hx => (nomatch hx))
      (fun x hx => hperm.mem_iff.mpr (List.mem_cons_of_mem _ hx)) (fun x hx hxi => ?_)
      fun x hx => ?_
    · rcases List.mem_cons.mp (hperm.mem_iff.mp hx) with rfl | hold
      · exact absurd hxi hm
      · exact hold
    · rw [coverCount_insert hperm, if_neg, Nat.add_zero]
      intro hcover
      rw [← (covers_iff.mp hcover).1] at hx
      exact hm hx
  rw [List.append_nil] at hframe
  exact hframe

/-- **One slot at the end of the file.** -/
theorem Flushing.step (hmax : 0 < max) {k : ℕ} (hk : k < size)
    (h : Flushing size max uses seen e k a) (hfile : e.kind = .fileEnd)
    (hr : e.replicated = false) (hevents : ∀ x ∈ seen, x.sn < e.sn) :
    Flushing size max uses seen e (k + 1) (addCompletedFromActiveTrans size e.sn a k) := by
  have hslot := h.rest k hk (Nat.le_refl k)
  have hupto : ∀ x ∈ seen, x.sn ≤ e.sn := fun x hx => Nat.le_of_lt (hevents x hx)
  unfold addCompletedFromActiveTrans
  by_cases hpart : ((a.mTransTable k).mIsActive && (a.mTransTable k).mIsReplicationTrans) = true
  · rw [if_pos hpart]
    dsimp only
    rw [Bool.and_eq_true] at hpart
    obtain ⟨hactive, hrepl⟩ := hpart
    have hin := hslot.inSlot hactive
    -- the node is not held under `SM_NULL_TID`, so it is the one of the live transaction
    have huse : uses k = .live (a.mTransTable k).mTransID := by
      obtain ⟨v, hv⟩ := hslot.replic hrepl
      rcases hslot.holder hactive with hnull | huser
      · exact absurd hnull (h.held k hk (Nat.le_refl k) hactive hrepl)
      · rw [hv] at huser ⊢
        cases huser
        rfl
    have htable : clearTransNodeFromTransID size
        (modify a.mTransTable k fun node => { node with mAllowToGroup := false })
        (a.mTransTable k).mTransID = Function.update a.mTransTable k (.clear Item) := by
      unfold clearTransNodeFromTransID getIndex
      rw [hin]
      exact Function.update_idem _ _ _
    rw [htable]
    generalize htid : (a.mTransTable k).mTransID = tid at hin huse
    generalize hbegin : (a.mTransTable k).mBeginSN = b
    -- no record with the SN of the file end was read before
    have hnot : ¬ PreAborted seen ⟨tid, b, e.sn⟩ := by
      rintro ⟨x, hx, -, -, hsn⟩
      have hxlt := hevents x hx
      dsimp only at hsn
      omega
    have hperm : ((a.mReplicatedTransGroup.insertCompleteTrans tid b
        e.sn).addCompletedReplicatedTransGroup .send).entries.Perm
          (⟨tid, b, e.sn⟩ :: a.mReplicatedTransGroup.entries) := by
      rw [addCompleted_entries]
      exact insertCompleteTrans_entries _ tid b e.sn
    refine ⟨fun i hi => ?_, fun i hi hki => ?_,
      h.groups.insertOne hmax h.empty h.ends.completed (Or.inl ⟨rfl, hnot⟩), rfl,
      h.ends.complete (Nat.le_refl e.sn), fun m hm => ?_, fun i hi hki ha hrep => ?_⟩
    · dsimp only
      by_cases hik : i = k
      · rw [hik, Function.update_self]
        refine hslot.close_entry hrepl huse hupto hr (Or.inl hfile)
          (fun x hx _ => hevents x hx) ?_
        rw [hbegin]
        exact hperm
      · rw [Function.update_of_ne hik]
        exact (h.done i (by omega)).frame_entry hperm fun heq => hik (heq.symm.trans hin)
    · dsimp only
      have hik : i ≠ k := by omega
      rw [Function.update_of_ne hik]
      exact (h.rest i hi (by omega)).frame_entry hperm fun heq => hik (heq.symm.trans hin)
    · rcases List.mem_cons.mp (hperm.mem_iff.mp hm) with rfl | hold
      · exact Nat.le_refl e.sn
      · exact h.entries m hold
    · have hik : i ≠ k := by omega
      dsimp only at ha hrep ⊢
      rw [Function.update_of_ne hik] at ha hrep ⊢
      exact h.held i hi (by omega) ha hrep
  · rw [if_neg hpart]
    -- nothing is pending in the slot
    have hrepl : (a.mTransTable k).mIsReplicationTrans = false := by
      cases hactive : (a.mTransTable k).mIsActive with
      | false => exact hslot.inactive hactive
      | true =>
        rw [hactive, Bool.true_and] at hpart
        exact Bool.eq_false_iff.mpr hpart
    refine ⟨fun i hi => ?_, fun i hi hki => h.rest i hi (by omega), h.groups, h.empty, h.ends,
      h.entries, fun i hi hki => h.held i hi (by omega)⟩
    by_cases hik : i = k
    · rw [hik]
      exact hslot.step_fileEnd hrepl hfile hr hupto
    · exact h.done i (by omega)

/-- A file end, by induction on the slots that have been gone through. -/
theorem Flushing.run (hmax : 0 < max) (hfile : e.kind = .fileEnd) (hr : e.replicated = false)
    (hevents : ∀ x ∈ seen, x.sn < e.sn) (h : Flushing size max uses seen e 0 a) (k : ℕ)
    (hk : k ≤ size) :
    Flushing size max uses seen e k
      ((List.range k).foldl (addCompletedFromActiveTrans size e.sn) a) := by
  induction k with
  | zero => exact h
  | succ k ih =>
    rw [List.range_succ, List.foldl_append]
    exact (ih (by omega)).step hmax (by omega) hfile hr hevents

/-- **The end of a log file**: every part becomes an entry. -/
theorem StreamInv.step_fileEnd
    (h : StreamInv size max a.mTransTable uses a.mReplicatedTransGroup seen) (hsize : 0 < size)
    (hmax : 0 < max) (hfile : e.kind = .fileEnd) (hr : e.replicated = false)
    (hends : EndsBy e.sn a.mReplicatedTransGroup)
    (hentries : ∀ m ∈ a.mReplicatedTransGroup.entries, m.mEndSN ≤ e.sn)
    (hheld : ∀ i < size, (a.mTransTable i).mIsActive = true →
      (a.mTransTable i).mIsReplicationTrans = true → (a.mTransTable i).mTransID ≠ SM_NULL_TID)
    (hevents : ∀ x ∈ seen, x.sn < e.sn) {a' : AheadAnalyzer Item Meta}
    (ha' : addCompletedReplicatedTransGroupFromAllActiveTrans size a e.sn = a') :
    StreamInv size max a'.mTransTable uses a'.mReplicatedTransGroup (seen ++ [e])
      ∧ Upto e.sn a'.mReplicatedTransGroup (seen ++ [e]) := by
  let g1 := if a.mReplicatedTransGroup.getReplicatedTransCount ≠ 0 then
    a.mReplicatedTransGroup.addCompletedReplicatedTransGroup .send else a.mReplicatedTransGroup
  have hstart : (if a.mReplicatedTransGroup.getReplicatedTransCount ≠ 0 then
      { a with
        mReplicatedTransGroup :=
          a.mReplicatedTransGroup.addCompletedReplicatedTransGroup .send }
      else a) = { a with mReplicatedTransGroup := g1 } := by
    show _ = { a with
      mReplicatedTransGroup := if a.mReplicatedTransGroup.getReplicatedTransCount ≠ 0 then
        a.mReplicatedTransGroup.addCompletedReplicatedTransGroup .send
        else a.mReplicatedTransGroup }
    split <;> rfl
  have hg1 : g1.entries = a.mReplicatedTransGroup.entries := flush_entries _
  obtain ⟨hgroups, hempty⟩ := h.groups.flush hmax
  -- the open group is completed first, then the slots are gone through
  have hinit : Flushing size max uses seen e 0 { a with
      mReplicatedTransGroup := g1 } := by
    refine ⟨fun i hi => absurd hi (Nat.not_lt_zero i), fun i hi _ => ?_, hgroups, hempty,
      hends.flush, by rw [hg1]; exact hentries, fun i hi _ => hheld i hi⟩
    dsimp only
    rw [hg1]
    exact h.slots i hi
  have hlast := hinit.run hmax hfile hr hevents size (Nat.le_refl size)
  have heq : addCompletedReplicatedTransGroupFromAllActiveTrans size a e.sn
      = (List.range size).foldl (addCompletedFromActiveTrans size e.sn)
          { a with
            mReplicatedTransGroup := g1 } := by
    unfold addCompletedReplicatedTransGroupFromAllActiveTrans
    rw [hstart]
  rw [← heq, ha'] at hlast
  -- no entry is left in the open group
  have hall : a'.mReplicatedTransGroup.entries
      = a'.mReplicatedTransGroup.completedEntries := by
    unfold ReplicatedTransGroup.entries
    rw [hlast.empty, List.append_nil]
  refine ⟨⟨hlast.done, hlast.groups.snoc (Or.inl (by rw [hfile]; exact ⟨rfl, by decide⟩)), ?_⟩,
    fun x hx => ?_, hlast.entries, hlast.ends⟩
  · rintro x hx hxr ⟨y, hy, hyfile, hlt⟩
    rw [← hall]
    exact ((hlast.done _ (Nat.mod_lt _ hsize)).closed hx hxr rfl ⟨y, hy, hlt, Or.inl hyfile⟩).one
  · rcases mem_snoc.mp hx with hold | rfl
    · exact Nat.le_of_lt (hevents x hold)
    · exact Nat.le_refl _

end Slot

/-! ## §6. Runs. -/

section Runs

variable {Oid Item Meta : Type} {size max : ℕ}
variable {searchTable : Meta → Oid → Bool} {updateMeta : Meta → Item → Meta}

/-- What holds between two log records. -/
structure RunInv (size max : ℕ) (r : LogRun Item Meta) : Prop where
  inv : StreamInv size max r.analyzer.mTransTable r.use r.analyzer.mReplicatedTransGroup r.seen
  events : ∀ x ∈ r.seen, x.sn < r.nextSN
  entries : ∀ m ∈ r.analyzer.mReplicatedTransGroup.entries, m.mEndSN < r.nextSN
  groups : EndsBy r.nextSN r.analyzer.mReplicatedTransGroup

/-- The transactions of a group commit, one after the other. -/
theorem StreamInv.step_groupCommit (hsize : 0 < size) (hmax : 0 < max)
    {aLog : LogRec Oid Item} {l : List ℕ} (htype : ∃ l, aLog.mLogType = .transGroupCommit l)
    (hplain : aLog.isBeginLog = false) {a : AheadAnalyzer Item Meta} {uses uses' : ℕ → SlotUse}
    {seen : List Event}
    (h : StreamInv size max a.mTransTable uses a.mReplicatedTransGroup seen)
    (hadv : advanceAll size uses (l.map (eventOf aLog false)) = some uses')
    (hupto : Upto aLog.mRecordSN a.mReplicatedTransGroup seen)
    (hbefore : ∀ i < size, (∃ t, uses i = .ended t)
      ∨ SlotBefore size i aLog.mRecordSN seen a.mReplicatedTransGroup.entries) :
    StreamInv size max (l.foldl (analyzeTrans size max aLog false) a).mTransTable uses'
        (l.foldl (analyzeTrans size max aLog false) a).mReplicatedTransGroup
        (seen ++ l.map (eventOf aLog false))
      ∧ Upto aLog.mRecordSN (l.foldl (analyzeTrans size max aLog false) a).mReplicatedTransGroup
        (seen ++ l.map (eventOf aLog false)) := by
  induction l generalizing a uses seen with
  | nil =>
    rw [List.map_nil] at hadv
    cases hadv
    rw [List.map_nil, List.append_nil]
    exact ⟨h, hupto⟩
  | cons tid l ih =>
    have hkind : kindOf aLog.mLogType = .commit := by
      obtain ⟨l', hl'⟩ := htype
      rw [hl']
      rfl
    rw [List.map_cons, advanceAll] at hadv
    cases hone : advance size uses (eventOf aLog false tid) with
    | none =>
      rw [hone] at hadv
      cases hadv
    | some uses1 =>
      rw [hone] at hadv
      have hfile : (eventOf aLog false tid).kind ≠ .fileEnd := by
        rw [show (eventOf aLog false tid).kind = .commit from hkind]
        decide
      obtain ⟨u, hnext, huses⟩ : ∃ u,
          nextUse (uses (tid % size)) (eventOf aLog false tid) = some u
            ∧ uses1 = Function.update uses (tid % size) u := by
        rcases advance_cases hone hfile with ⟨-, hother, -, -⟩ | ⟨-, hcase⟩
        · have hk : kindOf aLog.mLogType = .other := hother
          rw [hk] at hkind
          cases hkind
        · exact hcase
      obtain ⟨hu, hnotEnded, -⟩ := nextUse_ends hnext (by
        rw [show (eventOf aLog false tid).kind = .commit from hkind]
        rfl)
      have hlt : tid % size < size := Nat.mod_lt _ hsize
      -- a transaction does not end twice
      have hslot : SlotBefore size (tid % size) aLog.mRecordSN seen
          a.mReplicatedTransGroup.entries := by
        rcases hbefore _ hlt with ⟨t, ht⟩ | hb
        · rcases hnotEnded t with hne | hbegins
          · exact absurd ht hne
          · have hb : aLog.isBeginLog = true := hbegins
            rw [hplain] at hb
            cases hb
        · exact hb
      obtain ⟨hinv, hupto'⟩ := h.step_commit hsize hmax hone hkind hupto hslot
      have hstep : analyzeTrans size max aLog false a tid = _ :=
        analyzeTrans_commit a rfl (Or.inr htype)
      rw [List.foldl_cons, hstep, List.map_cons, ← List.singleton_append, ← List.append_assoc]
      refine ih hinv hadv hupto' fun i hi => ?_
      by_cases hit : i = tid % size
      · left
        rw [huses, hit, Function.update_self, hu]
        exact ⟨_, rfl⟩
      · rw [huses, Function.update_of_ne hit]
        rcases hbefore i hi with hended | hb
        · exact Or.inl hended
        · right
          constructor
          · intro x hx hxi
            rcases mem_snoc.mp hx with hold | rfl
            · exact hb.events x hold hxi
            · exact absurd hxi.symm hit
          · intro m hm hmi
            dsimp only at hm
            split at hm
            · have hperm := commitInGroup_entries max a.mReplicatedTransGroup
                (builtNode (a.mTransTable (tid % size)) aLog false tid) tid aLog.mRecordSN
              rcases List.mem_cons.mp (hperm.mem_iff.mp hm) with rfl | hold
              · exact absurd hmi.symm hit
              · exact hb.ends m hold hmi
            · exact hb.ends m hm hmi

/-- A replicated record changes a table or its meta. -/
theorem searchTableOf_kind {m : Meta} {ty : LogType Oid Item}
    (h : searchTableOf searchTable m ty = true) :
    kindOf ty = .change ∨ kindOf ty = .tableMeta := by
  cases ty <;> first | exact Or.inl rfl | exact Or.inr rfl | cases h

/-- What a log record is read into. -/
theorem readStep_some {r r' : LogRun Item Meta} {aLog : LogRec Oid Item}
    (h : readStep size max searchTable updateMeta r aLog = some r') :
    r.nextSN ≤ aLog.mRecordSN ∧ headIsPlain aLog = true
      ∧ r'.analyzer = analyze size max searchTable updateMeta r.analyzer aLog
      ∧ r'.nextSN = aLog.mRecordSN + 1
      ∧ r'.seen
          = r.seen ++ eventsOf aLog (replicatedIn size searchTable updateMeta r aLog)
      ∧ advanceAll size r.use
          (eventsOf aLog (replicatedIn size searchTable updateMeta r aLog)) = some r'.use := by
  unfold readStep at h
  dsimp only at h
  cases hadv : advanceAll size r.use
      (eventsOf aLog (replicatedIn size searchTable updateMeta r aLog)) with
  | none =>
    rw [hadv] at h
    cases h
  | some use =>
    rw [hadv] at h
    dsimp only at h
    by_cases hok : r.nextSN ≤ aLog.mRecordSN ∧ headIsPlain aLog = true
    · rw [if_pos hok] at h
      cases h
      exact ⟨hok.1, hok.2, rfl, rfl, rfl, rfl⟩
    · rw [if_neg hok] at h
      cases h

/-- A log record of one event. -/
theorem advanceAll_one {uses uses' : ℕ → SlotUse} {e : Event}
    (h : advanceAll size uses [e] = some uses') : advance size uses e = some uses' := by
  rw [advanceAll] at h
  cases hone : advance size uses e with
  | none =>
    rw [hone] at h
    cases h
  | some u =>
    rw [hone] at h
    exact h

/-- A log record of one transaction that goes on. -/
theorem open_types {aLog : LogRec Oid Item} (hends : (kindOf aLog.mLogType).ends = false) :
    aLog.mLogType ≠ .transCommit ∧ (∀ l, aLog.mLogType ≠ .transGroupCommit l)
      ∧ aLog.mLogType ≠ .transPreAbort := by
  cases htype : aLog.mLogType <;> rw [htype] at hends <;> simp_all [kindOf, EventKind.ends]

/-- Only a commit has more than one event. -/
theorem eventsOf_open {aLog : LogRec Oid Item} (hends : (kindOf aLog.mLogType).ends = false)
    (b : Bool) : eventsOf aLog b = [eventOf aLog b aLog.mTransID] := by
  unfold eventsOf
  cases htype : aLog.mLogType <;> first | rfl | (rw [htype] at hends; cases hends)

/-- The analyzer on a log record that ends nothing. -/
theorem analyze_open {a : AheadAnalyzer Item Meta} {aLog : LogRec Oid Item}
    (hends : (kindOf aLog.mLogType).ends = false) (hfile : kindOf aLog.mLogType ≠ .fileEnd) :
    analyze size max searchTable updateMeta a aLog
        = analyzeTrans size max aLog (searchTableOf searchTable
            (analyzeMeta size updateMeta a aLog).mMeta aLog.mLogType)
            (analyzeMeta size updateMeta a aLog) aLog.mTransID := by
  unfold analyze
  cases htype : aLog.mLogType <;> rw [htype] at hends hfile
    <;> simp_all [kindOf, EventKind.ends]

/-- The invariant of the run, from that of the last log record. -/
theorem RunInv.of_upto {r : LogRun Item Meta} {s : ℕ}
    (hinv : StreamInv size max r.analyzer.mTransTable r.use r.analyzer.mReplicatedTransGroup
      r.seen) (hupto : Upto s r.analyzer.mReplicatedTransGroup r.seen) (hnext : r.nextSN = s + 1) :
    RunInv size max r where
  inv := hinv
  events := fun x hx => by
    have := hupto.events x hx
    omega
  entries := fun m hm => by
    have := hupto.entries m hm
    omega
  groups := hupto.groups.mono (by omega)

/-- **One log record keeps everything.** -/
theorem readStep_inv (hsize : 0 < size) (hmax : 0 < max) {r r' : LogRun Item Meta}
    {aLog : LogRec Oid Item} (h : RunInv size max r) (hheld : FileEndHeld size r aLog)
    (hst : readStep size max searchTable updateMeta r aLog = some r') : RunInv size max r' := by
  obtain ⟨hnext, hplain, hanalyzer, hnext', hseen, hadv⟩ := readStep_some hst
  obtain ⟨hgroup, hsame⟩ : (analyzeMeta size updateMeta r.analyzer aLog).mReplicatedTransGroup
      = r.analyzer.mReplicatedTransGroup ∧ SameButMetas r.analyzer.mTransTable
        (analyzeMeta size updateMeta r.analyzer aLog).mTransTable :=
    analyzeMeta_same updateMeta r.analyzer aLog
  -- the metas that are applied first touch neither the groups nor the slots
  have hinv := h.inv.of_table hsame
  rw [← hgroup] at hinv
  have hevents : ∀ x ∈ r.seen, x.sn < aLog.mRecordSN := fun x hx =>
    (h.events x hx).trans_le hnext
  have hentries : ∀ m ∈ (analyzeMeta size updateMeta r.analyzer aLog).mReplicatedTransGroup.entries,
      m.mEndSN < aLog.mRecordSN := by
    rw [hgroup]
    exact fun m hm => (h.entries m hm).trans_le hnext
  have hby : EndsBy aLog.mRecordSN
      (analyzeMeta size updateMeta r.analyzer aLog).mReplicatedTransGroup := by
    rw [hgroup]
    exact h.groups.mono hnext
  have hupto : Upto aLog.mRecordSN
      (analyzeMeta size updateMeta r.analyzer aLog).mReplicatedTransGroup r.seen :=
    ⟨fun x hx => Nat.le_of_lt (hevents x hx), fun m hm => Nat.le_of_lt (hentries m hm), hby⟩
  have hbefore : ∀ i, SlotBefore size i aLog.mRecordSN r.seen
      (analyzeMeta size updateMeta r.analyzer aLog).mReplicatedTransGroup.entries :=
    fun i => ⟨fun x hx _ => hevents x hx, fun m hm _ => hentries m hm⟩
  have hboth : StreamInv size max r'.analyzer.mTransTable r'.use
      r'.analyzer.mReplicatedTransGroup r'.seen
        ∧ Upto aLog.mRecordSN r'.analyzer.mReplicatedTransGroup r'.seen := by
    rw [hanalyzer, hseen]
    -- the end of the file
    by_cases hfile : kindOf aLog.mLogType = .fileEnd
    · have htype : aLog.mLogType = .fileEnd := by
        cases hty : aLog.mLogType <;> rw [hty] at hfile <;> first | rfl | cases hfile
      have hb : replicatedIn size searchTable updateMeta r aLog = false := by
        unfold replicatedIn
        rw [htype]
        rfl
      have hone : eventsOf aLog (replicatedIn size searchTable updateMeta r aLog)
          = [eventOf aLog false aLog.mTransID] := by
        unfold eventsOf
        rw [hb, htype]
      have huse : r'.use = r.use := by
        rw [hone] at hadv
        have hadv' := advanceAll_one hadv
        unfold advance at hadv'
        rw [if_pos (show (eventOf aLog false aLog.mTransID).kind = .fileEnd from hfile)] at hadv'
        exact (Option.some.inj hadv').symm
      rw [hone, huse]
      refine hinv.step_fileEnd hsize hmax hfile rfl hby hupto.entries (fun i hi ha hr => ?_)
        hevents ?_
      · rw [hsame i] at ha hr ⊢
        exact hheld htype i hi ha hr
      · unfold analyze
        rw [htype]
        rfl
    -- a record that ends transactions carries no change
    by_cases hends : (kindOf aLog.mLogType).ends = true
    · have hb : replicatedIn size searchTable updateMeta r aLog = false := by
        rw [Bool.eq_false_iff]
        intro htrue
        rcases searchTableOf_kind htrue with hk | hk <;> rw [hk] at hends <;> cases hends
      rw [hb] at hadv ⊢
      cases htype : aLog.mLogType with
      | transCommit =>
        have hone : eventsOf aLog false = [eventOf aLog false aLog.mTransID] := by
          unfold eventsOf
          rw [htype]
        have hrun : analyze size max searchTable updateMeta r.analyzer aLog
            = analyzeTrans size max aLog false (analyzeMeta size updateMeta r.analyzer aLog)
                aLog.mTransID := by
          unfold analyze
          rw [htype]
          rfl
        rw [hone] at hadv ⊢
        rw [hrun, analyzeTrans_commit _ rfl (Or.inl htype)]
        exact hinv.step_commit hsize hmax (advanceAll_one hadv) (by rw [htype]; rfl) hupto
          (hbefore _)
      | transGroupCommit l =>
        have hone : eventsOf aLog false = l.map (eventOf aLog false) := by
          unfold eventsOf
          rw [htype]
        have hrun : analyze size max searchTable updateMeta r.analyzer aLog
            = l.foldl (analyzeTrans size max aLog false)
                (analyzeMeta size updateMeta r.analyzer aLog) := by
          unfold analyze
          rw [htype]
          rfl
        have hnotBegin : aLog.isBeginLog = false := by
          unfold headIsPlain at hplain
          rw [htype] at hplain
          simpa using hplain
        rw [hone] at hadv ⊢
        rw [hrun]
        exact StreamInv.step_groupCommit hsize hmax ⟨l, htype⟩ hnotBegin hinv hadv hupto
          fun i _ => Or.inr (hbefore i)
      | transPreAbort =>
        have hone : eventsOf aLog false = [eventOf aLog false aLog.mTransID] := by
          unfold eventsOf
          rw [htype]
        have hrun : analyze size max searchTable updateMeta r.analyzer aLog
            = analyzeTrans size max aLog false (analyzeMeta size updateMeta r.analyzer aLog)
                aLog.mTransID := by
          unfold analyze
          rw [htype]
          rfl
        rw [hone] at hadv ⊢
        rw [hrun, analyzeTrans_preAbort _ rfl htype]
        exact hinv.step_preAbort hsize hmax (advanceAll_one hadv) (by rw [htype]; rfl) hby
          hevents hentries
      | _ =>
        rw [htype] at hends
        cases hends
    · -- a record of a transaction that goes on
      have hopen : (kindOf aLog.mLogType).ends = false := Bool.eq_false_iff.mpr hends
      obtain ⟨hcommit, hgroupCommit, habort⟩ := open_types hopen
      rw [eventsOf_open hopen] at hadv ⊢
      rw [analyze_open hopen hfile, analyzeTrans_open _ hcommit hgroupCommit habort]
      have hb : replicatedIn size searchTable updateMeta r aLog = true →
          kindOf aLog.mLogType ≠ .other := by
        intro htrue hother
        rcases searchTableOf_kind htrue with hk | hk <;> rw [hk] at hother <;> cases hother
      refine ⟨hinv.step_open hsize (advanceAll_one hadv) hopen hfile hb hevents hentries,
        fun x hx => ?_, hupto.entries, hby⟩
      rcases mem_snoc.mp hx with hold | rfl
      · exact Nat.le_of_lt (hevents x hold)
      · exact Nat.le_refl _
  exact .of_upto hboth.1 hboth.2 hnext'

/-- Nothing has been read. -/
theorem init_runInv (hmax : 0 < max) (mMeta : Meta) :
    RunInv size max (⟨startToAnalyze mMeta, fun _ => .unseen, 0, []⟩ : LogRun Item Meta) where
  inv :=
    { slots := fun _ _ => SlotInv.of_clear fun _ hx => (nomatch hx)
      groups := ⟨List.Pairwise.nil, fun hne => absurd rfl hne, hmax, fun _ hm => (nomatch hm),
        fun _ hc => (nomatch hc), fun _ hc => (nomatch hc), fun _ hc => (nomatch hc)⟩
      flushed := fun _ hx => (nomatch hx) }
  events := fun _ hx => (nomatch hx)
  entries := fun _ hm => (nomatch hm)
  groups := ⟨fun _ hc => (nomatch hc), fun hne => absurd rfl hne⟩

/-- **Every run keeps the invariant.** -/
theorem readSystem_inv (hsize : 0 < size) (hmax : 0 < max) (mMeta : Meta)
    {r : LogRun Item Meta}
    (hr : (readSystem size max searchTable updateMeta mMeta).ReachableBy
      (FileEndHeld size) r) : RunInv size max r :=
  System.Path.invariant hr (fun _ _ _ h hheld hst => readStep_inv hsize hmax h hheld hst)
    (init_runInv hmax mMeta)

/-- **What the groups are for.**  An entry is in a completed group, or in the
group being analyzed until that is completed. -/
structure GroupsHold (max : ℕ) (g : ReplicatedTransGroup) (seen : List Event) : Prop where
  sorted : g.mCompletedGroupList.Pairwise fun c d => c.mEndSN ≤ d.mEndSN
  size : ∀ c ∈ g.mCompletedGroupList, c.mReplicatedTrans.length ≤ max
  several : ∀ c ∈ g.mCompletedGroupList, 2 ≤ c.mReplicatedTrans.length →
    ∀ m ∈ c.mReplicatedTrans, Groupable seen m
  operation : ∀ c ∈ g.mCompletedGroupList,
    (c.mOperation = .send ∧ ∀ m ∈ c.mReplicatedTrans, ¬ PreAborted seen m)
      ∨ (c.mOperation = .dontSend ∧ ∃ m, c.mReplicatedTrans = [m] ∧ PreAborted seen m)
  aborted : ∀ x ∈ seen, x.kind = .preAbort → ∀ e ∈ seen, e.replicated = true → e.tid = x.tid →
    FirstClose seen e x.sn → ∃ c ∈ g.mCompletedGroupList, c.mOperation = .dontSend
      ∧ ∃ m, c.mReplicatedTrans = [m] ∧ m.mEndSN = x.sn ∧ covers e m = true
  covered : ∀ e ∈ seen, e.replicated = true → (∃ y ∈ seen, e.sn < y.sn ∧ Closes y e.tid) →
    coverCount g.entries e = 1
  flushed : ∀ e ∈ seen, e.replicated = true →
    (∃ y ∈ seen, e.sn < y.sn ∧ y.kind = .fileEnd) → coverCount g.completedEntries e = 1

/-- The first such event is unique. -/
theorem FirstClose.unique {seen : List Event} {e : Event} {n m : ℕ} (hn : FirstClose seen e n)
    (hm : FirstClose seen e m) : n = m := by
  obtain ⟨hltn, ⟨y, hy, rfl, hyc⟩, hfirst⟩ := hn
  obtain ⟨hltm, ⟨z, hz, rfl, hzc⟩, hfirst'⟩ := hm
  exact Nat.le_antisymm (hfirst z hz hltm hzc) (hfirst' y hy hltn hyc)

/-- The invariant says what the groups are to hold. -/
theorem StreamInv.groupsHold {t : TransTable Item} {uses : ℕ → SlotUse}
    {g : ReplicatedTransGroup} {seen : List Event} (h : StreamInv size max t uses g seen)
    (hsize : 0 < size) : GroupsHold max g seen where
  sorted := h.groups.sorted
  size := h.groups.size
  several := h.groups.several
  operation := h.groups.operation
  aborted := by
    intro x hx hkind e he hr htid hfirst
    have hfirst' := hfirst
    obtain ⟨hlt, ⟨y, hy, hyn, hyc⟩, -⟩ := hfirst'
    obtain ⟨m, hm, hcover, hclose⟩ := ((h.slots _ (Nat.mod_lt e.tid hsize)).closed he hr rfl
      ⟨y, hy, by omega, hyc⟩).closes
    have hend : m.mEndSN = x.sn := hclose.unique hfirst
    have hpre : PreAborted seen m :=
      ⟨x, hx, htid.symm.trans (covers_iff.mp hcover).1.symm, hkind, hend.symm⟩
    -- the group being analyzed has no pre-aborted transaction
    rcases List.mem_append.mp hm with hcompleted | hopen
    · obtain ⟨c, hc, hmc⟩ := List.mem_flatMap.mp hcompleted
      rcases h.groups.operation c hc with ⟨-, hnot⟩ | ⟨hop, m', heq, -⟩
      · exact absurd hpre (hnot m hmc)
      · have hmm : m = m' := by
          rw [heq] at hmc
          exact List.mem_singleton.mp hmc
        exact ⟨c, hc, hop, m, by rw [hmm]; exact heq, hend, hcover⟩
    · exact absurd hpre (h.groups.openGood m hopen).2
  covered := fun e he hr hclosed =>
    ((h.slots _ (Nat.mod_lt e.tid hsize)).closed he hr rfl hclosed).one
  flushed := by
    rintro e he hr ⟨y, hy, hlt, hfile⟩
    exact h.flushed e he hr ⟨y, hy, hfile, hlt⟩

/-- **The groups are right**, in every run whose file ends find no replicated node
under `SM_NULL_TID`. -/
theorem transGroups_correct (hsize : 0 < size) (hmax : 0 < max)
    (searchTable : Meta → Oid → Bool) (updateMeta : Meta → Item → Meta) (mMeta : Meta)
    (r : LogRun Item Meta)
    (hr : (readSystem size max searchTable updateMeta mMeta).ReachableBy (FileEndHeld size) r) :
    GroupsHold max r.analyzer.mReplicatedTransGroup r.seen :=
  (readSystem_inv hsize hmax mMeta hr).inv.groupsHold hsize

/-- A table of four slots, where `SM_NULL_TID` is of slot 3, and groups of up to
five; every table is replicated. -/
def demoSystem : System (LogRun Unit Unit) (LogRec Unit Unit) :=
  readSystem 4 5 (fun _ _ => true) (fun _ _ => ()) ()

/-- Transactions 4 and 5 share a group commit and 6 is pre-aborted; 8, which takes
the slot of 4, is open when the file ends. -/
def demoLog : List (LogRec Unit Unit) :=
  [⟨0, SM_NULL_TID, false, .other⟩, ⟨1, 4, true, .memoryChange ()⟩, ⟨2, 5, true, .diskChange ()⟩,
    ⟨3, 6, true, .memoryChange ()⟩, ⟨4, 4, false, .transGroupCommit [4, 5]⟩,
    ⟨5, 6, false, .transPreAbort⟩, ⟨6, 8, true, .memoryChange ()⟩,
    ⟨7, SM_NULL_TID, false, .fileEnd⟩]

theorem transGroups_correct_grouped :
    let r := (demoSystem.restrict fun r aLog => decide (FileEndHeld 4 r aLog)).after demoLog
      (by decide)
    GroupsHold 5 r.analyzer.mReplicatedTransGroup r.seen
      ∧ r.analyzer.mReplicatedTransGroup.mCompletedGroupList.map GroupNode.mReplicatedTrans
        = [[⟨4, 1, 4⟩, ⟨5, 2, 4⟩], [⟨6, 3, 5⟩], [⟨8, 6, 7⟩]] := by
  intro r
  have hpath := System.path_of_restrict (S := demoSystem) (u := r)
    (p := fun r aLog => decide (FileEndHeld 4 r aLog)) demoLog (Option.some_get _).symm
  have hreach : demoSystem.ReachableBy (FileEndHeld 4) r :=
    hpath.mono fun _ _ h => of_decide_eq_true h
  exact ⟨transGroups_correct (by decide) (by decide) _ _ () r hreach, rfl⟩

/-- **A change is lost.**  The file begins, and its first record takes slot 3;
a transaction of that slot, which began before the file, changes a replicated
table; the file ends.  The entry is one of `SM_NULL_TID`. -/
theorem transGroups_lose_change : ∃ r, demoSystem.Reachable r
    ∧ r.analyzer.mReplicatedTransGroup.entries = [⟨SM_NULL_TID, 0, 2⟩]
    ∧ ¬ GroupsHold 5 r.analyzer.mReplicatedTransGroup r.seen := by
  refine ⟨_, System.reachable_after demoSystem [⟨0, SM_NULL_TID, false, .other⟩,
    ⟨1, 3, false, .memoryChange ()⟩, ⟨2, SM_NULL_TID, false, .fileEnd⟩] (by decide), rfl,
    fun h => ?_⟩
  have hone := h.covered ⟨1, 3, false, .change, true⟩ (by decide) rfl
    ⟨⟨2, SM_NULL_TID, false, .fileEnd, false⟩, by decide, by decide, Or.inl rfl⟩
  exact absurd hone (by decide)

end Runs

end Altibase.Rpx
