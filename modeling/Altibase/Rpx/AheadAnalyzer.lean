/-
  Altibase.Rpx.AheadAnalyzer
  ──────────────────────────
  **THE AHEAD ANALYZER OF A REPLICATION SENDER.**

  The analyzer reads the log ahead of the sender and puts committed
  transactions into groups, which the sender replicates as one transaction.  A
  table with one node for each transaction slot says which transactions are
  active, since when, and whether they may share a group.  A commit appends an
  entry to the group being analyzed; a full group, a commit that must be alone,
  a pre-abort and the end of a log file complete it.

    * `buildAnalyzingTable_eq` — a log record changes the node of its
      transaction's slot only;
    * `insertAlone_entries` — a completed group keeps the entries it has.
-/

import Mathlib.Data.List.Sort
import Mathlib.Logic.Function.Basic
import Mathlib.Algebra.Group.Nat.Defs

namespace Altibase.Rpx

/-! ## §1. Groups of replicated transactions. -/

/-- The null transaction id. -/
def SM_NULL_TID : ℕ := 0x7FFFFFFF
/-- The null SN. -/
def SM_SN_NULL : ℕ := 2 ^ 64 - 1
/-- The greatest SN. -/
def SM_SN_MAX : ℕ := 2 ^ 64 - 2

/-- `rpdReplicatedTrans`: one entry of a group. -/
structure ReplicatedTrans where
  mReplicatedTransID : ℕ
  mBeginSN : ℕ
  mEndSN : ℕ
  deriving DecidableEq, Repr

/-- `rpdReplicatedTransGroupOperation`. -/
inductive GroupOperation where
  | none | send | dontSend
  deriving DecidableEq, Repr

/-- `rpdReplicatedTransGroupNode`. -/
structure GroupNode where
  mGroupTransID : ℕ
  mBeginSN : ℕ
  mEndSN : ℕ
  mEndTransID : ℕ
  mReplicatedTrans : List ReplicatedTrans
  mOperation : GroupOperation
  deriving DecidableEq, Repr

/-- `initialize`: a group without transactions. -/
def GroupNode.initial : GroupNode where
  mGroupTransID := SM_NULL_TID
  mBeginSN := SM_SN_MAX
  mEndSN := 0
  mEndTransID := SM_NULL_TID
  mReplicatedTrans := []
  mOperation := .none

/-- The transactions of a group in the order of their ids. -/
def sortTrans (l : List ReplicatedTrans) : List ReplicatedTrans :=
  l.insertionSort fun a b => a.mReplicatedTransID ≤ b.mReplicatedTransID

/-- `insertCompleteTrans` of the node. -/
def GroupNode.insertCompleteTrans (g : GroupNode) (aTransID aBeginSN aEndSN : ℕ) : GroupNode where
  mGroupTransID := if g.mGroupTransID = SM_NULL_TID then aTransID else g.mGroupTransID
  mBeginSN := if aBeginSN < g.mBeginSN then aBeginSN else g.mBeginSN
  -- a new log record is always later than those already in the group
  mEndSN := aEndSN
  mEndTransID := aTransID
  mReplicatedTrans := sortTrans (g.mReplicatedTrans ++ [⟨aTransID, aBeginSN, aEndSN⟩])
  mOperation := g.mOperation

/-- `rpdReplicatedTransGroup`: the completed groups, oldest first, and the group
being analyzed. -/
structure ReplicatedTransGroup where
  mCompletedGroupList : List GroupNode
  mAnalyzingGroup : GroupNode
  deriving DecidableEq, Repr

namespace ReplicatedTransGroup

/-- `getReplicatedTransCount`: of the group being analyzed. -/
def getReplicatedTransCount (g : ReplicatedTransGroup) : ℕ :=
  g.mAnalyzingGroup.mReplicatedTrans.length

/-- `insertCompleteTrans`: into the group being analyzed. -/
def insertCompleteTrans (g : ReplicatedTransGroup) (aTransID aBeginSN aEndSN : ℕ) :
    ReplicatedTransGroup :=
  { g with
    mAnalyzingGroup := g.mAnalyzingGroup.insertCompleteTrans aTransID aBeginSN aEndSN }

/-- `addCompletedReplicatedTransGroup`: the group is complete, and an empty one is begun. -/
def addCompletedReplicatedTransGroup (g : ReplicatedTransGroup) (aOperation : GroupOperation) :
    ReplicatedTransGroup where
  mCompletedGroupList :=
    g.mCompletedGroupList ++ [{ g.mAnalyzingGroup with mOperation := aOperation }]
  mAnalyzingGroup := .initial

/-- `checkAndAddReplicatedTransGroupToComplete`: the group is complete when it is full. -/
def checkAndAddReplicatedTransGroupToComplete (g : ReplicatedTransGroup)
    (mReplicationTransGroupMaxCount : ℕ) (aOperation : GroupOperation) : ReplicatedTransGroup :=
  if mReplicationTransGroupMaxCount ≤ g.getReplicatedTransCount then
    g.addCompletedReplicatedTransGroup aOperation
  else g

end ReplicatedTransGroup

/-! ## §2. The table of active transactions. -/

/-- `rpdAnalyzingTransNode`, with the table metas that the transaction logged. -/
structure AnalyzingTransNode (Item : Type) where
  mTransID : ℕ
  mBeginSN : ℕ
  mIsActive : Bool
  mAllowToGroup : Bool
  mIsReplicationTrans : Bool
  mIsDDLTrans : Bool
  mItemMetaList : List Item

/-- `clearTransNode`. -/
def AnalyzingTransNode.clear (Item : Type) : AnalyzingTransNode Item where
  mTransID := SM_NULL_TID
  mBeginSN := SM_SN_NULL
  mIsActive := false
  mAllowToGroup := true
  mIsReplicationTrans := false
  mIsDDLTrans := false
  mItemMetaList := []

/-- `mTransTable`: the node of each slot. -/
abbrev TransTable (Item : Type) := ℕ → AnalyzingTransNode Item

section Table

variable {Item : Type} (mTransTableSize : ℕ) (t : TransTable Item) (aTransID : ℕ)

/-- `getIndex`: the slot of a transaction. -/
def getIndex : ℕ := aTransID % mTransTableSize

/-- One node of the table changes. -/
def modify (t : TransTable Item) (i : ℕ)
    (f : AnalyzingTransNode Item → AnalyzingTransNode Item) : TransTable Item :=
  Function.update t i (f (t i))

/-- `clearTransNodeFromTransID`. -/
def clearTransNodeFromTransID : TransTable Item :=
  modify t (getIndex mTransTableSize aTransID) fun _ => .clear Item

/-- `setActiveTrans`: the slot goes to the transaction, whoever held it. -/
def setActiveTrans (aBeginSN : ℕ) : TransTable Item :=
  modify t (getIndex mTransTableSize aTransID) fun node => { node with
    mIsActive := true
    mTransID := aTransID
    mBeginSN := aBeginSN
    mAllowToGroup := true }

/-- `setDisableToGroup`: the transaction gets a group of its own. -/
def setDisableToGroup : TransTable Item :=
  modify t (getIndex mTransTableSize aTransID) fun node => { node with mAllowToGroup := false }

/-- `setReplicationTrans`: the transaction has changed a replicated table. -/
def setReplicationTrans : TransTable Item :=
  modify t (getIndex mTransTableSize aTransID) fun node =>
    { node with mIsReplicationTrans := true }

/-- `setDDLTrans`. -/
def setDDLTrans : TransTable Item :=
  modify t (getIndex mTransTableSize aTransID) fun node => { node with mIsDDLTrans := true }

/-- `addItemMetaEntry`: the metas take effect when the transaction commits. -/
def addItemMetaEntry (aItemMeta : Item) : TransTable Item :=
  modify t (getIndex mTransTableSize aTransID) fun node =>
    { node with mItemMetaList := node.mItemMetaList ++ [aItemMeta] }

end Table

/-! ## §3. Log records. -/

/-- `smiLogType`, with what the analyzer reads of each.  All types that it does
not ask for are one: the undo of an aborted transaction, savepoints, the begin
of a log file. -/
inductive LogType (Oid Item : Type) where
  | transCommit
  | transGroupCommit (aTransIDs : List ℕ)
  | transPreAbort
  | savepointAbort
  | fileEnd
  | memoryChange (aTableOID : Oid)
  | diskChange (aTableOID : Oid)
  | ddl
  | tableMeta (aOldTableOID : Oid) (aItemMeta : Item)
  | other

/-- `smiLogRec`, as far as the analyzer reads it. -/
structure LogRec (Oid Item : Type) where
  mRecordSN : ℕ
  mTransID : ℕ
  isBeginLog : Bool
  mLogType : LogType Oid Item

/-! ## §4. The analyzer. -/

/-- The transaction table, the metas of the replicated tables and the groups. -/
structure AheadAnalyzer (Item Meta : Type) where
  mTransTable : TransTable Item
  mMeta : Meta
  mReplicatedTransGroup : ReplicatedTransGroup

section Analyze

variable {Oid Item Meta : Type} (mTransTableSize mReplicationTransGroupMaxCount : ℕ)
-- `rpdMeta`: whether a table is replicated, and what a table meta changes
variable (searchTable : Meta → Oid → Bool) (updateMeta : Meta → Item → Meta)

/-- `rpxAheadAnalyzer::searchTable`, for the types that have a table. -/
def searchTableOf (mMeta : Meta) : LogType Oid Item → Bool
  | .memoryChange aTableOID => searchTable mMeta aTableOID
  | .diskChange aTableOID => searchTable mMeta aTableOID
  | .tableMeta aOldTableOID _ => searchTable mMeta aOldTableOID
  | _ => false

/-- `rpxAheadAnalyzer::buildAnalyzingTable`. -/
def buildAnalyzingTable (t : TransTable Item) (aLog : LogRec Oid Item) (aMetaItem : Bool)
    (aTransID : ℕ) : TransTable Item :=
  let sSN := aLog.mRecordSN
  let t1 := if aLog.isBeginLog then setActiveTrans mTransTableSize t aTransID sSN else t
  let t2 :=
    if (t1 (getIndex mTransTableSize aTransID)).mIsActive then t1
    else
      setDisableToGroup mTransTableSize (setActiveTrans mTransTableSize t1 aTransID sSN) aTransID
  let t3 := if aMetaItem then setReplicationTrans mTransTableSize t2 aTransID else t2
  match aLog.mLogType with
  | .ddl => setDisableToGroup mTransTableSize (setDDLTrans mTransTableSize t3 aTransID) aTransID
  | .tableMeta _ _ => setDisableToGroup mTransTableSize t3 aTransID
  | .savepointAbort => setDisableToGroup mTransTableSize t3 aTransID
  | _ => t3

/-- A transaction in a group of its own, after the group being analyzed. -/
def insertAlone (g : ReplicatedTransGroup) (aTransID aBeginSN aEndSN : ℕ)
    (aOperation : GroupOperation) : ReplicatedTransGroup :=
  let g1 := if g.getReplicatedTransCount ≠ 0 then g.addCompletedReplicatedTransGroup .send else g
  (g1.insertCompleteTrans aTransID aBeginSN aEndSN).addCompletedReplicatedTransGroup aOperation

/-- `rpxAheadAnalyzer::checkAndAddReplicatedTransGroupInCommit`. -/
def checkAndAddReplicatedTransGroupInCommit (a : AheadAnalyzer Item Meta)
    (aLog : LogRec Oid Item) (aTransID : ℕ) : ReplicatedTransGroup :=
  let sNode := a.mTransTable (getIndex mTransTableSize aTransID)
  if sNode.mAllowToGroup then
    (a.mReplicatedTransGroup.insertCompleteTrans aTransID sNode.mBeginSN
      aLog.mRecordSN).checkAndAddReplicatedTransGroupToComplete
        mReplicationTransGroupMaxCount .send
  else
    insertAlone a.mReplicatedTransGroup aTransID sNode.mBeginSN aLog.mRecordSN .send

/-- `rpxAheadAnalyzer::checkAndAddReplicatedTransGroupInAbort`. -/
def checkAndAddReplicatedTransGroupInAbort (a : AheadAnalyzer Item Meta)
    (aLog : LogRec Oid Item) : ReplicatedTransGroup :=
  let sNode := a.mTransTable (getIndex mTransTableSize aLog.mTransID)
  insertAlone a.mReplicatedTransGroup aLog.mTransID sNode.mBeginSN aLog.mRecordSN .dontSend

/-- `rpxAheadAnalyzer::checkAndAddReplicatedTransGroup`. -/
def checkAndAddReplicatedTransGroup (a : AheadAnalyzer Item Meta) (aLog : LogRec Oid Item)
    (aTransID : ℕ) : AheadAnalyzer Item Meta :=
  let sIsReplicationTrans :=
    (a.mTransTable (getIndex mTransTableSize aTransID)).mIsReplicationTrans
  let sInCommit : AheadAnalyzer Item Meta := { a with
    mReplicatedTransGroup :=
      if sIsReplicationTrans then
        checkAndAddReplicatedTransGroupInCommit mTransTableSize mReplicationTransGroupMaxCount a
          aLog aTransID
      else a.mReplicatedTransGroup
    mTransTable := clearTransNodeFromTransID mTransTableSize a.mTransTable aTransID }
  match aLog.mLogType with
  | .transGroupCommit _ => sInCommit
  | .transCommit => sInCommit
  | .transPreAbort => { a with
      mReplicatedTransGroup :=
        if sIsReplicationTrans then checkAndAddReplicatedTransGroupInAbort mTransTableSize a aLog
        else a.mReplicatedTransGroup
      mTransTable := clearTransNodeFromTransID mTransTableSize a.mTransTable aTransID }
  | _ => a

/-- One slot at the end of a log file. -/
def addCompletedFromActiveTrans (aEndSN : ℕ) (a : AheadAnalyzer Item Meta) (i : ℕ) :
    AheadAnalyzer Item Meta :=
  if (a.mTransTable i).mIsActive && (a.mTransTable i).mIsReplicationTrans then
    let sTransID := (a.mTransTable i).mTransID
    let sBeginSN := (a.mTransTable i).mBeginSN
    { a with
      mReplicatedTransGroup := (a.mReplicatedTransGroup.insertCompleteTrans sTransID sBeginSN
        aEndSN).addCompletedReplicatedTransGroup .send
      mTransTable := clearTransNodeFromTransID mTransTableSize
        (modify a.mTransTable i fun node => { node with mAllowToGroup := false }) sTransID }
  else a

/-- `rpxAheadAnalyzer::addCompletedReplicatedTransGroupFromAllActiveTrans`. -/
def addCompletedReplicatedTransGroupFromAllActiveTrans (a : AheadAnalyzer Item Meta)
    (aEndSN : ℕ) : AheadAnalyzer Item Meta :=
  let a1 : AheadAnalyzer Item Meta :=
    if a.mReplicatedTransGroup.getReplicatedTransCount ≠ 0 then
      { a with
        mReplicatedTransGroup :=
          a.mReplicatedTransGroup.addCompletedReplicatedTransGroup .send }
    else a
  (List.range mTransTableSize).foldl (addCompletedFromActiveTrans mTransTableSize aEndSN) a1

/-- `rpxAheadAnalyzer::applyTableMetaLog`. -/
def applyTableMetaLog (a : AheadAnalyzer Item Meta) (aTID : ℕ) : AheadAnalyzer Item Meta :=
  let sIndex := getIndex mTransTableSize aTID
  { a with
    mMeta := (a.mTransTable sIndex).mItemMetaList.foldl updateMeta a.mMeta
    mTransTable := modify a.mTransTable sIndex fun node => { node with mItemMetaList := [] } }

/-- What `analyze` does before the tables: keep a table meta, or apply those of a
DDL transaction. -/
def analyzeMeta (a : AheadAnalyzer Item Meta) (aLog : LogRec Oid Item) :
    AheadAnalyzer Item Meta :=
  match aLog.mLogType with
  | .tableMeta _ aItemMeta => { a with
      mTransTable := addItemMetaEntry mTransTableSize a.mTransTable aLog.mTransID aItemMeta }
  | .transCommit =>
      let sNode := a.mTransTable (getIndex mTransTableSize aLog.mTransID)
      if sNode.mIsDDLTrans && !sNode.mItemMetaList.isEmpty then
        applyTableMetaLog mTransTableSize updateMeta a aLog.mTransID
      else a
  | _ => a

/-- The tables and the groups, for one transaction of a log record. -/
def analyzeTrans (aLog : LogRec Oid Item) (sMetaItem : Bool) (a : AheadAnalyzer Item Meta)
    (aTransID : ℕ) : AheadAnalyzer Item Meta :=
  checkAndAddReplicatedTransGroup mTransTableSize mReplicationTransGroupMaxCount
    { a with
      mTransTable := buildAnalyzingTable mTransTableSize a.mTransTable aLog sMetaItem aTransID }
    aLog aTransID

/-- `rpxAheadAnalyzer::analyze`, of the log record that was read. -/
def analyze (a : AheadAnalyzer Item Meta) (aLog : LogRec Oid Item) : AheadAnalyzer Item Meta :=
  let a1 := analyzeMeta mTransTableSize updateMeta a aLog
  let sMetaItem := searchTableOf searchTable a1.mMeta aLog.mLogType
  match aLog.mLogType with
  | .fileEnd =>
      addCompletedReplicatedTransGroupFromAllActiveTrans mTransTableSize a1 aLog.mRecordSN
  | .transGroupCommit aTransIDs =>
      aTransIDs.foldl
        (analyzeTrans mTransTableSize mReplicationTransGroupMaxCount aLog sMetaItem) a1
  | _ =>
      analyzeTrans mTransTableSize mReplicationTransGroupMaxCount aLog sMetaItem a1 aLog.mTransID

/-- The analyzer when it starts to analyze. -/
def startToAnalyze (mMeta : Meta) : AheadAnalyzer Item Meta where
  mTransTable := fun _ => .clear Item
  mMeta := mMeta
  mReplicatedTransGroup := ⟨[], .initial⟩

end Analyze

/-! ## §5. What a log record changes. -/

section Changes

variable {Oid Item Meta : Type} {size max : ℕ}

/-- A modified entry, -/
theorem modify_self (t : TransTable Item) (i : ℕ)
    (f : AnalyzingTransNode Item → AnalyzingTransNode Item) : modify t i f i = f (t i) :=
  Function.update_self _ _ _

/-- and the others. -/
theorem modify_of_ne {i j : ℕ} (h : j ≠ i) (t : TransTable Item)
    (f : AnalyzingTransNode Item → AnalyzingTransNode Item) : modify t i f j = t j :=
  Function.update_of_ne h _ _

/-- The node of a transaction's slot after `buildAnalyzingTable`. -/
def builtNode (node : AnalyzingTransNode Item) (aLog : LogRec Oid Item) (aMetaItem : Bool)
    (aTransID : ℕ) : AnalyzingTransNode Item where
  mTransID := if aLog.isBeginLog || !node.mIsActive then aTransID else node.mTransID
  mBeginSN := if aLog.isBeginLog || !node.mIsActive then aLog.mRecordSN else node.mBeginSN
  mIsActive := true
  mAllowToGroup := (aLog.isBeginLog || (node.mIsActive && node.mAllowToGroup))
    && match aLog.mLogType with
      | .ddl => false
      | .tableMeta _ _ => false
      | .savepointAbort => false
      | _ => true
  mIsReplicationTrans := aMetaItem || node.mIsReplicationTrans
  mIsDDLTrans := match aLog.mLogType with
    | .ddl => true
    | _ => node.mIsDDLTrans
  mItemMetaList := node.mItemMetaList

/-- **`buildAnalyzingTable` changes one node.** -/
theorem buildAnalyzingTable_eq (t : TransTable Item) (aLog : LogRec Oid Item) (aMetaItem : Bool)
    (aTransID : ℕ) :
    buildAnalyzingTable size t aLog aMetaItem aTransID
      = Function.update t (aTransID % size)
          (builtNode (t (aTransID % size)) aLog aMetaItem aTransID) := by
  rcases hnode : t (aTransID % size) with
    ⟨sTransID, sBeginSN, sActive, sAllow, sRepl, sDDL, sItems⟩
  unfold buildAnalyzingTable setActiveTrans setDisableToGroup setReplicationTrans setDDLTrans
    modify getIndex builtNode
  cases hbegin : aLog.isBeginLog with
  | true =>
    cases aMetaItem <;> cases aLog.mLogType <;> simp [hnode]
  | false =>
    cases sActive with
    | true =>
      cases aMetaItem <;> cases aLog.mLogType <;> simp [hnode]
    | false =>
      cases aMetaItem <;> cases aLog.mLogType <;> simp [hnode]

/-- A log record that does not end its transaction changes its slot's node only. -/
theorem analyzeTrans_open (a : AheadAnalyzer Item Meta) {aLog : LogRec Oid Item} {b : Bool}
    {tid : ℕ} (hcommit : aLog.mLogType ≠ .transCommit)
    (hgroup : ∀ l, aLog.mLogType ≠ .transGroupCommit l)
    (habort : aLog.mLogType ≠ .transPreAbort) :
    analyzeTrans size max aLog b a tid = { a with
      mTransTable := Function.update a.mTransTable (tid % size)
        (builtNode (a.mTransTable (tid % size)) aLog b tid) } := by
  unfold analyzeTrans checkAndAddReplicatedTransGroup
  rw [buildAnalyzingTable_eq]
  split
  · next l h => exact absurd h (hgroup l)
  · next h => exact absurd h hcommit
  · next h => exact absurd h habort
  · rfl

/-- Clearing an entry forgets what was written there. -/
theorem clearTransNode_update (t : TransTable Item) (node : AnalyzingTransNode Item) (tid : ℕ) :
    clearTransNodeFromTransID size (Function.update t (tid % size) node) tid
      = Function.update t (tid % size) (.clear Item) :=
  Function.update_idem _ _ _

/-- The groups after the commit of the transaction of `node`. -/
def commitInGroup (max : ℕ) (g : ReplicatedTransGroup) (node : AnalyzingTransNode Item)
    (tid sn : ℕ) : ReplicatedTransGroup :=
  if node.mAllowToGroup then
    (g.insertCompleteTrans tid node.mBeginSN sn).checkAndAddReplicatedTransGroupToComplete
      max .send
  else insertAlone g tid node.mBeginSN sn .send

/-- A commit, alone or in a group commit, clears its slot's node. -/
theorem analyzeTrans_commit (a : AheadAnalyzer Item Meta) {aLog : LogRec Oid Item} {b : Bool}
    {tid : ℕ} {node : AnalyzingTransNode Item}
    (hnode : builtNode (a.mTransTable (tid % size)) aLog b tid = node)
    (htype : aLog.mLogType = .transCommit ∨ ∃ l, aLog.mLogType = .transGroupCommit l) :
    analyzeTrans size max aLog b a tid = { a with
      mReplicatedTransGroup :=
        if node.mIsReplicationTrans then
          commitInGroup max a.mReplicatedTransGroup node tid aLog.mRecordSN
        else a.mReplicatedTransGroup
      mTransTable := Function.update a.mTransTable (tid % size) (.clear Item) } := by
  unfold analyzeTrans checkAndAddReplicatedTransGroup checkAndAddReplicatedTransGroupInCommit
    commitInGroup getIndex
  rw [buildAnalyzingTable_eq, hnode]
  rcases htype with h | ⟨l, h⟩
  · simp only [h, Function.update_self, clearTransNode_update]
  · simp only [h, Function.update_self, clearTransNode_update]

/-- A pre-abort only builds the entry. -/
theorem analyzeTrans_preAbort (a : AheadAnalyzer Item Meta) {aLog : LogRec Oid Item} {b : Bool}
    {node : AnalyzingTransNode Item}
    (hnode : builtNode (a.mTransTable (aLog.mTransID % size)) aLog b aLog.mTransID = node)
    (htype : aLog.mLogType = .transPreAbort) :
    analyzeTrans size max aLog b a aLog.mTransID = { a with
      mReplicatedTransGroup :=
        if node.mIsReplicationTrans then
          insertAlone a.mReplicatedTransGroup aLog.mTransID node.mBeginSN aLog.mRecordSN .dontSend
        else a.mReplicatedTransGroup
      mTransTable := Function.update a.mTransTable (aLog.mTransID % size) (.clear Item) } := by
  unfold analyzeTrans checkAndAddReplicatedTransGroup checkAndAddReplicatedTransGroupInAbort
    getIndex
  rw [buildAnalyzingTable_eq, hnode]
  simp only [htype, Function.update_self, clearTransNode_update]

/-- The table metas are kept in the nodes, beside what the groups depend on. -/
def SameButMetas (t t' : TransTable Item) : Prop :=
  ∀ i, t' i = { t i with
    mItemMetaList := (t' i).mItemMetaList }

/-- A meta record changes metas and nothing else. -/
theorem analyzeMeta_same (updateMeta : Meta → Item → Meta) (a : AheadAnalyzer Item Meta)
    (aLog : LogRec Oid Item) :
    (analyzeMeta size updateMeta a aLog).mReplicatedTransGroup = a.mReplicatedTransGroup
      ∧ SameButMetas a.mTransTable (analyzeMeta size updateMeta a aLog).mTransTable := by
  have hmodify : ∀ i (l : AnalyzingTransNode Item → List Item), SameButMetas a.mTransTable
      (modify a.mTransTable i fun node => { node with mItemMetaList := l node }) := by
    intro i l j
    by_cases hj : j = i
    · rw [hj, modify_self]
    · rw [modify_of_ne hj]
  unfold analyzeMeta
  split
  · next item _ => exact ⟨rfl, hmodify _ fun node => node.mItemMetaList ++ [item]⟩
  · dsimp only
    split
    · exact ⟨rfl, hmodify _ fun _ => []⟩
    · exact ⟨rfl, fun _ => rfl⟩
  · exact ⟨rfl, fun _ => rfl⟩

end Changes

/-! ## §6. The entries of the groups. -/

section Entries

/-- All entries: those of the completed groups and those of the group being
analyzed. -/
def ReplicatedTransGroup.completedEntries (g : ReplicatedTransGroup) : List ReplicatedTrans :=
  g.mCompletedGroupList.flatMap GroupNode.mReplicatedTrans

/-- The transactions of all groups. -/
def ReplicatedTransGroup.entries (g : ReplicatedTransGroup) : List ReplicatedTrans :=
  g.completedEntries ++ g.mAnalyzingGroup.mReplicatedTrans

variable {g : ReplicatedTransGroup} {tid b e : ℕ}

/-- A completed transaction joins the group, -/
theorem GroupNode.insert_perm (g : GroupNode) (tid b e : ℕ) :
    (g.insertCompleteTrans tid b e).mReplicatedTrans.Perm (⟨tid, b, e⟩ :: g.mReplicatedTrans) := by
  unfold GroupNode.insertCompleteTrans sortTrans
  exact (List.perm_insertionSort _ _).trans (List.perm_append_singleton _ _)

/-- which grows by one, -/
theorem GroupNode.insert_length (g : GroupNode) (tid b e : ℕ) :
    (g.insertCompleteTrans tid b e).mReplicatedTrans.length = g.mReplicatedTrans.length + 1 :=
  (g.insert_perm tid b e).length_eq

/-- and has it as a member. -/
theorem GroupNode.mem_insert {g : GroupNode} {m : ReplicatedTrans} :
    m ∈ (g.insertCompleteTrans tid b e).mReplicatedTrans
      ↔ m = ⟨tid, b, e⟩ ∨ m ∈ g.mReplicatedTrans := by
  rw [(g.insert_perm tid b e).mem_iff, List.mem_cons]

/-- It joins the transactions of all groups. -/
theorem insertCompleteTrans_entries (g : ReplicatedTransGroup) (tid b e : ℕ) :
    (g.insertCompleteTrans tid b e).entries.Perm (⟨tid, b, e⟩ :: g.entries) := by
  have hinsert := (g.mAnalyzingGroup.insert_perm tid b e).append_left g.completedEntries
  exact hinsert.trans List.perm_middle

/-- **Completing a group keeps the entries.** -/
theorem addCompleted_entries (g : ReplicatedTransGroup) (op : GroupOperation) :
    (g.addCompletedReplicatedTransGroup op).entries = g.entries := by
  unfold ReplicatedTransGroup.entries ReplicatedTransGroup.completedEntries
    ReplicatedTransGroup.addCompletedReplicatedTransGroup GroupNode.initial
  simp

/-- Completing the current group completes all transactions. -/
theorem addCompleted_completedEntries (g : ReplicatedTransGroup) (op : GroupOperation) :
    (g.addCompletedReplicatedTransGroup op).completedEntries = g.entries := by
  unfold ReplicatedTransGroup.entries ReplicatedTransGroup.completedEntries
    ReplicatedTransGroup.addCompletedReplicatedTransGroup
  simp

/-- A transaction in a group of its own joins them, -/
theorem insertAlone_entries (g : ReplicatedTransGroup) (tid b e : ℕ) (op : GroupOperation) :
    (insertAlone g tid b e op).entries.Perm (⟨tid, b, e⟩ :: g.entries) := by
  unfold insertAlone
  dsimp only
  rw [addCompleted_entries]
  split
  · have hinsert := insertCompleteTrans_entries (g.addCompletedReplicatedTransGroup .send) tid b e
    rw [addCompleted_entries] at hinsert
    exact hinsert
  · exact insertCompleteTrans_entries g tid b e

/-- and so does one that is committed in the current group. -/
theorem commitInGroup_entries {Item : Type} (max : ℕ) (g : ReplicatedTransGroup)
    (node : AnalyzingTransNode Item) (tid sn : ℕ) :
    (commitInGroup max g node tid sn).entries.Perm (⟨tid, node.mBeginSN, sn⟩ :: g.entries) := by
  unfold commitInGroup
  split
  · unfold ReplicatedTransGroup.checkAndAddReplicatedTransGroupToComplete
    split
    · rw [addCompleted_entries]
      exact insertCompleteTrans_entries g tid node.mBeginSN sn
    · exact insertCompleteTrans_entries g tid node.mBeginSN sn
  · exact insertAlone_entries g tid node.mBeginSN sn .send

/-- Completed groups stay, when another one is completed, -/
theorem addCompleted_sublist (g : ReplicatedTransGroup) (op : GroupOperation) :
    g.completedEntries.Sublist (g.addCompletedReplicatedTransGroup op).completedEntries := by
  rw [addCompleted_completedEntries]
  exact List.sublist_append_left _ _

/-- when a transaction has a group of its own, -/
theorem insertAlone_sublist (g : ReplicatedTransGroup) (tid b e : ℕ) (op : GroupOperation) :
    g.completedEntries.Sublist (insertAlone g tid b e op).completedEntries := by
  unfold insertAlone
  dsimp only
  split
  · exact (addCompleted_sublist g .send).trans (addCompleted_sublist
      ((g.addCompletedReplicatedTransGroup .send).insertCompleteTrans tid b e) op)
  · exact addCompleted_sublist (g.insertCompleteTrans tid b e) op

/-- and when one is committed in the current group. -/
theorem commitInGroup_sublist {Item : Type} (max : ℕ) (g : ReplicatedTransGroup)
    (node : AnalyzingTransNode Item) (tid sn : ℕ) :
    g.completedEntries.Sublist (commitInGroup max g node tid sn).completedEntries := by
  unfold commitInGroup
  split
  · unfold ReplicatedTransGroup.checkAndAddReplicatedTransGroupToComplete
    split
    · exact addCompleted_sublist (g.insertCompleteTrans tid node.mBeginSN sn) .send
    · exact List.Sublist.refl _
  · exact insertAlone_sublist g tid node.mBeginSN sn .send

end Entries

end Altibase.Rpx
