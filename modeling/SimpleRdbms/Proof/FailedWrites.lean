import SimpleRdbms.Proof.Sessions
import SimpleRdbms.Proof.Versions

/-!
# The writes of a transaction on the pages

What is stored is seen through `Contents`; that the pages and the catalog keep to it is an assumption.
-/

namespace SimpleRdbms.Engine
open SimpleRdbms.Txn
open Function (update)

variable {Sql Value Query Data : Type}

/-- `row` is the transaction whose row is stored at a row id; `stored` and `defined` are the transactions with tables or
indexes on the catalog pages and in the shared catalog. -/
structure Contents (Data : Type) where
  row : Data → Rid → Option Nat
  stored : Data → Nat → Prop
  defined : Data → Nat → Prop

namespace Contents
variable (contents : Contents Data)

structure Same (data data' : Data) : Prop where
  row : contents.row data' = contents.row data
  stored : contents.stored data' = contents.stored data
  defined : contents.defined data' = contents.defined data

/-- A statement stores rows only where none is, and records them first; where it fails, some may be missing. -/
structure Wrote (txnId : Nat) (data : Data) (run : Execution Data) : Prop where
  free : ∀ rid ∈ run.inserted, contents.row data rid = none
  row : ∀ rid, contents.row run.data rid = contents.row data rid ∨
    rid ∈ run.inserted ∧ contents.row run.data rid = some txnId
  whole : run.ok = true → ∀ rid ∈ run.inserted, contents.row run.data rid = some txnId
  stored : ∀ other, other ≠ txnId → contents.stored run.data other → contents.stored data other
  defined : ∀ other, other ≠ txnId → contents.defined run.data other → contents.defined data other

/-- Undo removes what the transaction stored, and part of it where it fails. -/
structure Undid (txnId : Nat) (data : Data) (undone : Data × Bool) : Prop where
  row : ∀ rid, contents.row undone.1 rid = contents.row data rid ∨
    contents.row data rid = some txnId ∧ contents.row undone.1 rid = none
  stored : ∀ other, contents.stored undone.1 other → contents.stored data other
  defined : contents.defined undone.1 = contents.defined data
  whole : undone.2 = true → (∀ rid, contents.row undone.1 rid ≠ some txnId) ∧ ¬contents.stored undone.1 txnId

/-- A reload takes the tables and indexes from the catalog pages. -/
structure Reloaded (data : Data) (reloaded : Data × Bool) : Prop where
  row : contents.row reloaded.1 = contents.row data
  stored : contents.stored reloaded.1 = contents.stored data
  defined : contents.defined reloaded.1 = if reloaded.2 then contents.stored data else contents.defined data

structure Faithful (B : Backend Sql Value Query Data) : Prop where
  logBegin : ∀ data txnId, contents.Same data (B.logBegin data txnId)
  flushCommit : ∀ data txnId, contents.Same data (B.flushCommit data txnId).1
  execute : ∀ data txns txnId query, contents.Wrote txnId data (B.execute data txns txnId query)
  undo : ∀ data txnId, contents.Undid txnId data (B.undo data txnId)
  reload : ∀ data txnId, contents.Reloaded data (B.reload data txnId)
  recordCheckpoint : ∀ data, contents.Same data (B.recordCheckpoint data).1
  setLastCheckpointLsn : ∀ data lsn, contents.Same data (B.setLastCheckpointLsn data lsn).1
  finishCheckpoint : ∀ data, contents.Same data (B.finishCheckpoint data)

def Gone (data : Data) (txnId : Nat) : Prop :=
  (∀ rid, contents.row data rid ≠ some txnId) ∧ ¬contents.stored data txnId ∧ ¬contents.defined data txnId

/-- A transaction that has ended without a commit has left no rows. -/
def Held (s : EngineState Data) (txnId : Nat) : Prop :=
  s.txns.Runs txnId ∨ ∀ rid, contents.row s.data rid ≠ some txnId

/-- Changes that leave every row as it is and bring back nothing that is gone. -/
structure Quiet (data data' : Data) : Prop where
  row : contents.row data' = contents.row data
  gone : ∀ txnId, contents.Gone data txnId → contents.Gone data' txnId

variable {contents}

theorem Same.quiet {data data' : Data} (same : contents.Same data data') : contents.Quiet data data' where
  row := same.row
  gone txnId gone := by
    rw [Gone, same.row, same.stored, same.defined]
    exact gone

theorem Reloaded.quiet {data : Data} {reloaded : Data × Bool} (reloads : contents.Reloaded data reloaded) :
    contents.Quiet data reloaded.1 where
  row := reloads.row
  gone txnId gone := by
    rw [Gone, reloads.row, reloads.stored, reloads.defined]
    refine ⟨gone.1, gone.2.1, ?_⟩
    split
    · exact gone.2.1
    · exact gone.2.2

end Contents

/-- Versions that readers may take for visible belong to rows that are stored; the rows of a running transaction are
covered by an uncommitted version. -/
structure Attributed (contents : Contents Data) (live : Nat → Prop) (data : Data)
    (txns : TransactionManager) : Prop where
  begun : ∀ rid txnId, contents.row data rid = some txnId → txnId < txns.nextTxnId
  runs : ∀ txnId, txns.Runs txnId → txnId < txns.nextTxnId
  liveRuns : ∀ txnId, live txnId → txns.Runs txnId
  created : ∀ rid chain, txns.versions.chains rid = some chain → ∀ entry ∈ chain, entry.creatorTxnId < txns.nextTxnId
  committed : ∀ rid chain, txns.versions.chains rid = some chain → ∀ entry ∈ chain, entry.beginTs ≠ none →
    ¬txns.Runs entry.creatorTxnId ∧ contents.row data rid = some entry.creatorTxnId
  own : ∀ rid chain, txns.versions.chains rid = some chain → ∀ entry ∈ chain, live entry.creatorTxnId →
    contents.row data rid = some entry.creatorTxnId
  covered : ∀ rid txnId, contents.row data rid = some txnId → txns.Runs txnId →
    ∃ entry rest, txns.versions.chains rid = some (entry :: rest) ∧ entry.creatorTxnId = txnId ∧ entry.beginTs = none

namespace Attributed
variable {contents : Contents Data} {live live' : Nat → Prop} {data data' : Data} {txns : TransactionManager}
  {txnId : Nat} (attributed : Attributed contents live data txns)
include attributed

theorem fewer (fewer : ∀ txnId, live' txnId → live txnId) : Attributed contents live' data txns :=
  { attributed with
    liveRuns := fun txnId isLive => attributed.liveRuns txnId (fewer txnId isLive)
    own := fun rid chain stored entry member isLive =>
      attributed.own rid chain stored entry member (fewer _ isLive) }

theorem quiet (row : contents.row data' = contents.row data) :
    Attributed contents live data' txns where
  begun := row ▸ attributed.begun
  runs := attributed.runs
  liveRuns := attributed.liveRuns
  created := attributed.created
  committed := row ▸ attributed.committed
  own := row ▸ attributed.own
  covered := row ▸ attributed.covered

theorem begin :
    Attributed contents (fun txnId => live txnId ∨ txnId = txns.nextTxnId) data (txns.begin 0) where
  begun rid txnId stored := Nat.lt_succ_of_lt (attributed.begun rid txnId stored)
  runs txnId runs := by
    rcases (TransactionManager.runs_begin 0).mp runs with rfl | old
    · exact Nat.lt_succ_self _
    · exact Nat.lt_succ_of_lt (attributed.runs txnId old)
  liveRuns txnId isLive := (TransactionManager.runs_begin 0).mpr (isLive.symm.imp_right (attributed.liveRuns txnId))
  created rid chain stored entry member := Nat.lt_succ_of_lt (attributed.created rid chain stored entry member)
  committed rid chain stored entry member begun := by
    obtain ⟨ended, row⟩ := attributed.committed rid chain stored entry member begun
    refine ⟨fun runs => ?_, row⟩
    rcases (TransactionManager.runs_begin 0).mp runs with new | old
    · exact absurd (attributed.created rid chain stored entry member) (by omega)
    · exact ended old
  own rid chain stored entry member isLive := by
    rcases isLive with old | new
    · exact attributed.own rid chain stored entry member old
    · exact absurd (attributed.created rid chain stored entry member) (by omega)
  covered rid txnId stored runs := by
    rcases (TransactionManager.runs_begin 0).mp runs with rfl | old
    · exact absurd (attributed.begun rid _ stored) (Nat.lt_irrefl _)
    · exact attributed.covered rid txnId stored old

theorem prune (watermark : Nat) :
    Attributed contents live data { txns with versions := txns.versions.prune watermark } where
  begun := attributed.begun
  runs := attributed.runs
  liveRuns := attributed.liveRuns
  created rid chain stored := attributed.created rid chain (VersionStore.prune_chain stored)
  committed rid chain stored := attributed.committed rid chain (VersionStore.prune_chain stored)
  own rid chain stored := attributed.own rid chain (VersionStore.prune_chain stored)
  covered rid txnId stored runs := by
    obtain ⟨entry, rest, chain, creator, uncommitted⟩ := attributed.covered rid txnId stored runs
    exact ⟨entry, rest, VersionStore.prune_head chain uncommitted, creator, uncommitted⟩

theorem finishCommit (isLive : live txnId) :
    Attributed contents (fun other => live other ∧ other ≠ txnId) data (txns.finishCommit txnId) := by
  refine @prune _ contents _ data (TransactionManager.remove { txns with
      nextTs := txns.nextTs + 1, versions := txns.versions.commitVersions txnId txns.nextTs } txnId)
    { begun := attributed.begun, runs := ?_, liveRuns := ?_, created := ?_, committed := ?_, own := ?_,
      covered := ?_ } _
  · exact fun other runs => attributed.runs other (TransactionManager.runs_remove.mp runs).1
  · exact fun other isLive => TransactionManager.runs_remove.mpr ⟨attributed.liveRuns other isLive.1, isLive.2⟩
  · intro rid chain stored entry member
    obtain ⟨before, present, old | ⟨mine, old, inChain, same⟩⟩ := VersionStore.commitVersions_entry stored member
    · exact attributed.created rid before present entry old
    · exact mine.trans same.symm ▸ attributed.created rid before present old inChain
  · intro rid chain stored entry member begun
    obtain ⟨before, present, old | ⟨mine, old, inChain, same⟩⟩ := VersionStore.commitVersions_entry stored member
    · obtain ⟨ended, row⟩ := attributed.committed rid before present entry old begun
      exact ⟨fun runs => ended (TransactionManager.runs_remove.mp runs).1, row⟩
    · refine ⟨fun runs => (TransactionManager.runs_remove.mp runs).2 mine, ?_⟩
      exact mine.trans same.symm ▸ attributed.own rid before present old inChain (same ▸ isLive)
  · intro rid chain stored entry member isLive
    obtain ⟨before, present, old | ⟨mine, -⟩⟩ := VersionStore.commitVersions_entry stored member
    · exact attributed.own rid before present entry old isLive.1
    · exact absurd mine isLive.2
  · intro rid other stored runs
    obtain ⟨running, different⟩ := TransactionManager.runs_remove.mp runs
    obtain ⟨entry, rest, chain, rfl, uncommitted⟩ := attributed.covered rid other stored running
    obtain ⟨rest', kept⟩ := VersionStore.commitVersions_head chain different
    exact ⟨entry, rest', kept, rfl, uncommitted⟩

theorem setState (state : TransactionState) :
    Attributed contents live data (txns.setState txnId state) where
  begun := attributed.begun
  runs other runs := attributed.runs other ((TransactionManager.runs_setState state).mp runs)
  liveRuns other isLive := (TransactionManager.runs_setState state).mpr (attributed.liveRuns other isLive)
  created := attributed.created
  committed rid chain stored entry member begun := by
    rw [TransactionManager.runs_setState]
    exact attributed.committed rid chain stored entry member begun
  own := attributed.own
  covered rid other stored runs :=
    attributed.covered rid other stored ((TransactionManager.runs_setState state).mp runs)

section Undo
variable {undone : Data × Bool}

theorem undo (runs : txns.Runs txnId) (dead : ¬live txnId)
    (undid : contents.Undid txnId data undone) : Attributed contents live undone.1 txns := by
  have before : ∀ rid other, contents.row undone.1 rid = some other → contents.row data rid = some other := by
    intro rid other stored
    rcases undid.row rid with same | ⟨-, removed⟩
    · rwa [← same]
    · rw [removed] at stored
      cases stored
  have after : ∀ rid other, other ≠ txnId → contents.row data rid = some other →
      contents.row undone.1 rid = some other := by
    intro rid other different stored
    rcases undid.row rid with same | ⟨mine, -⟩
    · rwa [same]
    · exact absurd (Option.some.inj (stored.symm.trans mine)) different
  exact {
    begun := fun rid other stored => attributed.begun rid other (before rid other stored)
    runs := attributed.runs
    liveRuns := attributed.liveRuns
    created := attributed.created
    committed := fun rid chain stored entry member begun => by
      obtain ⟨ended, row⟩ := attributed.committed rid chain stored entry member begun
      exact ⟨ended, after rid _ (fun mine => ended (mine ▸ runs)) row⟩
    own := fun rid chain stored entry member isLive =>
      after rid _ (fun mine => dead (mine ▸ isLive)) (attributed.own rid chain stored entry member isLive)
    covered := fun rid other stored => attributed.covered rid other (before rid other stored) }

theorem finishAbort (dead : ¬live txnId) :
    Attributed contents live data (txns.finishAbort txnId) := by
  refine @prune _ contents _ data { txns.remove txnId with versions := txns.versions.abortVersions txnId txns.nextTs }
    { begun := attributed.begun, runs := ?_, liveRuns := ?_, created := ?_, committed := ?_, own := ?_,
      covered := ?_ } _
  · exact fun other runs => attributed.runs other (TransactionManager.runs_remove.mp runs).1
  · exact fun other isLive => TransactionManager.runs_remove.mpr
      ⟨attributed.liveRuns other isLive, fun same => dead (same ▸ isLive)⟩
  · intro rid chain stored entry member
    obtain ⟨before, present, old⟩ := VersionStore.abortVersions_entry stored member
    exact attributed.created rid before present entry old
  · intro rid chain stored entry member begun
    obtain ⟨before, present, old⟩ := VersionStore.abortVersions_entry stored member
    obtain ⟨ended, row⟩ := attributed.committed rid before present entry old begun
    exact ⟨fun runs => ended (TransactionManager.runs_remove.mp runs).1, row⟩
  · intro rid chain stored entry member
    obtain ⟨before, present, old⟩ := VersionStore.abortVersions_entry stored member
    exact attributed.own rid before present entry old
  · intro rid other stored runs
    obtain ⟨running, different⟩ := TransactionManager.runs_remove.mp runs
    obtain ⟨entry, rest, chain, rfl, uncommitted⟩ := attributed.covered rid other stored running
    obtain ⟨rest', kept⟩ := VersionStore.abortVersions_head chain different
    exact ⟨entry, rest', kept, rfl, uncommitted⟩

end Undo

theorem execute {run : Execution Data} (isLive : live txnId)
    (wrote : contents.Wrote txnId data run) :
    Attributed contents (fun other => live other ∧ (run.ok = true ∨ other ≠ txnId)) run.data
      (txns.recordInserts txnId run.inserted) := by
  obtain ⟨next, active, chains⟩ := @TransactionManager.recordInserts_spec txns txnId run.inserted
  have running : ∀ other, (txns.recordInserts txnId run.inserted).Runs other ↔ txns.Runs other := fun other => by
    rw [TransactionManager.Runs, active, TransactionManager.Runs]
  have kept : ∀ rid other, contents.row data rid = some other →
      rid ∉ run.inserted ∧ contents.row run.data rid = some other := by
    intro rid other stored
    have absent : rid ∉ run.inserted := fun member => by
      rw [wrote.free rid member] at stored
      cases stored
    rcases wrote.row rid with same | ⟨member, -⟩
    · exact ⟨absent, same.trans stored⟩
    · exact absurd member absent
  have entries : ∀ rid chain, (txns.recordInserts txnId run.inserted).versions.chains rid = some chain →
      ∀ entry ∈ chain, (rid ∈ run.inserted ∧ entry.creatorTxnId = txnId ∧ entry.beginTs = none) ∨
        ∃ before, txns.versions.chains rid = some before ∧ entry ∈ before := by
    intro rid chain stored entry member
    rw [chains rid] at stored
    split at stored
    · rename_i inserted
      obtain rfl := Option.some.inj stored
      rcases List.mem_append.mp member with new | old
      · obtain rfl := List.eq_of_mem_replicate new
        exact .inl ⟨inserted, rfl, rfl⟩
      · cases present : txns.versions.chains rid with
        | none => simp [present] at old
        | some before => exact .inr ⟨before, rfl, by simpa [present] using old⟩
    · exact .inr ⟨chain, stored, member⟩
  constructor
  case begun =>
    intro rid other stored
    rw [next]
    rcases wrote.row rid with same | ⟨-, mine⟩
    · exact attributed.begun rid other (same ▸ stored)
    · obtain rfl := Option.some.inj (mine.symm.trans stored)
      exact attributed.runs txnId (attributed.liveRuns txnId isLive)
  case runs =>
    intro other runs
    rw [next]
    exact attributed.runs other ((running other).mp runs)
  case liveRuns => exact fun other isLive => (running other).mpr (attributed.liveRuns other isLive.1)
  case created =>
    intro rid chain stored entry member
    rw [next]
    rcases entries rid chain stored entry member with ⟨-, mine, -⟩ | ⟨before, present, old⟩
    · exact mine ▸ attributed.runs txnId (attributed.liveRuns txnId isLive)
    · exact attributed.created rid before present entry old
  case committed =>
    intro rid chain stored entry member begun
    rcases entries rid chain stored entry member with ⟨-, -, uncommitted⟩ | ⟨before, present, old⟩
    · exact absurd uncommitted begun
    · obtain ⟨ended, row⟩ := attributed.committed rid before present entry old begun
      exact ⟨fun runs => ended ((running _).mp runs), (kept rid _ row).2⟩
  case own =>
    intro rid chain stored entry member isLive
    rcases entries rid chain stored entry member with ⟨inserted, mine, -⟩ | ⟨before, present, old⟩
    · rw [mine] at isLive ⊢
      exact wrote.whole (isLive.2.resolve_right fun different => different rfl) rid inserted
    · exact (kept rid _ (attributed.own rid before present entry old isLive.1)).2
  case covered =>
    intro rid other stored runs
    rw [chains rid]
    rcases wrote.row rid with same | ⟨inserted, mine⟩
    · have old := same ▸ stored
      rw [if_neg (kept rid other old).1]
      exact attributed.covered rid other old ((running other).mp runs)
    · obtain rfl := Option.some.inj (mine.symm.trans stored)
      obtain ⟨count, many⟩ := Nat.exists_eq_succ_of_ne_zero (Nat.ne_of_gt (List.count_pos_iff.mpr inserted))
      rw [if_pos inserted, many]
      exact ⟨⟨txnId, none, none⟩, _, rfl, rfl, rfl⟩

end Attributed

end SimpleRdbms.Engine
