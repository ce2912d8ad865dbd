import SimpleRdbms.Storage.SerialPool

/-!
# Crash recovery

Decided outside of `recover`: which pages the pool evicts, and the order in which a hash map yields its entries.
-/

namespace SimpleRdbms.Storage

/-- The pages evicted while the record at an LSN is redone or undone. -/
structure Evictions where
  redo : Nat → List Nat
  undo : Nat → List Nat

namespace SerialPool

def evictAll (pool : SerialPool) (pageIds : List Nat) : SerialPool := pageIds.foldl evict pool

def undoRecord (evictions : Nat → List Nat) (pool : SerialPool) (txnId : Nat) (record : LoggedRecord) :
    Except StorageError (SerialPool × Option Nat) :=
  match record.kind with
  | .update pageId offset before _ => do
      let clrLsn := pool.log.nextLsn
      let pool := pool.appendLog txnId (.clr pageId offset before (record.prevLsn.getD 0))
      let pool ← (pool.evictAll (evictions record.lsn)).stampWrite pageId offset before clrLsn
      return (pool, record.prevLsn)
  | .clr _ _ _ undoNextLsn => .ok (pool, if undoNextLsn ≠ 0 then some undoNextLsn else none)
  | .begin => .ok (pool, none)
  | .commit | .abort | .endTxn | .allocPage _ | .checkpointBegin | .checkpointEnd _ _ =>
    .ok (pool, record.prevLsn)

def undoLoop (evictions : Nat → List Nat) (txnId : Nat) :
    Nat → SerialPool → Option Nat → Except StorageError SerialPool
  | _, pool, none => .ok pool
  | 0, pool, some _ => .ok pool
  | fuel + 1, pool, some lsn =>
    match pool.log.readAt lsn with
    | none => .ok pool
    | some record => do
        let (pool, cursor) ← pool.undoRecord evictions txnId record
        undoLoop evictions txnId fuel pool cursor

def finishUndo (pool : SerialPool) (txnId : Nat) : SerialPool :=
  (pool.appendLog txnId .abort).appendLog txnId .endTxn

def undoTransaction (evictions : Nat → List Nat) (pool : SerialPool) (txnId fromLsn : Nat) :
    Except StorageError SerialPool := do
  let pool ← undoLoop evictions txnId (fromLsn + 1) pool (some fromLsn)
  return pool.finishUndo txnId

structure Analysis where
  att : AList fun _ : Nat => Nat × Bool
  dpt : AList fun _ : Nat => Nat

namespace Analysis

def snapshot? (record : LoggedRecord) : Option (List (Nat × Nat) × List (Nat × Nat)) :=
  if record.txnId = CHECKPOINT_TXN then
    match record.kind with
    | .checkpointEnd att dpt => some (att, dpt)
    | _ => none
  else none

def load (records : List LoggedRecord) : Analysis :=
  match records.findSome? snapshot? with
  | none => { att := ∅, dpt := ∅ }
  | some (att, dpt) =>
    { att := att.foldl (fun table entry => table.insert entry.1 (entry.2, false)) ∅
      dpt := dpt.foldl (fun table entry => table.insert entry.1 entry.2) ∅ }

def touch (att : AList fun _ : Nat => Nat × Bool) (txnId lsn : Nat) : AList fun _ : Nat => Nat × Bool :=
  att.insert txnId (lsn, ((att.lookup txnId).map Prod.snd).getD false)

def addPage (dpt : AList fun _ : Nat => Nat) (pageId lsn : Nat) : AList fun _ : Nat => Nat :=
  match dpt.lookup pageId with
  | some _ => dpt
  | none => dpt.insert pageId lsn

def scan (analysis : Analysis) (record : LoggedRecord) : Analysis :=
  if record.txnId = CHECKPOINT_TXN then analysis
  else
    match record.kind with
    | .endTxn => { analysis with att := analysis.att.erase record.txnId }
    | .commit => { analysis with att := analysis.att.insert record.txnId (record.lsn, true) }
    | .update pageId _ _ _ | .clr pageId _ _ _ | .allocPage pageId =>
      { att := touch analysis.att record.txnId record.lsn
        dpt := addPage analysis.dpt pageId record.lsn }
    | .begin => { analysis with att := analysis.att.insert record.txnId (record.lsn, false) }
    | .abort => { analysis with att := touch analysis.att record.txnId record.lsn }
    | .checkpointBegin | .checkpointEnd _ _ => analysis

def losers (analysis : Analysis) : List (Nat × Nat) :=
  analysis.att.entries.filterMap fun entry => if entry.2.2 then none else some (entry.1, entry.2.1)

def minRecoveryLsn (analysis : Analysis) : Option Nat := (analysis.dpt.entries.map (·.2)).min?

end Analysis

def redoRecord (evictions : Nat → List Nat) (pool : SerialPool) (record : LoggedRecord) :
    Except StorageError SerialPool :=
  match record.kind with
  | .update pageId offset _ after | .clr pageId offset after _ => do
      let (pool, pageLsn) ← (pool.evictAll (evictions record.lsn)).pageLsn pageId
      if pageLsn < record.lsn then pool.stampWrite pageId offset after record.lsn else return pool
  | .allocPage pageId => .ok (pool.ensurePageAllocated pageId)
  | .begin | .commit | .abort | .endTxn | .checkpointBegin | .checkpointEnd _ _ => .ok pool

def redo (evictions : Nat → List Nat) (pool : SerialPool) : Option Nat → Except StorageError SerialPool
  | none => .ok pool
  | some minRecoveryLsn => (pool.log.iterFrom minRecoveryLsn).foldlM (redoRecord evictions) pool

def undoAll (evictions : Nat → List Nat) (pool : SerialPool) (losers : List (Nat × Nat)) :
    Except StorageError SerialPool :=
  losers.foldlM (fun pool loser => undoTransaction evictions pool loser.1 loser.2) pool

def recover (order : List (Nat × Nat) → List (Nat × Nat)) (evictions : Evictions) (pool : SerialPool) :
    Except StorageError SerialPool := do
  let (pool, checkpoint) ← pool.lastCheckpointLsn
  let records := pool.log.iterFrom (checkpoint.getD HEADER_LEN)
  let analysis := records.foldl Analysis.scan (Analysis.load records)
  let pool ← pool.redo evictions.redo analysis.minRecoveryLsn
  let pool ← pool.undoAll evictions.undo (order analysis.losers)
  return ({ pool with log := pool.log.flushAll }.flushAll).sync

end SerialPool

end SimpleRdbms.Storage
