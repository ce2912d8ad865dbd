import SimpleRdbms.Lib.System
import SimpleRdbms.Storage.Recovery

/-!
# Recovery, one step at a time

Between two steps the pool may evict any page, and a crash may end the attempt; recovery then begins anew.
-/

namespace SimpleRdbms.Storage
open SimpleRdbms.Lib

inductive RecoveryTask where
  | redo (record : LoggedRecord)
  | undo (txnId : Nat) (cursor : Option Nat)
  | stamp (pageId offset : Nat) (bytes : List UInt8) (lsn : Nat)
  | append (txnId : Nat) (kind : LogRecordKind)
  | flushLog
  | flushAll
  | flushPages (pageIds : List Nat)
  | sync

namespace SerialPool

def analyse (pool : SerialPool) : Except StorageError (SerialPool × Analysis) := do
  let (pool, checkpoint) ← pool.lastCheckpointLsn
  let records := pool.log.iterFrom (checkpoint.getD HEADER_LEN)
  return (pool, records.foldl Analysis.scan (Analysis.load records))

def redoRecords (pool : SerialPool) (analysis : Analysis) : List LoggedRecord :=
  match analysis.minRecoveryLsn with
  | none => []
  | some minRecoveryLsn => pool.log.iterFrom minRecoveryLsn

def undoTask (loser : Nat × Nat) : RecoveryTask := .undo loser.1 (some loser.2)

def recoveryTasks (records : List LoggedRecord) (losers : List (Nat × Nat)) : List RecoveryTask :=
  records.map .redo ++ (losers.map undoTask ++ [.flushLog, .flushAll, .sync])

def endUndo (txnId : Nat) : List RecoveryTask := [.append txnId .abort, .append txnId .endTxn]

def visit (pool : SerialPool) (txnId : Nat) (record : LoggedRecord) : SerialPool × List RecoveryTask :=
  match record.kind with
  | .update pageId offset before _ =>
    (pool.appendLog txnId (.clr pageId offset before (record.prevLsn.getD 0)),
      [.stamp pageId offset before pool.log.nextLsn, .undo txnId record.prevLsn])
  | .clr _ _ _ undoNextLsn => (pool, [.undo txnId (if undoNextLsn ≠ 0 then some undoNextLsn else none)])
  | .begin => (pool, [.undo txnId none])
  | .commit | .abort | .endTxn | .allocPage _ | .checkpointBegin | .checkpointEnd _ _ =>
    (pool, [.undo txnId record.prevLsn])

def exec (pool : SerialPool) : RecoveryTask → Except StorageError (SerialPool × List RecoveryTask)
  | .redo record => do
      let pool ← redoRecord (fun _ => []) pool record
      return (pool, [])
  | .undo txnId none => .ok (pool, endUndo txnId)
  | .undo txnId (some lsn) =>
    match pool.log.readAt lsn with
    | none => .ok (pool, endUndo txnId)
    | some record => .ok (pool.visit txnId record)
  | .stamp pageId offset bytes lsn => do
      let pool ← pool.stampWrite pageId offset bytes lsn
      return (pool, [])
  | .append txnId kind => .ok (pool.appendLog txnId kind, [])
  | .flushLog => .ok ({ pool with log := pool.log.flushAll }, [])
  | .flushAll => .ok (pool, ((pool.dirtyPageTable.map Prod.fst).toChunks pool.dwbCapacity).map .flushPages)
  | .flushPages pageIds => .ok (pool.flushPages pageIds, [])
  | .sync => .ok (pool.sync, [])

/-- The first `kept` records of the buffer and the pages below `length` survive; others are as in `origin`. -/
def crash (pool : SerialPool) (origin : DiskManager) (kept length : Nat) (survives : Nat → Bool) : SerialPool :=
  let active := { pool.log.active with records := pool.log.active.records ++ pool.log.buffer.take kept }
  let reopened := LogManager.bootstrap pool.log.targetSegmentSize pool.log.sealed active
  { log := reopened
    disk :=
      { length
        syncedLength := length
        images := fun pageId =>
          if pageId < length then
            if survives pageId then pool.disk.images pageId else origin.images pageId
          else Page.new pageId }
    frames := ∅
    dwbCapacity := pool.dwbCapacity
    history := pool.history.filter (·.lsn < reopened.nextLsn) }

end SerialPool

/-- `origin` is the data file as the last crash left it; there are no tasks before the analysis. -/
structure RecoveryRun where
  origin : DiskManager
  pool : SerialPool
  tasks : Option (List RecoveryTask)

namespace RecoveryRun

inductive Action where
  | analyse (losers : List (Nat × Nat))
  | run
  | evict (pageId : Nat)
  | crash (kept length : Nat) (survives : Nat → Bool)

def restart (pool : SerialPool) : RecoveryRun := { origin := pool.disk, pool, tasks := none }

def analyse (attempt : RecoveryRun) (losers : List (Nat × Nat)) : Option RecoveryRun :=
  match attempt.pool.analyse with
  | .error _ => none
  | .ok (pool, analysis) =>
    if losers.Perm analysis.losers then
      some { attempt with pool, tasks := some (SerialPool.recoveryTasks (pool.redoRecords analysis) losers) }
    else none

def next (attempt : RecoveryRun) (task : RecoveryTask) (rest : List RecoveryTask) : Option RecoveryRun :=
  match attempt.pool.exec task with
  | .error _ => none
  | .ok (pool, tasks) => some { attempt with pool, tasks := some (tasks ++ rest) }

def step (attempt : RecoveryRun) : Action → Option RecoveryRun
  | .analyse losers =>
    match attempt.tasks with
    | none => attempt.analyse losers
    | some _ => none
  | .run =>
    match attempt.tasks with
    | some (task :: rest) => attempt.next task rest
    | some [] | none => none
  | .evict pageId => some { attempt with pool := attempt.pool.evict pageId }
  | .crash kept length survives =>
    if attempt.pool.disk.syncedLength ≤ length ∧ length ≤ attempt.pool.disk.length then
      some (restart (attempt.pool.crash attempt.origin kept length survives))
    else none

def system (pool : SerialPool) : System RecoveryRun Action where
  init attempt := attempt = restart pool
  step := step

end RecoveryRun

end SimpleRdbms.Storage
