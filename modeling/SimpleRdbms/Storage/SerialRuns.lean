import SimpleRdbms.Storage.RecoveryRuns

/-!
# Transactions, one call at a time

A call flushes the log, then writes one page at most; flushing is a call too, so crashes fall between calls.
An abort is one call for every record it meets.
-/

namespace SimpleRdbms.Storage
open SimpleRdbms.Lib

namespace SerialPool

/-- `PageWriteGuard::write`. -/
def write (pool : SerialPool) (txnId pageId offset : Nat) (bytes : List UInt8) : Except StorageError SerialPool := do
  let (pool, resident) ← pool.fetchPage pageId
  if offset + bytes.length ≤ PAGE_SIZE then
    let before := readBytes resident.page.data offset bytes.length
    let lsn := pool.log.nextLsn
    let pool := pool.appendLog txnId (.update pageId offset before bytes)
    return pool.install pageId (resident.stamp offset bytes lsn)
  else throw (.outOfRange pageId)

def flushLog (pool : SerialPool) (upTo : Nat) : SerialPool := { pool with log := pool.log.flush upTo }

def commit (pool : SerialPool) (txnId : Nat) : SerialPool :=
  let commitLsn := pool.log.nextLsn
  ((pool.appendLog txnId .commit).flushLog commitLsn).appendLog txnId .endTxn

end SerialPool

/-- `aborting` is the transaction an abort is undoing, with the LSN it has come to. -/
structure SerialRun where
  pool : SerialPool
  aborting : Option (Nat × Option Nat)

namespace SerialRun

inductive Call where
  | begin (txnId : Nat)
  | write (txnId pageId offset : Nat) (bytes : List UInt8)
  | commit (txnId : Nat)
  | abort (txnId : Nat)
  | undo
  | evict (pageId : Nat)
  | flushLog (upTo : Nat)

def write (run : SerialRun) (txnId pageId offset : Nat) (bytes : List UInt8) : Option SerialRun :=
  match run.pool.write txnId pageId offset bytes with
  | .error _ => none
  | .ok pool => some { run with pool }

def undo (pool : SerialPool) (txnId : Nat) (cursor : Option Nat) : Option SerialRun :=
  match cursor.bind pool.log.readAt with
  | none => some { pool := pool.finishUndo txnId, aborting := none }
  | some record =>
    match pool.undoRecord (fun _ => []) txnId record with
    | .error _ => none
    | .ok (pool, cursor) => some { pool, aborting := some (txnId, cursor) }

def step (run : SerialRun) (call : Call) : Option SerialRun :=
  match run.aborting, call with
  | _, .evict pageId => some { run with pool := run.pool.evict pageId }
  | _, .flushLog upTo => some { run with pool := run.pool.flushLog upTo }
  | none, .begin txnId => some { run with pool := run.pool.appendLog txnId .begin }
  | none, .write txnId pageId offset bytes => run.write txnId pageId offset bytes
  | none, .commit txnId => some { run with pool := run.pool.commit txnId }
  | none, .abort txnId =>
    some { run with aborting := (run.pool.log.lastLsnByTxn txnId).map fun lsn => (txnId, some lsn) }
  | some (txnId, cursor), .undo => undo run.pool txnId cursor
  | _, _ => none

def start (targetSegmentSize dwbCapacity : Nat) (disk : DiskManager) : SerialRun where
  pool := { log := .create targetSegmentSize, disk, frames := ∅, dwbCapacity, history := [] }
  aborting := none

def system (targetSegmentSize dwbCapacity : Nat) (disk : DiskManager) : System SerialRun Call where
  init run := run = start targetSegmentSize dwbCapacity disk
  step := step

end SerialRun

end SimpleRdbms.Storage
