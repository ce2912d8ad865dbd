import SimpleRdbms.Storage.PoolFaults

/-!
# A page flush in its single steps

The critical sections of `flush_pages_before`. Between any two of them other threads append, flush the log and change
pages.
-/

namespace SimpleRdbms.Storage
open Function (update)

/-- The section of `flush` under the log lock, which does not look at the durable mark again. -/
def LogManager.flushLocked (log : LogManager) : LogManager :=
  let persisted := log.persist
  if totalLen persisted.active.records ≥ persisted.targetSegmentSize then persisted.rollSegment else persisted

inductive FlushStage where
  | copying
  | forcing
  | forced
  | writing (written : Nat)
  | clearing (cleared : Nat)
deriving DecidableEq, Repr

/-- The lease lists the images copied so far. `truncated` and `archive` are for the specification only. -/
structure FlushingPool where
  faulty : FaultyPool
  stage : FlushStage
  truncated : List LoggedRecord
  archive : List LoggedRecord

namespace FlushingPool

inductive Action where
  /-- Any other section of the pool; the flush steps it has are left out. -/
  | pool (action : PoolAction)
  | readFails (thread : Nat)
  | flushRefused (thread : Nat)
  | flushLog
  | takeLease (thread : Nat)
  | copyFrame
  | readDurableLsn
  | flushLocked
  | writeBatch
  | writePage
  | finishWrite
  | clearMark
  | releaseLease
  | flushFails

abbrev inner (s : FlushingPool) : BufferPool := s.faulty.pool

def records (s : FlushingPool) : List LoggedRecord := s.truncated ++ s.archive ++ s.inner.history

def setPool (s : FlushingPool) (pool : BufferPool) : FlushingPool := { s with faulty := { s.faulty with pool } }

def isFlushStep : PoolAction → Bool
  | .beginFlush _ | .writeSnapshot _ | .clearDirty _ => true
  | _ => false

def takeLease (s : FlushingPool) (thread : Nat) : Option FlushingPool :=
  match s.inner.lease, s.inner.flushList thread with
  | none, batch :: rest =>
    if s.faulty.flushPoisoned || s.faulty.aborting thread then none
    else
      some { s.setPool { s.inner with
          flushList := update s.inner.flushList thread rest
          lease := some { thread, batch, snapshot := [], written := false } } with
        stage := .copying }
  | _, _ => none

def copyFrame (s : FlushingPool) : Option FlushingPool :=
  match s.inner.lease, s.stage with
  | some lease, .copying =>
    match lease.batch[lease.snapshot.length]? with
    | some (frameId, _) =>
      if s.inner.latched frameId then none
      else
        some (s.setPool { s.inner with
          lease := some { lease with snapshot := lease.snapshot ++ [(s.inner.frames frameId).image] } })
    | none => none
  | _, _ => none

def readDurableLsn (s : FlushingPool) : Option FlushingPool :=
  match s.inner.lease, s.stage with
  | some lease, .copying =>
    if lease.snapshot.length < lease.batch.length then none
    else if s.inner.log.durableLsn > BufferPool.maxPageLsn lease.snapshot then some { s with stage := .forced }
    else some { s with stage := .forcing }
  | _, _ => none

def flushLocked (s : FlushingPool) : Option FlushingPool :=
  match s.inner.lease, s.stage with
  | some _, .forcing =>
    some { s.setPool { s.inner with log := s.inner.log.flushLocked } with stage := .forced }
  | _, _ => none

def writeBatch (s : FlushingPool) : Option FlushingPool :=
  match s.inner.lease, s.stage with
  | some _, .forced => some { s with stage := .writing 0 }
  | _, _ => none

def writePage (s : FlushingPool) : Option FlushingPool :=
  match s.inner.lease, s.stage with
  | some lease, .writing written =>
    lease.snapshot[written]?.map fun image =>
      { s.setPool { s.inner with disk := update s.inner.disk image.page.id image.stamped } with
        stage := .writing (written + 1) }
  | _, _ => none

def finishWrite (s : FlushingPool) : Option FlushingPool :=
  match s.inner.lease, s.stage with
  | some lease, .writing written =>
    if written < lease.snapshot.length then none else some { s with stage := .clearing 0 }
  | _, _ => none

def clearMark (s : FlushingPool) : Option FlushingPool :=
  match s.inner.lease, s.stage with
  | some lease, .clearing cleared =>
    match lease.pairs[cleared]? with
    | some entry =>
      if s.inner.latched entry.1 then none
      else
        some { s.setPool { s.inner with frames := BufferPool.clearMark s.inner.frames entry } with
          stage := .clearing (cleared + 1) }
    | none => none
  | _, _ => none

def releaseLease (s : FlushingPool) : Option FlushingPool :=
  match s.inner.lease, s.stage with
  | some lease, .clearing cleared =>
    if cleared < lease.pairs.length then none else some (s.setPool { s.inner with lease := none })
  | _, _ => none

/-- A failure of the double-write buffer or the data file; the log device does not fail. -/
def flushFails (s : FlushingPool) : Option FlushingPool :=
  match s.inner.lease, s.stage with
  | some lease, .forced =>
    some { s with
      faulty := ({ s.faulty with pool := { s.inner with lease := none } } : FaultyPool).flushError lease.thread }
  | some lease, .writing _ =>
    some { s with
      faulty := ({ s.faulty with
        pool := { s.inner with lease := none }
        flushPoisoned := true } : FaultyPool).flushError lease.thread }
  | _, _ => none

def step (s : FlushingPool) : Action → Option FlushingPool
  | .pool action =>
    if isFlushStep action then none
    else (s.faulty.proceed action).map fun faulty => { s with faulty }
  | .readFails thread => (s.faulty.readFails thread).map fun faulty => { s with faulty }
  | .flushRefused thread => (s.faulty.flushRefused thread).map fun faulty => { s with faulty }
  | .flushLog => some (s.setPool { s.inner with log := s.inner.log.flushLocked })
  | .takeLease thread => s.takeLease thread
  | .copyFrame => s.copyFrame
  | .readDurableLsn => s.readDurableLsn
  | .flushLocked => s.flushLocked
  | .writeBatch => s.writeBatch
  | .writePage => s.writePage
  | .finishWrite => s.finishWrite
  | .clearMark => s.clearMark
  | .releaseLease => s.releaseLease
  | .flushFails => s.flushFails

def written (s : FlushingPool) (action : Action) : List Image :=
  match action, s.inner.lease, s.stage with
  | .writeBatch, some lease, .forced | .flushFails, some lease, .forced => lease.snapshot
  | .writePage, some lease, .writing written | .flushFails, some lease, .writing written =>
    (lease.snapshot[written]?).toList
  | _, _, _ => []

end FlushingPool

end SimpleRdbms.Storage
