import SimpleRdbms.Storage.Buffer

/-!
# The buffer pool when its devices fail

A read, the append of an `AllocPage` record and every stage of a flush may fail. A page write that fails has put the old
or the new image on disk.
-/

namespace SimpleRdbms.Storage
open Function (update)

/-- Forcing the log, writing the double-write batch, or after it is synced, with the first `written` pages on disk. -/
inductive FlushFailure where
  | log
  | doubleWrite
  | pages (written : Nat)
deriving DecidableEq, Repr

structure FaultyPool where
  pool : BufferPool
  flushPoisoned : Bool
  aborting : Nat → Bool

namespace FaultyPool

inductive Action where
  | proceed (action : PoolAction)
  | readFails (thread : Nat)
  | appendFails (thread : Nat)
  | flushRefused (thread : Nat)
  | flushFails (thread : Nat) (failure : FlushFailure)
deriving DecidableEq, Repr

def interrupted (pool : BufferPool) (lease : Lease) : FlushFailure → BufferPool
  | .log => pool
  | .doubleWrite => { pool with log := pool.log.flush (BufferPool.maxPageLsn lease.snapshot) }
  | .pages written =>
    { pool with
      log := pool.log.flush (BufferPool.maxPageLsn lease.snapshot)
      disk := BufferPool.writePages pool.disk (lease.snapshot.take written) }

def FlushFailure.poisons : FlushFailure → Bool
  | .log | .doubleWrite => false
  | .pages _ => true

def flushError (s : FaultyPool) (thread : Nat) : FaultyPool :=
  match s.pool.tasks thread with
  | .examined _ frameId victimPageId =>
    { s with
      pool := { s.pool with flushList := update s.pool.flushList thread [[(frameId, victimPageId)]] }
      aborting := update s.aborting thread true }
  | _ => { s with pool := { s.pool with flushList := update s.pool.flushList thread [] } }

def proceed (s : FaultyPool) (action : PoolAction) : Option FaultyPool :=
  match action with
  | .beginFlush thread =>
    if s.flushPoisoned || s.aborting thread then none
    else (s.pool.step action).map fun pool => { s with pool }
  | .abortEviction thread =>
    (s.pool.step action).map fun pool => { s with pool, aborting := update s.aborting thread false }
  | _ => (s.pool.step action).map fun pool => { s with pool }

def readFails (s : FaultyPool) (thread : Nat) : Option FaultyPool :=
  match s.pool.tasks thread with
  | .ownsFrame (.fetchPage pageId) frameId =>
    some { s with pool := (s.pool.releaseOwnedFrame frameId).setTask thread (.finishing pageId) }
  | _ => none

def appendFails (s : FaultyPool) (thread : Nat) : Option FaultyPool :=
  match s.pool.tasks thread with
  | .idle =>
    if s.pool.inFlush thread then none
    else some { s with pool := { s.pool with nextPageId := s.pool.nextPageId + 1 } }
  | _ => none

/-- A poisoned pool, or for an eviction the deadline, turns a flush away before it has the lease. -/
def flushRefused (s : FaultyPool) (thread : Nat) : Option FaultyPool :=
  if (s.pool.flushList thread).isEmpty || s.pool.lease.any (·.thread == thread) then none
  else
    match s.pool.tasks thread with
    | .idle => if s.flushPoisoned then some (s.flushError thread) else none
    | .examined _ _ _ => some (s.flushError thread)
    | _ => none

def flushFails (s : FaultyPool) (thread : Nat) (failure : FlushFailure) : Option FaultyPool :=
  match s.pool.lease with
  | some lease =>
    if lease.thread = thread ∧ lease.written = false then
      some
        ({ s with
          pool := { interrupted s.pool lease failure with lease := none }
          flushPoisoned := s.flushPoisoned || FlushFailure.poisons failure }.flushError thread)
    else none
  | none => none

def step (s : FaultyPool) : Action → Option FaultyPool
  | .proceed action => s.proceed action
  | .readFails thread => s.readFails thread
  | .appendFails thread => s.appendFails thread
  | .flushRefused thread => s.flushRefused thread
  | .flushFails thread failure => s.flushFails thread failure

def system : Lib.System FaultyPool Action where
  init := fun s => BufferPool.system.init s.pool ∧ s.flushPoisoned = false ∧ ∀ thread, s.aborting thread = false
  step := step

end FaultyPool

end SimpleRdbms.Storage
