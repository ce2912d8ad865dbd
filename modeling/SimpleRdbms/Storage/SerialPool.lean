import Mathlib.Data.List.AList
import SimpleRdbms.Storage.Page
import SimpleRdbms.Storage.Wal

/-!
# The buffer pool, used by one caller at a time

A frame is named by the page it holds. Which page makes room for another is chosen by the caller of `evict`.
-/

namespace SimpleRdbms.Storage
open Function (update)

inductive StorageError where
  | pageNotFound (pageId : Nat)
  | checksumMismatch (pageId : Nat)
  | outOfRange (pageId : Nat)
deriving DecidableEq, Repr

def PAGE_LSN_END : Nat := 12

/-- The data file: its length in pages, the length a crash cannot take back, and its pages. -/
structure DiskManager where
  length : Nat
  syncedLength : Nat
  images : Nat → Page

namespace DiskManager

def readPage (disk : DiskManager) (pageId : Nat) : Except StorageError Page :=
  if pageId < disk.length then
    if checksumOk (disk.images pageId) then .ok (disk.images pageId) else .error (.checksumMismatch pageId)
  else .error (.pageNotFound pageId)

def writePage (disk : DiskManager) (pageId : Nat) (page : Page) : DiskManager :=
  { disk with images := update disk.images pageId (stampChecksum page) }

def ensureAllocated (disk : DiskManager) (pageId : Nat) : DiskManager :=
  { disk with length := max disk.length (pageId + 1) }

def sync (disk : DiskManager) : DiskManager := { disk with syncedLength := disk.length }

end DiskManager

structure Resident where
  page : Page
  dirtySinceLsn : Nat

def Resident.stamp (resident : Resident) (offset : Nat) (bytes : List UInt8) (lsn : Nat) : Resident where
  page := { resident.page with lsn, data := overwrite resident.page.data offset bytes }
  dirtySinceLsn := if resident.dirtySinceLsn = 0 then lsn else resident.dirtySinceLsn

/-- `history` is no part of the code: every record ever appended, including those truncated since. -/
structure SerialPool where
  log : LogManager
  disk : DiskManager
  frames : AList fun _ : Nat => Resident
  dwbCapacity : Nat
  history : List LoggedRecord

namespace SerialPool

def appendLog (pool : SerialPool) (txnId : Nat) (kind : LogRecordKind) : SerialPool :=
  { pool with
    log := pool.log.append txnId kind
    history := pool.history ++ [pool.log.nextRecord txnId kind] }

def view (pool : SerialPool) (pageId : Nat) : Page :=
  ((pool.frames.lookup pageId).map Resident.page).getD (pool.disk.images pageId)

def install (pool : SerialPool) (pageId : Nat) (resident : Resident) : SerialPool :=
  { pool with frames := pool.frames.insert pageId resident }

def fetchPage (pool : SerialPool) (pageId : Nat) : Except StorageError (SerialPool × Resident) :=
  match pool.frames.lookup pageId with
  | some resident => .ok (pool, resident)
  | none => do
      let page ← pool.disk.readPage pageId
      let resident := { page, dirtySinceLsn := 0 }
      return (pool.install pageId resident, resident)

def pageLsn (pool : SerialPool) (pageId : Nat) : Except StorageError (SerialPool × Nat) := do
  let (pool, resident) ← pool.fetchPage pageId
  return (pool, resident.page.lsn)

def stampWrite (pool : SerialPool) (pageId offset : Nat) (bytes : List UInt8) (lsn : Nat) :
    Except StorageError SerialPool := do
  let (pool, resident) ← pool.fetchPage pageId
  if offset + bytes.length ≤ PAGE_SIZE then return pool.install pageId (resident.stamp offset bytes lsn)
  else throw (.outOfRange pageId)

def dirtyPageTable (pool : SerialPool) : List (Nat × Nat) :=
  pool.frames.entries.filterMap fun frame =>
    if frame.2.dirtySinceLsn ≠ 0 then some (frame.1, frame.2.dirtySinceLsn) else none

def clean (frames : AList fun _ : Nat => Resident) (pageId : Nat) : AList fun _ : Nat => Resident :=
  match frames.lookup pageId with
  | some resident => frames.insert pageId { resident with dirtySinceLsn := 0 }
  | none => frames

/-- `flush_pages_before` for resident pages; the log is flushed first. -/
def flushPages (pool : SerialPool) (pageIds : List Nat) : SerialPool :=
  let snapshot := pageIds.filterMap fun pageId => (pool.frames.lookup pageId).map Resident.page
  if snapshot.isEmpty then pool
  else
    let maxPageLsn := ((snapshot.map Page.lsn).max?).getD 0
    { pool with
      log := pool.log.flush maxPageLsn
      disk := (snapshot.foldl (fun disk page => disk.writePage page.id page) pool.disk).sync
      frames := pageIds.foldl clean pool.frames }

def isDirty (pool : SerialPool) (pageId : Nat) : Bool :=
  (pool.frames.lookup pageId).any fun resident => resident.dirtySinceLsn != 0

def flushPage (pool : SerialPool) (pageId : Nat) : SerialPool :=
  if pool.isDirty pageId then pool.flushPages [pageId] else pool

def flushAll (pool : SerialPool) : SerialPool :=
  ((pool.dirtyPageTable.map Prod.fst).toChunks pool.dwbCapacity).foldl flushPages pool

def sync (pool : SerialPool) : SerialPool := { pool with disk := pool.disk.sync }

def evict (pool : SerialPool) (pageId : Nat) : SerialPool :=
  let flushed := pool.flushPage pageId
  { flushed with frames := flushed.frames.erase pageId }

def ensurePageAllocated (pool : SerialPool) (pageId : Nat) : SerialPool :=
  { pool with disk := pool.disk.ensureAllocated pageId }

def LAST_CHECKPOINT_LSN : Nat := 32

def checkpointField (page : Page) : Option Nat :=
  let raw := leValue (readBytes page.data LAST_CHECKPOINT_LSN 8)
  if raw ≠ 0 then some raw else none

def lastCheckpointLsn (pool : SerialPool) : Except StorageError (SerialPool × Option Nat) := do
  let (pool, resident) ← pool.fetchPage 0
  return (pool, checkpointField resident.page)

end SerialPool

end SimpleRdbms.Storage
