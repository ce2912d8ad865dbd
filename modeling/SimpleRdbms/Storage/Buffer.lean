import Mathlib.Logic.Function.Basic
import SimpleRdbms.Lib.System
import SimpleRdbms.Storage.Page
import SimpleRdbms.Storage.Wal

/-!
# The buffer pool, one critical section at a time

A step is one critical section of one thread, so a run is an interleaving of calls. Waiting is a step that is not
enabled, and which evictable frame the replacer picks is left open.
-/

namespace SimpleRdbms.Storage

/-- `applied` are the LSNs of the changes it contains, for the specification only. -/
structure Image where
  page : Page
  applied : List Nat

def Image.new (pageId : Nat) : Image := { page := Page.new pageId, applied := [] }

def Image.stamped (image : Image) : Image := { image with page := stampChecksum image.page }

def Image.change (image : Image) (lsn : Nat) (offset : Nat) (bytes : List UInt8) : Image where
  page := { image.page with lsn, data := overwrite image.page.data offset bytes }
  applied := image.applied ++ [lsn]

structure Frame where
  image : Image
  dirtySinceLsn : Nat

def Frame.change (frame : Frame) (lsn : Nat) (offset : Nat) (bytes : List UInt8) : Frame where
  image := frame.image.change lsn offset bytes
  dirtySinceLsn := if frame.dirtySinceLsn = 0 then lsn else frame.dirtySinceLsn

structure PoolIndex where
  pageTable : Nat → Option Nat
  framePage : Nat → Option Nat
  freeList : List Nat
  replacer : Nat → Option Bool
  owned : Nat → Bool
  loading : Nat → Bool
  evicting : Nat → Bool

inductive Caller where
  | fetchPage (pageId : Nat)
  | newPage (pageId : Nat) (lsn : Nat)
deriving DecidableEq, Repr

inductive Task where
  | idle
  | needFrame (caller : Caller)
  | victim (caller : Caller) (frameId : Nat) (victimPageId : Nat)
  | examined (caller : Caller) (frameId : Nat) (victimPageId : Nat)
  | ownsFrame (caller : Caller) (frameId : Nat)
  | loaded (pageId : Nat) (frameId : Nat) (image : Image)
  | finishing (pageId : Nat)
  | checkpointBegun (beginLsn : Nat)
  | activeRead (beginLsn : Nat) (att : List (Nat × Nat))
  | dirtyRead (beginLsn : Nat) (att : List (Nat × Nat)) (dpt : List (Nat × Nat))

structure Lease where
  thread : Nat
  batch : List (Nat × Nat)
  snapshot : List Image
  written : Bool

def Lease.pairs (lease : Lease) : List (Nat × Image) :=
  (lease.batch.map Prod.fst).zip lease.snapshot

/-- A change that is logged but not applied. An `Update` is appended under the latch of its frame, a `Clr` before its
page is fetched. -/
structure PendingChange where
  lsn : Nat
  pageId : Nat
  offset : Nat
  bytes : List UInt8
  latch : Option Nat
deriving DecidableEq, Repr

structure CompletedCheckpoint where
  beginLsn : Nat
  att : List (Nat × Nat)
  dpt : List (Nat × Nat)
deriving Repr

structure BufferPool where
  poolSize : Nat
  dwbCapacity : Nat
  frames : Nat → Frame
  index : PoolIndex
  disk : Nat → Image
  nextPageId : Nat
  log : LogManager
  tasks : Nat → Task
  flushList : Nat → List (List (Nat × Nat))
  lease : Option Lease
  /-- The page guards in existence; the pin count of a frame is the number of its guards. -/
  guards : List (Nat × Nat)
  /-- Frames whose pin count a thread has brought to zero without having told the replacer yet. -/
  unpinning : List Nat
  pending : List PendingChange
  active : List Nat
  /-- Every record appended so far and every checkpoint completed so far, for the specification. -/
  history : List LoggedRecord
  checkpoints : List CompletedCheckpoint

inductive PoolAction where
  | fetchFrame (thread : Nat) (pageId : Nat)
  | popFreeFrame (thread : Nat)
  | chooseVictim (thread : Nat) (frameId : Nat)
  | frameTimeout (thread : Nat)
  | examineVictim (thread : Nat)
  | abortEviction (thread : Nat)
  | completeEviction (thread : Nat)
  | readPage (thread : Nat)
  | tryInstall (thread : Nat)
  | finishFetch (thread : Nat)
  | newPage (thread : Nat) (txnId : Nat)
  | flushPage (thread : Nat) (pageId : Nat)
  | flushAll (thread : Nat)
  | beginFlush (thread : Nat)
  | writeSnapshot (thread : Nat)
  | clearDirty (thread : Nat)
  | appendUpdate (txnId : Nat) (frameId : Nat) (pageId : Nat) (offset : Nat)
      (bytes : List UInt8)
  | applyUpdate (lsn : Nat)
  | appendClr (lsn : Nat)
  | stampWrite (lsn : Nat) (frameId : Nat)
  | unpinFrame (frameId : Nat) (pageId : Nat)
  | setEvictable (frameId : Nat)
  | beginTxn (txnId : Nat)
  | endTxn (txnId : Nat)
  | checkpointBegin (thread : Nat)
  | activeSnapshot (thread : Nat)
  | dirtyPageTable (thread : Nat)
  | checkpointEnd (thread : Nat)
deriving DecidableEq, Repr

namespace BufferPool
open Function (update)

def inFlush (s : BufferPool) (thread : Nat) : Bool :=
  !(s.flushList thread).isEmpty || s.lease.any (·.thread == thread)

def latched (s : BufferPool) (frameId : Nat) : Bool :=
  s.pending.any (·.latch == some frameId)

def pinned (s : BufferPool) (frameId : Nat) : Bool :=
  s.guards.any (·.1 == frameId)

def setTask (s : BufferPool) (thread : Nat) (task : Task) : BufferPool :=
  { s with tasks := update s.tasks thread task }

def appendLog (s : BufferPool) (txnId : Nat) (kind : LogRecordKind) : BufferPool :=
  { s with
    log := s.log.append txnId kind
    history := s.history ++ [s.log.nextRecord txnId kind] }

def pinLocked (s : BufferPool) (frameId : Nat) (pageId : Nat) : BufferPool :=
  { s with
    index := { s.index with replacer := update s.index.replacer frameId (some false) }
    guards := (frameId, pageId) :: s.guards }

def failed : Caller → Task
  | .fetchPage pageId => .finishing pageId
  | .newPage _ _ => .idle

def releaseOwnedFrame (s : BufferPool) (frameId : Nat) : BufferPool :=
  { s with
    index := { s.index with
      owned := update s.index.owned frameId false
      freeList := frameId :: s.index.freeList } }

def install (s : BufferPool) (frameId : Nat) (pageId : Nat) (image : Image)
    (dirtySinceLsn : Nat) : BufferPool :=
  match s.index.pageTable pageId with
  | some winner => (s.releaseOwnedFrame frameId).pinLocked winner pageId
  | none =>
    pinLocked
      { s with
        frames := update s.frames frameId { image, dirtySinceLsn }
        index := { s.index with
          pageTable := update s.index.pageTable pageId (some frameId)
          framePage := update s.index.framePage frameId (some pageId)
          owned := update s.index.owned frameId false } }
      frameId pageId

def dirtyFrames (s : BufferPool) : List (Nat × Nat × Nat) :=
  (List.range s.poolSize).filterMap fun frameId =>
    (s.index.framePage frameId).bind fun pageId =>
      let dirtySinceLsn := (s.frames frameId).dirtySinceLsn
      if dirtySinceLsn ≠ 0 then some (frameId, pageId, dirtySinceLsn) else none

def dirtyTable (s : BufferPool) : List (Nat × Nat) :=
  s.dirtyFrames.map fun entry => entry.2

def activeTable (s : BufferPool) : List (Nat × Nat) :=
  s.active.filterMap fun txnId => (s.log.lastLsnByTxn txnId).map (txnId, ·)

def maxPageLsn (snapshot : List Image) : Nat :=
  (snapshot.map (·.page.lsn)).foldl max 0

def writePages (disk : Nat → Image) (snapshot : List Image) : Nat → Image :=
  snapshot.foldl (fun disk image => update disk image.page.id image.stamped) disk

def clearMark (frames : Nat → Frame) (entry : Nat × Image) : Nat → Frame :=
  let frame := frames entry.1
  if frame.image.page.lsn = entry.2.page.lsn then update frames entry.1 { frame with dirtySinceLsn := 0 }
  else frames

def clearMarks (frames : Nat → Frame) (written : List (Nat × Image)) : Nat → Frame :=
  written.foldl clearMark frames

/-! ## Fetching a page and making room for it -/

/-- A resident page is pinned at once; while it is evicted or loaded by another thread, the call waits. -/
def fetchFrame (s : BufferPool) (thread : Nat) (pageId : Nat) : Option BufferPool :=
  match s.tasks thread with
  | .idle =>
    if s.inFlush thread || s.index.evicting pageId then none
    else
      match s.index.pageTable pageId with
      | some frameId => some (s.pinLocked frameId pageId)
      | none =>
        if s.index.loading pageId then none
        else
          some
            ({ s with index := { s.index with loading := update s.index.loading pageId true } }.setTask
              thread (.needFrame (.fetchPage pageId)))
  | _ => none

def popFreeFrame (s : BufferPool) (thread : Nat) : Option BufferPool :=
  match s.tasks thread, s.index.freeList with
  | .needFrame caller, frameId :: rest =>
    some
      ({ s with
        index := { s.index with
          freeList := rest
          owned := update s.index.owned frameId true } }.setTask thread (.ownsFrame caller frameId))
  | _, _ => none

def chooseVictim (s : BufferPool) (thread : Nat) (frameId : Nat) : Option BufferPool :=
  match s.tasks thread, s.index.freeList, s.index.replacer frameId with
  | .needFrame caller, [], some true =>
    let index := { s.index with
      replacer := update s.index.replacer frameId none
      owned := update s.index.owned frameId true }
    match s.index.framePage frameId with
    | some victimPageId =>
      some
        ({ s with
          index := { index with
            evicting := update index.evicting victimPageId true } }.setTask thread
          (.victim caller frameId victimPageId))
    | none => some ({ s with index := index }.setTask thread (.ownsFrame caller frameId))
  | _, _, _ => none

def frameTimeout (s : BufferPool) (thread : Nat) : Option BufferPool :=
  match s.tasks thread with
  | .needFrame caller => some (s.setTask thread (failed caller))
  | _ => none

def examineVictim (s : BufferPool) (thread : Nat) : Option BufferPool :=
  match s.tasks thread with
  | .victim caller frameId victimPageId =>
    let examined := s.setTask thread (.examined caller frameId victimPageId)
    if (s.frames frameId).dirtySinceLsn = 0 then some examined
    else some { examined with flushList := update s.flushList thread [[(frameId, victimPageId)]] }
  | _ => none

def abortEviction (s : BufferPool) (thread : Nat) : Option BufferPool :=
  match s.tasks thread, s.flushList thread with
  | .examined caller frameId victimPageId, _ :: _ =>
    some
      ({ s with
        flushList := update s.flushList thread []
        index := { s.index with
          owned := update s.index.owned frameId false
          evicting := update s.index.evicting victimPageId false
          replacer := update s.index.replacer frameId (some true) } }.setTask thread (failed caller))
  | _, _ => none

def completeEviction (s : BufferPool) (thread : Nat) : Option BufferPool :=
  match s.tasks thread with
  | .examined caller frameId victimPageId =>
    if s.inFlush thread then none
    else
      some
        ({ s with
          index := { s.index with
            pageTable := update s.index.pageTable victimPageId none
            framePage := update s.index.framePage frameId none
            evicting := update s.index.evicting victimPageId false } }.setTask thread
          (.ownsFrame caller frameId))
  | _ => none

def readPage (s : BufferPool) (thread : Nat) : Option BufferPool :=
  match s.tasks thread with
  | .ownsFrame (.fetchPage pageId) frameId =>
    if pageId < s.nextPageId then some (s.setTask thread (.loaded pageId frameId (s.disk pageId)))
    else some ((s.releaseOwnedFrame frameId).setTask thread (.finishing pageId))
  | _ => none

def tryInstall (s : BufferPool) (thread : Nat) : Option BufferPool :=
  match s.tasks thread with
  | .loaded pageId frameId image =>
    some ((s.install frameId pageId image 0).setTask thread (.finishing pageId))
  | .ownsFrame (.newPage pageId lsn) frameId =>
    some ((s.install frameId pageId (Image.new pageId) lsn).setTask thread .idle)
  | _ => none

def finishFetch (s : BufferPool) (thread : Nat) : Option BufferPool :=
  match s.tasks thread with
  | .finishing pageId =>
    some
      ({ s with index := { s.index with loading := update s.index.loading pageId false } }.setTask
        thread .idle)
  | _ => none

def newPage (s : BufferPool) (thread : Nat) (txnId : Nat) : Option BufferPool :=
  match s.tasks thread with
  | .idle =>
    if s.inFlush thread then none
    else
      some
        (({ s with nextPageId := s.nextPageId + 1 }.appendLog txnId (.allocPage s.nextPageId)).setTask
          thread (.needFrame (.newPage s.nextPageId s.log.nextLsn)))
  | _ => none

def unpinFrame (s : BufferPool) (frameId : Nat) (pageId : Nat) : Option BufferPool :=
  if (frameId, pageId) ∈ s.guards ∧ s.latched frameId = false then
    let unpinned := { s with guards := s.guards.erase (frameId, pageId) }
    if unpinned.pinned frameId then some unpinned
    else some { unpinned with unpinning := frameId :: s.unpinning }
  else none

def setEvictable (s : BufferPool) (frameId : Nat) : Option BufferPool :=
  if frameId ∈ s.unpinning then
    let settled := { s with unpinning := s.unpinning.erase frameId }
    if s.pinned frameId || s.index.owned frameId then some settled
    else
      some
        { settled with
          index := { s.index with
            replacer := update s.index.replacer frameId
              ((s.index.replacer frameId).map fun _ => true) } }
  else none

/-! ## Flushing -/

def flushPage (s : BufferPool) (thread : Nat) (pageId : Nat) : Option BufferPool :=
  match s.tasks thread, s.index.pageTable pageId with
  | .idle, some frameId =>
    if s.inFlush thread || (s.frames frameId).dirtySinceLsn = 0 then none
    else some { s with flushList := update s.flushList thread [[(frameId, pageId)]] }
  | _, _ => none

def flushAll (s : BufferPool) (thread : Nat) : Option BufferPool :=
  match s.tasks thread with
  | .idle =>
    if s.inFlush thread then none
    else
      let dirty := s.dirtyFrames.map fun entry => (entry.1, entry.2.1)
      some { s with flushList := update s.flushList thread (dirty.toChunks s.dwbCapacity) }
  | _ => none

def beginFlush (s : BufferPool) (thread : Nat) : Option BufferPool :=
  match s.lease, s.flushList thread with
  | none, batch :: rest =>
    if batch.any (fun entry => s.latched entry.1) then none
    else
      some
        { s with
          flushList := update s.flushList thread rest
          lease := some
            { thread
              batch
              snapshot := batch.map fun entry => (s.frames entry.1).image
              written := false } }
  | _, _ => none

def writeSnapshot (s : BufferPool) (thread : Nat) : Option BufferPool :=
  match s.lease with
  | some lease =>
    if lease.thread = thread ∧ lease.written = false then
      some
        { s with
          log := s.log.flush (maxPageLsn lease.snapshot)
          disk := writePages s.disk lease.snapshot
          lease := some { lease with written := true } }
    else none
  | none => none

def clearDirty (s : BufferPool) (thread : Nat) : Option BufferPool :=
  match s.lease with
  | some lease =>
    if lease.thread = thread ∧ lease.written = true ∧
        lease.batch.all (fun entry => !s.latched entry.1) then
      some { s with frames := clearMarks s.frames lease.pairs, lease := none }
    else none
  | none => none

/-! ## Logged changes -/

def appendUpdate (s : BufferPool) (txnId : Nat) (frameId : Nat) (pageId : Nat)
    (offset : Nat) (bytes : List UInt8) : Option BufferPool :=
  if (frameId, pageId) ∈ s.guards ∧ s.latched frameId = false ∧ offset + bytes.length ≤ PAGE_SIZE then
    let before := readBytes (s.frames frameId).image.page.data offset bytes.length
    let change := { lsn := s.log.nextLsn, pageId, offset, bytes, latch := some frameId }
    some { s.appendLog txnId (.update pageId offset before bytes) with pending := change :: s.pending }
  else none

def appendClr (s : BufferPool) (lsn : Nat) : Option BufferPool :=
  match s.history.find? (·.lsn == lsn) with
  | some { txnId, prevLsn, kind := .update pageId offset before _, .. } =>
    let change := { lsn := s.log.nextLsn, pageId, offset, bytes := before, latch := none }
    some
      { s.appendLog txnId (.clr pageId offset before (prevLsn.getD 0)) with
        pending := change :: s.pending }
  | _ => none

def applyChange (s : BufferPool) (frameId : Nat) (change : PendingChange) : BufferPool :=
  { s with
    frames := update s.frames frameId
      ((s.frames frameId).change change.lsn change.offset change.bytes)
    pending := s.pending.erase change }

def applyUpdate (s : BufferPool) (lsn : Nat) : Option BufferPool :=
  match s.pending.find? (·.lsn == lsn) with
  | some change =>
    match change.latch with
    | some frameId => some (s.applyChange frameId change)
    | none => none
  | none => none

def stampWrite (s : BufferPool) (lsn : Nat) (frameId : Nat) : Option BufferPool :=
  match s.pending.find? (·.lsn == lsn) with
  | some change =>
    if change.latch = none ∧ (frameId, change.pageId) ∈ s.guards ∧ s.latched frameId = false then
      some (s.applyChange frameId change)
    else none
  | none => none

/-! ## Transactions and checkpoints -/

def beginTxn (s : BufferPool) (txnId : Nat) : Option BufferPool :=
  if txnId ∈ s.active then none
  else some { s.appendLog txnId .begin with active := txnId :: s.active }

def endTxn (s : BufferPool) (txnId : Nat) : Option BufferPool :=
  if txnId ∈ s.active then some { s.appendLog txnId .endTxn with active := s.active.erase txnId }
  else none

def checkpointBegin (s : BufferPool) (thread : Nat) : Option BufferPool :=
  match s.tasks thread with
  | .idle =>
    if s.inFlush thread then none
    else
      some
        ((s.appendLog CHECKPOINT_TXN .checkpointBegin).setTask thread
          (.checkpointBegun s.log.nextLsn))
  | _ => none

def activeSnapshot (s : BufferPool) (thread : Nat) : Option BufferPool :=
  match s.tasks thread with
  | .checkpointBegun beginLsn => some (s.setTask thread (.activeRead beginLsn s.activeTable))
  | _ => none

def dirtyPageTable (s : BufferPool) (thread : Nat) : Option BufferPool :=
  match s.tasks thread with
  | .activeRead beginLsn att => some (s.setTask thread (.dirtyRead beginLsn att s.dirtyTable))
  | _ => none

def checkpointEnd (s : BufferPool) (thread : Nat) : Option BufferPool :=
  match s.tasks thread with
  | .dirtyRead beginLsn att dpt =>
    let ended := (s.appendLog CHECKPOINT_TXN (.checkpointEnd att dpt)).setTask thread .idle
    some { ended with checkpoints := { beginLsn, att, dpt } :: s.checkpoints }
  | _ => none

def step (s : BufferPool) : PoolAction → Option BufferPool
  | .fetchFrame thread pageId => s.fetchFrame thread pageId
  | .popFreeFrame thread => s.popFreeFrame thread
  | .chooseVictim thread frameId => s.chooseVictim thread frameId
  | .frameTimeout thread => s.frameTimeout thread
  | .examineVictim thread => s.examineVictim thread
  | .abortEviction thread => s.abortEviction thread
  | .completeEviction thread => s.completeEviction thread
  | .readPage thread => s.readPage thread
  | .tryInstall thread => s.tryInstall thread
  | .finishFetch thread => s.finishFetch thread
  | .newPage thread txnId => s.newPage thread txnId
  | .flushPage thread pageId => s.flushPage thread pageId
  | .flushAll thread => s.flushAll thread
  | .beginFlush thread => s.beginFlush thread
  | .writeSnapshot thread => s.writeSnapshot thread
  | .clearDirty thread => s.clearDirty thread
  | .appendUpdate txnId frameId pageId offset bytes => s.appendUpdate txnId frameId pageId offset bytes
  | .applyUpdate lsn => s.applyUpdate lsn
  | .appendClr lsn => s.appendClr lsn
  | .stampWrite lsn frameId => s.stampWrite lsn frameId
  | .unpinFrame frameId pageId => s.unpinFrame frameId pageId
  | .setEvictable frameId => s.setEvictable frameId
  | .beginTxn txnId => s.beginTxn txnId
  | .endTxn txnId => s.endTxn txnId
  | .checkpointBegin thread => s.checkpointBegin thread
  | .activeSnapshot thread => s.activeSnapshot thread
  | .dirtyPageTable thread => s.dirtyPageTable thread
  | .checkpointEnd thread => s.checkpointEnd thread

/-- A pool over an existing database: any page images on disk, all older than the next record. -/
def start (poolSize dwbCapacity : Nat) (pages : List PageData) (lsns : Nat → Nat) (log : LogManager) :
    BufferPool where
  poolSize
  dwbCapacity
  frames := fun _ => { image := Image.new 0, dirtySinceLsn := 0 }
  index :=
    { pageTable := fun _ => none
      framePage := fun _ => none
      freeList := (List.range poolSize).reverse
      replacer := fun _ => none
      owned := fun _ => false
      loading := fun _ => false
      evicting := fun _ => false }
  disk := fun pageId =>
    match pages[pageId]? with
    | some data => { page := { id := pageId, lsn := lsns pageId, data }, applied := [] }
    | none => Image.new pageId
  nextPageId := pages.length
  log
  tasks := fun _ => .idle
  flushList := fun _ => []
  lease := none
  guards := []
  unpinning := []
  pending := []
  active := []
  history := []
  checkpoints := []

def system : Lib.System BufferPool PoolAction where
  init := fun s =>
    ∃ poolSize dwbCapacity pages lsns log,
      s = start poolSize dwbCapacity pages lsns log ∧ 0 < log.nextLsn ∧
        ∀ pageId < pages.length, lsns pageId < log.nextLsn
  step := step

end BufferPool

end SimpleRdbms.Storage
