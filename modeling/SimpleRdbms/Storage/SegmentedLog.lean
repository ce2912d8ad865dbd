import SimpleRdbms.Lib.Frames
import SimpleRdbms.Lib.System
import SimpleRdbms.Storage.LogCodec

/-!
# The log and its segment files

`wal.rs` down to the bytes of its files. Of the bytes written after the last sync of a file, a crash keeps any prefix.
-/

namespace SimpleRdbms.Storage
open Lib

def SEGMENT_MAGIC : List UInt8 := [0x46, 0x44, 0x42, 0x57, 0x41, 0x4c, 0x30, 0x31]

/-- The first `synced` bytes survive a crash. -/
structure Device where
  bytes : List UInt8
  synced : Nat
deriving DecidableEq, Repr

namespace Device

def empty : Device := { bytes := [], synced := 0 }

def size (device : Device) : Nat := device.bytes.length

def setLen (device : Device) (len : Nat) : Device :=
  { bytes := device.bytes.take len, synced := min device.synced len }

def writeEnd (device : Device) (data : List UInt8) : Device := { device with bytes := device.bytes ++ data }

def syncAll (device : Device) : Device := { device with synced := device.size }

def crash (device : Device) (keep : Nat) : Device :=
  let bytes := device.bytes.take (max device.synced keep)
  { bytes, synced := bytes.length }

end Device

abbrev SegmentFiles := List (Nat × Device)

namespace SegmentFiles

def device (files : SegmentFiles) (id : Nat) : Device := (files.lookup id).getD .empty

def modify (files : SegmentFiles) (id : Nat) (change : Device → Device) : SegmentFiles :=
  files.map fun file => if file.1 = id then (file.1, change file.2) else file

def open_ (id : Nat) : SegmentFiles → SegmentFiles
  | [] => [(id, .empty)]
  | file :: rest =>
    if id < file.1 then (id, .empty) :: file :: rest
    else if id = file.1 then file :: rest
    else file :: open_ id rest

def remove (files : SegmentFiles) (id : Nat) : SegmentFiles := files.filter (·.1 ≠ id)

/-- The number in a segment's file name, which `segment_path` pads to six digits. -/
def suffix (id : Nat) : List Char := (Nat.toDigits 10 id).leftpad 6 '0'

/-- `existing_segments` takes a file for a segment only if the number in its name has six digits. -/
def existing (files : SegmentFiles) : SegmentFiles := files.filter fun file => (suffix file.1).length = 6

end SegmentFiles

def segmentHeader (startLsn : Nat) : List UInt8 := SEGMENT_MAGIC ++ leBytes 8 startLsn

inductive RollFault where
  | openFile
  | setLen
  | write (written : Nat)
  | sync
deriving DecidableEq, Repr

def writeSegmentHeader (device : Device) (startLsn : Nat) : Option RollFault → Device
  | some .openFile | some .setLen => device
  | some (.write written) => (device.setLen 0).writeEnd ((segmentHeader startLsn).take written)
  | some .sync => (device.setLen 0).writeEnd (segmentHeader startLsn)
  | none => ((device.setLen 0).writeEnd (segmentHeader startLsn)).syncAll

def readSegmentHeader (device : Device) : Option Nat :=
  if device.size < HEADER_LEN then none
  else if device.bytes.take 8 ≠ SEGMENT_MAGIC then none
  else some (leValue ((device.bytes.drop 8).take 8))

def scanDecodedRecords (bytes : List UInt8) (pos : Nat) : List LoggedRecord × Nat :=
  let found := scan decodeRecord (bytes.length + 1) (bytes.drop pos)
  (found.1, pos + ((bytes.drop pos).length - found.2.length))

def readRecordAt (device : Device) (offset : Nat) : Option LoggedRecord :=
  let rest := device.bytes.drop offset
  let totalLen := leValue (rest.take 4)
  if rest.length < 4 ∨ totalLen < MIN_RECORD_LEN ∨ rest.length < totalLen then none
  else (decodeRecord (rest.take totalLen)).map Prod.fst

def Device.holdsRecord (device : Device) (record : LoggedRecord) : Bool :=
  match readSegmentHeader device with
  | none => false
  | some startLsn =>
    startLsn ≤ record.lsn && record.encode.isPrefixOf (device.bytes.drop (HEADER_LEN + (record.lsn - startLsn)))

def SegmentFiles.survivors (files : SegmentFiles) (history : List LoggedRecord) : List LoggedRecord :=
  history.filter fun record => files.any fun file => file.2.holdsRecord record

structure SegmentMeta where
  id : Nat
  startLsn : Nat
deriving DecidableEq, Repr

/-- How the device calls of a flush go. `size` fails when the records are durable already. -/
inductive FlushOutcome where
  | writeFails (written : Nat)
  | syncFails
  | sizeFails
  | succeeds (roll : Option RollFault)
deriving DecidableEq, Repr

structure SegmentedLog where
  files : SegmentFiles
  targetSegmentSize : Nat
  sealed : List SegmentMeta
  activeId : Nat
  activeStartLsn : Nat
  buffer : List UInt8
  nextLsn : Nat
  lastLsnByTxn : Nat → Option Nat
  durableLsn : Nat

namespace SegmentedLog

def activeDevice (log : SegmentedLog) : Device := log.files.device log.activeId

def nextRecord (log : SegmentedLog) (txnId : Nat) (kind : LogRecordKind) : LoggedRecord :=
  { lsn := log.nextLsn, prevLsn := log.lastLsnByTxn txnId, txnId, kind }

def append (log : SegmentedLog) (txnId : Nat) (kind : LogRecordKind) : SegmentedLog :=
  let bytes := (log.nextRecord txnId kind).encode
  { log with
    nextLsn := log.nextLsn + bytes.length
    buffer := log.buffer ++ bytes
    lastLsnByTxn := fun t => if t = txnId then some log.nextLsn else log.lastLsnByTxn t }

def rollSegment (log : SegmentedLog) : Option RollFault → SegmentedLog
  | some .openFile => log
  | some fault =>
    { log with
      files := ((log.files.open_ (log.activeId + 1)).modify (log.activeId + 1)
        (writeSegmentHeader · log.nextLsn (some fault))) }
  | none =>
    { log with
      files := ((log.files.open_ (log.activeId + 1)).modify (log.activeId + 1)
        (writeSegmentHeader · log.nextLsn none))
      sealed := log.sealed ++ [{ id := log.activeId, startLsn := log.activeStartLsn }]
      activeId := log.activeId + 1
      activeStartLsn := log.nextLsn }

def persist (log : SegmentedLog) : SegmentedLog :=
  { log with
    files := log.files.modify log.activeId fun device => (device.writeEnd log.buffer).syncAll
    buffer := []
    durableLsn := log.nextLsn }

/-- The buffer of a failed flush is kept, to be written again by the next one. -/
def flush (log : SegmentedLog) (upTo : Nat) (outcome : FlushOutcome) : SegmentedLog × Bool :=
  if log.durableLsn > upTo then (log, true)
  else
    match outcome with
    | .writeFails written =>
      ({ log with files := log.files.modify log.activeId (·.writeEnd (log.buffer.take written)) }, false)
    | .syncFails => ({ log with files := log.files.modify log.activeId (·.writeEnd log.buffer) }, false)
    | .sizeFails => (log.persist, false)
    | .succeeds roll =>
      if log.persist.activeDevice.size - HEADER_LEN ≥ log.targetSegmentSize then (log.persist.rollSegment roll, true)
      else (log.persist, true)

def flushAll (log : SegmentedLog) : SegmentedLog :=
  if log.buffer.isEmpty then log else (log.flush log.nextLsn (.succeeds none)).1

def keepFrom (bound activeStartLsn : Nat) : List SegmentMeta → Nat
  | [] => 0
  | _ :: rest =>
    let segmentEnd := (rest.head?.map SegmentMeta.startLsn).getD activeStartLsn
    if segmentEnd ≤ bound then keepFrom bound activeStartLsn rest + 1 else 0

def truncateBelow (log : SegmentedLog) (bound : Nat) : SegmentedLog × List Nat :=
  let keep := keepFrom bound log.activeStartLsn log.sealed
  ({ log with sealed := log.sealed.drop keep }, (log.sealed.take keep).map SegmentMeta.id)

def readAt (log : SegmentedLog) (lsn : Nat) : Option LoggedRecord :=
  if lsn = 0 then none
  else if log.durableLsn ≤ lsn then (decodeRecord (log.buffer.drop (lsn - log.durableLsn))).map Prod.fst
  else if log.activeStartLsn ≤ lsn then readRecordAt log.activeDevice (HEADER_LEN + (lsn - log.activeStartLsn))
  else
    match log.sealed.reverse.find? (·.startLsn ≤ lsn) with
    | none => none
    | some segment => readRecordAt (log.files.device segment.id) (HEADER_LEN + (lsn - segment.startLsn))

def segmentsFrom (sealed : List SegmentMeta) (lsn : Nat) : List SegmentMeta :=
  let startIndex := (sealed.reverse.dropWhile fun segment => lsn < segment.startLsn).length - 1
  sealed.drop startIndex

def iterFrom (log : SegmentedLog) (lsn : Nat) : List LoggedRecord :=
  let start := max lsn HEADER_LEN
  let tail := log.activeDevice.bytes.drop HEADER_LEN ++ log.buffer
  ((segmentsFrom log.sealed start).flatMap (fun segment =>
      (scanDecodedRecords (log.files.device segment.id).bytes HEADER_LEN).1) ++
    (scanDecodedRecords tail 0).1).filter (start ≤ ·.lsn)

def lastLsns (records : List LoggedRecord) (txnId : Nat) : Option Nat :=
  records.foldl (fun last record => if record.txnId = txnId then some record.lsn else last) none

def scanSealedSegment (id : Nat) (device : Device) : Option (SegmentMeta × List LoggedRecord × Nat) := do
  let startLsn ← readSegmentHeader device
  let found := scanDecodedRecords device.bytes HEADER_LEN
  if found.2 ≠ device.size then none
  else some ({ id, startLsn }, found.1, startLsn + (found.2 - HEADER_LEN))

/-- The start LSN, records and device; a file without a complete header continues after the last sealed segment. -/
def openActive (device : Device) (lastSealedNextLsn : Option Nat) : Option (Nat × List LoggedRecord × Device) :=
  if device.size < HEADER_LEN then
    let startLsn := lastSealedNextLsn.getD HEADER_LEN
    some (startLsn, [], writeSegmentHeader device startLsn none)
  else do
    let startLsn ← readSegmentHeader device
    let found := scanDecodedRecords device.bytes HEADER_LEN
    return (startLsn, found.1, device.setLen found.2)

def bootstrap (files : SegmentFiles) (targetSegmentSize activeId : Nat) (sealedFiles : SegmentFiles) :
    Option SegmentedLog := do
  let segments ← sealedFiles.mapM fun file => scanSealedSegment file.1 file.2
  let (startLsn, records, device) ← openActive (files.device activeId) (segments.getLast?.map (·.2.2))
  let nextLsn := startLsn + (device.size - HEADER_LEN)
  return {
    files := files.modify activeId fun _ => device
    targetSegmentSize
    sealed := segments.map Prod.fst
    activeId
    activeStartLsn := startLsn
    buffer := []
    nextLsn
    lastLsnByTxn := lastLsns (segments.flatMap (·.2.1) ++ records)
    durableLsn := nextLsn }

def openWithStore (files : SegmentFiles) (targetSegmentSize : Nat) : Option SegmentedLog :=
  match files.existing.getLast? with
  | none => bootstrap (files.open_ 0) targetSegmentSize 0 []
  | some (activeId, _) => bootstrap files targetSegmentSize activeId files.existing.dropLast

end SegmentedLog

/-! ## Runs -/

structure LogHistory where
  log : SegmentedLog
  history : List LoggedRecord
  flushed : List LoggedRecord

inductive LogAction where
  | append (txnId : Nat) (kind : LogRecordKind)
  | flush (upTo : Nat) (outcome : FlushOutcome)
  | reopen
  | crash (keep : Nat → Nat)

namespace LogHistory

def append (w : LogHistory) (txnId : Nat) (kind : LogRecordKind) : LogHistory :=
  { w with log := w.log.append txnId kind, history := w.history ++ [w.log.nextRecord txnId kind] }

def flush (w : LogHistory) (upTo : Nat) (outcome : FlushOutcome) : LogHistory × Bool :=
  let result := w.log.flush upTo outcome
  ({ w with log := result.1, flushed := if result.2 then w.history else w.flushed }, result.2)

def reopen (w : LogHistory) (files : SegmentFiles) : Option LogHistory :=
  (SegmentedLog.openWithStore files w.log.targetSegmentSize).map fun log =>
    { w with log, history := w.history.filter (·.lsn < log.nextLsn) }

def crashed (files : SegmentFiles) (keep : Nat → Nat) : SegmentFiles :=
  files.map fun file => (file.1, file.2.crash (keep file.1))

def step (w : LogHistory) : LogAction → Option LogHistory
  | .append txnId kind => some (w.append txnId kind)
  | .flush upTo outcome => some (w.flush upTo outcome).1
  | .reopen => w.reopen w.log.files
  | .crash keep => w.reopen (crashed w.log.files keep)

def system : System LogHistory LogAction where
  init w := w.history = [] ∧ w.flushed = [] ∧
    ∃ targetSegmentSize, SegmentedLog.openWithStore [] targetSegmentSize = some w.log
  step := step

end LogHistory

end SimpleRdbms.Storage
