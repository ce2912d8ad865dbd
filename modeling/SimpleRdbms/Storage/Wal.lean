import Mathlib.Data.List.Basic
import SimpleRdbms.Common.Ids

/-!
# The write-ahead log

The log sequence number of a record is where its encoding starts. A segment is modelled by the records its device holds.
-/

namespace SimpleRdbms.Storage

def CHECKPOINT_TXN : Nat := 18446744073709551615

def HEADER_LEN : Nat := 16

inductive LogRecordKind where
  | begin
  | commit
  | abort
  | endTxn
  | update (pageId : Nat) (offset : Nat) (before after : List UInt8)
  | allocPage (pageId : Nat)
  | clr (pageId : Nat) (offset : Nat) (after : List UInt8) (undoNextLsn : Nat)
  | checkpointBegin
  | checkpointEnd (att : List (Nat × Nat)) (dpt : List (Nat × Nat))
deriving DecidableEq, Repr

def LogRecordKind.payloadLen : LogRecordKind → Nat
  | .begin | .commit | .abort | .endTxn | .checkpointBegin => 0
  | .update _ _ before after => 4 + 2 + 4 + before.length + 4 + after.length
  | .allocPage _ => 4
  | .clr _ _ after _ => 4 + 2 + 4 + after.length + 8
  | .checkpointEnd att dpt => 4 + 16 * att.length + 4 + 12 * dpt.length

/-- Length, LSN, previous LSN, transaction, tag, payload, checksum and length again. -/
def LogRecordKind.encodedLen (kind : LogRecordKind) : Nat :=
  4 + (8 + 8 + 8 + 1 + kind.payloadLen) + 4 + 4

structure LoggedRecord where
  lsn : Nat
  prevLsn : Option Nat
  txnId : Nat
  kind : LogRecordKind
deriving DecidableEq, Repr

def LoggedRecord.len (record : LoggedRecord) : Nat := record.kind.encodedLen

def LoggedRecord.endLsn (record : LoggedRecord) : Nat := record.lsn + record.len

def LogRecordKind.pageChange : LogRecordKind → Option (Nat × Nat × List UInt8)
  | .update pageId offset _ after => some (pageId, offset, after)
  | .clr pageId offset after _ => some (pageId, offset, after)
  | _ => none

def LogRecordKind.isCheckpoint : LogRecordKind → Bool
  | .checkpointBegin | .checkpointEnd _ _ => true
  | .begin | .commit | .abort | .endTxn | .update _ _ _ _ | .allocPage _ | .clr _ _ _ _ => false

structure Segment where
  startLsn : Nat
  records : List LoggedRecord
deriving Repr

def totalLen (records : List LoggedRecord) : Nat := records.foldr (fun record rest => record.len + rest) 0

structure LogManager where
  sealed : List Segment
  active : Segment
  buffer : List LoggedRecord
  nextLsn : Nat
  lastLsnByTxn : Nat → Option Nat
  durableLsn : Nat
  targetSegmentSize : Nat

namespace LogManager

def create (targetSegmentSize : Nat) : LogManager where
  sealed := []
  active := { startLsn := HEADER_LEN, records := [] }
  buffer := []
  nextLsn := HEADER_LEN
  lastLsnByTxn := fun _ => none
  durableLsn := HEADER_LEN
  targetSegmentSize

def nextRecord (log : LogManager) (txnId : Nat) (kind : LogRecordKind) : LoggedRecord :=
  { lsn := log.nextLsn, prevLsn := log.lastLsnByTxn txnId, txnId, kind }

def append (log : LogManager) (txnId : Nat) (kind : LogRecordKind) : LogManager :=
  { log with
    nextLsn := log.nextLsn + kind.encodedLen
    buffer := log.buffer ++ [log.nextRecord txnId kind]
    lastLsnByTxn := fun t => if t = txnId then some log.nextLsn else log.lastLsnByTxn t }

def persist (log : LogManager) : LogManager :=
  { log with
    active := { log.active with records := log.active.records ++ log.buffer }
    buffer := []
    durableLsn := log.nextLsn }

def rollSegment (log : LogManager) : LogManager :=
  { log with
    sealed := log.sealed ++ [log.active]
    active := { startLsn := log.nextLsn, records := [] } }

def flush (log : LogManager) (upTo : Nat) : LogManager :=
  if log.durableLsn > upTo then log
  else
    let persisted := log.persist
    if totalLen persisted.active.records ≥ persisted.targetSegmentSize then persisted.rollSegment
    else persisted

def flushAll (log : LogManager) : LogManager :=
  if log.buffer.isEmpty then log else log.flush log.nextLsn

/-- The sealed segments an iterator visits: from the last that starts at or below `lsn`, or all. -/
def segmentsFrom (sealed : List Segment) (lsn : Nat) : List Segment :=
  let startIndex := (sealed.reverse.dropWhile fun segment => lsn < segment.startLsn).length - 1
  sealed.drop startIndex

def iterFrom (log : LogManager) (lsn : Nat) : List LoggedRecord :=
  let start := max lsn HEADER_LEN
  ((segmentsFrom log.sealed start).flatMap Segment.records ++ log.active.records ++ log.buffer).filter
    (start ≤ ·.lsn)

def recordAt : List LoggedRecord → Nat → Option LoggedRecord
  | [], _ => none
  | record :: rest, offset =>
    if offset = 0 then some record
    else if offset < record.len then none
    else recordAt rest (offset - record.len)

def readAt (log : LogManager) (lsn : Nat) : Option LoggedRecord :=
  if lsn = 0 then none
  else if log.durableLsn ≤ lsn then recordAt log.buffer (lsn - log.durableLsn)
  else if log.active.startLsn ≤ lsn then recordAt log.active.records (lsn - log.active.startLsn)
  else
    match log.sealed.reverse.find? (·.startLsn ≤ lsn) with
    | none => none
    | some segment => recordAt segment.records (lsn - segment.startLsn)

def deviceRecords (log : LogManager) : List LoggedRecord :=
  log.sealed.flatMap Segment.records ++ log.active.records

def bootstrap (targetSegmentSize : Nat) (sealed : List Segment) (active : Segment) : LogManager where
  sealed
  active
  buffer := []
  nextLsn := active.startLsn + totalLen active.records
  lastLsnByTxn txnId :=
    (((sealed.flatMap Segment.records ++ active.records).filter (·.txnId = txnId)).getLast?).map (·.lsn)
  durableLsn := active.startLsn + totalLen active.records
  targetSegmentSize

@[simp] theorem nextRecord_txnId (log : LogManager) (txnId : Nat) (kind : LogRecordKind) :
    (log.nextRecord txnId kind).txnId = txnId := rfl

@[simp] theorem nextRecord_kind (log : LogManager) (txnId : Nat) (kind : LogRecordKind) :
    (log.nextRecord txnId kind).kind = kind := rfl

@[simp] theorem append_nextLsn (log : LogManager) (txnId : Nat) (kind : LogRecordKind) :
    (log.append txnId kind).nextLsn = log.nextLsn + kind.encodedLen := rfl

@[simp] theorem flush_nextLsn (log : LogManager) (upTo : Nat) : (log.flush upTo).nextLsn = log.nextLsn := by
  unfold flush
  split
  · rfl
  · dsimp only
    split <;> rfl

end LogManager

theorem LogRecordKind.encodedLen_pos (kind : LogRecordKind) : 0 < kind.encodedLen := by
  unfold encodedLen
  omega

end SimpleRdbms.Storage
