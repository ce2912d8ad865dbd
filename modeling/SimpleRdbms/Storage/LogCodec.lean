import SimpleRdbms.Storage.Page
import SimpleRdbms.Storage.Wal

/-!
# The bytes of a log record

`decodeRecord` is given the slice from the position on.
-/

namespace SimpleRdbms.Storage

def MIN_RECORD_LEN : Nat := 4 + 8 + 8 + 8 + 1 + 4 + 4

abbrev Cursor := StateT (List UInt8) Option

namespace Cursor

def take (n : Nat) : Cursor (List UInt8) := fun bytes =>
  if n ≤ bytes.length then some (bytes.take n, bytes.drop n) else none

def takeU16 : Cursor Nat := leValue <$> take 2

def takeU32 : Cursor Nat := leValue <$> take 4

def takeU64 : Cursor Nat := leValue <$> take 8

def takeLenPrefixed : Cursor (List UInt8) := do take (← takeU32)

def takePairs (first second : Cursor Nat) : Nat → Cursor (List (Nat × Nat))
  | 0 => return []
  | count + 1 => do
      let pair := (← first, ← second)
      return pair :: (← takePairs first second count)

end Cursor

namespace LogRecordKind

def tag : LogRecordKind → UInt8
  | .begin => 0
  | .commit => 1
  | .abort => 2
  | .endTxn => 3
  | .update .. => 4
  | .allocPage _ => 5
  | .clr .. => 6
  | .checkpointBegin => 7
  | .checkpointEnd .. => 8

def encodePayload : LogRecordKind → List UInt8
  | .begin | .commit | .abort | .endTxn | .checkpointBegin => []
  | .update pageId offset before after =>
    leBytes 4 pageId ++ leBytes 2 offset ++ leBytes 4 before.length ++ before ++ leBytes 4 after.length ++ after
  | .allocPage pageId => leBytes 4 pageId
  | .clr pageId offset after undoNextLsn =>
    leBytes 4 pageId ++ leBytes 2 offset ++ leBytes 4 after.length ++ after ++ leBytes 8 undoNextLsn
  | .checkpointEnd att dpt =>
    leBytes 4 att.length ++ att.flatMap (fun (txnId, lsn) => leBytes 8 txnId ++ leBytes 8 lsn) ++
      leBytes 4 dpt.length ++ dpt.flatMap fun (pageId, lsn) => leBytes 4 pageId ++ leBytes 8 lsn

open Cursor in
def payloadCursor (tag : UInt8) : Cursor LogRecordKind :=
  match tag with
  | 0 => return .begin
  | 1 => return .commit
  | 2 => return .abort
  | 3 => return .endTxn
  | 4 => return .update (← takeU32) (← takeU16) (← takeLenPrefixed) (← takeLenPrefixed)
  | 5 => return .allocPage (← takeU32)
  | 6 => return .clr (← takeU32) (← takeU16) (← takeLenPrefixed) (← takeU64)
  | 7 => return .checkpointBegin
  | 8 => do
      let att ← takePairs takeU64 takeU64 (← takeU32)
      let dpt ← takePairs takeU32 takeU64 (← takeU32)
      return .checkpointEnd att dpt
  | _ => StateT.lift none

def decodePayload (tag : UInt8) (bytes : List UInt8) : Option LogRecordKind :=
  match (payloadCursor tag).run bytes with
  | some (kind, []) => some kind
  | some (_, _ :: _) | none => none

end LogRecordKind

def encodeBody (lsn : Nat) (prevLsn : Option Nat) (txnId : Nat) (kind : LogRecordKind) : List UInt8 :=
  leBytes 8 lsn ++ leBytes 8 (prevLsn.getD 0) ++ leBytes 8 txnId ++ [kind.tag] ++ kind.encodePayload

def encodeRecord (lsn : Nat) (prevLsn : Option Nat) (txnId : Nat) (kind : LogRecordKind) : List UInt8 :=
  let body := encodeBody lsn prevLsn txnId kind
  let totalLen := leBytes 4 (4 + body.length + 4 + 4)
  totalLen ++ body ++ leBytes 4 (crc32 (totalLen ++ body)).toNat ++ totalLen

def bodyCursor : Cursor LoggedRecord := do
  let lsn ← Cursor.takeU64
  let prevLsnRaw ← Cursor.takeU64
  let txnId ← Cursor.takeU64
  let tag ← Cursor.take 1
  let payload ← get
  let kind ← StateT.lift (LogRecordKind.decodePayload (tag.headD 0) payload)
  return { lsn, prevLsn := if prevLsnRaw ≠ 0 then some prevLsnRaw else none, txnId, kind }

def decodeRecord (bytes : List UInt8) : Option (LoggedRecord × Nat) :=
  let totalLen := leValue (bytes.take 4)
  let record := bytes.take totalLen
  if bytes.length < 4 ∨ totalLen < MIN_RECORD_LEN ∨ bytes.length < totalLen then none
  else if record.drop (totalLen - 4) ≠ record.take 4 then none
  else if (crc32 (record.take (totalLen - 8))).toNat ≠ leValue ((record.drop (totalLen - 8)).take 4) then none
  else (bodyCursor.run ((record.take (totalLen - 8)).drop 4)).map fun (logged, _) => (logged, totalLen)

def LoggedRecord.encode (record : LoggedRecord) : List UInt8 :=
  encodeRecord record.lsn record.prevLsn record.txnId record.kind

end SimpleRdbms.Storage
