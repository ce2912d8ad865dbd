import SimpleRdbms.Lib.Splice
import SimpleRdbms.Storage.BTreePage
import SimpleRdbms.Storage.Wal

/-!
# Rewriting a node

`rebuild` lays a node out anew and writes the bytes that differ. Every write stamps the page with the LSN that the log
gives to its record; `lsns` are those of the writes one after the other.
-/

namespace SimpleRdbms.Storage.BTreePage
open BTree Lib

inductive NodeType where
  | leaf
  | internal
deriving DecidableEq, Repr

def LEAF_TAG : UInt8 := 0
def INTERNAL_TAG : UInt8 := 1
def REBUILD_MERGE_GAP : Nat := 16

def NodeType.tag : NodeType → UInt8
  | .leaf => LEAF_TAG
  | .internal => INTERNAL_TAG

def nodeType (bytes : Bytes) : Read NodeType := do
  return if (← byteAt bytes NODE_TYPE_START) = INTERNAL_TAG then .internal else .leaf

def runEnd (old new : Bytes) (i : Nat) : Nat :=
  if i < old.length ∧ old[i]? ≠ new[i]? then runEnd old new (i + 1) else i
termination_by old.length - i

def pushRun (runs : List (Nat × Nat)) (start stop : Nat) : List (Nat × Nat) :=
  match runs.getLast? with
  | some last =>
    if start - last.2 < REBUILD_MERGE_GAP then runs.dropLast ++ [(last.1, stop)] else runs ++ [(start, stop)]
  | none => runs ++ [(start, stop)]

theorem le_runEnd (old new : Bytes) (i : Nat) : i ≤ runEnd old new i := by
  fun_induction runEnd with
  | case1 i differ ih => exact Nat.le_of_succ_le ih
  | case2 => exact Nat.le_refl _

theorem lt_runEnd {old new : Bytes} {i : Nat} (differ : i < old.length ∧ old[i]? ≠ new[i]?) : i < runEnd old new i := by
  rw [runEnd, if_pos differ]
  exact le_runEnd old new (i + 1)

def changedByteRunsFrom (old new : Bytes) (i : Nat) (runs : List (Nat × Nat)) : List (Nat × Nat) :=
  if inside : i < old.length then
    if same : old[i]? = new[i]? then changedByteRunsFrom old new (i + 1) runs
    else changedByteRunsFrom old new (runEnd old new i) (pushRun runs i (runEnd old new i))
  else runs
termination_by old.length - i
decreasing_by
  · omega
  · have := lt_runEnd ⟨inside, same⟩
    omega

def changedByteRuns (old new : Bytes) : List (Nat × Nat) := changedByteRunsFrom old new 0 []

def PAGE_LSN_START : Nat := 4

def setPageLsn (bytes : Bytes) (lsn : Nat) : Bytes := splice bytes PAGE_LSN_START (leBytes 8 lsn)

/-- `BufferPool::stamp_write`. -/
def stampWrite (bytes : Bytes) (offset : Nat) (patch : Bytes) (lsn : Nat) : Bytes :=
  setPageLsn (splice bytes offset patch) lsn

/-- `PageWriteGuard::write`. -/
def write (lsn pageId : Nat) (bytes : Bytes) (offset : Nat) (patch : Bytes) : Bytes × LogRecordKind :=
  (stampWrite bytes offset patch lsn, .update pageId offset ((bytes.drop offset).take patch.length) patch)

def writeRuns (lsns : Nat → Nat) (pageId bodyStart : Nat) (body : Bytes) :
    List (Nat × Nat) → Bytes → Bytes × List LogRecordKind
  | [], bytes => (bytes, [])
  | (start, stop) :: runs, bytes =>
    let (bytes, record) := write (lsns 0) pageId bytes (bodyStart + start) ((body.drop start).take (stop - start))
    let (bytes, records) := writeRuns (lsns ∘ (· + 1)) pageId bodyStart body runs bytes
    (bytes, record :: records)

def undoUpdate (lsn : Nat) : LogRecordKind → Bytes → Bytes
  | .update _ offset before _, bytes => stampWrite bytes offset before lsn
  | _, bytes => bytes

/-- The last record is undone first; `lsns` are those of the compensations. -/
def undoRecords (lsns : Nat → Nat) : List LogRecordKind → Bytes → Bytes
  | [], bytes => bytes
  | record :: records, bytes => undoUpdate (lsns 0) record (undoRecords (lsns ∘ (· + 1)) records bytes)

def LOCAL_HEADER_SIZE : Nat := HEADER_SIZE - NODE_TYPE_START

def placeEntries : Bytes → Nat → Nat → List Bytes → Bytes
  | body, _, _, [] => body
  | body, dataEnd, i, entry :: entries =>
    let dataEnd := dataEnd - entry.length
    let body := splice body dataEnd entry
    let slotAt := LOCAL_HEADER_SIZE + i * SLOT_SIZE
    let body := splice body slotAt (leBytes 2 (dataEnd + NODE_TYPE_START))
    let body := splice body (slotAt + 2) (leBytes 2 entry.length)
    placeEntries body dataEnd (i + 1) entries

def totalLen (entries : List Bytes) : Nat := (entries.map List.length).sum

def rebuildHeader (body : Bytes) (kind : NodeType) (tail : Option Nat) (entries : List Bytes) : Bytes :=
  let body := splice body 0 [kind.tag]
  let body := splice body 1 (leBytes 2 entries.length)
  let body := splice body 3 (leBytes 2 (totalLen entries))
  splice body 5 (leBytes 4 (tail.getD 0))

structure NodeOverflow where
  pageId : Nat
  required : Nat
  capacity : Nat
deriving DecidableEq, Repr

def rebuild (lsns : Nat → Nat) (bytes : Bytes) (pageId : Nat) (kind : NodeType) (tail : Option Nat)
    (entries : List Bytes) :
    Except NodeOverflow (Bytes × List LogRecordKind) :=
  let current := bytes.drop NODE_TYPE_START
  let required := LOCAL_HEADER_SIZE + entries.length * SLOT_SIZE + totalLen entries
  if required > current.length then .error ⟨pageId, required, current.length⟩
  else
    let body := placeEntries (rebuildHeader current kind tail entries) current.length 0 entries
    .ok (writeRuns lsns pageId NODE_TYPE_START body (changedByteRuns current body) bytes)

end SimpleRdbms.Storage.BTreePage
