import SimpleRdbms.Storage.BTree

/-!
# The bytes of an index page

An index outside a slice is a panic, kept apart from the errors that the code returns.
-/

namespace SimpleRdbms.Storage.BTreePage
open BTree

def SLOT_COUNT_START : Nat := 13
def TAIL_START : Nat := 17
def MAX_SLOTS : Nat := (PAGE_SIZE - HEADER_SIZE) / SLOT_SIZE

structure Image where
  bytes : Bytes
  size : bytes.length = PAGE_SIZE

inductive CorruptPage where
  | slotCountTooLarge (pageId count : Nat)
  | noSuchSlot (pageId slot count : Nat)
  | overlapsSlots (pageId slot start slotsEnd : Nat)
  | pastPageEnd (pageId slot start stop : Nat)
  | noTail (pageId : Nat)
deriving DecidableEq, Repr

inductive ReadFailure where
  | corruptPage (reason : CorruptPage)
  | panic
  | endless
deriving DecidableEq, Repr

abbrev Read := Except ReadFailure

/-- `bytes[index]`. -/
def byteAt (bytes : Bytes) (index : Nat) : Read UInt8 := bytes[index]?.elim (.error .panic) .ok

def readU16 (bytes : Bytes) (start : Nat) : Read Nat := do
  return leValue [← byteAt bytes start, ← byteAt bytes (start + 1)]

def readU32 (bytes : Bytes) (start : Nat) : Read Nat := do
  return leValue [← byteAt bytes start, ← byteAt bytes (start + 1), ← byteAt bytes (start + 2),
    ← byteAt bytes (start + 3)]

/-- `bytes.get(start..stop)`. -/
def slice (bytes : Bytes) (start stop : Nat) : Option Bytes :=
  if start ≤ stop ∧ stop ≤ bytes.length then some ((bytes.drop start).take (stop - start)) else none

def slotCount (bytes : Bytes) : Read Nat := readU16 bytes SLOT_COUNT_START

def tailRaw (bytes : Bytes) : Read (Option Nat) := do
  let id ← readU32 bytes TAIL_START
  return if id = 0 then none else some id

def checkedSlotCount (bytes : Bytes) (pageId : Nat) : Read Nat := do
  let count ← slotCount bytes
  if MAX_SLOTS < count then .error (.corruptPage (.slotCountTooLarge pageId count)) else return count

def slotOffset (slot : Nat) : Nat := HEADER_SIZE + slot * SLOT_SIZE

def slotEntry (bytes : Bytes) (slot pageId : Nat) : Read (Nat × Nat) := do
  let count ← checkedSlotCount bytes pageId
  if count ≤ slot then .error (.corruptPage (.noSuchSlot pageId slot count))
  else return (← readU16 bytes (slotOffset slot), ← readU16 bytes (slotOffset slot + 2))

def entryPayload (bytes : Bytes) (slot pageId : Nat) : Read Bytes := do
  let (start, len) ← slotEntry bytes slot pageId
  let slotsEnd := slotOffset (← checkedSlotCount bytes pageId)
  if start < slotsEnd then .error (.corruptPage (.overlapsSlots pageId slot start slotsEnd))
  else (slice bytes start (start + len)).elim (.error (.corruptPage (.pastPageEnd pageId slot start (start + len)))) .ok

def keyLen (payload : Bytes) : Nat := (slice payload 0 2).elim 0 leValue

def entryKey (payload : Bytes) : Bytes :=
  (slice payload KEY_LEN_PREFIX (KEY_LEN_PREFIX + keyLen payload)).getD []

def leafSortKey (payload : Bytes) : Bytes :=
  (slice payload KEY_LEN_PREFIX (KEY_LEN_PREFIX + keyLen payload + RID_TRAILER_SIZE)).getD []

def leafRid (payload : Bytes) : Read Rid := do
  let start := KEY_LEN_PREFIX + (← readU16 payload 0)
  return ⟨← readU32 payload start, ← readU16 payload (start + 4)⟩

def internalChild (payload : Bytes) : Read Nat := do
  readU32 payload (KEY_LEN_PREFIX + (← readU16 payload 0))

def bisect (goRight : Nat → Read Bool) (low high : Nat) : Read Nat :=
  if low < high then do
    let mid := low + (high - low) / 2
    if ← goRight mid then bisect goRight (mid + 1) high else bisect goRight low mid
  else return low
termination_by high - low

def upperBound (bytes key : Bytes) (pageId : Nat) : Read Nat := do
  bisect (fun mid => do return decide (entryKey (← entryPayload bytes mid pageId) ≤ key)) 0
    (← checkedSlotCount bytes pageId)

def lowerBoundLeaf (bytes key : Bytes) (pageId : Nat) : Read Nat := do
  bisect (fun mid => do return decide (leafSortKey (← entryPayload bytes mid pageId) < key)) 0
    (← checkedSlotCount bytes pageId)

def childForKey (bytes key : Bytes) (pageId : Nat) : Read Nat := do
  let idx ← upperBound bytes key pageId
  if idx = 0 then (← tailRaw bytes).elim (.error (.corruptPage (.noTail pageId))) .ok
  else internalChild (← entryPayload bytes (idx - 1) pageId)

def readEntries (bytes : Bytes) (pageId : Nat) : Read (Option Nat × List Bytes) := do
  let tail ← tailRaw bytes
  let count ← checkedSlotCount bytes pageId
  return (tail, ← (List.range count).mapM fun slot => entryPayload bytes slot pageId)

def equalRun (bytes key : Bytes) (pageId count slot : Nat) : Read (List Rid × Nat) :=
  if slot < count then do
    let payload ← entryPayload bytes slot pageId
    if entryKey payload ≠ key then return ([], slot)
    else
      let rid ← leafRid payload
      let (rids, stop) ← equalRun bytes key pageId count (slot + 1)
      return (rid :: rids, stop)
  else return ([], slot)
termination_by count - slot

def getRound (bytes key : Bytes) (pageId : Nat) : Read (List Rid × Option Nat) := do
  let count ← checkedSlotCount bytes pageId
  let (rids, stop) ← equalRun bytes key pageId count (← lowerBoundLeaf bytes key pageId)
  let next ← tailRaw bytes
  return (rids, if stop = count then next else none)

def getFrom (pages : Nat → Image) (key : Bytes) : Nat → Nat → Read (List Rid)
  | 0, _ => .error .endless
  | fuel + 1, current => do
      match ← getRound (pages current).bytes key current with
      | (rids, none) => return rids
      | (rids, some next) => return rids ++ (← getFrom pages key fuel next)

inductive LeafScan where
  | endOfLeaf (nextLeafPageId : Option Nat)
  | entry (slot : Nat) (key sortKey : Bytes) (rid : Rid)
deriving DecidableEq

def scanSlot (bytes : Bytes) (pageId count : Nat) : Option Bytes → Read Nat
  | none => return 0
  | some sortKey => do
      let slot ← lowerBoundLeaf bytes sortKey pageId
      if slot < count then
        return if leafSortKey (← entryPayload bytes slot pageId) = sortKey then slot + 1 else slot
      else return slot

def scanLeaf (bytes : Bytes) (pageId : Nat) (after : Option Bytes) : Read LeafScan := do
  let count ← checkedSlotCount bytes pageId
  let slot ← scanSlot bytes pageId count after
  if count ≤ slot then return .endOfLeaf (← tailRaw bytes)
  else
    let payload ← entryPayload bytes slot pageId
    return .entry slot (entryKey payload) (leafSortKey payload) (← leafRid payload)

end SimpleRdbms.Storage.BTreePage
