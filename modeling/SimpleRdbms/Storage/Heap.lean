import Mathlib.Logic.Function.Basic
import SimpleRdbms.Lib.System
import SimpleRdbms.Storage.Page

/-!
# Table heaps

A chain of slotted pages. The length in the slot of a deleted tuple is zero, and page 0 ends the chain. Loops that
follow the chain take the number of allocated pages as fuel.
-/

namespace SimpleRdbms.Storage
open Function (update)
open Lib

namespace Heap

def SLOT_COUNT_START : Nat := 12
def DATA_USED_START : Nat := 14
def NEXT_PAGE_ID_START : Nat := 16
def HEADER_SIZE : Nat := 20
def SLOT_SIZE : Nat := 4
def MAX_SLOTS : Nat := (PAGE_SIZE - HEADER_SIZE) / SLOT_SIZE
def MAX_TUPLE_SIZE : Nat := PAGE_SIZE - HEADER_SIZE - SLOT_SIZE

end Heap

open Heap

inductive HeapError where
  | slotCountTooLarge (pageId count : Nat)
  | overlapsSlots (pageId slot start slotsEnd : Nat)
  | pastPageEnd (pageId slot start stop : Nat)
  | noSuchSlot (pageId slot : Nat)
  | slotDeleted (pageId slot : Nat)
  | inPlaceUpdateOutOfBounds (pageId slot tupleLen offset patchLen : Nat)
  | tupleTooLarge (size : Nat)
  | endless
deriving DecidableEq, Repr

def slotOffset (slot : Nat) : Nat := HEADER_SIZE + slot * SLOT_SIZE

def readU16 (data : PageData) (offset : Nat) : Nat := leValue (readBytes data offset 2)

def slottedSlotCount (data : PageData) : Nat := readU16 data SLOT_COUNT_START

def checkedSlotCount (data : PageData) (pageId : Nat) : Except HeapError Nat :=
  if MAX_SLOTS < slottedSlotCount data then .error (.slotCountTooLarge pageId (slottedSlotCount data))
  else .ok (slottedSlotCount data)

def slottedDataUsed (data : PageData) : Nat := readU16 data DATA_USED_START

def slottedDataStart (data : PageData) : Nat := PAGE_SIZE - slottedDataUsed data

def slottedNextPageId (data : PageData) : Option Nat :=
  let id := leValue (readBytes data NEXT_PAGE_ID_START 4)
  if id = 0 then none else some id

def slottedSlotEntry (data : PageData) (slot pageId : Nat) : Except HeapError (Option (Nat × Nat)) := do
  let count ← checkedSlotCount data pageId
  if count ≤ slot then return none
  else return some (readU16 data (slotOffset slot), readU16 data (slotOffset slot + 2))

def readEntry (data : PageData) (count slot pageId start len : Nat) : Except HeapError (Option Bytes) :=
  if len = 0 then .ok none
  else if start < slotOffset count then .error (.overlapsSlots pageId slot start (slotOffset count))
  else if PAGE_SIZE < start + len then .error (.pastPageEnd pageId slot start (start + len))
  else .ok (some (readBytes data start len))

def slottedRead (data : PageData) (slot pageId : Nat) : Except HeapError (Option Bytes) := do
  match ← slottedSlotEntry data slot pageId with
  | none => return none
  | some (start, len) => readEntry data (slottedSlotCount data) slot pageId start len

namespace SlottedPage

def init (data : PageData) : PageData := overwrite data SLOT_COUNT_START (List.replicate 8 0)

def setNextPageId (data : PageData) (next : Nat) : PageData := overwrite data NEXT_PAGE_ID_START (leBytes 4 next)

def place (data : PageData) (bytes : Bytes) : PageData :=
  let count := slottedSlotCount data
  let start := slottedDataStart data - bytes.length
  let data := overwrite data start bytes
  let data := overwrite data (slotOffset count) (leBytes 2 start ++ leBytes 2 bytes.length)
  overwrite data SLOT_COUNT_START (leBytes 2 (count + 1) ++ leBytes 2 (PAGE_SIZE - start))

def insert (data : PageData) (bytes : Bytes) : Option (PageData × Nat) :=
  if slottedDataStart data < slotOffset (slottedSlotCount data + 1) + bytes.length then none
  else some (place data bytes, slottedSlotCount data)

def delete (data : PageData) (slot pageId : Nat) : Except HeapError PageData := do
  match ← slottedSlotEntry data slot pageId with
  | none => return data
  | some _ => return overwrite data (slotOffset slot + 2) (leBytes 2 0)

def updateInPlace (data : PageData) (slot pageId offset : Nat) (bytes : Bytes) : Except HeapError PageData := do
  match ← slottedSlotEntry data slot pageId with
  | none => throw (.noSuchSlot pageId slot)
  | some (start, len) =>
    if len = 0 then throw (.slotDeleted pageId slot)
    else if len < offset + bytes.length then
      throw (.inPlaceUpdateOutOfBounds pageId slot len offset bytes.length)
    else return overwrite data (start + offset) bytes

end SlottedPage

/-- The pages of the file; `next` is allocated next. -/
structure PageStore where
  pages : Nat → PageData
  next : Nat

namespace PageStore

def write (store : PageStore) (pageId : Nat) (data : PageData) : PageStore :=
  { store with pages := update store.pages pageId data }

/-- Page ids have 32 bits, and the counter wraps without a check. -/
def newPage (store : PageStore) : Nat × PageStore :=
  (store.next, { pages := update store.pages store.next zeroData, next := (store.next + 1) % 2 ^ 32 })

end PageStore

structure TableHeap where
  firstPageId : Nat

namespace TableHeap

def create (store : PageStore) : TableHeap × PageStore :=
  let (pageId, store) := store.newPage
  (⟨pageId⟩, store.write pageId (SlottedPage.init (store.pages pageId)))

def appendPageAfter (store : PageStore) (after : Nat) : Nat × PageStore :=
  let (pageId, store) := store.newPage
  let store := store.write pageId (SlottedPage.init (store.pages pageId))
  (pageId, store.write after (SlottedPage.setNextPageId (store.pages after) pageId))

/-- From a page of the chain on: the first page with room takes the tuple, and a page is appended if none has. -/
def insertFrom (bytes : Bytes) : Nat → PageStore → Nat → Except HeapError (PageStore × Rid)
  | 0, _, _ => .error .endless
  | fuel + 1, store, current =>
    match SlottedPage.insert (store.pages current) bytes with
    | some (data, slot) => .ok (store.write current data, ⟨current, slot⟩)
    | none =>
      match slottedNextPageId (store.pages current) with
      | some next => insertFrom bytes fuel store next
      | none =>
        let (pageId, store) := appendPageAfter store current
        insertFrom bytes fuel store pageId

def insertTuple (heap : TableHeap) (store : PageStore) (bytes : Bytes) : Except HeapError (PageStore × Rid) :=
  if MAX_TUPLE_SIZE < bytes.length then .error (.tupleTooLarge bytes.length)
  else insertFrom bytes (store.next + 2) store heap.firstPageId

def getTuple (store : PageStore) (rid : Rid) : Except HeapError (Option Bytes) :=
  slottedRead (store.pages rid.pageId) rid.slot rid.pageId

def deleteTuple (store : PageStore) (rid : Rid) : Except HeapError PageStore := do
  return store.write rid.pageId (← SlottedPage.delete (store.pages rid.pageId) rid.slot rid.pageId)

def updateTupleInPlace (store : PageStore) (rid : Rid) (offset : Nat) (bytes : Bytes) : Except HeapError PageStore := do
  let data ← SlottedPage.updateInPlace (store.pages rid.pageId) rid.slot rid.pageId offset bytes
  return store.write rid.pageId data

inductive PageScan where
  | tuple (slot : Nat) (bytes : Bytes)
  | endOfPage (nextPageId : Option Nat)

def scanSlots (data : PageData) (pageId : Nat) : Nat → Nat → Except HeapError PageScan
  | 0, _ => .ok (.endOfPage (slottedNextPageId data))
  | remaining + 1, slot => do
      match ← slottedRead data slot pageId with
      | some bytes => return .tuple slot bytes
      | none => scanSlots data pageId remaining (slot + 1)

def scanPage (store : PageStore) (pageId fromSlot : Nat) : Except HeapError PageScan := do
  let count ← checkedSlotCount (store.pages pageId) pageId
  scanSlots (store.pages pageId) pageId (count - fromSlot) fromSlot

/-- A sequential scan: `scan_page` again and again, after the slot or on the page it returned. -/
def sweep (store : PageStore) : Nat → Nat → Nat → Except HeapError (List (Rid × Bytes))
  | 0, _, _ => .error .endless
  | fuel + 1, pageId, fromSlot => do
      match ← scanPage store pageId fromSlot with
      | .tuple slot bytes => return (⟨pageId, slot⟩, bytes) :: (← sweep store fuel pageId (slot + 1))
      | .endOfPage none => return []
      | .endOfPage (some next) => sweep store fuel next 0

def pageTuples (data : PageData) (pageId : Nat) : Nat → Nat → Except HeapError (List (Rid × Bytes))
  | 0, _ => .ok []
  | remaining + 1, slot => do
      let tuple ← slottedRead data slot pageId
      let rest ← pageTuples data pageId remaining (slot + 1)
      return (tuple.map fun bytes => (⟨pageId, slot⟩, bytes)).toList ++ rest

def iterFrom (store : PageStore) : Nat → Nat → Except HeapError (List (Rid × Bytes))
  | 0, _ => .error .endless
  | fuel + 1, pageId => do
      let count ← checkedSlotCount (store.pages pageId) pageId
      let tuples ← pageTuples (store.pages pageId) pageId count 0
      match slottedNextPageId (store.pages pageId) with
      | none => return tuples
      | some next => return tuples ++ (← iterFrom store fuel next)

def iter (heap : TableHeap) (store : PageStore) : Except HeapError (List (Rid × Bytes)) :=
  iterFrom store store.next heap.firstPageId

def scan (heap : TableHeap) (store : PageStore) : Except HeapError (List (Rid × Bytes)) :=
  sweep store (store.next * (MAX_SLOTS + 1)) heap.firstPageId 0

end TableHeap

/-- A row id that an insertion returned: the length of its tuple, and the tuple unless it is deleted. -/
structure RowRecord where
  length : Nat
  bytes : Option Bytes
deriving DecidableEq, Repr

structure HeapHistory where
  heap : TableHeap
  store : PageStore
  records : Rid → Option RowRecord

namespace HeapHistory

inductive Action where
  | insert (bytes : Bytes)
  | delete (rid : Rid)
  | update (rid : Rid) (offset : Nat) (bytes : Bytes)
  /-- Another user of the file allocates a page. -/
  | newPage

def patch (tuple : Bytes) (offset : Nat) (bytes : Bytes) : Bytes :=
  tuple.take offset ++ bytes ++ tuple.drop (offset + bytes.length)

def inserted (history : HeapHistory) (store : PageStore) (rid : Rid) (bytes : Bytes) : HeapHistory :=
  { history with store, records := update history.records rid (some ⟨bytes.length, some bytes⟩) }

def changed (history : HeapHistory) (store : PageStore) (rid : Rid) (change : Bytes → Option Bytes) : HeapHistory :=
  { history with
    store
    records := update history.records rid
      ((history.records rid).map fun record => { record with bytes := record.bytes.bind change }) }

/-- Row ids that were never returned are not used, and a failed operation changes nothing. -/
def step (history : HeapHistory) : Action → Option HeapHistory
  | .insert bytes =>
    if bytes = [] ∨ MAX_TUPLE_SIZE < bytes.length then none
    else
      match history.heap.insertTuple history.store bytes with
      | .ok (store, rid) => some (history.inserted store rid bytes)
      | .error _ => some history
  | .delete rid =>
    if (history.records rid).isNone then none
    else
      match TableHeap.deleteTuple history.store rid with
      | .ok store => some (history.changed store rid fun _ => none)
      | .error _ => some history
  | .update rid offset bytes =>
    if (history.records rid).isNone then none
    else
      match TableHeap.updateTupleInPlace history.store rid offset bytes with
      | .ok store => some (history.changed store rid fun tuple => some (patch tuple offset bytes))
      | .error _ => some history
  | .newPage => some { history with store := history.store.newPage.2 }

/-- The file has room for another page whose id is not the last one. -/
def Unwrapped (history : HeapHistory) (_ : Action) : Prop := history.store.next + 1 < 2 ^ 32

instance (history : HeapHistory) (action : Action) : Decidable (Unwrapped history action) :=
  inferInstanceAs (Decidable (_ < _))

def system : System HeapHistory Action where
  init history := ∃ file : PageStore, 0 < file.next ∧ file.next + 1 < 2 ^ 32 ∧
    TableHeap.create file = (history.heap, history.store) ∧ history.records = fun _ => none
  step := step

end HeapHistory

end SimpleRdbms.Storage
