import SimpleRdbms.Lib.BlockFile
import SimpleRdbms.Lib.System
import SimpleRdbms.Storage.Page

/-!
# The double-write buffer

`dwb.rs`, the part of `buffer.rs` that writes a batch through it, and `recover_double_write`. Any call may fail, and a
crash may come after any of them.
-/

namespace SimpleRdbms.Storage
open Lib

def SECTOR_SIZE : Nat := 512

abbrev Block := Fin PAGE_SIZE → UInt8

def sectorOf (i : Fin PAGE_SIZE) : Nat := i / SECTOR_SIZE

namespace Block

def zero : Block := fun _ => 0

def ofBytes (bytes : List UInt8) : Block := fun i => (bytes[i.val]?).getD 0

def bytes (block : Block) : List UInt8 := List.ofFn block

def isZero (block : Block) : Bool := block.bytes.all (· == 0)

def checksumOf (block : Block) : UInt32 := crc32 (block.bytes.drop CHECKSUM_END)

def stampChecksum (block : Block) : Block := fun i =>
  ((leBytes 4 block.checksumOf.toNat)[i.val]?).getD (block i)

def checksum (block : Block) : Nat := leValue (block.bytes.take CHECKSUM_END)

def checksumOk (block : Block) : Bool := block.isZero || block.checksum == block.checksumOf.toNat

end Block

namespace DoubleWrite

def MAGIC : List UInt8 := [0x46, 0x44, 0x42, 0x44, 0x57, 0x42, 0x30, 0x32]

def ENTRY_COUNT_OFFSET : Nat := MAGIC.length

def ENTRIES_OFFSET : Nat := ENTRY_COUNT_OFFSET + 4

def ENTRY_SIZE : Nat := 8

abbrev Entry := Nat × UInt32

def headerContent (entries : List Entry) : List UInt8 :=
  MAGIC ++ leBytes 4 entries.length ++ entries.flatMap fun entry => leBytes 4 entry.1 ++ leBytes 4 entry.2.toNat

def encodeHeader (entries : List Entry) : Block :=
  .ofBytes (headerContent entries ++ leBytes 4 (crc32 (headerContent entries)).toNat)

def readU32 (buf : List UInt8) (pos : Nat) : Nat := leValue ((buf.drop pos).take 4)

def decodeHeader (header : Block) (capacity : Nat) : Option (List Entry) :=
  let buf := header.bytes
  let count := readU32 buf ENTRY_COUNT_OFFSET
  let contentEnd := ENTRIES_OFFSET + count * ENTRY_SIZE
  if buf.take MAGIC.length ≠ MAGIC then none
  else if count = 0 ∨ count > capacity then none
  else if contentEnd + 4 > PAGE_SIZE then none
  else if (crc32 (buf.take contentEnd)).toNat ≠ readU32 buf contentEnd then none
  else some ((List.range count).map fun i =>
    let pos := ENTRIES_OFFSET + i * ENTRY_SIZE
    (readU32 buf pos, UInt32.ofNat (readU32 buf (pos + 4))))

end DoubleWrite

open DoubleWrite

/-- Pages that were never written are zero. A crash keeps any of the lengths the file has had since the last sync. -/
structure DataFile where
  pages : BlockFile (Fin PAGE_SIZE) Nat UInt8
  durableLen : Nat
  len : Nat

/-- `base` holds the pages as of the last success, `inFlight` the images of the flush that did not succeed. -/
structure Store where
  capacity : Nat
  dwb : BlockFile (Fin PAGE_SIZE) Nat UInt8
  data : DataFile
  poisoned : Bool
  base : Nat → Block
  inFlight : List (Nat × Block)

inductive DeviceCall where
  | writeDwb (page : Nat) (block : Block)
  | syncDwb
  | writeData (page : Nat) (block : Block)
  | syncData

/-- The number of the call that fails in either part of an operation, and the sectors that reach the file. -/
structure Fault where
  late : Bool
  call : Nat
  reached : Nat → Bool

structure Survivors where
  dwb : Nat → Nat → Bool
  data : Nat → Nat → Bool
  len : Nat

inductive RecoverError where
  | io
  | doubleWriteRestoreFailed (pageId : Nat)
deriving DecidableEq, Repr

namespace DataFile

def contents (file : DataFile) : Nat → Block := file.pages.contents sectorOf

def write (file : DataFile) (page : Nat) (block : Block) (reached : Nat → Bool) : DataFile :=
  { file with pages := file.pages.write page block reached, len := max file.len (page + 1) }

def sync (file : DataFile) : DataFile :=
  { pages := file.pages.sync sectorOf, durableLen := file.len, len := file.len }

def crash (file : DataFile) (keep : Nat → Nat → Bool) (len : Nat) : DataFile :=
  let kept := max file.durableLen (min len file.len)
  { pages := {
      durable := fun page => if page < kept then (file.pages.crash sectorOf keep).durable page else Block.zero
      pending := [] }
    durableLen := kept
    len := kept }

end DataFile

namespace Store

def call (s : Store) : DeviceCall → Store
  | .writeDwb page block => { s with dwb := s.dwb.write page block fun _ => true }
  | .syncDwb => { s with dwb := s.dwb.sync sectorOf }
  | .writeData page block => { s with data := s.data.write page block fun _ => true }
  | .syncData => { s with data := s.data.sync }

def failingCall (s : Store) (reached : Nat → Bool) : DeviceCall → Store
  | .writeDwb page block => { s with dwb := s.dwb.write page block reached }
  | .writeData page block => { s with data := s.data.write page block reached }
  | .syncDwb | .syncData => s

def runCalls (s : Store) (calls : List DeviceCall) (fault : Option Fault) : Store × Bool :=
  match fault with
  | none => (calls.foldl call s, true)
  | some fault =>
    match calls[fault.call]? with
    | none => (calls.foldl call s, true)
    | some failing => (((calls.take fault.call).foldl call s).failingCall fault.reached failing, false)

def early (fault : Option Fault) : Option Fault := fault.filter fun f => !f.late

def late (fault : Option Fault) : Option Fault := fault.filter fun f => f.late

def writeBatch (images : List (Nat × Block)) : List DeviceCall :=
  (images.zipIdx.map fun (image, index) => .writeDwb (1 + index) image.2) ++
    [.writeDwb 0 (encodeHeader (images.map fun image => (image.1, crc32 image.2.bytes))), .syncDwb]

def clearBatch : List DeviceCall := [.writeDwb 0 (encodeHeader []), .syncDwb]

def writePages (images : List (Nat × Block)) : List DeviceCall :=
  (images.map fun image => .writeData image.1 image.2) ++ [.syncData]

def Batch (s : Store) (batch : List (Nat × Block)) : Prop :=
  batch ≠ [] ∧ batch.length ≤ s.capacity ∧ (batch.map Prod.fst).Nodup ∧ ∀ page ∈ batch, page.1 < 2 ^ 32

instance (s : Store) (batch : List (Nat × Block)) : Decidable (s.Batch batch) :=
  inferInstanceAs (Decidable (_ ∧ _ ∧ _ ∧ ∀ page ∈ batch, page.1 < 2 ^ 32))

def stampedImages (batch : List (Nat × Block)) : List (Nat × Block) :=
  batch.map fun page => (page.1, page.2.stampChecksum)

/-- `flush_pages_before`, from the double-write buffer on; a failure behind it poisons the pool. -/
def flushPages (s : Store) (batch : List (Nat × Block)) (fault : Option Fault) : Option Store :=
  if s.poisoned ∨ ¬s.Batch batch then none
  else
    let images := stampedImages batch
    let written := { s with inFlight := images }.runCalls (writeBatch images) (early fault)
    if !written.2 then some written.1
    else
      let flushed := written.1.runCalls (writePages images ++ clearBatch) (late fault)
      if !flushed.2 then some { flushed.1 with poisoned := true }
      else some { flushed.1 with base := fun id => (images.lookup id).getD (s.base id), inFlight := [] }

def restorePlan (dwb : Nat → Block) (len : Nat) (entries : List Entry) (pages : Nat → Block) :
    List (Entry × Nat) → List (Nat × Block) × Option Nat
  | [] => ([], none)
  | ((pageId, slotCrc), index) :: rest =>
    let slot := dwb (1 + index)
    let actualCrc := crc32 slot.bytes
    if actualCrc ≠ slotCrc then
      if entries.any fun entry => entry.2 == actualCrc then ([], some pageId)
      else restorePlan dwb len entries pages rest
    else if slot.isZero then restorePlan dwb len entries pages rest
    else if pageId < len ∧ (pages pageId).checksumOk = false then
      let restored := slot.stampChecksum
      let others := restorePlan dwb len entries (Function.update pages pageId restored) rest
      ((pageId, restored) :: others.1, others.2)
    else restorePlan dwb len entries pages rest

def recoverDoubleWrite (s : Store) (fault : Option Fault) : Store × Except RecoverError Unit :=
  match decodeHeader (s.dwb.contents sectorOf 0) s.capacity with
  | none => (s, .ok ())
  | some entries =>
    let plan := restorePlan (s.dwb.contents sectorOf) s.data.len entries s.data.contents entries.zipIdx
    let writes := plan.1.map fun page => DeviceCall.writeData page.1 page.2
    match plan.2 with
    | some pageId =>
      let stopped := s.runCalls writes (early fault)
      (stopped.1, .error (if stopped.2 then .doubleWriteRestoreFailed pageId else .io))
    | none =>
      let restored := s.runCalls (writes ++ [.syncData]) (early fault)
      if !restored.2 then (restored.1, .error .io)
      else
        match plan.1.find? fun page => !(restored.1.data.contents page.1).checksumOk with
        | some page => (restored.1, .error (.doubleWriteRestoreFailed page.1))
        | none =>
          let cleared := restored.1.runCalls clearBatch (late fault)
          (cleared.1, if cleared.2 then .ok () else .error .io)

def crash (s : Store) (survivors : Survivors) : Store :=
  { s with
    dwb := s.dwb.crash sectorOf survivors.dwb
    data := s.data.crash survivors.data survivors.len }

def restart (s : Store) (survivors : Survivors) (fault : Option Fault) : Store :=
  let recovered := (s.crash survivors).recoverDoubleWrite fault
  match recovered.2 with
  | .ok () => { recovered.1 with poisoned := false, base := recovered.1.data.contents, inFlight := [] }
  | .error _ => { recovered.1 with poisoned := true }

inductive Action where
  | extend (len : Nat)
  | flush (batch : List (Nat × Block)) (fault : Option Fault)
  | restart (survivors : Survivors) (fault : Option Fault)

def step (s : Store) : Action → Option Store
  | .extend len => some { s with data := { s.data with len := max s.data.len len } }
  | .flush batch fault => s.flushPages batch fault
  | .restart survivors fault => some (s.restart survivors fault)

def system : System Store Action where
  init s := 0 < s.capacity ∧ ENTRIES_OFFSET + s.capacity * ENTRY_SIZE + 4 ≤ PAGE_SIZE ∧
    s.dwb.pending = [] ∧ (∀ page, s.dwb.durable page = Block.zero) ∧
    s.data.pages.pending = [] ∧ s.data.durableLen = s.data.len ∧
    (∀ page, s.data.pages.durable page = s.base page ∧ (s.base page).checksumOk = true) ∧
    (∀ page, s.data.len ≤ page → s.base page = Block.zero) ∧
    s.poisoned = false ∧ s.inFlight = []
  step := step

end Store

end SimpleRdbms.Storage
