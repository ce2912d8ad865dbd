import Mathlib.Data.List.Basic
import SimpleRdbms.Common.Bytes
import SimpleRdbms.Common.Ids
import SimpleRdbms.Common.Crc

namespace SimpleRdbms.Storage

def PAGE_SIZE : Nat := 4096

/-- The bytes of a page, by offset. Every access the storage engine makes is below `PAGE_SIZE`. -/
abbrev PageData := Nat → UInt8

def zeroData : PageData := fun _ => 0

/-- `data[offset..offset + bytes.len()].copy_from_slice(bytes)`. -/
def overwrite (data : PageData) (offset : Nat) (bytes : List UInt8) : PageData := fun i =>
  if offset ≤ i then (bytes[i - offset]?).getD (data i) else data i

/-- `data[offset..offset + len].to_vec()`. -/
def readBytes (data : PageData) (offset len : Nat) : List UInt8 :=
  (List.range len).map fun k => data (offset + k)

/-- The LSN of the last change is kept beside the bytes; the code stores it at offsets `4..12`. -/
structure Page where
  id : Nat
  lsn : Nat
  data : PageData

def Page.new (id : Nat) : Page := { id, lsn := 0, data := zeroData }

def CHECKSUM_END : Nat := 4

def checksumOf (page : Page) : UInt32 :=
  crc32 (leBytes 8 page.lsn ++ readBytes page.data 12 (PAGE_SIZE - 12))

def stampChecksum (page : Page) : Page :=
  { page with data := overwrite page.data 0 (leBytes 4 (checksumOf page).toNat) }

def checksumOk (page : Page) : Bool :=
  (page.lsn == 0 && (List.range PAGE_SIZE).all fun i => page.data i == 0) ||
    leValue (readBytes page.data 0 CHECKSUM_END) == (checksumOf page).toNat

variable {data : PageData} {offset i : Nat}

theorem overwrite_outside {bytes : List UInt8}
    (outside : i < offset ∨ offset + bytes.length ≤ i) : overwrite data offset bytes i = data i := by
  unfold overwrite
  split
  · rw [List.getElem?_eq_none (by omega)]
    rfl
  · rfl

theorem overwrite_inside {bytes : List UInt8}
    (lower : offset ≤ i) (upper : i < offset + bytes.length) : overwrite data offset bytes i = bytes[i - offset] := by
  simp [overwrite, lower, List.getElem?_eq_getElem (show i - offset < bytes.length by omega)]

@[simp] theorem readBytes_length (data : PageData) (offset len : Nat) : (readBytes data offset len).length = len := by
  simp [readBytes]

@[simp] theorem stampChecksum_lsn (page : Page) : (stampChecksum page).lsn = page.lsn := rfl

theorem stampChecksum_data (page : Page) (body : CHECKSUM_END ≤ i) : (stampChecksum page).data i = page.data i := by
  have past : 0 + (leBytes 4 (checksumOf page).toNat).length ≤ i := by simpa [CHECKSUM_END] using body
  exact overwrite_outside (Or.inr past)

theorem readBytes_overwrite (data : PageData) (offset : Nat) (bytes : List UInt8) :
    readBytes (overwrite data offset bytes) offset bytes.length = bytes := by
  apply List.ext_getElem
  · simp
  · intro k _ inside
    simp only [readBytes, List.getElem_map, List.getElem_range]
    rw [overwrite_inside (by omega) (by omega)]
    simp

theorem readBytes_congr {other : PageData} {len : Nat}
    (same : ∀ i, offset ≤ i → i < offset + len → data i = other i) :
    readBytes data offset len = readBytes other offset len := by
  unfold readBytes
  apply List.map_congr_left
  intro k member
  have := List.mem_range.mp member
  exact same _ (by omega) (by omega)

theorem checksumOf_stampChecksum (page : Page) : checksumOf (stampChecksum page) = checksumOf page := by
  have body : readBytes (stampChecksum page).data 12 (PAGE_SIZE - 12) = readBytes page.data 12 (PAGE_SIZE - 12) :=
    readBytes_congr fun i low _ => stampChecksum_data page (by simp only [CHECKSUM_END]; omega)
  rw [checksumOf, checksumOf, stampChecksum_lsn, body]

theorem checksumOk_stampChecksum (page : Page) : checksumOk (stampChecksum page) = true := by
  have bytes : readBytes (stampChecksum page).data 0 CHECKSUM_END = leBytes 4 (checksumOf page).toNat := by
    have read := readBytes_overwrite page.data 0 (leBytes 4 (checksumOf page).toNat)
    rwa [leBytes_length] at read
  have fits : (checksumOf page).toNat < 256 ^ 4 := (checksumOf page).toNat_lt
  simp [checksumOk, bytes, leValue_leBytes fits, checksumOf_stampChecksum]

end SimpleRdbms.Storage
