import Mathlib.Data.List.OfFn
import SimpleRdbms.Proof.Crc
import SimpleRdbms.Storage.DoubleWrite

namespace SimpleRdbms.Storage
open Lib

def natCrcZeros : Nat → Nat → Nat
  | 0, crc => crc
  | count + 1, crc =>
    match natCrcStep crc 0 with
    | 0 => natCrcZeros count 0
    | next + 1 => natCrcZeros count (next + 1)

theorem natCrcZeros_eq (count crc : Nat) :
    natCrcZeros count crc = (List.replicate count (0 : UInt8)).foldl
      (fun crc byte => natCrcStep crc byte.toNat) crc := by
  induction count generalizing crc with
  | zero => rfl
  | succ count ih =>
    rw [natCrcZeros, List.replicate_succ, List.foldl_cons, UInt8.toNat_zero]
    cases natCrcStep crc 0 with
    | zero => exact ih 0
    | succ next => exact ih (next + 1)

theorem toNat_crc32_zeros (front : List UInt8) (count : Nat) (last : List UInt8) :
    (crc32 (front ++ List.replicate count 0 ++ last)).toNat =
      last.foldl (fun crc byte => natCrcStep crc byte.toNat)
        (natCrcZeros count (front.foldl (fun crc byte => natCrcStep crc byte.toNat) 0xFFFFFFFF)) ^^^ 0xFFFFFFFF := by
  rw [crc32, UInt32.toNat_xor, toNat_foldl_crc, List.foldl_append, List.foldl_append, natCrcZeros_eq]
  rfl

theorem natCrcZeros_page : natCrcZeros 4092 0xFFFFFFFF = 2680486774 := by
  decide +kernel

theorem toNat_crc32_page : (crc32 (List.replicate 4092 0)).toNat = 1614480521 := by
  have value := toNat_crc32_zeros [] 4092 []
  rw [List.nil_append, List.append_nil, List.foldl_nil, List.foldl_nil, natCrcZeros_page] at value
  exact value

namespace Block
variable {block other : Block}

@[simp] theorem bytes_length (block : Block) : block.bytes.length = PAGE_SIZE := by simp [bytes]

theorem bytes_getElem? (block : Block) {i : Nat} (inside : i < PAGE_SIZE) :
    block.bytes[i]? = some (block ⟨i, inside⟩) := by
  simp [bytes, inside]

theorem bytes_injective (same : block.bytes = other.bytes) : block = other := List.ofFn_injective same

theorem bytes_ofBytes {front : List UInt8} (fits : front.length ≤ PAGE_SIZE) :
    (ofBytes front).bytes = front ++ List.replicate (PAGE_SIZE - front.length) 0 := by
  refine List.ext_getElem? fun i => ?_
  by_cases inside : i < PAGE_SIZE
  · rw [bytes_getElem? _ inside]
    simp only [ofBytes]
    by_cases early : i < front.length
    · rw [List.getElem?_append_left early, List.getElem?_eq_getElem early]
      rfl
    · rw [List.getElem?_append_right (by omega), List.getElem?_eq_none (by omega), List.getElem?_replicate,
        if_pos (by omega)]
      rfl
  · rw [List.getElem?_eq_none (by simp; omega), List.getElem?_eq_none (by simp; omega)]

theorem isZero_iff : block.isZero = true ↔ block = zero := by
  rw [isZero, bytes, List.all_eq_true]
  constructor
  · intro all
    funext i
    exact beq_iff_eq.mp (all (block i) (List.mem_ofFn.mpr ⟨i, rfl⟩))
  · rintro rfl byte member
    obtain ⟨i, rfl⟩ := List.mem_ofFn.mp member
    rfl

theorem bytes_zero : zero.bytes = List.replicate PAGE_SIZE 0 := List.ofFn_const _ _

theorem bytes_stampChecksum (block : Block) :
    block.stampChecksum.bytes = leBytes 4 block.checksumOf.toNat ++ block.bytes.drop CHECKSUM_END := by
  refine List.ext_getElem? fun i => ?_
  by_cases inside : i < PAGE_SIZE
  · rw [bytes_getElem? _ inside, stampChecksum]
    by_cases early : i < 4
    · rw [List.getElem?_append_left (by simpa using early), List.getElem?_eq_getElem (by simpa using early)]
      rfl
    · rw [List.getElem?_append_right (by simp; omega), List.getElem?_eq_none (by simp; omega), List.getElem?_drop,
        leBytes_length, CHECKSUM_END, Nat.add_sub_cancel' (by omega), bytes_getElem? _ inside]
      rfl
  · rw [List.getElem?_eq_none (by simp; omega),
      List.getElem?_eq_none (by simp [CHECKSUM_END, PAGE_SIZE] at inside ⊢; omega)]

@[simp] theorem checksumOf_stampChecksum (block : Block) : block.stampChecksum.checksumOf = block.checksumOf := by
  rw [checksumOf, bytes_stampChecksum, show CHECKSUM_END = (leBytes 4 block.checksumOf.toNat).length by
    simp [CHECKSUM_END], List.drop_left]
  simp [checksumOf, CHECKSUM_END]

theorem checksum_stampChecksum (block : Block) : block.stampChecksum.checksum = block.checksumOf.toNat := by
  rw [checksum, bytes_stampChecksum, show CHECKSUM_END = (leBytes 4 block.checksumOf.toNat).length by
    simp [CHECKSUM_END], List.take_left]
  exact leValue_leBytes (Nat.lt_of_lt_of_eq block.checksumOf.toNat_lt (by decide))

theorem checksumOk_stampChecksum (block : Block) : block.stampChecksum.checksumOk = true := by
  rw [checksumOk, checksum_stampChecksum, checksumOf_stampChecksum, beq_self_eq_true, Bool.or_true]

theorem checksumOk_zero : zero.checksumOk = true := by
  rw [checksumOk, isZero_iff.mpr rfl, Bool.true_or]

theorem stampChecksum_stampChecksum (block : Block) : block.stampChecksum.stampChecksum = block.stampChecksum := by
  refine bytes_injective ?_
  rw [bytes_stampChecksum, checksumOf_stampChecksum, bytes_stampChecksum, List.drop_left' (by simp [CHECKSUM_END])]

theorem stampChecksum_ne_zero (block : Block) : block.stampChecksum ≠ zero := by
  intro isZero
  have body : block.checksumOf = crc32 (List.replicate 4092 0) := by
    rw [← checksumOf_stampChecksum, isZero, checksumOf, bytes_zero, List.drop_replicate]
    rfl
  have stored := checksum_stampChecksum block
  rw [isZero, body, toNat_crc32_page, checksum, bytes_zero, List.take_replicate] at stored
  exact absurd stored (by decide)

theorem checksum_congr (first : ∀ i, sectorOf i = 0 → block i = other i) : block.checksum = other.checksum := by
  have same : block.bytes.take CHECKSUM_END = other.bytes.take CHECKSUM_END := by
    refine List.ext_getElem? fun i => ?_
    rw [List.getElem?_take, List.getElem?_take]
    by_cases early : i < CHECKSUM_END
    · have inside : i < PAGE_SIZE := Nat.lt_trans early (by decide)
      rw [if_pos early, if_pos early, bytes_getElem? _ inside, bytes_getElem? _ inside, first]
      exact Nat.div_eq_of_lt (Nat.lt_trans early (by decide))
    · rw [if_neg early, if_neg early]
  rw [checksum, checksum, same]

end Block

end SimpleRdbms.Storage
