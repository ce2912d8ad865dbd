import SimpleRdbms.Proof.BoundTypes
import SimpleRdbms.Proof.Utf8

namespace SimpleRdbms
open SimpleRdbms.Lib

theorem bitMask_toBitVec (index : Nat) : (bitMask index).toBitVec = BitVec.twoPow 8 (index % 8) := by
  have all : ∀ k < 8, (1 <<< UInt8.ofNat k : UInt8).toBitVec = BitVec.twoPow 8 k := by decide
  exact all _ (Nat.mod_lt index (by decide))

theorem and_bitMask_ne_zero (byte : UInt8) (index : Nat) :
    (byte &&& bitMask index != 0) = byte.toBitVec.getLsbD (index % 8) := by
  have small := Nat.mod_lt index (show 0 < 8 by decide)
  have nonzero : BitVec.twoPow 8 (index % 8) ≠ 0#8 := by
    intro zero
    have selected := congrArg (fun bits => bits.getLsbD (index % 8)) zero
    simp [small] at selected
  have masked : byte &&& bitMask index = 0 ↔ byte.toBitVec.getLsbD (index % 8) = false := by
    rw [← UInt8.toBitVec_inj, UInt8.toBitVec_and, bitMask_toBitVec, BitVec.and_twoPow]
    cases byte.toBitVec.getLsbD (index % 8) with
    | false => simp
    | true => simpa using nonzero
  cases isSet : byte.toBitVec.getLsbD (index % 8) with
  | false => simpa using masked.mpr isSet
  | true =>
    rw [isSet] at masked
    simpa using masked

theorem hasBit_setBit {bitmap : Bytes} {index : Nat} (other : Nat) (inside : index / 8 < bitmap.length) :
    hasBit (setBit bitmap index) other = (index == other || hasBit bitmap other) := by
  simp only [hasBit, setBit, and_bitMask_ne_zero, List.getD_eq_getElem?_getD, List.getElem?_modify]
  by_cases same : index / 8 = other / 8
  · rw [same] at inside
    have equal : other % 8 = index % 8 ↔ index = other := by omega
    have small := Nat.mod_lt other (show 0 < 8 by decide)
    rw [List.getElem?_eq_getElem inside]
    rw [Bool.eq_iff_iff]
    simp [same, bitMask_toBitVec, equal, small, or_comm]
  · have different : (index == other) = false := by
      rw [beq_eq_false_iff_ne]
      rintro rfl
      exact same rfl
    simp only [same, if_false, different, Bool.false_or]
    cases bitmap[other / 8]? <;> rfl

theorem setBit_length (bitmap : Bytes) (index : Nat) : (setBit bitmap index).length = bitmap.length :=
  List.length_modify _ _ _

theorem hasBit_foldl {bitmap : Bytes} {start : Nat} {values : Tuple} (other : Nat)
    (inside : start + values.length ≤ 8 * bitmap.length) :
    hasBit ((values.zipIdx start).foldl
      (fun bitmap column => if column.1.isNull then setBit bitmap column.2 else bitmap) bitmap)
        other =
      (hasBit bitmap other || (start ≤ other && (values[other - start]?).any Value.isNull)) := by
  induction values generalizing bitmap start with
  | nil => simp
  | cons value rest ih =>
    rw [List.length_cons] at inside
    rw [List.zipIdx_cons, List.foldl_cons, ih]
    · by_cases isNull : value.isNull = true
      · simp only [isNull, if_true]
        rw [hasBit_setBit other (by omega)]
        rcases Nat.lt_trichotomy start other with before | rfl | after
        · have later : other - start = (other - (start + 1)) + 1 := by omega
          have different : (start == other) = false := by simp; omega
          simp [later, different, show start + 1 ≤ other by omega, show start ≤ other by omega]
        · simp [isNull]
        · have different : (start == other) = false := by simp; omega
          simp [different, show ¬start + 1 ≤ other by omega, show ¬start ≤ other by omega]
      · simp only [isNull, Bool.false_eq_true, if_false]
        rcases Nat.lt_trichotomy start other with before | rfl | after
        · have later : other - start = (other - (start + 1)) + 1 := by omega
          simp [later, show start + 1 ≤ other by omega, show start ≤ other by omega]
        · simp [isNull]
        · simp [show ¬start + 1 ≤ other by omega, show ¬start ≤ other by omega]
    · by_cases isNull : value.isNull = true
      · simp only [isNull, if_true, setBit_length]
        omega
      · simp only [isNull, Bool.false_eq_true, if_false]
        omega

namespace Tuple

theorem hasBit_nullBitmap (tuple : Tuple) (index : Nat) :
    hasBit tuple.nullBitmap index = (tuple[index]?).any Value.isNull := by
  have inside : 0 + tuple.length ≤ 8 * (List.replicate (bitmapLength tuple.length) (0 : UInt8)).length := by
    rw [List.length_replicate, bitmapLength]
    omega
  have empty : hasBit (List.replicate (bitmapLength tuple.length) 0) index = false := by
    rw [hasBit, and_bitMask_ne_zero, List.getD_eq_getElem?_getD, List.getElem?_replicate]
    split <;> simp
  rw [nullBitmap, hasBit_foldl index inside, empty]
  simp

theorem slice_middle (before middle after : Bytes) :
    slice (before ++ (middle ++ after)) before.length middle.length = .ok middle := by
  rw [slice, if_pos (by simp), List.drop_left, List.take_left]

theorem nullBitmap_length (tuple : Tuple) : tuple.nullBitmap.length = bitmapLength tuple.length := by
  have kept (columns : List (Value × Nat)) (bitmap : Bytes) :
      (columns.foldl (fun bitmap column => if column.1.isNull then setBit bitmap column.2 else bitmap) bitmap).length =
        bitmap.length := by
    induction columns generalizing bitmap with
    | nil => rfl
    | cons column rest ih =>
      rw [List.foldl_cons, ih]
      split
      · exact setBit_length _ _
      · rfl
  rw [nullBitmap, kept, List.length_replicate]

def Short (value : Value) : Prop := ∀ text, value = .varchar text → text.asBytes.length < 2 ^ 32

theorem decodeValue_encode {value : Value} {dataType : DataType} (before after : Bytes) (known : value.isNull = false)
    (fits : Executor.Fits value (some dataType)) (short : Short value) :
    decodeValue (before ++ (value.encode ++ after)) before.length dataType =
      .ok (value, before.length + value.encode.length) := by
  cases value with
  | null => cases known
  | boolean value =>
    have same := fits _ rfl
    cases dataType <;> simp [Planner.dataTypesMatch] at same
    have read := slice_middle before (Value.boolean value).encode after
    simp only [Value.encode, List.length_singleton] at read ⊢
    rw [decodeValue, read, ok_bind]
    cases value <;> rfl
  | integer value =>
    have same := fits _ rfl
    cases dataType <;> simp [Planner.dataTypesMatch] at same
    have read := slice_middle before (Value.integer value).encode after
    simp only [Value.encode, leBytes_length] at read ⊢
    rw [decodeValue, read, ok_bind, leValue_leBytes value.toBitVec.isLt, BitVec.ofNat_toNat, BitVec.setWidth_eq]
    rfl
  | bigInt value =>
    have same := fits _ rfl
    cases dataType <;> simp [Planner.dataTypesMatch] at same
    have read := slice_middle before (Value.bigInt value).encode after
    simp only [Value.encode, leBytes_length] at read ⊢
    rw [decodeValue, read, ok_bind, leValue_leBytes value.toBitVec.isLt, BitVec.ofNat_toNat, BitVec.setWidth_eq]
    rfl
  | double value =>
    have same := fits _ rfl
    cases dataType <;> simp [Planner.dataTypesMatch] at same
    have read := slice_middle before (Value.double value).encode after
    simp only [Value.encode, leBytes_length] at read ⊢
    rw [decodeValue, read, ok_bind, leValue_leBytes value.bits.isLt, BitVec.ofNat_toNat, BitVec.setWidth_eq]
    rfl
  | varchar text =>
    have same := fits _ rfl
    cases dataType <;> simp [Planner.dataTypesMatch] at same
    have fitsLength : text.asBytes.length < 256 ^ 4 := short text rfl
    have length := slice_middle before (leBytes 4 text.asBytes.length) (text.asBytes ++ after)
    have bytes := slice_middle (before ++ leBytes 4 text.asBytes.length) text.asBytes after
    simp only [leBytes_length, List.length_append, List.append_assoc] at length bytes
    simp only [Value.encode, List.append_assoc, List.length_append, leBytes_length]
    rw [decodeValue, length, ok_bind, leValue_leBytes fitsLength, bytes, ok_bind, Text.fromUtf8_asBytes]
    simp [pure, Except.pure, Nat.add_assoc]

theorem bits_cons {bitmap : Bytes} {index : Nat} {value : Value} {rest : Tuple}
    (bits : ∀ i, hasBit bitmap (index + i) = ((value :: rest)[i]?).any Value.isNull) :
    hasBit bitmap index = value.isNull ∧ ∀ i, hasBit bitmap (index + 1 + i) = (rest[i]?).any Value.isNull := by
  refine ⟨by simpa using bits 0, fun i => ?_⟩
  have later := bits (i + 1)
  rwa [List.getElem?_cons_succ, Nat.add_comm i 1, ← Nat.add_assoc] at later

theorem decodeColumns_encode {bitmap : Bytes} (before after : Bytes) {index : Nat} {rest : Tuple}
    {types : List DataType}
    (fits : List.Forall₂ (fun value dataType => Executor.Fits value (some dataType)) rest types)
    (bits : ∀ i, hasBit bitmap (index + i) = (rest[i]?).any Value.isNull) (short : ∀ value ∈ rest, Short value) :
    decodeColumns (before ++ (rest.flatMap Value.encode ++ after)) bitmap index before.length types = .ok rest := by
  induction fits generalizing before index with
  | nil => rfl
  | @cons value dataType rest types first _ ih =>
    obtain ⟨bit, later⟩ := bits_cons bits
    have shortRest (other : Value) (member : other ∈ rest) := short other (List.mem_cons_of_mem _ member)
    rw [List.flatMap_cons, decodeColumns, bit]
    cases isNull : value.isNull with
    | true =>
      have isValue : value = .null := by cases value <;> simp [Value.isNull] at isNull ⊢
      subst isValue
      simp only [if_true, Value.encode, List.nil_append, ih before later shortRest, ok_bind]
      rfl
    | false =>
      have read := decodeValue_encode before (rest.flatMap Value.encode ++ after) isNull first
        (short value List.mem_cons_self)
      have others := ih (before ++ value.encode) later shortRest
      rw [List.length_append, List.append_assoc] at others
      rw [List.append_assoc, read]
      simp only [Bool.false_eq_true, if_false, ok_bind, others]
      rfl

def Conforming (tuple : Tuple) (types : List DataType) : Prop :=
  List.Forall₂ (fun value dataType => Executor.Fits value (some dataType)) tuple types ∧ ∀ value ∈ tuple, Short value

theorem decode_encode {tuple : Tuple} {types : List DataType} (after : Bytes) (conforming : Conforming tuple types) :
    decode (tuple.encode ++ after) types = .ok tuple := by
  obtain ⟨fits, short⟩ := conforming
  have length := nullBitmap_length tuple
  have bitmap := slice_middle [] tuple.nullBitmap (tuple.flatMap Value.encode ++ after)
  rw [List.nil_append, List.length_nil, length, fits.length_eq] at bitmap
  have bits (i : Nat) : hasBit tuple.nullBitmap (0 + i) = (tuple[i]?).any Value.isNull := by
    rw [Nat.zero_add, hasBit_nullBitmap]
  have columns := decodeColumns_encode tuple.nullBitmap after fits bits short
  rw [length, fits.length_eq] at columns
  rw [decode, encode, List.append_assoc, bitmap, ok_bind, columns]

section Prefixes

variable {buffer : Bytes} {offset : Nat}

theorem slice_extend {length : Nat} {bytes : Bytes} (after : Bytes) (read : slice buffer offset length = .ok bytes) :
    slice (buffer ++ after) offset length = .ok bytes ∧ offset + length ≤ buffer.length := by
  unfold slice at read
  split at read
  · rename_i inside
    cases read
    rw [slice, if_pos (by rw [List.length_append]; omega), List.drop_append_of_le_length (by omega),
      List.take_append_of_le_length (by rw [List.length_drop]; omega)]
    exact ⟨rfl, inside⟩
  · cases read

theorem decodeValue_extend {dataType : DataType} {value : Value} {next : Nat} (after : Bytes)
    (read : decodeValue buffer offset dataType = .ok (value, next)) :
    decodeValue (buffer ++ after) offset dataType = .ok (value, next) ∧ next ≤ buffer.length := by
  cases dataType with
  | boolean | integer | bigInt | double =>
    obtain ⟨bytes, isBytes, isValue⟩ := bind_eq_ok.mp read
    cases isValue
    obtain ⟨same, inside⟩ := slice_extend after isBytes
    exact ⟨bind_eq_ok.mpr ⟨bytes, same, rfl⟩, inside⟩
  | varchar maxLength =>
    obtain ⟨length, isLength, read⟩ := bind_eq_ok.mp read
    obtain ⟨bytes, isBytes, isValue⟩ := bind_eq_ok.mp read
    obtain ⟨sameLength, -⟩ := slice_extend after isLength
    obtain ⟨same, inside⟩ := slice_extend after isBytes
    refine ⟨bind_eq_ok.mpr ⟨length, sameLength, bind_eq_ok.mpr ⟨bytes, same, isValue⟩⟩, ?_⟩
    split at isValue
    · exact (throw_eq_ok.mp isValue).elim
    · cases isValue
      exact inside

theorem decodeColumns_cut {bitmap before cut after : Bytes} {index : Nat} {rest : Tuple} {types : List DataType}
    (fits : List.Forall₂ (fun value dataType => Executor.Fits value (some dataType)) rest types)
    (bits : ∀ i, hasBit bitmap (index + i) = (rest[i]?).any Value.isNull) (short : ∀ value ∈ rest, Short value)
    (isCut : cut ++ after = before ++ rest.flatMap Value.encode) (strict : after ≠ [])
    (reached : before.length ≤ cut.length)
    {tuple : Tuple} : decodeColumns cut bitmap index before.length types ≠ .ok tuple := by
  induction fits generalizing before index tuple with
  | nil =>
    rw [List.flatMap_nil, List.append_nil] at isCut
    have lengths := congrArg List.length isCut
    rw [List.length_append] at lengths
    exact absurd (List.length_eq_zero_iff.mp (by omega)) strict
  | @cons value dataType rest types first _ ih =>
    obtain ⟨bit, later⟩ := bits_cons bits
    have shortRest (other : Value) (member : other ∈ rest) := short other (List.mem_cons_of_mem _ member)
    rw [List.flatMap_cons] at isCut
    rw [decodeColumns, bit]
    intro decoded
    cases isNull : value.isNull with
    | true =>
      have isValue : value = .null := by cases value <;> simp [Value.isNull] at isNull ⊢
      subst isValue
      rw [isNull, if_pos rfl] at decoded
      obtain ⟨others, isOthers, -⟩ := bind_eq_ok.mp decoded
      exact ih later shortRest isCut reached isOthers
    | false =>
      rw [isNull, if_neg Bool.false_ne_true] at decoded
      obtain ⟨⟨read, next⟩, isRead, decoded⟩ := bind_eq_ok.mp decoded
      obtain ⟨others, isOthers, -⟩ := bind_eq_ok.mp decoded
      obtain ⟨extended, inside⟩ := decodeValue_extend after isRead
      have whole := decodeValue_encode before (rest.flatMap Value.encode) isNull first (short value List.mem_cons_self)
      rw [isCut, whole] at extended
      cases extended
      rw [← List.length_append] at inside isOthers
      rw [← List.append_assoc] at isCut
      exact ih later shortRest isCut inside isOthers

theorem decode_cut {tuple : Tuple} {types : List DataType} {cut : Bytes} (conforming : Conforming tuple types)
    (isPrefix : cut <+: tuple.encode) (strict : cut ≠ tuple.encode) : ∃ err, decode cut types = .error err := by
  obtain ⟨fits, short⟩ := conforming
  obtain ⟨after, isCut⟩ := isPrefix
  have nonempty : after ≠ [] := by
    rintro rfl
    exact strict (by rwa [List.append_nil] at isCut)
  cases decoded : decode cut types with
  | error err => exact ⟨err, rfl⟩
  | ok other =>
    obtain ⟨bitmap, isBitmap, columns⟩ := bind_eq_ok.mp decoded
    obtain ⟨extended, inside⟩ := slice_extend after isBitmap
    have length := nullBitmap_length tuple
    have whole := slice_middle [] tuple.nullBitmap (tuple.flatMap Value.encode)
    rw [List.nil_append, List.length_nil, length, fits.length_eq] at whole
    rw [isCut, encode, whole] at extended
    cases extended
    have bits (i : Nat) : hasBit tuple.nullBitmap (0 + i) = (tuple[i]?).any Value.isNull := by
      rw [Nat.zero_add, hasBit_nullBitmap]
    rw [← fits.length_eq, ← length] at columns
    refine absurd columns (decodeColumns_cut fits bits short isCut nonempty ?_)
    rw [length, fits.length_eq]
    omega

end Prefixes

theorem encoding_round_trips (types : List DataType) (tuple : Tuple) (conforming : Conforming tuple types) :
    (∀ after, decode (tuple.encode ++ after) types = .ok tuple) ∧
    (∀ cut, cut <+: tuple.encode → cut ≠ tuple.encode → ∃ err, decode cut types = .error err) ∧
    ∀ other, Conforming other types → other.encode = tuple.encode → other = tuple := by
  refine ⟨fun after => decode_encode after conforming, fun cut isPrefix strict => decode_cut conforming isPrefix strict,
    fun other isConforming same => ?_⟩
  have first := decode_encode [] conforming
  have second := decode_encode [] isConforming
  rw [same, first] at second
  exact (Except.ok.inj second).symm

theorem encoding_round_trips_null :
    decode (encode [.integer 7, .null]) [.integer, .varchar 3] = .ok [.integer 7, .null] ∧
    ∃ err, decode [2, 7, 0, 0] [.integer, .varchar 3] = .error err := by
  have conforming : Conforming [.integer 7, .null] [.integer, .varchar 3] := by
    refine ⟨.cons (Executor.fits_dataType (.integer 7)) (.cons (fun own isOwn => by cases isOwn) .nil), ?_⟩
    intro value member text isText
    subst isText
    simp at member
  obtain ⟨whole, cut, -⟩ := encoding_round_trips _ _ conforming
  refine ⟨?_, cut [2, 7, 0, 0] (by decide) (by decide)⟩
  have read := whole []
  rwa [List.append_nil] at read

end Tuple

end SimpleRdbms
