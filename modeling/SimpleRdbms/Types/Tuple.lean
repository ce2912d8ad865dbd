import SimpleRdbms.Types.Value

/-!
# Rows as bytes

A bitmap with a bit for each NULL, then the other values in order.
-/

namespace SimpleRdbms

abbrev Tuple := List Value

inductive TupleError where
  | truncated (expected found : Nat)
  | invalidUtf8
deriving DecidableEq, Repr

def bitmapLength (columns : Nat) : Nat := (columns + 7) / 8

def bitMask (index : Nat) : UInt8 := 1 <<< UInt8.ofNat (index % 8)

def setBit (bitmap : Bytes) (index : Nat) : Bytes := bitmap.modify (index / 8) (· ||| bitMask index)

def hasBit (bitmap : Bytes) (index : Nat) : Bool := bitmap.getD (index / 8) 0 &&& bitMask index != 0

def Value.encode : Value → Bytes
  | .null => []
  | .boolean value => [if value then 1 else 0]
  | .integer value => leBytes 4 value.toBitVec.toNat
  | .bigInt value => leBytes 8 value.toBitVec.toNat
  | .double value => leBytes 8 value.bits.toNat
  | .varchar text => leBytes 4 text.asBytes.length ++ text.asBytes

namespace Tuple

def nullBitmap (tuple : Tuple) : Bytes :=
  tuple.zipIdx.foldl (fun bitmap column => if column.1.isNull then setBit bitmap column.2 else bitmap)
    (List.replicate (bitmapLength tuple.length) 0)

def encode (tuple : Tuple) : Bytes := tuple.nullBitmap ++ tuple.flatMap Value.encode

def slice (buffer : Bytes) (offset length : Nat) : Except TupleError Bytes :=
  if offset + length ≤ buffer.length then .ok ((buffer.drop offset).take length)
  else .error (.truncated (offset + length) buffer.length)

def decodeValue (buffer : Bytes) (offset : Nat) : DataType → Except TupleError (Value × Nat)
  | .boolean => do
      let bytes ← slice buffer offset 1
      return (.boolean (bytes.headD 0 != 0), offset + 1)
  | .integer => do
      let bytes ← slice buffer offset 4
      return (.integer (.ofBitVec (.ofNat 32 (leValue bytes))), offset + 4)
  | .bigInt => do
      let bytes ← slice buffer offset 8
      return (.bigInt (.ofBitVec (.ofNat 64 (leValue bytes))), offset + 8)
  | .double => do
      let bytes ← slice buffer offset 8
      return (.double ⟨.ofNat 64 (leValue bytes)⟩, offset + 8)
  | .varchar _ => do
      let length ← slice buffer offset 4
      let bytes ← slice buffer (offset + 4) (leValue length)
      match Text.fromUtf8 bytes with
      | none => throw .invalidUtf8
      | some text => return (.varchar text, offset + 4 + leValue length)

def decodeColumns (buffer bitmap : Bytes) (index offset : Nat) : List DataType → Except TupleError Tuple
  | [] => .ok []
  | dataType :: rest =>
    if hasBit bitmap index then do return .null :: (← decodeColumns buffer bitmap (index + 1) offset rest)
    else do
      let (value, next) ← decodeValue buffer offset dataType
      return value :: (← decodeColumns buffer bitmap (index + 1) next rest)

def decode (buffer : Bytes) (columnTypes : List DataType) : Except TupleError Tuple := do
  let bitmap ← slice buffer 0 (bitmapLength columnTypes.length)
  decodeColumns buffer bitmap 0 (bitmapLength columnTypes.length) columnTypes

end Tuple

end SimpleRdbms
