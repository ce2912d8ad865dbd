import SimpleRdbms.Types.Value

/-!
# Keys compared as bytes

A value is encoded so that the order of the bytes is the order of the values of its type, with NULL first.
-/

namespace SimpleRdbms

def NULL_TAG : UInt8 := 0
def VALUE_TAG : UInt8 := 1
def SIGN_BIT_32 : BitVec 32 := BitVec.twoPow 32 31
def SIGN_BIT_64 : BitVec 64 := BitVec.twoPow 64 63

def orderPreservingBits (double : Double) : BitVec 64 :=
  let double := if double.partialCmp .zero = some .eq then .zero else double
  if double.bits &&& SIGN_BIT_64 ≠ 0 then ~~~double.bits else double.bits ||| SIGN_BIT_64

namespace Value

def encodeMemcomparable : Value → Except ValueError Bytes
  | .null => .ok [NULL_TAG]
  | .boolean value => .ok [VALUE_TAG, if value then 1 else 0]
  | .integer value => .ok (VALUE_TAG :: beBytes 4 (value.toBitVec ^^^ SIGN_BIT_32).toNat)
  | .bigInt value => .ok (VALUE_TAG :: beBytes 8 (value.toBitVec ^^^ SIGN_BIT_64).toNat)
  | .double value =>
    if value.isNan then
      .error (.unorderableValue "NaN cannot be encoded as a memcomparable key: it has no defined ordering")
    else .ok (VALUE_TAG :: beBytes 8 (orderPreservingBits value).toNat)
  | .varchar text => .ok (VALUE_TAG :: text.asBytes)

end Value

def hexByte (byte : UInt8) : String :=
  String.ofList ['0', 'x', Nat.digitChar (byte.toNat / 16), Nat.digitChar (byte.toNat % 16)]

def readBe (width : Nat) (bytes : Bytes) (reason : String) : Except ValueError (BitVec (8 * width)) :=
  if width ≤ bytes.length then .ok (BitVec.ofNat _ (beValue (bytes.take width)))
  else .error (.invalidEncoding reason)

def decodeMemcomparable (bytes : Bytes) (dataType : DataType) : Except ValueError (Value × Nat) :=
  match bytes with
  | [] => .error (.invalidEncoding "empty buffer, expected a tag byte")
  | tag :: rest =>
    if tag = NULL_TAG then .ok (.null, 1)
    else if tag ≠ VALUE_TAG then
      .error (.invalidEncoding
        ("unknown tag byte " ++ hexByte tag ++ ", expected " ++ hexByte NULL_TAG ++ " or " ++ hexByte VALUE_TAG))
    else
      match dataType with
      | .boolean =>
        match rest with
        | [] => .error (.invalidEncoding "truncated boolean value")
        | byte :: _ => .ok (.boolean (byte != 0), 2)
      | .integer => do
          let bits ← readBe 4 rest "truncated integer value"
          return (.integer (.ofBitVec (bits ^^^ SIGN_BIT_32)), 5)
      | .bigInt => do
          let bits ← readBe 8 rest "truncated bigint value"
          return (.bigInt (.ofBitVec (bits ^^^ SIGN_BIT_64)), 9)
      | .double => do
          let bits ← readBe 8 rest "truncated double value"
          let original := if bits &&& SIGN_BIT_64 ≠ 0 then bits &&& ~~~SIGN_BIT_64 else ~~~bits
          return (.double ⟨original⟩, 9)
      | .varchar _ =>
        match Text.fromUtf8 rest with
        | none => .error (.invalidEncoding "invalid utf-8 in varchar key")
        | some text => .ok (.varchar text, 1 + text.byteLength)

end SimpleRdbms
