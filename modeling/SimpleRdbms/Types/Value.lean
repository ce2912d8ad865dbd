import SimpleRdbms.Common.Bytes

/-!
# Data types and values

A double is its bit pattern; doubles are compared by the numbers they stand for, so that both zeros are equal.
-/

namespace SimpleRdbms

inductive DataType where
  | boolean
  | integer
  | bigInt
  | double
  | varchar (maxLength : Nat)
deriving DecidableEq, Repr

structure Double where
  bits : BitVec 64
deriving DecidableEq, Repr

namespace Double

def negative (double : Double) : Bool := double.bits.msb

def exponent (double : Double) : Nat := double.bits.toNat / 2 ^ 52 % 2 ^ 11

def fraction (double : Double) : Nat := double.bits.toNat % 2 ^ 52

def isNan (double : Double) : Bool := double.exponent == 2047 && double.fraction != 0

/-- The absolute value in units of the least positive double; infinity lies above all numbers. -/
def magnitude (double : Double) : Nat :=
  if double.exponent = 0 then double.fraction else (2 ^ 52 + double.fraction) * 2 ^ (double.exponent - 1)

def value (double : Double) : Int := if double.negative then -double.magnitude else double.magnitude

def partialCmp (double other : Double) : Option Ordering :=
  if double.isNan || other.isNan then none else some (compareOfLessAndEq double.value other.value)

def neg (double : Double) : Double := ⟨double.bits ^^^ BitVec.twoPow 64 63⟩

def zero : Double := ⟨0⟩

/-- The nearest double to a quotient, the even one of two. -/
def ofRatio (numerator denominator : Nat) : Double :=
  let scaled := numerator * 2 ^ 1074
  let shift := (scaled / denominator).log2 - 52
  let unit := denominator * 2 ^ shift
  let quotient := scaled / unit
  let twice := 2 * (scaled % unit)
  let rounded := if unit < twice ∨ twice = unit ∧ quotient % 2 = 1 then quotient + 1 else quotient
  ⟨BitVec.ofNat 64 (min (shift * 2 ^ 52 + rounded) (2047 * 2 ^ 52))⟩

end Double

inductive Value where
  | null
  | boolean (value : Bool)
  | integer (value : Int32)
  | bigInt (value : Int64)
  | double (value : Double)
  | varchar (value : Text)
deriving DecidableEq, Repr

inductive ValueError where
  | typeMismatch (lhs rhs : String)
  | unorderableValue (reason : String)
  | invalidEncoding (reason : String)
deriving DecidableEq, Repr

namespace Value

def dataType : Value → Option DataType
  | .null => none
  | .boolean _ => some .boolean
  | .integer _ => some .integer
  | .bigInt _ => some .bigInt
  | .double _ => some .double
  | .varchar text => some (.varchar (text.byteLength % 2 ^ 32))

def isNull : Value → Bool
  | .null => true
  | _ => false

def typeName : Value → String
  | .null => "Null"
  | .boolean _ => "Boolean"
  | .integer _ => "Integer"
  | .bigInt _ => "BigInt"
  | .double _ => "Double"
  | .varchar _ => "Varchar"

def compare (value other : Value) : Except ValueError (Option Ordering) :=
  match value, other with
  | .null, _ => .ok none
  | _, .null => .ok none
  | .boolean a, .boolean b => .ok (some (compareOfLessAndEq a b))
  | .integer a, .integer b => .ok (some (compareOfLessAndEq a b))
  | .bigInt a, .bigInt b => .ok (some (compareOfLessAndEq a b))
  | .double a, .double b => .ok (a.partialCmp b)
  | .varchar a, .varchar b => .ok (some (compareOfLessAndEq a.asBytes b.asBytes))
  | _, _ => .error (.typeMismatch value.typeName other.typeName)

end Value

end SimpleRdbms
