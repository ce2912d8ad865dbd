import SimpleRdbms.Storage.SegmentedLog

/-!
# Names of segment files

Paths are byte strings; the base has no separators.
-/

namespace SimpleRdbms.Storage
open Text

inductive ErrorKind where
  | notFound
  | other
deriving DecidableEq, Repr

def segmentPath (base : Bytes) (id : Nat) : Bytes := base ++ asBytes ('.' :: SegmentFiles.suffix id)

def fileName (base : Bytes) : Option Bytes :=
  if base = [] ∨ base = asBytes ['.'] ∨ base = asBytes ['.', '.'] then none else some base

def toStr (name : Bytes) : Option Bytes := (fromUtf8 name).map fun _ => name

def isAsciiDigit (byte : UInt8) : Bool := 48 ≤ byte.toNat && byte.toNat ≤ 57

def decimal (digits : Bytes) : Nat := digits.foldl (fun value digit => 10 * value + (digit.toNat - 48)) 0

def parseU64 (digits : Bytes) : Option Nat :=
  if digits ≠ [] ∧ digits.all isAsciiDigit ∧ decimal digits < 2 ^ 64 then some (decimal digits) else none

def listedId (leading name : Bytes) : Option Nat := do
  let name ← toStr name
  let suffix ← name.dropPrefix? leading
  if suffix.length = 6 ∧ suffix ≠ [] ∧ suffix.all isAsciiDigit then parseU64 suffix else none

def existingSegments (base : Bytes) (readDir : Except ErrorKind (List (Except ErrorKind Bytes))) :
    Except ErrorKind (List Nat) :=
  match (fileName base).bind toStr, readDir with
  | none, _ => .ok []
  | some _, .error .notFound => .ok []
  | some _, .error err => .error err
  | some name, .ok entries => do
      let names ← entries.mapM id
      return (names.filterMap (listedId (name ++ asBytes ['.']))).mergeSort

def activeAndSealed (ids : List Nat) : Nat × List Nat :=
  match ids.getLast? with
  | some activeId => (activeId, ids.dropLast)
  | none => (0, [])

end SimpleRdbms.Storage
