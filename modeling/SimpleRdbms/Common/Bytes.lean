import Mathlib.Algebra.Ring.Nat
import Mathlib.Data.List.Lex
import Mathlib.Tactic.Common

/-!
# Bytes and texts

A text is the list of its characters, compared and stored by its UTF-8 bytes.
-/

namespace SimpleRdbms

instance byteOrder : LinearOrder UInt8 where
  le_refl := UInt8.le_refl
  le_trans _ _ _ := UInt8.le_trans
  lt_iff_le_not_ge a b := by
    rw [UInt8.not_le]
    exact ⟨fun less => ⟨UInt8.le_of_lt less, less⟩, fun less => less.2⟩
  le_antisymm _ _ := UInt8.le_antisymm
  le_total := UInt8.le_total
  toDecidableLE := inferInstance
  toDecidableEq := inferInstance
  toDecidableLT := inferInstance

abbrev Bytes := List UInt8

def leBytes (width value : Nat) : List UInt8 :=
  (List.range width).map fun k => UInt8.ofNat (value >>> (8 * k))

def leValue (bytes : List UInt8) : Nat :=
  bytes.foldr (fun byte rest => byte.toNat + 256 * rest) 0

def beBytes (width value : Nat) : Bytes := (leBytes width value).reverse

def beValue (bytes : Bytes) : Nat := leValue bytes.reverse

@[simp] theorem leBytes_length (width value : Nat) : (leBytes width value).length = width := by
  simp [leBytes]

theorem leBytes_succ (width value : Nat) :
    leBytes (width + 1) value = UInt8.ofNat value :: leBytes width (value >>> 8) := by
  simp only [leBytes, List.range_succ_eq_map, List.map_cons, List.map_map, Nat.mul_zero, Nat.shiftRight_zero]
  congr 1
  apply List.map_congr_left
  intro k _
  simp only [Function.comp_apply, ← Nat.shiftRight_add]
  congr 2
  omega

theorem leValue_leBytes {width value : Nat} (fits : value < 256 ^ width) : leValue (leBytes width value) = value := by
  induction width generalizing value with
  | zero =>
    have : value = 0 := by simpa using fits
    subst this
    rfl
  | succ width ih =>
    have high : value >>> 8 < 256 ^ width := by
      rw [Nat.shiftRight_eq_div_pow]
      rw [Nat.pow_succ, Nat.mul_comm] at fits
      exact Nat.div_lt_of_lt_mul fits
    rw [leBytes_succ]
    have rest := ih high
    simp only [leValue, List.foldr_cons] at rest ⊢
    rw [rest, UInt8.toNat_ofNat', Nat.shiftRight_eq_div_pow]
    omega

theorem leBytes_mod (width value : Nat) : leBytes width (value % 256 ^ width) = leBytes width value := by
  induction width generalizing value with
  | zero => rfl
  | succ width ih =>
    have high : (value % 256 ^ (width + 1)) >>> 8 = (value >>> 8) % 256 ^ width := by
      rw [Nat.shiftRight_eq_div_pow, Nat.shiftRight_eq_div_pow, Nat.pow_succ']
      exact Nat.mod_mul_right_div_self ..
    have low : UInt8.ofNat (value % 256 ^ (width + 1)) = UInt8.ofNat value := by
      apply UInt8.toNat_inj.mp
      rw [UInt8.toNat_ofNat', UInt8.toNat_ofNat', Nat.pow_succ', Nat.mod_mul_right_mod]
    rw [leBytes_succ, leBytes_succ, high, low, ih]

abbrev Text := List Char

namespace Text

def byteLength (text : Text) : Nat := (text.map Char.utf8Size).sum

def toAsciiUppercase (text : Text) : Text := text.map Char.toUpper

def eqIgnoreAsciiCase (text other : Text) : Bool := text.map Char.toLower == other.map Char.toLower

def asBytes (text : Text) : Bytes := text.flatMap String.utf8EncodeChar

def fromUtf8 (bytes : Bytes) : Option Text := bytes.toByteArray.utf8Decode?.map Array.toList

def isCharBoundary (text : Text) (offset : Nat) : Bool :=
  match text.asBytes[offset]? with
  | some byte => offset == 0 || byte < 0x80 || 0xc0 ≤ byte
  | none => offset == text.asBytes.length

/-- The characters between two offsets in bytes, or nothing where the source panics. -/
def slice (text : Text) (start stop : Nat) : Option Text :=
  if start ≤ stop ∧ text.isCharBoundary start ∧ text.isCharBoundary stop then
    fromUtf8 ((text.asBytes.drop start).take (stop - start))
  else none

end Text

end SimpleRdbms
