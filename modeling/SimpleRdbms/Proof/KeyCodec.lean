import SimpleRdbms.Proof.IndexBounds
import SimpleRdbms.Proof.TupleCodec

namespace SimpleRdbms
open SimpleRdbms.Lib

def Keyed (dataType : DataType) (value : Value) : Prop :=
  Executor.Fits value (some dataType) ∧ ∀ double, value = .double double → double.isNan = false

def Value.oneZero : Value → Value
  | .double number => .double (if number.partialCmp .zero = some .eq then .zero else number)
  | value => value

def Value.compareNullsFirst (a b : Value) : Except ValueError (Option Ordering) :=
  match a, b with
  | .null, .null => .ok (some .eq)
  | .null, _ => .ok (some .lt)
  | _, .null => .ok (some .gt)
  | a, b => a.compare b

def fixedWidth : DataType → Bool
  | .varchar _ => false
  | _ => true

theorem readBe_beBytes (width : Nat) (bits : BitVec (8 * width)) (after : Bytes) (reason : String) :
    readBe width (beBytes width bits.toNat ++ after) reason = .ok bits := by
  have length : (beBytes width bits.toNat).length = width := by rw [beBytes, List.length_reverse, leBytes_length]
  have small : bits.toNat < 256 ^ width := by
    have := bits.isLt
    rwa [Nat.pow_mul] at this
  rw [readBe, if_pos (by rw [List.length_append, length]; omega), List.take_left' length, beValue, beBytes,
    List.reverse_reverse, leValue_leBytes small, BitVec.ofNat_toNat, BitVec.setWidth_eq]

theorem xor_twice {width : Nat} (bits mask : BitVec width) : bits ^^^ mask ^^^ mask = bits := by
  rw [BitVec.xor_assoc, BitVec.xor_self, BitVec.xor_zero]

theorem originalBits (double : Double) :
    (if orderPreservingBits double &&& SIGN_BIT_64 ≠ 0 then orderPreservingBits double &&& ~~~SIGN_BIT_64
      else ~~~orderPreservingBits double) = (if double.partialCmp .zero = some .eq then .zero else double).bits := by
  unfold orderPreservingBits
  generalize (if double.partialCmp .zero = some .eq then Double.zero else double) = number
  by_cases negative : number.bits &&& SIGN_BIT_64 ≠ 0
  · have complement : ¬(~~~number.bits &&& SIGN_BIT_64 ≠ 0) := by
      rw [and_signBit_ne_zero] at negative ⊢
      simp [BitVec.msb_not, negative]
    simp only [if_pos negative, if_neg complement, BitVec.not_not]
  · have set : (number.bits ||| SIGN_BIT_64) &&& SIGN_BIT_64 ≠ 0 := by
      rw [and_signBit_ne_zero, BitVec.msb_or]
      have top : SIGN_BIT_64.msb = true := by decide
      rw [top, Bool.or_true]
    simp only [if_neg negative, if_pos set]
    rw [and_signBit_ne_zero, BitVec.msb_eq_getLsbD_last, Bool.not_eq_true] at negative
    apply BitVec.eq_of_getLsbD_eq
    intro i inside
    rw [BitVec.getLsbD_and, BitVec.getLsbD_or, BitVec.getLsbD_not, SIGN_BIT_64, BitVec.getLsbD_twoPow]
    by_cases last : i = 63
    · subst last
      rw [negative]
      rfl
    · have other : ¬63 = i := fun same => last same.symm
      simp [other, inside]

theorem decodeMemcomparable_encode {dataType : DataType} {value : Value} (keyed : Keyed dataType value) :
    ∃ bytes, value.encodeMemcomparable = .ok bytes ∧
      ∀ after, fixedWidth dataType = true ∨ after = [] →
        decodeMemcomparable (bytes ++ after) dataType = .ok (value.oneZero, bytes.length) := by
  obtain ⟨fits, number⟩ := keyed
  cases value with
  | null =>
    refine ⟨[NULL_TAG], rfl, fun after _ => ?_⟩
    simp [decodeMemcomparable, Value.oneZero]
  | boolean value =>
    have same := fits _ rfl
    cases dataType <;> simp [Planner.dataTypesMatch] at same
    refine ⟨_, rfl, fun after _ => ?_⟩
    cases value <;> rfl
  | integer value =>
    have same := fits _ rfl
    cases dataType <;> simp [Planner.dataTypesMatch] at same
    refine ⟨_, rfl, fun after _ => ?_⟩
    have read := readBe_beBytes 4 (value.toBitVec ^^^ SIGN_BIT_32) after "truncated integer value"
    rw [List.cons_append, decodeMemcomparable, if_neg (by decide), if_neg (by decide)]
    simp only [read, ok_bind, xor_twice]
    rfl
  | bigInt value =>
    have same := fits _ rfl
    cases dataType <;> simp [Planner.dataTypesMatch] at same
    refine ⟨_, rfl, fun after _ => ?_⟩
    have read := readBe_beBytes 8 (value.toBitVec ^^^ SIGN_BIT_64) after "truncated bigint value"
    rw [List.cons_append, decodeMemcomparable, if_neg (by decide), if_neg (by decide)]
    simp only [read, ok_bind, xor_twice]
    rfl
  | double value =>
    have same := fits _ rfl
    cases dataType <;> simp [Planner.dataTypesMatch] at same
    refine ⟨VALUE_TAG :: beBytes 8 (orderPreservingBits value).toNat, ?_, fun after _ => ?_⟩
    · rw [Value.encodeMemcomparable, number value rfl]
      rfl
    · have read := readBe_beBytes 8 (orderPreservingBits value) after "truncated double value"
      rw [List.cons_append, decodeMemcomparable, if_neg (by decide), if_neg (by decide)]
      simp only [read, ok_bind]
      exact congrArg (fun bits => Except.ok (Value.double ⟨bits⟩, 9)) (originalBits value)
  | varchar text =>
    have same := fits _ rfl
    cases dataType <;> simp [Planner.dataTypesMatch] at same
    refine ⟨_, rfl, fun after fixed => ?_⟩
    rcases fixed with fixed | rfl
    · cases fixed
    · rw [List.append_nil, decodeMemcomparable, if_neg (by decide), if_neg (by decide)]
      simp only [Text.fromUtf8_asBytes, List.length_cons, Text.asBytes_length, Nat.add_comm 1]
      rfl

theorem compare_known {dataType : DataType} {a b : Value} (keyedA : Keyed dataType a) (keyedB : Keyed dataType b)
    (knownA : a ≠ .null) (knownB : b ≠ .null) : ∃ ordering, a.compare b = .ok (some ordering) := by
  have comparable : Planner.Comparable a.dataType b.dataType := by
    intro typeA isA typeB isB
    exact Planner.dataTypesMatch_trans (keyedA.1 typeA isA) (Planner.dataTypesMatch_symm (keyedB.1 typeB isB))
  obtain ⟨ordering, compared⟩ := Executor.compare_ok comparable
  rw [compared]
  cases a <;> cases b <;> simp only [Value.compare, reduceCtorEq, Except.ok.injEq] at compared
  case double.double a b =>
    rw [Double.partialCmp, keyedA.2 a rfl, keyedB.2 b rfl] at compared
    exact ⟨_, congrArg _ compared.symm⟩
  all_goals first
    | exact absurd rfl knownA
    | exact absurd rfl knownB
    | exact ⟨_, congrArg _ compared.symm⟩

theorem encodeMemcomparable_tag {value : Value} {bytes : Bytes} (known : value ≠ .null)
    (encoded : value.encodeMemcomparable = .ok bytes) : ∃ rest, bytes = VALUE_TAG :: rest := by
  cases value with
  | null => exact absurd rfl known
  | boolean _ | integer _ | bigInt _ | varchar _ =>
    cases encoded
    exact ⟨_, rfl⟩
  | double value => exact ⟨_, (encodeMemcomparable_double encoded).2⟩

theorem compareNullsFirst_encode {dataType : DataType} {a b : Value} {x y : Bytes} (keyedA : Keyed dataType a)
    (keyedB : Keyed dataType b) (encodedA : a.encodeMemcomparable = .ok x) (encodedB : b.encodeMemcomparable = .ok y) :
    a.compareNullsFirst b = .ok (some (compareOfLessAndEq x y)) := by
  have tags (rest : Bytes) : [NULL_TAG] < VALUE_TAG :: rest := List.cons_lt_cons_iff.mpr (.inl (by decide))
  by_cases nullA : a = .null
  · subst nullA
    cases encodedA
    by_cases nullB : b = .null
    · subst nullB
      cases encodedB
      rfl
    · obtain ⟨rest, rfl⟩ := encodeMemcomparable_tag nullB encodedB
      rw [compareOfLessAndEq, if_pos (tags rest)]
      cases b <;> first | rfl | exact absurd rfl nullB
  · by_cases nullB : b = .null
    · subst nullB
      cases encodedB
      obtain ⟨rest, rfl⟩ := encodeMemcomparable_tag nullA encodedA
      rw [compareOfLessAndEq, if_neg (lt_asymm (tags rest)), if_neg (tags rest).ne']
      cases a <;> first | rfl | exact absurd rfl nullA
    · obtain ⟨ordering, compared⟩ := compare_known keyedA keyedB nullA nullB
      rw [encodeMemcomparable_compare compared encodedA encodedB, ← compared]
      cases a <;> cases b <;> first | rfl | exact absurd rfl nullA | exact absurd rfl nullB

/-- Keys of one column: their order, that they are told apart and read back, and that nothing is before a successor. -/
theorem key_encoding_ordered (dataType : DataType) (a b : Value) (keyedA : Keyed dataType a)
    (keyedB : Keyed dataType b) :
    ∃ x y, a.encodeMemcomparable = .ok x ∧ b.encodeMemcomparable = .ok y ∧
      a.compareNullsFirst b = .ok (some (compareOfLessAndEq x y)) ∧
      (x = y → a.oneZero = b.oneZero) ∧
      decodeMemcomparable x dataType = .ok (a.oneZero, x.length) ∧
      (fixedWidth dataType = true → ∀ after, decodeMemcomparable (x ++ after) dataType = .ok (a.oneZero, x.length)) ∧
      ¬(x < y ∧ y < Planner.successor x) := by
  obtain ⟨x, encodedA, decodedA⟩ := decodeMemcomparable_encode keyedA
  obtain ⟨y, encodedB, decodedB⟩ := decodeMemcomparable_encode keyedB
  have wholeA := decodedA [] (.inr rfl)
  have wholeB := decodedB [] (.inr rfl)
  rw [List.append_nil] at wholeA wholeB
  refine ⟨x, y, encodedA, encodedB, compareNullsFirst_encode keyedA keyedB encodedA encodedB, ?_, wholeA,
    fun fixed after => decodedA after (.inl fixed), ?_⟩
  · rintro rfl
    rw [wholeA] at wholeB
    exact congrArg Prod.fst (Except.ok.inj wholeB)
  · rintro ⟨above, below⟩
    exact not_lt.mpr (Planner.successor_le above) below

theorem key_encoding_ordered_zero :
    ∃ x y, (Value.double ⟨BitVec.twoPow 64 63⟩).encodeMemcomparable = .ok x ∧ Value.null.encodeMemcomparable = .ok y ∧
      compareOfLessAndEq x y = .gt ∧ decodeMemcomparable x .double = .ok (.double .zero, 9) := by
  have keyed : Keyed .double (.double ⟨BitVec.twoPow 64 63⟩) :=
    ⟨Executor.fits_dataType (.double _), fun double isDouble => by cases isDouble; decide⟩
  have null : Keyed .double .null := ⟨fun own isOwn => (by cases isOwn), fun double isDouble => (by cases isDouble)⟩
  obtain ⟨x, y, encodedX, encodedY, order, -, decoded, -⟩ := key_encoding_ordered .double _ _ keyed null
  have isX : x = VALUE_TAG :: beBytes 8 (orderPreservingBits ⟨BitVec.twoPow 64 63⟩).toNat :=
    (encodeMemcomparable_double encodedX).2
  refine ⟨x, y, encodedX, encodedY, ?_, ?_⟩
  · exact (Option.some.inj (Except.ok.inj order)).symm
  · rw [decoded, isX]
    decide +kernel

end SimpleRdbms
