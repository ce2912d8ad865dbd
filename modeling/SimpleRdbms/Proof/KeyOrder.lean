import Mathlib.Order.Monotone.Basic
import Mathlib.Order.Lattice.Nat
import SimpleRdbms.Types.Memcomparable

namespace SimpleRdbms

theorem beBytes_succ (width value : Nat) :
    beBytes (width + 1) value = UInt8.ofNat (value / 256 ^ width) :: beBytes width value := by
  have shift : value >>> (8 * width) = value / 256 ^ width := by
    rw [Nat.shiftRight_eq_div_pow, Nat.pow_mul]
  simp only [beBytes, leBytes, List.range_succ, List.map_append, List.map_cons, List.map_nil, List.reverse_append,
    List.reverse_cons, List.reverse_nil, List.nil_append, List.cons_append, shift]

theorem beBytes_lt {width a b : Nat} (less : a % 256 ^ width < b % 256 ^ width) :
    beBytes width a < beBytes width b := by
  induction width with
  | zero => simp [Nat.mod_one] at less
  | succ width ih =>
    rw [Nat.pow_succ, Nat.mod_mul, Nat.mod_mul] at less
    rw [beBytes_succ, beBytes_succ, List.cons_lt_cons_iff]
    have highA : (UInt8.ofNat (a / 256 ^ width)).toNat = a / 256 ^ width % 256 := UInt8.toNat_ofNat'
    have highB : (UInt8.ofNat (b / 256 ^ width)).toNat = b / 256 ^ width % 256 := UInt8.toNat_ofNat'
    rw [UInt8.lt_iff_toNat_lt, ← UInt8.toNat_inj, highA, highB]
    have lowA : a % 256 ^ width < 256 ^ width := Nat.mod_lt _ (Nat.pow_pos (by decide))
    have lowB : b % 256 ^ width < 256 ^ width := Nat.mod_lt _ (Nat.pow_pos (by decide))
    rcases Nat.lt_trichotomy (a / 256 ^ width % 256) (b / 256 ^ width % 256) with first | first | first
    · exact .inl first
    · rw [first] at less
      exact .inr ⟨first, ih (by omega)⟩
    · have := Nat.mul_le_mul_left (256 ^ width) (show b / 256 ^ width % 256 + 1 ≤ a / 256 ^ width % 256 from first)
      rw [Nat.mul_add] at this
      omega

theorem xor_top {width number : Nat} (small : number < 2 ^ (width + 1)) :
    number ^^^ 2 ^ width = if number < 2 ^ width then number + 2 ^ width else number - 2 ^ width := by
  have low : (number ^^^ 2 ^ width) % 2 ^ width = number % 2 ^ width := by
    rw [Nat.xor_mod_two_pow, Nat.mod_self, Nat.xor_zero]
  have high : (number ^^^ 2 ^ width) / 2 ^ width = number / 2 ^ width ^^^ 1 := by
    rw [Nat.xor_div_two_pow, Nat.div_self (Nat.two_pow_pos width)]
  have split := Nat.div_add_mod (number ^^^ 2 ^ width) (2 ^ width)
  have own := Nat.div_add_mod number (2 ^ width)
  rw [low, high] at split
  rw [Nat.pow_succ] at small
  split
  · rename_i below
    rw [Nat.div_eq_of_lt below] at split own
    simp only [Nat.zero_xor, Nat.mul_one, Nat.mul_zero] at split own
    omega
  · rename_i above
    have one : number / 2 ^ width = 1 := by
      apply Nat.div_eq_of_lt_le <;> omega
    rw [one] at split own
    simp only [Nat.xor_self, Nat.mul_one, Nat.mul_zero] at split own
    omega

theorem toNat_xor_intMin {width : Nat} (bits : BitVec (width + 1)) :
    ((bits ^^^ BitVec.twoPow (width + 1) width).toNat : Int) = bits.toInt + 2 ^ width := by
  have small := bits.isLt
  have power : (2 : Nat) ^ (width + 1) = 2 * 2 ^ width := by rw [Nat.pow_succ, Nat.mul_comm]
  have top : (BitVec.twoPow (width + 1) width).toNat = 2 ^ width := by
    rw [BitVec.toNat_twoPow, Nat.mod_eq_of_lt (by rw [power]; have := Nat.two_pow_pos width; omega)]
  rw [BitVec.toNat_xor, top, xor_top small, BitVec.toInt_eq_toNat_cond]
  have cast : (((2 : Nat) ^ width : Nat) : Int) = 2 ^ width := by push_cast; rfl
  rw [power] at small ⊢
  split <;> split <;> omega

namespace Double

def unsigned (double : Double) : Nat := double.bits.toNat % 2 ^ 63

def magnitudeOf (pattern : Nat) : Nat :=
  if pattern / 2 ^ 52 = 0 then pattern % 2 ^ 52 else (2 ^ 52 + pattern % 2 ^ 52) * 2 ^ (pattern / 2 ^ 52 - 1)

theorem magnitude_eq (double : Double) : double.magnitude = magnitudeOf double.unsigned := by
  have exponent : double.exponent = double.unsigned / 2 ^ 52 := by
    unfold Double.exponent unsigned
    omega
  have fraction : double.fraction = double.unsigned % 2 ^ 52 := by
    unfold Double.fraction unsigned
    omega
  rw [magnitude, exponent, fraction, magnitudeOf]

theorem magnitudeOf_lt {a b : Nat} (less : a < b) : magnitudeOf a < magnitudeOf b := by
  have fractionA : a % 2 ^ 52 < 2 ^ 52 := Nat.mod_lt _ (by decide)
  unfold magnitudeOf
  rcases Nat.lt_or_ge (a / 2 ^ 52) (b / 2 ^ 52) with exponent | exponent
  · rw [if_neg (show b / 2 ^ 52 ≠ 0 by omega)]
    have most : 2 ^ 52 * 2 ^ (b / 2 ^ 52 - 1) ≤ (2 ^ 52 + b % 2 ^ 52) * 2 ^ (b / 2 ^ 52 - 1) :=
      Nat.mul_le_mul_right _ (Nat.le_add_right _ _)
    split
    · have := Nat.two_pow_pos (b / 2 ^ 52 - 1)
      calc a % 2 ^ 52 < 2 ^ 52 * 1 := by omega
        _ ≤ 2 ^ 52 * 2 ^ (b / 2 ^ 52 - 1) := Nat.mul_le_mul_left _ this
        _ ≤ _ := most
    · calc (2 ^ 52 + a % 2 ^ 52) * 2 ^ (a / 2 ^ 52 - 1) < (2 ^ 52 * 2) * 2 ^ (a / 2 ^ 52 - 1) :=
            Nat.mul_lt_mul_of_pos_right (by omega) (Nat.two_pow_pos _)
        _ = 2 ^ 52 * 2 ^ (a / 2 ^ 52 - 1 + 1) := by rw [Nat.mul_assoc, ← Nat.pow_succ']
        _ ≤ 2 ^ 52 * 2 ^ (b / 2 ^ 52 - 1) := Nat.mul_le_mul_left _ (Nat.pow_le_pow_right (by decide) (by omega))
        _ ≤ _ := most
  · have same : a / 2 ^ 52 = b / 2 ^ 52 := Nat.le_antisymm (Nat.div_le_div_right less.le) exponent
    have fraction : a % 2 ^ 52 < b % 2 ^ 52 := by omega
    rw [same]
    split
    · exact fraction
    · exact Nat.mul_lt_mul_of_pos_right (by omega) (Nat.two_pow_pos _)

theorem magnitudeOf_strictMono : StrictMono magnitudeOf := fun _ _ => magnitudeOf_lt

def rank (double : Double) : Int := if double.negative then -double.unsigned else double.unsigned

theorem magnitudeOf_pos (pattern : Nat) : 0 < magnitudeOf pattern ↔ 0 < pattern :=
  magnitudeOf_strictMono.lt_iff_lt (a := 0)

theorem rank_lt {a b : Double} (less : a.value < b.value) : a.rank < b.rank := by
  have order := magnitudeOf_strictMono.lt_iff_lt (a := a.unsigned) (b := b.unsigned)
  have order' := magnitudeOf_strictMono.lt_iff_lt (a := b.unsigned) (b := a.unsigned)
  have zeroA := magnitudeOf_pos a.unsigned
  have zeroB := magnitudeOf_pos b.unsigned
  simp only [value, magnitude_eq] at less
  unfold rank
  cases signA : a.negative <;> cases signB : b.negative
  all_goals
    simp only [signA, signB, Bool.false_eq_true, if_true, if_false] at less ⊢
    omega

theorem rank_eq {a b : Double} (same : a.value = b.value) : a.rank = b.rank := by
  have order := magnitudeOf_strictMono.injective.eq_iff (a := a.unsigned) (b := b.unsigned)
  have zeroA := magnitudeOf_pos a.unsigned
  have zeroB := magnitudeOf_pos b.unsigned
  simp only [value, magnitude_eq] at same
  unfold rank
  cases signA : a.negative <;> cases signB : b.negative
  all_goals
    simp only [signA, signB, Bool.false_eq_true, if_true, if_false] at same ⊢
    omega

theorem negative_iff (double : Double) : double.negative = true ↔ 2 ^ 63 ≤ double.bits.toNat := by
  simp [negative, BitVec.msb_eq_decide]

theorem unsigned_eq (double : Double) :
    double.bits.toNat = double.unsigned + if double.negative then 2 ^ 63 else 0 := by
  have small := double.bits.isLt
  unfold unsigned
  split
  · rename_i sign
    rw [negative_iff] at sign
    omega
  · rename_i sign
    rw [negative_iff] at sign
    omega

theorem rank_zero_iff (double : Double) : double.rank = 0 ↔ double.value = 0 := by
  have zero := magnitudeOf_pos double.unsigned
  simp only [value, magnitude_eq, rank]
  split <;> omega

end Double

theorem and_signBit_ne_zero (bits : BitVec 64) : bits &&& SIGN_BIT_64 ≠ 0 ↔ bits.msb = true := by
  rw [SIGN_BIT_64, BitVec.and_twoPow, BitVec.msb_eq_getLsbD_last]
  split
  · rename_i set
    exact ⟨fun _ => set, fun _ => by decide⟩
  · rename_i unset
    exact ⟨fun nonzero => absurd rfl nonzero, fun set => absurd set unset⟩

theorem orderPreservingBits_toNat {double : Double} (number : double.isNan = false) :
    ((orderPreservingBits double).toNat : Int) = 2 ^ 63 + if double.rank < 0 then double.rank - 1 else double.rank := by
  have isZero : double.partialCmp .zero = some .eq ↔ double.rank = 0 := by
    have zeroNumber : Double.zero.isNan = false := by decide
    have zeroValue : Double.zero.value = 0 := by decide
    rw [Double.rank_zero_iff, Double.partialCmp, number, zeroNumber]
    simp [compareOfLessAndEq_eq_eq, zeroValue]
  have split := double.unsigned_eq
  have small : double.unsigned < 2 ^ 63 := Nat.mod_lt _ (by decide)
  rw [orderPreservingBits]
  by_cases zero : double.rank = 0
  · rw [if_pos (isZero.mpr zero), zero]
    decide
  · rw [if_neg (isZero.not.mpr zero)]
    have sign := and_signBit_ne_zero double.bits
    split
    · rename_i set
      have negative : double.negative = true := sign.mp set
      rw [negative, if_pos rfl] at split
      simp only [Double.rank, negative, if_true] at zero ⊢
      rw [BitVec.toNat_not]
      omega
    · rename_i unset
      have positive : double.negative = false := Bool.eq_false_iff.mpr (sign.not.mp unset)
      rw [positive, if_neg (by decide), Nat.add_zero] at split
      simp only [Double.rank, positive, Bool.false_eq_true, if_false] at zero ⊢
      have top : SIGN_BIT_64.toNat = 2 ^ 63 := by decide
      rw [BitVec.toNat_or, top, Nat.or_comm, split, ← Nat.mul_one (2 ^ 63), ← Nat.two_pow_add_eq_or_of_lt small]
      omega

theorem compare_bytes {α : Type} [LT α] [DecidableLT α] [DecidableEq α] {a b : α} {x y : Bytes} (less : a < b → x < y)
    (same : a = b → x = y) (more : ¬a < b → a ≠ b → y < x) : compareOfLessAndEq x y = compareOfLessAndEq a b := by
  unfold compareOfLessAndEq
  by_cases isLess : a < b
  · rw [if_pos isLess, if_pos (less isLess)]
  · by_cases isSame : a = b
    · rw [if_neg isLess, if_pos isSame, same isSame, if_neg (lt_irrefl y), if_pos rfl]
    · have reversed := more isLess isSame
      rw [if_neg isLess, if_neg isSame, if_neg (lt_asymm reversed), if_neg reversed.ne']

theorem compare_tagged {α : Type} [LT α] [DecidableLT α] [DecidableEq α] {a b : α} {width m n : Nat}
    (smallM : m < 256 ^ width) (smallN : n < 256 ^ width) (less : a < b → m < n) (same : a = b → m = n)
    (more : ¬a < b → a ≠ b → n < m) :
    compareOfLessAndEq (VALUE_TAG :: beBytes width m) (VALUE_TAG :: beBytes width n) = compareOfLessAndEq a b := by
  have bytes {m n : Nat} (smallM : m < 256 ^ width) (smallN : n < 256 ^ width) (less : m < n) :
      VALUE_TAG :: beBytes width m < VALUE_TAG :: beBytes width n := by
    refine List.cons_lt_cons_iff.mpr (.inr ⟨rfl, beBytes_lt ?_⟩)
    rwa [Nat.mod_eq_of_lt smallM, Nat.mod_eq_of_lt smallN]
  refine compare_bytes (fun isLess => bytes smallM smallN (less isLess)) (fun isSame => by rw [same isSame]) ?_
  exact fun notLess notSame => bytes smallN smallM (more notLess notSame)

theorem compare_shifted {α : Type} [LT α] [DecidableLT α] [DecidableEq α] {a b : α} {i j offset : Int} {width m n : Nat}
    (smallM : m < 256 ^ width) (smallN : n < 256 ^ width) (order : a < b ↔ i < j) (same : a = b ↔ i = j)
    (isM : (m : Int) = i + offset) (isN : (n : Int) = j + offset) :
    compareOfLessAndEq (VALUE_TAG :: beBytes width m) (VALUE_TAG :: beBytes width n) = compareOfLessAndEq a b := by
  refine compare_tagged smallM smallN ?_ ?_ ?_
  · rw [order]
    omega
  · rw [same]
    omega
  · rw [Ne, order, same]
    omega

theorem xor_signBit_32 (value : Int32) : ((value.toBitVec ^^^ SIGN_BIT_32).toNat : Int) = value.toInt + 2 ^ 31 := by
  rw [SIGN_BIT_32, toNat_xor_intMin, Int32.toInt_toBitVec]

theorem xor_signBit_64 (value : Int64) : ((value.toBitVec ^^^ SIGN_BIT_64).toNat : Int) = value.toInt + 2 ^ 63 := by
  rw [SIGN_BIT_64, toNat_xor_intMin, Int64.toInt_toBitVec]

theorem encodeMemcomparable_double {double : Double} {bytes : Bytes}
    (encoded : (Value.double double).encodeMemcomparable = .ok bytes) :
    double.isNan = false ∧ bytes = VALUE_TAG :: beBytes 8 (orderPreservingBits double).toNat := by
  simp only [Value.encodeMemcomparable] at encoded
  split at encoded
  · cases encoded
  · rename_i number
    cases encoded
    exact ⟨Bool.eq_false_iff.mpr number, rfl⟩

theorem encodeMemcomparable_compare {a b : Value} {x y : Bytes} {ordering : Ordering}
    (compared : a.compare b = .ok (some ordering)) (encodedA : a.encodeMemcomparable = .ok x)
    (encodedB : b.encodeMemcomparable = .ok y) : compareOfLessAndEq x y = ordering := by
  cases a <;> cases b <;> simp only [Value.compare, Except.ok.injEq, Option.some.injEq, reduceCtorEq] at compared
  case boolean.boolean a b =>
    cases encodedA
    cases encodedB
    rw [← compared]
    cases a <;> cases b <;> decide
  case integer.integer a b =>
    cases encodedA
    cases encodedB
    rw [← compared]
    exact compare_shifted (BitVec.isLt _) (BitVec.isLt _) Int32.lt_iff_toInt_lt Int32.toInt_inj.symm (xor_signBit_32 a)
      (xor_signBit_32 b)
  case bigInt.bigInt a b =>
    cases encodedA
    cases encodedB
    rw [← compared]
    exact compare_shifted (BitVec.isLt _) (BitVec.isLt _) Int64.lt_iff_toInt_lt Int64.toInt_inj.symm (xor_signBit_64 a)
      (xor_signBit_64 b)
  case double.double a b =>
    obtain ⟨numberA, rfl⟩ := encodeMemcomparable_double encodedA
    obtain ⟨numberB, rfl⟩ := encodeMemcomparable_double encodedB
    have keyA := orderPreservingBits_toNat numberA
    have keyB := orderPreservingBits_toNat numberB
    simp only [Double.partialCmp, numberA, numberB, Bool.or_self, Bool.false_eq_true, if_false,
      Option.some.injEq] at compared
    rw [← compared]
    refine compare_tagged (BitVec.isLt _) (BitVec.isLt _) ?_ ?_ ?_
    · intro less
      have := Double.rank_lt less
      split at keyA <;> split at keyB <;> omega
    · intro same
      have := Double.rank_eq same
      split at keyA <;> split at keyB <;> omega
    · intro notLess notSame
      have := Double.rank_lt (lt_of_le_of_ne (not_lt.mp notLess) (Ne.symm notSame))
      split at keyA <;> split at keyB <;> omega
  case varchar.varchar a b =>
    cases encodedA
    cases encodedB
    rw [← compared]
    refine compare_bytes (fun less => List.cons_lt_cons_iff.mpr (.inr ⟨rfl, less⟩)) (fun same => by rw [same]) ?_
    intro notLess notSame
    exact List.cons_lt_cons_iff.mpr (.inr ⟨rfl, lt_of_le_of_ne (not_lt.mp notLess) (Ne.symm notSame)⟩)

end SimpleRdbms
