import Mathlib.Data.Nat.Bitwise
import Mathlib.Data.Nat.Digits.Defs
import SimpleRdbms.Common.Bytes
import SimpleRdbms.Common.Crc

namespace SimpleRdbms

def natCrcBit (crc : Nat) : Nat := if crc % 2 = 0 then crc / 2 else 0xEDB88320 ^^^ crc / 2

def natCrcStep (crc byte : Nat) : Nat := Nat.repeat natCrcBit 8 ((crc ^^^ byte) % 256) ^^^ crc / 256

theorem toNat_crcBit (crc : UInt32) : (crcBit crc).toNat = natCrcBit crc.toNat := by
  have low : (crc &&& 1).toNat = crc.toNat % 2 := by
    rw [UInt32.toNat_and]
    exact Nat.and_one_is_mod _
  have shifted : (crc >>> 1).toNat = crc.toNat / 2 := by
    rw [UInt32.toNat_shiftRight]
    exact Nat.shiftRight_one _
  unfold crcBit natCrcBit
  rcases Nat.mod_two_eq_zero_or_one crc.toNat with even | odd
  · have isZero : crc &&& 1 = 0 := UInt32.toNat_inj.mp (low.trans even)
    rw [if_neg (not_not_intro isZero), if_pos even, shifted]
  · have notZero : crc &&& 1 ≠ 0 := by
      intro isZero
      rw [isZero, odd] at low
      exact absurd low (by decide)
    rw [if_pos notZero, if_neg (by omega), UInt32.toNat_xor, shifted]
    rfl

theorem toNat_repeat_crcBit (times : Nat) (crc : UInt32) :
    (Nat.repeat crcBit times crc).toNat = Nat.repeat natCrcBit times crc.toNat := by
  induction times with
  | zero => rfl
  | succ times ih =>
    rw [Nat.repeat, Nat.repeat, toNat_crcBit, ih]

theorem toNat_foldl_crc (data : List UInt8) (crc : UInt32) :
    (data.foldl (fun crc byte => crcTable ((crc ^^^ byte.toUInt32) &&& 0xFF) ^^^ (crc >>> 8)) crc).toNat =
      data.foldl (fun crc byte => natCrcStep crc byte.toNat) crc.toNat := by
  induction data generalizing crc with
  | nil => rfl
  | cons byte data ih =>
    rw [List.foldl_cons, ih, List.foldl_cons]
    have masked : ((crc ^^^ byte.toUInt32) &&& 0xFF).toNat = (crc.toNat ^^^ byte.toNat) % 256 := by
      rw [UInt32.toNat_and, UInt32.toNat_xor, UInt8.toNat_toUInt32]
      exact Nat.and_two_pow_sub_one_eq_mod _ 8
    have shifted : (crc >>> 8).toNat = crc.toNat / 256 := by
      rw [UInt32.toNat_shiftRight]
      exact Nat.shiftRight_eq_div_pow _ 8
    rw [UInt32.toNat_xor, crcTable, toNat_repeat_crcBit, masked, shifted, natCrcStep]

theorem natCrcBit_xor (x y : Nat) : natCrcBit (x ^^^ y) = natCrcBit x ^^^ natCrcBit y := by
  have parity := @Nat.xor_mod_two_eq x y
  unfold natCrcBit
  rw [Nat.xor_div_two]
  rcases Nat.mod_two_eq_zero_or_one x with evenX | oddX <;> rcases Nat.mod_two_eq_zero_or_one y with evenY | oddY
  · rw [if_pos evenX, if_pos evenY, if_pos (by omega)]
  · rw [if_pos evenX, if_neg (by omega), if_neg (by omega), Nat.xor_left_comm]
  · rw [if_neg (by omega), if_neg (by omega), if_pos evenY, Nat.xor_assoc]
  · rw [if_pos (by omega), if_neg (by omega), if_neg (by omega), Nat.xor_assoc, Nat.xor_left_comm (x / 2),
      ← Nat.xor_assoc, Nat.xor_self, Nat.zero_xor]

theorem natCrcBit_pos {crc : Nat} (nonzero : crc ≠ 0) (fits : crc < 2 ^ 32) :
    natCrcBit crc ≠ 0 ∧ natCrcBit crc < 2 ^ 32 := by
  unfold natCrcBit
  split
  · omega
  · refine ⟨fun zero => ?_, Nat.xor_lt_two_pow (by decide) (by omega)⟩
    have := Nat.xor_eq_zero_iff.mp zero
    omega

theorem repeat_natCrcBit_xor (n x y : Nat) :
    Nat.repeat natCrcBit n (x ^^^ y) = Nat.repeat natCrcBit n x ^^^ Nat.repeat natCrcBit n y := by
  induction n with
  | zero => rfl
  | succ n ih => rw [Nat.repeat, ih, natCrcBit_xor]; rfl

theorem repeat_add {α : Type} (f : α → α) (m n : Nat) (a : α) :
    Nat.repeat f (m + n) a = Nat.repeat f m (Nat.repeat f n a) := by
  induction m with
  | zero => rw [Nat.zero_add]; rfl
  | succ m ih => rw [Nat.succ_add, Nat.repeat, ih]; rfl

theorem repeat_natCrcBit_shifted (n value : Nat) : Nat.repeat natCrcBit n (2 ^ n * value) = value := by
  induction n with
  | zero => simp [Nat.repeat]
  | succ n ih =>
    have half : natCrcBit (2 ^ (n + 1) * value) = 2 ^ n * value := by
      rw [natCrcBit, Nat.pow_succ, Nat.mul_right_comm, if_pos (Nat.mul_mod_left _ _),
        Nat.mul_div_cancel _ (by decide)]
    rw [repeat_add natCrcBit n 1]
    exact (congrArg _ half).trans ih

theorem xor_two_pow_mul {k low : Nat} (small : low < 2 ^ k) (high : Nat) :
    low + 2 ^ k * high = low ^^^ (2 ^ k * high) := by
  apply Nat.eq_of_testBit_eq
  intro i
  rw [Nat.add_comm, Nat.testBit_two_pow_mul_add _ small, Nat.testBit_xor, Nat.testBit_two_pow_mul]
  split
  · rename_i inside
    simp [Nat.not_le.mpr inside]
  · rename_i outside
    have above := Nat.not_lt.mp outside
    rw [Nat.testBit_lt_two_pow (Nat.lt_of_lt_of_le small (Nat.pow_le_pow_right (by decide) above))]
    simp [above]

theorem foldl_natCrcBit (k : Nat) {digits : List Nat} (small : ∀ digit ∈ digits, digit < 2 ^ k) (crc : Nat) :
    digits.foldl (fun crc digit => Nat.repeat natCrcBit k (crc ^^^ digit)) crc =
      Nat.repeat natCrcBit (k * digits.length) (crc ^^^ Nat.ofDigits (2 ^ k) digits) := by
  induction digits generalizing crc with
  | nil => rw [Nat.ofDigits_nil, Nat.xor_zero]; rfl
  | cons digit digits ih =>
    obtain ⟨here, later⟩ := List.forall_mem_cons.mp small
    rw [List.foldl_cons, ih later, Nat.ofDigits_cons, xor_two_pow_mul here, ← Nat.xor_assoc, List.length_cons,
      Nat.mul_succ, repeat_add, repeat_natCrcBit_xor k (crc ^^^ digit), repeat_natCrcBit_shifted]

theorem natCrcStep_eq {crc byte : Nat} (small : byte < 256) :
    natCrcStep crc byte = Nat.repeat natCrcBit 8 (crc ^^^ byte) := by
  have high : (crc ^^^ byte) / 2 ^ 8 = crc / 256 := by
    rw [Nat.xor_div_two_pow, Nat.div_eq_of_lt small, Nat.xor_zero]
  have low : (crc ^^^ byte) % 2 ^ 8 < 2 ^ 8 := Nat.mod_lt _ (by decide)
  conv_rhs => rw [← Nat.mod_add_div (crc ^^^ byte) (2 ^ 8)]
  rw [xor_two_pow_mul low, repeat_natCrcBit_xor, repeat_natCrcBit_shifted, high]
  rfl

theorem leValue_eq_ofDigits (data : List UInt8) : leValue data = Nat.ofDigits (2 ^ 8) (data.map UInt8.toNat) := by
  induction data with
  | nil => rfl
  | cons byte data ih =>
    rw [List.map_cons, Nat.ofDigits_cons, ← ih]
    rfl

theorem toNat_lt_of_mem (data : List UInt8) : ∀ digit ∈ data.map UInt8.toNat, digit < 2 ^ 8 := by
  simpa only [List.forall_mem_map] using fun byte _ => byte.toNat_lt

theorem foldl_natCrcStep (data : List UInt8) (crc : Nat) :
    data.foldl (fun crc byte => natCrcStep crc byte.toNat) crc =
      Nat.repeat natCrcBit (8 * data.length) (crc ^^^ leValue data) := by
  have steps := foldl_natCrcBit 8 (toNat_lt_of_mem data) crc
  rw [List.length_map, ← leValue_eq_ofDigits, List.foldl_map] at steps
  rw [← steps]
  congr 1
  funext crc byte
  exact natCrcStep_eq byte.toNat_lt

theorem leValue_inj {one other : List UInt8} (length : one.length = other.length)
    (values : leValue one = leValue other) : one = other := by
  rw [leValue_eq_ofDigits, leValue_eq_ofDigits] at values
  apply List.map_injective_iff.mpr fun _ _ => UInt8.toNat_inj.mp
  exact Nat.ofDigits_inj_of_len_eq (by decide) (by simpa using length) (toNat_lt_of_mem one) (toNat_lt_of_mem other)
    values

def bitsOf (data : List UInt8) : List Bool := data.flatMap fun byte => (List.range 8).map byte.toNat.testBit

def shiftIn (crc : UInt32) (bit : Bool) : UInt32 :=
  if crc.toNat.testBit 0 ^^ bit then (0xEDB88320 : UInt32) ^^^ (crc >>> 1) else crc >>> 1

def bitwiseCrc32 (bits : List Bool) : UInt32 := bits.foldl shiftIn 0xFFFFFFFF ^^^ 0xFFFFFFFF

theorem testBit_ofDigits (bits : List Bool) (i : Nat) :
    (Nat.ofDigits 2 (bits.map Bool.toNat)).testBit i = bits[i]?.getD false := by
  induction bits generalizing i with
  | nil => simp
  | cons bit bits ih =>
    rw [List.map_cons, Nat.ofDigits_cons]
    cases i with
    | zero => cases bit <;> simp [Nat.testBit_zero]
    | succ i =>
      rw [Nat.testBit_succ, List.getElem?_cons_succ, ← ih]
      congr 1
      have := bit.toNat_lt
      omega

theorem ofDigits_bitsOf (data : List UInt8) : Nat.ofDigits 2 ((bitsOf data).map Bool.toNat) = leValue data := by
  have byteBits : ∀ value : Fin 256,
      Nat.ofDigits 2 (((List.range 8).map value.val.testBit).map Bool.toNat) = value.val := by
    decide +kernel
  induction data with
  | nil => rfl
  | cons byte data ih =>
    rw [bitsOf, List.flatMap_cons, List.map_append, Nat.ofDigits_append]
    rw [show Nat.ofDigits 2 _ = byte.toNat from byteBits ⟨byte.toNat, byte.toNat_lt⟩]
    rw [show Nat.ofDigits 2 ((data.flatMap _).map Bool.toNat) = leValue data from ih]
    simp [leValue]

theorem length_bitsOf (data : List UInt8) : (bitsOf data).length = 8 * data.length := by
  rw [bitsOf, List.length_flatMap, Nat.mul_comm]
  simp

theorem toNat_shiftIn (crc : UInt32) (bit : Bool) : (shiftIn crc bit).toNat = natCrcBit (crc.toNat ^^^ bit.toNat) := by
  have shifted : (crc >>> 1).toNat = crc.toNat / 2 := by
    rw [UInt32.toNat_shiftRight]
    exact Nat.shiftRight_one _
  have half : (crc.toNat ^^^ bit.toNat) / 2 = crc.toNat / 2 := by
    rw [Nat.xor_div_two, Nat.div_eq_of_lt bit.toNat_lt, Nat.xor_zero]
  have low : (crc.toNat ^^^ bit.toNat) % 2 = 0 ↔ ¬ (crc.toNat.testBit 0 ^^ bit) := by
    rw [Nat.xor_mod_two_eq, Nat.testBit_zero]
    cases bit <;> simp [Nat.add_mod]; omega
  rw [natCrcBit, half, shiftIn]
  by_cases set : crc.toNat.testBit 0 ^^ bit
  · rw [if_pos set, if_neg (fun zero => low.mp zero set), UInt32.toNat_xor, shifted]
    rfl
  · rw [if_neg set, if_pos (low.mpr set), shifted]

theorem toNat_foldl_shiftIn (bits : List Bool) (crc : UInt32) :
    (bits.foldl shiftIn crc).toNat =
      Nat.repeat natCrcBit bits.length (crc.toNat ^^^ Nat.ofDigits 2 (bits.map Bool.toNat)) := by
  have small : ∀ digit ∈ bits.map Bool.toNat, digit < 2 ^ 1 := by
    simpa only [List.forall_mem_map] using fun bit _ => bit.toNat_lt
  have steps := foldl_natCrcBit 1 small crc.toNat
  rw [List.length_map, Nat.one_mul, List.foldl_map, Nat.pow_one] at steps
  rw [← steps]
  clear steps small
  induction bits generalizing crc with
  | nil => rfl
  | cons bit bits ih =>
    rw [List.foldl_cons, ih, toNat_shiftIn]
    rfl

theorem testBit_leValue (data : List UInt8) (i : Nat) : (leValue data).testBit i = (bitsOf data)[i]?.getD false := by
  rw [← ofDigits_bitsOf, testBit_ofDigits]

theorem leValue_lt (data : List UInt8) : leValue data < 2 ^ (8 * data.length) := by
  apply Nat.lt_pow_two_of_testBit
  intro i outside
  rw [testBit_leValue, List.getElem?_eq_none (by rwa [length_bitsOf])]
  rfl

theorem toNat_crc32 (data : List UInt8) :
    (crc32 data).toNat = Nat.repeat natCrcBit (8 * data.length) (0xFFFFFFFF ^^^ leValue data) ^^^ 0xFFFFFFFF := by
  rw [crc32, UInt32.toNat_xor, toNat_foldl_crc, foldl_natCrcStep]
  rfl

theorem repeat_natCrcBit_pos {crc : Nat} (nonzero : crc ≠ 0) (fits : crc < 2 ^ 32) (n : Nat) :
    Nat.repeat natCrcBit n crc ≠ 0 ∧ Nat.repeat natCrcBit n crc < 2 ^ 32 := by
  induction n with
  | zero => exact ⟨nonzero, fits⟩
  | succ n ih => exact natCrcBit_pos ih.1 ih.2

theorem burst_remains {difference start length : Nat}
    (window : ∀ i, difference.testBit i → start ≤ i ∧ i < start + 32) (fits : difference < 2 ^ length)
    (vanishes : Nat.repeat natCrcBit length difference = 0) : difference = 0 := by
  by_contra nonzero
  have high : difference / 2 ^ start < 2 ^ 32 := by
    apply Nat.lt_pow_two_of_testBit
    intro i above
    rw [Nat.testBit_div_two_pow, Bool.eq_false_iff]
    intro set
    have := (window _ set).2
    omega
  have low : difference % 2 ^ start = 0 := by
    apply Nat.zero_of_testBit_eq_false
    intro i
    rw [Nat.testBit_mod_two_pow, Bool.eq_false_iff]
    intro set
    rw [Bool.and_eq_true, decide_eq_true_eq] at set
    exact absurd (window i set.2).1 (Nat.not_le.mpr set.1)
  have split : difference = 2 ^ start * (difference / 2 ^ start) := by
    have := Nat.mod_add_div difference (2 ^ start)
    omega
  have present : difference / 2 ^ start ≠ 0 := by
    intro none
    rw [none] at split
    exact nonzero split
  have before : start ≤ length := by
    by_contra after
    have less := Nat.pow_lt_pow_right (by decide : 1 < 2) (Nat.not_le.mp after)
    exact present (Nat.div_eq_of_lt (fits.trans less))
  -- `start` steps only move the window to the bottom of the register.
  rw [← Nat.sub_add_cancel before, repeat_add, split, repeat_natCrcBit_shifted] at vanishes
  exact (repeat_natCrcBit_pos present high _).1 vanishes

theorem crc32_detects_burst {one other : List UInt8} {start : Nat} (length : one.length = other.length)
    (window : ∀ i, (bitsOf one)[i]? ≠ (bitsOf other)[i]? → start ≤ i ∧ i < start + 32)
    (same : crc32 one = crc32 other) : one = other := by
  have registers := congrArg UInt32.toNat same
  rw [toNat_crc32, toNat_crc32, Nat.xor_left_inj, length] at registers
  have vanishes : Nat.repeat natCrcBit (8 * other.length) (leValue one ^^^ leValue other) = 0 := by
    rw [repeat_natCrcBit_xor, repeat_natCrcBit_xor, Nat.xor_right_inj] at registers
    rw [repeat_natCrcBit_xor, registers, Nat.xor_self]
  have fits : leValue one ^^^ leValue other < 2 ^ (8 * other.length) :=
    Nat.xor_lt_two_pow (length ▸ leValue_lt one) (leValue_lt other)
  have inside : ∀ i, (leValue one ^^^ leValue other).testBit i → start ≤ i ∧ i < start + 32 := by
    intro i set
    apply window i
    intro equal
    rw [Nat.testBit_xor, testBit_leValue, testBit_leValue, equal, Bool.xor_self] at set
    exact Bool.false_ne_true set
  have values := Nat.xor_eq_zero_iff.mp (burst_remains inside fits vanishes)
  exact leValue_inj length values

/-- The table-driven checksum is the bit-by-bit one, and detects bursts of 32 bits. -/
theorem crc32_is_bitwise :
    (∀ data, crc32 data = bitwiseCrc32 (bitsOf data)) ∧
    (∀ (crc : UInt32) (byte : UInt8), Crc.table[((crc ^^^ byte.toUInt32) &&& 0xFF).toNat]? =
      some (crcTable ((crc ^^^ byte.toUInt32) &&& 0xFF))) ∧
    ∀ (one other : List UInt8) (start : Nat), one.length = other.length →
      (∀ i, (bitsOf one)[i]? ≠ (bitsOf other)[i]? → start ≤ i ∧ i < start + 32) →
      crc32 one = crc32 other → one = other := by
  refine ⟨fun data => UInt32.toNat_inj.mp ?_, fun crc byte => ?_, fun _ _ _ => crc32_detects_burst⟩
  · rw [toNat_crc32, bitwiseCrc32, UInt32.toNat_xor, toNat_foldl_shiftIn, ofDigits_bitsOf, length_bitsOf]
    rfl
  · have small : ((crc ^^^ byte.toUInt32) &&& 0xFF).toNat < 256 := by
      rw [UInt32.toNat_and]
      exact Nat.and_lt_two_pow _ (by decide : 0xFF < 2 ^ 8)
    rw [Crc.table, List.getElem?_map, List.getElem?_range small, Option.map_some, UInt32.ofNat_toNat]

theorem crc32_is_bitwise_flipped : crc32 [0x61, 0x62] ≠ crc32 [0x61, 0x63] := by
  intro same
  have equal := crc32_is_bitwise.2.2 [0x61, 0x62] [0x61, 0x63] 0 rfl (by
    intro i differ
    by_contra outside
    have beyond : 16 ≤ i := by omega
    rw [List.getElem?_eq_none (by exact beyond), List.getElem?_eq_none (by exact beyond)] at differ
    exact differ rfl) same
  exact absurd equal (by decide)

end SimpleRdbms
