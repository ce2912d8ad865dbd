import Mathlib.Data.List.TakeWhile
import SimpleRdbms.Common.Bytes

namespace SimpleRdbms.Text

theorem fromUtf8_asBytes (text : Text) : fromUtf8 text.asBytes = some text := by
  have decoded := List.utf8Decode?_utf8Encode (l := text)
  rw [fromUtf8, asBytes]
  rw [List.utf8Encode] at decoded
  rw [decoded]
  simp

theorem eq_asBytes_of_fromUtf8 {bytes : Bytes} {text : Text} (decoded : fromUtf8 bytes = some text) :
    bytes = text.asBytes := by
  obtain ⟨chars, decodes, rfl⟩ := Option.map_eq_some_iff.mp decoded
  have encoded := ByteArray.utf8Encode_get_utf8Decode? (h := by rw [decodes]; rfl)
  simp only [decodes, Option.get_some, List.utf8Encode] at encoded
  exact (List.toByteArray_inj.mp encoded).symm

theorem asBytes_append (first second : Text) : (first ++ second).asBytes = first.asBytes ++ second.asBytes :=
  List.flatMap_append

theorem asBytes_cons (c : Char) (rest : Text) : asBytes (c :: rest) = String.utf8EncodeChar c ++ rest.asBytes :=
  List.flatMap_cons

theorem byteLength_append (first second : Text) :
    (first ++ second).byteLength = first.byteLength + second.byteLength := by
  simp [byteLength]

theorem byteLength_cons (c : Char) (rest : Text) : byteLength (c :: rest) = c.utf8Size + rest.byteLength := rfl

theorem asBytes_length (text : Text) : text.asBytes.length = text.byteLength := by
  induction text with
  | nil => rfl
  | cons c rest ih => rw [asBytes_cons, List.length_append, byteLength_cons, String.length_utf8EncodeChar, ih]

theorem length_le_byteLength (text : Text) : text.length ≤ text.byteLength := by
  induction text with
  | nil => exact le_rfl
  | cons c rest ih =>
    have := c.utf8Size_pos
    rw [List.length_cons, byteLength_cons]
    omega

theorem utf8EncodeChar_cases (c : Char) : ∃ first others, String.utf8EncodeChar c = first :: others ∧
    (c.toNat < 0x80 ∧ first = UInt8.ofNat c.toNat ∧ others = [] ∨ 0x80 ≤ c.toNat ∧ 0xc0 ≤ first) ∧
      ∀ byte ∈ others, 0x80 ≤ byte := by
  have above (low : Nat) {n : Nat} (least : low ≤ n) (small : n < 256) : UInt8.ofNat low ≤ UInt8.ofNat n := by
    rw [UInt8.le_iff_toNat_le, UInt8.toNat_ofNat', UInt8.toNat_ofNat']
    omega
  unfold String.utf8EncodeChar
  dsimp only
  change ∃ first others, (if c.toNat ≤ 0x7f then _ else _) = _ ∧ _
  split
  · exact ⟨_, _, rfl, .inl ⟨by omega, rfl, rfl⟩, by simp⟩
  · split
    · refine ⟨_, _, rfl, .inr ⟨by omega, above 0xc0 (by omega) (by omega)⟩, ?_⟩
      simp only [List.forall_mem_cons]
      exact ⟨above 0x80 (by omega) (by omega), by simp⟩
    · split
      · refine ⟨_, _, rfl, .inr ⟨by omega, above 0xc0 (by omega) (by omega)⟩, ?_⟩
        simp only [List.forall_mem_cons]
        exact ⟨above 0x80 (by omega) (by omega), above 0x80 (by omega) (by omega), by simp⟩
      · refine ⟨_, _, rfl, .inr ⟨by omega, above 0xc0 (by omega) (by omega)⟩, ?_⟩
        simp only [List.forall_mem_cons]
        exact ⟨above 0x80 (by omega) (by omega), above 0x80 (by omega) (by omega),
          above 0x80 (by omega) (by omega), by simp⟩

theorem drop_byteLength (front rest : Text) : (front ++ rest).asBytes.drop front.byteLength = rest.asBytes := by
  rw [asBytes_append, ← asBytes_length, List.drop_left]

theorem isCharBoundary_byteLength (front rest : Text) : (front ++ rest).isCharBoundary front.byteLength = true := by
  have next : (front ++ rest).asBytes[front.byteLength]? = rest.asBytes.head? := by
    rw [← drop_byteLength front rest, List.head?_drop]
  cases rest with
  | nil =>
    rw [List.append_nil] at next ⊢
    rw [isCharBoundary, next, asBytes_length]
    exact beq_self_eq_true _
  | cons c others =>
    obtain ⟨first, more, encoded, range, -⟩ := utf8EncodeChar_cases c
    rw [asBytes_cons, encoded, List.cons_append, List.head?_cons] at next
    rw [isCharBoundary, next]
    rcases range with ⟨ascii, rfl, -⟩ | ⟨-, wide⟩
    · have small : UInt8.ofNat c.toNat < 0x80 := by
        rw [UInt8.lt_iff_toNat_lt, UInt8.toNat_ofNat']
        change c.toNat % 2 ^ 8 < 128
        omega
      simp [small]
    · simp [wide]

theorem slice_between (front middle rest : Text) :
    (front ++ (middle ++ rest)).slice front.byteLength (front ++ middle).byteLength = some middle := by
  have start := isCharBoundary_byteLength front (middle ++ rest)
  have stop := isCharBoundary_byteLength (front ++ middle) rest
  rw [List.append_assoc] at stop
  rw [slice, if_pos ⟨by rw [byteLength_append]; omega, start, stop⟩, drop_byteLength, asBytes_append, byteLength_append,
    Nat.add_sub_cancel_left, ← asBytes_length, List.take_left, fromUtf8_asBytes]

end SimpleRdbms.Text
