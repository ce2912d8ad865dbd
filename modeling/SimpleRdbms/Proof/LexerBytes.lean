import SimpleRdbms.Lib.Results
import SimpleRdbms.Proof.Lexemes
import SimpleRdbms.Proof.Utf8
import SimpleRdbms.Sql.ByteLexer

namespace SimpleRdbms.Sql
open SimpleRdbms.Lib Text

structure Agrees (pred : UInt8 → Bool) (chars : Char → Bool) : Prop where
  ascii (c : Char) : c.toNat < 0x80 → pred (UInt8.ofNat c.toNat) = chars c
  wide (c : Char) (byte : UInt8) : 0x80 ≤ c.toNat → 0x80 ≤ byte → pred byte = chars c

variable {pred : UInt8 → Bool} {chars : Char → Bool} {c : Char} {rest : Text}

theorem Agrees.head (agrees : Agrees pred chars) (c : Char) (rest : Text) :
    ∃ byte, (asBytes (c :: rest)).head? = some byte ∧ pred byte = chars c := by
  obtain ⟨first, others, encoded, range, -⟩ := utf8EncodeChar_cases c
  rw [asBytes_cons, encoded]
  refine ⟨first, rfl, ?_⟩
  rcases range with ⟨ascii, rfl, -⟩ | ⟨wide, high⟩
  · exact agrees.ascii c ascii
  · exact agrees.wide c first wide (UInt8.le_trans (by decide) high)

theorem Agrees.all (agrees : Agrees pred chars)
    (accepted : chars c = true) : ∀ byte ∈ String.utf8EncodeChar c, pred byte = true := by
  obtain ⟨first, others, encoded, range, continued⟩ := utf8EncodeChar_cases c
  rw [encoded, List.forall_mem_cons]
  rcases range with ⟨ascii, rfl, rfl⟩ | ⟨wide, high⟩
  · exact ⟨(agrees.ascii c ascii).trans accepted, by simp⟩
  · exact ⟨(agrees.wide c first wide (UInt8.le_trans (by decide) high)).trans accepted,
      fun byte member => (agrees.wide c byte wide (continued byte member)).trans accepted⟩

theorem Agrees.dropWhile (agrees : Agrees pred chars) (text : Text) :
    text.asBytes.dropWhile pred = asBytes (text.dropWhile chars) := by
  induction text with
  | nil => rfl
  | cons c rest ih =>
    cases accepted : chars c with
    | true =>
      rw [List.dropWhile_cons_of_pos accepted, asBytes_cons, List.dropWhile_append_of_pos (agrees.all accepted), ih]
    | false =>
      obtain ⟨byte, isHead, refused⟩ := agrees.head c rest
      obtain ⟨others, bytes⟩ := List.head?_eq_some_iff.mp isHead
      rw [List.dropWhile_cons_of_neg (by simp [accepted]), bytes,
        List.dropWhile_cons_of_neg (by simp [refused, accepted])]

theorem agrees_of_table (table : ∀ code : Fin 128, pred (UInt8.ofNat code) = chars (Char.ofNat code))
    (bytes : ∀ code : Fin 256, 128 ≤ code.val → pred (UInt8.ofNat code) = false)
    (wide : ∀ c : Char, 0x80 ≤ c.toNat → chars c = false) : Agrees pred chars where
  ascii c small := by
    have := table ⟨c.toNat, small⟩
    rwa [Char.ofNat_toNat] at this
  wide c byte isWide high := by
    rw [wide c isWide]
    have := bytes ⟨byte.toNat, byte.toNat_lt⟩ (UInt8.le_iff_toNat_le.mp high)
    rwa [UInt8.ofNat_toNat] at this

theorem agrees_digit : Agrees Lexer.isAsciiDigit Char.isDigit :=
  agrees_of_table (by decide) (by decide +kernel) fun c wide => by
    rw [Bool.eq_false_iff, Ne, isDigit_iff]
    omega

theorem agrees_alphabetic : Agrees Lexer.isAsciiAlphabetic Char.isAlpha :=
  agrees_of_table (by decide) (by decide +kernel) fun c wide => by
    change (c.isUpper || c.isLower) = false
    rw [Bool.eq_false_iff, Ne, Bool.or_eq_true, isUpper_iff, isLower_iff]
    omega

theorem agrees_wordChar : Agrees Lexer.isWordByte isWordChar :=
  agrees_of_table (by decide) (by decide +kernel) fun c wide => by
    rw [Bool.eq_false_iff, Ne, isWordChar_iff]
    omega

theorem agrees_char (d : Char) (ascii : d.toNat < 0x80) : Agrees (· == UInt8.ofNat d.toNat) (· == d) where
  ascii c small := by
    rw [Bool.eq_iff_iff, beq_iff_eq, beq_iff_eq, ← UInt8.toNat_inj, UInt8.toNat_ofNat', UInt8.toNat_ofNat',
      ← Char.toNat_inj]
    omega
  wide c byte isWide high := by
    have apart : c ≠ d := by
      rintro rfl
      omega
    have other : byte ≠ UInt8.ofNat d.toNat := by
      rintro rfl
      rw [UInt8.le_iff_toNat_le, UInt8.toNat_ofNat'] at high
      change 128 ≤ d.toNat % 2 ^ 8 at high
      omega
    rw [beq_eq_false_iff_ne.mpr apart, beq_eq_false_iff_ne.mpr other]

theorem Agrees.not (agrees : Agrees pred chars) : Agrees (fun byte => !pred byte) (fun c => !chars c) :=
  ⟨fun c ascii => congrArg _ (agrees.ascii c ascii), fun c byte wide high => congrArg _ (agrees.wide c byte wide high)⟩

theorem Agrees.or {other : UInt8 → Bool} {others : Char → Bool} (first : Agrees pred chars)
    (second : Agrees other others) : Agrees (fun byte => pred byte || other byte) (fun c => chars c || others c) :=
  ⟨fun c ascii => congrArg₂ _ (first.ascii c ascii) (second.ascii c ascii),
    fun c byte wide high => congrArg₂ _ (first.wide c byte wide high) (second.wide c byte wide high)⟩

theorem agrees_whitespace : Agrees Lexer.isAsciiWhitespace isAsciiWhitespace :=
  ((((agrees_char ' ' (by decide)).or (agrees_char '\t' (by decide))).or (agrees_char '\n' (by decide))).or
    (agrees_char '\x0c' (by decide))).or (agrees_char '\r' (by decide))

theorem agrees_comment : Agrees Lexer.isCommentByte (· != '\n') := (agrees_char '\n' (by decide)).not

variable {input : Text}

def place (input rest : Text) : Nat := input.byteLength - rest.byteLength

theorem place_append (front rest : Text) : place (front ++ rest) rest = front.byteLength := by
  rw [place, byteLength_append, Nat.add_sub_cancel]

theorem place_cons (suffix : c :: rest <:+ input) : place input (c :: rest) + c.utf8Size = place input rest := by
  obtain ⟨front, rfl⟩ := suffix
  have after := place_append (front ++ [c]) rest
  rw [List.append_assoc, List.singleton_append] at after
  rw [place_append, after, byteLength_append, byteLength_cons]
  rfl

theorem utf8Size_ascii (ascii : c.toNat < 0x80) : c.utf8Size = 1 := by
  obtain ⟨first, others, encoded, range, -⟩ := utf8EncodeChar_cases c
  rw [← String.length_utf8EncodeChar, encoded]
  rcases range with ⟨-, -, rfl⟩ | ⟨wide, -⟩
  · rfl
  · omega

theorem place_ascii (ascii : c.toNat < 0x80) (suffix : c :: rest <:+ input) :
    place input (c :: rest) + 1 = place input rest := by
  rw [← place_cons suffix, utf8Size_ascii ascii]

theorem suffix_of_cons (suffix : c :: rest <:+ input) : rest <:+ input :=
  (List.suffix_cons c rest).trans suffix

theorem drop_place (suffix : rest <:+ input) : input.asBytes.drop (place input rest) = rest.asBytes := by
  obtain ⟨front, rfl⟩ := suffix
  rw [place_append, drop_byteLength]

namespace Lexer

variable {rest : Text} {pred : UInt8 → Bool} {chars : Char → Bool} {c : Char}

theorem peekByte_place (suffix : rest <:+ input) : peekByte input (place input rest) = rest.asBytes.head? := by
  rw [peekByte, ← drop_place suffix, List.head?_drop]

theorem peekByte_eq_some (d : Char) (ascii : d.toNat < 0x80) (suffix : rest <:+ input) :
    peekByte input (place input rest) = some (UInt8.ofNat d.toNat) ↔ rest.head? = some d := by
  rw [peekByte_place suffix]
  cases rest with
  | nil => exact ⟨fun absent => (by cases absent), fun absent => (by cases absent)⟩
  | cons c others =>
    obtain ⟨byte, isHead, agree⟩ := (agrees_char d ascii).head c others
    rw [isHead, List.head?_cons, Option.some.injEq, Option.some.injEq, ← beq_iff_eq, ← beq_iff_eq (a := c)]
    exact Bool.eq_iff_iff.mp agree

theorem class_of_head {byte : UInt8}
    (isHead : (asBytes (c :: rest)).head? = some byte) (agrees : Agrees pred chars) : pred byte = chars c := by
  obtain ⟨other, isOther, agree⟩ := agrees.head c rest
  obtain rfl := Option.some.inj (isHead.symm.trans isOther)
  exact agree

theorem byte_eq_iff {byte : UInt8} (isHead : (asBytes (c :: rest)).head? = some byte) (d : Char)
    (ascii : d.toNat < 0x80) : byte = UInt8.ofNat d.toNat ↔ c = d := by
  rw [← beq_iff_eq, ← beq_iff_eq (a := c), class_of_head isHead (agrees_char d ascii)]

theorem peekByte_any (agrees : Agrees pred chars)
    (suffix : rest <:+ input) : (peekByte input (place input rest)).any pred = rest.head?.any chars := by
  rw [peekByte_place suffix]
  cases rest with
  | nil => rfl
  | cons c others =>
    obtain ⟨byte, isHead, agree⟩ := agrees.head c others
    rw [isHead]
    exact agree

theorem advanceWhile_eq (input : Text) (pred : UInt8 → Bool) (offset : Nat) : advanceWhile input pred offset =
    offset + ((input.asBytes.drop offset).takeWhile pred).length := by
  fun_induction advanceWhile input pred offset with
  | case1 offset byte peeked inside accepted ih =>
    obtain ⟨_, isByte⟩ := List.getElem?_eq_some_iff.mp peeked
    rw [ih, List.drop_eq_getElem_cons inside, isByte, List.takeWhile_cons_of_pos accepted, List.length_cons]
    omega
  | case2 offset byte peeked inside refused =>
    obtain ⟨_, isByte⟩ := List.getElem?_eq_some_iff.mp peeked
    rw [List.drop_eq_getElem_cons inside, isByte, List.takeWhile_cons_of_neg refused]
    rfl
  | case3 offset peeked =>
    rw [List.drop_of_length_le (List.getElem?_eq_none_iff.mp peeked)]
    rfl

theorem advanceWhile_place (agrees : Agrees pred chars)
    (suffix : rest <:+ input) : advanceWhile input pred (place input rest) = place input (rest.dropWhile chars) := by
  have whole := congrArg List.length (List.takeWhile_append_dropWhile (p := pred) (l := rest.asBytes))
  rw [List.length_append, agrees.dropWhile, asBytes_length, asBytes_length] at whole
  have inside : rest.byteLength ≤ input.byteLength := by
    obtain ⟨front, rfl⟩ := suffix
    rw [byteLength_append]
    omega
  rw [advanceWhile_eq, drop_place suffix, place, place]
  omega

theorem sliced_place {source after : Text} (split : rest = source ++ after) (suffix : rest <:+ input) :
    sliced input (place input rest) (place input after) = .ok source := by
  subst split
  obtain ⟨front, rfl⟩ := suffix
  have stop := place_append (front ++ source) after
  rw [List.append_assoc] at stop
  rw [sliced, place_append, stop, slice_between]

theorem charAt_place (suffix : c :: rest <:+ input) : charAt input (place input (c :: rest)) = .ok c := by
  have text := sliced_place (List.append_nil (c :: rest)).symm suffix
  rw [charAt, asBytes_length, show input.byteLength = place input [] from rfl, text]
  rfl

end Lexer

theorem skipTrivia_suffix (comment : Bool) (text : Text) : skipTrivia comment text <:+ text := by
  fun_induction skipTrivia comment text with
  | case1 => exact List.suffix_refl _
  | case2 _ _ ih | case3 _ _ _ _ _ ih | case4 _ _ _ _ _ _ ih => exact ih.trans (List.suffix_cons _ _)
  | case5 => exact List.suffix_refl _

theorem skipTrivia_comment (text : Text) : skipTrivia true text = skipTrivia false (text.dropWhile (· != '\n')) := by
  induction text with
  | nil => rfl
  | cons c rest ih =>
    by_cases newline : c = '\n'
    · subst newline
      rfl
    · have other : (c != '\n') = true := by simpa using newline
      rw [List.dropWhile_cons, if_pos other, ← ih, skipTrivia, if_pos rfl, other]

theorem ascii_of_blank (blank : isAsciiWhitespace c = true) : c.toNat < 0x80 := by
  simp only [isAsciiWhitespace, Bool.or_eq_true, beq_iff_eq] at blank
  rcases blank with (((rfl | rfl) | rfl) | rfl) | rfl <;> decide

namespace Lexer

variable {rest : Text} {byte : UInt8} {c : Char} {kind : TokenKind}

theorem skipTrivia_place (suffix : rest <:+ input) :
    skipTrivia input (place input rest) = place input (Sql.skipTrivia false rest) := by
  induction length : rest.length using Nat.strong_induction_on generalizing rest with
  | _ length ih =>
  subst length
  cases rest with
  | nil =>
    have peeked := peekByte_place suffix
    rw [skipTrivia]
    split
    · rename_i byte found
      cases found.symm.trans peeked
    · rfl
  | cons c others =>
    have follows := suffix_of_cons suffix
    obtain ⟨byte, isHead, blank⟩ := agrees_whitespace.head c others
    have peeked : peekByte input (place input (c :: others)) = some byte := (peekByte_place suffix).trans isHead
    have dash := peekByte_eq_some '-' (by decide) suffix
    rw [peeked, Option.some.injEq, List.head?_cons, Option.some.injEq] at dash
    rw [skipTrivia]
    split
    · rename_i other found
      obtain rfl : byte = other := Option.some.inj (peeked.symm.trans found)
      rw [Sql.skipTrivia, if_neg Bool.false_ne_true, blank]
      split
      · rename_i isBlank
        rw [place_ascii (ascii_of_blank isBlank) suffix]
        exact ih _ (Nat.lt_succ_self _) follows rfl
      · rename_i notBlank
        by_cases isDash : c = '-'
        · subst isDash
          have next := peekByte_eq_some '-' (by decide) follows
          by_cases again : others.head? = some '-'
          · have dropped : ('-' :: others).dropWhile (· != '\n') = others.dropWhile (· != '\n') := rfl
            have shorter := (List.dropWhile_suffix (· != '\n') (l := others)).length_le
            rw [dif_pos ⟨dash.mpr rfl, place_ascii (by decide) suffix ▸ next.mpr again⟩, if_pos (by simp [again]),
              skipTrivia_comment]
            change skipTrivia input (advanceWhile input isCommentByte (place input ('-' :: others))) = _
            rw [advanceWhile_place agrees_comment suffix, dropped]
            exact ih _ (Nat.lt_succ_of_le shorter) ((List.dropWhile_suffix _).trans follows) rfl
          · rw [dif_neg, if_neg (by simp [again])]
            rintro ⟨-, second⟩
            rw [place_ascii (by decide) suffix] at second
            exact again (next.mp second)
        · rw [dif_neg fun both => isDash (dash.mp both.1), if_neg (by simp [isDash])]
    · rename_i absent
      cases absent.symm.trans peeked

def lifted (input : Text) : Except SqlError (TokenKind × Text) → Lexing (TokenKind × Nat)
  | .ok (kind, after) => .ok (kind, place input after)
  | .error err => .error (.sql err)

theorem lexNumber_place (suffix : rest <:+ input) :
    lexNumber input (place input rest) = lifted input (Sql.lexNumber rest (place input rest)) := by
  have split := (List.takeWhile_append_dropWhile (p := Char.isDigit) (l := rest)).symm
  have stop := (List.dropWhile_suffix Char.isDigit).trans suffix
  have point := peekByte_eq_some '.' (by decide) stop
  rw [lexNumber, Sql.lexNumber, advanceWhile_place agrees_digit suffix]
  dsimp only
  generalize rest.takeWhile Char.isDigit = digits at *
  generalize rest.dropWhile Char.isDigit = back at *
  -- A point counts only before another digit.
  by_cases isFloat : back.head? = some '.' ∧ back.tail.head?.any Char.isDigit = true
  · obtain ⟨more, rfl⟩ := List.head?_eq_some_iff.mp isFloat.1
    have next := place_ascii (show '.'.toNat < 0x80 by decide) stop
    have fraction := peekByte_any agrees_digit (suffix_of_cons stop)
    have whole : rest = digits ++ '.' :: more.takeWhile Char.isDigit ++ more.dropWhile Char.isDigit := by
      rw [split, List.append_assoc, List.cons_append, List.takeWhile_append_dropWhile]
    rw [next, if_pos ⟨point.mpr rfl, fraction.trans isFloat.2⟩, advanceWhile_place agrees_digit (suffix_of_cons stop),
      sliced_place whole suffix, if_pos (by simpa using isFloat.2)]
    rfl
  · have notFloat : (back.head? == some '.' && back.tail.head?.any Char.isDigit) = false := by
      rw [Bool.eq_false_iff]
      simpa using isFloat
    rw [if_neg, sliced_place split suffix, ok_bind, notFloat, if_neg Bool.false_ne_true]
    · by_cases small : digitsValue digits < 2 ^ 63
      · rw [if_pos small, if_pos small]
        rfl
      · rw [if_neg small, if_neg small]
        rfl
    · rintro ⟨isPoint, isDigit⟩
      obtain ⟨more, rfl⟩ := List.head?_eq_some_iff.mp (point.mp isPoint)
      rw [place_ascii (by decide) stop, peekByte_any agrees_digit (suffix_of_cons stop)] at isDigit
      exact isFloat ⟨rfl, isDigit⟩

theorem lexString_next {start offset : Nat} {value : Text} (peeked : peekByte input offset = some byte) :
    lexString input start value offset =
      if byte = 39 then
        if peekByte input (offset + 1) = some 39 then lexString input start (value ++ ['\'']) (offset + 2)
        else .ok (.stringLiteral value, offset + 1)
      else charAt input offset >>= fun ch => lexString input start (value ++ [ch]) (offset + ch.utf8Size) := by
  rw [lexString]
  split
  · rename_i absent
    cases absent.symm.trans peeked
  · rename_i other found
    obtain rfl := Option.some.inj (found.symm.trans peeked)
    cases charAt input offset <;> rfl

theorem lexString_place (start : Nat) (value : Text) (suffix : rest <:+ input) :
    lexString input start value (place input rest) =
      (Sql.lexString value rest).elim (.error (.sql (.unterminatedString start)))
        fun (value, after) => .ok (.stringLiteral value, place input after) := by
  have quote {rest : Text} (suffix : rest <:+ input) :
      peekByte input (place input rest) = some 39 ↔ rest.head? = some '\'' := peekByte_eq_some '\'' (by decide) suffix
  fun_induction Sql.lexString value rest with
  | case1 value =>
    have peeked := peekByte_place suffix
    rw [lexString]
    split
    · rfl
    · rename_i byte found
      cases found.symm.trans peeked
  | case2 value rest ih =>
    have follows := suffix_of_cons suffix
    have second := (quote follows).mpr rfl
    rw [← place_ascii (by decide) suffix] at second
    rw [← ih (suffix_of_cons follows), lexString_next ((quote suffix).mpr rfl), if_pos rfl, if_pos second,
      ← place_ascii (by decide) follows, ← place_ascii (by decide) suffix]
  | case3 value rest notEscape =>
    have follows := suffix_of_cons suffix
    rw [lexString_next ((quote suffix).mpr rfl), if_pos rfl, place_ascii (by decide) suffix, if_neg]
    · rfl
    · intro again
      obtain ⟨more, rfl⟩ := List.head?_eq_some_iff.mp ((quote follows).mp again)
      exact notEscape more rfl
  | case4 value c rest notEscape notClose ih =>
    have follows := suffix_of_cons suffix
    obtain ⟨byte, isHead, _⟩ := agrees_digit.head c rest
    have peeked : peekByte input (place input (c :: rest)) = some byte := (peekByte_place suffix).trans isHead
    rw [lexString_next peeked, if_neg, charAt_place suffix, ok_bind, place_cons suffix, ih follows]
    rintro rfl
    obtain rfl : c = '\'' := Option.some.inj ((quote suffix).mp peeked)
    exact notClose rfl

theorem lexDollar_place (suffix : '$' :: rest <:+ input) :
    lexDollar input (place input ('$' :: rest)) = lifted input (Sql.lexDollar rest (place input ('$' :: rest))) := by
  have follows := suffix_of_cons suffix
  have split := (List.takeWhile_append_dropWhile (p := Char.isDigit) (l := rest)).symm
  have stop := (List.dropWhile_suffix Char.isDigit).trans follows
  rw [lexDollar, Sql.lexDollar, place_ascii (by decide) suffix, advanceWhile_place agrees_digit follows]
  dsimp only
  generalize rest.takeWhile Char.isDigit = digits at *
  generalize rest.dropWhile Char.isDigit = back at *
  rw [sliced_place (show '$' :: rest = '$' :: digits ++ back by rw [split]; rfl) suffix, sliced_place split follows,
    ok_bind]
  by_cases empty : digits = []
  · obtain rfl : rest = back := by rw [split, empty, List.nil_append]
    rw [if_pos rfl, empty]
    rfl
  · have apart : place input rest ≠ place input back := by
      obtain ⟨front, rfl⟩ := follows
      have after := place_append (front ++ digits) back
      obtain ⟨d, others, rfl⟩ := List.exists_cons_of_ne_nil empty
      rw [List.append_assoc, ← split] at after
      rw [place_append, after, byteLength_append, byteLength_cons]
      have := d.utf8Size_pos
      omega
    rw [if_neg apart, ok_bind, List.isEmpty_eq_false_iff.mpr empty, Bool.false_or]
    by_cases large : digitsValue digits ≥ 2 ^ 32
    · rw [if_pos large, decide_eq_true large]
      rfl
    · rw [if_neg large, decide_eq_false large, Bool.false_or]
      by_cases zero : digitsValue digits = 0
      · rw [if_pos zero, zero]
        rfl
      · rw [if_neg zero, beq_eq_false_iff_ne.mpr zero]
        rfl

theorem lexIdentOrKeyword_place (suffix : rest <:+ input) :
    lexIdentOrKeyword input (place input rest) = lifted input (.ok (Sql.lexIdentOrKeyword rest)) := by
  have split := (List.takeWhile_append_dropWhile (p := isWordChar) (l := rest)).symm
  rw [lexIdentOrKeyword, advanceWhile_place agrees_wordChar suffix, sliced_place split suffix]
  rfl

theorem lexPunct_single (ascii : c.toNat < 0x80) (suffix : c :: rest <:+ input)
    (bytes : lexPunct input (UInt8.ofNat c.toNat) (place input (c :: rest)) = .ok (kind, place input (c :: rest) + 1))
    (chars : Sql.lexPunct c rest (place input (c :: rest)) = .ok (kind, rest)) :
    lexPunct input (UInt8.ofNat c.toNat) (place input (c :: rest)) =
      lifted input (Sql.lexPunct c rest (place input (c :: rest))) := by
  rw [bytes, chars, place_ascii ascii suffix]
  rfl

theorem lexPunct_double {d : Char} (ascii : c.toNat < 0x80) (asciiNext : d.toNat < 0x80)
    (suffix : c :: d :: rest <:+ input)
    (bytes : peekByte input (place input (c :: d :: rest) + 1) = some (UInt8.ofNat d.toNat) →
      lexPunct input (UInt8.ofNat c.toNat) (place input (c :: d :: rest)) =
        .ok (kind, place input (c :: d :: rest) + 2))
    (chars : Sql.lexPunct c (d :: rest) (place input (c :: d :: rest)) = .ok (kind, rest)) :
    lexPunct input (UInt8.ofNat c.toNat) (place input (c :: d :: rest)) =
      lifted input (Sql.lexPunct c (d :: rest) (place input (c :: d :: rest))) := by
  have follows := suffix_of_cons suffix
  have after : place input (c :: d :: rest) + 2 = place input rest := by
    rw [← place_ascii asciiNext follows, ← place_ascii ascii suffix]
  rw [bytes, chars, after]
  · rfl
  · rw [place_ascii ascii suffix]
    exact (peekByte_eq_some d asciiNext follows).mpr rfl

theorem lexPunct_less (start : Nat) :
    (peekByte input (start + 1) = some 61 → lexPunct input 60 start = .ok (.ltEq, start + 2)) ∧
      (peekByte input (start + 1) = some 62 → lexPunct input 60 start = .ok (.notEq, start + 2)) ∧
      (peekByte input (start + 1) ≠ some 61 → peekByte input (start + 1) ≠ some 62 →
        lexPunct input 60 start = .ok (.lt, start + 1)) := by
  refine ⟨fun next => ?_, fun next => ?_, fun notEq notGt => ?_⟩
  · simp only [lexPunct, next]
  · simp only [lexPunct, next]
  · simp only [lexPunct]

theorem lexPunct_lt (start : Nat) (notEq : rest.head? ≠ some '=') (notGt : rest.head? ≠ some '>') :
    Sql.lexPunct '<' rest start = .ok (.lt, rest) := by
  unfold Sql.lexPunct
  split <;> simp_all

theorem lexPunct_gt (start : Nat) (notEq : rest.head? ≠ some '=') :
    Sql.lexPunct '>' rest start = .ok (.gt, rest) := by
  unfold Sql.lexPunct
  split <;> simp_all

theorem lexPunct_error (start : Nat) (unlisted : c ∉ ",;()*.+-/=<>".toList)
    (notBang : c = '!' → rest.head? ≠ some '=') : Sql.lexPunct c rest start = .error (.unexpectedChar c start) := by
  unfold Sql.lexPunct
  split <;> simp_all

theorem lexPunct_place (suffix : c :: rest <:+ input) (isHead : (asBytes (c :: rest)).head? = some byte) :
    lexPunct input byte (place input (c :: rest)) = lifted input (Sql.lexPunct c rest (place input (c :: rest))) := by
  have follows := suffix_of_cons suffix
  have byteOf := byte_eq_iff isHead
  have second (d : Char) (ascii : d.toNat < 0x80) (asciiFirst : c.toNat < 0x80) :
      peekByte input (place input (c :: rest) + 1) = some (UInt8.ofNat d.toNat) ↔ rest.head? = some d := by
    rw [place_ascii asciiFirst suffix]
    exact peekByte_eq_some d ascii follows
  by_cases listed : c ∈ ",;()*.+-/=<>".toList
  · have ascii : c.toNat < 0x80 := by
      have table : ",;()*.+-/=<>".toList.all (·.toNat < 0x80) = true := by decide
      exact of_decide_eq_true (List.all_eq_true.mp table c listed)
    obtain rfl := (byteOf c ascii).mpr rfl
    have isEq := second '=' (by decide) ascii
    have isGt := second '>' (by decide) ascii
    clear isHead byteOf second
    simp only [String.reduceToList, List.mem_cons, List.not_mem_nil, or_false] at listed
    rcases listed with rfl | rfl | rfl | rfl | rfl | rfl | rfl | rfl | rfl | rfl | rfl | rfl
    iterate 10 exact lexPunct_single (by decide) suffix rfl rfl
    · by_cases eqNext : rest.head? = some '='
      · obtain ⟨more, rfl⟩ := List.head?_eq_some_iff.mp eqNext
        exact lexPunct_double (by decide) (by decide) suffix (fun next => (lexPunct_less _).1 next) rfl
      · by_cases gtNext : rest.head? = some '>'
        · obtain ⟨more, rfl⟩ := List.head?_eq_some_iff.mp gtNext
          exact lexPunct_double (by decide) (by decide) suffix (fun next => (lexPunct_less _).2.1 next) rfl
        · exact lexPunct_single (by decide) suffix
            ((lexPunct_less _).2.2 (mt isEq.mp eqNext) (mt isGt.mp gtNext)) (lexPunct_lt _ eqNext gtNext)
    · by_cases eqNext : rest.head? = some '='
      · obtain ⟨more, rfl⟩ := List.head?_eq_some_iff.mp eqNext
        exact lexPunct_double (by decide) (by decide) suffix (fun next => if_pos next) rfl
      · exact lexPunct_single (by decide) suffix (if_neg fun found => eqNext (isEq.mp found)) (lexPunct_gt _ eqNext)
  · by_cases bang : c = '!' ∧ rest.head? = some '='
    · obtain ⟨rfl, eqNext⟩ := bang
      obtain ⟨more, rfl⟩ := List.head?_eq_some_iff.mp eqNext
      obtain rfl := (byteOf '!' (by decide)).mpr rfl
      exact lexPunct_double (by decide) (by decide) suffix (fun next => if_pos ⟨rfl, next⟩) rfl
    · rw [lexPunct_error _ listed fun isBang eqNext => bang ⟨isBang, eqNext⟩]
      have apart (d : Char) (ascii : d.toNat < 0x80) (isListed : d ∈ ",;()*.+-/=<>".toList) :
        byte ≠ UInt8.ofNat d.toNat :=
        fun same => listed ((byteOf d ascii).mp same ▸ isListed)
      unfold lexPunct
      split
      · exact absurd rfl (apart ',' (by decide) (by decide))
      · exact absurd rfl (apart ';' (by decide) (by decide))
      · exact absurd rfl (apart '(' (by decide) (by decide))
      · exact absurd rfl (apart ')' (by decide) (by decide))
      · exact absurd rfl (apart '*' (by decide) (by decide))
      · exact absurd rfl (apart '.' (by decide) (by decide))
      · exact absurd rfl (apart '+' (by decide) (by decide))
      · exact absurd rfl (apart '-' (by decide) (by decide))
      · exact absurd rfl (apart '/' (by decide) (by decide))
      · exact absurd rfl (apart '=' (by decide) (by decide))
      · exact absurd rfl (apart '<' (by decide) (by decide))
      · exact absurd rfl (apart '>' (by decide) (by decide))
      · rw [if_neg, charAt_place suffix]
        · rfl
        · rintro ⟨isBang, eqNext⟩
          obtain rfl := (byteOf '!' (by decide)).mp isBang
          exact bang ⟨rfl, (second '=' (by decide) (by decide)).mp eqNext⟩

theorem lexToken_place (suffix : c :: rest <:+ input) (isHead : (asBytes (c :: rest)).head? = some byte) :
    lexToken input byte (place input (c :: rest)) = lifted input (Sql.lexToken c rest (place input (c :: rest))) := by
  have digit := class_of_head isHead agrees_digit
  have letter := class_of_head isHead agrees_alphabetic
  have quote : byte = 39 ↔ c = '\'' := byte_eq_iff isHead '\'' (by decide)
  have dollar : byte = 36 ↔ c = '$' := byte_eq_iff isHead '$' (by decide)
  have underscore : byte = 95 ↔ c = '_' := byte_eq_iff isHead '_' (by decide)
  simp only [lexToken, Sql.lexToken, isWordStart, digit, quote, dollar, underscore, letter, beq_iff_eq, Bool.or_eq_true]
  by_cases isDigit : c.isDigit = true
  · simp only [if_pos isDigit]
    exact lexNumber_place suffix
  · simp only [if_neg isDigit]
    by_cases isQuote : c = '\''
    · subst isQuote
      have body := lexString_place (place input ('\'' :: rest)) [] (suffix_of_cons suffix)
      rw [if_pos rfl, if_pos rfl, place_ascii (by decide) suffix, body]
      cases Sql.lexString [] rest <;> rfl
    · simp only [if_neg isQuote]
      by_cases isDollar : c = '$'
      · subst isDollar
        rw [if_pos rfl, if_pos rfl]
        exact lexDollar_place suffix
      · simp only [if_neg isDollar]
        by_cases isWord : c = '_' ∨ c.isAlpha
        · simp only [if_pos isWord]
          exact lexIdentOrKeyword_place suffix
        · simp only [if_neg isWord]
          exact lexPunct_place suffix isHead

theorem lexToken_suffix {after : Text} {start : Nat}
    (lexed : Sql.lexToken c rest start = .ok (kind, after)) : after <:+ rest := by
  obtain ⟨source, split, spelling⟩ := lexToken_spelling lexed
  obtain ⟨d, others, rfl⟩ := List.exists_cons_of_ne_nil spelling.nonempty
  rw [List.cons_append, List.cons.injEq] at split
  exact ⟨others, split.2.symm⟩

theorem tokenizeFrom_place {fuel charFuel : Nat} (suffix : rest <:+ input) (enough : rest.length < fuel)
    (charEnough : rest.length < charFuel) :
    tokenizeFrom input fuel (place input rest) = (Sql.tokenizeFrom input.byteLength charFuel rest).mapError .sql := by
  induction fuel generalizing rest charFuel with
  | zero => omega
  | succ fuel ih =>
    obtain ⟨charFuel, rfl⟩ := Nat.exists_eq_add_one_of_ne_zero (show charFuel ≠ 0 by omega)
    have trivia := skipTrivia_suffix false rest
    rw [tokenizeFrom, Sql.tokenizeFrom, skipTrivia_place suffix]
    dsimp only
    rw [peekByte_place (trivia.trans suffix)]
    have shorter := trivia.length_le
    have inside := trivia.trans suffix
    generalize Sql.skipTrivia false rest = next at *
    cases next with
    | nil => rfl
    | cons c others =>
      obtain ⟨byte, isHead, -⟩ := agrees_digit.head c others
      rw [isHead]
      dsimp only
      rw [lexToken_place inside isHead]
      change _ = ((Sql.lexToken c others (place input (c :: others)) >>= fun token => _).mapError _)
      cases lexed : Sql.lexToken c others (place input (c :: others)) with
      | error err => rfl
      | ok token =>
        obtain ⟨kind, after⟩ := token
        have follows := lexToken_suffix lexed
        have fewer := follows.length_le
        rw [List.length_cons] at shorter
        rw [lifted, ok_bind, ok_bind]
        dsimp only
        rw [ih (follows.trans (suffix_of_cons inside)) (by omega) (show after.length < charFuel by omega)]
        cases Sql.tokenizeFrom input.byteLength charFuel after <;> rfl

theorem tokenize_eq (input : Text) : tokenize input = (Sql.tokenize input).mapError .sql := by
  have start : place input input = 0 := Nat.sub_self _
  have long : input.length ≤ input.asBytes.length := by
    rw [asBytes_length]
    exact length_le_byteLength input
  rw [tokenize, ← start, Sql.tokenize]
  exact tokenizeFrom_place (List.suffix_refl _) (by omega) (by omega)

end Lexer

end SimpleRdbms.Sql
