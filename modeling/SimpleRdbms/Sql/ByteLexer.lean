import SimpleRdbms.Sql.Lexer

/-!
# The lexer on bytes

An offset into the bytes of the text. A slice that is out of range or off a character boundary panics.
-/

namespace SimpleRdbms.Sql.Lexer

inductive Failure where
  | sql (err : SqlError)
  | panic
  | outOfFuel
deriving DecidableEq, Repr

abbrev Lexing := Except Failure

def isAsciiDigit (byte : UInt8) : Bool := 48 ≤ byte && byte ≤ 57

def isAsciiAlphabetic (byte : UInt8) : Bool := 65 ≤ byte && byte ≤ 90 || 97 ≤ byte && byte ≤ 122

def isAsciiWhitespace (byte : UInt8) : Bool := byte == 32 || byte == 9 || byte == 10 || byte == 12 || byte == 13

def isWordByte (byte : UInt8) : Bool := byte == 95 || (isAsciiAlphabetic byte || isAsciiDigit byte)

section
variable (input : Text)

def peekByte (offset : Nat) : Option UInt8 := input.asBytes[offset]?

theorem lt_of_peekByte {offset : Nat} {byte : UInt8} (peeked : peekByte input offset = some byte) :
    offset < input.asBytes.length := (List.getElem?_eq_some_iff.mp peeked).1

def advanceWhile (pred : UInt8 → Bool) (offset : Nat) : Nat :=
  match peeked : peekByte input offset with
  | some byte =>
    have := lt_of_peekByte input peeked
    if pred byte then advanceWhile pred (offset + 1) else offset
  | none => offset
termination_by input.asBytes.length - offset

theorem le_advanceWhile (pred : UInt8 → Bool) (offset : Nat) : offset ≤ advanceWhile input pred offset := by
  fun_induction advanceWhile input pred offset <;> omega

theorem lt_advanceWhile {pred : UInt8 → Bool} {offset : Nat} {byte : UInt8} (peeked : peekByte input offset = some byte)
    (accepted : pred byte = true) : offset < advanceWhile input pred offset := by
  have := le_advanceWhile input pred (offset + 1)
  rw [advanceWhile]
  split
  · rename_i other isOther
    obtain rfl : byte = other := Option.some.inj (peeked.symm.trans isOther)
    rw [if_pos accepted]
    omega
  · rename_i absent
    cases peeked.symm.trans absent

def isCommentByte (byte : UInt8) : Bool := byte != 10

def skipTrivia (offset : Nat) : Nat :=
  match peeked : peekByte input offset with
  | some byte =>
    have := lt_of_peekByte input peeked
    if isAsciiWhitespace byte then skipTrivia (offset + 1)
    else if dash : byte = 45 ∧ peekByte input (offset + 1) = some 45 then
      have := lt_advanceWhile input peeked (show isCommentByte byte = true by rw [dash.1]; rfl)
      skipTrivia (advanceWhile input isCommentByte offset)
    else offset
  | none => offset
termination_by input.asBytes.length - offset

def sliced (start stop : Nat) : Lexing Text :=
  match input.slice start stop with
  | some text => .ok text
  | none => .error .panic

def charAt (offset : Nat) : Lexing Char := do
  match ← sliced input offset input.asBytes.length with
  | c :: _ => return c
  | [] => throw .panic

def lexNumber (start : Nat) : Lexing (TokenKind × Nat) := do
  let offset := advanceWhile input isAsciiDigit start
  if peekByte input offset = some 46 ∧ (peekByte input (offset + 1)).any isAsciiDigit then
    let offset := advanceWhile input isAsciiDigit (offset + 1)
    return (.floatLiteral (← sliced input start offset), offset)
  else
    let text ← sliced input start offset
    if digitsValue text < 2 ^ 63 then return (.integerLiteral (digitsValue text), offset)
    else throw (.sql (.invalidNumericLiteral text start))

def lexString (start : Nat) (value : Text) (offset : Nat) : Lexing (TokenKind × Nat) :=
  match peeked : peekByte input offset with
  | none => .error (.sql (.unterminatedString start))
  | some byte =>
    have := lt_of_peekByte input peeked
    if byte = 39 then
      if peekByte input (offset + 1) = some 39 then lexString start (value ++ ['\'']) (offset + 2)
      else .ok (.stringLiteral value, offset + 1)
    else
      match charAt input offset with
      | .ok ch =>
        have := ch.utf8Size_pos
        lexString start (value ++ [ch]) (offset + ch.utf8Size)
      | .error failure => .error failure
termination_by input.asBytes.length - offset

def lexDollar (start : Nat) : Lexing (TokenKind × Nat) := do
  let digitsStart := start + 1
  let offset := advanceWhile input isAsciiDigit digitsStart
  let text ← sliced input start offset
  if digitsStart = offset then throw (.sql (.invalidParameter text start))
  let index := digitsValue (← sliced input digitsStart offset)
  if index ≥ 2 ^ 32 then throw (.sql (.invalidParameter text start))
  if index = 0 then throw (.sql (.invalidParameter text start))
  return (.parameter index, offset)

def lexIdentOrKeyword (start : Nat) : Lexing (TokenKind × Nat) := do
  let offset := advanceWhile input isWordByte start
  return (wordKind (← sliced input start offset), offset)

def lexPunct (byte : UInt8) (start : Nat) : Lexing (TokenKind × Nat) :=
  match byte with
  | 44 => .ok (.comma, start + 1)
  | 59 => .ok (.semicolon, start + 1)
  | 40 => .ok (.lParen, start + 1)
  | 41 => .ok (.rParen, start + 1)
  | 42 => .ok (.star, start + 1)
  | 46 => .ok (.dot, start + 1)
  | 43 => .ok (.plus, start + 1)
  | 45 => .ok (.minus, start + 1)
  | 47 => .ok (.slash, start + 1)
  | 61 => .ok (.eq, start + 1)
  | 60 =>
    match peekByte input (start + 1) with
    | some 61 => .ok (.ltEq, start + 2)
    | some 62 => .ok (.notEq, start + 2)
    | _ => .ok (.lt, start + 1)
  | 62 => if peekByte input (start + 1) = some 61 then .ok (.gtEq, start + 2) else .ok (.gt, start + 1)
  | other =>
    if other = 33 ∧ peekByte input (start + 1) = some 61 then .ok (.notEq, start + 2)
    else do throw (.sql (.unexpectedChar (← charAt input start) start))

def lexToken (byte : UInt8) (start : Nat) : Lexing (TokenKind × Nat) :=
  if isAsciiDigit byte then lexNumber input start
  else if byte = 39 then lexString input start [] (start + 1)
  else if byte = 36 then lexDollar input start
  else if byte = 95 ∨ isAsciiAlphabetic byte then lexIdentOrKeyword input start
  else lexPunct input byte start

def tokenizeFrom : Nat → Nat → Lexing (List Token)
  | 0, _ => .error .outOfFuel
  | fuel + 1, offset =>
    let start := skipTrivia input offset
    match peekByte input start with
    | none => .ok [{ kind := .eof, offset := start }]
    | some byte => do
        let (kind, offset) ← lexToken input byte start
        let tokens ← tokenizeFrom fuel offset
        return { kind, offset := start } :: tokens

def tokenize : Lexing (List Token) := tokenizeFrom input (input.asBytes.length + 1) 0

end

end SimpleRdbms.Sql.Lexer
