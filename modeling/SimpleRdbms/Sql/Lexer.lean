import SimpleRdbms.Common.Bytes

/-!
# The lexer

Offsets count UTF-8 bytes. A decimal literal keeps its digits; the parser converts them.
-/

namespace SimpleRdbms.Sql

inductive TokenKind where
  | select | from_ | where_ | insert | into | values | as_ | create | table | index | on
  | and | or | not | is | null | true_ | false_
  | begin | start | transaction | commit | rollback | explain
  | identifier (name : Text)
  | integerLiteral (value : Int)
  | floatLiteral (digits : Text)
  | stringLiteral (value : Text)
  | parameter (index : Nat)
  | comma | semicolon | lParen | rParen | star | dot | plus | minus | slash
  | eq | notEq | lt | ltEq | gt | gtEq
  | eof
deriving DecidableEq, Repr

structure Token where
  kind : TokenKind
  offset : Nat
deriving DecidableEq, Repr

inductive SqlError where
  | unexpectedChar (ch : Char) (offset : Nat)
  | unterminatedString (offset : Nat)
  | unexpectedToken (expected : String) (found : TokenKind) (offset : Nat)
  | unexpectedEof (expected : String)
  | invalidNumericLiteral (text : Text) (offset : Nat)
  | invalidParameter (text : Text) (offset : Nat)
  | explainOfTransactionControl (offset : Nat)
  | nestedExplain (offset : Nat)
  | wildcardWithoutFrom (offset : Nat)
  | undefinedFunction (name : Text) (offset : Nat)
deriving DecidableEq, Repr

def isAsciiWhitespace (c : Char) : Bool :=
  c == ' ' || c == '\t' || c == '\n' || c == '\x0c' || c == '\r'

def isWordStart (c : Char) : Bool := c == '_' || c.isAlpha

def isWordChar (c : Char) : Bool := c == '_' || c.isAlphanum

def skipTrivia (comment : Bool) : Text → Text
  | [] => []
  | c :: rest =>
    if comment then skipTrivia (c != '\n') rest
    else if isAsciiWhitespace c then skipTrivia false rest
    else if c == '-' && rest.head? == some '-' then skipTrivia true rest
    else c :: rest

def digitsValue (digits : Text) : Nat := digits.foldl (fun value c => 10 * value + (c.toNat - '0'.toNat)) 0

def lexNumber (input : Text) (start : Nat) : Except SqlError (TokenKind × Text) :=
  let digits := input.takeWhile Char.isDigit
  let rest := input.dropWhile Char.isDigit
  if rest.head? == some '.' && rest.tail.head?.any Char.isDigit then
    .ok (.floatLiteral (digits ++ '.' :: rest.tail.takeWhile Char.isDigit), rest.tail.dropWhile Char.isDigit)
  else if digitsValue digits < 2 ^ 63 then .ok (.integerLiteral (digitsValue digits), rest)
  else .error (.invalidNumericLiteral digits start)

def lexString (value : Text) : Text → Option (Text × Text)
  | [] => none
  | '\'' :: '\'' :: rest => lexString (value ++ ['\'']) rest
  | '\'' :: rest => some (value, rest)
  | c :: rest => lexString (value ++ [c]) rest

def lexDollar (input : Text) (start : Nat) : Except SqlError (TokenKind × Text) :=
  let digits := input.takeWhile Char.isDigit
  if digits.isEmpty || digitsValue digits ≥ 2 ^ 32 || digitsValue digits == 0 then
    .error (.invalidParameter ('$' :: digits) start)
  else .ok (.parameter (digitsValue digits), input.dropWhile Char.isDigit)

def keywords : List (Text × TokenKind) :=
  [("SELECT".toList, .select), ("FROM".toList, .from_), ("WHERE".toList, .where_),
    ("INSERT".toList, .insert), ("INTO".toList, .into), ("VALUES".toList, .values), ("AS".toList, .as_),
    ("CREATE".toList, .create), ("TABLE".toList, .table), ("INDEX".toList, .index), ("ON".toList, .on),
    ("AND".toList, .and), ("OR".toList, .or), ("NOT".toList, .not), ("IS".toList, .is), ("NULL".toList, .null),
    ("TRUE".toList, .true_), ("FALSE".toList, .false_), ("BEGIN".toList, .begin), ("START".toList, .start),
    ("TRANSACTION".toList, .transaction), ("COMMIT".toList, .commit), ("ROLLBACK".toList, .rollback),
    ("EXPLAIN".toList, .explain)]

def wordKind (word : Text) : TokenKind :=
  (keywords.lookup word.toAsciiUppercase).getD (.identifier word)

def lexIdentOrKeyword (input : Text) : TokenKind × Text :=
  (wordKind (input.takeWhile isWordChar), input.dropWhile isWordChar)

def lexPunct (c : Char) (rest : Text) (start : Nat) : Except SqlError (TokenKind × Text) :=
  match c, rest with
  | ',', _ => .ok (.comma, rest)
  | ';', _ => .ok (.semicolon, rest)
  | '(', _ => .ok (.lParen, rest)
  | ')', _ => .ok (.rParen, rest)
  | '*', _ => .ok (.star, rest)
  | '.', _ => .ok (.dot, rest)
  | '+', _ => .ok (.plus, rest)
  | '-', _ => .ok (.minus, rest)
  | '/', _ => .ok (.slash, rest)
  | '=', _ => .ok (.eq, rest)
  | '<', '=' :: rest => .ok (.ltEq, rest)
  | '<', '>' :: rest => .ok (.notEq, rest)
  | '<', _ => .ok (.lt, rest)
  | '>', '=' :: rest => .ok (.gtEq, rest)
  | '>', _ => .ok (.gt, rest)
  | '!', '=' :: rest => .ok (.notEq, rest)
  | _, _ => .error (.unexpectedChar c start)

def lexToken (c : Char) (rest : Text) (start : Nat) : Except SqlError (TokenKind × Text) :=
  if c.isDigit then lexNumber (c :: rest) start
  else if c == '\'' then
    match lexString [] rest with
    | some (value, after) => .ok (.stringLiteral value, after)
    | none => .error (.unterminatedString start)
  else if c == '$' then lexDollar rest start
  else if isWordStart c then .ok (lexIdentOrKeyword (c :: rest))
  else lexPunct c rest start

/-- The tokens of `input`, a suffix of a text of `size` bytes; `fuel` above the length never runs out. -/
def tokenizeFrom (size : Nat) : Nat → Text → Except SqlError (List Token)
  | 0, _ => .ok []
  | fuel + 1, input =>
    match skipTrivia false input with
    | [] => .ok [{ kind := .eof, offset := size }]
    | c :: rest => do
        let start := size - Text.byteLength (c :: rest)
        let (kind, after) ← lexToken c rest start
        let tokens ← tokenizeFrom size fuel after
        return { kind, offset := start } :: tokens

def tokenize (input : Text) : Except SqlError (List Token) :=
  tokenizeFrom input.byteLength (input.length + 1) input

end SimpleRdbms.Sql
