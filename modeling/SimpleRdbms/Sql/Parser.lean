import SimpleRdbms.Sql.Lexer
import SimpleRdbms.Types.Value

/-!
# The parser

The loops and the descent take `fuel`: a loop consumes a token in each round, and an expression descends through eight
levels before it consumes one.
-/

namespace SimpleRdbms.Sql

inductive SessionContextName where
  | currentCatalog | currentSchema | currentUser | sessionUser | version
deriving DecidableEq, Repr

namespace SessionContextName

def keyword (word : Text) : Option SessionContextName :=
  if word.eqIgnoreAsciiCase "current_catalog".toList then some .currentCatalog
  else if word.eqIgnoreAsciiCase "current_schema".toList then some .currentSchema
  else if word.eqIgnoreAsciiCase "current_user".toList || word.eqIgnoreAsciiCase "user".toList then
    some .currentUser
  else if word.eqIgnoreAsciiCase "session_user".toList then some .sessionUser
  else none

def function (word : Text) : Option SessionContextName :=
  if word.eqIgnoreAsciiCase "current_database".toList then some .currentCatalog
  else if word.eqIgnoreAsciiCase "version".toList then some .version
  else keyword word

def columnName : SessionContextName → Text
  | .currentCatalog => "current_catalog".toList
  | .currentSchema => "current_schema".toList
  | .currentUser => "current_user".toList
  | .sessionUser => "session_user".toList
  | .version => "version".toList

end SessionContextName

inductive BinaryOperator where
  | eq | notEq | lt | ltEq | gt | gtEq | and | or | plus | minus | multiply | divide
deriving DecidableEq, Repr

inductive UnaryOperator where
  | not | negate
deriving DecidableEq, Repr

inductive Expr where
  | literal (value : Value)
  | sessionContext (name : SessionContextName)
  | column (table : Option Text) (name : Text)
  | binaryOp (left : Expr) (op : BinaryOperator) (right : Expr)
  | unaryOp (op : UnaryOperator) (expr : Expr)
  | isNull (expr : Expr) (negated : Bool)
  | parameter (index : Nat)
deriving DecidableEq, Repr

structure TableRef where
  name : Text
  «alias» : Option Text
deriving DecidableEq, Repr

inductive SelectItem where
  | wildcard
  | expr (expr : Expr)
deriving DecidableEq, Repr

structure SelectStatement where
  items : List SelectItem
  fromTable : Option TableRef
  whereClause : Option Expr
deriving DecidableEq, Repr

structure InsertStatement where
  table : Text
  columns : List Text
  values : List (List Expr)
deriving DecidableEq, Repr

structure ColumnDef where
  name : Text
  dataType : DataType
  nullable : Bool
deriving DecidableEq, Repr

structure CreateTableStatement where
  table : Text
  columns : List ColumnDef
deriving DecidableEq, Repr

structure CreateIndexStatement where
  indexName : Text
  table : Text
  column : Text
deriving DecidableEq, Repr

inductive Statement where
  | select (statement : SelectStatement)
  | insert (statement : InsertStatement)
  | createTable (statement : CreateTableStatement)
  | createIndex (statement : CreateIndexStatement)
  | begin
  | commit
  | rollback
  | explain (verbose : Bool) (inner : Statement)
deriving DecidableEq, Repr

structure Parser where
  current : Token
  following : List Token

def Parser.advance (p : Parser) : Parser :=
  match p.following with
  | [] => p
  | next :: rest => { current := next, following := rest }

abbrev ParseM := StateT Parser (Except SqlError)

namespace Parser

def kind : ParseM TokenKind := return (← get).current.kind

def offset : ParseM Nat := return (← get).current.offset

def next : ParseM Unit := modify advance

def unexpected {α : Type} (expected : String) : ParseM α := do
  let token := (← get).current
  if token.kind = .eof then throw (.unexpectedEof expected)
  else throw (.unexpectedToken expected token.kind token.offset)

def expectKind (expected : TokenKind) (name : String) : ParseM Unit := do
  if (← kind) = expected then next else unexpected name

def expectIdentifier : ParseM Text := do
  match ← kind with
  | .identifier name =>
    next
    return name
  | _ => unexpected "an identifier"

def consume (token : TokenKind) : ParseM Bool := do
  if (← kind) = token then
    next
    return true
  else return false

def commaLoop {α : Type} (item : ParseM α) : Nat → List α → ParseM (List α)
  | 0, _ => unexpected "the end of the list"
  | fuel + 1, items => do
      if ← consume .comma then commaLoop item fuel (items ++ [← item])
      else return items

def commaSeparated {α : Type} (item : ParseM α) : ParseM (List α) := do
  let first ← item
  commaLoop item ((← get).following.length + 1) [first]

def binaryLoop (operator : TokenKind → Option BinaryOperator) (operand : ParseM Expr) :
    Nat → Expr → ParseM Expr
  | 0, _ => unexpected "the end of the expression"
  | fuel + 1, left => do
      match operator (← kind) with
      | some op =>
        next
        let right ← operand
        binaryLoop operator operand fuel (.binaryOp left op right)
      | none => return left

def orOperator : TokenKind → Option BinaryOperator
  | .or => some .or
  | _ => none

def andOperator : TokenKind → Option BinaryOperator
  | .and => some .and
  | _ => none

def comparisonOperator : TokenKind → Option BinaryOperator
  | .eq => some .eq
  | .notEq => some .notEq
  | .lt => some .lt
  | .ltEq => some .ltEq
  | .gt => some .gt
  | .gtEq => some .gtEq
  | _ => none

def isNullLoop : Nat → Expr → ParseM Expr
  | 0, _ => unexpected "the end of the expression"
  | fuel + 1, expr => do
      if ← consume .is then
        let negated ← consume .not
        expectKind .null "NULL"
        isNullLoop fuel (.isNull expr negated)
      else return expr

def consumeEmptyArgumentList (name : Text) (start : Nat) : ParseM Unit := do
  next
  if (← kind) = .rParen then next else throw (.undefinedFunction name start)

def decimalValue (digits : Text) : Double :=
  let whole := digits.takeWhile Char.isDigit
  let decimals := (digits.dropWhile Char.isDigit).tail
  Double.ofRatio (digitsValue (whole ++ decimals)) (10 ^ decimals.length)

def parseName (name : Text) (start : Nat) : ParseM Expr := do
  match ← kind with
  | .dot =>
    next
    return .column (some name) (← expectIdentifier)
  | .lParen =>
    match SessionContextName.function name with
    | none => throw (.undefinedFunction name start)
    | some sessionName =>
      consumeEmptyArgumentList name start
      return .sessionContext sessionName
  | _ =>
    match SessionContextName.keyword name with
    | some sessionName => return .sessionContext sessionName
    | none => return .column none name

mutual

def parseOr : Nat → ParseM Expr
  | 0 => unexpected "an expression"
  | fuel + 1 => do binaryLoop orOperator (parseAnd fuel) (fuel + 1) (← parseAnd fuel)

def parseAnd : Nat → ParseM Expr
  | 0 => unexpected "an expression"
  | fuel + 1 => do binaryLoop andOperator (parseNot fuel) (fuel + 1) (← parseNot fuel)

def parseNot : Nat → ParseM Expr
  | 0 => unexpected "an expression"
  | fuel + 1 => do
      if ← consume .not then return .unaryOp .not (← parseNot fuel)
      else parseIsNull fuel

def parseIsNull : Nat → ParseM Expr
  | 0 => unexpected "an expression"
  | fuel + 1 => do isNullLoop (fuel + 1) (← parseComparison fuel)

def parseComparison : Nat → ParseM Expr
  | 0 => unexpected "an expression"
  | fuel + 1 => do binaryLoop comparisonOperator (parseUnary fuel) (fuel + 1) (← parseUnary fuel)

def parseUnary : Nat → ParseM Expr
  | 0 => unexpected "an expression"
  | fuel + 1 => do
      if ← consume .minus then return .unaryOp .negate (← parseUnary fuel)
      else parsePrimary fuel

def parsePrimary : Nat → ParseM Expr
  | 0 => unexpected "an expression"
  | fuel + 1 => do
      let start ← offset
      match ← kind with
      | .integerLiteral value => next; return .literal (.bigInt (Int64.ofInt value))
      | .floatLiteral digits => next; return .literal (.double (decimalValue digits))
      | .stringLiteral value => next; return .literal (.varchar value)
      | .true_ => next; return .literal (.boolean true)
      | .false_ => next; return .literal (.boolean false)
      | .null => next; return .literal .null
      | .parameter index => next; return .parameter index
      | .identifier name => next; parseName name start
      | .lParen =>
        next
        let expr ← parseOr fuel
        expectKind .rParen ")"
        return expr
      | _ => unexpected "an expression"

end

def parseExpr : ParseM Expr := do parseOr (8 * ((← get).following.length + 2))

def reservedWords : List Text :=
  ["ORDER".toList, "BY".toList, "GROUP".toList, "HAVING".toList, "LIMIT".toList, "OFFSET".toList, "JOIN".toList,
    "INNER".toList, "LEFT".toList, "RIGHT".toList, "FULL".toList, "OUTER".toList, "CROSS".toList, "ON".toList,
    "USING".toList, "UNION".toList, "INTERSECT".toList, "EXCEPT".toList, "RETURNING".toList, "SET".toList,
    "WHERE".toList, "FROM".toList]

def isReservedWord (word : Text) : Bool := reservedWords.any word.eqIgnoreAsciiCase

def parseOptionalTableAlias : ParseM (Option Text) := do
  match ← kind with
  | .as_ =>
    next
    return some (← expectIdentifier)
  | .identifier name =>
    if isReservedWord name then return none
    else
      next
      return some name
  | _ => return none

def parseTableRef : ParseM TableRef := do
  let name ← expectIdentifier
  return { name, «alias» := ← parseOptionalTableAlias }

def parseSelectList : ParseM (List SelectItem) := do
  if ← consume .star then return [.wildcard]
  else commaSeparated (SelectItem.expr <$> parseExpr)

def parseFromClause (items : List SelectItem) (listOffset : Nat) : ParseM (Option TableRef) := do
  if ← consume .from_ then some <$> parseTableRef
  else if items.any (· = .wildcard) then throw (.wildcardWithoutFrom listOffset)
  else pure none

def parseWhereClause : ParseM (Option Expr) := do
  if ← consume .where_ then some <$> parseExpr else pure none

def parseSelect : ParseM SelectStatement := do
  expectKind .select "SELECT"
  let listOffset ← offset
  let items ← parseSelectList
  let fromTable ← parseFromClause items listOffset
  let whereClause ← parseWhereClause
  return { items, fromTable, whereClause }

def parseValueRow : ParseM (List Expr) := do
  expectKind .lParen "("
  let exprs ← commaSeparated parseExpr
  expectKind .rParen ")"
  return exprs

def parseInsert : ParseM InsertStatement := do
  expectKind .insert "INSERT"
  expectKind .into "INTO"
  let table ← expectIdentifier
  let columns ←
    if ← consume .lParen then do
      let columns ← commaSeparated expectIdentifier
      expectKind .rParen ")"
      pure columns
    else pure []
  expectKind .values "VALUES"
  return { table, columns, values := ← commaSeparated parseValueRow }

def typeNames : List (Text × DataType) :=
  [("INTEGER".toList, .integer), ("INT".toList, .integer), ("BIGINT".toList, .bigInt),
    ("DOUBLE".toList, .double), ("TEXT".toList, .varchar (2 ^ 32 - 1)), ("BOOLEAN".toList, .boolean)]

def parseTypeName : ParseM DataType := do
  match ← kind with
  | .identifier name =>
    match typeNames.lookup name.toAsciiUppercase with
    | some dataType =>
      next
      return dataType
    | none => unexpected "INTEGER, INT, BIGINT, DOUBLE, TEXT, or BOOLEAN"
  | _ => unexpected "INTEGER, INT, BIGINT, DOUBLE, TEXT, or BOOLEAN"

def parseColDef : ParseM ColumnDef := do
  let name ← expectIdentifier
  return { name, dataType := ← parseTypeName, nullable := true }

def parseCreateTable : ParseM CreateTableStatement := do
  expectKind .create "CREATE"
  expectKind .table "TABLE"
  let table ← expectIdentifier
  expectKind .lParen "("
  let columns ← commaSeparated parseColDef
  expectKind .rParen ")"
  return { table, columns }

def parseCreateIndex : ParseM CreateIndexStatement := do
  expectKind .create "CREATE"
  expectKind .index "INDEX"
  let indexName ← expectIdentifier
  expectKind .on "ON"
  let table ← expectIdentifier
  expectKind .lParen "("
  let column ← expectIdentifier
  expectKind .rParen ")"
  return { indexName, table, column }

def peekKind : ParseM TokenKind := do
  let p ← get
  return (p.following.head?.getD p.current).kind

def consumeVerboseKeyword : ParseM Bool := do
  match ← kind with
  | .identifier name =>
    if name.eqIgnoreAsciiCase "VERBOSE".toList then
      next
      return true
    else return false
  | _ => return false

def parseStatement : Nat → ParseM Statement
  | 0 => unexpected "a statement"
  | fuel + 1 => do
      match ← kind with
      | .select => .select <$> parseSelect
      | .insert => .insert <$> parseInsert
      | .create =>
        match ← peekKind with
        | .index => .createIndex <$> parseCreateIndex
        | _ => .createTable <$> parseCreateTable
      | .begin => next; return .begin
      | .start =>
        next
        expectKind .transaction "TRANSACTION"
        return .begin
      | .commit => next; return .commit
      | .rollback => next; return .rollback
      | .explain => do
          let explainOffset ← offset
          expectKind .explain "EXPLAIN"
          let verbose ← consumeVerboseKeyword
          match ← parseStatement fuel with
          | .begin | .commit | .rollback => throw (.explainOfTransactionControl explainOffset)
          | .explain .. => throw (.nestedExplain explainOffset)
          | inner => return .explain verbose inner
      | _ => unexpected "SELECT, INSERT, CREATE, BEGIN, START, COMMIT, ROLLBACK, or EXPLAIN"

def parseAll : ParseM Statement := do
  let statement ← parseStatement ((← get).following.length + 1)
  let _ ← consume .semicolon
  match ← kind with
  | .eof => return statement
  | _ => unexpected "end of statement"

end Parser

/-- The lexer never returns an empty list, on which the source's parser would stop the program. -/
def parse : List Token → Except SqlError Statement
  | [] => .error (.unexpectedEof "a statement")
  | current :: following => return (← Parser.parseAll.run { current, following }).1

def parseSql (sql : Text) : Except SqlError Statement := do parse (← tokenize sql)

end SimpleRdbms.Sql
