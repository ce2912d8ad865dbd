import SimpleRdbms.Catalog.Catalog
import SimpleRdbms.Sql.Parser

/-!
# The binder

The static type of an expression is unknown only for a NULL literal.
-/

namespace SimpleRdbms.Planner
open SimpleRdbms.Sql

inductive PlannerError where
  | unknownTable (name : Text)
  | unknownColumn (name : Text)
  | undefinedParameter (index : Nat)
  | columnCountMismatch (expected found : Nat)
  | parameterCountMismatch (expected found : Nat)
  | typeMismatch (detail : String)
  | literalOutOfRange (column : Text) (value : Int) (dataType : DataType)
  /-- The source stops the program: these statements are never bound. -/
  | transactionControl
deriving DecidableEq, Repr

inductive BoundExpr where
  | literal (value : Value)
  | columnRef (index : Nat) (dataType : DataType)
  | binaryOp (left : BoundExpr) (op : BinaryOperator) (right : BoundExpr) (dataType : DataType)
  | unaryOp (op : UnaryOperator) (expr : BoundExpr) (dataType : DataType)
  | isNull (expr : BoundExpr) (negated : Bool)
  | sessionContext (name : SessionContextName) (value : Value)
deriving DecidableEq, Repr

structure BoundSelect where
  tableId : Option Nat
  projections : List BoundExpr
  columnNames : List Text
  columnTypes : List (Option DataType)
  predicate : Option BoundExpr
deriving DecidableEq, Repr

structure BoundInsert where
  tableId : Nat
  rows : List (List BoundExpr)
deriving DecidableEq, Repr

structure BoundCreateTable where
  tableName : Text
  columns : List Column
deriving DecidableEq, Repr

structure BoundCreateIndex where
  indexName : Text
  tableId : Nat
  columnIndex : Nat
deriving DecidableEq, Repr

structure SessionContext where
  database : Text
  schema : Text
  user : Text
  serverVersion : Text
deriving DecidableEq, Repr

def SessionContext.valueOf (session : SessionContext) : SessionContextName → Value
  | .currentCatalog => .varchar session.database
  | .currentSchema => .varchar session.schema
  | .currentUser | .sessionUser => .varchar session.user
  | .version => .varchar session.serverVersion

def typeText : DataType → String
  | .boolean => "Boolean"
  | .integer => "Integer"
  | .bigInt => "BigInt"
  | .double => "Double"
  | .varchar length => "Varchar(" ++ toString length ++ ")"

def isNumeric : DataType → Bool
  | .integer | .bigInt | .double => true
  | _ => false

def dataTypesMatch : DataType → DataType → Bool
  | .varchar _, .varchar _ => true
  | a, b => a == b

def coerceLiteralToColumn (value : Value) (target : DataType) (column : Text) : Except PlannerError Value :=
  match value, target with
  | .bigInt number, .integer =>
    if -2147483648 ≤ number.toInt ∧ number.toInt < 2147483648 then .ok (.integer (Int32.ofInt number.toInt))
    else .error (.literalOutOfRange column number.toInt target)
  | value, _ => .ok value

abbrev Typed := BoundExpr × Option DataType

def columnName (schema : Schema) (index : Nat) : Text := ((schema.columns[index]?).map Column.name).getD []

def coerceComparisonOperands (left right : Typed) (schema : Schema) : Except PlannerError (Typed × Typed) :=
  match left, right with
  | (.literal value, _), (.columnRef index dataType, rightType) => do
      let coerced ← coerceLiteralToColumn value dataType (columnName schema index)
      return ((.literal coerced, coerced.dataType), (.columnRef index dataType, rightType))
  | (.columnRef index dataType, leftType), (.literal value, _) => do
      let coerced ← coerceLiteralToColumn value dataType (columnName schema index)
      return ((.columnRef index dataType, leftType), (.literal coerced, coerced.dataType))
  | left, right => .ok (left, right)

def bindUnaryOp (op : UnaryOperator) (operand : Typed) : Except PlannerError Typed :=
  match op, operand.2 with
  | .not, some .boolean | .not, none => .ok (.unaryOp op operand.1 .boolean, some .boolean)
  | .not, some dataType =>
    .error (.typeMismatch ("NOT requires a Boolean operand, found " ++ typeText dataType))
  | .negate, none => .error (.typeMismatch "unary - requires a numeric operand, found NULL")
  | .negate, some dataType =>
    if isNumeric dataType then .ok (.unaryOp op operand.1 dataType, some dataType)
    else .error (.typeMismatch ("unary - requires a numeric operand, found " ++ typeText dataType))

def nonBoolean (left right : Option DataType) : Option DataType :=
  ([left, right].filterMap id).find? (· != .boolean)

def connectiveText : BinaryOperator → String
  | .and => "And"
  | _ => "Or"

def bindBinaryOp (op : BinaryOperator) (left right : Typed) (schema : Schema) : Except PlannerError Typed := do
  let (left, right) ← coerceComparisonOperands left right schema
  match op with
  | .and | .or =>
    match nonBoolean left.2 right.2 with
    | some dataType =>
      throw (.typeMismatch (connectiveText op ++ " requires Boolean operands, found " ++ typeText dataType))
    | none => return (.binaryOp left.1 op right.1 .boolean, some .boolean)
  | .eq | .notEq | .lt | .ltEq | .gt | .gtEq =>
    match left.2, right.2 with
    | some leftType, some rightType =>
      if dataTypesMatch leftType rightType then return (.binaryOp left.1 op right.1 .boolean, some .boolean)
      else throw (.typeMismatch ("cannot compare " ++ typeText leftType ++ " with " ++ typeText rightType))
    | _, _ => return (.binaryOp left.1 op right.1 .boolean, some .boolean)
  | .plus | .minus | .multiply | .divide =>
    throw (.typeMismatch "arithmetic operators are not supported")

structure Binder where
  catalog : Catalog
  session : SessionContext

namespace Binder

def table (binder : Binder) (name : Text) : Except PlannerError TableInfo :=
  match binder.catalog.getTable name with
  | .ok info => .ok info
  | .error _ => .error (.unknownTable name)

def checkQualifier (scope : Option Text) : Option Text → Except PlannerError Unit
  | none => .ok ()
  | some qualifier => if scope = some qualifier then .ok () else .error (.unknownTable qualifier)

def resolveColumn (schema : Schema) (name : Text) : Except PlannerError Typed :=
  match schema.columnIndex name with
  | none => .error (.unknownColumn name)
  | some index =>
    match schema.columns[index]? with
    | none => .error (.unknownColumn name)
    | some column => .ok (.columnRef index column.dataType, some column.dataType)

def bindColumn (schema : Schema) (scope qualifier : Option Text) (name : Text) : Except PlannerError Typed := do
  checkQualifier scope qualifier
  resolveColumn schema name

def bindExpr (binder : Binder) (schema : Schema) (scope : Option Text) : Expr → Except PlannerError Typed
  | .literal value => .ok (.literal value, value.dataType)
  | .sessionContext name =>
    .ok (.sessionContext name (binder.session.valueOf name), (binder.session.valueOf name).dataType)
  | .column qualifier name => bindColumn schema scope qualifier name
  | .unaryOp op expr => do bindUnaryOp op (← bindExpr binder schema scope expr)
  | .binaryOp left op right => do
      let left ← bindExpr binder schema scope left
      let right ← bindExpr binder schema scope right
      bindBinaryOp op left right schema
  | .isNull expr negated => do
      let (bound, _) ← bindExpr binder schema scope expr
      return (.isNull bound negated, some .boolean)
  | .parameter index => .error (.undefinedParameter index)

def itemName (count : Nat) : Expr → Text
  | .column _ name => name
  | .sessionContext name => name.columnName
  | _ => "column".toList ++ (toString (count + 1)).toList

structure BoundColumn where
  expr : BoundExpr
  name : Text
  dataType : Option DataType

def bindItem (binder : Binder) (schema : Schema) (scope : Option Text) (count : Nat) :
    SelectItem → Except PlannerError (List BoundColumn)
  | .wildcard => .ok (schema.columns.mapIdx fun index column =>
    ⟨.columnRef index column.dataType, column.name, some column.dataType⟩)
  | .expr expr => do
      let (bound, dataType) ← binder.bindExpr schema scope expr
      return [⟨bound, itemName count expr, dataType⟩]

def bindItems (binder : Binder) (schema : Schema) (scope : Option Text) :
    Nat → List SelectItem → Except PlannerError (List BoundColumn)
  | _, [] => .ok []
  | count, item :: rest => do
      let columns ← binder.bindItem schema scope count item
      return columns ++ (← bindItems binder schema scope (count + columns.length) rest)

def bindPredicate (binder : Binder) (schema : Schema) (scope : Option Text) (expr : Expr) :
    Except PlannerError BoundExpr := do
  let (bound, dataType) ← binder.bindExpr schema scope expr
  match dataType with
  | none | some .boolean => return bound
  | some dataType => throw (.typeMismatch ("WHERE clause must be Boolean, found " ++ typeText dataType))

def fromTable (binder : Binder) : Option TableRef → Except PlannerError (Option TableInfo)
  | none => .ok none
  | some ref => some <$> binder.table ref.name

def schemaOf (table : Option TableInfo) : Schema := (table.map TableInfo.schema).getD ⟨[]⟩

def scopeOf (ref : Option TableRef) : Option Text := ref.map fun ref => ref.alias.getD ref.name

def bindSelect (binder : Binder) (query : SelectStatement) : Except PlannerError BoundSelect := do
  let table ← binder.fromTable query.fromTable
  let columns ← binder.bindItems (schemaOf table) (scopeOf query.fromTable) 0 query.items
  let predicate ← query.whereClause.mapM (binder.bindPredicate (schemaOf table) (scopeOf query.fromTable))
  return {
    tableId := table.map TableInfo.tableId
    projections := columns.map BoundColumn.expr
    columnNames := columns.map BoundColumn.name
    columnTypes := columns.map BoundColumn.dataType
    predicate }

def targetIndex (schema : Schema) (name : Text) : Except PlannerError Nat :=
  match schema.columnIndex name with
  | some index => .ok index
  | none => .error (.unknownColumn name)

def targetIndices (schema : Schema) (columns : List Text) : Except PlannerError (List Nat) :=
  if columns.isEmpty then .ok (List.range schema.columns.length) else columns.mapM (targetIndex schema)

def coerceToColumn (bound : Typed) (column : Column) : Except PlannerError Typed :=
  match bound with
  | (.literal value, _) => do
      let coerced ← coerceLiteralToColumn value column.dataType column.name
      return (.literal coerced, coerced.dataType)
  | other => .ok other

def bindValue (binder : Binder) (column : Column) (expr : Expr) : Except PlannerError BoundExpr := do
  let (bound, dataType) ← coerceToColumn (← binder.bindExpr ⟨[]⟩ none expr) column
  match dataType with
  | none => return bound
  | some dataType =>
    if dataTypesMatch dataType column.dataType then return bound
    else throw (.typeMismatch ("column " ++ String.ofList column.name ++ " expects " ++ typeText column.dataType ++
      ", found " ++ typeText dataType))

def bindValues (binder : Binder) (schema : Schema) :
    List BoundExpr → List (Expr × Nat) → Except PlannerError (List BoundExpr)
  | row, [] => .ok row
  | row, (expr, index) :: rest =>
    match schema.columns[index]? with
    | none => .error (.unknownColumn [])
    | some column => do bindValues binder schema (row.set index (← binder.bindValue column expr)) rest

def bindRow (binder : Binder) (schema : Schema) (targets : List Nat) (row : List Expr) :
    Except PlannerError (List BoundExpr) :=
  if row.length ≠ targets.length then .error (.columnCountMismatch targets.length row.length)
  else binder.bindValues schema (List.replicate schema.columns.length (.literal .null)) (row.zip targets)

def bindInsert (binder : Binder) (insert : InsertStatement) : Except PlannerError BoundInsert := do
  let table ← binder.table insert.table
  let targets ← targetIndices table.schema insert.columns
  let rows ← insert.values.mapM (binder.bindRow table.schema targets)
  return { tableId := table.tableId, rows }

end Binder

end SimpleRdbms.Planner
