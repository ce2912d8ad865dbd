import SimpleRdbms.Planner.Binder

namespace SimpleRdbms.Planner
open SimpleRdbms.Sql

def scanExpr : Expr → Nat
  | .parameter index => index
  | .literal _ | .column .. | .sessionContext _ => 0
  | .unaryOp _ expr => scanExpr expr
  | .isNull expr _ => scanExpr expr
  | .binaryOp left _ right => max (scanExpr left) (scanExpr right)

def scanItem : SelectItem → Nat
  | .wildcard => 0
  | .expr expr => scanExpr expr

def maxParameterIndex : Statement → Nat
  | .select query => max ((query.items.map scanItem).foldl max 0) ((query.whereClause.map scanExpr).getD 0)
  | .insert insert => (insert.values.flatten.map scanExpr).foldl max 0
  | .createTable _ | .createIndex _ => 0
  | .explain _ inner => maxParameterIndex inner
  | .begin | .commit | .rollback => 0

def substituteExpr (values : List Value) : Expr → Expr
  | .parameter index => .literal (values.getD (index - 1) .null)
  | .literal value => .literal value
  | .sessionContext name => .sessionContext name
  | .column table name => .column table name
  | .binaryOp left op right => .binaryOp (substituteExpr values left) op (substituteExpr values right)
  | .unaryOp op expr => .unaryOp op (substituteExpr values expr)
  | .isNull expr negated => .isNull (substituteExpr values expr) negated

def substituteItem (values : List Value) : SelectItem → SelectItem
  | .wildcard => .wildcard
  | .expr expr => .expr (substituteExpr values expr)

def substituteSelect (query : SelectStatement) (values : List Value) : SelectStatement :=
  { query with
    items := query.items.map (substituteItem values)
    whereClause := query.whereClause.map (substituteExpr values) }

def substituteInsert (insert : InsertStatement) (values : List Value) : InsertStatement :=
  { insert with values := insert.values.map (·.map (substituteExpr values)) }

def substituteStatement (values : List Value) : Statement → Statement
  | .select query => .select (substituteSelect query values)
  | .insert insert => .insert (substituteInsert insert values)
  | .createTable create => .createTable create
  | .createIndex create => .createIndex create
  | .explain verbose inner => .explain verbose (substituteStatement values inner)
  | .begin => .begin
  | .commit => .commit
  | .rollback => .rollback

def substituteParameters (statement : Statement) (values : List Value) : Except PlannerError Statement :=
  if maxParameterIndex statement ≠ values.length then
    .error (.parameterCountMismatch (maxParameterIndex statement) values.length)
  else .ok (substituteStatement values statement)

end SimpleRdbms.Planner
