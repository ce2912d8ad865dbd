import SimpleRdbms.Planner.Binder
import SimpleRdbms.Types.Memcomparable

namespace SimpleRdbms.Planner
open SimpleRdbms.Sql

/-- Joins, which no statement is planned as, are left out. -/
inductive LogicalPlan where
  | oneRow
  | seqScan (tableId : Nat)
  | indexScan (indexId tableId : Nat) (start stop : Option Bytes)
  | filter (predicate : BoundExpr) (input : LogicalPlan)
  | projection (expressions : List BoundExpr) (input : LogicalPlan)
  | insert (tableId : Nat) (rows : List (List BoundExpr))
  | createTable (create : BoundCreateTable)
  | createIndex (create : BoundCreateIndex)
deriving DecidableEq, Repr

def flattenAndConjuncts : BoundExpr → List BoundExpr
  | .binaryOp left .and right _ => flattenAndConjuncts left ++ flattenAndConjuncts right
  | expr => [expr]

def boundingOperator : BinaryOperator → Bool
  | .eq | .lt | .ltEq | .gt | .gtEq => true
  | _ => false

def columnAndLiteral : BoundExpr → Option (Nat × BinaryOperator × Value)
  | .binaryOp (.columnRef index _) op (.literal value) _ =>
    if boundingOperator op then some (index, op, value) else none
  | _ => none

def successor (bytes : Bytes) : Bytes := bytes ++ [0]

abbrev Bounds := Option Bytes × Option Bytes

def candidateBounds (op : BinaryOperator) (encoded : Bytes) : Bounds :=
  match op with
  | .eq => (some encoded, some (successor encoded))
  | .lt => (none, some encoded)
  | .ltEq => (none, some (successor encoded))
  | .gt => (some (successor encoded), none)
  | .gtEq => (some encoded, none)
  | _ => (none, none)

def raiseStart (start candidate : Option Bytes) : Option Bytes :=
  match candidate with
  | none => start
  | some bytes => some ((start.filter fun current => bytes ≤ current).getD bytes)

def lowerEnd (stop candidate : Option Bytes) : Option Bytes :=
  match candidate with
  | none => stop
  | some bytes => some ((stop.filter fun current => current ≤ bytes).getD bytes)

def tighten (target : Nat) (bounds : Bounds) (conjunct : BoundExpr) : Bounds :=
  match columnAndLiteral conjunct with
  | none => bounds
  | some (column, op, value) =>
    if column ≠ target then bounds
    else
      match value.encodeMemcomparable with
      | .error _ => bounds
      | .ok encoded =>
        (raiseStart bounds.1 (candidateBounds op encoded).1, lowerEnd bounds.2 (candidateBounds op encoded).2)

def targetColumn (catalog : Catalog) (tableId : Nat) (conjuncts : List BoundExpr) : Option (Nat × IndexInfo) :=
  conjuncts.findSome? fun conjunct => do
    let (column, _) ← columnAndLiteral conjunct
    let info ← catalog.indexForColumn tableId column
    return (column, info)

def indexScanBounds (predicate : BoundExpr) (tableId : Nat) (catalog : Catalog) : Option (Nat × Bounds) := do
  let conjuncts := flattenAndConjuncts predicate
  let (target, info) ← targetColumn catalog tableId conjuncts
  return (info.indexId, conjuncts.foldl (tighten target) (none, none))

def applyIndexScan (catalog : Catalog) : LogicalPlan → LogicalPlan
  | .filter predicate (.seqScan tableId) =>
    match indexScanBounds predicate tableId catalog with
    | some (indexId, start, stop) => .filter predicate (.indexScan indexId tableId start stop)
    | none => .filter predicate (.seqScan tableId)
  | other => other

/-- The inputs of a plan first, then the plan itself, with the one rule there is. -/
def optimize (catalog : Catalog) : LogicalPlan → LogicalPlan
  | .filter predicate input => applyIndexScan catalog (.filter predicate (optimize catalog input))
  | .projection expressions input => .projection expressions (optimize catalog input)
  | other => other

end SimpleRdbms.Planner
