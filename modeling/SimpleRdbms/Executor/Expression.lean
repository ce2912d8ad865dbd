import SimpleRdbms.Planner.Binder

/-!
# The evaluator

Negation wraps around at the least integer of a type, as a release build of the source does (a debug build stops
there).
-/

namespace SimpleRdbms.Executor
open SimpleRdbms.Sql SimpleRdbms.Planner

inductive ExecutorError where
  | columnOutOfBounds (index columns : Nat)
  | notBooleanOperand (operand : Value)
  | notNumericOperand (operand : Value)
  | connectiveOperand (operand : Value)
  | comparison (err : ValueError)
  | notSupported
deriving DecidableEq, Repr

def evaluateUnary (op : UnaryOperator) (operand : Value) : Except ExecutorError Value :=
  match op, operand with
  | _, .null => .ok .null
  | .not, .boolean value => .ok (.boolean !value)
  | .not, other => .error (.notBooleanOperand other)
  | .negate, .integer value => .ok (.integer (-value))
  | .negate, .bigInt value => .ok (.bigInt (-value))
  | .negate, .double value => .ok (.double value.neg)
  | .negate, other => .error (.notNumericOperand other)

def matchesComparison (op : BinaryOperator) (ordering : Ordering) : Bool :=
  match op with
  | .eq => ordering == .eq
  | .notEq => ordering != .eq
  | .lt => ordering == .lt
  | .ltEq => ordering != .gt
  | .gt => ordering == .gt
  | .gtEq => ordering != .lt
  | _ => false

def asBool : Value → Except ExecutorError (Option Bool)
  | .null => .ok none
  | .boolean value => .ok (some value)
  | other => .error (.connectiveOperand other)

def andValue : Option Bool → Option Bool → Value
  | some false, _ | _, some false => .boolean false
  | some true, some true => .boolean true
  | _, _ => .null

def orValue : Option Bool → Option Bool → Value
  | some true, _ | _, some true => .boolean true
  | some false, some false => .boolean false
  | _, _ => .null

def threeValuedAnd (left right : Value) : Except ExecutorError Value := do
  return andValue (← asBool left) (← asBool right)

def threeValuedOr (left right : Value) : Except ExecutorError Value := do
  return orValue (← asBool left) (← asBool right)

def evaluateBinary (op : BinaryOperator) (left right : Value) : Except ExecutorError Value :=
  match op with
  | .and => threeValuedAnd left right
  | .or => threeValuedOr left right
  | .eq | .notEq | .lt | .ltEq | .gt | .gtEq =>
    match left.compare right with
    | .error err => .error (.comparison err)
    | .ok none => .ok .null
    | .ok (some ordering) => .ok (.boolean (matchesComparison op ordering))
  | .plus | .minus | .multiply | .divide => .error .notSupported

/-- Both operands are evaluated, also where the first decides; arithmetic fails before it evaluates any. -/
def evaluate (tuple : Tuple) : BoundExpr → Except ExecutorError Value
  | .literal value => .ok value
  | .sessionContext _ value => .ok value
  | .columnRef index _ =>
    match tuple[index]? with
    | some value => .ok value
    | none => .error (.columnOutOfBounds index tuple.length)
  | .unaryOp op expr _ => do evaluateUnary op (← evaluate tuple expr)
  | .binaryOp left op right _ =>
    match op with
    | .plus | .minus | .multiply | .divide => .error .notSupported
    | op => do
        let left ← evaluate tuple left
        let right ← evaluate tuple right
        evaluateBinary op left right
  | .isNull expr negated => do
      let value ← evaluate tuple expr
      return .boolean (value.isNull != negated)

end SimpleRdbms.Executor
