import SimpleRdbms.Executor.Expression
import SimpleRdbms.Lib.Results

namespace SimpleRdbms

namespace Planner
open SimpleRdbms.Sql SimpleRdbms.Lib

theorem dataTypesMatch_refl (a : DataType) : dataTypesMatch a a = true := by
  cases a <;> simp [dataTypesMatch]

theorem dataTypesMatch_symm {a b : DataType} (same : dataTypesMatch a b = true) : dataTypesMatch b a = true := by
  cases a <;> cases b <;> simp_all [dataTypesMatch]

theorem dataTypesMatch_trans {a b c : DataType} (first : dataTypesMatch a b = true)
    (second : dataTypesMatch b c = true) : dataTypesMatch a c = true := by
  cases a <;> cases b <;> cases c <;> simp_all [dataTypesMatch]

def BoundExpr.dataType : BoundExpr → Option DataType
  | .literal value => value.dataType
  | .columnRef _ dataType => some dataType
  | .binaryOp _ _ _ dataType => some dataType
  | .unaryOp _ _ dataType => some dataType
  | .isNull _ _ => some .boolean
  | .sessionContext _ value => value.dataType

def isConnective : BinaryOperator → Bool
  | .and | .or => true
  | _ => false

def isComparison : BinaryOperator → Bool
  | .eq | .notEq | .lt | .ltEq | .gt | .gtEq => true
  | _ => false

def Comparable (left right : Option DataType) : Prop := ∀ a ∈ left, ∀ b ∈ right, dataTypesMatch a b = true

inductive WellTyped (schema : Schema) : BoundExpr → Prop where
  | literal (value : Value) : WellTyped schema (.literal value)
  | sessionContext (name : SessionContextName) (value : Value) : WellTyped schema (.sessionContext name value)
  | columnRef {index : Nat} {column : Column} (found : schema.columns[index]? = some column) :
      WellTyped schema (.columnRef index column.dataType)
  | not {expr : BoundExpr} (operand : WellTyped schema expr) (boolean : Comparable expr.dataType (some .boolean)) :
      WellTyped schema (.unaryOp .not expr .boolean)
  | negate {expr : BoundExpr} {dataType : DataType} (operand : WellTyped schema expr)
      (known : expr.dataType = some dataType) (numeric : isNumeric dataType = true) :
      WellTyped schema (.unaryOp .negate expr dataType)
  | connective {left right : BoundExpr} {op : BinaryOperator} (connects : isConnective op = true)
      (leftTyped : WellTyped schema left) (rightTyped : WellTyped schema right)
      (leftBoolean : Comparable left.dataType (some .boolean))
      (rightBoolean : Comparable right.dataType (some .boolean)) :
      WellTyped schema (.binaryOp left op right .boolean)
  | comparison {left right : BoundExpr} {op : BinaryOperator} (compares : isComparison op = true)
      (leftTyped : WellTyped schema left) (rightTyped : WellTyped schema right)
      (comparable : Comparable left.dataType right.dataType) :
      WellTyped schema (.binaryOp left op right .boolean)
  | isNull {expr : BoundExpr} (operand : WellTyped schema expr) (negated : Bool) :
      WellTyped schema (.isNull expr negated)

def Checked (schema : Schema) (typed : Typed) : Prop :=
  WellTyped schema typed.1 ∧ typed.2 = typed.1.dataType

variable {schema : Schema} {binder : Binder} {scope : Option Text}

theorem Checked.literal (value : Value) : Checked schema (.literal value, value.dataType) :=
  ⟨.literal value, rfl⟩

variable {left right typed : Typed} {expr : Expr} {column : Column}

theorem coerceComparisonOperands_checked {operands : Typed × Typed}
    (leftChecked : Checked schema left) (rightChecked : Checked schema right)
    (coerced : coerceComparisonOperands left right schema = .ok operands) :
    Checked schema operands.1 ∧ Checked schema operands.2 := by
  unfold coerceComparisonOperands at coerced
  split at coerced
  · obtain ⟨value, -, same⟩ := bind_eq_ok.mp coerced
    rw [pure_eq_ok] at same
    subst same
    exact ⟨.literal value, rightChecked⟩
  · obtain ⟨value, -, same⟩ := bind_eq_ok.mp coerced
    rw [pure_eq_ok] at same
    subst same
    exact ⟨leftChecked, .literal value⟩
  · cases coerced
    exact ⟨leftChecked, rightChecked⟩

def OperandMatches : UnaryOperator → Option DataType → DataType → Prop
  | .not, operand, dataType => Comparable operand (some .boolean) ∧ dataType = .boolean
  | .negate, operand, dataType => operand = some dataType ∧ isNumeric dataType = true

def OperandsMatch (op : BinaryOperator) (left right : Option DataType) : Prop :=
  isConnective op = true ∧ Comparable left (some .boolean) ∧ Comparable right (some .boolean) ∨
    isComparison op = true ∧ Comparable left right

theorem comparable_boolean {operand : Option DataType} :
    Comparable operand (some .boolean) ↔ operand = none ∨ operand = some .boolean := by
  constructor
  · intro comparable
    cases operand with
    | none => exact .inl rfl
    | some own =>
      have same := comparable own rfl .boolean rfl
      cases own with
      | boolean => exact .inr rfl
      | integer | bigInt | double | varchar _ => simp [dataTypesMatch] at same
  · rintro (rfl | rfl)
    · exact fun a isA => by cases isA
    · exact fun a isA b isB => by cases isA; cases isB; rfl

theorem bindUnaryOp_eq_ok {op : UnaryOperator} {operand : Typed} :
    bindUnaryOp op operand = .ok typed ↔
      ∃ dataType, OperandMatches op operand.2 dataType ∧ (.unaryOp op operand.1 dataType, some dataType) = typed := by
  obtain ⟨expr, known⟩ := operand
  cases op with
  | not =>
    simp only [OperandMatches, comparable_boolean]
    cases known with
    | none => simp [bindUnaryOp]
    | some own => cases own <;> simp [bindUnaryOp]
  | negate =>
    cases known with
    | none => simp [bindUnaryOp, OperandMatches]
    | some own =>
      by_cases numeric : isNumeric own = true
      · simp [bindUnaryOp, OperandMatches, numeric]
      · simp [bindUnaryOp, OperandMatches, numeric]

theorem bindUnaryOp_checked {op : UnaryOperator} {operand : Typed} (checked : Checked schema operand)
    (bound : bindUnaryOp op operand = .ok typed) : Checked schema typed := by
  obtain ⟨wellTyped, isType⟩ := checked
  obtain ⟨dataType, accepted, rfl⟩ := bindUnaryOp_eq_ok.mp bound
  rw [isType] at accepted
  cases op with
  | not =>
    obtain ⟨boolean, rfl⟩ := accepted
    exact ⟨.not wellTyped boolean, rfl⟩
  | negate => exact ⟨.negate wellTyped accepted.1 accepted.2, rfl⟩

theorem nonBoolean_eq_none {left right : Option DataType} :
    nonBoolean left right = none ↔ Comparable left (some .boolean) ∧ Comparable right (some .boolean) := by
  simp only [nonBoolean, List.find?_eq_none, comparable_boolean]
  cases left with
  | none => cases right <;> simp
  | some a => cases right <;> simp

theorem bindBinaryOp_eq_ok {op : BinaryOperator} :
    bindBinaryOp op left right schema = .ok typed ↔
      ∃ operands, coerceComparisonOperands left right schema = .ok operands ∧
        OperandsMatch op operands.1.2 operands.2.2 ∧
        (.binaryOp operands.1.1 op operands.2.1 .boolean, some .boolean) = typed := by
  rw [bindBinaryOp, bind_eq_ok]
  refine exists_congr fun operands => and_congr_right fun _ => ?_
  obtain ⟨⟨first, firstType⟩, second, secondType⟩ := operands
  cases op with
  | and | or =>
    simp only [OperandsMatch, isConnective, isComparison, ← nonBoolean_eq_none, true_and, Bool.false_eq_true, false_and,
      or_false]
    cases nonBoolean firstType secondType with
    | none => simp [pure_eq_ok]
    | some dataType => simp [throw_eq_ok]
  | eq | notEq | lt | ltEq | gt | gtEq =>
    simp only [OperandsMatch, isConnective, isComparison, true_and, Bool.false_eq_true, false_and, false_or]
    cases firstType with
    | none => simp [pure_eq_ok, Comparable]
    | some a =>
      cases secondType with
      | none => simp [pure_eq_ok, Comparable]
      | some b => by_cases same : dataTypesMatch a b = true <;> simp [pure_eq_ok, throw_eq_ok, Comparable, same]
  | plus | minus | multiply | divide => simp [throw_eq_ok, OperandsMatch, isConnective, isComparison]

theorem bindBinaryOp_checked {op : BinaryOperator} (leftChecked : Checked schema left)
    (rightChecked : Checked schema right) (bound : bindBinaryOp op left right schema = .ok typed) :
    Checked schema typed := by
  obtain ⟨⟨first, second⟩, coerced, accepted, rfl⟩ := bindBinaryOp_eq_ok.mp bound
  obtain ⟨⟨leftTyped, leftType⟩, rightTyped, rightType⟩ :=
    coerceComparisonOperands_checked leftChecked rightChecked coerced
  rw [OperandsMatch, leftType, rightType] at accepted
  rcases accepted with ⟨connects, leftBoolean, rightBoolean⟩ | ⟨compares, comparable⟩
  · exact ⟨.connective connects leftTyped rightTyped leftBoolean rightBoolean, rfl⟩
  · exact ⟨.comparison compares leftTyped rightTyped comparable, rfl⟩

theorem resolveColumn_checked {name : Text} (bound : Binder.resolveColumn schema name = .ok typed) :
    Checked schema typed := by
  unfold Binder.resolveColumn at bound
  split at bound
  · cases bound
  · split at bound
    · cases bound
    · rename_i column found
      cases bound
      exact ⟨.columnRef found, rfl⟩

theorem bindExpr_checked (bound : binder.bindExpr schema scope expr = .ok typed) : Checked schema typed := by
  induction expr generalizing typed with
  | literal value =>
    cases bound
    exact .literal value
  | sessionContext name =>
    cases bound
    exact ⟨.sessionContext _ _, rfl⟩
  | column qualifier name =>
    obtain ⟨-, -, bound⟩ := bind_eq_ok.mp bound
    exact resolveColumn_checked bound
  | unaryOp op expr ih =>
    obtain ⟨operand, operandBound, bound⟩ := bind_eq_ok.mp bound
    exact bindUnaryOp_checked (ih operandBound) bound
  | binaryOp left op right leftIh rightIh =>
    obtain ⟨first, leftBound, bound⟩ := bind_eq_ok.mp bound
    obtain ⟨second, rightBound, bound⟩ := bind_eq_ok.mp bound
    exact bindBinaryOp_checked (leftIh leftBound) (rightIh rightBound) bound
  | isNull expr negated ih =>
    obtain ⟨operand, operandBound, bound⟩ := bind_eq_ok.mp bound
    rw [pure_eq_ok] at bound
    subst bound
    exact ⟨.isNull (ih operandBound).1 negated, rfl⟩
  | parameter index => cases bound

theorem bindItem_checked {count : Nat} {item : SelectItem} {columns : List Binder.BoundColumn}
    (bound : binder.bindItem schema scope count item = .ok columns) :
    ∀ column ∈ columns, Checked schema (column.expr, column.dataType) := by
  cases item with
  | wildcard =>
    cases bound
    intro column member
    obtain ⟨index, inside, rfl⟩ := List.mem_mapIdx.mp member
    exact ⟨.columnRef (List.getElem?_eq_getElem inside), rfl⟩
  | expr expr =>
    obtain ⟨typed, exprBound, bound⟩ := bind_eq_ok.mp bound
    rw [pure_eq_ok] at bound
    subst bound
    intro column member
    cases List.mem_singleton.mp member
    exact bindExpr_checked exprBound

theorem bindItems_checked {count : Nat} {items : List SelectItem} {columns : List Binder.BoundColumn}
    (bound : binder.bindItems schema scope count items = .ok columns) :
    ∀ column ∈ columns, Checked schema (column.expr, column.dataType) := by
  induction items generalizing count columns with
  | nil =>
    cases bound
    exact fun column member => by cases member
  | cons item rest ih =>
    obtain ⟨first, itemBound, bound⟩ := bind_eq_ok.mp bound
    obtain ⟨others, restBound, bound⟩ := bind_eq_ok.mp bound
    rw [pure_eq_ok] at bound
    subst bound
    intro column member
    exact (List.mem_append.mp member).elim (bindItem_checked itemBound column) (ih restBound column)

theorem bindPredicate_eq_ok {predicate : BoundExpr} :
    binder.bindPredicate schema scope expr = .ok predicate ↔
      ∃ dataType, binder.bindExpr schema scope expr = .ok (predicate, dataType) ∧
        Comparable dataType (some .boolean) := by
  simp only [Binder.bindPredicate, bind_eq_ok, comparable_boolean, Prod.exists]
  constructor
  · rintro ⟨typed, dataType, bound, accepted⟩
    split at accepted
    · cases accepted
      exact ⟨none, bound, .inl rfl⟩
    · cases accepted
      exact ⟨some .boolean, bound, .inr rfl⟩
    · exact (throw_eq_ok.mp accepted).elim
  · rintro ⟨dataType, bound, rfl | rfl⟩
    · exact ⟨predicate, none, bound, rfl⟩
    · exact ⟨predicate, some .boolean, bound, rfl⟩

theorem bindPredicate_checked {predicate : BoundExpr}
    (bound : binder.bindPredicate schema scope expr = .ok predicate) :
    WellTyped schema predicate ∧ Comparable predicate.dataType (some .boolean) := by
  obtain ⟨dataType, exprBound, boolean⟩ := bindPredicate_eq_ok.mp bound
  obtain ⟨wellTyped, isType⟩ := bindExpr_checked exprBound
  exact ⟨wellTyped, isType ▸ boolean⟩

def ForColumn (expr : BoundExpr) (column : Column) : Prop :=
  WellTyped ⟨[]⟩ expr ∧ Comparable expr.dataType (some column.dataType)

theorem coerceToColumn_checked {coerced : Typed} (checked : Checked schema typed)
    (isCoerced : Binder.coerceToColumn typed column = .ok coerced) : Checked schema coerced := by
  unfold Binder.coerceToColumn at isCoerced
  split at isCoerced
  · obtain ⟨value, -, same⟩ := bind_eq_ok.mp isCoerced
    rw [pure_eq_ok] at same
    subst same
    exact .literal value
  · cases isCoerced
    exact checked

theorem bindValue_eq_ok {value : BoundExpr} :
    binder.bindValue column expr = .ok value ↔
      ∃ typed dataType, binder.bindExpr ⟨[]⟩ none expr = .ok typed ∧
        Binder.coerceToColumn typed column = .ok (value, dataType) ∧ Comparable dataType (some column.dataType) := by
  simp only [Binder.bindValue, bind_eq_ok, Prod.exists]
  constructor
  · rintro ⟨expr, exprType, bound, coerced, dataType, isCoerced, accepted⟩
    split at accepted
    · cases accepted
      exact ⟨expr, exprType, none, bound, isCoerced, fun a isA => by cases isA⟩
    · rename_i own
      split at accepted
      · rename_i same
        cases accepted
        exact ⟨expr, exprType, some own, bound, isCoerced, fun a isA b isB => by cases isA; cases isB; exact same⟩
      · exact (throw_eq_ok.mp accepted).elim
  · rintro ⟨expr, exprType, dataType, bound, isCoerced, comparable⟩
    refine ⟨expr, exprType, bound, value, dataType, isCoerced, ?_⟩
    cases dataType with
    | none => rfl
    | some own => exact if_pos (comparable own rfl _ rfl)

theorem bindValue_forColumn {value : BoundExpr}
    (bound : binder.bindValue column expr = .ok value) : ForColumn value column := by
  obtain ⟨typed, dataType, exprBound, isCoerced, comparable⟩ := bindValue_eq_ok.mp bound
  obtain ⟨wellTyped, isType⟩ := coerceToColumn_checked (bindExpr_checked exprBound) isCoerced
  exact ⟨wellTyped, isType ▸ comparable⟩

theorem forall₂_set {α β : Type} {R : α → β → Prop} {l : List α} {m : List β} {i : Nat} {a : α} {b : β}
    (related : List.Forall₂ R l m) (found : m[i]? = some b) (isRelated : R a b) : List.Forall₂ R (l.set i a) m := by
  induction related generalizing i with
  | nil => simp at found
  | cons first rest ih =>
    cases i with
    | zero =>
      cases found
      exact .cons isRelated rest
    | succ i => exact .cons first (ih found)

theorem bindValues_forColumn {row result : List BoundExpr} {values : List (Expr × Nat)}
    (typed : List.Forall₂ ForColumn row schema.columns) (bound : binder.bindValues schema row values = .ok result) :
    List.Forall₂ ForColumn result schema.columns := by
  induction values generalizing row with
  | nil =>
    cases bound
    exact typed
  | cons value rest ih =>
    obtain ⟨expr, index⟩ := value
    unfold Binder.bindValues at bound
    split at bound
    · cases bound
    · rename_i column found
      obtain ⟨value, valueBound, bound⟩ := bind_eq_ok.mp bound
      exact ih (forall₂_set typed found (bindValue_forColumn valueBound)) bound

theorem bindRow_forColumn {targets : List Nat} {row : List Expr} {result : List BoundExpr}
    (bound : binder.bindRow schema targets row = .ok result) : List.Forall₂ ForColumn result schema.columns := by
  unfold Binder.bindRow at bound
  split at bound
  · cases bound
  · refine bindValues_forColumn ?_ bound
    have null (column : Column) : ForColumn (.literal .null) column :=
      ⟨.literal .null, fun a isA => by cases isA⟩
    induction schema.columns with
    | nil => exact .nil
    | cons column rest ih => exact .cons (null column) ih

end Planner

namespace Executor
open SimpleRdbms.Sql SimpleRdbms.Planner SimpleRdbms.Lib

/-- NULL, or a value of the type up to the length of strings; only NULL is of unknown type. -/
def Fits (value : Value) : Option DataType → Prop
  | none => value = .null
  | some dataType => ∀ own ∈ value.dataType, dataTypesMatch own dataType = true

def Conforms (tuple : Tuple) (schema : Schema) : Prop :=
  List.Forall₂ (fun value column => Fits value (some column.dataType)) tuple schema.columns

variable {schema : Schema} {tuple : Tuple}

theorem fits_dataType (value : Value) : Fits value value.dataType := by
  cases value with
  | null => rfl
  | boolean _ | integer _ | bigInt _ | double _ | varchar _ =>
    intro own isOwn
    cases isOwn
    exact dataTypesMatch_refl _

variable {value left right : Value} {dataType : DataType} {op : BinaryOperator}

theorem Fits.of_comparable {dataType : Option DataType} {target : DataType}
    (fits : Fits value dataType) (comparable : Comparable dataType (some target)) : Fits value (some target) := by
  cases dataType with
  | none =>
    cases fits
    exact fun own isOwn => by cases isOwn
  | some dataType =>
    intro own isOwn
    exact dataTypesMatch_trans (fits own isOwn) (comparable dataType rfl target rfl)

theorem fits_boolean (fits : Fits value (some .boolean)) : value = .null ∨ ∃ truth, value = .boolean truth := by
  cases value with
  | null => exact .inl rfl
  | boolean truth => exact .inr ⟨truth, rfl⟩
  | integer _ | bigInt _ | double _ | varchar _ =>
    have := fits _ rfl
    simp [dataTypesMatch] at this

theorem asBool_ok (fits : Fits value (some .boolean)) : ∃ truth, asBool value = .ok truth := by
  rcases fits_boolean fits with rfl | ⟨truth, rfl⟩
  · exact ⟨none, rfl⟩
  · exact ⟨some truth, rfl⟩

theorem andValue_fits (left right : Option Bool) : Fits (andValue left right) (some .boolean) := by
  rcases left with _ | _ | _ <;> rcases right with _ | _ | _ <;> simp [Fits, andValue, Value.dataType, dataTypesMatch]

theorem orValue_fits (left right : Option Bool) : Fits (orValue left right) (some .boolean) := by
  rcases left with _ | _ | _ <;> rcases right with _ | _ | _ <;> simp [Fits, orValue, Value.dataType, dataTypesMatch]

theorem compare_ok (comparable : Comparable left.dataType right.dataType) :
    ∃ ordering, left.compare right = .ok ordering := by
  cases left <;> cases right
  all_goals first
    | exact ⟨_, rfl⟩
    | exact absurd (comparable _ rfl _ rfl) (by simp [dataTypesMatch])

theorem Fits.comparable {leftType rightType : Option DataType} (leftFits : Fits left leftType)
    (rightFits : Fits right rightType) (comparable : Comparable leftType rightType) :
    Comparable left.dataType right.dataType := by
  intro a isA b isB
  cases leftType with
  | none =>
    cases leftFits
    cases isA
  | some leftType =>
    cases rightType with
    | none =>
      cases rightFits
      cases isB
    | some rightType =>
      have between := comparable leftType rfl rightType rfl
      exact dataTypesMatch_trans (leftFits a isA) (dataTypesMatch_trans between (dataTypesMatch_symm (rightFits b isB)))

theorem evaluateNot_fits {operand : Value} (fits : Fits operand (some .boolean)) :
    ∃ value, evaluateUnary .not operand = .ok value ∧ Fits value (some .boolean) := by
  rcases fits_boolean fits with rfl | ⟨truth, rfl⟩
  · exact ⟨.null, rfl, fits⟩
  · exact ⟨.boolean !truth, rfl, fits_dataType (.boolean !truth)⟩

theorem evaluateNegate_fits {operand : Value} (fits : Fits operand (some dataType))
    (numeric : isNumeric dataType = true) :
    ∃ value, evaluateUnary .negate operand = .ok value ∧ Fits value (some dataType) := by
  cases operand with
  | null => exact ⟨.null, rfl, fits⟩
  | integer value => exact ⟨.integer (-value), rfl, fits⟩
  | bigInt value => exact ⟨.bigInt (-value), rfl, fits⟩
  | double value => exact ⟨.double value.neg, rfl, fits⟩
  | boolean _ | varchar _ =>
    have same := fits _ rfl
    cases dataType <;> simp [dataTypesMatch, isNumeric] at same numeric

theorem evaluateConnective_fits (connects : isConnective op = true)
    (leftFits : Fits left (some .boolean)) (rightFits : Fits right (some .boolean)) :
    ∃ value, evaluateBinary op left right = .ok value ∧ Fits value (some .boolean) := by
  obtain ⟨first, leftBool⟩ := asBool_ok leftFits
  obtain ⟨second, rightBool⟩ := asBool_ok rightFits
  cases op with
  | and =>
    refine ⟨andValue first second, ?_, andValue_fits first second⟩
    simp only [evaluateBinary, threeValuedAnd, leftBool, rightBool, ok_bind]
    rfl
  | or =>
    refine ⟨orValue first second, ?_, orValue_fits first second⟩
    simp only [evaluateBinary, threeValuedOr, leftBool, rightBool, ok_bind]
    rfl
  | eq | notEq | lt | ltEq | gt | gtEq | plus | minus | multiply | divide => cases connects

theorem evaluateComparison_fits (compares : isComparison op = true)
    (comparable : Comparable left.dataType right.dataType) :
    ∃ value, evaluateBinary op left right = .ok value ∧ Fits value (some .boolean) := by
  obtain ⟨ordering, compared⟩ := compare_ok comparable
  have result : evaluateBinary op left right =
      .ok (ordering.elim .null fun ordering => .boolean (matchesComparison op ordering)) := by
    cases op with
    | eq | notEq | lt | ltEq | gt | gtEq =>
      simp only [evaluateBinary, compared]
      cases ordering <;> rfl
    | and | or | plus | minus | multiply | divide => cases compares
  refine ⟨_, result, ?_⟩
  cases ordering with
  | none => exact fun own isOwn => by cases isOwn
  | some ordering => exact fits_dataType (.boolean _)

theorem Conforms.column {index : Nat} {column : Column} (conforms : Conforms tuple schema)
    (found : schema.columns[index]? = some column) :
    ∃ value, tuple[index]? = some value ∧ Fits value (some column.dataType) := by
  obtain ⟨inside, isColumn⟩ := List.getElem?_eq_some_iff.mp found
  have bound : index < tuple.length := by rw [conforms.length_eq]; exact inside
  refine ⟨tuple[index], List.getElem?_eq_getElem bound, ?_⟩
  have := conforms.get bound inside
  rwa [List.get_eq_getElem, List.get_eq_getElem, isColumn] at this

theorem evaluate_columnRef {index : Nat} (isValue : tuple[index]? = some value) :
    evaluate tuple (.columnRef index dataType) = .ok value := by
  rw [evaluate, isValue]

theorem evaluate_binaryOp {left right : BoundExpr} (supported : isConnective op = true ∨ isComparison op = true) :
    evaluate tuple (.binaryOp left op right dataType) =
      (evaluate tuple left >>= fun a => evaluate tuple right >>= fun b => evaluateBinary op a b) := by
  cases op <;> first | rfl | simp [isConnective, isComparison] at supported

theorem evaluate_fits {expr : BoundExpr} (wellTyped : WellTyped schema expr) (conforms : Conforms tuple schema) :
    ∃ value, evaluate tuple expr = .ok value ∧ Fits value expr.dataType := by
  induction wellTyped with
  | literal value => exact ⟨value, rfl, fits_dataType value⟩
  | sessionContext name value => exact ⟨value, rfl, fits_dataType value⟩
  | columnRef found =>
    obtain ⟨value, isValue, fits⟩ := conforms.column found
    exact ⟨value, evaluate_columnRef isValue, fits⟩
  | not _ boolean ih =>
    obtain ⟨operand, evaluated, fits⟩ := ih
    obtain ⟨value, negated, fits⟩ := evaluateNot_fits (fits.of_comparable boolean)
    exact ⟨value, by rw [evaluate, evaluated, ok_bind, negated], fits⟩
  | negate _ known numeric ih =>
    obtain ⟨operand, evaluated, fits⟩ := ih
    rw [known] at fits
    obtain ⟨value, negated, fits⟩ := evaluateNegate_fits fits numeric
    exact ⟨value, by rw [evaluate, evaluated, ok_bind, negated], fits⟩
  | connective connects _ _ leftBoolean rightBoolean leftIh rightIh =>
    obtain ⟨left, leftEvaluated, leftFits⟩ := leftIh
    obtain ⟨right, rightEvaluated, rightFits⟩ := rightIh
    obtain ⟨value, result, fits⟩ :=
      evaluateConnective_fits connects (leftFits.of_comparable leftBoolean) (rightFits.of_comparable rightBoolean)
    refine ⟨value, ?_, fits⟩
    rw [evaluate_binaryOp (.inl connects), leftEvaluated, ok_bind, rightEvaluated, ok_bind, result]
  | comparison compares _ _ comparable leftIh rightIh =>
    obtain ⟨left, leftEvaluated, leftFits⟩ := leftIh
    obtain ⟨right, rightEvaluated, rightFits⟩ := rightIh
    obtain ⟨value, result, fits⟩ := evaluateComparison_fits compares (leftFits.comparable rightFits comparable)
    refine ⟨value, ?_, fits⟩
    rw [evaluate_binaryOp (.inr compares), leftEvaluated, ok_bind, rightEvaluated, ok_bind, result]
  | isNull _ negated ih =>
    obtain ⟨operand, evaluated, -⟩ := ih
    refine ⟨.boolean (operand.isNull != negated), ?_, fits_dataType (.boolean _)⟩
    rw [evaluate, evaluated, ok_bind]
    rfl

theorem evaluateRow_conforms {row : List BoundExpr} {columns : List Column}
    (typed : List.Forall₂ ForColumn row columns) :
    ∃ values, row.mapM (evaluate []) = .ok values ∧ Conforms values ⟨columns⟩ ∧
      List.Forall₂ (fun expr value => Fits value expr.dataType) row values := by
  induction typed with
  | nil => exact ⟨[], rfl, .nil, .nil⟩
  | cons forColumn _ ih =>
    obtain ⟨values, evaluated, conforms, fits⟩ := ih
    obtain ⟨value, isValue, valueFits⟩ := evaluate_fits forColumn.1 .nil
    refine ⟨value :: values, ?_, .cons (valueFits.of_comparable forColumn.2) conforms, .cons valueFits fits⟩
    rw [List.mapM_cons, isValue, ok_bind, evaluated, ok_bind]
    rfl

/-- Whatever binds evaluates: projections, predicates and the rows of an insertion. -/
theorem bound_expressions_safe (binder : Binder) :
    (∀ query select, binder.bindSelect query = .ok select →
      ∃ table, binder.fromTable query.fromTable = .ok table ∧ select.tableId = table.map TableInfo.tableId ∧
        ∀ tuple, Conforms tuple (Binder.schemaOf table) →
          List.Forall₂ (fun expr dataType => ∃ value, evaluate tuple expr = .ok value ∧ Fits value dataType)
            select.projections select.columnTypes ∧
          ∀ predicate ∈ select.predicate, ∃ value, evaluate tuple predicate = .ok value ∧
            (value = .boolean true ∨ value = .boolean false ∨ value = .null)) ∧
    ∀ insert bound, binder.bindInsert insert = .ok bound →
      ∃ table, binder.table insert.table = .ok table ∧ bound.tableId = table.tableId ∧
        ∀ row ∈ bound.rows, ∃ values, row.mapM (evaluate []) = .ok values ∧ Conforms values table.schema ∧
          List.Forall₂ (fun expr value => Fits value expr.dataType) row values := by
  constructor
  · intro query select bound
    obtain ⟨table, isTable, bound⟩ := bind_eq_ok.mp bound
    obtain ⟨columns, itemsBound, bound⟩ := bind_eq_ok.mp bound
    obtain ⟨predicate, predicateBound, bound⟩ := bind_eq_ok.mp bound
    rw [pure_eq_ok] at bound
    subst bound
    refine ⟨table, isTable, rfl, fun tuple conforms => ⟨?_, ?_⟩⟩
    · have checked := bindItems_checked itemsBound
      rw [List.forall₂_map_left_iff, List.forall₂_map_right_iff, List.forall₂_same]
      intro column member
      obtain ⟨wellTyped, isType⟩ := checked column member
      rw [show column.dataType = column.expr.dataType from isType]
      exact evaluate_fits wellTyped conforms
    · intro filter isFilter
      obtain ⟨expr, exprBound⟩ : ∃ expr,
          binder.bindPredicate (Binder.schemaOf table) (Binder.scopeOf query.fromTable) expr = .ok filter := by
        have related := optionMapM_eq_ok.mp predicateBound
        rw [show predicate = some filter from isFilter] at related
        generalize query.whereClause = clause at related
        cases related with
        | some exprBound => exact ⟨_, exprBound⟩
      obtain ⟨wellTyped, boolean⟩ := bindPredicate_checked exprBound
      obtain ⟨value, evaluated, fits⟩ := evaluate_fits wellTyped conforms
      refine ⟨value, evaluated, ?_⟩
      rcases fits_boolean (fits.of_comparable boolean) with rfl | ⟨truth, rfl⟩
      · exact .inr (.inr rfl)
      · cases truth with
        | true => exact .inl rfl
        | false => exact .inr (.inl rfl)
  · intro insert bound insertBound
    obtain ⟨table, isTable, insertBound⟩ := bind_eq_ok.mp insertBound
    obtain ⟨targets, -, insertBound⟩ := bind_eq_ok.mp insertBound
    obtain ⟨rows, rowsBound, insertBound⟩ := bind_eq_ok.mp insertBound
    rw [pure_eq_ok] at insertBound
    subst insertBound
    refine ⟨table, isTable, rfl, fun row member => ?_⟩
    obtain ⟨source, -, rowBound⟩ := mapM_result rowsBound member
    exact evaluateRow_conforms (bindRow_forColumn rowBound)

def twoColumns : Binder where
  catalog := Catalog.fromTablesAndIndexes
    [⟨0, "t".toList, ⟨[⟨"a".toList, .integer, true⟩, ⟨"b".toList, .boolean, true⟩]⟩, 1⟩] []
  session := ⟨[], [], [], []⟩

def disjunction : SelectStatement where
  items := [.wildcard]
  fromTable := some ⟨"t".toList, none⟩
  whereClause := some (.binaryOp (.binaryOp (.column none "a".toList) .lt (.literal (.bigInt 5))) .or
    (.unaryOp .not (.column none "b".toList)))

theorem bound_expressions_safe_disjunction : ∃ select, twoColumns.bindSelect disjunction = .ok select ∧
    ∀ predicate ∈ select.predicate, ∃ value, evaluate [.integer 7, .null] predicate = .ok value ∧
      (value = .boolean true ∨ value = .boolean false ∨ value = .null) := by
  obtain ⟨select, isBound⟩ : ∃ select, twoColumns.bindSelect disjunction = .ok select := ⟨_, rfl⟩
  obtain ⟨table, isTable, -, safe⟩ := (bound_expressions_safe twoColumns).1 disjunction select isBound
  cases isTable
  refine ⟨select, isBound, (safe [.integer 7, .null] ?_).2⟩
  exact .cons (fits_dataType (.integer 7)) (.cons (fun own isOwn => by cases isOwn) .nil)

end Executor

end SimpleRdbms
