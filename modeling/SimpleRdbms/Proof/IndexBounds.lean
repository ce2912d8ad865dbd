import SimpleRdbms.Planner.Optimizer
import SimpleRdbms.Proof.BoundTypes
import SimpleRdbms.Proof.KeyOrder

namespace SimpleRdbms.Planner
open SimpleRdbms.Sql SimpleRdbms.Executor SimpleRdbms.Lib

def Within (bounds : Bounds) (key : Bytes) : Prop := (∀ start ∈ bounds.1, start ≤ key) ∧ ∀ stop ∈ bounds.2, key < stop

theorem lt_successor (bytes : Bytes) : bytes < successor bytes := by
  induction bytes with
  | nil => exact List.nil_lt_cons _ _
  | cons byte rest ih => exact List.cons_lt_cons_iff.mpr (.inr ⟨rfl, ih⟩)

theorem successor_le {bytes key : Bytes} (less : bytes < key) : successor bytes ≤ key := by
  induction bytes generalizing key with
  | nil =>
    cases key with
    | nil => exact absurd less (lt_irrefl _)
    | cons byte rest =>
      rw [← not_lt, successor, List.nil_append, List.cons_lt_cons_iff]
      rintro (first | ⟨-, rest⟩)
      · exact absurd first (UInt8.not_lt_zero)
      · exact absurd rest (List.not_lt_nil _)
  | cons byte rest ih =>
    cases key with
    | nil => exact absurd less (List.not_lt_nil _)
    | cons first key =>
      rw [← not_lt, successor, List.cons_append, List.cons_lt_cons_iff]
      rcases List.cons_lt_cons_iff.mp less with higher | ⟨rfl, above⟩
      · rintro (lower | ⟨same, -⟩)
        · exact lt_asymm higher lower
        · exact higher.ne' same
      · rintro (lower | ⟨-, lower⟩)
        · exact lt_irrefl _ lower
        · exact not_lt.mpr (ih above) lower

variable {tuple : Tuple} {value literal : Value} {key encoded : Bytes} {bounds : Bounds}

theorem compare_keys {ordering : Ordering} (compared : value.compare literal = .ok (some ordering))
    (isKey : value.encodeMemcomparable = .ok key) (isEncoded : literal.encodeMemcomparable = .ok encoded) :
    ordering = .lt ∧ key < encoded ∨ ordering = .eq ∧ key = encoded ∨ ordering = .gt ∧ encoded < key := by
  have order := encodeMemcomparable_compare compared isKey isEncoded
  rw [compareOfLessAndEq] at order
  rcases lt_trichotomy key encoded with less | same | greater
  · rw [if_pos less] at order
    exact .inl ⟨order.symm, less⟩
  · rw [if_neg same.not_lt, if_pos same] at order
    exact .inr (.inl ⟨order.symm, same⟩)
  · rw [if_neg (lt_asymm greater), if_neg greater.ne'] at order
    exact .inr (.inr ⟨order.symm, greater⟩)

theorem candidateBounds_within {op : BinaryOperator} {ordering : Ordering}
    (compared : value.compare literal = .ok (some ordering)) (holds : matchesComparison op ordering = true)
    (isKey : value.encodeMemcomparable = .ok key) (isEncoded : literal.encodeMemcomparable = .ok encoded) :
    Within (candidateBounds op encoded) key := by
  rcases compare_keys compared isKey isEncoded with ⟨rfl, less⟩ | ⟨rfl, rfl⟩ | ⟨rfl, greater⟩
  · have below := less.trans (lt_successor encoded)
    cases op <;> simp_all [matchesComparison, Within, candidateBounds]
  · have below := lt_successor key
    cases op <;> simp_all [matchesComparison, Within, candidateBounds]
  · have above := successor_le greater
    cases op <;> simp_all [matchesComparison, Within, candidateBounds, greater.le]

theorem raiseStart_le {start candidate : Option Bytes} (first : ∀ bytes ∈ start, bytes ≤ key)
    (second : ∀ bytes ∈ candidate, bytes ≤ key) : ∀ bytes ∈ raiseStart start candidate, bytes ≤ key := by
  cases candidate with
  | none => exact first
  | some candidate =>
    intro bytes isStart
    cases isStart
    cases start with
    | none => exact second candidate rfl
    | some start =>
      simp only [Option.filter_some]
      split
      · exact first start rfl
      · exact second candidate rfl

theorem lt_lowerEnd {stop candidate : Option Bytes} (first : ∀ bytes ∈ stop, key < bytes)
    (second : ∀ bytes ∈ candidate, key < bytes) : ∀ bytes ∈ lowerEnd stop candidate, key < bytes := by
  cases candidate with
  | none => exact first
  | some candidate =>
    intro bytes isStop
    cases isStop
    cases stop with
    | none => exact second candidate rfl
    | some stop =>
      simp only [Option.filter_some]
      split
      · exact first stop rfl
      · exact second candidate rfl

theorem comparison_true {op : BinaryOperator} {left right : Value} (compares : isComparison op = true)
    (isTrue : evaluateBinary op left right = .ok (.boolean true)) :
    ∃ ordering, left.compare right = .ok (some ordering) ∧ matchesComparison op ordering = true := by
  cases compared : left.compare right with
  | error err => cases op <;> simp [evaluateBinary, compared, isComparison] at isTrue compares
  | ok ordering =>
    cases ordering with
    | none => cases op <;> simp [evaluateBinary, compared, isComparison] at isTrue compares
    | some ordering =>
      refine ⟨ordering, rfl, ?_⟩
      cases op <;> simp_all [evaluateBinary, isComparison]

theorem columnAndLiteral_compare {conjunct : BoundExpr} {column : Nat} {op : BinaryOperator}
    (found : columnAndLiteral conjunct = some (column, op, literal))
    (isTrue : evaluate tuple conjunct = .ok (.boolean true)) (isValue : tuple[column]? = some value) :
    ∃ ordering, value.compare literal = .ok (some ordering) ∧ matchesComparison op ordering = true := by
  unfold columnAndLiteral at found
  split at found
  · split at found
    · rename_i bounding
      cases found
      have compares : isComparison op = true := by cases op <;> simp_all [boundingOperator, isComparison]
      apply comparison_true compares
      rw [evaluate_binaryOp (.inr compares), evaluate_columnRef isValue] at isTrue
      exact isTrue
    · cases found
  · cases found

theorem asBool_true {left : Value} {truth : Option Bool} (isBool : asBool left = .ok truth)
    (isTrue : truth = some true) :
    left = .boolean true := by
  cases left <;> simp_all [asBool]

theorem and_true {left right : BoundExpr} {dataType : DataType}
    (isTrue : evaluate tuple (.binaryOp left .and right dataType) = .ok (.boolean true)) :
    evaluate tuple left = .ok (.boolean true) ∧ evaluate tuple right = .ok (.boolean true) := by
  rw [evaluate_binaryOp (.inl rfl)] at isTrue
  obtain ⟨first, leftEvaluated, isTrue⟩ := bind_eq_ok.mp isTrue
  obtain ⟨second, rightEvaluated, isTrue⟩ := bind_eq_ok.mp isTrue
  obtain ⟨a, isA, isTrue⟩ := bind_eq_ok.mp isTrue
  obtain ⟨b, isB, isTrue⟩ := bind_eq_ok.mp isTrue
  have both : a = some true ∧ b = some true := by
    rw [pure_eq_ok] at isTrue
    rcases a with _ | _ | _ <;> rcases b with _ | _ | _ <;> simp_all [andValue]
  rw [leftEvaluated, rightEvaluated, asBool_true isA both.1, asBool_true isB both.2]
  exact ⟨rfl, rfl⟩

theorem flattenAndConjuncts_true {predicate : BoundExpr} (isTrue : evaluate tuple predicate = .ok (.boolean true)) :
    ∀ conjunct ∈ flattenAndConjuncts predicate, evaluate tuple conjunct = .ok (.boolean true) := by
  fun_induction flattenAndConjuncts predicate with
  | case1 left right dataType leftIh rightIh =>
    obtain ⟨leftTrue, rightTrue⟩ := and_true isTrue
    intro conjunct member
    exact (List.mem_append.mp member).elim (leftIh leftTrue conjunct) (rightIh rightTrue conjunct)
  | case2 expr =>
    intro conjunct member
    rwa [List.mem_singleton.mp member]

theorem tighten_within {target : Nat} {conjunct : BoundExpr} (within : Within bounds key)
    (isTrue : evaluate tuple conjunct = .ok (.boolean true)) (isValue : tuple[target]? = some value)
    (isKey : value.encodeMemcomparable = .ok key) : Within (tighten target bounds conjunct) key := by
  unfold tighten
  split
  · exact within
  · rename_i column op literal found
    split
    · exact within
    · rename_i isTarget
      rw [not_not] at isTarget
      subst isTarget
      split
      · exact within
      · rename_i encoded isEncoded
        obtain ⟨ordering, compared, holds⟩ := columnAndLiteral_compare found isTrue isValue
        obtain ⟨above, below⟩ := candidateBounds_within compared holds isKey isEncoded
        exact ⟨raiseStart_le within.1 above, lt_lowerEnd within.2 below⟩

theorem tighten_all_within {target : Nat} {conjuncts : List BoundExpr} (within : Within bounds key)
    (allTrue : ∀ conjunct ∈ conjuncts, evaluate tuple conjunct = .ok (.boolean true))
    (isValue : tuple[target]? = some value) (isKey : value.encodeMemcomparable = .ok key) :
    Within (conjuncts.foldl (tighten target) bounds) key := by
  induction conjuncts generalizing bounds with
  | nil => exact within
  | cons conjunct rest ih =>
    have first := tighten_within within (allTrue conjunct List.mem_cons_self) isValue isKey
    exact ih first fun other member => allTrue other (List.mem_cons_of_mem _ member)

theorem indexForColumn_column {catalog : Catalog} {tableId column : Nat} {info : IndexInfo}
    (found : catalog.indexForColumn tableId column = some info) : info.columnIndex = column := by
  simp only [Catalog.indexForColumn, Option.bind_eq_bind, Option.bind_eq_some_iff] at found
  obtain ⟨indexIds, -, found⟩ := found
  obtain ⟨indexId, -, found⟩ := List.exists_of_findSome?_eq_some found
  simpa using (Option.filter_eq_some_iff.mp found).2

theorem targetColumn_some {catalog : Catalog} {tableId target : Nat} {conjuncts : List BoundExpr} {info : IndexInfo}
    (found : targetColumn catalog tableId conjuncts = some (target, info)) :
    catalog.indexForColumn tableId target = some info := by
  obtain ⟨conjunct, -, found⟩ := List.exists_of_findSome?_eq_some found
  simp only [Option.bind_eq_bind, Option.bind_eq_some_iff] at found
  obtain ⟨comparison, -, chosen, isIndex, same⟩ := found
  cases same
  exact isIndex

theorem index_bounds_admit_matches {predicate : BoundExpr} {tableId indexId : Nat} {catalog : Catalog}
    {start stop : Option Bytes} (chosen : indexScanBounds predicate tableId catalog = some (indexId, start, stop)) :
    ∃ info, catalog.indexForColumn tableId info.columnIndex = some info ∧ info.indexId = indexId ∧
      ∀ tuple value key, evaluate tuple predicate = .ok (.boolean true) → tuple[info.columnIndex]? = some value →
        value.encodeMemcomparable = .ok key → (∀ bytes ∈ start, bytes ≤ key) ∧ ∀ bytes ∈ stop, key < bytes := by
  simp only [indexScanBounds, Option.bind_eq_bind, Option.bind_eq_some_iff] at chosen
  obtain ⟨⟨target, info⟩, isTarget, same⟩ := chosen
  obtain ⟨rfl, isBounds⟩ : info.indexId = indexId ∧
    (flattenAndConjuncts predicate).foldl (tighten target) (none, none) = (start, stop) := by simpa [pure] using same
  have isIndex := targetColumn_some isTarget
  have isColumn := indexForColumn_column isIndex
  subst isColumn
  refine ⟨info, isIndex, rfl, fun tuple value key isTrue isValue isKey => ?_⟩
  have unbounded : Within (none, none) key := ⟨fun _ absent => (nomatch absent), fun _ absent => (nomatch absent)⟩
  have within := tighten_all_within unbounded (flattenAndConjuncts_true isTrue) isValue isKey
  rwa [isBounds] at within

def indexedColumn : Catalog :=
  Catalog.fromTablesAndIndexes [⟨0, "t".toList, ⟨[⟨"a".toList, .integer, true⟩]⟩, 1⟩]
    [⟨0, "i".toList, 0, 0, ⟨2, 0⟩, 0, 3⟩]

def between : BoundExpr :=
  .binaryOp (.binaryOp (.columnRef 0 .integer) .gt (.literal (.integer 3)) .boolean) .and
    (.binaryOp (.columnRef 0 .integer) .ltEq (.literal (.integer 10)) .boolean) .boolean

theorem index_bounds_admit_between :
    ∃ start stop, indexScanBounds between 0 indexedColumn = some (0, some start, some stop) ∧
    ∀ key, (Value.integer 10).encodeMemcomparable = .ok key → start ≤ key ∧ key < stop := by
  obtain ⟨start, stop, chosen⟩ : ∃ start stop,
    indexScanBounds between 0 indexedColumn = some (0, some start, some stop) :=
    ⟨_, _, rfl⟩
  refine ⟨start, stop, chosen, fun key isKey => ?_⟩
  obtain ⟨info, isIndex, -, within⟩ := index_bounds_admit_matches chosen
  have isColumn : info.columnIndex = 0 := by
    generalize info.columnIndex = column at isIndex
    cases column with
    | zero => rfl
    | succ column => nomatch isIndex
  have both := within [.integer 10] (.integer 10) key (by decide +kernel) (by rw [isColumn]; rfl) isKey
  exact ⟨both.1 start rfl, both.2 stop rfl⟩

end SimpleRdbms.Planner
