import SimpleRdbms.Executor.Expression
import SimpleRdbms.Planner.Optimizer
import SimpleRdbms.Storage.BTree
import SimpleRdbms.Storage.Heap
import SimpleRdbms.Txn.VersionStore

/-!
# The operators of a query

What the calls of `next` return while no other transaction is active: every lock is granted. Callers stop at an error.
-/

namespace SimpleRdbms.Executor
open SimpleRdbms.Planner SimpleRdbms.Storage SimpleRdbms.Txn

inductive IsolationLevel where
  | readUncommitted
  | readCommitted
  | repeatableRead
  | snapshotIsolation
  | serializable
deriving DecidableEq, Repr

structure ExecutorContext where
  catalog : Catalog
  heap : PageStore
  nodes : NodeStore
  versionStore : VersionStore
  isolationLevel : IsolationLevel
  txnId : Nat
  readTs : Nat

inductive QueryError where
  | catalog (err : CatalogError)
  | heap (err : HeapError)
  | index (err : BTree.BTreeError)
  | corruptTuple (err : TupleError)
  | missingRow (rid : Rid)
  | evaluation (err : ExecutorError)
  | notAQuery
deriving DecidableEq, Repr

abbrev Item := Except QueryError Tuple

namespace ExecutorContext

def sees (ctx : ExecutorContext) (rid : Rid) : Bool :=
  ctx.isolationLevel ≠ .snapshotIsolation || ctx.versionStore.isVisibleTo rid ctx.txnId ctx.readTs

def decodeRow (table : TableInfo) (bytes : Bytes) : Item :=
  (Tuple.decode bytes (table.schema.columns.map Column.dataType)).mapError .corruptTuple

def seqScan (ctx : ExecutorContext) (tableId : Nat) : List Item :=
  match ctx.catalog.getTableById tableId with
  | .error err => [.error (.catalog err)]
  | .ok table =>
    match TableHeap.scan ⟨table.firstPageId⟩ ctx.heap with
    | .error err => [.error (.heap err)]
    | .ok rows => (rows.filter (ctx.sees ·.1)).map fun row => decodeRow table row.2

def fetchRow (ctx : ExecutorContext) (table : TableInfo) (rid : Rid) : Item :=
  match TableHeap.getTuple ctx.heap rid with
  | .error err => .error (.heap err)
  | .ok none => .error (.missingRow rid)
  | .ok (some bytes) => decodeRow table bytes

def indexScan (ctx : ExecutorContext) (indexId tableId : Nat) (start stop : Option Bytes) : List Item :=
  match ctx.catalog.getTableById tableId, ctx.catalog.indexInfo indexId with
  | .error err, _ => [.error (.catalog err)]
  | _, none => [.error (.catalog (.indexNotFound ("index id ".toList ++ (toString indexId).toList)))]
  | .ok table, some info =>
    ((BTreeIndex.mk ctx.nodes info.rootPageId).rangeScan start stop).filterMap fun
      | .error err => some (.error (.index err))
      | .ok entry => if ctx.sees entry.row.rid then some (ctx.fetchRow table entry.row.rid) else none

end ExecutorContext

def keep (predicate : BoundExpr) : Item → Option Item
  | .error err => some (.error err)
  | .ok tuple =>
    match evaluate tuple predicate with
    | .error err => some (.error (.evaluation err))
    | .ok value => if value = .boolean true then some (.ok tuple) else none

def project (expressions : List BoundExpr) (item : Item) : Item := do
  let tuple ← item
  expressions.mapM fun expr => (evaluate tuple expr).mapError .evaluation

def ExecutorContext.run (ctx : ExecutorContext) : LogicalPlan → List Item
  | .oneRow => [.ok []]
  | .seqScan tableId => ctx.seqScan tableId
  | .indexScan indexId tableId start stop => ctx.indexScan indexId tableId start stop
  | .filter predicate input => (ctx.run input).filterMap (keep predicate)
  | .projection expressions input => (ctx.run input).map (project expressions)
  | .insert _ _ | .createTable _ | .createIndex _ => [.error .notAQuery]

end SimpleRdbms.Executor
