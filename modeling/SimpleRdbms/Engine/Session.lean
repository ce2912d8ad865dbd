import SimpleRdbms.Lib.System
import SimpleRdbms.Txn.LockManager
import SimpleRdbms.Txn.Manager

/-!
# Sessions and their transaction slot

`EngineShared::execute_with_params` and what it calls. Everything behind it is an arbitrary `Backend`: the session code
looks at nothing but whether it fails.
-/

namespace SimpleRdbms.Engine
open SimpleRdbms.Txn
open Function (update)

inductive TxnSlot where
  | none
  | active (txnId : Nat)
  | aborted (txnId : Nat)
  | timedOut
deriving DecidableEq, Repr

def TxnSlot.txnId : TxnSlot → Option Nat
  | .none | .timedOut => Option.none
  | .active txnId | .aborted txnId => some txnId

inductive Statement (Query : Type) where
  | begin
  | commit
  | rollback
  | explain (query : Query)
  | other (query : Query)
deriving DecidableEq

inductive SessionError where
  | flushPoisoned
  | idleInTransactionTimeout
  | syntaxError
  | parameters
  | nestedTransaction
  | noActiveTransaction
  | transactionAborted
  | unknownTransaction
  | abortInProgress
  | storage
  | explain
  | statement
deriving DecidableEq, Repr

/-- What a statement did: the rows it recorded, also where it failed, and whether it succeeded. -/
structure Execution (Data : Type) where
  data : Data
  inserted : List Rid
  ok : Bool

structure Backend (Sql Value Query Data : Type) where
  parse : Sql → Option (Statement Query)
  substituteParameters : Statement Query → List Value → Option (Statement Query)
  poisonsFlush : Data → Bool
  logBegin : Data → Nat → Data
  flushCommit : Data → Nat → Data × Bool
  execute : Data → TransactionManager → Nat → Query → Execution Data
  explain : Data → Query → Bool
  undo : Data → Nat → Data × Bool
  reload : Data → Nat → Data × Bool
  checkpointDue : Data → Bool
  recordCheckpoint : Data → Data × Bool
  setLastCheckpointLsn : Data → Nat → Data × Bool
  finishCheckpoint : Data → Data

/-- `flushPoisoned` is set when a flush fails half way and never reset. -/
structure EngineState (Data : Type) where
  data : Data
  flushPoisoned : Bool
  txns : TransactionManager
  locks : LockManager
  slots : Nat → TxnSlot

abbrev Outcome (Data α : Type) := EngineState Data × Except SessionError α

namespace Backend
variable {Sql Value Query Data : Type} (B : Backend Sql Value Query Data)

def setData (s : EngineState Data) (data : Data) : EngineState Data :=
  { s with data, flushPoisoned := s.flushPoisoned || B.poisonsFlush data }

def beginTxn (s : EngineState Data) : EngineState Data :=
  { B.setData s (B.logBegin s.data s.txns.nextTxnId) with txns := s.txns.begin 0 }

def releaseLocks (s : EngineState Data) (txnId : Nat) : EngineState Data :=
  { s with locks := (s.locks.releaseAll txnId).pruneFinished s.txns.oldestActiveTxnId }

def commitTxn (s : EngineState Data) (txnId : Nat) : Outcome Data Unit :=
  match s.txns.get txnId with
  | none => (s, .error .unknownTransaction)
  | some txn =>
    if txn.state = .aborted then (s, .error .abortInProgress)
    else
      let flushed := B.flushCommit s.data txnId
      if flushed.2 then
        (releaseLocks { B.setData s flushed.1 with txns := s.txns.finishCommit txnId } txnId, .ok ())
      else (B.setData s flushed.1, .error .storage)

def abortTxn (s : EngineState Data) (txnId : Nat) : Outcome Data Unit :=
  match s.txns.get txnId with
  | none => (s, .error .unknownTransaction)
  | some txn =>
    if txn.state = .aborted then (s, .error .abortInProgress)
    else
      let marked := s.txns.beginAbort txnId
      let undone := B.undo s.data txnId
      if undone.2 then
        (releaseLocks { B.setData s undone.1 with txns := marked.finishAbort txnId } txnId, .ok ())
      else ({ B.setData s undone.1 with txns := marked.cancelAbort txnId }, .error .storage)

def inOwnTxn (work : Data → Nat → Data × Bool) (s : EngineState Data) : Outcome Data Unit :=
  let txnId := s.txns.nextTxnId
  let begun := B.beginTxn s
  let worked := work begun.data txnId
  let after := B.setData begun worked.1
  if worked.2 then B.commitTxn after txnId else (after, .error .storage)

def reloadCatalog (s : EngineState Data) : Outcome Data Unit := B.inOwnTxn B.reload s

def andThen (outcome : Outcome Data Unit) (next : EngineState Data → Outcome Data Unit) : Outcome Data Unit :=
  match outcome.2 with
  | .ok _ => next outcome.1
  | .error err => (outcome.1, .error err)

def setSlot (s : EngineState Data) (session : Nat) (slot : TxnSlot) : EngineState Data :=
  { s with slots := update s.slots session slot }

/-- `maybe_checkpoint` with `write_checkpoint_record` and `finish_checkpoint`. Its errors are logged and
dropped. -/
def maybeCheckpoint (s : EngineState Data) : EngineState Data :=
  if s.flushPoisoned || !B.checkpointDue s.data then s
  else
    let recorded := B.recordCheckpoint s.data
    let after := B.setData s recorded.1
    if recorded.2 then
      let headed := B.inOwnTxn B.setLastCheckpointLsn after
      match headed.2 with
      | .ok _ => B.setData headed.1 (B.finishCheckpoint headed.1.data)
      | .error _ => headed.1
    else after

def handleBegin (s : EngineState Data) (session : Nat) : Outcome Data Unit :=
  match (s.slots session).txnId with
  | some _ => (s, .error .nestedTransaction)
  | none => (setSlot (B.beginTxn s) session (.active s.txns.nextTxnId), .ok ())

def endByAbort (s : EngineState Data) (session txnId : Nat) : Outcome Data Unit :=
  andThen (B.abortTxn s txnId) fun aborted =>
    andThen (B.reloadCatalog aborted) fun reloaded =>
      (B.maybeCheckpoint (setSlot reloaded session .none), .ok ())

def handleCommit (s : EngineState Data) (session : Nat) : Outcome Data Unit :=
  match s.slots session with
  | .none | .timedOut => (s, .error .noActiveTransaction)
  | .aborted txnId => B.endByAbort s session txnId
  | .active txnId =>
    andThen (B.commitTxn s txnId) fun committed =>
      (B.maybeCheckpoint (setSlot committed session .none), .ok ())

def handleRollback (s : EngineState Data) (session : Nat) : Outcome Data Unit :=
  match (s.slots session).txnId with
  | none => (s, .error .noActiveTransaction)
  | some txnId => B.endByAbort s session txnId

def handleExplain (s : EngineState Data) (query : Query) : Outcome Data Unit :=
  if B.explain s.data query then (s, .ok ()) else (s, .error .explain)

def runStatement (s : EngineState Data) (txnId : Nat) (query : Query) : EngineState Data × Bool :=
  let run := B.execute s.data s.txns txnId query
  ({ B.setData s run.data with
      txns := run.inserted.foldl (fun txns rid => txns.recordInsert txnId rid) s.txns }, run.ok)

def executeNonControlStatement (s : EngineState Data) (session : Nat) (query : Query) : Outcome Data Unit :=
  match s.slots session with
  | .active txnId =>
    let run := B.runStatement s txnId query
    if run.2 then (run.1, .ok ())
    else (setSlot run.1 session (.aborted txnId), .error .statement)
  | .aborted _ => (s, .error .transactionAborted)
  | .none | .timedOut =>
    let txnId := s.txns.nextTxnId
    let run := B.runStatement (B.beginTxn s) txnId query
    if run.2 then
      andThen (B.commitTxn run.1 txnId) fun committed => (B.maybeCheckpoint committed, .ok ())
    else ((B.reloadCatalog (B.abortTxn run.1 txnId).1).1, .error .statement)

def prepare (sql : Sql) (params : List Value) : Except SessionError (Statement Query) :=
  match B.parse sql with
  | none => .error .syntaxError
  | some statement =>
    if params.isEmpty then .ok statement
    else
      match B.substituteParameters statement params with
      | none => .error .parameters
      | some substituted => .ok substituted

def dispatch (s : EngineState Data) (session : Nat) : Statement Query → Outcome Data Unit
  | .begin => B.handleBegin s session
  | .commit => B.handleCommit s session
  | .rollback => B.handleRollback s session
  | .explain query => B.handleExplain s query
  | .other query => B.executeNonControlStatement s session query

def executeImpl (s : EngineState Data) (session : Nat) (sql : Sql) (params : List Value) : Outcome Data Unit :=
  if s.slots session = .timedOut then (setSlot s session .none, .error .idleInTransactionTimeout)
  else
    match B.prepare sql params with
    | .error err => (s, .error err)
    | .ok statement => B.dispatch s session statement

def executeWithParams (s : EngineState Data) (session : Nat) (sql : Sql) (params : List Value) :
    Outcome Data Unit :=
  if s.flushPoisoned then (s, .error .flushPoisoned) else B.executeImpl s session sql params

/-- The idle timer and a disconnect both roll the transaction back, whatever comes of it. -/
def abandon (s : EngineState Data) (txnId : Nat) : EngineState Data :=
  (B.reloadCatalog (B.abortTxn s txnId).1).1

def disconnectSession (s : EngineState Data) (session : Nat) : EngineState Data :=
  match (s.slots session).txnId with
  | none => s
  | some txnId => setSlot (B.abandon s txnId) session .none

def expireIdleSession (s : EngineState Data) (session : Nat) : Option (EngineState Data) :=
  (s.slots session).txnId.map fun txnId => setSlot (B.abandon s txnId) session .timedOut

end Backend

end SimpleRdbms.Engine
