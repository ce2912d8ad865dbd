import SimpleRdbms.Engine.Session

/-!
# Sessions on the worker pool

The statements of one session follow each other and those of different sessions overlap. BEGIN, COMMIT, ROLLBACK and
EXPLAIN are one step each; any other statement may wait for a lock between its steps.
-/

namespace SimpleRdbms.Engine
open SimpleRdbms.Lib SimpleRdbms.Txn
open Function (update)

structure Running where
  txnId : Nat
  autocommit : Bool
  failed : Bool
  waiting : Option (Resource × LockMode)

namespace Backend
variable {Sql Value Query Data : Type} (B : Backend Sql Value Query Data)

def txnForStatement (s : EngineState Data) (session : Nat) : Except SessionError (EngineState Data × Nat × Bool) :=
  match s.slots session with
  | .active txnId => .ok (s, txnId, false)
  | .aborted _ => .error .transactionAborted
  | .none | .timedOut => .ok (B.beginTxn s, s.txns.nextTxnId, true)

def finishStatement (s : EngineState Data) (session txnId : Nat) (autocommit ok : Bool) : Outcome Data Unit :=
  match autocommit, ok with
  | true, true => andThen (B.commitTxn s txnId) fun committed => (B.maybeCheckpoint committed, .ok ())
  | true, false => ((B.reloadCatalog (B.abortTxn s txnId).1).1, .error .statement)
  | false, true => (s, .ok ())
  | false, false => (setSlot s session (.aborted txnId), .error .statement)

end Backend

structure Workers (Data : Type) where
  engine : EngineState Data
  running : Nat → Option Running

inductive WorkerAction (Sql Value Data : Type) where
  | request (session : Nat) (sql : Sql) (params : List Value)
  | work (session : Nat) (data : Data)
  | recordInsert (session : Nat) (rid : Rid)
  | lock (session : Nat) (resource : Resource) (mode : LockMode)
  | wake (session : Nat)
  | lockTimeout (session : Nat)
  | finish (session : Nat) (ok : Bool)
  | expire (session : Nat)
  | disconnect (session : Nat)

namespace Workers
variable {Sql Value Query Data : Type} (B : Backend Sql Value Query Data)

def start (data : Data) (highestSeen : Option Nat) : Workers Data where
  engine :=
    { data, flushPoisoned := false, txns := TransactionManager.new highestSeen, locks := LockManager.new,
      slots := fun _ => .none }
  running := fun _ => none

def setRunning (w : Workers Data) (session : Nat) (running : Option Running) : Workers Data :=
  { w with running := update w.running session running }

def starts (s : EngineState Data) (session : Nat) (sql : Sql) (params : List Value) :
    Option (EngineState Data × Nat × Bool) :=
  if s.flushPoisoned = true ∨ s.slots session = .timedOut then none
  else
    match B.prepare sql params with
    | .ok (.other _) => (B.txnForStatement s session).toOption
    | .ok .begin | .ok .commit | .ok .rollback | .ok (.explain _) | .error _ => none

def request (w : Workers Data) (session : Nat) (sql : Sql) (params : List Value) : Workers Data :=
  match starts B w.engine session sql params with
  | some (engine, txnId, autocommit) =>
    setRunning { w with engine } session (some { txnId, autocommit, failed := false, waiting := none })
  | none => { w with engine := (B.executeWithParams w.engine session sql params).1 }

def answered (w : Workers Data) (session : Nat) (running : Running) (resource : Resource) (mode : LockMode)
    (answer : LockManager × LockOutcome) : Workers Data :=
  let after : Workers Data := { w with engine := { w.engine with locks := answer.1 } }
  match answer.2 with
  | .granted => after.setRunning session (some { running with waiting := none })
  | .waits => after.setRunning session (some { running with waiting := some (resource, mode) })
  | .lockAfterUnlock | .deadlockVictim =>
    after.setRunning session (some { running with failed := true, waiting := none })

def stepRunning (w : Workers Data) (session : Nat) (running : Running) : WorkerAction Sql Value Data →
    Option (Workers Data)
  | .work _ data =>
    if running.failed ∨ running.waiting.isSome then none else some { w with engine := B.setData w.engine data }
  | .recordInsert _ rid =>
    if running.failed ∨ running.waiting.isSome then none
    else some { w with engine := { w.engine with txns := w.engine.txns.recordInsert running.txnId rid } }
  | .lock _ resource mode =>
    if running.failed ∨ running.waiting.isSome then none
    else some (w.answered session running resource mode (w.engine.locks.acquire running.txnId resource mode))
  | .wake _ =>
    running.waiting.map fun (resource, mode) =>
      w.answered session running resource mode (w.engine.locks.attempt running.txnId resource mode)
  | .lockTimeout _ =>
    if running.waiting.isSome then
      some (setRunning { w with engine := { w.engine with locks := w.engine.locks.stopWaiting running.txnId } }
        session (some { running with failed := true, waiting := none }))
    else none
  | .finish _ ok =>
    if running.waiting.isSome ∨ running.failed ∧ ok then none
    else
      some (setRunning
        { w with engine := (B.finishStatement w.engine session running.txnId running.autocommit ok).1 }
        session none)
  | .request .. | .expire _ | .disconnect _ => none

def stepIdle (w : Workers Data) : WorkerAction Sql Value Data → Option (Workers Data)
  | .request session sql params => some (w.request B session sql params)
  | .expire session => (B.expireIdleSession w.engine session).map fun engine => { w with engine }
  | .disconnect session => some { w with engine := B.disconnectSession w.engine session }
  | .work .. | .recordInsert .. | .lock .. | .wake _ | .lockTimeout _ | .finish .. => none

end Workers

def WorkerAction.session {Sql Value Data : Type} : WorkerAction Sql Value Data → Nat
  | .request session .. | .work session _ | .recordInsert session _ | .lock session .. | .wake session
  | .lockTimeout session | .finish session _ | .expire session | .disconnect session => session

namespace Workers
variable {Sql Value Query Data : Type} (B : Backend Sql Value Query Data)

def step (w : Workers Data) (action : WorkerAction Sql Value Data) : Option (Workers Data) :=
  match w.running action.session with
  | some running => w.stepRunning B action.session running action
  | none => w.stepIdle B action

def system : System (Workers Data) (WorkerAction Sql Value Data) where
  init w := ∃ data highestSeen, w = start data highestSeen
  step := step B

end Workers

end SimpleRdbms.Engine
