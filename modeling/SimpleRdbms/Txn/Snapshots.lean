import SimpleRdbms.Lib.System
import SimpleRdbms.Txn.Manager

/-!
# Histories of the transaction manager

The creators of every row id and the end of every transaction are kept for the specification only.
-/

namespace SimpleRdbms.Txn
open Function (update)

inductive TxnOutcome where
  | unfinished
  | committed (commitTs : Nat)
  | aborted (witnesses : List Nat)
deriving DecidableEq, Repr

def TxnOutcome.isAborted : TxnOutcome → Bool
  | .aborted _ => true
  | .unfinished | .committed _ => false

structure SnapshotHistory where
  manager : TransactionManager
  /-- The transactions that have recorded a row id, the latest first. -/
  creators : Rid → List Nat
  outcomes : Nat → TxnOutcome

namespace SnapshotHistory

inductive Action where
  | begin (beginLsn : Nat)
  | recordInsert (txnId : Nat) (rid : Rid)
  | commit (txnId : Nat)
  | beginAbort (txnId : Nat)
  | cancelAbort (txnId : Nat)
  | finishAbort (txnId : Nat)

/-- A row id is recorded again only after all its earlier creators have aborted. -/
def recordInsert (history : SnapshotHistory) (txnId : Nat) (rid : Rid) : Option SnapshotHistory :=
  if (history.manager.get txnId).isSome ∧ ∀ creator ∈ history.creators rid, (history.outcomes creator).isAborted then
    some { history with
      manager := history.manager.recordInsert txnId rid
      creators := update history.creators rid (txnId :: history.creators rid) }
  else none

def commit (history : SnapshotHistory) (txnId : Nat) : Option SnapshotHistory :=
  match history.manager.get txnId with
  | some { state := .growing, .. } =>
    some { history with
      manager := history.manager.finishCommit txnId
      outcomes := update history.outcomes txnId (.committed history.manager.nextTs) }
  | _ => none

def beginAbort (history : SnapshotHistory) (txnId : Nat) : Option SnapshotHistory :=
  match history.manager.get txnId with
  | some { state := .growing, .. } => some { history with manager := history.manager.beginAbort txnId }
  | _ => none

def cancelAbort (history : SnapshotHistory) (txnId : Nat) : Option SnapshotHistory :=
  match history.manager.get txnId with
  | some { state := .aborted, .. } => some { history with manager := history.manager.cancelAbort txnId }
  | _ => none

def finishAbort (history : SnapshotHistory) (txnId : Nat) : Option SnapshotHistory :=
  match history.manager.get txnId with
  | some { state := .aborted, .. } =>
    some { history with
      manager := history.manager.finishAbort txnId
      outcomes := update history.outcomes txnId
        (.aborted ((history.manager.remove txnId).active.map (·.txnId))) }
  | _ => none

def step (history : SnapshotHistory) : Action → Option SnapshotHistory
  | .begin beginLsn => some { history with manager := history.manager.begin beginLsn }
  | .recordInsert txnId rid => history.recordInsert txnId rid
  | .commit txnId => history.commit txnId
  | .beginAbort txnId => history.beginAbort txnId
  | .cancelAbort txnId => history.cancelAbort txnId
  | .finishAbort txnId => history.finishAbort txnId

def start (highestSeen : Option Nat) : SnapshotHistory where
  manager := TransactionManager.new highestSeen
  creators := fun _ => []
  outcomes := fun _ => .unfinished

def system : Lib.System SnapshotHistory Action where
  init := fun history => ∃ highestSeen, history = start highestSeen
  step := step

def expected (history : SnapshotHistory) (reader : Transaction) (rid : Rid) : Option Bool :=
  match history.creators rid with
  | [] => some true
  | creator :: _ =>
    if creator = reader.txnId then some true
    else
      match history.outcomes creator with
      | .unfinished => some false
      | .committed commitTs => some (decide (commitTs ≤ reader.readTs))
      | .aborted witnesses => if reader.txnId ∈ witnesses then some false else none

end SnapshotHistory

end SimpleRdbms.Txn
