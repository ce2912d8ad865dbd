import Mathlib.Data.List.Basic
import SimpleRdbms.Txn.VersionStore

/-!
# The transaction manager

Ids, timestamps, the active set and the version store; log and pages are added where those are modelled.
-/

namespace SimpleRdbms.Txn

inductive TransactionState where
  | growing
  | aborted
deriving DecidableEq, Repr

structure Transaction where
  txnId : Nat
  state : TransactionState
  beginLsn : Nat
  readTs : Nat
deriving DecidableEq, Repr

structure TransactionManager where
  active : List Transaction
  nextTxnId : Nat
  nextTs : Nat
  versions : VersionStore

namespace TransactionManager

def new (highestSeen : Option Nat) : TransactionManager where
  active := []
  nextTxnId := (highestSeen.map (· + 1)).getD 0
  nextTs := 0
  versions := VersionStore.new

def get (manager : TransactionManager) (txnId : Nat) : Option Transaction :=
  manager.active.find? (·.txnId == txnId)

def begin (manager : TransactionManager) (beginLsn : Nat) : TransactionManager :=
  { manager with
    active :=
      { txnId := manager.nextTxnId, state := .growing, beginLsn, readTs := manager.nextTs } ::
        manager.active
    nextTxnId := manager.nextTxnId + 1
    nextTs := manager.nextTs + 1 }

def remove (manager : TransactionManager) (txnId : Nat) : TransactionManager :=
  { manager with active := manager.active.filter (·.txnId ≠ txnId) }

def setState (manager : TransactionManager) (txnId : Nat) (state : TransactionState) : TransactionManager :=
  { manager with
    active := manager.active.map fun txn => if txn.txnId = txnId then { txn with state } else txn }

def oldestActiveReadTs (manager : TransactionManager) : Nat :=
  ((manager.active.map (·.readTs)).min?).getD manager.nextTs

def oldestActiveTxnId (manager : TransactionManager) : Nat :=
  ((manager.active.map (·.txnId)).min?).getD manager.nextTxnId

def pruneVersions (manager : TransactionManager) : TransactionManager :=
  { manager with versions := manager.versions.prune manager.oldestActiveReadTs }

def recordInsert (manager : TransactionManager) (txnId : Nat) (rid : Rid) : TransactionManager :=
  { manager with versions := manager.versions.recordInsert txnId rid }

def finishCommit (manager : TransactionManager) (txnId : Nat) : TransactionManager :=
  ({ manager with
    nextTs := manager.nextTs + 1
    versions := manager.versions.commitVersions txnId manager.nextTs }.remove txnId).pruneVersions

def beginAbort (manager : TransactionManager) (txnId : Nat) : TransactionManager :=
  manager.setState txnId .aborted

def cancelAbort (manager : TransactionManager) (txnId : Nat) : TransactionManager :=
  manager.setState txnId .growing

def finishAbort (manager : TransactionManager) (txnId : Nat) : TransactionManager :=
  let removed := manager.remove txnId
  ({ removed with versions := removed.versions.abortVersions txnId removed.nextTs }).pruneVersions

end TransactionManager

end SimpleRdbms.Txn
