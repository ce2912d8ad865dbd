import SimpleRdbms.Lib.System
import SimpleRdbms.Txn.LockManager

/-!
# The maps of the lock manager and its callers

A resource may be present with an empty list, and a thread that has to wait stays inside `acquire`.
-/

namespace SimpleRdbms.Txn
open Function (update)

structure LockRequest where
  txnId : Nat
  resource : Resource
  mode : LockMode
deriving DecidableEq, Repr

structure LockTables where
  holders : Resource → Option (List (Nat × LockMode))
  heldBy : Nat → Option (List Resource)
  waitingFor : List (Nat × Resource × LockMode)
  finished : List Nat

inductive LockAnswer where
  | ok
  | waits
  | lockAfterUnlock
  | deadlockVictim
  | lockTimeout
deriving DecidableEq, Repr

def LockAnswer.isError : LockAnswer → Bool
  | .ok | .waits => false
  | .lockAfterUnlock | .deadlockVictim | .lockTimeout => true

def LockOutcome.answer : LockOutcome → LockAnswer
  | .granted => .ok
  | .waits => .waits
  | .lockAfterUnlock => .lockAfterUnlock
  | .deadlockVictim => .deadlockVictim

namespace LockTables

def new : LockTables :=
  { holders := fun _ => none, heldBy := fun _ => none, waitingFor := [], finished := [] }

def occupants (tables : LockTables) (resource : Resource) : List (Nat × LockMode) :=
  (tables.holders resource).getD []

def held (tables : LockTables) (txnId : Nat) : List Resource := (tables.heldBy txnId).getD []

def waiting (tables : LockTables) (txnId : Nat) : Option (Resource × LockMode) :=
  (tables.waitingFor.find? (·.1 == txnId)).map Prod.snd

def read (tables : LockTables) : LockManager :=
  { holders := tables.occupants
    heldBy := tables.held
    waitingFor := tables.waitingFor
    finished := tables.finished }

def stopWaiting (tables : LockTables) (txnId : Nat) : LockTables :=
  { tables with waitingFor := tables.waitingFor.filter (·.1 ≠ txnId) }

def startWaiting (tables : LockTables) (request : LockRequest) : LockTables :=
  { tables with waitingFor := (request.txnId, request.resource, request.mode) :: tables.waitingFor }

def grant (tables : LockTables) (request : LockRequest) : LockTables :=
  { tables with
    holders := update tables.holders request.resource
      (some ((tables.occupants request.resource).filter (·.1 ≠ request.txnId) ++ [(request.txnId, request.mode)]))
    heldBy := update tables.heldBy request.txnId
      (some ((tables.held request.txnId).insert request.resource)) }

def blockers (tables : LockTables) (request : LockRequest) : List Nat :=
  tables.read.conflictingHolders request.resource request.mode request.txnId

def heldMode (tables : LockTables) (request : LockRequest) : Option LockMode :=
  ((tables.occupants request.resource).find? (·.1 == request.txnId)).map Prod.snd

/-- One pass through the loop of `acquire`; `expired`: no time is left when it would sleep. -/
def attempt (tables : LockTables) (request : LockRequest) (expired : Bool) : LockTables × LockAnswer :=
  let tables := tables.stopWaiting request.txnId
  if tables.heldMode request = some .exclusive ∨ tables.heldMode request = some request.mode then (tables, .ok)
  else if (tables.blockers request).isEmpty then (tables.grant request, .ok)
  else if tables.read.wouldDeadlock request.txnId (tables.blockers request).reverse [] then (tables, .deadlockVictim)
  else if expired then ((tables.startWaiting request).stopWaiting request.txnId, .lockTimeout)
  else (tables.startWaiting request, .waits)

def acquire (tables : LockTables) (request : LockRequest) (expired : Bool) : LockTables × LockAnswer :=
  if request.txnId ∈ tables.finished then (tables, .lockAfterUnlock) else tables.attempt request expired

def releaseAll (tables : LockTables) (txnId : Nat) : LockTables :=
  { holders := fun resource =>
      if resource ∈ tables.held txnId then
        (tables.holders resource).bind fun holders =>
          let left := holders.filter (·.1 ≠ txnId)
          if left.isEmpty then none else some left
      else tables.holders resource
    heldBy := update tables.heldBy txnId none
    waitingFor := (tables.stopWaiting txnId).waitingFor
    finished := tables.finished.insert txnId }

def pruneFinished (tables : LockTables) (watermark : Nat) : LockTables :=
  { tables with finished := tables.finished.filter (watermark ≤ ·) }

end LockTables

structure LockClients where
  tables : LockTables
  calls : Nat → Option LockRequest

structure LockSection where
  thread : Nat
  request : LockRequest
  tables : LockTables
  answer : LockAnswer

namespace LockClients

inductive Action where
  | acquire (thread : Nat) (request : LockRequest) (expired : Bool)
  | wake (thread : Nat) (expired : Bool)
  | releaseAll (txnId : Nat)
  | pruneFinished (watermark : Nat)

def enter (thread : Nat) (request : LockRequest) (result : LockTables × LockAnswer) : LockSection :=
  { thread := thread, request := request, tables := result.1, answer := result.2 }

def criticalSection (clients : LockClients) : Action → Option LockSection
  | .acquire thread request expired =>
    if (clients.calls thread).isSome then none
    else some (enter thread request (clients.tables.acquire request expired))
  | .wake thread expired =>
    (clients.calls thread).map fun request => enter thread request (clients.tables.attempt request expired)
  | .releaseAll _ | .pruneFinished _ => none

def leave (clients : LockClients) (done : LockSection) : LockClients :=
  { tables := done.tables
    calls := update clients.calls done.thread (if done.answer = .waits then some done.request else none) }

def step (clients : LockClients) : Action → Option LockClients
  | .releaseAll txnId => some { clients with tables := clients.tables.releaseAll txnId }
  | .pruneFinished watermark => some { clients with tables := clients.tables.pruneFinished watermark }
  | action => (clients.criticalSection action).map clients.leave

def system : Lib.System LockClients Action where
  init := fun clients => clients = { tables := .new, calls := fun _ => none }
  step := step

end LockClients

end SimpleRdbms.Txn
