import Mathlib.Data.List.Basic
import Mathlib.Logic.Function.Basic
import SimpleRdbms.Common.Ids

/-!
# The lock manager

Each function is one section under the mutex: `acquire` is a first `attempt` and another one after each wake-up.
-/

namespace SimpleRdbms.Txn
open Function (update)

inductive LockMode where
  | shared
  | exclusive
deriving DecidableEq, Repr

def LockMode.conflictsWith : LockMode → LockMode → Bool
  | .shared, .shared => false
  | .shared, .exclusive | .exclusive, .shared | .exclusive, .exclusive => true

inductive Resource where
  | row (rid : Rid)
  | table (tableId : Nat)
deriving DecidableEq, Repr

/-- A resource without holders stands for one that is not in the map. -/
structure LockManager where
  holders : Resource → List (Nat × LockMode)
  heldBy : Nat → List Resource
  waitingFor : List (Nat × Resource × LockMode)
  finished : List Nat

inductive LockOutcome where
  | granted
  | waits
  | lockAfterUnlock
  | deadlockVictim
deriving DecidableEq, Repr

namespace LockManager

def new : LockManager := { holders := fun _ => [], heldBy := fun _ => [], waitingFor := [], finished := [] }

def conflictingHolders (locks : LockManager) (resource : Resource) (mode : LockMode) (exclude : Nat) : List Nat :=
  ((locks.holders resource).filter fun holder => holder.1 ≠ exclude && holder.2.conflictsWith mode).map Prod.fst

def stopWaiting (locks : LockManager) (txnId : Nat) : LockManager :=
  { locks with waitingFor := locks.waitingFor.filter (·.1 ≠ txnId) }

def unvisited (locks : LockManager) (visited : List Nat) : List (Nat × Resource × LockMode) :=
  locks.waitingFor.filter (·.1 ∉ visited)

theorem unvisited_cons_sublist (locks : LockManager) (txnId : Nat) (visited : List Nat) :
    (locks.unvisited (txnId :: visited)).Sublist (locks.unvisited visited) := by
  refine List.monotone_filter_right _ fun request unseen => ?_
  simp only [decide_eq_true_eq, List.mem_cons, not_or] at unseen ⊢
  exact unseen.2

theorem unvisited_cons_lt {locks : LockManager} {txnId : Nat} {visited : List Nat}
    {request : Nat × Resource × LockMode} (found : locks.waitingFor.find? (·.1 == txnId) = some request)
    (new : txnId ∉ visited) : (locks.unvisited (txnId :: visited)).length < (locks.unvisited visited).length := by
  have waits : request.1 = txnId := by simpa using List.find?_some found
  have fewer := locks.unvisited_cons_sublist txnId visited
  refine Nat.lt_of_le_of_ne fewer.length_le fun same => ?_
  have member : request ∈ locks.unvisited visited := by
    simp only [unvisited, List.mem_filter, decide_eq_true_eq, waits]
    exact ⟨List.mem_of_find?_eq_some found, new⟩
  rw [← fewer.eq_of_length same] at member
  simp [unvisited, waits] at member

def wouldDeadlock (locks : LockManager) (start : Nat) : List Nat → List Nat → Bool
  | [], _ => false
  | txnId :: stack, visited =>
    if txnId = start then true
    else if txnId ∈ visited then locks.wouldDeadlock start stack visited
    else
      match _found : locks.waitingFor.find? (·.1 == txnId) with
      | none => locks.wouldDeadlock start stack (txnId :: visited)
      | some (_, resource, mode) =>
        locks.wouldDeadlock start ((locks.conflictingHolders resource mode txnId).reverse ++ stack)
          (txnId :: visited)
termination_by stack visited => ((locks.unvisited visited).length, stack.length)
decreasing_by
  · exact Prod.Lex.right _ (Nat.lt_succ_self _)
  · rcases Nat.lt_or_eq_of_le (locks.unvisited_cons_sublist txnId visited).length_le with fewer | same
    · exact Prod.Lex.left _ _ fewer
    · rw [same]
      exact Prod.Lex.right _ (Nat.lt_succ_self _)
  · exact Prod.Lex.left _ _ (unvisited_cons_lt (by assumption) (by assumption))

def grant (locks : LockManager) (txnId : Nat) (resource : Resource) (mode : LockMode) : LockManager :=
  { locks with
    holders := update locks.holders resource
      ((locks.holders resource).filter (·.1 ≠ txnId) ++ [(txnId, mode)])
    heldBy := update locks.heldBy txnId ((locks.heldBy txnId).insert resource) }

def attempt (locks : LockManager) (txnId : Nat) (resource : Resource) (mode : LockMode) :
    LockManager × LockOutcome :=
  let locks := locks.stopWaiting txnId
  let heldMode := ((locks.holders resource).find? (·.1 == txnId)).map Prod.snd
  if heldMode = some .exclusive ∨ heldMode = some mode then (locks, .granted)
  else
    let blockers := locks.conflictingHolders resource mode txnId
    if blockers.isEmpty then (locks.grant txnId resource mode, .granted)
    else if locks.wouldDeadlock txnId blockers.reverse [] then (locks, .deadlockVictim)
    else ({ locks with waitingFor := (txnId, resource, mode) :: locks.waitingFor }, .waits)

def acquire (locks : LockManager) (txnId : Nat) (resource : Resource) (mode : LockMode) :
    LockManager × LockOutcome :=
  if txnId ∈ locks.finished then (locks, .lockAfterUnlock) else locks.attempt txnId resource mode

def releaseAll (locks : LockManager) (txnId : Nat) : LockManager :=
  { holders := fun resource =>
      if resource ∈ locks.heldBy txnId then (locks.holders resource).filter (·.1 ≠ txnId)
      else locks.holders resource
    heldBy := update locks.heldBy txnId []
    waitingFor := (locks.stopWaiting txnId).waitingFor
    finished := locks.finished.insert txnId }

def pruneFinished (locks : LockManager) (watermark : Nat) : LockManager :=
  { locks with finished := locks.finished.filter (watermark ≤ ·) }

end LockManager

end SimpleRdbms.Txn
