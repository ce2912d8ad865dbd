import Mathlib.Tactic.Common
import SimpleRdbms.Engine.Session

namespace SimpleRdbms.Engine
open SimpleRdbms.Txn
open Function (update)

variable {Sql Value Query Data : Type}

def succeeded {α : Type} : Except SessionError α → Bool
  | .ok _ => true
  | .error _ => false

structure Keeps (s s' : EngineState Data) : Prop where
  nextTxn : s.txns.nextTxnId ≤ s'.txns.nextTxnId
  poison : s.flushPoisoned = true → s'.flushPoisoned = true

namespace Keeps
variable {s s' s'' : EngineState Data}

theorem refl (s : EngineState Data) : Keeps s s := ⟨Nat.le_refl _, id⟩

theorem trans (first : Keeps s s') (second : Keeps s' s'') : Keeps s s'' :=
  ⟨Nat.le_trans first.nextTxn second.nextTxn, fun poisoned => second.poison (first.poison poisoned)⟩

theorem setSlot {session : Nat} {slot : TxnSlot} (keeps : Keeps s s') : Keeps s (Backend.setSlot s' session slot) :=
  ⟨keeps.nextTxn, keeps.poison⟩

end Keeps

namespace Backend
variable {B : Backend Sql Value Query Data} {s : EngineState Data}

theorem setData_keeps (data : Data) : Keeps s (B.setData s data) :=
  ⟨Nat.le_refl _, fun poisoned => by simp [setData, poisoned]⟩

theorem beginTxn_keeps : Keeps s (B.beginTxn s) :=
  ⟨Nat.le_succ _, fun poisoned => by simp [beginTxn, setData, poisoned]⟩

theorem commitTxn_keeps (txnId : Nat) : Keeps s (B.commitTxn s txnId).1 := by
  unfold commitTxn
  split
  · exact Keeps.refl s
  · split
    · exact Keeps.refl s
    · dsimp only
      split <;> exact ⟨Nat.le_refl _, fun poisoned => by simp [releaseLocks, setData, poisoned]⟩

@[simp] theorem commitTxn_slots (txnId : Nat) : (B.commitTxn s txnId).1.slots = s.slots := by
  unfold commitTxn
  split
  · rfl
  · split
    · rfl
    · dsimp only
      split <;> rfl

theorem abortTxn_keeps (txnId : Nat) : Keeps s (B.abortTxn s txnId).1 := by
  unfold abortTxn
  split
  · exact Keeps.refl s
  · split
    · exact Keeps.refl s
    · dsimp only
      split <;> exact ⟨Nat.le_refl _, fun poisoned => by simp [releaseLocks, setData, poisoned]⟩

@[simp] theorem abortTxn_slots (txnId : Nat) : (B.abortTxn s txnId).1.slots = s.slots := by
  unfold abortTxn
  split
  · rfl
  · split
    · rfl
    · dsimp only
      split <;> rfl

theorem inOwnTxn_keeps (work : Data → Nat → Data × Bool) : Keeps s (B.inOwnTxn work s).1 := by
  unfold inOwnTxn
  dsimp only
  have worked : Keeps s (B.setData (B.beginTxn s) (work (B.beginTxn s).data s.txns.nextTxnId).1) :=
    beginTxn_keeps.trans (setData_keeps _)
  split
  · exact worked.trans (commitTxn_keeps _)
  · exact worked

@[simp] theorem inOwnTxn_slots (work : Data → Nat → Data × Bool) : (B.inOwnTxn work s).1.slots = s.slots := by
  unfold inOwnTxn
  dsimp only
  split
  · exact commitTxn_slots _
  · rfl

@[simp] theorem reloadCatalog_slots : (B.reloadCatalog s).1.slots = s.slots := inOwnTxn_slots B.reload

@[simp] theorem maybeCheckpoint_slots : (B.maybeCheckpoint s).slots = s.slots := by
  unfold maybeCheckpoint
  split
  · rfl
  · dsimp only
    split
    · split <;> exact inOwnTxn_slots B.setLastCheckpointLsn
    · rfl

theorem abandon_keeps (txnId : Nat) : Keeps s (B.abandon s txnId) :=
  (abortTxn_keeps txnId).trans (inOwnTxn_keeps B.reload)

@[simp] theorem abandon_slots (txnId : Nat) : (B.abandon s txnId).slots = s.slots := by
  simp [abandon]

/-! What the log, the pages and the catalog answer decides whether a transaction can end. -/

variable (B)

def canCommit (s : EngineState Data) (txnId : Nat) : Bool :=
  ((s.txns.get txnId).any fun txn => txn.state ≠ .aborted) && (B.flushCommit s.data txnId).2

def canReload (data : Data) (txnId : Nat) : Bool :=
  let reloaded := B.reload (B.logBegin data txnId) txnId
  reloaded.2 && (B.flushCommit reloaded.1 txnId).2

def canRollBack (s : EngineState Data) (txnId : Nat) : Bool :=
  let undone := B.undo s.data txnId
  ((s.txns.get txnId).any fun txn => txn.state ≠ .aborted) && undone.2 && B.canReload undone.1 s.txns.nextTxnId

variable {B}

theorem succeeded_commitTxn (txnId : Nat) : succeeded (B.commitTxn s txnId).2 = B.canCommit s txnId := by
  unfold commitTxn canCommit
  cases s.txns.get txnId with
  | none => rfl
  | some txn =>
    dsimp only [Option.any_some]
    split
    · rename_i aborted
      simp [aborted, succeeded]
    · rename_i growing
      split <;> simp_all [succeeded]

theorem succeeded_reloadCatalog : succeeded (B.reloadCatalog s).2 = B.canReload s.data s.txns.nextTxnId := by
  unfold reloadCatalog inOwnTxn canReload
  dsimp only
  split
  · rename_i worked
    rw [succeeded_commitTxn, canCommit]
    have begun : (B.setData (B.beginTxn s) (B.reload (B.beginTxn s).data s.txns.nextTxnId).1).txns.get
      s.txns.nextTxnId = some ⟨s.txns.nextTxnId, .growing, 0, s.txns.nextTs⟩ := by
      simp [setData, beginTxn, TransactionManager.get, TransactionManager.begin]
    rw [begun, show (B.reload (B.logBegin s.data s.txns.nextTxnId) s.txns.nextTxnId).2 = true from worked]
    rfl
  · rename_i failed
    rw [show (B.reload (B.logBegin s.data s.txns.nextTxnId) s.txns.nextTxnId).2 =
      false from Bool.eq_false_iff.mpr failed]
    rfl

theorem succeeded_endByAbort (session txnId : Nat) :
    succeeded (B.endByAbort s session txnId).2 = B.canRollBack s txnId := by
  have reloads : succeeded (B.abortTxn s txnId).2 = true →
      succeeded (B.reloadCatalog (B.abortTxn s txnId).1).2 =
        B.canReload (B.undo s.data txnId).1 s.txns.nextTxnId := by
    intro aborted
    rw [succeeded_reloadCatalog]
    revert aborted
    unfold abortTxn
    split
    · exact fun failed => absurd failed Bool.false_ne_true
    · split
      · exact fun failed => absurd failed Bool.false_ne_true
      · dsimp only
        split
        · exact fun _ => rfl
        · exact fun failed => absurd failed Bool.false_ne_true
  have undoes : succeeded (B.abortTxn s txnId).2 =
      (((s.txns.get txnId).any fun txn => txn.state ≠ .aborted) && (B.undo s.data txnId).2) := by
    unfold abortTxn
    cases s.txns.get txnId with
    | none => rfl
    | some txn =>
      dsimp only [Option.any_some]
      split
      · rename_i aborted
        simp [aborted, succeeded]
      · rename_i growing
        split <;> simp_all [succeeded]
  unfold endByAbort andThen canRollBack
  dsimp only
  rw [← undoes]
  cases aborted : (B.abortTxn s txnId).2 with
  | error err => rfl
  | ok _ =>
    rw [← reloads (by rw [aborted]; rfl)]
    dsimp only
    cases (B.reloadCatalog (B.abortTxn s txnId).1).2 <;> rfl

end Backend

end SimpleRdbms.Engine
