import Mathlib.Order.BooleanAlgebra.Set
import SimpleRdbms.Engine.Workers
import SimpleRdbms.Proof.Sessions

namespace SimpleRdbms.Txn
open Function (update)

namespace LockManager
variable {locks : LockManager} {txnId : Nat} {resource : Resource} {mode : LockMode}

def Consistent (locks : LockManager) : Prop :=
  ∀ resource, ∀ holder ∈ locks.holders resource, resource ∈ locks.heldBy holder.1

theorem Consistent.new : Consistent new := by
  intro resource holder held
  simp [LockManager.new] at held

variable {other : Resource} {holder : Nat × LockMode}

theorem grant_holders (held : holder ∈ (locks.grant txnId resource mode).holders other) :
    holder ∈ locks.holders other ∨ holder.1 = txnId ∧ other = resource := by
  by_cases here : other = resource
  · subst here
    simp only [grant, Function.update_self, List.mem_append, List.mem_filter, List.mem_singleton] at held
    rcases held with old | new
    · exact .inl old.1
    · exact .inr ⟨by rw [new], rfl⟩
  · simp only [grant, Function.update_of_ne here] at held
    exact .inl held

theorem Consistent.grant (consistent : locks.Consistent) : (locks.grant txnId resource mode).Consistent := by
  intro other holder held
  have kept : other ∈ locks.heldBy holder.1 ∨ holder.1 = txnId ∧ other = resource :=
    (grant_holders held).imp_left (consistent other holder)
  by_cases mine : holder.1 = txnId
  · simp only [LockManager.grant, mine, Function.update_self, List.mem_insert_iff]
    rw [mine] at kept
    exact kept.elim .inr fun new => .inl new.2
  · simp only [LockManager.grant, Function.update_of_ne mine]
    exact kept.resolve_right fun new => mine new.1

theorem attempt_cases : (locks.attempt txnId resource mode).1.holders = locks.holders ∧
      (locks.attempt txnId resource mode).1.heldBy = locks.heldBy ∨
    (locks.attempt txnId resource mode).1 = (locks.stopWaiting txnId).grant txnId resource mode := by
  unfold attempt
  dsimp only
  split
  · exact .inl ⟨rfl, rfl⟩
  · split
    · exact .inr rfl
    · split <;> exact .inl ⟨rfl, rfl⟩

theorem attempt_holders (held : holder ∈ (locks.attempt txnId resource mode).1.holders other) :
    holder ∈ locks.holders other ∨ holder.1 = txnId := by
  rcases @attempt_cases locks txnId resource mode with ⟨holders, -⟩ | granted
  · exact .inl (by rwa [holders] at held)
  · rw [granted] at held
    exact (grant_holders held).imp_right And.left

theorem Consistent.attempt (consistent : locks.Consistent) : (locks.attempt txnId resource mode).1.Consistent := by
  rcases @attempt_cases locks txnId resource mode with ⟨holders, heldBy⟩ | granted
  · intro other holder held
    rw [heldBy]
    exact consistent other holder (by rwa [holders] at held)
  · rw [granted]
    exact @Consistent.grant (locks.stopWaiting txnId) txnId resource mode consistent

theorem acquire_holders (held : holder ∈ (locks.acquire txnId resource mode).1.holders other) :
    holder ∈ locks.holders other ∨ holder.1 = txnId := by
  unfold acquire at held
  split at held
  · exact .inl held
  · exact attempt_holders held

theorem Consistent.acquire (consistent : locks.Consistent) : (locks.acquire txnId resource mode).1.Consistent := by
  unfold LockManager.acquire
  split
  · exact consistent
  · exact consistent.attempt

theorem releaseAll_holders (consistent : locks.Consistent)
    (held : holder ∈ (locks.releaseAll txnId).holders other) : holder ∈ locks.holders other ∧ holder.1 ≠ txnId := by
  simp only [releaseAll] at held
  split at held
  · simpa using held
  · rename_i free
    refine ⟨held, ?_⟩
    rintro rfl
    exact free (consistent other holder held)

theorem Consistent.releaseAll (consistent : locks.Consistent) : (locks.releaseAll txnId).Consistent := by
  intro other holder held
  obtain ⟨old, different⟩ := releaseAll_holders consistent held
  simp only [LockManager.releaseAll, Function.update_of_ne different]
  exact consistent other holder old

end LockManager

namespace TransactionManager
variable {manager : TransactionManager} {txnId : Nat}

def ids (manager : TransactionManager) : List Nat := manager.active.map (·.txnId)

theorem setState_ids {state : TransactionState} : (manager.setState txnId state).ids = manager.ids := by
  simp only [ids, setState, List.map_map]
  refine List.map_congr_left fun txn _ => ?_
  simp only [Function.comp_apply]
  split <;> rfl

theorem remove_ids : (manager.remove txnId).ids = manager.ids.filter (· ≠ txnId) := by
  simp [ids, remove, List.filter_map, Function.comp_def]

theorem finishCommit_ids : (manager.finishCommit txnId).ids = manager.ids.filter (· ≠ txnId) := remove_ids

theorem finishAbort_ids : (manager.finishAbort txnId).ids = manager.ids.filter (· ≠ txnId) := remove_ids

end TransactionManager

end SimpleRdbms.Txn

namespace SimpleRdbms.Engine
open SimpleRdbms.Lib SimpleRdbms.Txn
open Function (update)

variable {Sql Value Query Data : Type} {B : Backend Sql Value Query Data}
variable {s s' : EngineState Data} {owned : Set Nat} {txnId : Nat}

structure Accounts (owned : Set Nat) (s : EngineState Data) : Prop where
  active : ∀ txnId, txnId ∈ s.txns.ids ↔ txnId ∈ owned
  begun : ∀ txnId ∈ owned, txnId < s.txns.nextTxnId
  consistent : s.locks.Consistent
  held : ∀ resource, ∀ holder ∈ s.locks.holders resource, holder.1 ∈ owned

namespace Accounts

section
variable (accounts : Accounts owned s)
include accounts

theorem frame (ids : s'.txns.ids = s.txns.ids)
    (next : s'.txns.nextTxnId = s.txns.nextTxnId) (locks : s'.locks = s.locks) : Accounts owned s' where
  active txnId := by rw [ids]; exact accounts.active txnId
  begun txnId member := by rw [next]; exact accounts.begun txnId member
  consistent := by rw [locks]; exact accounts.consistent
  held := by rw [locks]; exact accounts.held

theorem setData (data : Data) : Accounts owned (B.setData s data) :=
  accounts.frame rfl rfl rfl

theorem setSlot (session : Nat) (slot : TxnSlot) : Accounts owned (Backend.setSlot s session slot) :=
  accounts.frame rfl rfl rfl

theorem beginTxn : Accounts (insert s.txns.nextTxnId owned) (B.beginTxn s) where
  active txnId := by
    have old := accounts.active txnId
    simp only [TransactionManager.ids] at old
    simp [TransactionManager.ids, Backend.beginTxn, TransactionManager.begin, old]
  begun txnId member := by
    rcases member with rfl | old
    · exact Nat.lt_succ_self _
    · exact Nat.lt_succ_of_lt (accounts.begun txnId old)
  consistent := accounts.consistent
  held resource holder held := .inr (accounts.held resource holder held)

theorem ended {txns : TransactionManager} {data : Data}
    (ids : txns.ids = s.txns.ids.filter (· ≠ txnId)) (next : txns.nextTxnId = s.txns.nextTxnId) :
    Accounts (owned \ {txnId}) (Backend.releaseLocks { B.setData s data with txns } txnId) where
  active other := by
    simp only [Backend.releaseLocks, ids, List.mem_filter, decide_eq_true_eq, accounts.active other]
    rfl
  begun other member := by
    simp only [Backend.releaseLocks, next]
    exact accounts.begun other member.1
  consistent := accounts.consistent.releaseAll
  held resource holder held := by
    obtain ⟨old, different⟩ := LockManager.releaseAll_holders accounts.consistent held
    exact ⟨accounts.held resource holder old, different⟩

theorem commitTxn (txnId : Nat) :
    Accounts (if succeeded (B.commitTxn s txnId).2 then owned \ {txnId} else owned) (B.commitTxn s txnId).1 := by
  unfold Backend.commitTxn
  split
  · exact accounts
  · split
    · exact accounts
    · dsimp only
      split
      · exact accounts.ended TransactionManager.finishCommit_ids rfl
      · exact accounts.setData _

theorem abortTxn (txnId : Nat) :
    Accounts (if succeeded (B.abortTxn s txnId).2 then owned \ {txnId} else owned) (B.abortTxn s txnId).1 := by
  unfold Backend.abortTxn
  split
  · exact accounts
  · split
    · exact accounts
    · dsimp only
      split
      · refine accounts.ended ?_ rfl
        rw [TransactionManager.finishAbort_ids, TransactionManager.beginAbort, TransactionManager.setState_ids]
      · refine accounts.frame ?_ rfl rfl
        simp only [TransactionManager.cancelAbort, TransactionManager.beginAbort,
          TransactionManager.setState_ids]

theorem inOwnTxn (work : Data → Nat → Data × Bool) :
    Accounts (if succeeded (B.inOwnTxn work s).2 then owned else insert s.txns.nextTxnId owned)
      (B.inOwnTxn work s).1 := by
  have fresh : s.txns.nextTxnId ∉ owned := fun member => Nat.lt_irrefl _ (accounts.begun _ member)
  have worked : Accounts (insert s.txns.nextTxnId owned)
      (B.setData (B.beginTxn s) (work (B.beginTxn s).data s.txns.nextTxnId).1) := accounts.beginTxn.setData _
  unfold Backend.inOwnTxn
  dsimp only
  split
  · have committed := worked.commitTxn (B := B) s.txns.nextTxnId
    rwa [Set.insert_sdiff_self_of_notMem fresh] at committed
  · exact worked

end

end Accounts

namespace Backend
variable (B)

def headed (s : EngineState Data) : Bool :=
  s.flushPoisoned || !B.checkpointDue s.data || !(B.recordCheckpoint s.data).2 ||
    succeeded (B.inOwnTxn B.setLastCheckpointLsn (B.setData s (B.recordCheckpoint s.data).1)).2

def abandons (s : EngineState Data) (txnId : Nat) : Bool :=
  succeeded (B.abortTxn s txnId).2 && succeeded (B.reloadCatalog (B.abortTxn s txnId).1).2

end Backend

namespace Accounts

theorem maybeCheckpoint (accounts : Accounts owned s) :
    Accounts (if B.headed s then owned else insert s.txns.nextTxnId owned) (B.maybeCheckpoint s) := by
  cases quiet : s.flushPoisoned || !B.checkpointDue s.data with
  | true => simpa only [Backend.maybeCheckpoint, Backend.headed, quiet, Bool.true_or, if_true] using accounts
  | false =>
    have recordedData := accounts.setData (B := B) (B.recordCheckpoint s.data).1
    simp only [Backend.maybeCheckpoint, Backend.headed, quiet, Bool.false_or, Bool.false_eq_true, if_false]
    cases recorded : (B.recordCheckpoint s.data).2 with
    | false => simpa only [Bool.not_false, Bool.true_or, Bool.false_eq_true, if_false, if_true] using recordedData
    | true =>
      have header := recordedData.inOwnTxn (B := B) B.setLastCheckpointLsn
      simp only [Bool.not_true, Bool.false_or, if_true]
      cases result : (B.inOwnTxn B.setLastCheckpointLsn (B.setData s (B.recordCheckpoint s.data).1)).2 with
      | ok _ =>
        rw [result] at header
        exact header.setData _
      | error err =>
        rw [result] at header
        exact header

end Accounts

def TxnSlot.ids (slot : TxnSlot) : Set Nat := {txnId | slot.txnId = some txnId}

def Ledger (session : Nat) (owned : Set Nat) (s s' : EngineState Data) (leakFree : Prop) : Prop :=
  ∃ slot, s'.slots = update s.slots session slot ∧
    (∀ txnId ∈ slot.ids, txnId ∈ (s.slots session).ids ∨ txnId = s.txns.nextTxnId) ∧
    (leakFree → Accounts ((owned \ (s.slots session).ids) ∪ slot.ids) s') ∧
    (¬leakFree → ∃ txnId ∈ s'.txns.ids, txnId ∉ (owned \ (s.slots session).ids) ∪ slot.ids)

namespace Ledger
variable {session : Nat} {leakFree : Prop}

theorem kept (slot : TxnSlot) (known : (s.slots session).ids ⊆ owned) (slots : s'.slots = update s.slots session slot)
    (same : slot.ids = (s.slots session).ids) (clean : leakFree → Accounts owned s')
    (leaky : ¬leakFree → ∃ leaked ∈ s'.txns.ids, leaked ∉ owned) : Ledger session owned s s' leakFree := by
  refine ⟨slot, slots, fun _ member => .inl (same ▸ member), ?_⟩
  rw [same, Set.sdiff_union_of_subset known]
  exact ⟨clean, leaky⟩

theorem unchanged (accounts : Accounts owned s') (known : (s.slots session).ids ⊆ owned)
    (slots : s'.slots = s.slots) (holds : leakFree) : Ledger session owned s s' leakFree :=
  kept (s.slots session) known (by rw [slots, Function.update_eq_self]) rfl (fun _ => accounts) fun leaks =>
    absurd holds leaks

theorem dropped (slot : TxnSlot) (slots : s'.slots = update s.slots session slot) (empty : slot.txnId = none)
    (old : (s.slots session).txnId = some txnId) (clean : leakFree → Accounts (owned \ {txnId}) s')
    (leaky : ¬leakFree → ∃ leaked ∈ s'.txns.ids, leaked ∉ owned \ {txnId}) : Ledger session owned s s' leakFree := by
  have before : (s.slots session).ids = {txnId} := by
    ext other
    simp [TxnSlot.ids, old, eq_comm]
  have after : slot.ids = ∅ := by
    ext other
    simp [TxnSlot.ids, empty]
  refine ⟨slot, slots, ?_⟩
  rw [before, after, Set.union_empty]
  exact ⟨nofun, clean, leaky⟩

end Ledger

namespace Accounts
variable {session : Nat}

theorem fresh_notMem (accounts : Accounts owned s) {txns : TransactionManager}
    (later : s.txns.nextTxnId ≤ txns.nextTxnId) : txns.nextTxnId ∉ owned :=
  fun member => absurd (accounts.begun _ member) (by omega)

theorem mem_ids_of_insert (accounts : Accounts (insert txnId owned) s) : txnId ∈ s.txns.ids :=
  (accounts.active txnId).mpr (.inl rfl)

theorem abandon (accounts : Accounts owned s) (aborted : succeeded (B.abortTxn s txnId).2 = true) :
    Accounts (if B.abandons s txnId then owned \ {txnId}
      else insert (B.abortTxn s txnId).1.txns.nextTxnId (owned \ {txnId})) (B.abandon s txnId) := by
  have first := accounts.abortTxn (B := B) txnId
  rw [aborted, if_pos rfl] at first
  rw [Backend.abandons, aborted, Bool.true_and]
  exact first.inOwnTxn (B := B) B.reload

theorem abandon_clean (accounts : Accounts owned s) (clean : B.abandons s txnId = true) :
    Accounts (owned \ {txnId}) (B.abandon s txnId) := by
  have aborted : succeeded (B.abortTxn s txnId).2 = true := by
    rw [Backend.abandons, Bool.and_eq_true] at clean
    exact clean.1
  have ended := accounts.abandon aborted
  rwa [clean, if_pos rfl] at ended

theorem abandon_leaky (accounts : Accounts owned s) (known : txnId ∈ owned) (leaks : ¬B.abandons s txnId = true) :
    ∃ leaked ∈ (B.abandon s txnId).txns.ids, leaked ∉ owned \ {txnId} := by
  cases aborted : succeeded (B.abortTxn s txnId).2 with
  | true =>
    have ended := accounts.abandon aborted
    rw [if_neg leaks] at ended
    refine ⟨_, ended.mem_ids_of_insert, fun member => ?_⟩
    exact accounts.fresh_notMem (@Backend.abortTxn_keeps _ _ _ _ B s txnId).nextTxn member.1
  | false =>
    have first := accounts.abortTxn (B := B) txnId
    rw [aborted] at first
    have second := first.inOwnTxn (B := B) B.reload
    refine ⟨txnId, (second.active txnId).mpr ?_, fun member => member.2 rfl⟩
    split
    · exact known
    · exact .inr known

theorem abandon_ledger (accounts : Accounts owned s) (slot : TxnSlot) (empty : slot.txnId = none)
    (old : (s.slots session).txnId = some txnId) (known : (s.slots session).ids ⊆ owned) :
    Ledger session owned s (Backend.setSlot (B.abandon s txnId) session slot)
      (B.abandons s txnId = true) := by
  refine .dropped slot (by simp [Backend.setSlot]) empty old ?_ ?_
  · exact fun clean => (accounts.abandon_clean clean).setSlot session slot
  · exact fun leaks => accounts.abandon_leaky (known old) leaks

theorem checkpoint_ledger (accounts : Accounts owned s) {ended : EngineState Data}
    (old : (s.slots session).txnId = some txnId) (slots : ended.slots = s.slots)
    (later : s.txns.nextTxnId ≤ ended.txns.nextTxnId) (after : Accounts (owned \ {txnId}) ended) :
    Ledger session owned s (B.maybeCheckpoint (Backend.setSlot ended session .none))
      (B.headed (Backend.setSlot ended session .none) = true) := by
  have checkpoint := (after.setSlot session .none).maybeCheckpoint (B := B)
  refine .dropped .none ?_ rfl old (fun clean => ?_) fun leaks => ?_
  · rw [Backend.maybeCheckpoint_slots]
    exact congrArg (update · session .none) slots
  · rwa [if_pos clean] at checkpoint
  · rw [if_neg leaks] at checkpoint
    exact ⟨_, checkpoint.mem_ids_of_insert, fun member => accounts.fresh_notMem later member.1⟩

end Accounts

namespace Backend
variable (B)

def rollsBack (s : EngineState Data) (session txnId : Nat) : Bool :=
  !succeeded (B.abortTxn s txnId).2 ||
    (succeeded (B.reloadCatalog (B.abortTxn s txnId).1).2 &&
      B.headed (setSlot (B.abandon s txnId) session .none))

def finishSettles (s : EngineState Data) (txnId : Nat) : Bool → Bool
  | true => succeeded (B.commitTxn s txnId).2 && B.headed (B.commitTxn s txnId).1
  | false => B.abandons s txnId

def commitsOpen (s : EngineState Data) (session txnId : Nat) : Bool :=
  !succeeded (B.commitTxn s txnId).2 || B.headed (setSlot (B.commitTxn s txnId).1 session .none)

def requestSettles (s : EngineState Data) (session : Nat) (sql : Sql) (params : List Value) : Bool :=
  s.flushPoisoned ||
    match s.slots session, B.prepare sql params with
    | .active txnId, .ok .commit => B.commitsOpen s session txnId
    | .aborted txnId, .ok .commit | .active txnId, .ok .rollback | .aborted txnId, .ok .rollback =>
      B.rollsBack s session txnId
    | _, _ => true

end Backend

namespace Accounts
variable {session : Nat}

theorem endByAbort_ledger (accounts : Accounts owned s) (old : (s.slots session).txnId = some txnId)
    (known : (s.slots session).ids ⊆ owned) :
    Ledger session owned s (B.endByAbort s session txnId).1 (B.rollsBack s session txnId = true) := by
  have first := accounts.abortTxn (B := B) txnId
  have later := (@Backend.abortTxn_keeps _ _ _ _ B s txnId).nextTxn
  unfold Backend.endByAbort Backend.andThen Backend.rollsBack
  cases aborted : (B.abortTxn s txnId).2 with
  | error err =>
    rw [aborted] at first
    exact .unchanged first known (Backend.abortTxn_slots txnId) rfl
  | ok _ =>
    have gone : succeeded (B.abortTxn s txnId).2 = true := by rw [aborted]; rfl
    have second := accounts.abandon gone
    dsimp only
    cases reloaded : (B.reloadCatalog (B.abortTxn s txnId).1).2 with
    | error err =>
      have leaks : B.abandons s txnId = false := by simp [Backend.abandons, reloaded, succeeded]
      rw [leaks] at second
      refine .kept (s.slots session) known (by simp) rfl (by simp [succeeded]) fun _ => ?_
      exact ⟨_, second.mem_ids_of_insert, accounts.fresh_notMem later⟩
    | ok _ =>
      have clean : B.abandons s txnId = true := by simp [Backend.abandons, aborted, reloaded, succeeded]
      rw [clean] at second
      refine accounts.checkpoint_ledger old (Backend.abandon_slots txnId) ?_ second
      exact (Backend.abandon_keeps txnId).nextTxn

theorem handleBegin_ledger (accounts : Accounts owned s) (known : (s.slots session).ids ⊆ owned) :
    Ledger session owned s (B.handleBegin s session).1 True := by
  unfold Backend.handleBegin
  split
  · exact .unchanged accounts known rfl trivial
  · rename_i empty
    have before : (s.slots session).ids = ∅ := by
      ext other
      simp [TxnSlot.ids, empty]
    have after : (TxnSlot.active s.txns.nextTxnId).ids = {s.txns.nextTxnId} := by
      ext other
      simp [TxnSlot.ids, TxnSlot.txnId, eq_comm]
    refine ⟨.active s.txns.nextTxnId, rfl, ?_, fun _ => ?_, fun leaks => absurd trivial leaks⟩
    · rw [after]
      exact fun _ member => .inr member
    · rw [before, after, Set.sdiff_empty, Set.union_singleton]
      exact accounts.beginTxn.setSlot session _

theorem handleCommit_ledger (accounts : Accounts owned s) (known : (s.slots session).ids ⊆ owned) :
    Ledger session owned s (B.handleCommit s session).1
      (match s.slots session with
        | .active txnId => B.commitsOpen s session txnId = true
        | .aborted txnId => B.rollsBack s session txnId = true
        | .none | .timedOut => True) := by
  unfold Backend.handleCommit
  cases slot : s.slots session with
  | none => exact .unchanged accounts known rfl trivial
  | timedOut => exact .unchanged accounts known rfl trivial
  | aborted txnId => exact accounts.endByAbort_ledger (by rw [slot]; rfl) known
  | active txnId =>
    have first := accounts.commitTxn (B := B) txnId
    have keeps := Backend.commitTxn_keeps (B := B) (s := s) txnId
    have slots := Backend.commitTxn_slots (B := B) (s := s) txnId
    dsimp only
    unfold Backend.andThen Backend.commitsOpen
    cases committed : (B.commitTxn s txnId).2 with
    | error err =>
      rw [committed] at first
      exact .unchanged first known slots rfl
    | ok _ =>
      rw [committed] at first
      exact accounts.checkpoint_ledger (by rw [slot]; rfl) slots keeps.nextTxn first

theorem handleRollback_ledger (accounts : Accounts owned s) (known : (s.slots session).ids ⊆ owned) :
    Ledger session owned s (B.handleRollback s session).1
      (∀ txnId, (s.slots session).txnId = some txnId → B.rollsBack s session txnId = true) := by
  unfold Backend.handleRollback
  cases slot : (s.slots session).txnId with
  | none => exact .unchanged accounts known rfl nofun
  | some txnId =>
    simp only [Option.some.injEq, forall_eq']
    exact accounts.endByAbort_ledger slot known

theorem request_ledger (accounts : Accounts owned s) (known : (s.slots session).ids ⊆ owned) {sql : Sql}
    {params : List Value} (answered : Workers.starts B s session sql params = none) :
    Ledger session owned s (B.executeWithParams s session sql params).1
      (B.requestSettles s session sql params = true) := by
  unfold Backend.executeWithParams Backend.requestSettles
  split
  · rename_i poisoned
    exact .unchanged accounts known rfl (by simp [poisoned])
  · rename_i healthy
    rw [Bool.not_eq_true] at healthy
    rw [healthy, Bool.false_or]
    unfold Backend.executeImpl
    split
    · rename_i slot
      refine .kept .none known rfl ?_ (fun _ => accounts.setSlot session .none) ?_
      · rw [slot]
        rfl
      · simp [slot]
    · rename_i awake
      cases prepared : B.prepare sql params with
      | error err =>
        refine .unchanged accounts known rfl ?_
        cases s.slots session <;> rfl
      | ok statement =>
        cases statement with
        | begin =>
          have ledger := accounts.handleBegin_ledger (B := B) known
          cases slot : s.slots session <;> simpa [Backend.dispatch] using ledger
        | commit =>
          have ledger := accounts.handleCommit_ledger (B := B) known
          cases slot : s.slots session <;> simpa [Backend.dispatch, slot] using ledger
        | rollback =>
          have ledger := accounts.handleRollback_ledger (B := B) known
          cases slot : s.slots session <;> simpa [Backend.dispatch, slot, TxnSlot.txnId] using ledger
        | explain query =>
          have same : (B.dispatch s session (.explain query)).1 = s := by
            simp only [Backend.dispatch, Backend.handleExplain]
            split <;> rfl
          dsimp only
          rw [same]
          refine .unchanged accounts known rfl ?_
          cases s.slots session <;> rfl
        | other query =>
          -- Only in a failed transaction is the statement not started.
          cases slot : s.slots session with
          | aborted txnId =>
            refine .unchanged ?_ known ?_ rfl
            · simpa [Backend.dispatch, Backend.executeNonControlStatement, slot] using accounts
            · simp [Backend.dispatch, Backend.executeNonControlStatement, slot]
          | timedOut => exact absurd slot awake
          | none | active _ =>
            simp [Workers.starts, healthy, slot, prepared, Backend.txnForStatement, Except.toOption]
              at answered

end Accounts

end SimpleRdbms.Engine
