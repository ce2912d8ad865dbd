import Mathlib.Data.List.Nodup
import Mathlib.Tactic.Common
import SimpleRdbms.Txn.LockTables

namespace SimpleRdbms.Txn
open Function (update)

theorem LockMode.conflictsWith_eq_false {held mode : LockMode} :
    held.conflictsWith mode = false ↔ held = .shared ∧ mode = .shared := by
  cases held <;> cases mode <;> simp [LockMode.conflictsWith]

namespace LockTables
variable {tables after : LockTables} {request : LockRequest} {expired : Bool} {answer : LockAnswer}

inductive Attempts (tables : LockTables) (request : LockRequest) : LockTables → LockAnswer → Prop
  | held : (tables.heldMode request = some .exclusive ∨ tables.heldMode request = some request.mode) →
      Attempts tables request (tables.stopWaiting request.txnId) .ok
  | grant : tables.blockers request = [] →
      Attempts tables request ((tables.stopWaiting request.txnId).grant request) .ok
  | deadlock : (tables.stopWaiting request.txnId).read.wouldDeadlock request.txnId
        (tables.blockers request).reverse [] = true →
      Attempts tables request (tables.stopWaiting request.txnId) .deadlockVictim
  | timeout : Attempts tables request
      (((tables.stopWaiting request.txnId).startWaiting request).stopWaiting request.txnId) .lockTimeout
  | wait : (tables.stopWaiting request.txnId).read.wouldDeadlock request.txnId
        (tables.blockers request).reverse [] = false →
      Attempts tables request ((tables.stopWaiting request.txnId).startWaiting request) .waits

theorem attempts (tables : LockTables) (request : LockRequest) (expired : Bool) :
    Attempts tables request (tables.attempt request expired).1 (tables.attempt request expired).2 := by
  unfold attempt
  dsimp only
  split_ifs with held blocked deadlock late
  · exact .held held
  · exact .grant (List.isEmpty_iff.mp blocked)
  · exact .deadlock deadlock
  · exact .timeout
  · exact .wait ((Bool.not_eq_true _).mp deadlock)

/-! The sections without a timeout are those of the lock manager whose maps have no empty lists. -/

theorem read_grant (tables : LockTables) (request : LockRequest) :
    (tables.grant request).read = tables.read.grant request.txnId request.resource request.mode := by
  simp only [read, LockManager.grant, LockManager.mk.injEq]
  refine ⟨funext fun resource => ?_, funext fun txnId => ?_, rfl, rfl⟩
  · by_cases same : resource = request.resource
    · subst same
      simp [occupants, grant]
    · simp [occupants, grant, same]
  · by_cases same : txnId = request.txnId
    · subst same
      simp [held, grant]
    · simp [held, grant, same]

theorem read_attempt (tables : LockTables) (request : LockRequest) :
    (tables.attempt request false).1.read = (tables.read.attempt request.txnId request.resource request.mode).1 ∧
      (tables.attempt request false).2 =
        (tables.read.attempt request.txnId request.resource request.mode).2.answer := by
  have mode : (tables.stopWaiting request.txnId).heldMode request =
      (((tables.read.stopWaiting request.txnId).holders request.resource).find? (·.1 == request.txnId)).map
        Prod.snd := rfl
  have blocked : (tables.stopWaiting request.txnId).blockers request =
      (tables.read.stopWaiting request.txnId).conflictingHolders request.resource request.mode request.txnId := rfl
  have search : (tables.stopWaiting request.txnId).read = tables.read.stopWaiting request.txnId := rfl
  simp only [attempt, LockManager.attempt, mode, blocked, search, Bool.false_eq_true, if_false]
  split_ifs
  · exact ⟨rfl, rfl⟩
  · exact ⟨read_grant _ _, rfl⟩
  · exact ⟨rfl, rfl⟩
  · exact ⟨rfl, rfl⟩

theorem attempt_expired (tables : LockTables) (request : LockRequest) :
    tables.attempt request true = tables.attempt request false ∨
      (tables.attempt request false).2 = .waits ∧
        tables.attempt request true = ((tables.attempt request false).1.stopWaiting request.txnId, .lockTimeout) := by
  simp only [attempt]
  split_ifs <;> simp

theorem read_acquire (tables : LockTables) (request : LockRequest) :
    (tables.acquire request false).1.read = (tables.read.acquire request.txnId request.resource request.mode).1 ∧
      (tables.acquire request false).2 =
        (tables.read.acquire request.txnId request.resource request.mode).2.answer := by
  have finished : tables.read.finished = tables.finished := rfl
  simp only [acquire, LockManager.acquire, finished]
  split_ifs
  · exact ⟨rfl, rfl⟩
  · exact read_attempt tables request

theorem read_releaseAll (tables : LockTables) (txnId : Nat) :
    (tables.releaseAll txnId).read = tables.read.releaseAll txnId := by
  simp only [read, LockManager.releaseAll, LockManager.mk.injEq]
  refine ⟨funext fun resource => ?_, funext fun other => ?_, rfl, rfl⟩
  · simp only [occupants, releaseAll]
    by_cases held : resource ∈ tables.held txnId
    · simp only [held, if_true]
      cases tables.holders resource with
      | none => rfl
      | some holders =>
        simp only [Option.bind_some, Option.getD_some]
        split_ifs with empty
        · exact (List.isEmpty_iff.mp empty).symm
        · rfl
    · simp only [held, if_false]
  · by_cases same : other = txnId
    · subst same
      simp [held, releaseAll]
    · simp [held, releaseAll, same]

theorem read_pruneFinished (tables : LockTables) (watermark : Nat) :
    (tables.pruneFinished watermark).read = tables.read.pruneFinished watermark := rfl

@[simp] theorem waiting_stopWaiting (tables : LockTables) (txnId other : Nat) :
    (tables.stopWaiting txnId).waiting other = if other = txnId then none else tables.waiting other := by
  simp only [waiting, stopWaiting, List.find?_filter]
  split_ifs with same
  · subst same
    simp
  · congr 2
    funext entry
    by_cases this : entry.1 = other
    · simp [this, same]
    · simp [this]

@[simp] theorem waiting_startWaiting (tables : LockTables) (request : LockRequest) (other : Nat) :
    (tables.startWaiting request).waiting other =
      if other = request.txnId then some (request.resource, request.mode) else tables.waiting other := by
  simp only [waiting, startWaiting, List.find?_cons]
  split_ifs with same
  · simp [same]
  · simp [beq_false_of_ne (Ne.symm same)]

@[simp] theorem waiting_grant (tables : LockTables) (request : LockRequest) (other : Nat) :
    (tables.grant request).waiting other = tables.waiting other := rfl

@[simp] theorem waiting_releaseAll (tables : LockTables) (txnId other : Nat) :
    (tables.releaseAll txnId).waiting other = if other = txnId then none else tables.waiting other :=
  waiting_stopWaiting tables txnId other

theorem mem_occupants_grant {resource : Resource} {holder : Nat × LockMode} :
    holder ∈ (tables.grant request).occupants resource ↔
      resource = request.resource ∧ holder = (request.txnId, request.mode) ∨
        holder ∈ tables.occupants resource ∧ ¬ (resource = request.resource ∧ holder.1 = request.txnId) := by
  by_cases same : resource = request.resource
  · subst same
    simp [occupants, grant, or_comm]
  · simp [occupants, grant, same]

theorem mem_held_grant {resource : Resource} {txnId : Nat} :
    resource ∈ (tables.grant request).held txnId ↔
      txnId = request.txnId ∧ resource = request.resource ∨ resource ∈ tables.held txnId := by
  by_cases same : txnId = request.txnId
  · subst same
    simp [held, grant]
  · simp [held, grant, same]

structure Consistent (tables : LockTables) : Prop where
  compatible : ∀ resource, ∀ a ∈ tables.occupants resource, ∀ b ∈ tables.occupants resource,
    a.1 = b.1 ∨ a.2 = .shared ∧ b.2 = .shared
  once : ∀ resource, ((tables.occupants resource).map Prod.fst).Nodup
  mirrored : ∀ txnId resource, resource ∈ tables.held txnId ↔ ∃ mode, (txnId, mode) ∈ tables.occupants resource
  occupied : ∀ resource, tables.holders resource ≠ some []

theorem Consistent.new : Consistent LockTables.new where
  compatible := by simp [LockTables.new, occupants]
  once := by simp [LockTables.new, occupants]
  mirrored := by simp [LockTables.new, occupants, held]
  occupied := by simp [LockTables.new]

theorem Consistent.of_same (consistent : tables.Consistent) (holders : after.holders = tables.holders)
    (heldBy : after.heldBy = tables.heldBy) : after.Consistent := by
  have occupants_eq : after.occupants = tables.occupants := by
    funext resource
    simp [occupants, holders]
  have held_eq : after.held = tables.held := by
    funext txnId
    simp [held, heldBy]
  exact {
    compatible := occupants_eq ▸ consistent.compatible
    once := occupants_eq ▸ consistent.once
    mirrored := occupants_eq ▸ held_eq ▸ consistent.mirrored
    occupied := holders ▸ consistent.occupied }

theorem not_blocked (free : tables.blockers request = []) {holder : Nat × LockMode}
    (member : holder ∈ tables.occupants request.resource) (other : holder.1 ≠ request.txnId) :
    holder.2 = .shared ∧ request.mode = .shared := by
  have none : holder.1 ∉ tables.blockers request := by simp [free]
  rw [← LockMode.conflictsWith_eq_false]
  by_contra conflict
  refine none (List.mem_map_of_mem (List.mem_filter.mpr ⟨member, ?_⟩))
  simp only [other, decide_not, decide_false, Bool.not_false, Bool.true_and]
  simpa using conflict

theorem Consistent.grant (consistent : tables.Consistent) (free : tables.blockers request = []) :
    (tables.grant request).Consistent where
  compatible := by
    intro resource a memberA b memberB
    rcases mem_occupants_grant.mp memberA with ⟨rfl, rfl⟩ | ⟨oldA, differsA⟩
    · rcases mem_occupants_grant.mp memberB with ⟨_, rfl⟩ | ⟨oldB, differsB⟩
      · exact .inl rfl
      · have other : b.1 ≠ request.txnId := fun same => differsB ⟨rfl, same⟩
        exact .inr (not_blocked free oldB other).symm
    · rcases mem_occupants_grant.mp memberB with ⟨rfl, rfl⟩ | ⟨oldB, _⟩
      · have other : a.1 ≠ request.txnId := fun same => differsA ⟨rfl, same⟩
        exact .inr (not_blocked free oldA other)
      · exact consistent.compatible resource a oldA b oldB
  once := by
    intro resource
    by_cases same : resource = request.resource
    · subst same
      have kept : (((tables.occupants request.resource).filter (·.1 ≠ request.txnId)).map Prod.fst).Nodup :=
        (consistent.once request.resource).sublist (List.filter_sublist.map _)
      simp only [occupants, LockTables.grant, Function.update_self, Option.getD_some, List.map_append,
        List.map_cons, List.map_nil]
      refine List.nodup_append.mpr ⟨kept, List.nodup_singleton _, ?_⟩
      intro a memberA b memberB equal
      obtain ⟨holder, member, rfl⟩ := List.mem_map.mp memberA
      have differs : holder.1 ≠ request.txnId := by simpa using (List.mem_filter.mp member).2
      exact differs (equal.trans (List.mem_singleton.mp memberB))
    · simpa [occupants, LockTables.grant, same] using consistent.once resource
  mirrored := by
    intro txnId resource
    rw [mem_held_grant, consistent.mirrored]
    constructor
    · rintro (⟨rfl, rfl⟩ | ⟨mode, member⟩)
      · exact ⟨request.mode, mem_occupants_grant.mpr (.inl ⟨rfl, rfl⟩)⟩
      · by_cases replaced : resource = request.resource ∧ txnId = request.txnId
        · obtain ⟨rfl, rfl⟩ := replaced
          exact ⟨request.mode, mem_occupants_grant.mpr (.inl ⟨rfl, rfl⟩)⟩
        · exact ⟨mode, mem_occupants_grant.mpr (.inr ⟨member, replaced⟩)⟩
    · rintro ⟨mode, member⟩
      rcases mem_occupants_grant.mp member with ⟨rfl, same⟩ | ⟨old, _⟩
      · exact .inl ⟨congrArg Prod.fst same, rfl⟩
      · exact .inr ⟨mode, old⟩
  occupied := by
    intro resource
    by_cases same : resource = request.resource
    · simp [LockTables.grant, same]
    · simpa [LockTables.grant, same] using consistent.occupied resource

theorem occupants_releaseAll (consistent : tables.Consistent) (txnId : Nat) (resource : Resource) :
    (tables.releaseAll txnId).occupants resource = (tables.occupants resource).filter (·.1 ≠ txnId) := by
  simp only [occupants, releaseAll]
  split_ifs with holds
  · cases entry : tables.holders resource with
    | none => simp
    | some holders =>
      simp only [Option.bind_some, Option.getD_some]
      split_ifs with none
      · simpa using none
      · rfl
  · symm
    refine List.filter_eq_self.mpr fun holder member => ?_
    have differs : holder.1 ≠ txnId := by
      rintro rfl
      exact holds ((consistent.mirrored holder.1 resource).mpr ⟨holder.2, member⟩)
    simpa using differs

theorem Consistent.releaseAll (consistent : tables.Consistent) (txnId : Nat) :
    (tables.releaseAll txnId).Consistent where
  compatible := by
    intro resource a memberA b memberB
    rw [occupants_releaseAll consistent] at memberA memberB
    exact consistent.compatible resource a (List.mem_filter.mp memberA).1 b (List.mem_filter.mp memberB).1
  once := by
    intro resource
    rw [occupants_releaseAll consistent]
    exact (consistent.once resource).sublist (List.filter_sublist.map _)
  mirrored := by
    intro other resource
    rw [occupants_releaseAll consistent]
    by_cases same : other = txnId
    · subst same
      simp [held, LockTables.releaseAll]
    · have unchanged : (tables.releaseAll txnId).held other = tables.held other := by
        simp [held, LockTables.releaseAll, same]
      rw [unchanged, consistent.mirrored]
      simp [same]
  occupied := by
    intro resource
    simp only [LockTables.releaseAll]
    split_ifs with holds
    · cases entry : tables.holders resource with
      | none => simp
      | some holders =>
        simp only [Option.bind_some]
        split_ifs with none
        · simp
        · simpa using none
    · exact consistent.occupied resource

theorem Attempts.consistent (attempts : Attempts tables request after answer) (consistent : tables.Consistent) :
    after.Consistent := by
  cases attempts with
  | held _ | deadlock _ | timeout | wait _ => exact consistent.of_same rfl rfl
  | grant free => exact Consistent.grant (consistent.of_same rfl rfl) free

def HoldsAtLeast (tables : LockTables) (request : LockRequest) : Prop :=
  ∃ mode, (request.txnId, mode) ∈ tables.occupants request.resource ∧ (mode = .exclusive ∨ mode = request.mode)

theorem mem_of_heldMode {mode : LockMode} (held : tables.heldMode request = some mode) :
    (request.txnId, mode) ∈ tables.occupants request.resource := by
  obtain ⟨holder, found, rfl⟩ := Option.map_eq_some_iff.mp held
  have same : holder.1 = request.txnId := by simpa using List.find?_some found
  rw [← same]
  exact List.mem_of_find?_eq_some found

theorem Attempts.holds (attempts : Attempts tables request after .ok) : after.HoldsAtLeast request := by
  cases attempts with
  | held mode =>
    rcases mode with exclusive | requested
    · exact ⟨.exclusive, mem_of_heldMode exclusive, .inl rfl⟩
    · exact ⟨request.mode, mem_of_heldMode requested, .inr rfl⟩
  | grant _ => exact ⟨request.mode, mem_occupants_grant.mpr (.inl ⟨rfl, rfl⟩), .inr rfl⟩

theorem Attempts.waiting_eq (attempts : Attempts tables request after answer) (other : Nat) :
    after.waiting other =
      if other = request.txnId then if answer = .waits then some (request.resource, request.mode) else none
      else tables.waiting other := by
  cases attempts with
  | held _ | grant _ | deadlock _ => simp
  | timeout | wait _ =>
    by_cases same : other = request.txnId
    · simp [same]
    · simp [same]

theorem Attempts.refused (attempts : Attempts tables request after answer) (error : answer.isError = true) :
    after.holders = tables.holders ∧ after.heldBy = tables.heldBy := by
  cases attempts with
  | held _ | grant _ | wait _ => simp [LockAnswer.isError] at error
  | deadlock _ | timeout => exact ⟨rfl, rfl⟩

end LockTables

namespace LockClients
variable {clients after : LockClients} {action : Action} {done : LockSection}

theorem criticalSection_cases (ran : clients.criticalSection action = some done) :
    (done.tables = clients.tables ∧ done.answer = .lockAfterUnlock ∧ clients.calls done.thread = none) ∨
      clients.tables.Attempts done.request done.tables done.answer := by
  cases action with
  | acquire thread request expired =>
    obtain ⟨idle, entered⟩ : clients.calls thread = none ∧
        enter thread request (clients.tables.acquire request expired) = done := by
      simpa [criticalSection] using ran
    subst entered
    simp only [enter, LockTables.acquire]
    split_ifs with finished
    · exact .inl ⟨rfl, rfl, idle⟩
    · exact .inr (LockTables.attempts _ _ _)
  | wake thread expired =>
    obtain ⟨request, _, rfl⟩ := Option.map_eq_some_iff.mp ran
    exact .inr (LockTables.attempts _ _ _)
  | releaseAll _ | pruneFinished _ => simp [criticalSection] at ran

theorem step_cases (stepped : clients.step action = some after) :
    (∃ txnId, after = { clients with tables := clients.tables.releaseAll txnId }) ∨
      (∃ watermark, after = { clients with tables := clients.tables.pruneFinished watermark }) ∨
      ∃ done, clients.criticalSection action = some done ∧ after = clients.leave done := by
  cases action with
  | releaseAll txnId => exact .inl ⟨txnId, (Option.some.inj stepped).symm⟩
  | pruneFinished watermark => exact .inr (.inl ⟨watermark, (Option.some.inj stepped).symm⟩)
  | acquire _ _ _ | wake _ _ =>
    obtain ⟨done, ran, left⟩ := Option.map_eq_some_iff.mp stepped
    exact .inr (.inr ⟨done, ran, left.symm⟩)

structure Invariant (clients : LockClients) : Prop where
  consistent : clients.tables.Consistent
  called : ∀ txnId resource mode, clients.tables.waiting txnId = some (resource, mode) →
    ∃ thread, clients.calls thread = some ⟨txnId, resource, mode⟩

theorem criticalSection_call (ran : clients.criticalSection action = some done) :
    clients.calls done.thread = none ∨ clients.calls done.thread = some done.request := by
  cases action with
  | acquire thread request expired =>
    obtain ⟨idle, rfl⟩ : clients.calls thread = none ∧
        enter thread request (clients.tables.acquire request expired) = done := by
      simpa [criticalSection] using ran
    exact .inl idle
  | wake thread expired =>
    obtain ⟨request, called, rfl⟩ := Option.map_eq_some_iff.mp ran
    exact .inr called
  | releaseAll _ | pruneFinished _ => simp [criticalSection] at ran

theorem calls_leave_of_ne {thread : Nat} (other : thread ≠ done.thread) :
    (clients.leave done).calls thread = clients.calls thread := by
  simp [leave, other]

theorem Invariant.leave (invariant : clients.Invariant) (ran : clients.criticalSection action = some done) :
    (clients.leave done).Invariant := by
  rcases criticalSection_cases ran with ⟨tables, answer, idle⟩ | attempts
  · have same : (clients.leave done).tables = clients.tables := tables
    refine { consistent := same ▸ invariant.consistent, called := fun txnId resource mode waits => ?_ }
    obtain ⟨thread, call⟩ := invariant.called txnId resource mode (same ▸ waits)
    have other : thread ≠ done.thread := by
      rintro rfl
      simp [idle] at call
    exact ⟨thread, (calls_leave_of_ne other).trans call⟩
  · refine { consistent := attempts.consistent invariant.consistent, called := fun txnId resource mode waits => ?_ }
    have entry := (attempts.waiting_eq txnId).symm.trans waits
    split_ifs at entry with own waits'
    · simp only [Option.some.injEq, Prod.mk.injEq] at entry
      obtain ⟨rfl, rfl⟩ := entry
      exact ⟨done.thread, by simp [LockClients.leave, waits', own]⟩
    · obtain ⟨thread, call⟩ := invariant.called txnId resource mode entry
      have other : thread ≠ done.thread := by
        rintro rfl
        rcases criticalSection_call ran with idle | same
        · simp [idle] at call
        · rw [same] at call
          exact own (congrArg LockRequest.txnId (Option.some.inj call)).symm
      exact ⟨thread, (calls_leave_of_ne other).trans call⟩

theorem Invariant.step (invariant : clients.Invariant) (stepped : clients.step action = some after) :
    after.Invariant := by
  rcases step_cases stepped with ⟨txnId, rfl⟩ | ⟨watermark, rfl⟩ | ⟨done, ran, rfl⟩
  · refine { consistent := invariant.consistent.releaseAll txnId, called := fun other resource mode waits => ?_ }
    simp only [LockTables.waiting_releaseAll] at waits
    split_ifs at waits with released
    exact invariant.called other resource mode waits
  · exact { consistent := invariant.consistent.of_same rfl rfl, called := invariant.called }
  · exact invariant.leave ran

theorem Invariant.reached (reached : system.Reachable clients) : clients.Invariant :=
  reached.invariant (P := Invariant)
    (by
      rintro _ rfl
      exact { consistent := .new, called := by simp [LockTables.new, LockTables.waiting] })
    fun _ _ _ invariant _ stepped => invariant.step stepped

/-- The tables are consistent between critical sections; `acquire` grants the lock or touches only the caller's own
entry. -/
theorem lock_tables_consistent (reached : system.Reachable clients) :
    clients.tables.Consistent ∧
      ∀ action done, clients.criticalSection action = some done →
        (done.answer = .ok → done.tables.HoldsAtLeast done.request) ∧
        (done.answer.isError = true →
          done.tables.holders = clients.tables.holders ∧ done.tables.heldBy = clients.tables.heldBy ∧
          (∀ other ≠ done.request.txnId, done.tables.waiting other = clients.tables.waiting other) ∧
          (clients.leave done).calls done.thread = none ∧
          ∀ resource mode, done.tables.waiting done.request.txnId = some (resource, mode) →
            ∃ thread ≠ done.thread, clients.calls thread = some ⟨done.request.txnId, resource, mode⟩) := by
  have invariant := Invariant.reached reached
  refine ⟨invariant.consistent, fun action done ran => ⟨fun ok => ?_, fun error => ?_⟩⟩
  · rcases criticalSection_cases ran with ⟨_, answer, _⟩ | attempts
    · simp [answer] at ok
    · exact (ok ▸ attempts).holds
  have returned : done.answer ≠ .waits := by
    intro waits
    simp [waits, LockAnswer.isError] at error
  have idle : (clients.leave done).calls done.thread = none := by simp [LockClients.leave, returned]
  rcases criticalSection_cases ran with ⟨tables, answer, notCalled⟩ | attempts
  · rw [tables]
    refine ⟨rfl, rfl, fun _ _ => rfl, idle, fun resource mode waits => ?_⟩
    obtain ⟨thread, call⟩ := invariant.called _ resource mode waits
    refine ⟨thread, ?_, call⟩
    rintro rfl
    simp [notCalled] at call
  · obtain ⟨holders, heldBy⟩ := attempts.refused error
    refine ⟨holders, heldBy, fun other differs => ?_, idle, fun resource mode waits => ?_⟩
    · rw [attempts.waiting_eq, if_neg differs]
    · simp [attempts.waiting_eq, returned] at waits

theorem lock_tables_consistent_upgrade :
    ∃ clients, system.run { tables := .new, calls := fun _ => none }
        [.acquire 0 ⟨1, .table 7, .shared⟩ false, .acquire 0 ⟨1, .table 7, .exclusive⟩ false] = some clients ∧
      clients.tables.occupants (.table 7) = [(1, .exclusive)] ∧ clients.tables.Consistent := by
  refine ⟨_, rfl, rfl, (lock_tables_consistent ?_).1⟩
  exact .next (a := .acquire 0 ⟨1, .table 7, .exclusive⟩ false)
    (.next (a := .acquire 0 ⟨1, .table 7, .shared⟩ false) (.start rfl) trivial rfl) trivial rfl

end LockClients

end SimpleRdbms.Txn
