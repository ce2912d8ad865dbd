import SimpleRdbms.Proof.Accounts

namespace SimpleRdbms.Engine
open SimpleRdbms.Lib SimpleRdbms.Txn
open Function (update)

variable {Sql Value Query Data : Type} {B : Backend Sql Value Query Data}
variable {s s' : EngineState Data}

namespace Workers
variable {w w' : Workers Data} {session : Nat}

def BetweenStatements (w : Workers Data) : Prop := ∀ session, w.running session = none

/-- The active transactions are those the sessions' slots name, and only they hold locks. -/
def Accounted (w : Workers Data) : Prop :=
  (∀ txnId, (∃ txn ∈ w.engine.txns.active, txn.txnId = txnId) ↔
    ∃ session, (w.engine.slots session).txnId = some txnId) ∧
  ∀ resource, ∀ holder ∈ w.engine.locks.holders resource,
    ∃ session, (w.engine.slots session).txnId = some holder.1

def holding (w : Workers Data) (session : Nat) : Set Nat :=
  {txnId | (w.engine.slots session).txnId = some txnId ∨ ∃ running ∈ w.running session, running.txnId = txnId}

def owners (w : Workers Data) : Set Nat := {txnId | ∃ session, txnId ∈ w.holding session}

def Matches (slot : TxnSlot) (running : Running) : Prop :=
  if running.autocommit then slot.txnId = none else slot = .active running.txnId

structure Separate (w : Workers Data) : Prop where
  unique : ∀ session other txnId, txnId ∈ w.holding session → txnId ∈ w.holding other → session = other
  slots : ∀ session, ∀ running ∈ w.running session, Matches (w.engine.slots session) running

structure Owned (w : Workers Data) : Prop extends Separate w where
  accounts : Accounts w.owners w.engine

structure Local (session : Nat) (w w' : Workers Data) : Prop where
  slots : ∀ other, other ≠ session → w'.engine.slots other = w.engine.slots other
  running : ∀ other, other ≠ session → w'.running other = w.running other

theorem Local.holding (moves : Local session w w') {other : Nat} (different : other ≠ session) :
    w'.holding other = w.holding other := by
  unfold Workers.holding
  rw [moves.slots other different, moves.running other different]

variable {txnId : Nat} {leakFree : Prop} {engine : EngineState Data} {running : Running}
    {action : WorkerAction Sql Value Data}

theorem Owned.lt_next (owned : Owned w) {other : Nat} (held : txnId ∈ w.holding other) :
    txnId < w.engine.txns.nextTxnId :=
  owned.accounts.begun txnId ⟨other, held⟩

theorem Owned.owners_step (owned : Owned w) (moves : Local session w w') :
    w'.owners = (w.owners \ w.holding session) ∪ w'.holding session := by
  ext txnId
  constructor
  · rintro ⟨other, held⟩
    by_cases here : other = session
    · exact .inr (here ▸ held)
    · rw [moves.holding here] at held
      exact .inl ⟨⟨other, held⟩, fun mine => here (owned.unique other session txnId held mine)⟩
  · rintro (⟨⟨other, held⟩, free⟩ | held)
    · have different : other ≠ session := by
        rintro rfl
        exact free held
      exact ⟨other, by rwa [moves.holding different]⟩
    · exact ⟨session, held⟩

theorem Owned.separate_step (owned : Owned w) (moves : Local session w w')
    (origin : ∀ txnId ∈ w'.holding session, txnId ∈ w.holding session ∨ txnId = w.engine.txns.nextTxnId)
    (slots : ∀ running ∈ w'.running session, Matches (w'.engine.slots session) running) : Separate w' := by
  have foreign : ∀ other txnId, other ≠ session → txnId ∈ w'.holding session → txnId ∉ w'.holding other := by
    intro other txnId different mine theirs
    rw [moves.holding different] at theirs
    rcases origin txnId mine with old | rfl
    · exact different (owned.unique other session txnId theirs old)
    · exact Nat.lt_irrefl _ (owned.lt_next theirs)
  constructor
  · intro first second txnId firstHeld secondHeld
    by_cases firstHere : first = session <;> by_cases secondHere : second = session
    · rw [firstHere, secondHere]
    · exact absurd secondHeld (foreign second txnId secondHere (firstHere ▸ firstHeld))
    · exact absurd firstHeld (foreign first txnId firstHere (secondHere ▸ secondHeld))
    · rw [moves.holding firstHere] at firstHeld
      rw [moves.holding secondHere] at secondHeld
      exact owned.unique first second txnId firstHeld secondHeld
  · intro other running runs
    by_cases here : other = session
    · subst here
      exact slots running runs
    · rw [moves.slots other here]
      rw [moves.running other here] at runs
      exact owned.slots other running runs

structure Settles (w' : Workers Data) (leakFree : Prop) : Prop where
  separate : Separate w'
  clean : leakFree → Accounts w'.owners w'.engine
  leaky : ¬leakFree → ∃ txnId ∈ w'.engine.txns.ids, txnId ∉ w'.owners

theorem Owned.settles (owned : Owned w) (moves : Local session w w')
    (origin : ∀ txnId ∈ w'.holding session, txnId ∈ w.holding session ∨ txnId = w.engine.txns.nextTxnId)
    (slots : ∀ running ∈ w'.running session, Matches (w'.engine.slots session) running)
    (clean : leakFree → Accounts ((w.owners \ w.holding session) ∪ w'.holding session) w'.engine)
    (leaky : ¬leakFree → ∃ txnId ∈ w'.engine.txns.ids,
      txnId ∉ (w.owners \ w.holding session) ∪ w'.holding session) : Settles w' leakFree where
  separate := owned.separate_step moves origin slots
  clean := by rw [owned.owners_step moves]; exact clean
  leaky := by rw [owned.owners_step moves]; exact leaky

theorem holding_idle (idle : w.running session = none) : w.holding session = (w.engine.slots session).ids := by
  simp [holding, idle, TxnSlot.ids]

theorem holding_subset_owners : w.holding session ⊆ w.owners := fun _ held => ⟨session, held⟩

theorem Owned.settles_of_ledger (owned : Owned w) (idle : w.running session = none)
    (ledger : Ledger session w.owners w.engine s' leakFree) : Settles { w with engine := s' } leakFree := by
  obtain ⟨slot, slots, origin, clean, leaky⟩ := ledger
  have moves : Local session w { w with engine := s' } :=
    ⟨fun other different => by simp [slots, different], fun _ _ => rfl⟩
  have after : Workers.holding { w with engine := s' } session = slot.ids := by
    refine (holding_idle (w := { w with engine := s' }) idle).trans ?_
    simp [slots]
  refine owned.settles moves ?_ ?_ ?_ ?_
  · rwa [after, holding_idle idle]
  · intro running runs
    simp [idle] at runs
  · rwa [after, holding_idle idle]
  · rwa [after, holding_idle idle]

theorem slot_known (idle : w.running session = none) : (w.engine.slots session).ids ⊆ w.owners :=
  holding_idle idle ▸ holding_subset_owners

theorem Owned.settles_same (owned : Owned w) (moves : Local session w w')
    (same : w'.holding session = w.holding session)
    (slots : ∀ running ∈ w'.running session, Matches (w'.engine.slots session) running)
    (accounts : Accounts w.owners w'.engine) : Settles w' True := by
  refine owned.settles moves (fun _ held => .inl (same ▸ held)) slots (fun _ => ?_) fun leaks => absurd trivial leaks
  rwa [same, Set.sdiff_union_of_subset holding_subset_owners]

theorem Owned.settles_engine (owned : Owned w) (session : Nat)
    (slots : engine.slots = w.engine.slots) (accounts : Accounts w.owners engine) :
    Settles { w with engine } True := by
  have moves : Local session w { w with engine } := ⟨fun other _ => by rw [slots], fun _ _ => rfl⟩
  refine owned.settles_same moves ?_ ?_ accounts
  · simp only [holding, slots]
  · rw [slots]
    exact owned.slots session

theorem Local.setRunning (engine : EngineState Data) (slots : ∀ other, other ≠ session →
      engine.slots other = w.engine.slots other) (running : Option Running) :
    Local session w (Workers.setRunning { w with engine } session running) where
  slots := slots
  running other different := by simp [Workers.setRunning, different]

theorem Owned.settles_running (owned : Owned w) {after : Running} (runs : w.running session = some running)
    (slots : engine.slots = w.engine.slots) (txn : after.txnId = running.txnId)
    (mode : after.autocommit = running.autocommit) (accounts : Accounts w.owners engine) :
    Settles (Workers.setRunning { w with engine } session (some after)) True := by
  refine owned.settles_same (.setRunning engine (fun other _ => by rw [slots]) _) ?_ ?_ accounts
  · simp [holding, Workers.setRunning, runs, slots, txn]
  · intro next isNext
    obtain rfl : after = next := by simpa [Workers.setRunning] using isNext
    have matched := owned.slots session running runs
    simpa only [Matches, Workers.setRunning, slots, txn, mode] using matched

theorem Owned.settles_answered (owned : Owned w) (runs : w.running session = some running)
    {resource : Resource} {mode : LockMode} {answer : LockManager × LockOutcome} (consistent : answer.1.Consistent)
    (held : ∀ other, ∀ holder ∈ answer.1.holders other,
      holder ∈ w.engine.locks.holders other ∨ holder.1 = running.txnId) :
    Settles (w.answered session running resource mode answer) True := by
  have mine : running.txnId ∈ w.owners := ⟨session, .inr ⟨running, runs, rfl⟩⟩
  have accounts : Accounts w.owners { w.engine with locks := answer.1 } :=
    { active := owned.accounts.active, begun := owned.accounts.begun, consistent,
      held := fun other holder now => by
        rcases held other holder now with old | new
        · exact owned.accounts.held other holder old
        · rwa [new] }
  unfold answered
  dsimp only
  split
  all_goals exact owned.settles_running runs rfl rfl rfl accounts

theorem Owned.settles_start (owned : Owned w) (idle : w.running session = none) {sql : Sql} {params : List Value}
    {autocommit : Bool}
    (started : starts B w.engine session sql params = some (engine, txnId, autocommit)) :
    Settles (w.request B session sql params) True := by
  simp only [request, started]
  have found : B.txnForStatement w.engine session = .ok (engine, txnId, autocommit) := by
    unfold starts at started
    split at started
    · simp at started
    · split at started
      · cases outcome : B.txnForStatement w.engine session with
        | error err => simp [outcome, Except.toOption] at started
        | ok value => simpa [outcome, Except.toOption] using started
      all_goals simp at started
  unfold Backend.txnForStatement at found
  cases slot : w.engine.slots session with
  | aborted old => simp [slot] at found
  | active old =>
    simp only [slot, Except.ok.injEq, Prod.mk.injEq] at found
    obtain ⟨rfl, rfl, rfl⟩ := found
    refine owned.settles_same (.setRunning w.engine (fun _ _ => rfl) _) ?_ ?_ owned.accounts
    · simp [holding, setRunning, idle, slot, TxnSlot.txnId]
    · simp [setRunning, Matches, slot]
  | none | timedOut =>
    simp only [slot, Except.ok.injEq, Prod.mk.injEq] at found
    obtain ⟨rfl, rfl, rfl⟩ := found
    have before : w.holding session = ∅ := by
      simp [holding, idle, slot, TxnSlot.txnId]
    have after : (setRunning { w with engine := B.beginTxn w.engine } session
        (some { txnId := w.engine.txns.nextTxnId, autocommit := true, failed := false, waiting := none })).holding
          session = {w.engine.txns.nextTxnId} := by
      ext other
      simp [holding, setRunning, Backend.beginTxn, Backend.setData, slot, TxnSlot.txnId, eq_comm]
    refine owned.settles (.setRunning (B.beginTxn w.engine) (fun _ _ => rfl) _) ?_ ?_ (fun _ => ?_)
      fun leaks => absurd trivial leaks
    · rw [after]
      exact fun _ member => .inr member
    · simp [setRunning, Matches, Backend.beginTxn, Backend.setData, slot, TxnSlot.txnId]
    · rw [before, after, Set.sdiff_empty, Set.union_singleton]
      exact owned.accounts.beginTxn

theorem Owned.settles_autocommit (owned : Owned w) (runs : w.running session = some running)
    (autocommit : running.autocommit = true) (slots : engine.slots = w.engine.slots)
    (clean : leakFree → Accounts (w.owners \ {running.txnId}) engine)
    (leaky : ¬leakFree → ∃ txnId ∈ engine.txns.ids, txnId ∉ w.owners \ {running.txnId}) :
    Settles (setRunning { w with engine } session none) leakFree := by
  have slot : (w.engine.slots session).txnId = none := by
    have matched := owned.slots session running runs
    rwa [Matches, if_pos autocommit] at matched
  have before : w.holding session = {running.txnId} := by
    ext other
    simp [holding, runs, slot, eq_comm]
  have after : (setRunning { w with engine } session none).holding session = ∅ := by
    simp [holding, setRunning, slots, slot]
  refine owned.settles (.setRunning engine (fun other _ => by rw [slots]) _) ?_ ?_ ?_ ?_
  · simp [after]
  · simp [setRunning]
  · rwa [before, after, Set.union_empty]
  · rwa [before, after, Set.union_empty]

theorem Owned.settles_finish (owned : Owned w) (runs : w.running session = some running) (ok : Bool) :
    Settles (setRunning
        { w with engine := (B.finishStatement w.engine session running.txnId running.autocommit ok).1 } session none)
      (running.autocommit = true → B.finishSettles w.engine running.txnId ok = true) := by
  have mine : running.txnId ∈ w.owners := ⟨session, .inr ⟨running, runs, rfl⟩⟩
  have matched := owned.slots session running runs
  cases autocommit : running.autocommit with
  | false =>
    -- The slot names the transaction before and after.
    have slot : w.engine.slots session = .active running.txnId := by
      simpa [Matches, autocommit] using matched
    have settled : Settles (setRunning
        { w with engine := (B.finishStatement w.engine session running.txnId false ok).1 } session none) True := by
      refine owned.settles_same (.setRunning _ ?_ _) ?_ (by simp [setRunning]) ?_
      · intro other different
        cases ok <;> simp [Backend.finishStatement, Backend.setSlot, different]
      · cases ok <;> simp [holding, setRunning, runs, slot, Backend.finishStatement, Backend.setSlot, TxnSlot.txnId]
      · cases ok with
        | false => exact owned.accounts.setSlot session _
        | true => exact owned.accounts
    simpa using settled
  | true =>
    simp only [forall_const]
    cases ok with
    | true =>
      have first := owned.accounts.commitTxn (B := B) running.txnId
      have keeps := Backend.commitTxn_keeps (B := B) (s := w.engine) running.txnId
      have slots := Backend.commitTxn_slots (B := B) (s := w.engine) running.txnId
      simp only [Backend.finishStatement, Backend.finishSettles, Backend.andThen]
      cases committed : (B.commitTxn w.engine running.txnId).2 with
      | error err =>
        rw [committed] at first
        refine owned.settles_autocommit runs autocommit slots (by simp [succeeded]) fun _ => ?_
        exact ⟨running.txnId, (first.active _).mpr mine, fun member => member.2 rfl⟩
      | ok _ =>
        rw [committed] at first
        have second := first.maybeCheckpoint (B := B)
        refine owned.settles_autocommit runs autocommit ?_ (fun clean => ?_) fun leaks => ?_
        · rw [Backend.maybeCheckpoint_slots, slots]
        · rwa [if_pos (by simpa [succeeded] using clean)] at second
        · rw [if_neg (by simpa [succeeded] using leaks)] at second
          refine ⟨_, second.mem_ids_of_insert, fun member => ?_⟩
          exact owned.accounts.fresh_notMem keeps.nextTxn member.1
    | false =>
      refine owned.settles_autocommit runs autocommit (Backend.abandon_slots running.txnId) ?_ ?_
      · exact fun clean => owned.accounts.abandon_clean clean
      · exact fun leaks => owned.accounts.abandon_leaky mine leaks

theorem requestSettles_of_starts {sql : Sql} {params : List Value} {started : EngineState Data × Nat × Bool}
    (found : starts B s session sql params = some started) : B.requestSettles s session sql params = true := by
  unfold starts at found
  split at found
  · simp at found
  · split at found
    · rename_i query prepared
      unfold Backend.requestSettles
      rw [prepared]
      cases s.slots session <;> simp
    all_goals simp at found

variable (B)

/-- No commit or rollback fails when its session is about to forget the transaction, nor does a transaction of the
engine's own. -/
def LeakFree (w : Workers Data) : WorkerAction Sql Value Data → Prop
  | .request session sql params => B.requestSettles w.engine session sql params = true
  | .finish session ok =>
    ∀ running ∈ w.running session, running.autocommit = true → B.finishSettles w.engine running.txnId ok = true
  | .expire session | .disconnect session =>
    ∀ txnId ∈ (w.engine.slots session).txnId, B.abandons w.engine txnId = true
  | .work .. | .recordInsert .. | .lock .. | .wake _ | .lockTimeout _ => True

variable {B}

theorem Owned.stepRunning (owned : Owned w) (runs : w.running action.session = some running)
    (stepped : w.stepRunning B action.session running action = some w') : Settles w' (LeakFree B w action) := by
  cases action with
  | request | expire | disconnect => simp [Workers.stepRunning] at stepped
  | work session data =>
    simp only [Workers.stepRunning] at stepped
    split at stepped
    · simp at stepped
    · obtain rfl := Option.some.inj stepped
      exact owned.settles_engine session rfl (owned.accounts.setData data)
  | recordInsert session rid =>
    simp only [Workers.stepRunning] at stepped
    split at stepped
    · simp at stepped
    · obtain rfl := Option.some.inj stepped
      exact owned.settles_engine session rfl (owned.accounts.frame rfl rfl rfl)
  | lock session resource mode =>
    simp only [Workers.stepRunning] at stepped
    split at stepped
    · simp at stepped
    · obtain rfl := Option.some.inj stepped
      exact owned.settles_answered runs owned.accounts.consistent.acquire
        fun _ _ held => LockManager.acquire_holders held
  | wake session =>
    obtain ⟨⟨resource, mode⟩, -, rfl⟩ := Option.map_eq_some_iff.mp stepped
    exact owned.settles_answered runs owned.accounts.consistent.attempt
      fun _ _ held => LockManager.attempt_holders held
  | lockTimeout session =>
    simp only [Workers.stepRunning] at stepped
    split at stepped
    · obtain rfl := Option.some.inj stepped
      refine owned.settles_running runs rfl rfl rfl ?_
      exact { active := owned.accounts.active, begun := owned.accounts.begun,
              consistent := owned.accounts.consistent, held := owned.accounts.held }
    · simp at stepped
  | finish session ok =>
    simp only [Workers.stepRunning] at stepped
    split at stepped
    · simp at stepped
    · obtain rfl := Option.some.inj stepped
      have settled := owned.settles_finish (B := B) runs ok
      have same : LeakFree B w (.finish session ok) ↔
          (running.autocommit = true → B.finishSettles w.engine running.txnId ok = true) := by
        have here : w.running session = some running := runs
        simp [LeakFree, here]
      rwa [same]

theorem Owned.stepIdle (owned : Owned w)
    (idle : w.running action.session = none) (stepped : w.stepIdle B action = some w') :
    Settles w' (LeakFree B w action) := by
  cases action with
  | work | recordInsert | lock | wake | lockTimeout | finish => simp [Workers.stepIdle] at stepped
  | request session sql params =>
    obtain rfl := Option.some.inj stepped
    cases started : starts B w.engine session sql params with
    | some value =>
      obtain ⟨engine, txnId, autocommit⟩ := value
      have settled := owned.settles_start idle started
      exact ⟨settled.separate, fun _ => settled.clean trivial,
        fun leaks => absurd (requestSettles_of_starts started) leaks⟩
    | none =>
      simp only [request, started]
      exact owned.settles_of_ledger idle (owned.accounts.request_ledger (slot_known idle) started)
  | expire session =>
    obtain ⟨engine, expired, rfl⟩ := Option.map_eq_some_iff.mp stepped
    obtain ⟨txnId, slot, rfl⟩ := Option.map_eq_some_iff.mp expired
    have ledger := owned.accounts.abandon_ledger (B := B) .timedOut rfl slot (slot_known idle)
    simpa [LeakFree, slot] using owned.settles_of_ledger idle ledger
  | disconnect session =>
    obtain rfl := Option.some.inj stepped
    unfold Backend.disconnectSession
    cases slot : (w.engine.slots session).txnId with
    | none =>
      refine owned.settles_of_ledger idle (.unchanged owned.accounts (slot_known idle) rfl ?_)
      simp [LeakFree, slot]
    | some txnId =>
      have ledger := owned.accounts.abandon_ledger (B := B) .none rfl slot (slot_known idle)
      simpa [LeakFree, slot] using owned.settles_of_ledger idle ledger

theorem Owned.step (owned : Owned w)
    (stepped : (system B).step w action = some w') : Settles w' (LeakFree B w action) := by
  simp only [system, Workers.step] at stepped
  cases runs : w.running action.session with
  | some running =>
    rw [runs] at stepped
    exact owned.stepRunning runs stepped
  | none =>
    rw [runs] at stepped
    exact owned.stepIdle runs stepped

theorem Owned.start (data : Data) (highestSeen : Option Nat) : Owned (start data highestSeen) := by
  have empty : ∀ session, (Workers.start data highestSeen).holding session = ∅ := by
    intro session
    simp [holding, Workers.start, TxnSlot.txnId]
  have nobody : (Workers.start data highestSeen).owners = ∅ := by
    simp [owners, empty]
  refine { unique := ?_, slots := ?_, accounts := ?_ }
  · intro session other txnId held
    simp [empty] at held
  · intro session running runs
    simp [Workers.start] at runs
  · rw [nobody]
    constructor
    case consistent => exact LockManager.Consistent.new
    all_goals simp [Workers.start, TransactionManager.new, TransactionManager.ids, LockManager.new]

theorem Owned.of_reachable (reachable : (system B).ReachableBy (LeakFree B) w) : Owned w := by
  refine reachable.invariant (P := Owned) ?_ ?_
  · rintro w ⟨data, highestSeen, rfl⟩
    exact Owned.start data highestSeen
  · intro w action w' owned leakFree stepped
    have settled := owned.step stepped
    exact { toSeparate := settled.separate, accounts := settled.clean leakFree }

theorem owners_between (between : BetweenStatements w) (txnId : Nat) :
    txnId ∈ w.owners ↔ ∃ session, (w.engine.slots session).txnId = some txnId := by
  refine exists_congr fun session => ?_
  rw [holding_idle (between session)]
  rfl

theorem mem_ids {txns : TransactionManager} : txnId ∈ txns.ids ↔ ∃ txn ∈ txns.active, txn.txnId = txnId :=
  List.mem_map

/-- Without leaks the active transactions are those in the sessions' slots; the first leak breaks that for good. -/
theorem transactions_accounted (reachable : (system B).ReachableBy (LeakFree B) w) :
    (BetweenStatements w → Accounted w) ∧
      ∀ action w', (system B).step w action = some w' → ¬LeakFree B w action → ¬Accounted w' := by
  have owned := Owned.of_reachable reachable
  constructor
  · intro between
    constructor
    · intro txnId
      rw [← mem_ids, ← owners_between between]
      exact owned.accounts.active txnId
    · intro resource holder held
      rw [← owners_between between]
      exact owned.accounts.held resource holder held
  · intro action w' stepped leaks accounted
    obtain ⟨txnId, active, unknown⟩ := (owned.step stepped).leaky leaks
    obtain ⟨session, slot⟩ := (accounted.1 txnId).mp (mem_ids.mp active)
    exact unknown ⟨session, .inl slot⟩

/-- A backend that stores nothing and whose statements say what they record. -/
def scripted : Backend (Option (Statement (List Rid × Bool))) Unit (List Rid × Bool) Unit where
  parse := id
  substituteParameters statement _ := some statement
  poisonsFlush _ := false
  logBegin _ _ := ()
  flushCommit _ _ := ((), true)
  execute _ _ _ query := { data := (), inserted := query.1, ok := query.2 }
  explain _ query := query.2
  undo _ _ := ((), true)
  reload _ _ := ((), true)
  checkpointDue _ := false
  recordCheckpoint _ := ((), true)
  setLastCheckpointLsn _ _ := ((), true)
  finishCheckpoint _ := ()

def lockedInsert : List (WorkerAction (Option (Statement (List Rid × Bool))) Unit Unit) :=
  [.request 0 (some (.other ([⟨1, 0⟩], true))) [], .lock 0 (.table 1) .exclusive, .recordInsert 0 ⟨1, 0⟩,
    .finish 0 true]

theorem transactions_accounted_insert :
    ∃ w, (system scripted).run (start () none) lockedInsert = some w ∧ Accounted w := by
  have started : (system scripted).ReachableBy (LeakFree scripted) (start () none) := .start ⟨(), none, rfl⟩
  have requested := started.next (a := .request 0 (some (.other ([⟨1, 0⟩], true))) []) (by rfl) rfl
  have locked := requested.next (a := .lock 0 (.table 1) .exclusive) (by trivial) rfl
  have recorded := locked.next (a := .recordInsert 0 ⟨1, 0⟩) (by trivial) rfl
  have finished := recorded.next (a := .finish 0 true) (by rintro _ ⟨⟩ _; rfl) rfl
  exact ⟨_, rfl, (transactions_accounted finished).1 fun | 0 => rfl | _ + 1 => rfl⟩

def fullLog : Backend (Option (Statement (List Rid × Bool))) Unit (List Rid × Bool) Unit :=
  { scripted with flushCommit := fun _ _ => ((), false) }

theorem failed_autocommit_leaks :
    ∃ w, (system fullLog).Reachable w ∧ BetweenStatements w ∧ ¬Accounted w ∧
      w.engine.locks.holders (.table 1) = [(0, .exclusive)] ∧ ∀ session, w.engine.slots session = .none := by
  have found : ∃ w, (system fullLog).run (start () none) lockedInsert = some w ∧ BetweenStatements w ∧
      w.engine.txns.ids = [0] ∧ w.engine.locks.holders (.table 1) = [(0, .exclusive)] ∧
        ∀ session, w.engine.slots session = .none :=
    ⟨_, rfl, fun | 0 => rfl | _ + 1 => rfl, rfl, rfl, fun _ => rfl⟩
  obtain ⟨w, ran, between, active, held, slots⟩ := found
  refine ⟨w, System.ReachableBy.run (.start ⟨(), none, rfl⟩) ran fun _ _ _ => trivial, between, ?_, held, slots⟩
  rintro ⟨accounted, -⟩
  obtain ⟨session, slot⟩ := (accounted 0).mp (mem_ids.mp (by simp [active]))
  simp [slots, TxnSlot.txnId] at slot

end Workers

end SimpleRdbms.Engine
