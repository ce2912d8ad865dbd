import SimpleRdbms.Lib.System
import SimpleRdbms.Proof.SessionEffects

namespace SimpleRdbms.Engine
open SimpleRdbms.Lib SimpleRdbms.Txn
open Function (update)

variable {Sql Value Query Data : Type} {contents : Contents Data}

/-- The engine with the open transaction in which a statement of each session failed, all that ever had one, and those
of them that COMMIT or ROLLBACK has ended. -/
structure SessionHistory (Data : Type) where
  engine : EngineState Data
  failedIn : Nat → Option Nat
  failed : Nat → Bool
  rolledBack : Nat → Bool

inductive SessionAction (Sql Value : Type) where
  | request (session : Nat) (sql : Sql) (params : List Value)
  | expire (session : Nat)
  | disconnect (session : Nat)

def endsTransaction : Except SessionError (Statement Query) → Bool
  | .ok .commit | .ok .rollback => true
  | .ok .begin | .ok (.explain _) | .ok (.other _) | .error _ => false

namespace SessionHistory
variable (contents : Contents Data) (B : Backend Sql Value Query Data)

def request (h : SessionHistory Data) (session : Nat) (sql : Sql) (params : List Value) : SessionHistory Data :=
  let outcome := B.executeWithParams h.engine session sql params
  match outcome.2, (h.engine.slots session).txnId with
  | .error _, some txnId =>
    { h with
      engine := outcome.1
      failedIn := update h.failedIn session (some txnId)
      failed := update h.failed txnId true }
  | .error _, none => { h with engine := outcome.1 }
  | .ok _, _ =>
    if endsTransaction (B.prepare sql params) then
      { h with
        engine := outcome.1
        failedIn := update h.failedIn session none
        rolledBack := (h.failedIn session).elim h.rolledBack (update h.rolledBack · true) }
    else { h with engine := outcome.1 }

def step (h : SessionHistory Data) : SessionAction Sql Value → Option (SessionHistory Data)
  | .request session sql params => some (h.request B session sql params)
  | .expire session => (B.expireIdleSession h.engine session).map fun engine => { h with engine }
  | .disconnect session =>
    some { h with
      engine := B.disconnectSession h.engine session
      failedIn := update h.failedIn session none }

def start (data : Data) (highestSeen : Option Nat) : SessionHistory Data where
  engine :=
    { data, flushPoisoned := false, txns := TransactionManager.new highestSeen, locks := LockManager.new,
      slots := fun _ => .none }
  failedIn := fun _ => none
  failed := fun _ => false
  rolledBack := fun _ => false

/-- The rows that are there at the start are of transactions the log has seen. -/
def system : System (SessionHistory Data) (SessionAction Sql Value) where
  init h := ∃ data highestSeen, h = start data highestSeen ∧
    ∀ rid txnId, contents.row data rid = some txnId → txnId < h.engine.txns.nextTxnId
  step := step B

/-- In an open transaction only binding and running fail; in a failed one no EXPLAIN succeeds, and it does not idle out.
-/
def PoisonSafe (h : SessionHistory Data) : SessionAction Sql Value → Prop
  | .request session sql params =>
    h.engine.flushPoisoned = true ∨
    match h.engine.slots session, B.prepare sql params with
    | .active _, .error _ => False
    | .active _, .ok .begin => False
    | .active txnId, .ok .commit => B.canCommit h.engine txnId = true
    | .active txnId, .ok .rollback => B.canRollBack h.engine txnId = true
    | .active _, .ok (.explain query) => B.explain h.engine.data query = true
    | .aborted _, .ok (.explain query) => B.explain h.engine.data query = false
    | _, _ => True
  | .expire session => ∀ txnId, h.engine.slots session ≠ .aborted txnId
  | .disconnect _ => True

structure Poisoned (h : SessionHistory Data) : Prop where
  begun : ∀ session txnId, (h.engine.slots session).txnId = some txnId → txnId < h.engine.txns.nextTxnId
  owner : ∀ session other txnId, (h.engine.slots session).txnId = some txnId →
    (h.engine.slots other).txnId = some txnId → session = other
  failedBegun : ∀ txnId, h.failed txnId = true → txnId < h.engine.txns.nextTxnId
  aborted : ∀ session txnId, h.failedIn session = some txnId →
    h.engine.slots session = .aborted txnId ∨ h.engine.flushPoisoned = true
  inactive : ∀ session txnId, h.failed txnId = true →
    h.engine.slots session ≠ .active txnId ∨ h.engine.flushPoisoned = true
  attributed : Attributed contents h.engine.Live h.engine.data h.engine.txns
  held : ∀ txnId, h.failed txnId = true ∨ (∃ session, (h.engine.slots session).txnId = some txnId) →
    contents.Held h.engine txnId
  ended : ∀ txnId, h.rolledBack txnId = true → txnId < h.engine.txns.nextTxnId ∧
    (∀ session, (h.engine.slots session).txnId ≠ some txnId) ∧ contents.Gone h.engine.data txnId

variable {contents B} {h h' : SessionHistory Data}

theorem Poisoned.alone (poisoned : Poisoned contents h) (session : Nat) : h.engine.Alone session :=
    fun other txnId held active =>
  poisoned.owner other session txnId (by rw [active]; rfl) held

theorem Poisoned.start (data : Data) (highestSeen : Option Nat)
    (seen : ∀ rid txnId, contents.row data rid = some txnId →
      txnId < (SessionHistory.start data highestSeen).engine.txns.nextTxnId) :
    Poisoned contents (SessionHistory.start data highestSeen) := by
  constructor
  case attributed =>
    constructor
    case begun => exact seen
    all_goals
      simp [SessionHistory.start, TransactionManager.new, TransactionManager.Runs, VersionStore.new, EngineState.Live]
  all_goals simp [SessionHistory.start, TxnSlot.txnId]

section Effects
variable {session : Nat} {s' : EngineState Data} {ok : Bool}

section
variable (effect : Effect contents session h.engine s' ok)
include effect

theorem slot_origin {other txnId : Nat} (held : (s'.slots other).txnId = some txnId) :
    (h.engine.slots other).txnId = some txnId ∨
      other = session ∧ txnId = h.engine.txns.nextTxnId ∧ txnId < s'.txns.nextTxnId ∧
        s'.slots other = .active txnId := by
  by_cases here : other = session
  · subst here
    have change := effect.change
    generalize h.engine.slots other = slot at change
    generalize s'.slots other = slot' at change held
    cases change with
    | same => exact .inl held
    | opened _ empty begun =>
      obtain rfl : h.engine.txns.nextTxnId = txnId := Option.some.inj held
      exact .inr ⟨rfl, rfl, begun, rfl⟩
    | failed txnId => exact .inl held
    | ended _ _ _ old empty => simp [empty] at held
    | woken => simp [TxnSlot.txnId] at held
  · rw [effect.others other here] at held
    exact .inl held

theorem active_origin {other txnId : Nat}
    (active : s'.slots other = .active txnId) (held : (h.engine.slots other).txnId = some txnId) :
    h.engine.slots other = .active txnId := by
  by_cases here : other = session
  · subst here
    have change := effect.change
    generalize h.engine.slots other = slot at change held
    rw [active] at change
    cases change with
    | same => rfl
    | opened _ empty => simp [empty] at held
    | ended _ _ _ _ empty => simp [TxnSlot.txnId] at empty
  · rw [← effect.others other here, active]

theorem held_kept (poisoned : Poisoned contents h) {txnId : Nat}
    (known : h.failed txnId = true ∨ (∃ other, (h.engine.slots other).txnId = some txnId) ∧
      (ok = false ∨ ∃ other, (s'.slots other).txnId = some txnId)) : contents.Held s' txnId := by
  have before : txnId < h.engine.txns.nextTxnId ∧ contents.Held h.engine txnId := by
    rcases known with failed | ⟨⟨other, held⟩, -⟩
    · exact ⟨poisoned.failedBegun txnId failed, poisoned.held txnId (.inl failed)⟩
    · exact ⟨poisoned.begun other txnId held, poisoned.held txnId (.inr ⟨other, held⟩)⟩
  obtain ⟨own, moves, mine⟩ := effect.moves
  by_cases writes : own = some txnId
  · obtain ⟨active, healthy⟩ := mine txnId writes
    left
    have change := effect.change
    rw [active] at change
    generalize after : s'.slots session = slot at change
    have live : slot = .active txnId → s'.txns.Runs txnId := fun same =>
      (moves.attributed poisoned.attributed).liveRuns txnId ⟨session, after.trans same⟩
    cases change with
    | same => exact live rfl
    | opened _ empty => cases empty
    | failed _ runs => exact runs (poisoned.attributed.liveRuns txnId ⟨session, active⟩)
    | ended _ _ _ old empty =>
      rcases known with failed | ⟨-, failed | ⟨other, held⟩⟩
      · rcases poisoned.inactive session txnId failed with inactive | sick
        · exact absurd active inactive
        · simp [healthy] at sick
      · cases failed
      · have different : other ≠ session := by
          rintro rfl
          simp [after, empty] at held
        rw [effect.others other different] at held
        exact absurd (poisoned.owner other session txnId held (by rw [active]; rfl)) different
  · exact moves.held txnId before.1 writes before.2

theorem Poisoned.after (poisoned : Poisoned contents h)
    {failedIn : Nat → Option Nat} {failed rolledBack : Nat → Bool}
    (aborted : ∀ other txnId, failedIn other = some txnId →
      s'.slots other = .aborted txnId ∨ s'.flushPoisoned = true)
    (recorded : ∀ txnId, failed txnId = true → h.failed txnId = true ∨
      ok = false ∧ (h.engine.slots session).txnId = some txnId ∧
        (s'.slots session ≠ .active txnId ∨ s'.flushPoisoned = true))
    (removed : ∀ txnId, rolledBack txnId = true → h.rolledBack txnId = true ∨
      (h.engine.slots session).txnId = some txnId ∧ (s'.slots session).txnId = none ∧ contents.Gone s'.data txnId) :
    Poisoned contents { engine := s', failedIn, failed, rolledBack } := by
  obtain ⟨own, moves, mine⟩ := effect.moves
  have failedBegun : ∀ txnId, failed txnId = true → txnId < h.engine.txns.nextTxnId := by
    intro txnId isFailed
    rcases recorded txnId isFailed with old | ⟨-, held, -⟩
    · exact poisoned.failedBegun txnId old
    · exact poisoned.begun session txnId held
  refine { begun := ?_, owner := ?_, failedBegun := ?_, aborted, inactive := ?_,
           attributed := moves.attributed poisoned.attributed, held := ?_, ended := ?_ }
  · intro other txnId held
    rcases slot_origin effect held with old | ⟨-, -, begun, -⟩
    · exact Nat.lt_of_lt_of_le (poisoned.begun other txnId old) moves.nextTxn
    · exact begun
  · intro first second txnId firstHeld secondHeld
    rcases slot_origin effect firstHeld with firstOld | ⟨rfl, new, -⟩
    · rcases slot_origin effect secondHeld with secondOld | ⟨-, new, -⟩
      · exact poisoned.owner first second txnId firstOld secondOld
      · exact absurd (poisoned.begun first txnId firstOld) (by omega)
    · rcases slot_origin effect secondHeld with secondOld | ⟨rfl, -⟩
      · exact absurd (poisoned.begun second txnId secondOld) (by omega)
      · rfl
  · intro txnId isFailed
    exact Nat.lt_of_lt_of_le (failedBegun txnId isFailed) moves.nextTxn
  · intro other txnId isFailed
    by_cases active : s'.slots other = .active txnId
    · have held : (s'.slots other).txnId = some txnId := by rw [active]; rfl
      have old : (h.engine.slots other).txnId = some txnId := by
        rcases slot_origin effect held with old | ⟨-, new, -⟩
        · exact old
        · exact absurd (failedBegun txnId isFailed) (by omega)
      rcases recorded txnId isFailed with oldFailed | ⟨-, mine, settled⟩
      · right
        rcases poisoned.inactive other txnId oldFailed with inactive | sick
        · exact absurd (active_origin effect active old) inactive
        · exact moves.poison sick
      · obtain rfl := poisoned.owner other session txnId old mine
        exact settled
    · exact .inl active
  · rintro txnId (isFailed | ⟨other, held⟩)
    · rcases recorded txnId isFailed with old | ⟨failing, held, -⟩
      · exact held_kept effect poisoned (.inl old)
      · exact held_kept effect poisoned (.inr ⟨⟨session, held⟩, .inl failing⟩)
    · rcases slot_origin effect held with old | ⟨-, -, -, active⟩
      · exact held_kept effect poisoned (.inr ⟨⟨other, old⟩, .inr ⟨other, held⟩⟩)
      · exact .inl ((moves.attributed poisoned.attributed).liveRuns txnId ⟨other, active⟩)
  · intro txnId isRemoved
    rcases removed txnId isRemoved with old | ⟨held, empty, gone⟩
    · obtain ⟨begun, unheld, gone⟩ := poisoned.ended txnId old
      refine ⟨Nat.lt_of_lt_of_le begun moves.nextTxn, fun other held => ?_,
        moves.gone txnId begun (fun writes => ?_) gone⟩
      · rcases slot_origin effect held with before | ⟨-, new, -⟩
        · exact unheld other before
        · exact absurd begun (by omega)
      · exact unheld session (by rw [(mine txnId writes).1]; rfl)
    · refine ⟨Nat.lt_of_lt_of_le (poisoned.begun session txnId held) moves.nextTxn, fun other there => ?_, gone⟩
      by_cases here : other = session
      · rw [here, empty] at there
        cases there
      · rw [effect.others other here] at there
        exact here (poisoned.owner other session txnId there held)

theorem Poisoned.others (poisoned : Poisoned contents h)
    {other txnId : Nat} (different : other ≠ session) (failed : h.failedIn other = some txnId) :
    s'.slots other = .aborted txnId ∨ s'.flushPoisoned = true := by
  rw [effect.others other different]
  exact (poisoned.aborted other txnId failed).imp_right effect.keeps.poison

end

end Effects

section Requests
variable {session : Nat} {sql : Sql} {params : List Value}

theorem aborted_rejects {s : EngineState Data} {txnId : Nat} (slot : s.slots session = .aborted txnId)
    (kept : endsTransaction (B.prepare sql params) = false)
    (explained : ∀ query, B.prepare sql params = .ok (.explain query) → B.explain s.data query = false) :
    (B.executeWithParams s session sql params).1 = s ∧
      succeeded (B.executeWithParams s session sql params).2 = false := by
  unfold Backend.executeWithParams
  split
  · exact ⟨rfl, rfl⟩
  · unfold Backend.executeImpl
    rw [if_neg (by simp [slot])]
    split
    · exact ⟨rfl, rfl⟩
    · rename_i statement prepared
      cases statement with
      | begin => simp [Backend.dispatch, Backend.handleBegin, slot, TxnSlot.txnId, succeeded]
      | commit => simp [prepared, endsTransaction] at kept
      | rollback => simp [prepared, endsTransaction] at kept
      | explain query => simp [Backend.dispatch, Backend.handleExplain, explained query prepared, succeeded]
      | other query => simp [Backend.dispatch, Backend.executeNonControlStatement, slot, succeeded]

theorem Poisoned.rejects (poisoned : Poisoned contents h) {txnId : Nat} (failed : h.failedIn session = some txnId)
    (safe : PoisonSafe B h (.request session sql params)) (kept : endsTransaction (B.prepare sql params) = false) :
    (B.executeWithParams h.engine session sql params).1 = h.engine ∧
      succeeded (B.executeWithParams h.engine session sql params).2 = false := by
  by_cases healthy : h.engine.flushPoisoned = true
  · simp [Backend.executeWithParams, healthy, succeeded]
  · have slot := (poisoned.aborted session txnId failed).resolve_right healthy
    refine aborted_rejects slot kept fun query prepared => ?_
    have allowed := safe.resolve_left healthy
    simpa only [slot, prepared] using allowed

theorem safe_rollback (safe : PoisonSafe B h (.request session sql params)) :
    h.engine.flushPoisoned = false → B.prepare sql params = .ok .rollback →
      ∀ txnId, h.engine.slots session = .active txnId → B.canRollBack h.engine txnId = true := by
  intro healthy prepared txnId active
  simpa [PoisonSafe, healthy, prepared, active] using safe

theorem fails_aborted (effect : Effect contents session h.engine (B.executeWithParams h.engine session sql params).1
      (succeeded (B.executeWithParams h.engine session sql params).2))
    (safe : PoisonSafe B h (.request session sql params)) {txnId : Nat}
    (held : (h.engine.slots session).txnId = some txnId)
    (failed : succeeded (B.executeWithParams h.engine session sql params).2 = false) :
    (B.executeWithParams h.engine session sql params).1.slots session = .aborted txnId ∨
      (B.executeWithParams h.engine session sql params).1.flushPoisoned = true := by
  by_cases healthy : h.engine.flushPoisoned = true
  · simp [Backend.executeWithParams, healthy]
  · left
    cases slot : h.engine.slots session with
    | none => simp [slot, TxnSlot.txnId] at held
    | timedOut => simp [slot, TxnSlot.txnId] at held
    | aborted old =>
      obtain rfl : old = txnId := by simpa [slot, TxnSlot.txnId] using held
      have change := effect.change
      rw [failed, slot] at change
      generalize (B.executeWithParams h.engine session sql params).1.slots session = after at change
      cases change with
      | same => rfl
    | active old =>
      obtain rfl : old = txnId := by simpa [slot, TxnSlot.txnId] using held
      have allowed := safe.resolve_left healthy
      have inside : B.executeWithParams h.engine session sql params =
          B.executeImpl h.engine session sql params := if_neg healthy
      rw [inside, Backend.executeImpl, if_neg (by simp [slot])] at failed ⊢
      cases prepared : B.prepare sql params with
      | error err => simp [slot, prepared] at allowed
      | ok statement =>
        rw [prepared] at failed
        dsimp only at failed ⊢
        cases statement with
        | begin => simp [slot, prepared] at allowed
        | commit =>
          simp only [slot, prepared, ← Backend.succeeded_commitTxn] at allowed
          simp only [Backend.dispatch, Backend.handleCommit, slot, Backend.andThen] at failed
          cases committed : (B.commitTxn h.engine old).2 with
          | error err => simp [committed, succeeded] at allowed
          | ok _ => simp [committed, succeeded] at failed
        | rollback =>
          simp only [slot, prepared] at allowed
          simp [Backend.dispatch, Backend.handleRollback, slot, TxnSlot.txnId, Backend.succeeded_endByAbort,
            allowed] at failed
        | explain query =>
          simp only [slot, prepared] at allowed
          simp [Backend.dispatch, Backend.handleExplain, allowed, succeeded] at failed
        | other query =>
          simp only [Backend.dispatch, Backend.executeNonControlStatement, slot] at failed ⊢
          split
          · rename_i ran
            simp [ran, succeeded] at failed
          · simp [Backend.setSlot]

theorem executes_aborted {txnId : Nat} (slot : h.engine.slots session = .aborted txnId)
    (healthy : h.engine.flushPoisoned = false) (ends : endsTransaction (B.prepare sql params) = true) :
    B.executeWithParams h.engine session sql params = B.endByAbort h.engine session txnId := by
  rw [Backend.executeWithParams, if_neg (by simp [healthy]), Backend.executeImpl, if_neg (by simp [slot])]
  cases prepared : B.prepare sql params with
  | error err => simp [prepared, endsTransaction] at ends
  | ok statement =>
    cases statement with
    | begin | explain | other => simp [prepared, endsTransaction] at ends
    | commit => simp [Backend.dispatch, Backend.handleCommit, slot]
    | rollback => simp [Backend.dispatch, Backend.handleRollback, slot, TxnSlot.txnId]

theorem endByAbort_ends {s : EngineState Data} {txnId : Nat} (ok : succeeded (B.endByAbort s session txnId).2 = true) :
    ((B.endByAbort s session txnId).1.slots session).txnId = none := by
  unfold Backend.endByAbort Backend.andThen at ok ⊢
  cases aborted : (B.abortTxn s txnId).2 with
  | error err => simp [aborted, succeeded] at ok
  | ok _ =>
    cases reloaded : (B.reloadCatalog (B.abortTxn s txnId).1).2 with
    | error err => simp [aborted, reloaded, succeeded] at ok
    | ok _ => simp [reloaded, Backend.setSlot, TxnSlot.txnId]

theorem Poisoned.request (faithful : contents.Faithful B) (poisoned : Poisoned contents h)
    (safe : PoisonSafe B h (.request session sql params)) : Poisoned contents (h.request B session sql params) := by
  have effect := Backend.executeWithParams_effect faithful sql params (poisoned.alone session) (safe_rollback safe)
  unfold SessionHistory.request
  cases result : (B.executeWithParams h.engine session sql params).2 with
  | error err =>
    have failing : succeeded (B.executeWithParams h.engine session sql params).2 = false := by
      rw [result]; rfl
    cases held : (h.engine.slots session).txnId with
    | none =>
      simp only [result]
      refine poisoned.after effect ?_ (fun txnId => .inl) fun txnId => .inl
      intro other txnId failed
      by_cases here : other = session
      · subst here
        rcases poisoned.aborted other txnId failed with slot | sick
        · simp [slot, TxnSlot.txnId] at held
        · exact .inr (effect.keeps.poison sick)
      · exact poisoned.others effect here failed
    | some txnId =>
      simp only [result]
      have aborted := fails_aborted effect safe held failing
      refine poisoned.after effect ?_ ?_ fun txnId => .inl
      · intro other otherId failed
        by_cases here : other = session
        · subst here
          obtain rfl : txnId = otherId := by simpa using failed
          exact aborted
        · rw [Function.update_of_ne here] at failed
          exact poisoned.others effect here failed
      · intro failedId failed
        by_cases here : failedId = txnId
        · subst here
          refine .inr ⟨failing, held, aborted.imp_left fun slot => ?_⟩
          simp [slot]
        · rw [Function.update_of_ne here] at failed
          exact .inl failed
  | ok value =>
    have done : succeeded (B.executeWithParams h.engine session sql params).2 = true := by
      rw [result]; rfl
    have healthy : h.engine.flushPoisoned = false := by
      by_contra sick
      rw [Bool.not_eq_false] at sick
      simp [Backend.executeWithParams, sick, succeeded] at done
    cases ends : endsTransaction (B.prepare sql params) with
    | false =>
      simp only [result, Bool.false_eq_true, if_false]
      refine poisoned.after effect ?_ (fun txnId => .inl) fun txnId => .inl
      intro other txnId failed
      by_cases here : other = session
      · subst here
        exact absurd (done.symm.trans (poisoned.rejects failed safe ends).2) (by simp)
      · exact poisoned.others effect here failed
    | true =>
      simp only [result, if_true]
      refine poisoned.after effect ?_ (fun txnId => .inl) fun txnId removed => ?_
      · intro other txnId failed
        by_cases here : other = session
        · simp [here] at failed
        · rw [Function.update_of_ne here] at failed
          exact poisoned.others effect here failed
      · cases failed : h.failedIn session with
        | none => exact .inl (by simpa [failed] using removed)
        | some old =>
          by_cases same : txnId = old
          · subst same
            have slot := (poisoned.aborted session txnId failed).resolve_right (by simp [healthy])
            have held : (h.engine.slots session).txnId = some txnId := by rw [slot]; rfl
            rw [executes_aborted slot healthy ends] at done ⊢
            exact .inr ⟨held, endByAbort_ends done,
              Backend.endByAbort_gone faithful (poisoned.begun session txnId held) done⟩
          · exact .inl (by simpa [failed, same] using removed)

end Requests

theorem Poisoned.step {action : SessionAction Sql Value} (faithful : contents.Faithful B)
    (poisoned : Poisoned contents h)
    (safe : PoisonSafe B h action) (stepped : (system contents B).step h action = some h') : Poisoned contents h' := by
  cases action with
  | request session sql params =>
    obtain rfl := Option.some.inj stepped
    exact poisoned.request faithful safe
  | expire session =>
    obtain ⟨engine, expired, rfl⟩ := Option.map_eq_some_iff.mp stepped
    have effect := Backend.expireIdleSession_effect faithful (poisoned.alone session) expired
    refine poisoned.after effect ?_ (fun txnId => .inl) fun txnId => .inl
    intro other txnId failed
    by_cases here : other = session
    · subst here
      exact (poisoned.aborted other txnId failed).imp (fun slot => absurd slot (safe txnId)) effect.keeps.poison
    · exact poisoned.others effect here failed
  | disconnect session =>
    obtain rfl := Option.some.inj stepped
    have effect := Backend.disconnectSession_effect faithful (poisoned.alone session)
    refine poisoned.after effect ?_ (fun txnId => .inl) fun txnId => .inl
    intro other txnId failed
    by_cases here : other = session
    · subst here
      simp at failed
    · rw [Function.update_of_ne here] at failed
      exact poisoned.others effect here failed

theorem Poisoned.of_reachable (faithful : contents.Faithful B)
    (reachable : (system contents B).ReachableBy (PoisonSafe B) h) : Poisoned contents h := by
  refine reachable.invariant (P := Poisoned contents) ?_ fun s action s' poisoned safe => poisoned.step faithful safe
  rintro s ⟨data, highestSeen, rfl, seen⟩
  exact Poisoned.start data highestSeen seen

/-- A backend whose statements say what they do. -/
structure Script where
  rids : List Rid
  creates : Bool
  ok : Bool

structure ScriptPages where
  row : Rid → Option Nat
  stored : Nat → Bool
  defined : Nat → Bool

def scripted : Backend (Option (Statement Script)) Unit Script ScriptPages where
  parse := id
  substituteParameters statement _ := some statement
  poisonsFlush _ := false
  logBegin data _ := data
  flushCommit data _ := (data, true)
  execute data _ txnId query :=
    let inserted := query.rids.filter fun rid => data.row rid = none
    { data :=
        { row := fun rid => if rid ∈ inserted then some txnId else data.row rid
          stored := if query.creates then update data.stored txnId true else data.stored
          defined := if query.creates then update data.defined txnId true else data.defined }
      inserted
      ok := query.ok }
  explain _ query := query.ok
  undo data txnId :=
    ({ data with
        row := fun rid => if data.row rid = some txnId then none else data.row rid
        stored := update data.stored txnId false }, true)
  reload data _ := ({ data with defined := data.stored }, true)
  checkpointDue _ := false
  recordCheckpoint data := (data, true)
  setLastCheckpointLsn data _ := (data, true)
  finishCheckpoint := id

end SessionHistory

end SimpleRdbms.Engine
