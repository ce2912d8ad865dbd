import SimpleRdbms.Proof.FirstWord
import SimpleRdbms.Proof.Sessions

namespace SimpleRdbms.Server
open SimpleRdbms.Sql SimpleRdbms.Lib
open SimpleRdbms.Engine (Backend EngineState Outcome SessionError TxnSlot)
open Function (update)

inductive Handled {Query : Type} : TxnSlot → Engine.Statement Query → TxnSlot → Bool → Prop where
  | opened (txnId : Nat) : Handled .none .begin (.active txnId) true
  | committed (txnId : Nat) : Handled (.active txnId) .commit .none true
  | failedCommitted (txnId : Nat) : Handled (.aborted txnId) .commit .none true
  | rolledBack {slot : TxnSlot} {txnId : Nat} (isOpen : slot.txnId = some txnId) : Handled slot .rollback .none true
  | explained (slot : TxnSlot) (query : Query) : Handled slot (.explain query) slot true
  | executed {slot : TxnSlot} (query : Query) (alive : ∀ txnId, slot ≠ .aborted txnId) :
      Handled slot (.other query) slot true
  | failed (txnId : Nat) (query : Query) : Handled (.active txnId) (.other query) (.aborted txnId) false
  | refused (slot : TxnSlot) (statement : Engine.Statement Query)
      (control : ∀ txnId query, slot = .active txnId → statement ≠ .other query) : Handled slot statement slot false

def HandledIn {Query Data : Type} (session : Nat) (statement : Engine.Statement Query) (s : EngineState Data)
    (outcome : Outcome Data Unit) : Prop :=
  ∃ slot, outcome.1.slots = update s.slots session slot ∧
    Handled (s.slots session) statement slot (Engine.succeeded outcome.2)

section Engine
variable {Query Data : Type} {B : Backend Text Value Query Data} {s : EngineState Data} {session : Nat}

theorem HandledIn.refused {statement : Engine.Statement Query} {outcome : Outcome Data Unit}
    (slots : outcome.1.slots = s.slots) (failed : Engine.succeeded outcome.2 = false)
    (control : ∀ txnId query, s.slots session = .active txnId → statement ≠ .other query) :
    HandledIn session statement s outcome :=
  ⟨s.slots session, by rw [slots, Function.update_eq_self], failed ▸ .refused _ _ control⟩

theorem endByAbort_handled {txnId : Nat} {statement : Engine.Statement Query}
    (ends : Handled (s.slots session) statement .none true) (control : ∀ query, statement ≠ .other query) :
    HandledIn session statement s (B.endByAbort s session txnId) := by
  unfold Backend.endByAbort Backend.andThen
  cases aborted : (B.abortTxn s txnId).2 with
  | error err => exact .refused (Backend.abortTxn_slots txnId) rfl fun _ query _ => control query
  | ok _ =>
    dsimp only
    cases reloaded : (B.reloadCatalog (B.abortTxn s txnId).1).2 with
    | error err => exact .refused (Backend.abandon_slots txnId) rfl fun _ query _ => control query
    | ok _ =>
      refine ⟨.none, ?_, ends⟩
      rw [Backend.maybeCheckpoint_slots]
      exact congrArg (update · session .none) (Backend.abandon_slots txnId)

theorem handleCommit_handled : HandledIn session (.commit : Engine.Statement Query) s (B.handleCommit s session) := by
  unfold Backend.handleCommit
  split
  · exact .refused rfl rfl (by simp)
  · exact .refused rfl rfl (by simp)
  · rename_i txnId slot
    exact endByAbort_handled (slot ▸ .failedCommitted txnId) (by simp)
  · rename_i txnId slot
    unfold Backend.andThen
    cases committed : (B.commitTxn s txnId).2 with
    | error err => exact .refused (Backend.commitTxn_slots txnId) rfl (by simp)
    | ok _ =>
      refine ⟨.none, ?_, slot ▸ .committed txnId⟩
      rw [Backend.maybeCheckpoint_slots]
      exact congrArg (update · session .none) (Backend.commitTxn_slots txnId)

theorem autocommit_handled (query : Query) (closed : (s.slots session).txnId = none) :
    let run := B.runStatement (B.beginTxn s) s.txns.nextTxnId query
    HandledIn session (.other query) s
      (if run.2 then
        Backend.andThen (B.commitTxn run.1 s.txns.nextTxnId) fun committed => (B.maybeCheckpoint committed, .ok ())
      else ((B.reloadCatalog (B.abortTxn run.1 s.txns.nextTxnId).1).1, .error .statement)) := by
  have refused : ∀ txnId other, s.slots session = .active txnId → Engine.Statement.other query ≠ .other other := by
    intro txnId other active
    simp [active, TxnSlot.txnId] at closed
  dsimp only
  split
  · unfold Backend.andThen
    split
    · refine ⟨s.slots session, ?_, .executed query fun txnId aborted => ?_⟩
      · rw [Function.update_eq_self]
        exact Backend.maybeCheckpoint_slots.trans (Backend.commitTxn_slots _)
      · simp [aborted, TxnSlot.txnId] at closed
    · exact .refused (Backend.commitTxn_slots _) rfl refused
  · exact .refused (Backend.abandon_slots (B := B) s.txns.nextTxnId) rfl refused

theorem executeNonControlStatement_handled (query : Query) :
    HandledIn session (.other query) s (B.executeNonControlStatement s session query) := by
  unfold Backend.executeNonControlStatement
  split
  · rename_i txnId slot
    dsimp only
    split
    · exact ⟨s.slots session, (Function.update_eq_self _ _).symm, .executed query (by simp [slot])⟩
    · exact ⟨.aborted txnId, rfl, slot ▸ .failed txnId query⟩
  · rename_i slot
    exact .refused rfl rfl (by simp [slot])
  · rename_i slot
    exact autocommit_handled query (by rw [slot]; rfl)
  · rename_i slot
    exact autocommit_handled query (by rw [slot]; rfl)

theorem dispatch_handled (statement : Engine.Statement Query) (awake : s.slots session ≠ .timedOut) :
    HandledIn session statement s (B.dispatch s session statement) := by
  cases statement with
  | begin =>
    change HandledIn _ _ _ (B.handleBegin s session)
    unfold Backend.handleBegin
    split
    · exact .refused rfl rfl (by simp)
    · rename_i closed
      have none : s.slots session = .none := by
        cases slot : s.slots session <;> simp [slot, TxnSlot.txnId] at closed awake ⊢
      exact ⟨.active s.txns.nextTxnId, rfl, none ▸ .opened _⟩
  | commit => exact handleCommit_handled
  | rollback =>
    change HandledIn _ _ _ (B.handleRollback s session)
    unfold Backend.handleRollback
    split
    · exact .refused rfl rfl (by simp)
    · rename_i txnId isOpen
      exact endByAbort_handled (.rolledBack isOpen) (by simp)
  | explain query =>
    change HandledIn _ _ _ (B.handleExplain s query)
    unfold Backend.handleExplain
    split
    · exact ⟨s.slots session, (Function.update_eq_self _ _).symm, .explained _ query⟩
    · exact .refused rfl rfl (by simp)
  | other query => exact executeNonControlStatement_handled query

end Engine

theorem underlying_classify (statement : Statement) : underlying (classify statement) = statement := by
  cases statement <;> rfl

theorem substituteStatement_control {values : List Value} {statement : Statement} :
    (statement = .begin → Planner.substituteStatement values statement = .begin) ∧
      (statement = .commit → Planner.substituteStatement values statement = .commit) := by
  constructor <;> rintro rfl <;> rfl

section Text
variable {Data : Type} {database : Database Data} {sql : Text} {params : List Value}

theorem prepare_keyword {statement : Engine.Statement Statement}
    (prepared : database.engine.prepare sql params = .ok statement) :
    ∃ executed : Statement, statement = classify executed ∧
      (statementKeyword sql = "BEGIN".toList → executed = .begin) ∧
      (statementKeyword sql = "COMMIT".toList → executed = .commit) := by
  unfold Backend.prepare at prepared
  cases parsed : parseSql sql with
  | error err => simp [Database.engine, parsed, Except.toOption] at prepared
  | ok accepted =>
    obtain ⟨begins, commits⟩ := statement_of_keyword parsed
    have text : database.engine.parse sql = some (classify accepted) := by
      simp [Database.engine, parsed, Except.toOption]
    simp only [text] at prepared
    split at prepared
    · simp only [Except.ok.injEq] at prepared
      exact ⟨accepted, prepared.symm, begins, commits⟩
    · have substitute : database.engine.substituteParameters (classify accepted) params =
          (Planner.substituteParameters accepted params).toOption.map classify := by
        simp [Database.engine, underlying_classify]
      rw [substitute, Planner.substituteParameters] at prepared
      split at prepared
      · simp at prepared
      · rename_i substituted found
        split at found
        · simp [Except.toOption] at found
        · simp only [Except.toOption, Option.map_some, Option.some.injEq] at found
          simp only [Except.ok.injEq] at prepared
          refine ⟨Planner.substituteStatement params accepted, by rw [← prepared, found], ?_, ?_⟩
          · exact fun keyword => substituteStatement_control.1 (begins keyword)
          · exact fun keyword => substituteStatement_control.2 (commits keyword)

def statusOf : TxnSlot → Option TransactionStatus
  | .none => some .idle
  | .active _ => some .transaction
  | .aborted _ => some .error
  | .timedOut => none

def ReportedAs (sql : Text) (slot : TxnSlot) : Engine.Statement Statement → Prop
  | .begin => statementKeyword sql = "BEGIN".toList
  | .commit => ∀ txnId, slot = .active txnId → statementKeyword sql = "COMMIT".toList
  | .rollback => False
  | .explain _ | .other _ => True

theorem onResponse_rowsAffected (status : TransactionStatus) :
    status.onResponse (toResponse sql .rowsAffected) =
      if statementKeyword sql = "BEGIN".toList then .transaction
      else if statementKeyword sql = "COMMIT".toList then .idle
      else status := by
  simp only [toResponse]
  split
  · rename_i insert
    rw [if_neg (by rw [insert]; decide), if_neg (by rw [insert]; decide)]
    rfl
  · split
    · rfl
    · split <;> rfl

theorem statusOf_success_iff {slot slot' : TxnSlot} {status : TransactionStatus} {statement : Statement}
    (same : statusOf slot = some status) (handled : Handled slot (classify statement) slot' true)
    (begins : statementKeyword sql = "BEGIN".toList → statement = .begin)
    (commits : statementKeyword sql = "COMMIT".toList → statement = .commit) :
    statusOf slot' = some (status.onResponse (toResponse sql (resultSet slot statement))) ↔
      ReportedAs sql slot (classify statement) := by
  have notBegin : statement ≠ .begin → statementKeyword sql ≠ "BEGIN".toList := fun other keyword =>
    other (begins keyword)
  have notCommit : statement ≠ .commit → statementKeyword sql ≠ "COMMIT".toList := fun other keyword =>
    other (commits keyword)
  cases statement with
  | begin =>
    cases handled
    cases same
    simp only [resultSet, onResponse_rowsAffected, statusOf, ReportedAs, classify, if_neg (notCommit (by simp))]
    split
    · rename_i keyword
      exact iff_of_true rfl keyword
    · rename_i keyword
      exact iff_of_false (by simp) keyword
  | commit =>
    cases handled with
    | committed txnId =>
      cases same
      simp only [resultSet, onResponse_rowsAffected, statusOf, ReportedAs, classify, if_neg (notBegin (by simp))]
      split
      · rename_i keyword
        exact iff_of_true rfl fun _ _ => keyword
      · rename_i keyword
        exact iff_of_false (by simp) fun all => keyword (all txnId rfl)
    | failedCommitted txnId =>
      simp [resultSet, toResponse, TransactionStatus.onResponse, statusOf, ReportedAs, classify]
  | rollback =>
    cases handled with
    | rolledBack isOpen =>
      simp only [resultSet, onResponse_rowsAffected, statusOf, ReportedAs, classify, if_neg (notBegin (by simp)),
        if_neg (notCommit (by simp)), iff_false, Option.some.injEq]
      rintro rfl
      cases slot <;> simp [statusOf, TxnSlot.txnId] at same isOpen
  | explain verbose inner =>
    cases handled
    simpa [resultSet, toResponse, TransactionStatus.onResponse, ReportedAs, classify] using same
  | select query =>
    cases handled
    simpa [resultSet, toResponse, TransactionStatus.onResponse, ReportedAs, classify] using same
  | insert _ | createTable _ | createIndex _ =>
    cases handled
    simp only [resultSet, onResponse_rowsAffected, ReportedAs, classify, if_neg (notBegin (by simp)),
      if_neg (notCommit (by simp)), same]

end Text

section Acceptance
variable {Data : Type} {B : Backend Text Value Statement Data} {s : EngineState Data} {session : Nat} {sql : Text}

/-- What an active or failed transaction must not be sent, and the words that must come first. -/
def Accepted (B : Backend Text Value Statement Data) (s : EngineState Data) (session : Nat) (sql : Text)
    (statement : Engine.Statement Statement) : Prop :=
  match s.slots session, statement with
  | .none, .begin => statementKeyword sql = "BEGIN".toList
  | .active _, .begin | .active _, .rollback => False
  | .active txnId, .commit => B.canCommit s txnId = true ∧ statementKeyword sql = "COMMIT".toList
  | .active _, .explain query => B.explain s.data query = true
  | .aborted txnId, .rollback => B.canRollBack s txnId = false
  | _, _ => True

theorem succeeded_handleCommit {txnId : Nat} (slot : s.slots session = .active txnId) :
    Engine.succeeded (B.handleCommit s session).2 = B.canCommit s txnId := by
  rw [Backend.handleCommit, slot, ← Backend.succeeded_commitTxn]
  dsimp only [Backend.andThen]
  cases (B.commitTxn s txnId).2 <;> rfl

theorem succeeded_handleRollback {txnId : Nat} (slot : (s.slots session).txnId = some txnId) :
    Engine.succeeded (B.handleRollback s session).2 = B.canRollBack s txnId := by
  rw [Backend.handleRollback, slot]
  exact Backend.succeeded_endByAbort session txnId

theorem accepted_of_success (statement : Engine.Statement Statement) (awake : s.slots session ≠ .timedOut)
    (ok : Engine.succeeded (B.dispatch s session statement).2 = true) :
    ReportedAs sql (s.slots session) statement ↔ Accepted B s session sql statement := by
  unfold Accepted ReportedAs
  cases statement with
  | begin =>
    cases slot : s.slots session <;>
      simp_all [Backend.dispatch, Backend.handleBegin, TxnSlot.txnId, Engine.succeeded]
  | commit =>
    cases slot : s.slots session with
    | active txnId =>
      have can := (succeeded_handleCommit (B := B) slot).symm.trans ok
      simp [can]
    | none | aborted | timedOut => simp
  | rollback =>
    cases slot : s.slots session with
    | aborted txnId =>
      have can := (succeeded_handleRollback (B := B) (by rw [slot]; rfl)).symm.trans ok
      simp [can]
    | none | timedOut => simp [Backend.dispatch, Backend.handleRollback, slot, TxnSlot.txnId, Engine.succeeded] at ok
    | active => simp
  | explain query =>
    have can : B.explain s.data query = true := by
      by_contra fails
      simp [Backend.dispatch, Backend.handleExplain, fails, Engine.succeeded] at ok
    cases s.slots session <;> simp [can]
  | other query => cases s.slots session <;> simp

theorem accepted_of_failure {statement : Engine.Statement Statement} {slot' : TxnSlot}
    (handled : Handled (s.slots session) statement slot' false)
    (failed : Engine.succeeded (B.dispatch s session statement).2 = false) :
    (∀ txnId, s.slots session = .active txnId → slot' = .aborted txnId) ↔ Accepted B s session sql statement := by
  have closed : (s.slots session).txnId = none → statement ≠ .begin := by
    rintro empty rfl
    simp [Backend.dispatch, Backend.handleBegin, empty, Engine.succeeded] at failed
  have explained : ∀ query, statement = .explain query → B.explain s.data query = false := by
    rintro query rfl
    by_contra can
    rw [Bool.not_eq_false] at can
    simp [Backend.dispatch, Backend.handleExplain, can, Engine.succeeded] at failed
  have commits : ∀ txnId, s.slots session = .active txnId → statement = .commit → B.canCommit s txnId = false := by
    rintro txnId slot rfl
    exact (succeeded_handleCommit slot).symm.trans failed
  have rolls : ∀ txnId, s.slots session = .aborted txnId → statement = .rollback → B.canRollBack s txnId = false := by
    rintro txnId slot rfl
    exact (succeeded_handleRollback (by rw [slot]; rfl)).symm.trans failed
  unfold Accepted
  generalize s.slots session = slot at *
  cases handled with
  | failed txnId query => simp
  | refused _ _ control =>
    cases slot' with
    | none => cases statement <;> simp_all [TxnSlot.txnId]
    | timedOut => simp
    | aborted txnId => cases statement <;> simp_all
    | active txnId => cases statement <;> simp_all

end Acceptance

section Messages
variable {Data : Type} (database : Database Data)

/-- Whether a message that does not reach the engine is answered. -/
def understood (s : EngineState Data) : WireMessage → Bool
  | .query _ => true
  | .parse sql => (database.parseStatement s sql).isOk
  | .execute (.introspection sql) _ => (answer (database.tableNames s.data) sql).isSome
  | .execute (.ordinary _) params => params.isSome

def reaches (s : EngineState Data) : WireMessage → Option (Text × List Value)
  | .query sql =>
    if (answer (database.tableNames s.data) sql).isNone ∧ (interceptSetShowReset sql).isNone then some (sql, [])
    else none
  | .execute (.ordinary sql) (some params) => some (sql, params)
  | .parse _ | .execute (.introspection _) _ | .execute (.ordinary _) none => none

variable {database} {s : EngineState Data} {session : Nat} {message : WireMessage}

theorem serve_reaches {sql : Text} {params : List Value} (reached : reaches database s message = some (sql, params)) :
    database.serve s session message =
      ((database.executeWithParams s session sql params).1,
        (database.executeWithParams s session sql params).2.map fun resultSet => [toResponse sql resultSet]) := by
  cases message with
  | query text =>
    simp only [reaches, Option.isNone_iff_eq_none] at reached
    split at reached
    · rename_i passed
      obtain ⟨rfl, rfl⟩ : text = sql ∧ [] = params := by simpa using reached
      simp [Database.serve, Database.simpleQuery, passed]
    · cases reached
  | parse text => cases reached
  | execute statement values =>
    cases statement with
    | introspection text => cases reached
    | ordinary text =>
      cases values with
      | none => cases reached
      | some values =>
        obtain ⟨rfl, rfl⟩ : text = sql ∧ values = params := by simpa [reaches] using reached
        rfl

theorem serve_not_reaches (session : Nat) (unreached : reaches database s message = none) :
    (database.serve s session message).1 = s ∧
      (understood database s message = true → ∃ responses, (database.serve s session message).2 = .ok responses ∧
        ∀ status : TransactionStatus, responses.foldl TransactionStatus.onResponse status = status) ∧
      (understood database s message = false → ∃ err, (database.serve s session message).2 = .error err) := by
  have intercepted : ∀ sql response, interceptSetShowReset sql = some response → ∀ status : TransactionStatus,
      status.onResponse response = status := by
    intro sql response found status
    unfold interceptSetShowReset at found
    split at found
    · cases found
    · split_ifs at found <;> cases found <;> rfl
  cases message with
  | query sql =>
    simp only [Database.serve, Database.simpleQuery, understood, true_implies, Bool.true_eq_false, false_implies,
      and_true]
    cases answered : answer (database.tableNames s.data) sql with
    | some shape => exact ⟨rfl, _, rfl, fun _ => rfl⟩
    | none =>
      cases caught : interceptSetShowReset sql with
      | some response => exact ⟨rfl, _, rfl, intercepted sql response caught⟩
      | none => simp [reaches, answered, caught] at unreached
  | parse sql =>
    dsimp only [Database.serve, understood]
    cases parsed : database.parseStatement s sql with
    | error err => exact ⟨rfl, fun ok => (by cases ok), fun _ => ⟨err, rfl⟩⟩
    | ok statement => exact ⟨rfl, fun _ => ⟨[], rfl, fun _ => rfl⟩, fun failed => (by cases failed)⟩
  | execute statement values =>
    cases statement with
    | introspection sql =>
      simp only [Database.serve, Database.extendedQuery, understood]
      cases answer (database.tableNames s.data) sql with
      | some shape => exact ⟨rfl, fun _ => ⟨_, rfl, fun _ => rfl⟩, fun failed => (by cases failed)⟩
      | none => exact ⟨rfl, fun ok => (by cases ok), fun _ => ⟨_, rfl⟩⟩
    | ordinary sql =>
      cases values with
      | none => exact ⟨rfl, fun ok => (by cases ok), fun _ => ⟨_, rfl⟩⟩
      | some values => cases unreached

def FailedSlot (slot slot' : TxnSlot) : Prop := slot' = slot ∨ ∃ txnId, slot = .active txnId ∧ slot' = .aborted txnId

theorem statusOf_error_iff {slot slot' : TxnSlot} {status : TransactionStatus} (same : statusOf slot = some status)
    (failed : FailedSlot slot slot') :
    statusOf slot' = some status.onError ↔ ∀ txnId, slot = .active txnId → slot' = .aborted txnId := by
  rcases failed with rfl | ⟨txnId, rfl, rfl⟩
  · cases slot' <;> cases same <;> simp [statusOf, TransactionStatus.onError]
  · cases same
    simp [statusOf, TransactionStatus.onError]

theorem executeWithParams_refused {err : SessionError} {sql : Text} {params : List Value}
    (failed : database.engine.executeWithParams s session sql params = (s, .error err)) :
    database.executeWithParams s session sql params = (s, .error (.engine err)) := by
  simp [Database.executeWithParams, failed]

end Messages

namespace Connections
variable {Data : Type} (database : Database Data)

def Matched (c : Connections Data) : Prop :=
  ∀ session, (c.status session = .idle ↔ c.engine.slots session = .none) ∧
    (c.status session = .transaction ↔ ∃ txnId, c.engine.slots session = .active txnId) ∧
    (c.status session = .error ↔ ∃ txnId, c.engine.slots session = .aborted txnId)

theorem matched_iff {c : Connections Data} :
    c.Matched ↔ ∀ session, statusOf (c.engine.slots session) = some (c.status session) := by
  refine forall_congr' fun session => ?_
  cases c.engine.slots session <;> cases c.status session <;> simp [statusOf]

/-- In an active transaction a message that fails is one with a statement that fails on its own; a statement that opens
or ends a transaction says so in its first word. -/
def Reported (c : Connections Data) : WireAction → Prop
  | .disconnect _ => True
  | .message session message =>
    match reaches database c.engine message with
    | none => understood database c.engine message = true ∨ ∀ txnId, c.engine.slots session ≠ .active txnId
    | some (sql, params) =>
      match database.engine.prepare sql params with
      | .error _ => ∀ txnId, c.engine.slots session ≠ .active txnId
      | .ok statement =>
        if c.engine.flushPoisoned then ∀ txnId, c.engine.slots session ≠ .active txnId
        else Accepted database.engine c.engine session sql statement

variable {database}

theorem matched_update_iff {slots : Nat → TxnSlot} {status : Nat → TransactionStatus} {session : Nat} {slot : TxnSlot}
    {new : TransactionStatus} (matched : ∀ other, statusOf (slots other) = some (status other)) :
    (∀ other, statusOf (update slots session slot other) = some (update status session new other)) ↔
      statusOf slot = some new := by
  constructor
  · intro all
    simpa using all session
  · intro here other
    by_cases same : other = session
    · subst same
      simpa using here
    · simpa [same] using matched other

theorem refused_matched_iff {c : Connections Data}
    (matched : ∀ session, statusOf (c.engine.slots session) = some (c.status session)) (session : Nat) :
    (∀ other, statusOf (c.engine.slots other) = some (update c.status session (c.status session).onError other)) ↔
      ∀ txnId, c.engine.slots session ≠ .active txnId := by
  have slots : c.engine.slots = update c.engine.slots session (c.engine.slots session) := by simp
  rw [slots, matched_update_iff matched, statusOf_error_iff (matched session) (.inl rfl), Function.update_self]
  refine forall_congr' fun txnId => ⟨fun keeps active => ?_, fun idle active => absurd active idle⟩
  cases active.symm.trans (keeps active)

theorem receive_matched_iff {c : Connections Data} (matched : c.Matched) (session : Nat) (message : WireMessage) :
    (c.receive database session message).Matched ↔ Reported database c (.message session message) := by
  rw [matched_iff] at matched ⊢
  have awake : c.engine.slots session ≠ .timedOut := by
    intro timedOut
    have here := matched session
    simp [timedOut, statusOf] at here
  simp only [receive, Reported]
  cases reached : reaches database c.engine message with
  | none =>
    obtain ⟨engine, silent, fails⟩ := serve_not_reaches session reached
    rw [engine]
    cases known : understood database c.engine message with
    | false =>
      obtain ⟨err, result⟩ := fails known
      simp only [result, refused_matched_iff matched, Bool.false_eq_true, false_or]
    | true =>
      obtain ⟨responses, result, same⟩ := silent known
      simp only [result, same, Function.update_eq_self, true_or, iff_true]
      exact matched
  | some text =>
    obtain ⟨sql, params⟩ := text
    rw [serve_reaches reached]
    dsimp only
    cases prepared : database.engine.prepare sql params with
    | error err =>
      have refused : ∃ err, database.engine.executeWithParams c.engine session sql params = (c.engine, .error err) := by
        by_cases poisoned : c.engine.flushPoisoned = true
        · exact ⟨.flushPoisoned, by simp [Backend.executeWithParams, poisoned]⟩
        · exact ⟨err, by simp [Backend.executeWithParams, poisoned, Backend.executeImpl, awake, prepared]⟩
      rw [executeWithParams_refused refused.choose_spec]
      exact refused_matched_iff matched session
    | ok statement =>
      dsimp only
      by_cases poisoned : c.engine.flushPoisoned = true
      · have refused : database.engine.executeWithParams c.engine session sql params =
            (c.engine, .error .flushPoisoned) := by
          simp [Backend.executeWithParams, poisoned]
        rw [if_pos poisoned, executeWithParams_refused refused]
        exact refused_matched_iff matched session
      · rw [if_neg poisoned]
        have dispatched : database.engine.executeWithParams c.engine session sql params =
            database.engine.dispatch c.engine session statement := by
          simp [Backend.executeWithParams, poisoned, Backend.executeImpl, awake, prepared]
        obtain ⟨slot', slots, handled⟩ := dispatch_handled (B := database.engine) statement awake
        cases result : (database.engine.dispatch c.engine session statement).2 with
        | error err =>
          have failed : Engine.succeeded (database.engine.dispatch c.engine session statement).2 = false := by
            rw [result]; rfl
          have served : database.executeWithParams c.engine session sql params =
              ((database.engine.dispatch c.engine session statement).1, .error (.engine err)) := by
            rw [Database.executeWithParams]
            simp only [dispatched, result]
          rw [failed] at handled
          rw [served, slots, ← accepted_of_failure handled failed]
          refine (matched_update_iff matched).trans (statusOf_error_iff (matched session) ?_)
          generalize c.engine.slots session = slot at handled
          cases handled with
          | failed txnId query => exact .inr ⟨txnId, rfl, rfl⟩
          | refused => exact .inl rfl
        | ok _ =>
          have done : Engine.succeeded (database.engine.dispatch c.engine session statement).2 = true := by
            rw [result]; rfl
          have served : database.executeWithParams c.engine session sql params =
              ((database.engine.dispatch c.engine session statement).1,
                .ok (resultSet (c.engine.slots session) (underlying statement))) := by
            rw [Database.executeWithParams]
            simp only [dispatched, result, prepared]
          rw [done] at handled
          rw [served, slots, ← accepted_of_success statement awake done]
          obtain ⟨executed, rfl, begins, commits⟩ := prepare_keyword prepared
          refine (matched_update_iff matched).trans ?_
          rw [underlying_classify]
          exact statusOf_success_iff (matched session) handled begins commits

theorem disconnect_matched {c : Connections Data} (matched : c.Matched) (session : Nat) :
    Matched { engine := database.engine.disconnectSession c.engine session,
              status := update c.status session .idle : Connections Data } := by
  unfold Backend.disconnectSession
  rw [matched_iff] at matched ⊢
  intro other
  by_cases same : other = session
  · subst same
    have here := matched other
    cases slot : c.engine.slots other <;> simp_all [TxnSlot.txnId, statusOf, Backend.setSlot]
  · have there := matched other
    cases slot : (c.engine.slots session).txnId with
    | none => simpa [same] using there
    | some txnId => simpa [same, Backend.setSlot] using there

theorem step_matched_iff {c c' : Connections Data} {action : WireAction} (matched : c.Matched)
    (stepped : (system database).step c action = some c') : c'.Matched ↔ Reported database c action := by
  cases action with
  | message session message =>
    obtain rfl : c.receive database session message = c' := Option.some.inj stepped
    exact receive_matched_iff matched session message
  | disconnect session =>
    obtain rfl := Option.some.inj stepped
    exact iff_of_true (disconnect_matched matched session) trivial

def emptyDatabase : Database Unit where
  backend :=
    { parse := fun _ => none
      substituteParameters := fun _ _ => none
      poisonsFlush := fun _ => false
      logBegin := fun _ _ => ()
      flushCommit := fun _ _ => ((), true)
      execute := fun _ _ _ _ => { data := (), inserted := [], ok := true }
      explain := fun _ _ => true
      undo := fun _ _ => ((), true)
      reload := fun _ _ => ((), true)
      checkpointDue := fun _ => false
      recordCheckpoint := fun _ => ((), true)
      setLastCheckpointLsn := fun _ _ => ((), true)
      finishCheckpoint := fun _ => () }
  tableNames := fun _ => []
  describes := fun _ _ => true

def fresh : Connections Unit where
  engine :=
    { data := (), flushPoisoned := false, txns := Txn.TransactionManager.new none, locks := Txn.LockManager.new,
      slots := fun _ => .none }
  status := fun _ => .idle

/-- If every message is reported the status matches the session, and one that is not reported breaks it. -/
theorem status_matches_session (database : Database Data) :
    (∀ c, (system database).ReachableBy (Reported database) c → c.Matched) ∧
      ∀ c c' action, c.Matched → (system database).step c action = some c' →
        (c'.Matched ↔ Reported database c action) := by
  refine ⟨fun c reached => ?_, fun c c' action matched stepped => step_matched_iff matched stepped⟩
  refine reached.invariant (P := Matched) (fun c start => ?_) fun c c' action matched reported stepped => ?_
  · obtain ⟨slots, status⟩ := start
    rw [matched_iff]
    intro session
    rw [slots, status]
    rfl
  · exact (step_matched_iff matched stepped).mpr reported

theorem status_matches_session_commit :
    let begun := fresh.receive emptyDatabase 0 (.query "begin;".toList)
    let refused := begun.receive emptyDatabase 1 (.query "SELEC".toList)
    begun.Matched ∧ refused.Matched ∧ (refused.receive emptyDatabase 0 (.query "Commit ;".toList)).Matched := by
  intro begun refused
  have matched := (status_matches_session emptyDatabase).1
  have first : (system emptyDatabase).ReachableBy (Reported emptyDatabase) begun := by
    refine .next (a := .message 0 (.query "begin;".toList)) (.start ⟨rfl, rfl⟩) ?_ rfl
    have reached : reaches emptyDatabase fresh.engine (.query "begin;".toList) = some ("begin;".toList, []) := by
      decide +kernel
    have prepared : emptyDatabase.engine.prepare "begin;".toList [] = .ok .begin := by decide +kernel
    have keyword : statementKeyword "begin;".toList = "BEGIN".toList := by decide +kernel
    simp only [Reported, reached, prepared]
    exact keyword
  have second : (system emptyDatabase).ReachableBy (Reported emptyDatabase) refused := by
    refine .next (a := .message 1 (.query "SELEC".toList)) first ?_ rfl
    have reached : reaches emptyDatabase begun.engine (.query "SELEC".toList) = some ("SELEC".toList, []) := by
      decide +kernel
    have prepared : emptyDatabase.engine.prepare "SELEC".toList [] = .error .syntaxError := by decide +kernel
    have slot : begun.engine.slots 1 = .none := by decide +kernel
    simp only [Reported, reached, prepared, slot]
    exact fun txnId active => by cases active
  have third : (system emptyDatabase).ReachableBy (Reported emptyDatabase)
      (refused.receive emptyDatabase 0 (.query "Commit ;".toList)) := by
    refine .next (a := .message 0 (.query "Commit ;".toList)) second ?_ rfl
    have reached : reaches emptyDatabase refused.engine (.query "Commit ;".toList) = some ("Commit ;".toList, []) := by
      decide +kernel
    have prepared : emptyDatabase.engine.prepare "Commit ;".toList [] = .ok .commit := by decide +kernel
    have slot : refused.engine.slots 0 = .active 0 := by decide +kernel
    have can : emptyDatabase.engine.canCommit refused.engine 0 = true := by decide +kernel
    have keyword : statementKeyword "Commit ;".toList = "COMMIT".toList := by decide +kernel
    have healthy : refused.engine.flushPoisoned = false := by decide +kernel
    simp only [Reported, reached, prepared, healthy, Accepted, slot]
    exact ⟨can, keyword⟩
  exact ⟨matched _ first, matched _ second, matched _ third⟩

theorem rollback_leaves_transaction_status :
    ∃ c, (system emptyDatabase).Reachable c ∧ c.engine.slots 0 = .none ∧ c.status 0 = .transaction := by
  have found : ((system emptyDatabase).run fresh
      [.message 0 (.query "BEGIN".toList), .message 0 (.query "ROLLBACK".toList)]).any
        (fun c => decide (c.engine.slots 0 = .none ∧ c.status 0 = .transaction)) = true := by
    decide +kernel
  obtain ⟨c, ran, differs⟩ := (Option.any_eq_true _ _).mp found
  exact ⟨c, Lib.System.ReachableBy.run (.start ⟨rfl, rfl⟩) ran fun _ _ _ => trivial, of_decide_eq_true differs⟩

end Connections

end SimpleRdbms.Server
