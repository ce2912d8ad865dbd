import SimpleRdbms.Engine.Session
import SimpleRdbms.Planner.Parameters
import SimpleRdbms.Server.PgCatalog

/-!
# Connections

The handlers of the wire protocol, and the transaction status that the protocol library keeps for each connection.
-/

namespace SimpleRdbms.Server
open SimpleRdbms.Sql SimpleRdbms.Lib
open SimpleRdbms.Engine (Backend EngineState Outcome SessionError TxnSlot)
open Function (update)

/-! ## The first word of a text -/

def asciiUppercase : List (Char × Text) :=
  [('ı', "I".toList), ('ſ', "S".toList), ('ß', "SS".toList), ('ﬀ', "FF".toList),
    ('ﬁ', "FI".toList), ('ﬂ', "FL".toList), ('ﬃ', "FFI".toList), ('ﬄ', "FFL".toList),
    ('ﬅ', "ST".toList), ('ﬆ', "ST".toList)]

def toUppercase (text : Text) : Text :=
  text.flatMap fun c => (asciiUppercase.lookup c).getD [c.toUpper]

def splitWhitespace (text : Text) : List Text := (text.splitOnP isWhitespace).filter (· ≠ [])

def statementWords (sql : Text) : List Text := splitWhitespace (trim (trimEndMatches ';' (trim sql)))

def statementKeyword (sql : Text) : Text :=
  let words := statementWords sql
  let first := toUppercase (words.headD [])
  if first = "CREATE".toList then
    match words.tail.head? with
    | some second => "CREATE ".toList ++ toUppercase second
    | none => first
  else first

/-! ## Responses -/

inductive ResultSet where
  | rows
  | rowsAffected
  | rolledBack
deriving DecidableEq, Repr

inductive Response where
  | query
  | execution
  | transactionStart
  | transactionEnd
deriving DecidableEq, Repr

/-- SET, RESET and SHOW never reach the engine. -/
def interceptSetShowReset (sql : Text) : Option Response :=
  match statementWords sql with
  | [] => none
  | leading :: _ =>
    if toUppercase leading = "SET".toList then some .execution
    else if toUppercase leading = "RESET".toList then some .execution
    else if toUppercase leading = "SHOW".toList then some .query
    else none

def toResponse (sql : Text) : ResultSet → Response
  | .rolledBack => .transactionEnd
  | .rowsAffected =>
    let keyword := statementKeyword sql
    if keyword = "INSERT".toList then .execution
    else if keyword = "BEGIN".toList then .transactionStart
    else if keyword = "COMMIT".toList then .transactionEnd
    else .execution
  | .rows => .query

inductive TransactionStatus where
  | idle
  | transaction
  | error
deriving DecidableEq, Repr

def TransactionStatus.onResponse (status : TransactionStatus) : Response → TransactionStatus
  | .transactionStart => .transaction
  | .transactionEnd => .idle
  | .query | .execution => status

def TransactionStatus.onError : TransactionStatus → TransactionStatus
  | .idle => .idle
  | .transaction | .error => .error

/-! ## The engine behind a connection -/

def classify : Statement → Engine.Statement Statement
  | .begin => .begin
  | .commit => .commit
  | .rollback => .rollback
  | .explain verbose inner => .explain (.explain verbose inner)
  | .select query => .other (.select query)
  | .insert insert => .other (.insert insert)
  | .createTable create => .other (.createTable create)
  | .createIndex create => .other (.createIndex create)

def underlying : Engine.Statement Statement → Statement
  | .begin => .begin
  | .commit => .commit
  | .rollback => .rollback
  | .explain query | .other query => query

/-- `describes` is whether the parameters of a statement have types and its columns can be bound. -/
structure Database (Data : Type) where
  backend : Backend Text Value Statement Data
  tableNames : Data → List Text
  describes : Data → Statement → Bool

inductive WireError where
  | engine (err : SessionError)
  | describe
  | cachedPlanChanged
  | parameterDecode
deriving DecidableEq, Repr

inductive PreparedStatement where
  | ordinary (sql : Text)
  | introspection (sql : Text)

/-- The messages of a client. Parameters are `none` if one of them cannot be decoded. -/
inductive WireMessage where
  | query (sql : Text)
  | parse (sql : Text)
  | execute (statement : PreparedStatement) (params : Option (List Value))

def resultSet (slot : TxnSlot) : Statement → ResultSet
  | .commit =>
    match slot with
    | .aborted _ => .rolledBack
    | .none | .timedOut | .active _ => .rowsAffected
  | .select _ | .explain .. => .rows
  | .begin | .rollback | .insert _ | .createTable _ | .createIndex _ => .rowsAffected

namespace Database
variable {Data : Type} (database : Database Data)

def engine : Backend Text Value Statement Data :=
  { database.backend with
    parse := fun sql => (parseSql sql).toOption.map classify
    substituteParameters := fun statement values =>
      (Planner.substituteParameters (underlying statement) values).toOption.map classify }

/-- A statement that does not parse is no success, so that the last case never occurs. -/
def executeWithParams (s : EngineState Data) (session : Nat) (sql : Text) (params : List Value) :
    EngineState Data × Except WireError ResultSet :=
  let outcome := database.engine.executeWithParams s session sql params
  match outcome.2, database.engine.prepare sql params with
  | .error err, _ => (outcome.1, .error (.engine err))
  | .ok _, .ok statement => (outcome.1, .ok (resultSet (s.slots session) (underlying statement)))
  | .ok _, .error err => (outcome.1, .error (.engine err))

def parseStatement (s : EngineState Data) (sql : Text) : Except WireError PreparedStatement :=
  match answer (database.tableNames s.data) sql with
  | some _ => .ok (.introspection sql)
  | none =>
    match parseSql sql with
    | .error _ => .error .describe
    | .ok statement => if database.describes s.data statement then .ok (.ordinary sql) else .error .describe

def simpleQuery (s : EngineState Data) (session : Nat) (sql : Text) :
    EngineState Data × Except WireError (List Response) :=
  match answer (database.tableNames s.data) sql with
  | some _ => (s, .ok [.query])
  | none =>
    match interceptSetShowReset sql with
    | some response => (s, .ok [response])
    | none =>
      let result := database.executeWithParams s session sql []
      (result.1, result.2.map fun resultSet => [toResponse sql resultSet])

def extendedQuery (s : EngineState Data) (session : Nat) :
    PreparedStatement → Option (List Value) → EngineState Data × Except WireError (List Response)
  | .introspection sql, _ =>
    match answer (database.tableNames s.data) sql with
    | some _ => (s, .ok [.query])
    | none => (s, .error .cachedPlanChanged)
  | .ordinary _, none => (s, .error .parameterDecode)
  | .ordinary sql, some params =>
    let result := database.executeWithParams s session sql params
    (result.1, result.2.map fun resultSet => [toResponse sql resultSet])

def serve (s : EngineState Data) (session : Nat) :
    WireMessage → EngineState Data × Except WireError (List Response)
  | .query sql => database.simpleQuery s session sql
  | .parse sql => (s, (database.parseStatement s sql).map fun _ => [])
  | .execute statement params => database.extendedQuery s session statement params

end Database

/-! ## Connections -/

structure Connections (Data : Type) where
  engine : EngineState Data
  status : Nat → TransactionStatus

inductive WireAction where
  | message (session : Nat) (message : WireMessage)
  | disconnect (session : Nat)

namespace Connections
variable {Data : Type} (database : Database Data)

def receive (c : Connections Data) (session : Nat) (message : WireMessage) : Connections Data :=
  let served := database.serve c.engine session message
  let status :=
    match served.2 with
    | .ok responses => responses.foldl TransactionStatus.onResponse (c.status session)
    | .error _ => (c.status session).onError
  { engine := served.1, status := update c.status session status }

def step (c : Connections Data) : WireAction → Option (Connections Data)
  | .message session message => some (c.receive database session message)
  | .disconnect session =>
    some { engine := database.engine.disconnectSession c.engine session, status := update c.status session .idle }

def system : System (Connections Data) WireAction where
  init c := c.engine.slots = (fun _ => .none) ∧ c.status = fun _ => .idle
  step := step database

end Connections

end SimpleRdbms.Server
