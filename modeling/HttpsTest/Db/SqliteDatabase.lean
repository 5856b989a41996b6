import HttpsTest.Db.Sqlite

/-!
# The database object

`SqliteDatabase`: the connection handle `m_db`, the path, and the table of prepared statements by
name, which `connect`, `CreateDatabase` and `disconnect` change separately. The operations that
change rows all run one statement in a transaction (`transact`); those that read run one
statement (`query`). An argument and a result of type `int` is an `Int32`.
-/

set_option autoImplicit false

namespace HttpsTest

/-- An entry of `m_prepared_statements`: none, a null pointer, or a statement of a connection. -/
inductive Slot where
  | absent
  | null
  | statement (handle : Nat)
  deriving DecidableEq, Repr

structure SqliteDatabase where
  /-- `m_db` -/
  db : Option Nat := none
  dbPath : Bytes := ":memory:"
  preparedStatements : StatementName → Slot := fun _ => .absent
  world : Sqlite

/-- How the calls of sqlite end that a `connect` makes. -/
structure ConnectOutcomes where
  opening : Sqlite.OpenOutcome := .opened
  prepares : StatementName → Bool := fun _ => true
  creates : TableName → Bool := fun _ => true

/-- How the steps of an operation end, and the time at which it runs. -/
structure StepOutcomes extends Transactions.Outcomes where
  now : Int := 0

/-- `IClientRepository::client` -/
structure Client where
  id : Int32 := 0
  ip : Int32 := 0
  connectionCount : Int32 := 0
  eventCount : Int32 := 0
  deriving DecidableEq

/-- The columns as `sqlite3_column_int` gives them. -/
def Client.ofRow (r : ClientRow) : Client where
  id := .ofInt r.id
  ip := .ofInt r.ip
  connectionCount := .ofInt r.connectionCount
  eventCount := .ofInt r.eventCount

namespace SqliteDatabase

/-! ## The statement table -/

/-- `m_prepared_statements[name].get()`: an entry that is missing is inserted as null. -/
def statement (n : StatementName) (s : SqliteDatabase) : Option Nat × SqliteDatabase :=
  match s.preparedStatements n with
  | .statement h => (some h, s)
  | .null => (none, s)
  | .absent => (none, { s with
      preparedStatements := Function.update s.preparedStatements n .null })

/-- `m_prepared_statements.emplace(name, create_preparated_query(…))`: an entry that exists stays,
and the new statement is finalized. -/
def emplace (ok : Bool) (n : StatementName) (s : SqliteDatabase) : SqliteDatabase :=
  match s.preparedStatements n with
  | .absent =>
    let slot :=
      match s.db with
      | some h => if s.world.prepares ok n h then .statement h else .null
      | none => .null
    { s with preparedStatements := Function.update s.preparedStatements n slot }
  | _ => s

/-- `execute_statament` for the statements that create tables. -/
def executeStatament (ok : Bool) (n : StatementName) (table : TableName) (s : SqliteDatabase) :
    SqliteDatabase :=
  match s.statement n with
  | (some h, s) => { s with world := s.world.stepCreate ok table h }
  | (none, s) => s

/-- The statements `CreateDatabase` prepares behind those that create the tables. -/
def laterStatements : List StatementName :=
  [.beginTransaction, .commitTransaction, .rollbackTransaction,
    .insertClient, .removeClientById, .removeAllClients, .incrementClientConnectionCount,
    .incrementClientEventCount, .selectClientById, .selectClientByIp, .selectClientIpById,
    .selectClientIdByIp, .countAll, .selectAll,
    .insertClientConnection, .removeConnectionById, .removeClientConnections,
    .removeAllConnections, .getClientConnectionCount]

/-- The statements that create a table, each with its table. -/
def createStatements : List (StatementName × TableName) :=
  [(.createClientTable, .client), (.createClientConnectionTable, .clientConnection),
    (.createEventTable, .event)]

/-- `CreateDatabase` -/
def createDatabase (o : ConnectOutcomes) (s : SqliteDatabase) : SqliteDatabase :=
  let s := createStatements.foldl
    (fun s c => (s.emplace (o.prepares c.1) c.1).executeStatament (o.creates c.2) c.1 c.2) s
  laterStatements.foldl (fun s n => s.emplace (o.prepares n) n) s

/-! ## Connecting -/

/-- Some statement of the connection is not finalized. -/
def isBusy (s : SqliteDatabase) (h : Nat) : Bool :=
  (createStatements.map (·.1) ++ laterStatements).any fun n =>
    decide (s.preparedStatements n = .statement h)

/-- `m_db.reset(…)`: a connection with statements answers `SQLITE_BUSY` and stays open. -/
def resetDb (db : Option Nat) (s : SqliteDatabase) : SqliteDatabase :=
  match s.db with
  | some h => { s with db, world := if s.isBusy h then s.world else s.world.close h }
  | none => { s with db }

/-- `connect()` -/
def connectStored (o : ConnectOutcomes) (s : SqliteDatabase) : Bool × SqliteDatabase :=
  let (rawDb, world) := s.world.openDatabase o.opening s.dbPath
  -- an error of `sqlite3_open` is only logged
  let s := { s with world }.resetDb rawDb
  (true, s.createDatabase o)

/-- `connect(connection_string)` -/
def connect (o : ConnectOutcomes) (connectionString : Bytes) (s : SqliteDatabase) :
    Bool × SqliteDatabase :=
  if s.db.isSome then (true, s)
  else
    let s := if connectionString.isEmpty then s else { s with dbPath := connectionString }
    let s := if s.dbPath.isEmpty then { s with dbPath := ":memory:" } else s
    s.connectStored o

def disconnect (s : SqliteDatabase) : SqliteDatabase := s.resetDb none

/-! ## Transactions -/

/-- A step of a prepared statement. -/
def step (act : Sqlite → Nat → Bool × Sqlite) (h : Nat) (s : SqliteDatabase) :
    Bool × SqliteDatabase :=
  ((act s.world h).1, { s with world := (act s.world h).2 })

/-- The body of the three functions that begin and end transactions. -/
def transactionStep (n : StatementName) (act : Sqlite → Nat → Bool × Sqlite)
    (s : SqliteDatabase) : Bool × SqliteDatabase :=
  match s.statement n with
  | (none, s) => (false, s)
  | (some h, s) => s.step act h

def beginTransaction (ok : Bool) : SqliteDatabase → Bool × SqliteDatabase :=
  transactionStep .beginTransaction (Sqlite.stepBegin ok)

def commitTransaction (ok aborts : Bool) : SqliteDatabase → Bool × SqliteDatabase :=
  transactionStep .commitTransaction (Sqlite.stepCommit ok aborts)

def rollbackTransaction (ok : Bool) : SqliteDatabase → Bool × SqliteDatabase :=
  transactionStep .rollbackTransaction (Sqlite.stepRollback ok)

/-- The end of the operations that change rows: a statement that failed is rolled back, one that is
done is committed behind what `result` computes. -/
def conclude {α : Type} (o : StepOutcomes) (rollsBack : Bool)
    (result : SqliteDatabase → Except Exn α) :
    Bool × SqliteDatabase → Except Exn (Option α) × SqliteDatabase
  | (false, s) => (.ok none, (s.rollbackTransaction o.rollback).2)
  | (true, s) =>
    match result s with
    | .error e => (.error e, s)
    | .ok a =>
      match s.commitTransaction o.commit o.commitAborts with
      | (true, s) => (.ok (some a), s)
      | (false, s) => (.ok none, if rollsBack then (s.rollbackTransaction o.rollback).2 else s)

/-- The body of the operations that change rows: the statement `n` in a transaction; `none` where
failure is reported. `rollsBack`: a failed commit is rolled back. -/
def transact {α : Type} (o : StepOutcomes) (n : StatementName) (parameter : Int)
    (rollsBack : Bool) (result : SqliteDatabase → Except Exn α) (s : SqliteDatabase) :
    Except Exn (Option α) × SqliteDatabase :=
  match s.beginTransaction o.begin with
  | (false, s) => (.ok none, s)
  | (true, s) =>
    match s.statement n with
    | (none, s) => (.ok none, (s.rollbackTransaction o.rollback).2)
    | (some h, s) =>
      conclude o rollsBack result (s.step (Sqlite.stepModify o.statement n parameter o.now) h)

/-- `static_cast<int>(sqlite3_last_insert_rowid(m_db.get()))` -/
def lastInsertRowid (s : SqliteDatabase) : Except Exn Int32 :=
  match s.db with
  | some h => .ok (.ofInt (s.world.connections h).lastInsertRowid)
  | none => .error .nullDereference

/-- An operation that returns the new id, or -1. -/
def insert (o : StepOutcomes) (n : StatementName) (parameter : Int) (s : SqliteDatabase) :
    Except Exn Int32 × SqliteDatabase :=
  let (r, s) := s.transact o n parameter false lastInsertRowid
  (r.map (·.getD (-1)), s)

/-- An operation that returns whether it succeeded. -/
def change (o : StepOutcomes) (n : StatementName) (parameter : Int) (rollsBack : Bool)
    (s : SqliteDatabase) : Except Exn Bool × SqliteDatabase :=
  let (r, s) := s.transact o n parameter rollsBack fun _ => .ok ()
  (r.map (·.isSome), s)

/-! ## `IClientRepository` -/

def addClient (o : StepOutcomes) (clientIp : Int32) :
    SqliteDatabase → Except Exn Int32 × SqliteDatabase := insert o .insertClient clientIp.toInt

def removeClient (o : StepOutcomes) (clientId : Int32) :
    SqliteDatabase → Except Exn Bool × SqliteDatabase :=
  change o .removeClientById clientId.toInt false

def removeAllClients (o : StepOutcomes) : SqliteDatabase → Except Exn Bool × SqliteDatabase :=
  change o .removeAllClients 0 false

def incrementConnectionCount (o : StepOutcomes) (clientId : Int32) :
    SqliteDatabase → Except Exn Bool × SqliteDatabase :=
  change o .incrementClientConnectionCount clientId.toInt false

def incrementEventCount (o : StepOutcomes) (clientId : Int32) :
    SqliteDatabase → Except Exn Bool × SqliteDatabase :=
  change o .incrementClientEventCount clientId.toInt false

/-- The body of the operations that read: the first row, or all rows, of a statement. -/
def query {α : Type} (o : StepOutcomes) (n : StatementName) (failure : α)
    (read : Tables → Option α) (s : SqliteDatabase) : α × SqliteDatabase :=
  match s.statement n with
  | (none, s) => (failure, s)
  | (some h, s) =>
    let (r, world) := s.world.stepSelect o.statement read h
    (r.getD failure, { s with world })

def getClientById (o : StepOutcomes) (clientId : Int32) :
    SqliteDatabase → Client × SqliteDatabase :=
  query o .selectClientById {} fun t => (t.clients.find? (·.id = clientId.toInt)).map .ofRow

def getClientByIp (o : StepOutcomes) (clientIp : Int32) :
    SqliteDatabase → Client × SqliteDatabase :=
  query o .selectClientByIp {} fun t => (t.clients.find? (·.ip = clientIp.toInt)).map .ofRow

def getClientIdByIp (o : StepOutcomes) (clientIp : Int32) :
    SqliteDatabase → Int32 × SqliteDatabase :=
  query o .selectClientIdByIp (-1) fun t =>
    (t.clients.find? (·.ip = clientIp.toInt)).map fun r => .ofInt r.id

def getClientIpById (o : StepOutcomes) (clientId : Int32) :
    SqliteDatabase → Int32 × SqliteDatabase :=
  query o .selectClientIpById (-1) fun t =>
    (t.clients.find? (·.id = clientId.toInt)).map fun r => .ofInt r.ip

def getClientCount (o : StepOutcomes) : SqliteDatabase → Int32 × SqliteDatabase :=
  query o .countAll (-1) fun t => some (.ofInt t.clients.length)

def getAllClients (o : StepOutcomes) : SqliteDatabase → List Client × SqliteDatabase :=
  query o .selectAll [] fun t => some (t.clients.map .ofRow)

/-! ## `IClientConnectionRepository` -/

/-- The time stamp of the caller is not bound to the statement. -/
def addClientConnection (o : StepOutcomes) (clientId _connectionTimestamp : Int32) :
    SqliteDatabase → Except Exn Int32 × SqliteDatabase :=
  insert o .insertClientConnection clientId.toInt

def removeConnection (o : StepOutcomes) (connectionId : Int32) :
    SqliteDatabase → Except Exn Bool × SqliteDatabase :=
  change o .removeConnectionById connectionId.toInt true

def removeClientConnections (o : StepOutcomes) (clientId : Int32) :
    SqliteDatabase → Except Exn Bool × SqliteDatabase :=
  change o .removeClientConnections clientId.toInt true

def removeAllConnections (o : StepOutcomes) : SqliteDatabase → Except Exn Bool × SqliteDatabase :=
  change o .removeAllConnections 0 true

/-- Without a statement the function goes on; binding and stepping a null statement only report
`SQLITE_MISUSE`, so it fails as the others do. -/
def getClientConnectionCount (o : StepOutcomes) (clientId : Int32) :
    SqliteDatabase → Int32 × SqliteDatabase :=
  query o .getClientConnectionCount (-1) fun t =>
    some (.ofInt (t.clientConnectionCount clientId.toInt))

end SqliteDatabase

/-! ## Operations -/

/-- The operations that change rows. -/
inductive Mutation where
  | addClient (clientIp : Int32)
  | removeClient (clientId : Int32)
  | removeAllClients
  | incrementConnectionCount (clientId : Int32)
  | incrementEventCount (clientId : Int32)
  | addClientConnection (clientId connectionTimestamp : Int32)
  | removeConnection (connectionId : Int32)
  | removeClientConnections (clientId : Int32)
  | removeAllConnections
  deriving DecidableEq

/-- The operations that read. -/
inductive Query where
  | getClientById (clientId : Int32)
  | getClientByIp (clientIp : Int32)
  | getClientIdByIp (clientIp : Int32)
  | getClientIpById (clientId : Int32)
  | getClientCount
  | getAllClients
  | getClientConnectionCount (clientId : Int32)
  deriving DecidableEq

/-- What an operation returns. -/
inductive Reply where
  | int (n : Int32)
  | bool (b : Bool)
  | client (c : Client)
  | clients (cs : List Client)
  deriving DecidableEq

namespace Mutation

/-- The statement it runs. -/
def statement : Mutation → StatementName
  | addClient _ => .insertClient
  | removeClient _ => .removeClientById
  | removeAllClients => .removeAllClients
  | incrementConnectionCount _ => .incrementClientConnectionCount
  | incrementEventCount _ => .incrementClientEventCount
  | addClientConnection _ _ => .insertClientConnection
  | removeConnection _ => .removeConnectionById
  | removeClientConnections _ => .removeClientConnections
  | removeAllConnections => .removeAllConnections

/-- The parameter it binds. -/
def parameter : Mutation → Int
  | addClient n | removeClient n | incrementConnectionCount n | incrementEventCount n
  | addClientConnection n _ | removeConnection n | removeClientConnections n => n.toInt
  | removeAllClients | removeAllConnections => 0

/-- A failed commit is rolled back. -/
def rollsBack : Mutation → Bool
  | removeConnection _ | removeClientConnections _ | removeAllConnections => true
  | _ => false

/-- It returns the id of a new row. -/
def inserts : Mutation → Bool
  | addClient _ | addClientConnection _ _ => true
  | _ => false

/-- Its report of failure. -/
def failure (m : Mutation) : Reply := if m.inserts then .int (-1) else .bool false

open SqliteDatabase

def run (m : Mutation) (o : StepOutcomes) (s : SqliteDatabase) :
    Except Exn Reply × SqliteDatabase :=
  match m with
  | .addClient ip => let (r, s) := s.addClient o ip; (r.map .int, s)
  | .removeClient id => let (r, s) := s.removeClient o id; (r.map .bool, s)
  | .removeAllClients => let (r, s) := s.removeAllClients o; (r.map .bool, s)
  | .incrementConnectionCount id => let (r, s) := s.incrementConnectionCount o id; (r.map .bool, s)
  | .incrementEventCount id => let (r, s) := s.incrementEventCount o id; (r.map .bool, s)
  | .addClientConnection id time => let (r, s) := s.addClientConnection o id time; (r.map .int, s)
  | .removeConnection id => let (r, s) := s.removeConnection o id; (r.map .bool, s)
  | .removeClientConnections id => let (r, s) := s.removeClientConnections o id; (r.map .bool, s)
  | .removeAllConnections => let (r, s) := s.removeAllConnections o; (r.map .bool, s)

end Mutation

namespace Query

/-- The statement it runs. -/
def statement : Query → StatementName
  | getClientById _ => .selectClientById
  | getClientByIp _ => .selectClientByIp
  | getClientIdByIp _ => .selectClientIdByIp
  | getClientIpById _ => .selectClientIpById
  | getClientCount => .countAll
  | getAllClients => .selectAll
  | getClientConnectionCount _ => .getClientConnectionCount

/-- Its report of failure. -/
def failure : Query → Reply
  | getClientById _ | getClientByIp _ => .client {}
  | getAllClients => .clients []
  | _ => .int (-1)

open SqliteDatabase

def run (q : Query) (o : StepOutcomes) (s : SqliteDatabase) : Reply × SqliteDatabase :=
  match q with
  | .getClientById id => let (r, s) := s.getClientById o id; (.client r, s)
  | .getClientByIp ip => let (r, s) := s.getClientByIp o ip; (.client r, s)
  | .getClientIdByIp ip => let (r, s) := s.getClientIdByIp o ip; (.int r, s)
  | .getClientIpById id => let (r, s) := s.getClientIpById o id; (.int r, s)
  | .getClientCount => let (r, s) := s.getClientCount o; (.int r, s)
  | .getAllClients => let (r, s) := s.getAllClients o; (.clients r, s)
  | .getClientConnectionCount id => let (r, s) := s.getClientConnectionCount o id; (.int r, s)

end Query

/-- The operations of the two repositories. -/
inductive Operation where
  | mutate (m : Mutation)
  | read (q : Query)
  deriving DecidableEq

namespace Operation

def failure : Operation → Reply
  | mutate m => m.failure
  | read q => q.failure

def run (op : Operation) (o : StepOutcomes) (s : SqliteDatabase) :
    Except Exn Reply × SqliteDatabase :=
  match op with
  | mutate m => m.run o s
  | read q => let (r, s) := q.run o s; (.ok r, s)

/-- The object after an operation. -/
def next (s : SqliteDatabase) (c : Operation × StepOutcomes) : SqliteDatabase := (c.1.run c.2 s).2

end Operation

end HttpsTest
