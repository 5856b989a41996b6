import HttpsTest.Db.SqliteDatabase

/-!
# The bookkeeping of the blocking server

What `SyncHTTPServer::handle_client` does with the two repositories, which are one `SqliteDatabase`,
before it reads the first request of a connection. The connections are handled one after the other,
on the thread that accepts them.
-/

set_option autoImplicit false

namespace HttpsTest

/-- A connection that is accepted, and how the operations on the database end that it causes. -/
structure Visit where
  /-- The address of the peer, where `remote_endpoint()` does not throw. -/
  address : Option UInt32
  lookUp : StepOutcomes := {}
  add : StepOutcomes := {}
  increment : StepOutcomes := {}
  addConnection : StepOutcomes := {}
  /-- `GetCurrentTime()` -/
  currentTime : Int32 := 0

namespace SyncHTTPServer

/-- The failures `handle_client` logs of the repositories, each with the id of the client. What
`SqliteDatabase` logs of its own steps is not among them. -/
inductive BookkeepingFailure where
  /-- `Failed to increment connection count for client ID: {}` -/
  | incrementConnectionCount (clientId : Int32)
  /-- `Failed to add connection for client ID: {}` -/
  | addConnection (clientId : Int32)
  deriving DecidableEq, Repr

/-- The id of the client at an address, which is added where it is not found. -/
def identify (v : Visit) (clientIp : Int32) (s : SqliteDatabase) :
    Except Exn Int32 × SqliteDatabase :=
  let (clientId, s) := s.getClientIdByIp v.lookUp clientIp
  if clientId = -1 then s.addClient v.add clientIp else (.ok clientId, s)

/-- The two calls for a client that has an id. -/
def recordConnection (v : Visit) (clientId : Int32) (s : SqliteDatabase) :
    Except Exn (Option BookkeepingFailure) × SqliteDatabase :=
  match s.incrementConnectionCount v.increment clientId with
  | (.error e, s) => (.error e, s)
  | (.ok false, s) => (.ok (some (.incrementConnectionCount clientId)), s)
  | (.ok true, s) =>
    match s.addClientConnection v.addConnection clientId v.currentTime with
    | (.error e, s) => (.error e, s)
    | (.ok connectionId, s) =>
      -- the result is an id, and -1 a failure; as a condition both are true
      (.ok (if connectionId ≠ 0 then some (.addConnection clientId) else none), s)

/-- The bookkeeping of a connection, with the failure it logs, if it does. An exception is logged
too, and ends the connection. -/
def bookkeeping (v : Visit) (s : SqliteDatabase) :
    Except Exn (Option BookkeepingFailure) × SqliteDatabase :=
  match v.address with
  | none => (.error .systemError, s)
  | some address =>
    match identify v address.toInt32 s with
    | (.error e, s) => (.error e, s)
    | (.ok clientId, s) => if clientId = -1 then (.ok none, s) else recordConnection v clientId s

/-- The database after the bookkeeping of a connection. -/
def visited (s : SqliteDatabase) (v : Visit) : SqliteDatabase := (bookkeeping v s).2

end SyncHTTPServer

end HttpsTest
