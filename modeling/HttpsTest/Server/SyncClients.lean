import HttpsTest.Server.Bookkeeping
import HttpsTest.Server.Clients
import HttpsTest.Server.SyncHTTPServer

/-!
# Clients of the blocking server

The accept thread of `SyncHTTPServer` with the handlers of `main` and its clients: it accepts a
connection, does its bookkeeping, and answers its requests until the connection is lost or the
server stops; the other clients wait. What is accepted, how the bytes of a client are cut into
reads, which operations on the database and which writes fail, and when `stop()` is called is up to
the run.
-/

set_option autoImplicit false

namespace HttpsTest

open Search

/-- A request that this server reads: wherever the name of the length field stands, it is followed
by a space, and the length fits into an `unsigned long`. -/
structure SyncRequest extends ClientRequest where
  name_spaced : ∀ i, At toClientRequest.head (bytes "Content-Length:") i →
    At toClientRequest.head contentLengthName i
  body_small : toClientRequest.body.length < 2 ^ 32

/-- Where the accept thread stands. -/
inductive AcceptThread where
  /-- in `accept` -/
  | accepting
  /-- at the condition of the loop of `handle_client` -/
  | atLoop (i : Nat)
  /-- in `read_full_request` -/
  | reading (i : Nat)
  | ended
  deriving DecidableEq, Repr

/-- The connection that `handle_client` is in. -/
def AcceptThread.serving : AcceptThread → Option Nat
  | atLoop i | reading i => some i
  | _ => none

structure SyncNetwork where
  database : SqliteDatabase
  handlers : HandlerState
  /-- `m_server_running` -/
  running : Bool := true
  thread : AcceptThread := .accepting
  /-- The connections that were accepted, the last one last. -/
  accepted : List (Nat × Visit) := []
  clients : Nat → HttpClient := fun _ => {}

namespace SyncNetwork

inductive Action where
  /-- Client `i` sends a request; it has the responses to all others. -/
  | send (i : Nat) (r : SyncRequest)
  /-- The connection of client `i` is accepted. -/
  | accept (i : Nat) (v : Visit)
  /-- The condition of the loop. -/
  | check
  /-- The bytes of the client come in these pieces, and are answered. -/
  | round (cut : List Bytes) (writeFails : Bool)
  /-- The client is gone: the read finds the end of the stream. -/
  | gone
  | stop

/-- The text that a round writes. -/
def written : SyncHTTPServer.RoundEnd → List Bytes
  | .answered _ response => [response]
  | _ => []

/-- A round of the loop, for the client `i`. -/
def serve (X : Externals) (w : SyncNetwork) (i : Nat) (unread : List Bytes) (writeFails : Bool) :
    SyncNetwork :=
  let c := w.clients i
  let (done, connection, handlers) := SyncHTTPServer.round (mainHandler X) X.hashOrder
    { running := true, writeFails } { unread } w.handlers
  { w with
    handlers
    thread := if connection.isOpen then .atLoop i else .accepting
    clients := Function.update w.clients i
      { c with inbox := connection.unread.flatten, received := c.received ++ written done } }

/-- A step, if it can be taken. -/
def step (X : Externals) (w : SyncNetwork) : Action → Option SyncNetwork
  | .send i r =>
    let c := w.clients i
    if c.received.length = c.sent.length then
      some { w with
        clients := Function.update w.clients i
          { c with sent := c.sent ++ [r.toClientRequest], inbox := c.inbox ++ r.text } }
    else none
  | .accept i v =>
    if w.thread = .accepting ∧ i ∉ w.accepted.map Prod.fst then
      if w.running then
        let (result, database) := SyncHTTPServer.bookkeeping v w.database
        some { w with
          database
          accepted := w.accepted ++ [(i, v)]
          -- an exception ends `handle_client`
          thread := match result with
            | .ok _ => .atLoop i
            | .error _ => .accepting }
      else some { w with thread := .ended }
    else none
  | .check =>
    match w.thread with
    | .atLoop i => some { w with thread := if w.running then .reading i else .accepting }
    | _ => none
  | .round cut writeFails =>
    match w.thread with
    | .reading i =>
      if cut.flatten = (w.clients i).inbox ∧ cut ≠ [] ∧ [] ∉ cut then
        some (w.serve X i cut writeFails)
      else none
    | _ => none
  | .gone =>
    match w.thread with
    | .reading i => some (w.serve X i [] false)
    | _ => none
  | .stop => some { w with running := false }

/-- The steps as a relation. -/
def Steps (X : Externals) (w : SyncNetwork) (a : Action) (w' : SyncNetwork) : Prop :=
  w.step X a = some w'

/-- The server before its first connection. -/
def start (database : SqliteDatabase) (clocks : Nat → UserHandler.Clocks) : SyncNetwork where
  database
  handlers := { clocks }

end SyncNetwork

/-! ## Exchanges -/

/-- A request of a client, with the response of the handlers; there is none where they throw. -/
structure SyncExchange where
  client : Nat
  request : ClientRequest
  response : Option HttpResponse

/-- The handlers of `main` serve a request. -/
def SyncServes (X : Externals) (s : HandlerState) (e : SyncExchange) (s' : HandlerState) : Prop :=
  ∃ response, mainHandler X e.request.request s = (response, s') ∧
    e.response = match response with
      | .ok (some r) => some r
      | _ => none

/-- The response with the header that the server puts on it. -/
def advertised (request : IRequest) (r : HttpResponse) : HttpResponse :=
  r.setHeader "Connection" (if SyncHTTPServer.keepAlive request then "keep-alive" else "close")

namespace SyncExchange

/-- What the client reads. -/
def message (o : HashOrder) (e : SyncExchange) : Option Message :=
  e.response.map fun r => (advertised e.request.request r).message o

def ofClient (i : Nat) (history : List SyncExchange) : List SyncExchange :=
  history.filter (·.client = i)

end SyncExchange

/-- `history` is what has happened: exchanges in one order, which leave the handlers in their
state. -/
structure SyncRealizes (X : Externals) (database : SqliteDatabase) (s : HandlerState)
    (history : List SyncExchange) (w : SyncNetwork) : Prop where
  served : Runs.Path (SyncServes X) s history w.handlers
  /-- The bookkeeping is that of the connections in the order in which they are accepted. -/
  database : w.database =
    Runs.after SyncHTTPServer.visited database (w.accepted.map Prod.snd)
  /-- The requests of a client are served in the order in which it sends them. -/
  requests : ∀ i, (SyncExchange.ofClient i history).map (·.request) <+: (w.clients i).sent
  /-- What a client reads in the texts it receives is what the handlers answered, in this order. -/
  responses : ∀ i, (w.clients i).received.map decode <+:
    (SyncExchange.ofClient i history).map (·.message X.hashOrder)
  /-- Where the server waits for a client that has nothing under way, it has answered all. -/
  answered : ∀ i, w.thread.serving = some i → (w.clients i).inbox = [] →
    (w.clients i).received.length = (w.clients i).sent.length

end HttpsTest
