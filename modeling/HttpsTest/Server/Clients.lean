import HttpsTest.Http.Proof.Decoding
import HttpsTest.Http.Proof.RoundTrip
import HttpsTest.Lib.Runs
import HttpsTest.Server.Main
import HttpsTest.Server.WireRequest

/-!
# Clients of the server

The server of `main` with its clients. A client writes a request as text once it has the response
to the one before; its bytes are read in pieces of any size, and the text of the response reaches
it when the write succeeds. Reads and writes of all clients complete in any order, and may fail; a
completion handler is one step, from its first line to its last, as where no other thread is in one:
one of the orders of `ConcurrentNetwork`, whose handlers take steps side by side.

What the server is for is said without texts: `Serves` hands a request to the handlers of `main`,
and `Realizes` relates the network to such exchanges, made one after the other for all clients.
-/

set_option autoImplicit false

namespace HttpsTest

open AsyncClientHandler Search

namespace RequestParts

/-- The text in front of the body. -/
def head (p : RequestParts) : Bytes :=
  p.requestLine ++ crlf ++ (p.headers.map header).flatMap (· ++ crlf) ++ crlf

/-- The request the text stands for. -/
def request (p : RequestParts) : IRequest :=
  .http {
    request := p.text
    method := p.method
    path := p.path
    body := p.body
    httpVersion := p.version
    headers := Filling.insertAll ∅ p.headers
    queryParams := Filling.insertAll ∅ p.query }

end RequestParts

/-- A request a client may send: with one of the known methods, and with the length of its body in
its header block, unless it has none. The text `Content-Length: ` stands nowhere else in front of
the body. -/
structure ClientRequest extends RequestParts where
  method_known : method ∈ RequestFactory.httpMethods
  version_plain : 32 ∉ version
  length_once : ∀ i j, At toRequestParts.head contentLengthName i →
    At toRequestParts.head contentLengthName j → i = j
  length_told : (body = [] ∧ find toRequestParts.head contentLengthName 0 = none) ∨
    (bytes "Content-Length", decimal body.length) ∈ headers
  body_size : body.length < 2 ^ 64

structure HttpClient where
  sent : List ClientRequest := []
  /-- The bytes that are sent and not read. -/
  inbox : Bytes := []
  /-- The response that is being written. -/
  writing : Option Bytes := none
  received : List Bytes := []

structure Network where
  server : IoServer
  clients : Nat → HttpClient := fun _ => {}

namespace Network

inductive Action where
  /-- Client `i` sends a request; it has the responses to all others. -/
  | send (i : Nat) (r : ClientRequest)
  /-- The read of connection `i` completes with `n` bytes. -/
  | read (i n : Nat)
  | written (i : Nat)
  /-- The operation of connection `i` fails, or finds the end of the stream. -/
  | lose (i : Nat) (k : Completion)

/-- The failures of an operation. -/
def Fails : Pending → Completion → Prop
  | .read, .readEof | .read, .readError | .write, .writeError => True
  | _, _ => False

instance : ∀ p k, Decidable (Fails p k)
  | .read, .readEof | .read, .readError | .write, .writeError => isTrue trivial
  | .read, .read _ | .read, .written | .read, .writeError | .write, .read _ | .write, .readEof
  | .write, .readError | .write, .written | .none, .read _ | .none, .readEof | .none, .readError
  | .none, .written | .none, .writeError => isFalse id

/-- The text that a completion handler writes. -/
def written : Handled → Option Bytes
  | .dispatched _ response => some response
  | _ => none

/-- A step, if it can be taken. -/
def step (X : Externals) (w : Network) : Action → Option Network
  | .send i r =>
    let c := w.clients i
    if c.received.length = c.sent.length then
      some { w with
        clients := Function.update w.clients i
          { c with sent := c.sent ++ [r], inbox := c.inbox ++ r.text } }
    else none
  | .read i n =>
    let c := w.clients i
    let connection := w.server.connections i
    -- at most the size of `m_buffer`
    if w.server.threads ≠ 0 ∧ connection.pending = .read ∧ 0 < n ∧ n ≤ 8192 ∧ n ≤ c.inbox.length
    then
      let k := .read (c.inbox.take n)
      let handled := (connection.complete (mainHandler X) X.hashOrder k w.server.handlers).1
      some {
        server := w.server.complete X (i, k)
        clients := Function.update w.clients i
          { c with inbox := c.inbox.drop n, writing := written handled } }
    else none
  | .written i =>
    let c := w.clients i
    match c.writing with
    | some text =>
      if w.server.threads ≠ 0 then
        some {
          server := w.server.complete X (i, .written)
          clients := Function.update w.clients i
            { c with writing := none, received := c.received ++ [text] } }
      else none
    | none => none
  | .lose i k =>
    if w.server.threads ≠ 0 ∧ Fails (w.server.connections i).pending k then
      some {
        server := w.server.complete X (i, k)
        clients := Function.update w.clients i { w.clients i with writing := none } }
    else none

/-- The steps as a relation. -/
def Steps (X : Externals) (w : Network) (a : Action) (w' : Network) : Prop := w.step X a = some w'

/-- The server after its start, and clients that have sent nothing. -/
def start (hardwareConcurrency : UInt32) (clocks : Nat → UserHandler.Clocks) : Network where
  server := .started hardwareConcurrency clocks

/-- Nothing of client `i` is under way, and its connection is open. -/
structure Quiet (w : Network) (i : Nat) : Prop where
  inbox : (w.clients i).inbox = []
  writing : (w.clients i).writing = none
  isOpen : (w.server.connections i).pending ≠ .none

end Network

/-! ## Exchanges without texts -/

/-- A request of a client, with what the response says; there is none where the handler throws and
the connection is closed. -/
structure Exchange where
  client : Nat
  request : ClientRequest
  outcome : Option Message

/-- What a response says. -/
def HttpResponse.message (o : HashOrder) (r : HttpResponse) : Message where
  version := r.httpVersion
  code := r.statusCode
  reason := r.reason
  headers := UnorderedMap.items o r.headers
  body := r.body

/-- The handlers of `main` serve a request. -/
def Serves (X : Externals) (s : HandlerState) (e : Exchange) (s' : HandlerState) : Prop :=
  ∃ response, mainHandler X e.request.request s = (response, s') ∧
    e.outcome = match response with
      | .ok (some r) => some (r.message X.hashOrder)
      | _ => none

def exchangesOf (i : Nat) (history : List Exchange) : List Exchange :=
  history.filter (·.client = i)

/-- `history` is what has happened on the network: exchanges in one order, which leave the handlers
in their state. -/
structure Realizes (X : Externals) (s : HandlerState) (history : List Exchange) (w : Network) :
    Prop where
  served : Runs.Path (Serves X) s history w.server.handlers
  /-- The requests of a client are served in the order in which it sends them. -/
  requests : ∀ i, (exchangesOf i history).map (·.request) <+: (w.clients i).sent
  /-- What a client reads in the texts it receives is what the handlers answered, in this order. -/
  responses : ∀ i, (w.clients i).received.map decode <+: (exchangesOf i history).map (·.outcome)
  /-- No request waits for ever: where nothing is under way, all have been answered. -/
  answered : ∀ i, w.Quiet i → (w.clients i).received.length = (w.clients i).sent.length

end HttpsTest
