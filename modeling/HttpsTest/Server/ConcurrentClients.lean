import HttpsTest.Server.Clients
import HttpsTest.Users.Concurrency

/-!
# Clients of the server, on several threads

The network with its completion handlers side by side. A read that completes a request for the user
handler begins a call of `handleRequest` on the thread it runs on; the call takes its steps as in
`SharedHandler`, while other threads go on, and where it has ended the thread starts to write the
response. The thread that has started a write clears the text of the request in a step of its own:
the write may succeed before, and the connection be read again. All else in a completion handler is
one step.
-/

set_option autoImplicit false

namespace HttpsTest

open AsyncClientHandler

structure ConcurrentNetwork where
  connections : Nat → Connection := fun _ => {}
  shared : SharedHandler := {}
  /-- The connections whose request the user handler serves, each with the call. -/
  serving : Nat → Option Nat := fun _ => none
  /-- How many threads have started a write of the connection, and not cleared the text of its
  request. -/
  clearing : Nat → Nat := fun _ => 0
  /-- The threads inside `run()`, and those of them that are in a call or have a text to clear. -/
  threads : Nat
  busy : Nat := 0
  clients : Nat → HttpClient := fun _ => {}

namespace ConcurrentNetwork

/-- The request that the bytes complete, where it is one for the user handler. -/
def userRequest (data : Bytes) : Option IRequest :=
  if isCompleteRequest data then
    match RequestFactory.parse data with
    | .ok request => if router.route request = some .userHandler then some request else none
    | .error _ => none
  else none

/-- The read of connection `i` that completes no request for the user handler. -/
def receive (X : Externals) (w : ConcurrentNetwork) (i : Nat) (chunk : Bytes)
    (clocks : UserHandler.Clocks) : Handled × Connection :=
  let (handled, connection, _) := (w.connections i).receive
    (fun request (_ : Unit) => ((mainHandler X request
      { userHandler := w.shared.handler, clocks := fun _ => clocks }).1, ()))
    X.hashOrder chunk ()
  (handled, connection)

/-- The handler of connection `i` behind a write, or behind an operation that has failed. -/
def complete (X : Externals) (w : ConcurrentNetwork) (i : Nat) (k : Completion) :
    Handled × Connection :=
  let (handled, connection, _) :=
    (w.connections i).complete (fun _ (_ : Unit) => (.ok none, ())) X.hashOrder k ()
  (handled, connection)

/-- What call `k` has returned. -/
def response (w : ConcurrentNetwork) (k : Nat) : Option (Except Exn HttpResponse) := do
  let call ← w.shared.calls[k]?
  match call.phase with
  | .ended response => some response
  | _ => none

/-- The network behind a completion handler, or behind its `async_write`: a thread that has started
a write has a text to clear, and an exception ends its thread. -/
def behind (w : ConcurrentNetwork) (i : Nat) (result : Handled × Connection) (c : HttpClient) :
    ConcurrentNetwork :=
  let w := { w with
    connections := Function.update w.connections i result.2
    clients := Function.update w.clients i c }
  match result.1 with
  | .returned => w
  | .dispatched _ _ => { w with
      clearing := Function.update w.clearing i (w.clearing i + 1)
      busy := w.busy + 1 }
  | .threw _ _ => { w with threads := w.threads - 1 }

/-- The network behind a read of connection `i` that begins a call. -/
def beginCall (w : ConcurrentNetwork) (i : Nat) (chunk : Bytes) (request : IRequest)
    (clocks : UserHandler.Clocks) (c : HttpClient) : ConcurrentNetwork :=
  { w with
    connections := Function.update w.connections i ((w.connections i).enter chunk)
    shared := { w.shared with calls := w.shared.calls ++ [{ request, clocks }] }
    serving := Function.update w.serving i (some w.shared.calls.length)
    busy := w.busy + 1
    clients := Function.update w.clients i c }

inductive Action where
  /-- Client `i` sends a request; it has the responses to all others. -/
  | send (i : Nat) (r : ClientRequest)
  /-- The read of connection `i` completes with `n` bytes; a request that it completes reads the
  clocks. -/
  | read (i n : Nat) (clocks : UserHandler.Clocks)
  /-- A call of the user handler goes on. -/
  | work (a : SharedHandler.Action)
  /-- The call for connection `i` has ended, and its response begins to be written. -/
  | answer (i : Nat)
  /-- A thread that has started a write of connection `i` clears the text of the request. -/
  | clear (i : Nat)
  | written (i : Nat)
  /-- The operation of connection `i` fails, or finds the end of the stream. -/
  | lose (i : Nat) (k : Completion)

/-- A step, if it can be taken. -/
def step (X : Externals) (w : ConcurrentNetwork) : Action → Option ConcurrentNetwork
  | .send i r =>
    let c := w.clients i
    if c.received.length = c.sent.length then
      some { w with
        clients := Function.update w.clients i
          { c with sent := c.sent ++ [r], inbox := c.inbox ++ r.text } }
    else none
  | .read i n clocks =>
    let c := w.clients i
    let connection := w.connections i
    -- at most the size of `m_buffer`
    if w.busy < w.threads ∧ w.serving i = none ∧ connection.pending = .read ∧ 0 < n ∧ n ≤ 8192 ∧
        n ≤ c.inbox.length then
      let chunk := c.inbox.take n
      match userRequest (connection.client.requestData ++ chunk) with
      | some request =>
        some (w.beginCall i chunk request clocks { c with inbox := c.inbox.drop n })
      | none =>
        let result := w.receive X i chunk clocks
        some (w.behind i result
          { c with inbox := c.inbox.drop n, writing := Network.written result.1 })
    else none
  | .work (.call _ _) => none
  | .work a => (w.shared.step X a).map fun shared => { w with shared }
  | .answer i =>
    match w.serving i with
    | some k =>
      match w.response k with
      | some response =>
        let result := (w.connections i).respond X.hashOrder response
        let w := { w with serving := Function.update w.serving i none, busy := w.busy - 1 }
        some (w.behind i result { w.clients i with writing := Network.written result.1 })
      | none => none
    | none => none
  | .clear i =>
    if 0 < w.clearing i then
      some { w with
        connections := Function.update w.connections i (w.connections i).clear
        clearing := Function.update w.clearing i (w.clearing i - 1)
        busy := w.busy - 1 }
    else none
  | .written i =>
    let c := w.clients i
    match c.writing with
    | some text =>
      if w.busy < w.threads then
        some (w.behind i (w.complete X i .written)
          { c with writing := none, received := c.received ++ [text] })
      else none
    | none => none
  | .lose i k =>
    if w.busy < w.threads ∧ w.serving i = none ∧ Network.Fails (w.connections i).pending k then
      some (w.behind i (w.complete X i k) { w.clients i with writing := none })
    else none

/-- The steps as a relation. -/
def Steps (X : Externals) (w : ConcurrentNetwork) (a : Action) (w' : ConcurrentNetwork) : Prop :=
  w.step X a = some w'

/-- The step lets no loop over the users run while an upload replaces them, only where uploads may
`overlap` does one begin while another is under way, and no connection is read again before the text
of its last request is cleared. -/
def Separate (overlap : Bool) (w : ConcurrentNetwork) : Action → Prop
  | .read i _ _ => w.clearing i = 0
  | .work a => w.shared.Separate a ∧ (w.shared.Refuses a → overlap = true)
  | _ => True

instance (overlap : Bool) (w : ConcurrentNetwork) : DecidablePred (Separate overlap w)
  | .work a => inferInstanceAs (Decidable (w.shared.Separate a ∧ (w.shared.Refuses a → _)))
  | .read i _ _ => inferInstanceAs (Decidable (w.clearing i = 0))
  | .send _ _ | .answer _ | .clear _ | .written _ | .lose _ _ => inferInstanceAs (Decidable True)

/-- The call that a step refuses, if it does. -/
def refusal (w : ConcurrentNetwork) : Action → List Nat
  | .work a => w.shared.refusal a
  | _ => []

/-- The calls that are refused since another upload is in its section, in the order of the run. -/
def refused (X : Externals) : ConcurrentNetwork → List Action → List Nat :=
  Runs.records (fun w a => w.step X a) refusal

/-- The server after its start, and clients that have sent nothing. -/
def start (hardwareConcurrency : UInt32) : ConcurrentNetwork where
  threads := threadCount hardwareConcurrency

/-- Nothing of client `i` is under way, and its connection is open. -/
structure Quiet (w : ConcurrentNetwork) (i : Nat) : Prop where
  inbox : (w.clients i).inbox = []
  writing : (w.clients i).writing = none
  serving : w.serving i = none
  isOpen : (w.connections i).pending ≠ .none

/-- The network on several threads while none of them is in a handler; `calls` are those that have
ended. -/
def resting (w : Network) (calls : List UserCall) : ConcurrentNetwork where
  connections := w.server.connections
  shared := { handler := w.server.handlers.userHandler, calls }
  threads := w.server.threads
  clients := w.clients

end ConcurrentNetwork

/-! ## Exchanges -/

/-- An exchange, with the call of the user handler that it is, where that was refused since another
upload was in its section. -/
structure Turn extends Exchange where
  refusedCall : Option Nat := none

/-- The handlers of `main` serve a request alone, with some reading of the clocks. -/
def ServesAlone (X : Externals) (h : UserHandler) (e : Exchange) (h' : UserHandler) : Prop :=
  ∃ (clocks : UserHandler.Clocks) (s' : HandlerState),
    Serves X { userHandler := h, clocks := fun _ => clocks } e s' ∧ s'.userHandler = h'

/-- A request is served alone; an upload that is refused finds the mutex locked, and changes
nothing. -/
def ServesTurn (X : Externals) (h : UserHandler) (t : Turn) (h' : UserHandler) : Prop :=
  if t.refusedCall.isSome then
    UserHandler.isUpload t.request.request = true ∧
      ServesAlone X { h with mutex := true } t.toExchange { h with mutex := true } ∧ h' = h
  else ServesAlone X h t.toExchange h'

/-- The exchanges of client `i`. -/
def turnsOf (i : Nat) (history : List Turn) : List Exchange :=
  exchangesOf i (history.map (·.toExchange))

/-- The calls that are refused in the history. -/
def refusedCalls (history : List Turn) : List Nat := history.filterMap (·.refusedCall)

/-- `history` is what has happened: exchanges in one order, each as if its request were alone, but
for those of the `refused` calls. -/
structure RealizesAlone (X : Externals) (refused : List Nat) (history : List Turn)
    (w : ConcurrentNetwork) : Prop where
  /-- Where no upload is under way, the user handler is in the state the exchanges leave. -/
  served : ∃ h, Runs.Path (ServesTurn X) {} history h ∧
    ((∀ c ∈ w.shared.calls, ¬ c.phase.InSection) → w.shared.handler = h)
  refusals : refusedCalls history = refused
  /-- A refused call is one with the request of the exchange. -/
  called : ∀ t ∈ history, ∀ k, t.refusedCall = some k →
    ∃ call, w.shared.calls[k]? = some call ∧ call.request = t.request.request
  /-- The requests of a client are served in the order in which it sends them. -/
  requests : ∀ i, (turnsOf i history).map (·.request) <+: (w.clients i).sent
  /-- What a client reads in the texts it receives is what the handlers answered, in this order. -/
  responses : ∀ i, (w.clients i).received.map decode <+: (turnsOf i history).map (·.outcome)
  /-- No request waits for ever: where nothing is under way, all have been answered. -/
  answered : ∀ i, w.Quiet i → (w.clients i).received.length = (w.clients i).sent.length
  /-- No loop has read behind the end of the users. -/
  inside : ∀ c ∈ w.shared.calls, c.phase ≠ .dangling

end HttpsTest
