import HttpsTest.Server.Clients
import HttpsTest.Server.Proof.Lifecycle

/-!
# The service

`MultiThreadHTTPServer` with the clients that connect to it: the calls of its user, the connections
that wait to be accepted, `handleAccept`, `handleClient`, which is posted and starts an
`AsyncClientHandler`, and the network of the clients that are handled. All completion handlers run
on the threads inside `io_context_.run()`, each as one step.
-/

set_option autoImplicit false

namespace HttpsTest

/-- Where the connection of a client stands. -/
inductive Arrival where
  | away
  /-- Connected and not accepted. -/
  | waiting
  /-- Accepted; its `handleClient` is posted. -/
  | posted
  /-- Its `AsyncClientHandler` has been started. -/
  | handled
  /-- Closed without one. -/
  | refused
  deriving DecidableEq, Repr

/-- The client can write on its connection. -/
def Arrival.IsOpen (a : Arrival) : Prop := a = .waiting ∨ a = .posted ∨ a = .handled

instance : DecidablePred Arrival.IsOpen := fun _ => inferInstanceAs (Decidable (_ ∨ _ ∨ _))

structure Service where
  server : MultiThreadHTTPServer
  /-- The connections of the clients that are handled, on the threads of the server. -/
  network : Network
  arrivals : Nat → Arrival := fun _ => .away

namespace Service

inductive Action where
  /-- The user of the server calls it. -/
  | call (c : MultiThreadHTTPServer.Call)
  | connect (i : Nat)
  /-- The accept completes with client `i`, which may have gone already. -/
  | accept (i : Nat) (gone : Bool)
  | acceptFails (e : AcceptError)
  | handleClient (i : Nat)
  /-- A step of a client, or of its `AsyncClientHandler`. -/
  | act (a : Network.Action)

/-- The server behind a step of its own. -/
def withServer (s : Service) (server : MultiThreadHTTPServer) : Service :=
  { s with
    server
    network := { s.network with
      server := { s.network.server with threads := server.insideRun } } }

/-- The network behind a step, which may have ended a thread. -/
def withNetwork (s : Service) (network : Network) : Service :=
  { s with network, server := { s.server with insideRun := network.server.threads } }

def arrive (s : Service) (i : Nat) (a : Arrival) : Service :=
  { s with arrivals := Function.update s.arrivals i a }

/-- Closing the acceptor resets the connections that wait for it. -/
def resetWaiting (s : Service) : Service :=
  { s with arrivals := fun i =>
      if s.arrivals i = .waiting ∧ s.server.acceptor.isOpen = false then .refused
      else s.arrivals i }

/-- An accept can complete, on a thread inside `run()`. -/
def Accepts (s : Service) : Prop := s.server.acceptPending ≠ 0 ∧ s.server.insideRun ≠ 0

instance (s : Service) : Decidable s.Accepts := inferInstanceAs (Decidable (_ ∧ _))

/-- A client writes once it is connected, and is read and answered once it is handled. -/
def MayAct (s : Service) : Network.Action → Prop
  | .send i _ => (s.arrivals i).IsOpen
  | .read i _ | .written i | .lose i _ => s.arrivals i = .handled

instance (s : Service) : DecidablePred s.MayAct
  | .send _ _ => inferInstanceAs (Decidable (Arrival.IsOpen _))
  | .read _ _ | .written _ | .lose _ _ => inferInstanceAs (Decidable (_ = _))

/-- A step, if it can be taken. -/
def step (X : Externals) (s : Service) : Action → Option Service
  | .call c => some (s.withServer (s.server.afterCall c)).resetWaiting
  | .connect i =>
    if s.arrivals i = .away ∧ s.server.acceptor.backlog.isSome then some (s.arrive i .waiting)
    else none
  | .accept i gone =>
    if s.Accepts ∧ s.arrivals i = .waiting then
      let result := if gone then .peerGone else .peer
      let arrival := if s.server.serverRunning ∧ ¬ gone then .posted else .refused
      some ((s.withServer (s.server.acceptCompleted result)).arrive i arrival)
    else none
  | .acceptFails e =>
    if s.Accepts then some (s.withServer (s.server.acceptCompleted (.error e))) else none
  | .handleClient i =>
    if s.server.insideRun ≠ 0 ∧ s.arrivals i = .posted then some (s.arrive i .handled) else none
  | .act a => if s.MayAct a then (s.network.step X a).map s.withNetwork else none

def Steps (X : Externals) (s : Service) (a : Action) (s' : Service) : Prop := s.step X a = some s'

/-- A server that is built and not started. -/
def built (config : ServerConfig) (clocks : Nat → UserHandler.Clocks) : Service where
  server := { serverConfig := config }
  network := {
    server := { connections := fun _ => {}, handlers := { clocks }, threads := 0 } }

/-- The server has nothing left to do: no accept, no posted client, no read and no write of it can
complete. -/
structure Idle (X : Externals) (s : Service) : Prop where
  accept : ∀ i, s.step X (.accept i false) = none
  handleClient : ∀ i, s.step X (.handleClient i) = none
  read : ∀ i n, s.step X (.act (.read i n)) = none
  written : ∀ i, s.step X (.act (.written i)) = none

end Service

end HttpsTest
