import Mathlib.Logic.Function.Basic
import HttpsTest.Users.Handlers
import HttpsTest.Server.AsyncClientHandler
import HttpsTest.Server.MultiThreadHTTPServer

/-!
# The server as `main` configures it

The router of `main` over its three handler objects, and the IO threads that run the completion
handlers of all connections: an exception that leaves such a handler ends its thread
(`MultiThreadHTTPServer::start`).
-/

set_option autoImplicit false

namespace HttpsTest

/-- The handler objects `main` creates. -/
inductive Handler where
  | helloHandler | defaultHandler | userHandler
  deriving DecidableEq, Repr

/-- The calls of `registerHandler` in `main`. -/
def registrations : List (String × String × Handler) :=
  [("GET", "/hello", .helloHandler), ("POST", "/users", .userHandler),
    ("GET", "/superusers", .userHandler), ("GET", "/top-countries", .userHandler),
    ("GET", "/team-insights", .userHandler), ("GET", "/active-users-per-day", .userHandler),
    ("GET", "/evaluation", .userHandler)]

def router : RequestRouter Handler :=
  let registered := registrations.foldl
    (fun (r : RequestRouter Handler) (method, path, handler) =>
      r.registerHandler method path handler) {}
  registered.registerDefaultHandler .defaultHandler

/-- The state of the handlers: the user handler, and what the requests to come read from the
clocks. -/
structure HandlerState where
  userHandler : UserHandler := {}
  clocks : Nat → UserHandler.Clocks

/-- The clocks behind the next reading. -/
def HandlerState.tick (s : HandlerState) : HandlerState :=
  { s with clocks := fun n => s.clocks (n + 1) }

def Handler.handleRequest (X : Externals) : Handler → IRequestHandler HandlerState
  | .helloHandler, request, s => (.ok (some (HelloHandler.handleRequest request)), s)
  | .defaultHandler, request, s =>
    ((DefaultHandler.handleRequest X (s.clocks 0).own request).map some, s.tick)
  | .userHandler, request, s =>
    let (response, userHandler') := s.userHandler.handleRequest X (s.clocks 0) request
    (response.map some, { s.tick with userHandler := userHandler' })

/-- The request handler `main` gives to the server. -/
def mainHandler (X : Externals) : IRequestHandler HandlerState :=
  router.handleRequest (Handler.handleRequest X)

/-- The running server: its connections and the number of threads inside `io_context_.run()`. -/
structure IoServer where
  connections : Nat → Connection
  handlers : HandlerState
  threads : Nat

namespace IoServer

/-- The completion handler of an operation of connection `i.1`, on one of the threads. -/
def complete (X : Externals) (s : IoServer) (i : Nat × Completion) : IoServer :=
  if s.threads = 0 then s
  else
    let (handled, connection, handlers) :=
      (s.connections i.1).complete (mainHandler X) X.hashOrder i.2 s.handlers
    { connections := Function.update s.connections i.1 connection
      handlers
      threads := match handled with
        | .threw _ _ => s.threads - 1
        | _ => s.threads }

/-- The server after its start: every connection waits for its first bytes. -/
def started (hardwareConcurrency : UInt32) (clocks : Nat → UserHandler.Clocks) : IoServer where
  connections := fun _ => {}
  handlers := { clocks }
  threads := threadCount hardwareConcurrency

end IoServer

end HttpsTest
