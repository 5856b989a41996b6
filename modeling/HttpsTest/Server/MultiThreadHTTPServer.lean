import HttpsTest.Base

/-!
# The server

`MultiThreadHTTPServer`: `start`, `stop`, `configure` and the chain of asynchronous accepts. The
state also holds what asio keeps: whether the `io_context` is in its stopped state, how many
accepts are outstanding and how many threads are inside `run()`. Which of the asio calls fails
is part of a call's input.
-/

set_option autoImplicit false

namespace HttpsTest

structure ServerConfig where
  port : Int
  maxConnections : Int
  deriving DecidableEq, Repr

/-- `asio::ip::tcp::acceptor`: closed, or open, bound and listening as far as the calls on it
went. -/
structure Acceptor where
  isOpen : Bool := false
  boundTo : Option Int := none
  backlog : Option Int := none
  deriving DecidableEq, Repr

/-- Listening on a port. -/
def Acceptor.ListensOn (a : Acceptor) (port : Int) : Prop :=
  a.isOpen = true ∧ a.boundTo = some port ∧ a.backlog.isSome = true

instance (a : Acceptor) (port : Int) : Decidable (a.ListensOn port) :=
  inferInstanceAs (Decidable (_ ∧ _ ∧ _))

/-- A port that the system gives where it is asked for any. -/
abbrev FreePort := { port : Nat // 0 < port ∧ port < 2 ^ 16 }

/-- The first of the dynamic ports. -/
def firstFreePort : FreePort := ⟨49152, by decide⟩

/-- What decides how a `start()` ends: a call on the acceptor that fails, the port the system gives
where it is asked for any, and `std::thread::hardware_concurrency()`. -/
structure StartConditions where
  openFails : Bool := false
  setOptionFails : Bool := false
  bindFails : Bool := false
  listenFails : Bool := false
  freePort : FreePort := firstFreePort
  hardwareConcurrency : UInt32
  deriving DecidableEq, Repr

/-- The port of `asio::ip::tcp::endpoint(asio::ip::tcp::v4(), port)`, a `uint_least16_t`. -/
def endpointPort (port : Int) : Int := port % 2 ^ 16

/-- The port that `bind` takes for the endpoint; for port 0 the system gives a free one. -/
def StartConditions.boundPort (sc : StartConditions) (port : Int) : Int :=
  if endpointPort port = 0 then sc.freePort.val else endpointPort port

inductive AcceptError where
  | operationAborted
  | other (code : Int)
  deriving DecidableEq, Repr

/-- How an accept ends: with a peer, with a peer that has already gone, or with an error. -/
inductive AcceptResult where
  | peer
  | peerGone
  | error (e : AcceptError)
  deriving DecidableEq, Repr

structure MultiThreadHTTPServer where
  serverConfig : ServerConfig := { port := 8081, maxConnections := 4 }
  serverRunning : Bool := false
  acceptor : Acceptor := {}
  /-- `m_work_guard` is set. -/
  workGuard : Bool := false
  /-- The dependencies are set. -/
  dependencies : Bool := true
  /-- `io_context_.stopped()`. -/
  stopped : Bool := false
  /-- Accepts started and not completed. -/
  acceptPending : Nat := 0
  /-- The threads of `ioThreadPool`. -/
  ioThreads : Nat := 0
  /-- The threads inside `io_context_.run()`. -/
  insideRun : Nat := 0
  /-- Calls of `handleClient` posted so far. -/
  posted : Nat := 0
  deriving DecidableEq, Repr

/-- The number of IO threads; the product is taken on `unsigned int`. -/
def threadCount (hardwareConcurrency : UInt32) : Nat := max 2 (hardwareConcurrency * 4).toNat

namespace MultiThreadHTTPServer

def validateDependencies (s : MultiThreadHTTPServer) : Except Exn Unit :=
  if s.dependencies then .ok () else .error .runtimeError

def startAccept (s : MultiThreadHTTPServer) : MultiThreadHTTPServer :=
  { s with acceptPending := s.acceptPending + 1 }

/-- The IO threads: each calls `io_context_.run()`, which returns at once on a stopped context. -/
def startThreads (count : Nat) (s : MultiThreadHTTPServer) : MultiThreadHTTPServer :=
  { s with
    ioThreads := s.ioThreads + count
    insideRun := if s.stopped then s.insideRun else s.insideRun + count }

/-- `start()`, with the state it leaves, also where it throws. -/
def start (sc : StartConditions) (s : MultiThreadHTTPServer) :
    Except Exn Unit × MultiThreadHTTPServer :=
  if s.serverRunning then (.ok (), s)
  else
    match s.validateDependencies with
    | .error e => (.error e, s)
    | .ok () =>
      -- `open` fails with `already_open` on an open acceptor
      if sc.openFails ∨ s.acceptor.isOpen then (.error .systemError, s)
      else
        let s := { s with acceptor := { isOpen := true } }
        if sc.setOptionFails then (.error .systemError, s)
        else if sc.bindFails then (.error .systemError, s)
        else
          let s := { s with
            acceptor := { s.acceptor with boundTo := some (sc.boundPort s.serverConfig.port) } }
          if sc.listenFails then (.error .systemError, s)
          else
            let s := { s with
              acceptor := { s.acceptor with backlog := some s.serverConfig.maxConnections } }
            let s := { s with serverRunning := true, workGuard := true }
            (.ok (), s.startAccept.startThreads (threadCount sc.hardwareConcurrency))

/-- `stop()`; `closeFails`: closing the acceptor throws, and leaves it closed all the same. -/
def stop (closeFails : Bool) (s : MultiThreadHTTPServer) :
    Except Exn Unit × MultiThreadHTTPServer :=
  if ¬ s.serverRunning then (.ok (), s)
  else
    let s := { s with serverRunning := false, acceptor := {} }
    if closeFails then (.error .systemError, s)
    else
      -- closing cancels the pending accept, whose handler a stopped context does not run
      let s := { s with acceptPending := 0, workGuard := false }
      -- all threads leave `run()` and are joined
      let s := { s with stopped := true, insideRun := 0, ioThreads := 0 }
      (.ok (), s)

def configure (closeFails : Bool) (config : ServerConfig) (s : MultiThreadHTTPServer) :
    Except Exn Unit × MultiThreadHTTPServer :=
  let (stopped, s) := if s.serverRunning then s.stop closeFails else (.ok (), s)
  match stopped with
  | .error e => (.error e, s)
  | .ok () => (.ok (), { s with serverConfig := config })

/-! ## Accepting -/

def handleAccept (result : AcceptResult) (s : MultiThreadHTTPServer) :
    Except Exn Unit × MultiThreadHTTPServer :=
  if ¬ s.serverRunning then (.ok (), s)
  else
    match result with
    | .peer => (.ok (), { s with posted := s.posted + 1 }.startAccept)
    -- `remote_endpoint()` throws
    | .peerGone => (.error .systemError, s)
    | .error e => if e ≠ .operationAborted then (.ok (), s.startAccept) else (.ok (), s)

/-- The completion of an accept, on a thread inside `run()`; an exception of its handler ends the
thread. -/
def acceptCompleted (s : MultiThreadHTTPServer) (result : AcceptResult) : MultiThreadHTTPServer :=
  if s.acceptPending = 0 ∨ s.insideRun = 0 then s
  else
    match handleAccept result { s with acceptPending := s.acceptPending - 1 } with
    | (.ok (), s) => s
    | (.error _, s) => { s with insideRun := s.insideRun - 1 }

end MultiThreadHTTPServer

end HttpsTest
