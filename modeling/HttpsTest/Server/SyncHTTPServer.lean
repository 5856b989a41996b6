import HttpsTest.Http.Router
import HttpsTest.Server.AsyncClientHandler
import HttpsTest.Server.MultiThreadHTTPServer

/-!
# The blocking server

`SyncHTTPServer`: `start`, `stop` and `configure`; `read_full_request`, which reads a request off
the pieces a connection delivers; and the request loop of `handle_client`, one round after the
other. What the pieces are, which writes fail and what the running flag is when a round begins is
input.
-/

set_option autoImplicit false

namespace HttpsTest

/-- `stoul`, where it is given a text, on a platform whose `unsigned long` has 32 bits. -/
def stoul (s : Bytes) : Except Exn Nat :=
  let (negative, s) := sign (s.dropWhile isspace)
  if (s.head?.bind digit?).isNone then .error .invalidArgument
  else
    let n := digits s 0
    if 2 ^ 32 ≤ n then .error .outOfRange
    else .ok (if negative then (2 ^ 32 - n) % 2 ^ 32 else n)

/-! ## The acceptor -/

/-- The calls on the acceptor that `start()` makes one after the other, each of which may throw. -/
def Acceptor.openAndListen (sc : StartConditions) (config : ServerConfig) (a : Acceptor) :
    Except Exn Unit × Acceptor :=
  -- `open` fails with `already_open` on an open acceptor
  if sc.openFails ∨ a.isOpen then (.error .systemError, a)
  else
    let a : Acceptor := { isOpen := true }
    if sc.setOptionFails then (.error .systemError, a)
    else if sc.bindFails then (.error .systemError, a)
    else
      let a := { a with boundTo := some (sc.boundPort config.port) }
      if sc.listenFails then (.error .systemError, a)
      else (.ok (), { a with backlog := some config.maxConnections })

structure SyncHTTPServer where
  serverConfig : ServerConfig := { port := 8081, maxConnections := 1 }
  serverRunning : Bool := false
  acceptor : Acceptor := {}
  /-- `m_WaitConnection_thread` is joinable. -/
  waitConnectionThread : Bool := false
  /-- `io_context_.stopped()`. -/
  stopped : Bool := false
  deriving DecidableEq, Repr

namespace SyncHTTPServer

/-- `start()`, with the exception it logs, if it does. -/
def start (sc : StartConditions) (s : SyncHTTPServer) : Option Exn × SyncHTTPServer :=
  if s.serverRunning then (none, s)
  else
    match s.acceptor.openAndListen sc s.serverConfig with
    | (.error e, acceptor) => (some e, { s with acceptor })
    | (.ok (), acceptor) =>
      (none, { s with acceptor, serverRunning := true, waitConnectionThread := true })

/-- `stop()`: an error of closing the acceptor is logged, and the acceptor is closed all the same.
-/
def stop (s : SyncHTTPServer) : SyncHTTPServer :=
  if ¬ s.serverRunning then s
  else
    { s with
      serverRunning := false
      acceptor := {}
      stopped := true
      waitConnectionThread := false }

def configure (config : ServerConfig) (s : SyncHTTPServer) : SyncHTTPServer :=
  let s := if s.serverRunning then s.stop else s
  { s with serverConfig := config }

/-! ## Reading a request -/

/-- `asio::read_until(socket, buffer, "\r\n\r\n")`: the buffer and the pieces that are left. At the
end of the stream it throws. -/
def readUntil (buffer : Bytes) : List Bytes → Except Exn (Bytes × List Bytes)
  | [] => if (find buffer crlfcrlf 0).isSome then .ok (buffer, []) else .error .systemError
  | piece :: pieces =>
    if (find buffer crlfcrlf 0).isSome then .ok (buffer, piece :: pieces)
    else readUntil (buffer ++ piece) pieces

/-- `asio::read` of `n` bytes; the rest of a piece stays in the stream. -/
def readExactly : Nat → List Bytes → Except Exn (Bytes × List Bytes)
  | 0, pieces => .ok ([], pieces)
  | _ + 1, [] => .error .systemError
  | n + 1, piece :: pieces =>
    if n + 1 < piece.length then
      .ok (piece.take (n + 1), piece.drop (n + 1) :: pieces)
    else do
      let (bytes, pieces) ← readExactly (n + 1 - piece.length) pieces
      .ok (piece ++ bytes, pieces)

/-- `std::getline`: the line and what is left, `none` at the end of the stream. -/
def getline (stream : Bytes) : Option (Bytes × Bytes) :=
  if stream = [] then none
  else some (stream.takeWhile (· ≠ 10), Search.behind 10 stream)

/-- A round of the loop over the header lines: the lines up to an empty one are collected. -/
def headerLineRound : Bytes × Bytes → Except Exn (Loop.Step (Bytes × Bytes) (Bytes × Bytes))
  | (stream, headers) =>
    match getline stream with
    | none => .ok (.done (stream, headers))
    | some (line, stream) =>
      if line = bytes "\r" then .ok (.done (stream, headers))
      else .ok (.next (stream, headers ++ line ++ bytes "\n"))

/-- What is left of the buffer behind the header lines, and the header block. -/
def readHeaders (buffer : Bytes) : Except Exn (Bytes × Bytes) := do
  let (stream, headers) ←
    Loop.run .endless headerLineRound (buffer.length + 1) (buffer, [])
  .ok (stream, headers ++ crlf)

/-- The characters `value` is trimmed of at its end. -/
def isBlank (c : UInt8) : Bool := c == 32 || c == 9 || c == 13 || c == 10

/-- The number behind the first `Content-Length:`, 0 where there is none. -/
def contentLength (headers : Bytes) : Except Exn Nat :=
  let contentLengthHeader : Bytes := "Content-Length:"
  match find headers contentLengthHeader 0 with
  | none => .ok 0
  | some pos =>
    match find headers "\n" pos with
    | none => .ok 0
    | some endOfLine => do
      let value ← substr headers (pos + 15) (endOfLine - pos - 15)
      let value := value.dropWhile fun c => c == 32 || c == 9
      stoul (value.rdropWhile isBlank)

/-- `read_full_request`: the request, and the pieces that are left in the stream. -/
def readFullRequest (pieces : List Bytes) : Except Exn (Bytes × List Bytes) := do
  let (buffer, pieces) ← readUntil [] pieces
  let (buffered, headers) ← readHeaders buffer
  let contentLength ← contentLength headers
  if 0 < contentLength then
    -- all that is in the buffer is taken, also what follows the body
    let (rest, pieces) ← readExactly (contentLength - buffered.length) pieces
    .ok (headers ++ buffered ++ rest, pieces)
  else .ok (headers, pieces)

/-! ## Answering -/

/-- Whether the answer tells the client that the connection stays. -/
def keepAlive (request : IRequest) : Bool :=
  if request.getVersion = bytes "HTTP/1.0" then
    request.getHeader "Connection" = bytes "keep-alive"
  else request.getHeader "Connection" ≠ bytes "close"

/-- The header put on the response to an HTTP request; a null response is dereferenced here. -/
def advertise (request : IRequest) (response : Option HttpResponse) :
    Except Exn (Option HttpResponse) :=
  if request.type = .http then
    match response with
    | none => .error .nullDereference
    | some r =>
      .ok (some (r.setHeader "Connection" (if keepAlive request then "keep-alive" else "close")))
  else .ok response

/-- From the bytes of a request to the response that is written; without one an error is logged. -/
def respond {σ : Type} (handler : IRequestHandler σ) (raw : Bytes) (s : σ) :
    Except Exn (Option HttpResponse) × σ :=
  match RequestFactory.parse raw with
  | .error e => (.error e, s)
  | .ok request =>
    match handler request s with
    | (.error e, s) => (.error e, s)
    | (.ok response, s) => (advertise request response, s)

/-- What becomes of a request: it is parsed without an exception and handed to the handler. -/
theorem respond_spec {σ : Type} (handler : IRequestHandler σ) (raw : Bytes) (s : σ) :
    ∃ request, RequestFactory.parse raw = .ok request ∧ respond handler raw s =
      (match (handler request s).1 with
        | .error e => .error e
        | .ok response => advertise request response,
      (handler request s).2) := by
  obtain ⟨request, hr⟩ := RequestFactory.parse_ok raw
  refine ⟨request, hr, ?_⟩
  unfold respond
  simp only [hr]
  rcases handler request s with ⟨_ | _, s'⟩ <;> rfl

/-! ## The request loop -/

/-- A connection of `handle_client`: what its peer still sends. -/
structure SyncConnection where
  unread : List Bytes
  isOpen : Bool := true

/-- The condition of the loop; without it the loop is left and the socket closed. -/
def SyncConnection.goesOn (running : Bool) (c : SyncConnection) : Bool := running && c.isOpen

/-- How a round of the loop ends. -/
inductive RoundEnd where
  /-- The loop is left before the round. -/
  | left
  /-- An exception leaves the loop. -/
  | threw (e : Exn)
  | answered (raw response : Bytes)
  /-- There was no response, which is logged. -/
  | unanswered (raw : Bytes)

/-- What a round depends on: the running flag at its beginning, and whether the write fails. -/
structure RoundInput where
  running : Bool
  writeFails : Bool := false

def round {σ : Type} (handler : IRequestHandler σ) (o : HashOrder) (i : RoundInput)
    (c : SyncConnection) (s : σ) : RoundEnd × SyncConnection × σ :=
  -- behind the loop the socket is closed
  let closed := { c with isOpen := false }
  if ¬ c.goesOn i.running then (.left, closed, s)
  else
    match readFullRequest c.unread with
    | .error e => (.threw e, closed, s)
    | .ok (raw, unread) =>
      match respond handler raw s with
      | (.error e, s) => (.threw e, closed, s)
      | (.ok none, s) => (.unanswered raw, { c with unread }, s)
      | (.ok (some r), s) =>
        if i.writeFails then (.threw .systemError, closed, s)
        else (.answered raw (r.str o), { c with unread }, s)

end SyncHTTPServer

end HttpsTest
