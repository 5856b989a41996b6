import HttpsTest.Http.Router

/-!
# Connections

`AsyncClientHandler`: the test for a complete request, and the completion handlers of a connection's
reads and writes. The request handler behind the connections is any `IRequestHandler`; it keeps
a state of its own, and answers a request with a response, with null or with an exception.

`Connection` is the object together with the operation it waits for. `dispatch` and `clear` are the
two parts of `processRequest`, before and behind the start of the write.
-/

set_option autoImplicit false

namespace HttpsTest

/-- The decimal digit of a character. -/
def digit? (c : UInt8) : Option Nat := if 48 ≤ c ∧ c ≤ 57 then some (c.toNat - 48) else none

/-- `n` followed by the leading digits of a text. -/
def digits : Bytes → Nat → Nat
  | [], n => n
  | c :: cs, n =>
    match digit? c with
    | some d => digits cs (10 * n + d)
    | none => n

/-- An optional sign: whether it is a minus, and what follows. -/
def sign : Bytes → Bool × Bytes
  | 45 :: t => (true, t)
  | 43 :: t => (false, t)
  | s => (false, s)

/-- `std::stoull`, `none` where it throws: white space, a sign and digits; a negative number is
taken modulo `2 ^ 64`. -/
def stoull (s : Bytes) : Option Nat :=
  let (negative, s) := sign (s.dropWhile isspace)
  if (s.head?.bind digit?).isNone then none
  else
    let n := digits s 0
    if 2 ^ 64 ≤ n then none else some (if negative then (2 ^ 64 - n) % 2 ^ 64 else n)

structure AsyncClientHandler where
  keepAlive : Bool := false
  requestData : Bytes := []

namespace AsyncClientHandler

/-- The number behind the first `Content-Length: `, 0 where there is none. -/
def getContentLength (request : Bytes) : Nat :=
  let contentLengthHeader : Bytes := "Content-Length: "
  match find request contentLengthHeader 0 with
  | none => 0
  | some pos =>
    let start := pos + contentLengthHeader.length
    match find request crlf start with
    | none => 0
    | some stop =>
      match substr request start (stop - start) with
      | .ok lengthStr => (stoull lengthStr).getD 0
      | .error _ => 0

def isCompleteRequest (data : Bytes) : Bool :=
  match find data crlfcrlf 0 with
  | none => false
  | some headerEnd =>
    let contentLength := getContentLength data
    if 0 < contentLength then
      let bodyStart := headerEnd + 4
      contentLength ≤ data.length - bodyStart
    else true

def shouldKeepAlive (request : Bytes) : Bool :=
  if (find request "Connection: close" 0).isSome then false
  else if (find request "HTTP/1.1" 0).isSome then (find request "Connection: close" 0).isNone
  else (find request "Connection: keep-alive" 0).isSome

section
variable {σ : Type} (handler : IRequestHandler σ) (o : HashOrder)

/-- `processRequest` up to the start of the write, with the text that is sent. -/
def dispatch (c : AsyncClientHandler) (s : σ) : Except Exn Bytes × AsyncClientHandler × σ :=
  let c := { c with keepAlive := shouldKeepAlive c.requestData }
  match RequestFactory.parse c.requestData with
  | .error e => (.error e, c, s)
  | .ok request =>
    match handler request s with
    | (.error e, s) => (.error e, c, s)
    | (.ok none, s) => (.error .nullDereference, c, s)
    | (.ok (some response), s) => (.ok (response.str o), c, s)

/-- The rest of `processRequest`. -/
def clear (c : AsyncClientHandler) : AsyncClientHandler := { c with requestData := [] }

def processRequest (c : AsyncClientHandler) (s : σ) : Except Exn Bytes × AsyncClientHandler × σ :=
  match dispatch handler o c s with
  | (.ok text, c, s) => (.ok text, c.clear, s)
  | (.error e, c, s) => (.error e, c, s)

end

end AsyncClientHandler

open AsyncClientHandler

/-! ## Completion handlers -/

/-- The operation a connection waits for; without one it is closed. -/
inductive Pending where
  | read | write | none
  deriving DecidableEq, Repr

structure Connection where
  client : AsyncClientHandler := {}
  pending : Pending := .read

/-- How an asynchronous operation of a connection ends. -/
inductive Completion where
  | read (chunk : Bytes)
  | readEof
  | readError
  | written
  | writeError
  deriving DecidableEq, Repr

/-- How a completion handler ends. -/
inductive Handled where
  /-- The connection waits for its next operation, or is closed. -/
  | returned
  | dispatched (request response : Bytes)
  | threw (request : Bytes) (e : Exn)

namespace Connection

section
variable {σ : Type} (handler : IRequestHandler σ) (o : HashOrder)

/-- `handleRead`. An exception releases the last reference to the object, whose destructor closes
the socket. -/
def handleRead (chunk : Bytes) (c : Connection) (s : σ) : Handled × Connection × σ :=
  let client := { c.client with requestData := c.client.requestData ++ chunk }
  if isCompleteRequest client.requestData then
    match client.processRequest handler o s with
    | (.ok text, client', s) =>
      (.dispatched client.requestData text, { client := client', pending := .write }, s)
    | (.error e, client', s) =>
      (.threw client.requestData e, { client := client', pending := .none }, s)
  else (.returned, { client, pending := .read }, s)

/-- The handler of a completed operation; a completion of an operation that is not pending does not
occur and changes nothing. -/
def complete (k : Completion) (c : Connection) (s : σ) : Handled × Connection × σ :=
  match c.pending, k with
  | .read, .read chunk => c.handleRead handler o chunk s
  | .read, .readEof => (.returned, { c with pending := .none }, s)
  | .read, .readError => (.returned, { c with pending := .none }, s)
  | .write, .written =>
    (.returned, { c with pending := if c.client.keepAlive then .read else .none }, s)
  | .write, .writeError => (.returned, { c with pending := .none }, s)
  | _, _ => (.returned, c, s)

/-! ### The parts of `handleRead`, as other handlers of the connection see them -/

/-- `handleRead` up to `async_write`: the text of a request that is served is not cleared yet. -/
def receive (chunk : Bytes) (c : Connection) (s : σ) : Handled × Connection × σ :=
  let client := { c.client with requestData := c.client.requestData ++ chunk }
  if isCompleteRequest client.requestData then
    match client.dispatch handler o s with
    | (.ok text, client', s) =>
      (.dispatched client.requestData text, { client := client', pending := .write }, s)
    | (.error e, client', s) =>
      (.threw client.requestData e, { client := client', pending := .none }, s)
  else (.returned, { client, pending := .read }, s)

end

/-- `handleRead` of the last bytes of a request up to the call of the request handler. -/
def enter (chunk : Bytes) (c : Connection) : Connection :=
  let requestData := c.client.requestData ++ chunk
  { c with client := { requestData, keepAlive := shouldKeepAlive requestData } }

/-- `processRequest` from the return of the request handler up to `async_write`. -/
def respond (o : HashOrder) (response : Except Exn HttpResponse) (c : Connection) :
    Handled × Connection :=
  match response with
  | .ok response =>
    (.dispatched c.client.requestData (response.str o), { c with pending := .write })
  | .error e => (.threw c.client.requestData e, { c with pending := .none })

/-- The end of `processRequest`. -/
def clear (c : Connection) : Connection := { c with client := c.client.clear }

end Connection

/-! ## Dispatching -/

section
variable {σ : Type} {handler : IRequestHandler σ} {o : HashOrder}

/-- What becomes of a request: it is parsed without an exception and handed to the handler. -/
theorem dispatch_spec (handler : IRequestHandler σ) (o : HashOrder) (c : AsyncClientHandler)
    (s : σ) :
    ∃ request, RequestFactory.parse c.requestData = .ok request ∧
      dispatch handler o c s =
        (match (handler request s).1 with
          | .error e => .error e
          | .ok none => .error .nullDereference
          | .ok (some response) => .ok (response.str o),
        { c with keepAlive := shouldKeepAlive c.requestData }, (handler request s).2) := by
  obtain ⟨request, hr⟩ := RequestFactory.parse_ok c.requestData
  refine ⟨request, hr, ?_⟩
  unfold dispatch
  simp only [hr]
  rcases handler request s with ⟨_ | _ | _, s'⟩ <;> rfl

theorem processRequest_eq (c : AsyncClientHandler) (s : σ) :
    (processRequest handler o c s).1 = (dispatch handler o c s).1 ∧
      (processRequest handler o c s).2.2 = (dispatch handler o c s).2.2 := by
  unfold processRequest
  rcases dispatch handler o c s with ⟨_ | _, c', s'⟩ <;> exact ⟨rfl, rfl⟩

end

end HttpsTest
