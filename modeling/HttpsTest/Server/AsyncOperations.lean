import HttpsTest.Server.AsyncClientHandler

/-!
# Operations of a connection

`AsyncClientHandler` with the asynchronous operations it has started: any number of reads and writes
can be outstanding, and any of them completes next. `connection` forgets all but the first one;
`Connection` is what is left where there is never more than one.
-/

set_option autoImplicit false

namespace HttpsTest

open AsyncClientHandler

inductive AsyncOperation where
  | read
  | write (text : Bytes)
  deriving DecidableEq, Repr

/-- A request that was handed to the request handler: the keep-alive decision on it, and the text
of its response. -/
structure Dispatched where
  request : Bytes
  keepAlive : Bool
  response : Bytes
  deriving DecidableEq

structure AsyncSession (σ : Type) where
  client : AsyncClientHandler := {}
  handler : σ
  /-- `m_socket->is_open()`. -/
  isOpen : Bool := true
  /-- The operations started and not completed. -/
  outstanding : List AsyncOperation := []
  dispatched : List Dispatched := []
  /-- The texts of the writes started so far. -/
  writes : List Bytes := []
  /-- The texts of the writes that succeeded. -/
  delivered : List Bytes := []

namespace AsyncSession

variable {σ : Type}

/-- `stop()`. -/
def stop (s : AsyncSession σ) : AsyncSession σ := { s with isOpen := false }

def readData (s : AsyncSession σ) : AsyncSession σ :=
  { s with outstanding := s.outstanding ++ [.read] }

def sendResponse (text : Bytes) (s : AsyncSession σ) : AsyncSession σ :=
  { s with outstanding := s.outstanding ++ [.write text], writes := s.writes ++ [text] }

/-- `start()` on the object of a new connection. -/
def start (handler : σ) : AsyncSession σ := readData { handler }

section
variable (handler : IRequestHandler σ) (o : HashOrder)

/-- `processRequest`; where it throws, the object is destroyed, and its destructor stops it. -/
def processRequest (s : AsyncSession σ) : AsyncSession σ :=
  match s.client.dispatch handler o s.handler with
  | (.error _, client, h) => { s with client, handler := h }.stop
  | (.ok text, client, h) =>
    let d := { request := client.requestData, keepAlive := client.keepAlive, response := text }
    let s := { s with client, handler := h, dispatched := s.dispatched ++ [d] }.sendResponse text
    { s with client := s.client.clear }

def handleRead (chunk : Bytes) (s : AsyncSession σ) : AsyncSession σ :=
  let s := { s with
    client := { s.client with requestData := s.client.requestData ++ chunk } }
  if isCompleteRequest s.client.requestData then s.processRequest handler o else s.readData

def handleWrite (s : AsyncSession σ) : AsyncSession σ :=
  if s.client.keepAlive then s.readData else s.stop

/-- The `i`-th outstanding operation completes and its handler runs. End of file and errors stop
the connection. -/
def completed (s : AsyncSession σ) (e : Nat × Completion) : Option (AsyncSession σ) :=
  let t := { s with outstanding := s.outstanding.eraseIdx e.1 }
  match s.outstanding[e.1]?, e.2 with
  | some .read, .read chunk => some (t.handleRead handler o chunk)
  | some .read, .readEof => some t.stop
  | some .read, .readError => some t.stop
  | some (.write text), .written =>
    some { t with delivered := t.delivered ++ [text] }.handleWrite
  | some (.write _), .writeError => some t.stop
  | _, _ => none

end

/-- The connection and the first operation it waits for. -/
def connection (s : AsyncSession σ) : Connection where
  client := s.client
  pending :=
    match s.outstanding with
    | [] => .none
    | .read :: _ => .read
    | .write _ :: _ => .write

end AsyncSession

end HttpsTest
