import HttpsTest.Http.Multipart
import HttpsTest.Http.Request

/-!
# The parsers with checked positions

The parsers of requests and of multipart bodies once more, with what the sources leave unchecked:
a difference of two positions must not be negative, and each round of a loop must move its position
forward. `parsePart` works on views into `raw_body` here, with the addresses that it subtracts.
-/

set_option autoImplicit false

namespace HttpsTest

/-- What can go wrong in a scan. -/
inductive Fault where
  | thrown (e : Exn)
  /-- A difference of positions is negative. -/
  | negative
  /-- A round does not move its position forward. -/
  | stalled
  deriving DecidableEq, Repr

/-- The exceptions of a function, as faults. -/
def thrown {α : Type} (x : Except Exn α) : Except Fault α := x.mapError .thrown

instance : MonadLift (Except Exn) (Except Fault) := ⟨thrown⟩

/-- `a - b` for positions. -/
def minus (a b : Nat) : Except Fault Nat := if b ≤ a then .ok (a - b) else .error .negative

/-- A loop over the positions up to `bound`. -/
def scan {σ β : Type} (pos : σ → Nat) (body : σ → Except Fault (Loop.Step σ β)) (bound : Nat)
    (s : σ) : Except Fault β :=
  Loop.run (.thrown .endless) (Loop.advancing .stalled pos body) (bound + 1) s

namespace HttpRequest.Checked

def parseRequestLine (r : HttpRequest) (requestLine : Bytes) : Except Fault HttpRequest :=
  match find requestLine " " 0 with
  | none => .ok { r with method := requestLine }
  | some firstSpace => do
    let method ← substr requestLine 0 firstSpace
    match find requestLine " " (firstSpace + 1) with
    | none =>
      let path ← substrFrom requestLine (firstSpace + 1)
      return { r with method, path }
    | some secondSpace =>
      let length ← minus (← minus secondSpace firstSpace) 1
      let path ← substr requestLine (firstSpace + 1) length
      let httpVersion ← substrFrom requestLine (secondSpace + 1)
      return { r with method, path, httpVersion }

def queryRound (queryStr : Bytes) :
    Nat × StringMap → Except Fault (Loop.Step (Nat × StringMap) StringMap)
  | (start, params) =>
    if start < queryStr.length then do
      let stop := (find queryStr "&" start).getD queryStr.length
      let pair ← substr queryStr start (← minus stop start)
      match find pair "=" 0 with
      | some eq =>
        let key ← substr pair 0 eq
        let value ← substrFrom pair (eq + 1)
        return .next (stop + 1, params.insert key value)
      | none => return .next (stop + 1, params.insert pair [])
    else .ok (.done params)

def parseQuery (r : HttpRequest) : Except Fault HttpRequest :=
  match find r.path "?" 0 with
  | none => .ok r
  | some queryStart => do
    let queryStr ← substrFrom r.path (queryStart + 1)
    let path ← substr r.path 0 queryStart
    let queryParams ← scan Prod.fst (queryRound queryStr) queryStr.length (0, ∅)
    return { r with path, queryParams }

def headerRound (raw : Bytes) :
    Nat × StringMap → Except Fault (Loop.Step (Nat × StringMap) (Option Nat × StringMap))
  | (pos, headers) =>
    match find raw crlf pos with
    | none => .ok (.done (none, headers))
    | some lineEnd =>
      if lineEnd = pos then .ok (.done (some (lineEnd + 2), headers))
      else do
        let line ← substr raw pos (← minus lineEnd pos)
        match find line ":" 0 with
        | some colon =>
          let key ← substr line 0 colon
          let value ← substrFrom line (colon + 1)
          return .next (lineEnd + 2, headers.insert (trim key) (trim value))
        | none => return .next (lineEnd + 2, headers)

def parseHttp (r : HttpRequest) (raw : Bytes) : Except Fault HttpRequest :=
  match find raw crlf 0 with
  | none => .ok r
  | some lineEnd => do
    let requestLine ← substr raw 0 lineEnd
    let r ← parseRequestLine r requestLine
    let r ← parseQuery r
    match ← scan Prod.fst (headerRound raw) raw.length (lineEnd + 2, r.headers) with
    | (none, headers) => return { r with headers }
    | (some pos, headers) =>
      if pos < raw.length then do
        let body ← substrFrom raw pos
        return { r with headers, body }
      else return { r with headers }

/-- The constructor. -/
def parse (raw : Bytes) : Except Fault HttpRequest := parseHttp { request := raw } raw

end HttpRequest.Checked

/-! ## Views -/

/-- A view into the bytes `raw` at the address `base`. -/
structure View (base : Nat) (raw : Bytes) where
  data : Nat
  size : Nat
  low : base ≤ data
  high : data + size ≤ base + raw.length

namespace View

variable {base : Nat} {raw : Bytes}

/-- The view of all of the bytes. -/
def whole (base : Nat) (raw : Bytes) : View base raw where
  data := base
  size := raw.length
  low := Nat.le_refl _
  high := Nat.le_refl _

/-- The bytes a view shows. -/
def chars (v : View base raw) : Bytes := (raw.drop (v.data - base)).take v.size

/-- `v.substr(pos, n)`. -/
def substr (v : View base raw) (pos n : Nat) : Except Exn (View base raw) :=
  if h : pos ≤ v.size then
    .ok {
      data := v.data + pos
      size := min n (v.size - pos)
      low := Nat.le_add_right_of_le v.low
      high := by
        have := v.high
        omega }
  else .error .outOfRange

end View

namespace MultipartBodyParser.Checked

def quotedParam (headers key : Bytes) (pos : Nat) : Except Fault Bytes :=
  match find headers key pos with
  | none => .ok []
  | some keyPos =>
    match find headers "\"" (keyPos + key.length) with
    | none => .ok []
    | some endQuote => do
      return ← substr headers (keyPos + key.length) (← minus endQuote (keyPos + key.length))

def parsePart {base : Nat} {rawBody : Bytes} (parts : StringMap) (part : View base rawBody) :
    Except Fault StringMap :=
  match find part.chars crlfcrlf 0 with
  | none => .ok parts
  | some headerEnd => do
    let headers ← part.substr 0 headerEnd
    let body ← part.substr (headerEnd + 4) part.size
    match find headers.chars "Content-Disposition:" 0 with
    | none => return parts
    | some cdPos =>
      let name ← quotedParam headers.chars "name=\"" cdPos
      let _ ← quotedParam headers.chars "filename=\"" cdPos
      if name.isEmpty then return parts
      else
        let offset ← minus body.data base
        let value ← substr rawBody offset body.size
        return parts.insert name value

def delimiterRound (base : Nat) (content delimiter : Bytes) :
    Nat × StringMap → Except Fault (Loop.Step (Nat × StringMap) StringMap)
  | (pos, parts) =>
    match find content delimiter pos with
    | none => .ok (.done parts)
    | some found => do
      let start := found + delimiter.length
      let mark ← substr content start 2
      if mark = bytes "--" then return .done parts
      else
        let start := if mark = crlf then start + 2 else start
        match find content delimiter start with
        | none => return .done parts
        | some stop =>
          let part ← (View.whole base content).substr start (← minus stop start)
          let parts ← parsePart parts part
          return .next (stop, parts)

def partsOf (base : Nat) (boundary content : Bytes) : Except Fault StringMap :=
  scan Prod.fst (delimiterRound base content (bytes "--" ++ boundary)) content.length (0, ∅)

/-- `MultipartBodyParser::parse`, with `raw_body` at the address `base`. -/
def parse (base : Nat) (p : MultipartBodyParser) (contentType body : Bytes) :
    Except Fault Bool × MultipartBodyParser :=
  if find contentType "multipart/form-data" 0 = none ∨ contentType.isEmpty then (.ok false, p)
  else
    match thrown (getBoundary contentType) with
    | .error e => (.error e, p)
    | .ok boundary =>
      let p := { p with boundary }
      if boundary.isEmpty then (.ok false, p)
      else
        let p := { p with rawBody := body }
        match partsOf base boundary body with
        | .error e => (.error e, { p with parts := ∅ })
        | .ok parts => (.ok (!parts.entries.isEmpty), { p with parts })

end MultipartBodyParser.Checked

end HttpsTest
