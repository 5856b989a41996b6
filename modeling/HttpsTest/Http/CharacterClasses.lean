import HttpsTest.Http.Router

/-!
# Arguments of the character functions

`std::isspace` and `toupper` take an `int` that is an `unsigned char` or `EOF`. Here are the
functions that call them with a `char`, which is signed, with the arguments of the calls in their
order: `trim` with its two searches, the header lines `parseHttp` applies it to, and `toUpper`. The
C library answers for a negative argument as for no white space.
-/

set_option autoImplicit false

namespace HttpsTest

/-- A `char` as an `int`. -/
def charToInt (c : UInt8) : Int := if c < 128 then c.toNat else c.toNat - 256

/-- An argument the character functions take; `EOF` is -1. -/
def Representable (ch : Int) : Prop := 0 ≤ ch ∧ ch ≤ 255 ∨ ch = -1

/-- The arguments of the calls for one request. -/
structure Arguments where
  ofIsspace : List Int := []
  ofToupper : List Int := []

namespace Arguments

/-- `std::find_if` with `!std::isspace(ch)`, and what begins with the found character. -/
def findNonSpace : Bytes → List Int × Bytes
  | [] => ([], [])
  | c :: s =>
    if isspace c then
      let (calls, rest) := findNonSpace s
      (charToInt c :: calls, rest)
    else ([charToInt c], c :: s)

/-- The lambda `trim` of `HttpRequest::parseHttp`. -/
def trim (s : Bytes) : List Int × Bytes :=
  let (calls, s) := findNonSpace s
  let (calls', rest) := findNonSpace s.reverse
  (calls ++ calls', rest.reverse)

def headerRound (raw : Bytes) : Nat × StringMap × List Int →
    Except Exn (Loop.Step (Nat × StringMap × List Int) (Option Nat × StringMap × List Int))
  | (pos, headers, calls) =>
    match find raw crlf pos with
    | none => .ok (.done (none, headers, calls))
    | some lineEnd =>
      if lineEnd = pos then .ok (.done (some (lineEnd + 2), headers, calls))
      else do
        let line ← substr raw pos (lineEnd - pos)
        match find line ":" 0 with
        | some colon =>
          let (keyCalls, key) := trim (← substr line 0 colon)
          let (valueCalls, value) := trim (← substrFrom line (colon + 1))
          .ok (.next (lineEnd + 2, headers.insert key value, calls ++ (keyCalls ++ valueCalls)))
        | none => .ok (.next (lineEnd + 2, headers, calls))

/-- `HttpRequest::parseHttp`, with the arguments of `std::isspace`. -/
def parseHttp (r : HttpRequest) (raw : Bytes) : Except Exn (HttpRequest × List Int) :=
  match find raw crlf 0 with
  | none => .ok (r, [])
  | some lineEnd => do
    let requestLine ← substr raw 0 lineEnd
    let r ← HttpRequest.parseRequestLine r requestLine
    let r ← HttpRequest.parseQuery r
    match ← Loop.run .endless (headerRound raw) (raw.length + 1) (lineEnd + 2, r.headers, []) with
    | (none, headers, calls) => .ok ({ r with headers }, calls)
    | (some pos, headers, calls) =>
      if pos < raw.length then do
        let body ← substrFrom raw pos
        .ok ({ r with headers, body }, calls)
      else .ok ({ r with headers }, calls)

/-- `RequestRouter::toUpper`. -/
def toUpper (s : Bytes) : List Int × Bytes := (s.map charToInt, RequestRouter.toUpper s)

/-- A byte string is received, parsed and routed. -/
def received (raw : Bytes) : Except Exn (IRequest × Arguments) :=
  if RequestFactory.isHttp raw then do
    let (r, ofIsspace) ← parseHttp { request := raw } raw
    let (ofToupper, _) := toUpper r.method
    .ok (.http r, { ofIsspace, ofToupper })
  else .ok (.command, { ofToupper := (toUpper IRequest.command.method).1 })

end Arguments

end HttpsTest
