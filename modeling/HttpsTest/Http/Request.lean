import HttpsTest.Base

/-!
# Requests

`HttpRequest::parseHttp`, `CommandRequest` and `RequestFactory::parse`. The positions are those of
the source, and every `substr` can throw; `HttpRequest.parse_ok` shows that none does and that
the loops over the query string and the header lines end: each round moves its position
forward.
-/

set_option autoImplicit false

namespace HttpsTest

structure HttpRequest where
  request : Bytes
  method : Bytes := []
  path : Bytes := []
  body : Bytes := []
  httpVersion : Bytes := []
  headers : StringMap := ∅
  queryParams : StringMap := ∅

namespace HttpRequest

/-! ## The parser -/

/-- The request line: method, path with its query string, version. -/
def parseRequestLine (r : HttpRequest) (requestLine : Bytes) : Except Exn HttpRequest :=
  match find requestLine " " 0 with
  | none => .ok { r with method := requestLine }
  | some firstSpace => do
    let method ← substr requestLine 0 firstSpace
    match find requestLine " " (firstSpace + 1) with
    | none =>
      let path ← substrFrom requestLine (firstSpace + 1)
      .ok { r with method, path }
    | some secondSpace =>
      let path ← substr requestLine (firstSpace + 1) (secondSpace - firstSpace - 1)
      let httpVersion ← substrFrom requestLine (secondSpace + 1)
      .ok { r with method, path, httpVersion }

/-- One round of the loop over the pairs of the query string. -/
def queryRound (queryStr : Bytes) :
    Nat × StringMap → Except Exn (Loop.Step (Nat × StringMap) StringMap)
  | (start, params) =>
    if start < queryStr.length then do
      let stop := (find queryStr "&" start).getD queryStr.length
      let pair ← substr queryStr start (stop - start)
      match find pair "=" 0 with
      | some eq =>
        let key ← substr pair 0 eq
        let value ← substrFrom pair (eq + 1)
        .ok (.next (stop + 1, params.insert key value))
      | none => .ok (.next (stop + 1, params.insert pair []))
    else .ok (.done params)

/-- The query string is cut off the path and its pairs are stored. -/
def parseQuery (r : HttpRequest) : Except Exn HttpRequest :=
  match find r.path "?" 0 with
  | none => .ok r
  | some queryStart => do
    let queryStr ← substrFrom r.path (queryStart + 1)
    let path ← substr r.path 0 queryStart
    let queryParams ← Loop.run .endless (queryRound queryStr) (queryStr.length + 1) (0, ∅)
    .ok { r with path, queryParams }

/-- One round of the loop over the header lines, which ends with the position of the body, or
with `none` where `parseHttp` returns at an unterminated line. -/
def headerRound (raw : Bytes) :
    Nat × StringMap → Except Exn (Loop.Step (Nat × StringMap) (Option Nat × StringMap))
  | (pos, headers) =>
    match find raw crlf pos with
    | none => .ok (.done (none, headers))
    | some lineEnd =>
      if lineEnd = pos then .ok (.done (some (lineEnd + 2), headers))
      else do
        let line ← substr raw pos (lineEnd - pos)
        match find line ":" 0 with
        | some colon =>
          let key ← substr line 0 colon
          let value ← substrFrom line (colon + 1)
          .ok (.next (lineEnd + 2, headers.insert (trim key) (trim value)))
        | none => .ok (.next (lineEnd + 2, headers))

/-- `HttpRequest::parseHttp`. -/
def parseHttp (r : HttpRequest) (raw : Bytes) : Except Exn HttpRequest :=
  match find raw crlf 0 with
  | none => .ok r
  | some lineEnd => do
    let requestLine ← substr raw 0 lineEnd
    let r ← parseRequestLine r requestLine
    let r ← parseQuery r
    match ← Loop.run .endless (headerRound raw) (raw.length + 1) (lineEnd + 2, r.headers) with
    | (none, headers) => .ok { r with headers }
    | (some pos, headers) =>
      if pos < raw.length then do
        let body ← substrFrom raw pos
        .ok { r with headers, body }
      else .ok { r with headers }

/-- The constructor. -/
def parse (raw : Bytes) : Except Exn HttpRequest := parseHttp { request := raw } raw

def getHeader (r : HttpRequest) (name : Bytes) : Bytes := r.headers.get name

def getQueryParam (r : HttpRequest) (name : Bytes) : Bytes := r.queryParams.get name

end HttpRequest

/-! ## The interface -/

/-- `IRequest`: a parsed HTTP request, or a `CommandRequest`, which stores nothing. -/
inductive IRequest where
  | http (r : HttpRequest)
  | command

namespace IRequest

/-- `IRequest::RequestType`, of which `HttpRequest` answers `Http` and `CommandRequest` `Grpc`. -/
inductive RequestType where
  | http | command | grpc | unknown
  deriving DecidableEq, Repr

def type : IRequest → RequestType
  | http _ => .http
  | command => .grpc

def method : IRequest → Bytes
  | http r => r.method
  | command => []

def uri : IRequest → Bytes
  | http r => r.path
  | command => []

def getVersion : IRequest → Bytes
  | http r => r.httpVersion
  | command => []

def getHeader : IRequest → Bytes → Bytes
  | http r, name => r.getHeader name
  | command, _ => []

def body : IRequest → Bytes
  | http r => r.body
  | command => []

def getQueryParam : IRequest → Bytes → Bytes
  | http r, name => r.getQueryParam name
  | command, _ => []

end IRequest

namespace RequestFactory

def httpMethods : List Bytes := ["GET", "POST", "PUT", "DELETE", "HEAD", "OPTIONS", "PATCH"]

def isHttp (raw : Bytes) : Bool :=
  httpMethods.any fun method => startsWith raw (method ++ bytes " ")

/-- `RequestFactory::parse`. -/
def parse (raw : Bytes) : Except Exn IRequest :=
  if isHttp raw then (HttpRequest.parse raw).map .http else .ok .command

end RequestFactory

/-! ## Parsing always succeeds -/

/-- Cutting a string at a found character. -/
theorem cut_ok {s sep : Bytes} {pos i : Nat} (h : find s sep pos = some i) (hsep : sep.length = 1) :
    substr s 0 i = .ok (s.take i) ∧ substrFrom s (i + 1) = .ok (s.drop (i + 1)) := by
  have hb := (find_bound h).2
  exact ⟨by rw [substr_ok _ (Nat.zero_le _), List.drop_zero], substrFrom_ok (by omega)⟩

namespace HttpRequest

theorem parseRequestLine_ok (r : HttpRequest) (line : Bytes) :
    ∃ r', parseRequestLine r line = .ok r' := by
  unfold parseRequestLine
  cases h1 : find line " " 0 with
  | none => exact ⟨_, rfl⟩
  | some first =>
    obtain ⟨hm, hp⟩ := cut_ok h1 rfl
    simp only [hm, hp, bind, Except.bind]
    cases h2 : find line " " (first + 1) with
    | none => exact ⟨_, rfl⟩
    | some second =>
      have hb := find_bound h2
      simp only [substr_ok _ (show first + 1 ≤ line.length by omega), (cut_ok h2 rfl).2]
      exact ⟨_, rfl⟩

/-- A round of the query loop stores a pair and moves past its `&`, or ends the loop. -/
theorem queryRound_ok (q : Bytes) (s : Nat × StringMap) :
    (∃ s', queryRound q s = .ok (.next s') ∧ s.1 < q.length ∧ s.1 < s'.1) ∨
      queryRound q s = .ok (.done s.2) := by
  obtain ⟨start, params⟩ := s
  simp only [queryRound]
  by_cases hs : start < q.length
  · left
    have hstop : start ≤ (find q "&" start).getD q.length := by
      cases h : find q "&" start with
      | none => exact hs.le
      | some e => exact (find_bound h).1
    simp only [if_pos hs, substr_ok _ hs.le, bind, Except.bind]
    cases heq : find ((q.drop start).take ((find q "&" start).getD q.length - start)) "=" 0 with
    | none => exact ⟨_, rfl, hs, Nat.lt_succ_of_le hstop⟩
    | some eq =>
      obtain ⟨hk, hv⟩ := cut_ok heq rfl
      simp only [hk, hv]
      exact ⟨_, rfl, hs, Nat.lt_succ_of_le hstop⟩
  · exact .inr (if_neg hs)

theorem queryLoop_ok (q : Bytes) (s : Nat × StringMap) :
    ∃ params, Loop.run .endless (queryRound q) (q.length + 1) s = .ok params := by
  obtain ⟨b, hb, -⟩ := Loop.run_total Exn.endless (queryRound q)
    (fun _ => True) (fun s => q.length - s.1) (fun _ => True) (fun s _ => by
      rcases queryRound_ok q s with ⟨s', h, hlt, hmove⟩ | h
      · exact .inl ⟨s', h, trivial, by omega⟩
      · exact .inr ⟨_, h, trivial⟩) (q.length + 1) s trivial (by omega)
  exact ⟨b, hb⟩

theorem parseQuery_ok (r : HttpRequest) : ∃ r', parseQuery r = .ok r' := by
  unfold parseQuery
  cases h : find r.path "?" 0 with
  | none => exact ⟨_, rfl⟩
  | some start =>
    obtain ⟨hp, hq⟩ := cut_ok h rfl
    obtain ⟨params, hl⟩ := queryLoop_ok (r.path.drop (start + 1)) (0, ∅)
    simp only [hp, hq, hl, bind, Except.bind]
    exact ⟨_, rfl⟩

/-- A round of the header loop moves past a line, or ends the loop at a position in the string. -/
theorem headerRound_ok (raw : Bytes) (s : Nat × StringMap) :
    (∃ s', headerRound raw s = .ok (.next s') ∧ s.1 < s'.1 ∧ s'.1 ≤ raw.length) ∨
      ∃ b, headerRound raw s = .ok (.done b) ∧ ∀ p, b.1 = some p → p ≤ raw.length := by
  obtain ⟨pos, headers⟩ := s
  simp only [headerRound]
  cases h : find raw crlf pos with
  | none => exact .inr ⟨_, rfl, by simp⟩
  | some lineEnd =>
    obtain ⟨hle, hb⟩ := find_bound h
    have hlen : crlf.length = 2 := rfl
    by_cases hend : lineEnd = pos
    · simp only [if_pos hend]
      exact .inr ⟨_, rfl, fun p hp => by
        rw [← Option.some.inj hp]
        omega⟩
    · left
      have hmove : pos < lineEnd + 2 ∧ lineEnd + 2 ≤ raw.length := by omega
      simp only [if_neg hend, substr_ok _ (show pos ≤ raw.length by omega), bind, Except.bind]
      cases hc : find ((raw.drop pos).take (lineEnd - pos)) ":" 0 with
      | none => exact ⟨_, rfl, hmove⟩
      | some colon =>
        obtain ⟨hk, hv⟩ := cut_ok hc rfl
        simp only [hk, hv]
        exact ⟨_, rfl, hmove⟩

theorem headerLoop_ok (raw : Bytes) (s : Nat × StringMap) :
    ∃ b, Loop.run .endless (headerRound raw) (raw.length + 1) s = .ok b ∧
      ∀ p, b.1 = some p → p ≤ raw.length :=
  Loop.run_total Exn.endless (headerRound raw)
    (fun _ => True) (fun s => raw.length - s.1) (fun b => ∀ p, b.1 = some p → p ≤ raw.length)
    (fun s _ => by
      rcases headerRound_ok raw s with ⟨s', h, hmove, hle⟩ | ⟨b, h, hb⟩
      · exact .inl ⟨s', h, trivial, by omega⟩
      · exact .inr ⟨b, h, hb⟩) (raw.length + 1) s trivial (by omega)

theorem parseHttp_ok (r : HttpRequest) (raw : Bytes) : ∃ r', parseHttp r raw = .ok r' := by
  unfold parseHttp
  cases find raw crlf 0 with
  | none => exact ⟨_, rfl⟩
  | some lineEnd =>
    obtain ⟨r1, h1⟩ := parseRequestLine_ok r ((raw.drop 0).take lineEnd)
    obtain ⟨r2, h2⟩ := parseQuery_ok r1
    obtain ⟨⟨pos, headers⟩, h3, hpos⟩ := headerLoop_ok raw (lineEnd + 2, r2.headers)
    simp only [substr_ok _ (Nat.zero_le _), bind, Except.bind, h1, h2, h3]
    cases pos with
    | none => exact ⟨_, rfl⟩
    | some pos =>
      by_cases hlt : pos < raw.length
      · simp only [if_pos hlt, substrFrom_ok hlt.le]
        exact ⟨_, rfl⟩
      · simp only [if_neg hlt]
        exact ⟨_, rfl⟩

/-- The constructor returns for every byte string. -/
theorem parse_ok (raw : Bytes) : ∃ r, parse raw = .ok r := parseHttp_ok _ raw

end HttpRequest

theorem RequestFactory.parse_ok (raw : Bytes) : ∃ r, RequestFactory.parse raw = .ok r := by
  unfold RequestFactory.parse
  obtain ⟨r, hr⟩ := HttpRequest.parse_ok raw
  split
  · exact ⟨.http r, by rw [hr]; rfl⟩
  · exact ⟨_, rfl⟩

end HttpsTest
