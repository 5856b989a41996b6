import HttpsTest.Http.Request
import HttpsTest.Http.Response
import HttpsTest.Http.Multipart
import HttpsTest.Users.UserInfo
import HttpsTest.Users.Json

/-!
# Request handlers

`HelloHandler`, `DefaultHandler` and `UserHandler`. What the handlers call outside this repository
is collected in `Externals`; what they read from the clock is a `Clock`. `handlePOSTUsers` and
`parseUsers` change the object also when they throw, so their results are pairs of the outcome and
the state they leave.
-/

set_option autoImplicit false

namespace HttpsTest

open UserInfo

/-! ## The surroundings -/

/-- The libraries the handlers call. -/
structure Externals where
  /-- `simdjson::ondemand::parser::iterate`: an error, or the lazily read document. -/
  iterate : Bytes → Except ErrorCode Ondemand.Value
  /-- `nlohmann::json::dump`. -/
  dump : Json → Except Exn Bytes
  /-- `nlohmann::json::parse`. -/
  parseJson : Bytes → Except Exn Json
  /-- `std::exception::what`. -/
  what : Exn → Bytes
  /-- The iteration order of `std::unordered_map`. -/
  hashOrder : HashOrder
  /-- `std::sort` by descending totals. -/
  sortByTotal : List (Bytes × Int) → List (Bytes × Int)
  sort_perm : ∀ l, (sortByTotal l).Perm l
  sort_sorted : ∀ l, (sortByTotal l).Pairwise fun a b => b.2 ≤ a.2

/-- The documented behaviour of `nlohmann::json` the handlers rely on: `dump` throws only on a
string that is not valid UTF-8, what it writes is parsed again, and the texts of type errors
are plain. -/
structure Externals.Lawful (X : Externals) : Prop where
  dump_utf8 : ∀ j : Json, j.Utf8 → ∃ t, X.dump j = .ok t
  parse_dump : ∀ (j : Json) (t : Bytes), X.dump j = .ok t → ∃ j', X.parseJson t = .ok j' ∧ j'.Utf8
  what_typeError : ∀ id, ValidUtf8 (X.what (.typeError id))

/-- A broken-down UTC time. -/
structure UtcTime where
  year : Nat
  month : Nat
  day : Nat
  hour : Nat
  minute : Nat
  second : Nat

/-- What a handler reads from the clocks: the duration it measures and the current time. -/
structure Clock where
  durationMs : Int
  now : UtcTime

/-- `n` with at least `width` digits. -/
def padded (width n : Nat) : String :=
  let digits := toString n
  "".pushn '0' (width - digits.length) ++ digits

/-- `get_current_utc_timestamp`: the time as `%Y-%m-%dT%H:%M:%SZ`. -/
def getCurrentUtcTimestamp (t : UtcTime) : Bytes :=
  bytes (padded 4 t.year ++ "-" ++ padded 2 t.month ++ "-" ++ padded 2 t.day ++ "T" ++
    padded 2 t.hour ++ ":" ++ padded 2 t.minute ++ ":" ++ padded 2 t.second ++ "Z")

/-! ## The stateless handlers -/

def HelloHandler.handleRequest (request : IRequest) : HttpResponse :=
  ((({} : HttpResponse).setStatusCode 200).sethttpVersion request.getVersion).setHeader
    "Connection" "Keep-Alive"

def DefaultHandler.handleRequest (X : Externals) (c : Clock) (request : IRequest) :
    Except Exn HttpResponse := do
  let res := ((({} : HttpResponse).setStatusCode 404).sethttpVersion request.getVersion).setHeader
    "Connection" "Keep-Alive"
  let responseJson ← Json.null.set "message" (.string "Resource not found")
  let responseJson ← responseJson.set "timestamp" (.string (getCurrentUtcTimestamp c.now))
  let text ← X.dump responseJson
  return res.setBody text

/-! ## The user handler -/

structure UserHandler where
  bodyParser : MultipartBodyParser := {}
  users : List User := []
  /-- `m_mutex` is locked. -/
  mutex : Bool := false

namespace UserHandler

def setDefaultBody (c : Clock) (js : Json) : Except Exn Json := do
  let js ← js.set "execution_time_ms" (.integer c.durationMs)
  js.set "timestamp" (.string (getCurrentUtcTimestamp c.now))

/-- The end of every handler: default members, serialisation, body. -/
def finish (X : Externals) (c : Clock) (res : HttpResponse) (responseJson : Json) :
    Except Exn HttpResponse := do
  let responseJson ← setDefaultBody c responseJson
  let text ← X.dump responseJson
  return res.setBody text

/-- `parseUsers`, with the vector it decodes into. -/
def parseUsers (X : Externals) (jsonStr : Bytes) (users : List User) :
    Except Exn Bool × List User :=
  match X.iterate jsonStr with
  | .error e => (.error (.simdjsonError e), users)
  | .ok doc =>
    match doc.getVector getUser users with
    | (some _, users) => (.ok false, users)
    | (none, users) => (.ok true, users)

/-- The members that `handlePOSTUsers` sets before the default ones. -/
def uploadReply (message : Bytes) (userCount : Int) : Except Exn Json := do
  let responseJson ← Json.null.set "message" (.string message)
  responseJson.set "user_count" (.integer userCount)

def handlePOSTUsers (X : Externals) (c : Clock) (request : IRequest) (h : UserHandler) :
    Except Exn HttpResponse × UserHandler :=
  let res := (({} : HttpResponse).setStatusCode 400).sethttpVersion request.getVersion
  if h.mutex then
    (.ok (res.setBody
      "\x7b\"message\": \"Another request is being processed, please try again later.\"\x7d"), h)
  else
    let h := { h with mutex := true }
    let (parsed, bodyParser) := h.bodyParser.parse (request.getHeader "Content-Type") request.body
    let h := { h with bodyParser }
    match parsed with
    | .error e => (.error e, h)
    | .ok false => (finish X c res .null, { h with mutex := false })
    | .ok true =>
      let userJsonStr := h.bodyParser.getValue "users"
      -- the stored users are cleared before the new ones are decoded
      match parseUsers X userJsonStr [] with
      | (.error e, users) => (.error e, { h with users })
      | (.ok true, users) =>
        (do finish X c (res.setStatusCode 200)
              (← uploadReply "Arquivo recebido com sucesso" users.length),
          { h with users, mutex := false })
      | (.ok false, users) =>
        (do finish X c res (← uploadReply "Erro ao processar o arquivo" 0),
          { h with users, mutex := false })

/-! ### Read-only endpoints -/

def handleGETSuperusers (X : Externals) (c : Clock) (users : List User) :
    Except Exn HttpResponse := do
  let res := ((({} : HttpResponse).setStatusCode 200).sethttpVersion "HTTP/1.1").setHeader
    "Content-Type" "application/json"
  let usersList ← users.foldlM (fun usersList user =>
    if user.active ∧ 900 ≤ user.score then usersList.pushBack (.string user.name)
    else .ok usersList) Json.null
  let responseJson ← Json.null.set "data" usersList
  finish X c res responseJson

/-- `m[key]` after its update by `f`; a missing entry starts as `init`. -/
def update {α : Type} (m : UnorderedMap α) (key : Bytes) (init : α) (f : α → α) : UnorderedMap α :=
  m.insert key (f ((m.lookup key).getD init))

def countryCounts (users : List User) : UnorderedMap Int :=
  users.foldl (fun m user => update m user.country 0 (· + 1)) ∅

def handleGetTopCountries (X : Externals) (c : Clock) (users : List User) :
    Except Exn HttpResponse := do
  let res := ({} : HttpResponse).setStatusCode 200
  let topCountries := X.sortByTotal (UnorderedMap.items X.hashOrder (countryCounts users))
  let responseJson ← (topCountries.take 5).zipIdx.foldlM (fun js (p : (Bytes × Int) × Nat) => do
    let js ← js.setAt "countries" p.2 "country" (.string p.1.1)
    js.setAt "countries" p.2 "total" (.integer p.1.2)) Json.null
  finish X c res responseJson

/-- The local `struct team` of `handleGetTeamInsights`. -/
structure TeamCounts where
  totalMembers : Int := 0
  activeMembers : Int := 0
  leaders : Int := 0
  projects : Int := 0
  completedProjects : Int := 0
  deriving DecidableEq, Repr

/-- The updates of `teams_map[user.team.name]` for one user. -/
def addMember (t : TeamCounts) (user : User) : TeamCounts :=
  let t := { t with totalMembers := t.totalMembers + 1 }
  let t := if user.active then { t with activeMembers := t.activeMembers + 1 } else t
  let t := if user.team.leader then { t with leaders := t.leaders + 1 } else t
  user.team.projects.foldl (fun t project =>
    let t := { t with projects := t.projects + 1 }
    if project.completed then { t with completedProjects := t.completedProjects + 1 } else t) t

def teamCounts (users : List User) : UnorderedMap TeamCounts :=
  users.foldl (fun m user => update m user.team.name {} (addMember · user)) ∅

/-- The record of a team; its percentage is computed on `float`s, here on rationals. -/
def teamRecord (name : Bytes) (t : TeamCounts) : Except Exn Json := do
  let js ← Json.null.set "team" (.string name)
  let js ← js.set "total_members" (.integer t.totalMembers)
  let js ← js.set "active_percentage" (.floating (t.activeMembers * 100 / t.totalMembers))
  let js ← js.set "leaders" (.integer t.leaders)
  js.set "completed_projects" (.integer t.completedProjects)

def handleGetTeamInsights (X : Externals) (c : Clock) (users : List User) :
    Except Exn HttpResponse := do
  let res := (({} : HttpResponse).setStatusCode 200).setHeader "Content-Type" "application/json"
  let responseJson ← (UnorderedMap.items X.hashOrder (teamCounts users)).foldlM (fun js team => do
    js.pushIn "teams" (← teamRecord team.1 team.2)) Json.null
  finish X c res responseJson

def loginCounts (users : List User) : UnorderedMap Int :=
  users.foldl (fun m user => user.logs.foldl (fun m login =>
    if login.action = bytes "login" then update m login.date 0 (· + 1) else m) m) ∅

def loginRecord (date : Bytes) (total : Int) : Except Exn Json := do
  let js ← Json.null.set "date" (.string date)
  js.set "total" (.integer total)

def handleGetActiveUsers (X : Externals) (c : Clock) (users : List User) :
    Except Exn HttpResponse := do
  let res := (({} : HttpResponse).setStatusCode 200).setHeader "Content-Type" "application/json"
  let responseJson ← (UnorderedMap.items X.hashOrder (loginCounts users)).foldlM (fun js login => do
    js.pushIn "logins" (← loginRecord login.1 login.2)) Json.null
  finish X c res responseJson

/-- The lambda `test_endpoint`; its `try` block starts with the second assignment. -/
def testEndpoint (X : Externals) (endpoint : Bytes) (response : HttpResponse) :
    Except Exn Json := do
  let item ← Json.null.setIn endpoint "status" (.integer 401)
  let item ← item.setIn endpoint "status" (.integer response.statusCode)
  match (do (← X.parseJson response.body).member "execution_time_ms") with
  | .ok time =>
    let item ← item.setIn endpoint "time_ms" time
    item.setIn endpoint "valid_response" (.boolean true)
  | .error e =>
    let item ← item.setIn endpoint "valid_response" (.boolean false)
    item.setIn endpoint "error" (.string (X.what e))

/-- The clocks of the four endpoints `handleGetEvaluation` tests. -/
structure EvaluationClocks where
  teamInsights : Clock
  superusers : Clock
  topCountries : Clock
  activeUsers : Clock

/-- `handleGetEvaluation`. The endpoints run in threads of their own on the same users; what one of
them throws is thrown again where its result is asked for, in this order. -/
def handleGetEvaluation (X : Externals) (c : Clock) (ec : EvaluationClocks) (users : List User) :
    Except Exn HttpResponse := do
  let res := (({} : HttpResponse).setStatusCode 200).setHeader "Content-Type" "application/json"
  let item ← testEndpoint X "/team-insights" (← handleGetTeamInsights X ec.teamInsights users)
  let responseJson ← Json.null.pushIn "tested_endpoints" item
  let item ← testEndpoint X "/superusers" (← handleGETSuperusers X ec.superusers users)
  let responseJson ← responseJson.pushIn "tested_endpoints" item
  let item ← testEndpoint X "/top-countries" (← handleGetTopCountries X ec.topCountries users)
  let responseJson ← responseJson.pushIn "tested_endpoints" item
  let item ← testEndpoint X "/active-users-per-day" (← handleGetActiveUsers X ec.activeUsers users)
  let responseJson ← responseJson.pushIn "tested_endpoints" item
  finish X c res responseJson

/-! ### Dispatch -/

/-- What the handler of one request reads from the clocks. -/
structure Clocks where
  own : Clock
  evaluation : EvaluationClocks

/-- `handleRequest`. -/
def handleRequest (X : Externals) (c : Clocks) (request : IRequest) (h : UserHandler) :
    Except Exn HttpResponse × UserHandler :=
  let (response, h) :=
    if request.method = bytes "POST" ∧ request.uri = bytes "/users" then
      handlePOSTUsers X c.own request h
    else if request.method = bytes "GET" ∧ request.uri = bytes "/superusers" then
      (handleGETSuperusers X c.own h.users, h)
    else if request.method = bytes "GET" ∧ request.uri = bytes "/top-countries" then
      (handleGetTopCountries X c.own h.users, h)
    else if request.method = bytes "GET" ∧ request.uri = bytes "/team-insights" then
      (handleGetTeamInsights X c.own h.users, h)
    else if request.method = bytes "GET" ∧ request.uri = bytes "/active-users-per-day" then
      (handleGetActiveUsers X c.own h.users, h)
    else if request.method = bytes "GET" ∧ request.uri = bytes "/evaluation" then
      (handleGetEvaluation X c.own c.evaluation h.users, h)
    else (.ok (({} : HttpResponse).setStatusCode 405), h)
  (response.map (·.sethttpVersion request.getVersion), h)

end UserHandler

end HttpsTest
