import HttpsTest.Lib.Runs
import HttpsTest.Users.Handlers

/-!
# The user handler on several threads

One `UserHandler` serves every connection, on all IO threads at once. A step is a part of one call
of `handleRequest` that touches what the calls share: the mutex, the body parser and the stored
users. The users are read without the mutex, one element after the other; each of the four threads
of `handleGetEvaluation` has a loop of its own. A loop takes the end of the vector where it starts.
-/

set_option autoImplicit false

namespace HttpsTest

open UserInfo Ondemand

/-- A range-based `for` over the stored users. -/
structure UserLoop where
  seen : List User := []
  /-- The elements in front of the end the loop has taken, `none` before it starts. -/
  left : Option Nat := none

/-- The next step of a loop, `some none` where its element is gone. -/
def UserLoop.step (users : List User) (l : UserLoop) : Option (Option UserLoop) :=
  match l.left with
  | none => some (some { l with left := some users.length })
  | some 0 => none
  | some (n + 1) =>
    some ((users[l.seen.length]?).map fun u => { seen := l.seen ++ [u], left := some n })

/-- Where a call of `handleRequest` stands. -/
inductive Phase where
  | started
  /-- `try_lock` has succeeded. -/
  | locked
  /-- The body is parsed. -/
  | accepted
  /-- `users.clear()` has been called. -/
  | cleared (userJsonStr : Bytes)
  /-- `doc.get(users)` has these elements before it. -/
  | filling (vs : List Value)
  /-- In front of `m_mutex.unlock()`. -/
  | unlocking (response : Except Exn HttpResponse)
  | reading (loops : List UserLoop)
  /-- Returned, or left by an exception. -/
  | ended (response : Except Exn HttpResponse)
  /-- A loop has read behind the end of the vector. -/
  | dangling

/-- What is settled about the result. -/
def Phase.result : Phase → Option (Except Exn HttpResponse)
  | .unlocking response | .ended response => some response
  | _ => none

/-- The call holds the mutex. -/
def Phase.InSection : Phase → Prop
  | .locked | .accepted | .cleared _ | .filling _ | .unlocking _ => True
  | _ => False

/-- The call is between `users.clear()` and the end of the decoding. -/
def Phase.Writing : Phase → Prop
  | .cleared _ | .filling _ => True
  | _ => False

def Phase.Reading : Phase → Prop
  | .reading _ => True
  | _ => False

instance : DecidablePred Phase.Writing
  | .cleared _ | .filling _ => isTrue trivial
  | .started | .locked | .accepted | .unlocking _ | .reading _ | .ended _ | .dangling => isFalse id

instance : DecidablePred Phase.InSection
  | .locked | .accepted | .cleared _ | .filling _ | .unlocking _ => isTrue trivial
  | .started | .reading _ | .ended _ | .dangling => isFalse id

instance : DecidablePred Phase.Reading
  | .reading _ => isTrue trivial
  | .started | .locked | .accepted | .cleared _ | .filling _ | .unlocking _ | .ended _
  | .dangling => isFalse id

structure UserCall where
  request : IRequest
  clocks : UserHandler.Clocks
  phase : Phase := .started

namespace UserHandler

def isUpload (request : IRequest) : Bool :=
  request.method = bytes "POST" ∧ request.uri = bytes "/users"

/-- How many loops over the users a request runs. -/
def loopCount (request : IRequest) : Nat :=
  if request.method = bytes "GET" then
    if request.uri = bytes "/superusers" ∨ request.uri = bytes "/top-countries" ∨
        request.uri = bytes "/team-insights" ∨ request.uri = bytes "/active-users-per-day" then 1
    else if request.uri = bytes "/evaluation" then 4
    else 0
  else 0

/-- `handleGetEvaluation`, where its threads have seen lists of their own. -/
def evaluationOf (X : Externals) (c : Clock) (ec : EvaluationClocks) (users : Nat → List User) :
    Except Exn HttpResponse := do
  let res := (({} : HttpResponse).setStatusCode 200).setHeader "Content-Type" "application/json"
  let item ← testEndpoint X "/team-insights" (← handleGetTeamInsights X ec.teamInsights (users 0))
  let responseJson ← Json.null.pushIn "tested_endpoints" item
  let item ← testEndpoint X "/superusers" (← handleGETSuperusers X ec.superusers (users 1))
  let responseJson ← responseJson.pushIn "tested_endpoints" item
  let item ← testEndpoint X "/top-countries" (← handleGetTopCountries X ec.topCountries (users 2))
  let responseJson ← responseJson.pushIn "tested_endpoints" item
  let item ← testEndpoint X "/active-users-per-day"
    (← handleGetActiveUsers X ec.activeUsers (users 3))
  let responseJson ← responseJson.pushIn "tested_endpoints" item
  finish X c res responseJson

/-- The answer to a request that is no upload, from the users its loops have seen. -/
def replyOf (X : Externals) (c : Clocks) (request : IRequest) (users : Nat → List User) :
    Except Exn HttpResponse :=
  if request.method = bytes "GET" ∧ request.uri = bytes "/superusers" then
    handleGETSuperusers X c.own (users 0)
  else if request.method = bytes "GET" ∧ request.uri = bytes "/top-countries" then
    handleGetTopCountries X c.own (users 0)
  else if request.method = bytes "GET" ∧ request.uri = bytes "/team-insights" then
    handleGetTeamInsights X c.own (users 0)
  else if request.method = bytes "GET" ∧ request.uri = bytes "/active-users-per-day" then
    handleGetActiveUsers X c.own (users 0)
  else if request.method = bytes "GET" ∧ request.uri = bytes "/evaluation" then
    evaluationOf X c.own c.evaluation users
  else .ok (({} : HttpResponse).setStatusCode 405)

/-- The end of `handleRequest`. -/
def answer (request : IRequest) (response : Except Exn HttpResponse) : Except Exn HttpResponse :=
  response.map (·.sethttpVersion request.getVersion)

/-- The response `handlePOSTUsers` starts with. -/
def badRequest (request : IRequest) : HttpResponse :=
  (({} : HttpResponse).setStatusCode 400).sethttpVersion request.getVersion

end UserHandler

open UserHandler

/-- The next step of a call outside its loops: the handler and the phase behind it. -/
def UserCall.advance (X : Externals) (c : UserCall) (h : UserHandler) :
    Option (UserHandler × Phase) :=
  match c.phase with
  | .started =>
    if isUpload c.request then
      if h.mutex then
        some (h, .ended (answer c.request (.ok ((badRequest c.request).setBody
          "\x7b\"message\": \"Another request is being processed, please try again later.\"\x7d"))))
      else some ({ h with mutex := true }, .locked)
    else if loopCount c.request = 0 then
      some (h, .ended (answer c.request (replyOf X c.clocks c.request fun _ => [])))
    else none
  | .locked =>
    let (parsed, bodyParser) :=
      h.bodyParser.parse (c.request.getHeader "Content-Type") c.request.body
    match parsed with
    | .error e => some ({ h with bodyParser }, .ended (.error e))
    | .ok false =>
      some ({ h with bodyParser },
        .unlocking (answer c.request (finish X c.clocks.own (badRequest c.request) .null)))
    | .ok true => some ({ h with bodyParser }, .accepted)
  | .accepted => some ({ h with users := [] }, .cleared (h.bodyParser.getValue "users"))
  | .cleared userJsonStr =>
    match X.iterate userJsonStr with
    | .error e => some (h, .ended (.error (.simdjsonError e)))
    | .ok doc =>
      match doc.getArray with
      | .error _ => some (h, .unlocking (failed X c))
      | .ok vs => some (h, .filling vs)
  | .filling [] =>
    some (h, .unlocking (answer c.request (do
      finish X c.clocks.own ((badRequest c.request).setStatusCode 200)
        (← uploadReply "Arquivo recebido com sucesso" h.users.length))))
  | .filling (v :: vs) =>
    match getUser v with
    | .error _ => some (h, .unlocking (failed X c))
    | .ok user => some ({ h with users := h.users ++ [user] }, .filling vs)
  | .unlocking response => some ({ h with mutex := false }, .ended response)
  | .reading _ | .ended _ | .dangling => none
where
  /-- The answer where `parseUsers` returns false. -/
  failed (X : Externals) (c : UserCall) : Except Exn HttpResponse :=
    answer c.request (do
      finish X c.clocks.own (badRequest c.request) (← uploadReply "Erro ao processar o arquivo" 0))

/-- The loops of a call, none of them begun when it starts. -/
def UserCall.loops (c : UserCall) : Option (List UserLoop) :=
  match c.phase with
  | .started => some (List.replicate (loopCount c.request) {})
  | .reading loops => some loops
  | _ => none

/-- The next step of loop `k` of a call. The last step of the last loop settles the answer. -/
def UserCall.read (X : Externals) (c : UserCall) (users : List User) (k : Nat) : Option Phase := do
  let loops ← c.loops
  let loop ← loops[k]?
  match ← loop.step users with
  | none => some .dangling
  | some loop =>
    let loops := loops.set k loop
    if loops.all (·.left == some 0) then
      some (.ended (answer c.request
        (replyOf X c.clocks c.request fun k => (loops[k]?).elim [] (·.seen))))
    else some (.reading loops)

/-- The handler with all calls of its `handleRequest`. -/
structure SharedHandler where
  handler : UserHandler := {}
  calls : List UserCall := []

namespace SharedHandler

inductive Action where
  /-- A thread calls `handleRequest`. -/
  | call (request : IRequest) (clocks : Clocks)
  | advance (i : Nat)
  | read (i k : Nat)

/-- A step, if it can be taken. -/
def step (X : Externals) (s : SharedHandler) : Action → Option SharedHandler
  | .call request clocks => some { s with calls := s.calls ++ [{ request, clocks }] }
  | .advance i => do
    let c ← s.calls[i]?
    let (handler, phase) ← c.advance X s.handler
    some { handler, calls := s.calls.set i { c with phase } }
  | .read i k => do
    let c ← s.calls[i]?
    let phase ← c.read X s.handler.users k
    some { s with calls := s.calls.set i { c with phase } }

/-- The steps as a relation. -/
def Steps (X : Externals) (s : SharedHandler) (a : Action) (t : SharedHandler) : Prop :=
  s.step X a = some t

/-- The step lets no loop over the users run while an upload replaces them. -/
def Separate (s : SharedHandler) : Action → Prop
  | .call _ _ => True
  | .advance i => (s.calls[i]?).any (fun c => c.phase matches .accepted) →
      ∀ c ∈ s.calls, ¬ c.phase.Reading
  | .read _ _ => ∀ c ∈ s.calls, ¬ c.phase.Writing

instance (s : SharedHandler) : DecidablePred s.Separate
  | .call _ _ => inferInstanceAs (Decidable True)
  | .advance _ => inferInstanceAs (Decidable (_ → ∀ c ∈ s.calls, ¬ c.phase.Reading))
  | .read _ _ => inferInstanceAs (Decidable (∀ c ∈ s.calls, ¬ c.phase.Writing))

/-- The step is the `try_lock` of an upload that comes while another one is in its section. -/
def Refuses (s : SharedHandler) : Action → Prop
  | .advance i => (s.calls[i]?).any (fun c => isUpload c.request && c.phase matches .started) ∧
      ∃ c ∈ s.calls, c.phase.InSection
  | .call _ _ | .read _ _ => False

instance (s : SharedHandler) : DecidablePred s.Refuses
  | .advance _ => inferInstanceAs (Decidable (_ ∧ ∃ c ∈ s.calls, c.phase.InSection))
  | .call _ _ | .read _ _ => inferInstanceAs (Decidable False)

/-- The call that a step refuses, if it does. -/
def refusal (s : SharedHandler) : Action → List Nat
  | .advance i => if s.Refuses (.advance i) then [i] else []
  | .call _ _ | .read _ _ => []

/-- The calls that are refused since another upload is in its section, in the order of the run. -/
def refused (X : Externals) : SharedHandler → List Action → List Nat :=
  Runs.records (fun s a => s.step X a) refusal

/-! ## The sequential handler -/

/-- A call in the order of the sequential handler. -/
structure Entry where
  call : Nat
  request : IRequest
  clocks : Clocks
  response : Except Exn HttpResponse
  /-- The call was refused while an upload held the mutex. -/
  during : Bool

/-- The calls of the entries that an upload holding the mutex has refused. -/
def refusals (history : List Entry) : List Nat := (history.filter (·.during)).map (·.call)

/-- The sequential handler serves a call; one refused during an upload finds the mutex locked. -/
def Served (X : Externals) (h : UserHandler) (e : Entry) (h' : UserHandler) : Prop :=
  if e.during then
    handleRequest X e.clocks e.request { h with mutex := true } =
      (e.response, { h with mutex := true }) ∧ h' = h
  else handleRequest X e.clocks e.request h = (e.response, h')

/-- `history` explains the calls of `s` by the sequential handler on `h₀`: all calls whose request
is in `P`. -/
structure Explains (X : Externals) (P : IRequest → Prop) (h₀ : UserHandler)
    (history : List Entry) (s : SharedHandler) : Prop where
  /-- The responses are those of the sequential handler; where no upload is under way, it is in the
  same state. -/
  served : ∃ h, Runs.Path (Served X) h₀ history h ∧
    ((∀ c ∈ s.calls, ¬ c.phase.InSection) → s.handler = h)
  nodup : (history.map (·.call)).Nodup
  /-- The entries are calls with their responses. -/
  sound : ∀ e ∈ history, ∃ c, s.calls[e.call]? = some c ∧ c.request = e.request ∧
    c.clocks = e.clocks ∧ c.phase.result = some e.response
  /-- No response is missing. -/
  complete : ∀ i c, s.calls[i]? = some c → P c.request → c.phase.result.isSome →
    ∃ e ∈ history, e.call = i

end SharedHandler

end HttpsTest
