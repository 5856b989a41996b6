import HttpsTest.Server.Proof.Routing

/-!
# Answers

What the handlers of `main` answer, as a whole: `Answer version h r` lists the responses `r` of the
handler `h` to a request of that version. `mainHandler_answer` covers every endpoint and every early
exit; the 405 of the user handler is none of them, since the router hands it its own endpoints only.
-/

set_option autoImplicit false

namespace HttpsTest

open UserHandler

def connectionHeader : StringMap := (∅ : StringMap).insert "Connection" "Keep-Alive"

def contentTypeHeader : StringMap := (∅ : StringMap).insert "Content-Type" "application/json"

/-- A response without a body. -/
def headOnly (version : Bytes) (status : Int) (headers : StringMap) : HttpResponse where
  statusCode := status
  reason := HttpStatus.toString status
  headers
  httpVersion := version

inductive Answer (version : Bytes) : Handler → HttpResponse → Prop
  | hello : Answer version .helloHandler (headOnly version 200 connectionHeader)
  | notFound (text : Bytes) :
      Answer version .defaultHandler ((headOnly version 404 connectionHeader).setBody text)
  | users (status : Int) (headers : StringMap) (text : Bytes) (hs : status = 200 ∨ status = 400)
      (hh : headers = ∅ ∨ headers = contentTypeHeader) :
      Answer version .userHandler ((headOnly version status headers).setBody text)

/-! ## Endpoints -/

/-- Where it returns, the computation returns `res` with a body. -/
def EndsWith (res : HttpResponse) (outcome : Except Exn HttpResponse) : Prop :=
  ∀ r, outcome = .ok r → ∃ text, r = res.setBody text

theorem EndsWith.bind {α : Type} {res : HttpResponse} {x : Except Exn α}
    {f : α → Except Exn HttpResponse} (h : ∀ a, EndsWith res (f a)) : EndsWith res (x >>= f) := by
  intro r hr
  obtain ⟨a, -, ha⟩ := bind_ok hr
  exact h a r ha

variable {X : Externals}

theorem endsWith_finish {c : Clock} {res : HttpResponse} {js : Json} :
    EndsWith res (finish X c res js) := by
  intro r hr
  obtain ⟨j, -, hr⟩ := bind_ok hr
  obtain ⟨text, -, hr⟩ := bind_ok hr
  cases hr
  exact ⟨text, rfl⟩

/-- An outcome whose version is set at the end. -/
theorem EndsWith.answer {res : HttpResponse} {outcome : Except Exn HttpResponse} {version : Bytes}
    (h : EndsWith res outcome) {status : Int} {headers : StringMap}
    (hs : status = 200 ∨ status = 400) (hh : headers = ∅ ∨ headers = contentTypeHeader)
    (hres : res.sethttpVersion version = headOnly version status headers) {r : HttpResponse}
    (hr : outcome.map (·.sethttpVersion version) = .ok r) : Answer version .userHandler r := by
  cases ho : outcome with
  | error e =>
    rw [ho] at hr
    cases hr
  | ok r' =>
    obtain ⟨text, rfl⟩ := h r' ho
    rw [ho] at hr
    cases hr
    show Answer version .userHandler ((res.sethttpVersion version).setBody text)
    rw [hres]
    exact .users status headers text hs hh

/-- One endpoint of the evaluation. -/
theorem EndsWith.tested {res : HttpResponse} {endpoint : Bytes}
    {handler : Except Exn HttpResponse} {js : Json} {rest : Json → Except Exn HttpResponse}
    (h : ∀ j, EndsWith res (rest j)) : EndsWith res (do
      let item ← testEndpoint X endpoint (← handler)
      let responseJson ← js.pushIn "tested_endpoints" item
      rest responseJson) :=
  .bind fun _ => .bind fun _ => .bind h

variable {c : Clocks} {h : UserHandler} {request : IRequest} {r : HttpResponse}

theorem handlePOSTUsers_endsWith (c : Clock) (request : IRequest) (h : UserHandler) :
    ∃ status, (status = 200 ∨ status = 400) ∧
      EndsWith (headOnly request.getVersion status ∅) (handlePOSTUsers X c request h).1 := by
  have hthrows {status : Int} {e : Exn} :
      EndsWith (headOnly request.getVersion status ∅) (.error e) := nofun
  unfold handlePOSTUsers
  split
  · refine ⟨400, .inr rfl, ?_⟩
    intro r hr
    cases hr
    exact ⟨_, rfl⟩
  · simp only
    rcases h.bodyParser.parse (request.getHeader "Content-Type") request.body with
      ⟨e | _ | _, bodyParser⟩
    · exact ⟨400, .inr rfl, hthrows⟩
    · exact ⟨400, .inr rfl, endsWith_finish⟩
    · simp only
      split
      · exact ⟨400, .inr rfl, hthrows⟩
      · exact ⟨200, .inl rfl, .bind fun _ => endsWith_finish⟩
      · exact ⟨400, .inr rfl, .bind fun _ => endsWith_finish⟩

/-- The user handler answers its endpoints with status 200 or 400, and a body. -/
theorem userHandler_answer
    (hroute : registeredFor request.method request.uri = some .userHandler)
    (hr : (handleRequest X c request h).1 = .ok r) : Answer request.getVersion .userHandler r := by
  have hendpoint := registeredFor_user hroute
  unfold handleRequest at hr
  split_ifs at hr with h1 h2 h3 h4 h5 h6
  · obtain ⟨status, hs, hends⟩ := handlePOSTUsers_endsWith (X := X) c.own request h
    exact hends.answer hs (.inl rfl) rfl hr
  · exact EndsWith.answer (.bind fun _ => .bind fun _ => endsWith_finish) (.inl rfl) (.inr rfl) rfl
      hr
  · exact EndsWith.answer (.bind fun _ => endsWith_finish) (.inl rfl) (.inl rfl) rfl hr
  · exact EndsWith.answer (.bind fun _ => endsWith_finish) (.inl rfl) (.inr rfl) rfl hr
  · exact EndsWith.answer (.bind fun _ => endsWith_finish) (.inl rfl) (.inr rfl) rfl hr
  · exact EndsWith.answer (.tested fun _ => .tested fun _ => .tested fun _ => .tested fun _ =>
      endsWith_finish) (.inl rfl) (.inr rfl) rfl hr
  · -- no endpoint is left for the last branch
    rcases hendpoint with hp | ⟨hm, hu | hu | hu | hu | hu⟩
    · exact absurd hp h1
    · exact absurd ⟨hm, hu⟩ h2
    · exact absurd ⟨hm, hu⟩ h3
    · exact absurd ⟨hm, hu⟩ h4
    · exact absurd ⟨hm, hu⟩ h5
    · exact absurd ⟨hm, hu⟩ h6

/-! ## The router -/

/-- The handler a byte string is handed to. -/
def handlerOf (raw : Bytes) : Handler :=
  (registeredFor (requestLine raw).method (requestLine raw).path).getD .defaultHandler

theorem getD_eq_user {handler : Option Handler}
    (h : handler.getD .defaultHandler = .userHandler) : handler = some .userHandler := by
  cases handler with
  | none => cases h
  | some handler => exact congrArg some h

theorem route_requestLine {raw : Bytes} {request : IRequest}
    (hm : request.method = (requestLine raw).method) (hu : request.uri = (requestLine raw).path) :
    router.route request = some (handlerOf raw) := by
  have hupper : ∀ method ∈ ([] :: RequestFactory.httpMethods),
      RequestRouter.toUpper method = method ∧ method ≠ bytes "*" := by decide
  obtain ⟨hupper, hstar⟩ := hupper request.method (by
    rw [hm, List.mem_cons]
    exact method_requestLine raw)
  rw [route_registered hupper hstar, hm, hu]
  rfl

/-- The status codes of the answers. -/
theorem Answer.statusCode {version : Bytes} {handler : Handler} {r : HttpResponse}
    (h : Answer version handler r) :
    r.statusCode = 200 ∨ r.statusCode = 400 ∨ r.statusCode = 404 := by
  cases h with
  | hello => exact .inl rfl
  | notFound text => exact .inr (.inr rfl)
  | users status headers text hs hh => exact hs.imp_right .inl

theorem Answer.httpVersion {version : Bytes} {handler : Handler} {r : HttpResponse}
    (h : Answer version handler r) : r.httpVersion = version := by
  cases h <;> rfl

theorem Answer.reason {version : Bytes} {handler : Handler} {r : HttpResponse}
    (h : Answer version handler r) : r.reason = HttpStatus.toString r.statusCode := by
  cases h <;> rfl

/-- **One handler for every request line**: a request whose first line has three fields is handed to
the handler registered for its method and the path in front of the first `?`, or to the default
one, and to no other; what follows in the line and behind it plays no part. The user handler has an
endpoint for all that it is handed. -/
theorem handled_once {method target version : Bytes} (hm : method ∈ RequestFactory.httpMethods)
    (hspace : 32 ∉ target) (hcr : 13 ∉ target) (hv : Lines.Unbroken 13 10 version)
    (rest : Bytes) :
    let handler := (registeredFor method (target.takeWhile (· ≠ 63))).getD .defaultHandler
    ∃ request, RequestFactory.parse
        (method ++ bytes " " ++ target ++ bytes " " ++ version ++ crlf ++ rest) = .ok request ∧
      (∀ {σ : Type} (call : Handler → IRequestHandler σ) (s : σ),
        router.handleRequest (recording call) request (s, []) =
          ((call handler request s).1, (call handler request s).2, [handler])) ∧
      (handler = .userHandler → ∀ (X : Externals) (c : Clocks) (h : UserHandler) (r : HttpResponse),
        (handleRequest X c request h).1 = .ok r → r.statusCode ≠ 405) := by
  intro handler
  obtain ⟨request, hparse, -, hmethod, huri, -⟩ := requestLine_spec
    (method ++ bytes " " ++ target ++ bytes " " ++ version ++ crlf ++ rest)
  have hroute := route_requestLine hmethod huri
  rw [handlerOf, requestLine_of_form hm hspace hcr hv rest] at hroute
  rw [requestLine_of_form hm hspace hcr hv rest] at hmethod huri
  refine ⟨request, hparse, fun call s => handleRequest_recording hroute call s, ?_⟩
  intro huser X c h r hr h405
  have hregistered : registeredFor request.method request.uri = some .userHandler := by
    rw [hmethod, huri]
    exact getD_eq_user huser
  have hstatus := (userHandler_answer hregistered hr).statusCode
  rw [h405] at hstatus
  exact absurd hstatus (by decide)

/-- An endpoint of the user handler, with a query. -/
theorem handled_once_superusers :
    ∃ request, RequestFactory.parse (bytes "GET" ++ bytes " " ++ bytes "/superusers?a=?" ++
        bytes " " ++ bytes "HTTP/1.1" ++ crlf ++ crlf) = .ok request ∧
      (∀ {σ : Type} (call : Handler → IRequestHandler σ) (s : σ),
        router.handleRequest (recording call) request (s, []) =
          ((call .userHandler request s).1, (call .userHandler request s).2, [.userHandler])) ∧
      (Handler.userHandler = .userHandler →
        ∀ (X : Externals) (c : Clocks) (h : UserHandler) (r : HttpResponse),
          (handleRequest X c request h).1 = .ok r → r.statusCode ≠ 405) :=
  handled_once (show bytes "GET" ∈ RequestFactory.httpMethods by decide)
    (show 32 ∉ bytes "/superusers?a=?" by decide) (by decide)
    (Lines.unbroken_of_notMem (.inl (show 13 ∉ bytes "HTTP/1.1" by decide))) crlf

/-- The handlers of `main`, in the state `s`, answer a byte string with a response. -/
def Answers (X : Externals) (s : HandlerState) (raw : Bytes) (r : HttpResponse) : Prop :=
  ∃ request, RequestFactory.parse raw = .ok request ∧ (mainHandler X request s).1 = .ok (some r)

variable {s : HandlerState} {raw : Bytes}

/-- **What `main` answers** to a byte string. -/
theorem Answers.answer (hr : Answers X s raw r) :
    Answer (requestLine raw).version (handlerOf raw) r := by
  obtain ⟨request, hparse, hr⟩ := hr
  obtain ⟨request', hparse', -, hm, hu, hv⟩ := requestLine_spec raw
  cases hparse.symm.trans hparse'
  unfold mainHandler RequestRouter.handleRequest at hr
  rw [route_requestLine hm hu] at hr
  rw [← hv]
  have hsome {x : Except Exn HttpResponse} (hx : x.map some = .ok (some r)) : x = .ok r := by
    cases x with
    | error e => cases hx
    | ok r' => cases hx; rfl
  cases hh : handlerOf raw with
  | helloHandler =>
    rw [hh] at hr
    cases hr
    exact .hello
  | defaultHandler =>
    rw [hh] at hr
    have hends : EndsWith (headOnly request.getVersion 404 connectionHeader)
        (DefaultHandler.handleRequest X (s.clocks 0).own request) :=
      .bind fun _ => .bind fun _ => .bind fun text _ ht => ⟨text, by cases ht; rfl⟩
    obtain ⟨text, rfl⟩ := hends r (hsome hr)
    exact .notFound text
  | userHandler =>
    have hroute : registeredFor request.method request.uri = some .userHandler := by
      rw [hm, hu]
      exact getD_eq_user hh
    rw [hh] at hr
    exact userHandler_answer hroute (hsome hr)

/-- The hello handler answers whatever it is handed. -/
theorem answers_hello (hh : handlerOf raw = .helloHandler) : ∃ r, Answers X s raw r := by
  obtain ⟨request, hparse, -, hm, hu, -⟩ := requestLine_spec raw
  refine ⟨HelloHandler.handleRequest request, request, hparse, ?_⟩
  rw [mainHandler, RequestRouter.handleRequest, route_requestLine hm hu, hh]
  rfl

/-- What `processRequest` sends is the text of an answer. -/
theorem dispatch_answers {o : HashOrder} {client : AsyncClientHandler} {text : Bytes} :
    (client.dispatch (mainHandler X) o s).1 = .ok text ↔
      ∃ r, Answers X s client.requestData r ∧ text = r.str o := by
  obtain ⟨request, hparse, hd⟩ := dispatch_spec (mainHandler X) o client s
  rw [hd]
  unfold Answers
  simp only [hparse, Except.ok.injEq]
  constructor
  · intro ht
    split at ht
    · cases ht
    · cases ht
    · rename_i r hr
      cases ht
      exact ⟨r, ⟨request, rfl, hr⟩, rfl⟩
  · rintro ⟨r, ⟨request', rfl, hr⟩, rfl⟩
    rw [hr]

end HttpsTest
