import HttpsTest.Http.Proof.Registrations
import HttpsTest.Server.Proof.Framing
import HttpsTest.Server.Proof.Messages

/-!
# Exchanges

From a request to what becomes of its connection, in both servers. `null_dereference_iff`: where a
request has no handler the response is null, which the one server never tests and the other only
behind its first use. `agreement_iff`: what the response of `main` says about the connection
against what the server then does with it.
-/

set_option autoImplicit false

namespace HttpsTest

/-! ## Requests without a handler -/

section
variable {H σ : Type}

/-- A handler is registered for the request, or a default one. -/
def HasHandler (rs : List (Registration H)) (raw : Bytes) : Prop :=
  ∃ r ∈ rs, r.key = (RequestRouter.toUpper (requestLine raw).method, (requestLine raw).path) ∨
    r.key = RequestRouter.defaultKey

/-- The handlers return responses. -/
def Responding (call : H → IRequestHandler σ) : Prop :=
  ∀ h request s, (call h request s).1 ≠ .ok none ∧ (call h request s).1 ≠ .error .nullDereference

variable (rs : List (Registration H)) {call : H → IRequestHandler σ}

/-- What the router returns: null exactly where there is no handler. -/
theorem handleRequest_built (hcall : Responding call) {raw : Bytes} {request : IRequest}
    (hm : request.method = (requestLine raw).method) (hu : request.uri = (requestLine raw).path)
    (s : σ) : HasHandler rs raw ∧ (((RequestRouter.built rs).handleRequest call request s).1 ≠
          .ok none ∧ ((RequestRouter.built rs).handleRequest call request s).1 ≠
          .error .nullDereference) ∨
      ¬ HasHandler rs raw ∧ (RequestRouter.built rs).handleRequest call request s =
        (.ok none, s) := by
  have hnone : (RequestRouter.built rs).route request = none ↔ _ := RequestRouter.route_eq_none_iff
  rw [hm, hu] at hnone
  unfold RequestRouter.handleRequest
  cases hr : (RequestRouter.built rs).route request with
  | some h =>
    refine .inl ⟨?_, hcall h request s⟩
    by_contra hno
    rw [hnone.2 fun r hmem => not_or.1 fun hk => hno ⟨r, hmem, hk⟩] at hr
    cases hr
  | none =>
    refine .inr ⟨?_, rfl⟩
    rintro ⟨r, hmem, hk⟩
    exact not_or.2 (hnone.1 hr r hmem) hk

/-- **Null responses**: with any history of registrations of handlers that return responses, a
request leads `AsyncClientHandler` to a null response exactly if it has no handler, and the blocking
server exactly if it has no handler and is HTTP. -/
theorem null_dereference_iff (hcall : Responding call) (o : HashOrder)
    (client : AsyncClientHandler) (s : σ) :
    ((client.processRequest ((RequestRouter.built rs).handleRequest call) o s).1 ≠
        .error .nullDereference ↔ HasHandler rs client.requestData) ∧
      ((SyncHTTPServer.respond ((RequestRouter.built rs).handleRequest call)
          client.requestData s).1 ≠ .error .nullDereference ↔
        HasHandler rs client.requestData ∨
          RequestFactory.isHttp client.requestData = false) := by
  obtain ⟨request, hparse, htype, hm, hu, -⟩ := requestLine_spec client.requestData
  obtain ⟨request', hparse', hd⟩ :=
    dispatch_spec ((RequestRouter.built rs).handleRequest call) o client s
  obtain ⟨request'', hparse'', hs⟩ := SyncHTTPServer.respond_spec
    ((RequestRouter.built rs).handleRequest call) client.requestData s
  cases hparse.symm.trans hparse'
  cases hparse.symm.trans hparse''
  rw [(processRequest_eq client s).1, hd, hs]
  rcases handleRequest_built rs hcall hm hu s with ⟨hhas, hnone, hnull⟩ | ⟨hno, hres⟩
  · constructor
    · refine iff_of_true ?_ hhas
      rcases hcase : ((RequestRouter.built rs).handleRequest call request s).1 with e | _ | r
      · exact fun h => hnull (by rw [hcase]; cases h; rfl)
      · exact absurd hcase hnone
      · exact nofun
    · refine iff_of_true ?_ (.inl hhas)
      rcases hcase : ((RequestRouter.built rs).handleRequest call request s).1 with e | _ | r
      · exact fun h => hnull (by rw [hcase]; cases h; rfl)
      · exact absurd hcase hnone
      · show SyncHTTPServer.advertise request (some r) ≠ .error .nullDereference
        unfold SyncHTTPServer.advertise
        split <;> simp
  · rw [hres]
    refine ⟨iff_of_false (fun h => h rfl) hno, ?_⟩
    simp only [SyncHTTPServer.advertise, htype]
    cases RequestFactory.isHttp client.requestData with
    | true => exact iff_of_false (by simp) (by simp [hno])
    | false => exact iff_of_true (by simp) (.inr rfl)

/-- A router with the one handler of the request, and one without any. -/
theorem null_dereference_hello :
    let raw := bytes "GET /hello HTTP/1.1\r\n\r\n"
    (AsyncClientHandler.processRequest ((RequestRouter.built
        [.handler "get" "/hello" ()]).handleRequest fun _ => helloOnly) .listed
        { requestData := raw } ()).1 ≠ .error .nullDereference :=
  (@null_dereference_iff Unit Unit [.handler "get" "/hello" ()] (fun _ => helloOnly)
    (fun _ _ _ => ⟨nofun, nofun⟩) .listed
    { requestData := bytes "GET /hello HTTP/1.1\r\n\r\n" } ()).1.2
    ⟨_, List.mem_singleton_self _, .inl (by decide)⟩

end

/-- Without a registration both servers dereference the null response to an HTTP request. -/
theorem null_dereference_without_handler :
    let handler : IRequestHandler Unit :=
      (RequestRouter.built ([] : List (Registration Unit))).handleRequest fun _ => helloOnly
    let raw := bytes "GET /hello HTTP/1.1\r\n\r\n"
    (AsyncClientHandler.processRequest handler .listed { requestData := raw } ()).1 =
        .error .nullDereference ∧
      (SyncHTTPServer.respond handler raw ()).1 = .error .nullDereference :=
  ⟨by rfl, by rfl⟩

/-! ## What a response says about its connection -/

/-- The message has a `Connection` field of a value, in any letter case. -/
def Announces (text value : Bytes) : Prop :=
  ∃ v, (bytes "connection", v) ∈ fields text ∧ v.map tolower = value

/-- A message that says `keep-alive` is followed by a read, one that says `close` is not. -/
def Agrees (text : Bytes) (reads : Bool) : Prop :=
  (Announces text "keep-alive" → reads = true) ∧ (Announces text "close" → reads = false)

/-- The connection waits for its next bytes; a connection that waits for nothing is closed. -/
def Connection.reads (c : Connection) : Bool := c.pending = .read

variable {X : Externals} {s : HandlerState} {raw : Bytes} {r : HttpResponse} {o : HashOrder}

/-- What the answers of `main` say. -/
theorem Answers.announces (hr : Answers X s raw r) {value : Bytes} :
    Announces (r.str o) value ↔ handlerOf raw ≠ .userHandler ∧ value = bytes "keep-alive" := by
  have hfield {v : Bytes} : (bytes "connection", v) ∈ fields (r.str o) ↔ _ :=
    hr.answer.connection (unbroken_version raw)
  have hlower : (bytes "Keep-Alive").map tolower = bytes "keep-alive" := by decide
  constructor
  · rintro ⟨v, hv, rfl⟩
    obtain ⟨hh, rfl⟩ := hfield.1 hv
    exact ⟨hh, hlower⟩
  · rintro ⟨hh, rfl⟩
    exact ⟨_, hfield.2 ⟨hh, rfl⟩, hlower⟩

/-- What they say with the header of the blocking server. -/
theorem Answers.announces_setHeader (hr : Answers X s raw r) {said : Bytes} (hclean : Clean said)
    (htrim : trim said = said) (hlower : said.map tolower = said) {value : Bytes} :
    Announces ((r.setHeader "Connection" said).str o) value ↔ value = said := by
  have hwhole : (r.setHeader "Connection" said).Whole :=
    (hr.answer.whole (unbroken_version raw)).setHeader (by decide) hclean
  have hcolon : ∀ k v, (r.setHeader "Connection" said).headers.lookup k = some v → 58 ∉ k := by
    intro k v hkv
    rcases lookup_insert_iff.1 hkv with ⟨rfl, -⟩ | ⟨-, hkv⟩
    · decide
    · exact hr.answer.no_colon k v hkv
  have hfield {v : Bytes} :
      (bytes "connection", v) ∈ fields ((r.setHeader "Connection" said).str o) ↔ v = said := by
    rw [hwhole.mem_fields_str hcolon]
    constructor
    · rintro ⟨k, v', hkv, hk, rfl⟩
      rcases lookup_insert_iff.1 hkv with ⟨rfl, rfl⟩ | ⟨hne, hkv⟩
      · exact htrim
      · rcases hr.answer.lookup hkv with ⟨rfl, -⟩ | ⟨rfl, -⟩ | ⟨rfl, -⟩
        · exact absurd rfl hne
        · exact absurd hk (by decide)
        · exact absurd hk (by decide)
    · rintro rfl
      exact ⟨_, _, lookup_insert_iff.2 (.inl ⟨rfl, rfl⟩), by decide, htrim⟩
  constructor
  · rintro ⟨v, hv, rfl⟩
    rw [hfield.1 hv, hlower]
  · rintro rfl
    exact ⟨_, hfield.2 rfl, hlower⟩

/-- A message that says one of the two agrees with what it says. -/
theorem agrees_iff {text : Bytes} {keep reads : Bool}
    (htold : ∀ value,
      Announces text value ↔ value = if keep then bytes "keep-alive" else bytes "close") :
    Agrees text reads ↔ reads = keep := by
  have hne : bytes "keep-alive" ≠ bytes "close" := by decide
  unfold Agrees
  rw [htold, htold]
  cases keep
  · simp [hne]
  · simp [hne.symm]

/-! ## The exchanges -/

/-- A read that completes a request. -/
theorem complete_dispatched {σ : Type} {handler : IRequestHandler σ} {c c' : Connection}
    {chunk text : Bytes} {s s' : σ} (hc : c.pending = .read)
    (h : c.complete handler o (.read chunk) s = (.dispatched raw text, c', s')) :
    (∃ client : AsyncClientHandler, client.requestData = raw ∧
        (client.dispatch handler o s).1 = .ok text) ∧
      (c'.complete handler o .written s').2.1.reads =
        AsyncClientHandler.shouldKeepAlive raw := by
  unfold Connection.complete Connection.handleRead at h
  rw [hc] at h
  simp only at h
  split at h
  · have hfst := (@processRequest_eq _ handler o
      { c.client with requestData := c.client.requestData ++ chunk } s).1
    rcases processRequest_spec handler o
      { c.client with requestData := c.client.requestData ++ chunk } s with
      ⟨-, text', hp⟩ | ⟨-, e, hp⟩
    · rw [hp] at h hfst
      cases h
      refine ⟨⟨_, rfl, hfst.symm⟩, ?_⟩
      unfold Connection.complete Connection.reads
      cases AsyncClientHandler.shouldKeepAlive (c.client.requestData ++ chunk) <;> rfl
    · rw [hp] at h
      cases h
  · cases h

/-- A round of the loop that answers a request. -/
theorem round_answered {σ : Type} {handler : IRequestHandler σ} {i : SyncHTTPServer.RoundInput}
    {c c' : SyncHTTPServer.SyncConnection} {text : Bytes} {s s' : σ}
    (h : SyncHTTPServer.round handler o i c s = (.answered raw text, c', s')) :
    (∃ r, (SyncHTTPServer.respond handler raw s).1 = .ok (some r) ∧ text = r.str o) ∧
      c'.isOpen = true := by
  unfold SyncHTTPServer.round at h
  split at h
  · cases h
  · rename_i hgo
    have hopen : c.isOpen = true := by
      simp only [SyncHTTPServer.SyncConnection.goesOn, not_not, Bool.and_eq_true] at hgo
      exact hgo.2
    split at h
    · cases h
    · rename_i raw' unread hread
      rcases hres : SyncHTTPServer.respond handler raw' s with ⟨e | _ | r, t⟩
      · simp only [hres] at h
        cases h
      · simp only [hres] at h
        cases h
      · simp only [hres] at h
        split at h
        · cases h
        · cases h
          exact ⟨⟨r, by rw [hres], rfl⟩, hopen⟩

/-- Input that is no HTTP goes to the default handler. -/
theorem handlerOf_not_http {request : IRequest} (hparse : RequestFactory.parse raw = .ok request)
    (hhttp : request.type ≠ .http) : handlerOf raw = .defaultHandler := by
  obtain ⟨request', hparse', htype, -⟩ := requestLine_spec raw
  cases hparse.symm.trans hparse'
  have hraw : ¬ RequestFactory.isHttp raw = true := fun h => hhttp (by rw [htype, if_pos h])
  rw [handlerOf, requestLine, if_neg hraw]
  decide

/-- **Agreement**: with the handlers of `main`, a response agrees with what becomes of its
connection, in `AsyncClientHandler` exactly if the request goes to the user handler or the
connection is kept, in the blocking server exactly if the next round finds the server running just
when the request is no HTTP or asks for its connection to be kept. -/
theorem agreement_iff (X : Externals) (o : HashOrder) (s s' : HandlerState) (raw text : Bytes) :
    (∀ (c c' : Connection) (chunk : Bytes), c.pending = .read →
      c.complete (mainHandler X) o (.read chunk) s = (.dispatched raw text, c', s') →
      (Agrees text (c'.complete (mainHandler X) o .written s').2.1.reads ↔
        handlerOf raw = .userHandler ∨ AsyncClientHandler.shouldKeepAlive raw = true)) ∧
    ∀ (i : SyncHTTPServer.RoundInput) (c c' : SyncHTTPServer.SyncConnection) (running : Bool),
      SyncHTTPServer.round (mainHandler X) o i c s = (.answered raw text, c', s') →
      ∃ request, RequestFactory.parse raw = .ok request ∧
        (Agrees text (c'.goesOn running) ↔
          (running = true ↔ (request.type = .http → SyncHTTPServer.keepAlive request = true))) := by
  refine ⟨fun c c' chunk hc h => ?_, fun i c c' running h => ?_⟩
  · obtain ⟨⟨client, rfl, hsent⟩, hreads⟩ := complete_dispatched hc h
    obtain ⟨r, hr, rfl⟩ := dispatch_answers.1 hsent
    rw [hreads]
    unfold Agrees
    rw [hr.announces, hr.announces]
    have hne : bytes "close" ≠ bytes "keep-alive" := by decide
    by_cases huser : handlerOf client.requestData = .userHandler
    · simp [huser]
    · simp [huser, hne]
  · obtain ⟨⟨r', hrespond, rfl⟩, hopen⟩ := round_answered h
    obtain ⟨request, r, hparse, hr, rfl⟩ := respond_answers hrespond
    refine ⟨request, hparse, ?_⟩
    rw [SyncHTTPServer.SyncConnection.goesOn, hopen, Bool.and_true]
    by_cases hhttp : request.type = .http
    · rw [if_pos hhttp]
      have hagrees : Agrees ((r.setHeader "Connection" (if SyncHTTPServer.keepAlive request then
          "keep-alive" else "close")).str o) running ↔ running = SyncHTTPServer.keepAlive request :=
        agrees_iff fun value => by
          cases SyncHTTPServer.keepAlive request
          · exact hr.announces_setHeader (by decide) (by decide) (by decide)
          · exact hr.announces_setHeader (by decide) (by decide) (by decide)
      rw [hagrees, Bool.eq_iff_iff]
      simp [hhttp]
    · rw [if_neg hhttp]
      have hdefault := handlerOf_not_http hparse hhttp
      have hagrees : Agrees (r.str o) running ↔ running = true := agrees_iff fun value => by
        rw [hr.announces, hdefault]
        simp
      rw [hagrees]
      simp [hhttp]

theorem agreement_hello :
    let raw := bytes "GET /hello HTTP/1.1\r\n\r\n"
    let s : HandlerState := { clocks := fun _ => UserHandler.noonClocks }
    Agrees ((helloAnswer "HTTP/1.1").str .listed)
        ((Connection.complete (mainHandler UserHandler.fewTexts) .listed .written
          { client := { keepAlive := true }, pending := .write } s).2.1.reads) ∧
      ∃ request, RequestFactory.parse raw = .ok request ∧
        (Agrees (((helloAnswer "HTTP/1.1").setHeader "Connection" "keep-alive").str .listed)
            (SyncHTTPServer.SyncConnection.goesOn true { unread := [] }) ↔
          (true = true ↔ (request.type = .http → SyncHTTPServer.keepAlive request = true))) :=
  let s : HandlerState := { clocks := fun _ => UserHandler.noonClocks }
  ⟨((agreement_iff UserHandler.fewTexts .listed s s (bytes "GET /hello HTTP/1.1\r\n\r\n")
      ((helloAnswer "HTTP/1.1").str .listed)).1 {}
        { client := { keepAlive := true }, pending := .write }
        (bytes "GET /hello HTTP/1.1\r\n\r\n") rfl (by rfl)).2 (.inr (by decide)),
    (agreement_iff UserHandler.fewTexts .listed s s (bytes "GET /hello HTTP/1.1\r\n\r\n")
      (((helloAnswer "HTTP/1.1").setHeader "Connection" "keep-alive").str .listed)).2
        { running := true } { unread := [bytes "GET /hello HTTP/1.1\r\n\r\n"] } { unread := [] }
        true (by rfl)⟩

/-- The one server closes a connection behind `Keep-Alive`, the other reads on behind `close`. -/
theorem disagreement :
    let s : HandlerState := { clocks := fun _ => UserHandler.noonClocks }
    (∃ text c', Connection.complete (mainHandler UserHandler.fewTexts) .listed
        (.read "GET /hello HTTP/1.0\r\n\r\n") {} s =
          (.dispatched "GET /hello HTTP/1.0\r\n\r\n" text, c', s) ∧
      ¬ Agrees text (c'.complete (mainHandler UserHandler.fewTexts) .listed .written s).2.1.reads) ∧
    ∃ text c', SyncHTTPServer.round (mainHandler UserHandler.fewTexts) .listed { running := true }
        { unread := ["GET /hello HTTP/1.1\r\nConnection: close\r\n\r\n"] } s =
          (.answered "GET /hello HTTP/1.1\r\nConnection: close\r\n\r\n" text, c', s) ∧
      ¬ Agrees text (c'.goesOn true) := by
  refine ⟨⟨_, _, by rfl, fun h => ?_⟩, _, _, by rfl, fun h => ?_⟩
  · exact absurd (h.1 ⟨bytes "Keep-Alive", by decide, by decide⟩) (by decide)
  · exact absurd (h.2 ⟨bytes "close", by decide, by decide⟩) (by decide)

end HttpsTest
