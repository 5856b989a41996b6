import HttpsTest.Http.Proof.Serialization
import HttpsTest.Server.Proof.Answers
import HttpsTest.Server.SyncHTTPServer
import HttpsTest.Users.Proof.Upload

/-!
# Answers as messages

What a client reads in the texts the servers send: the answers of `main` hold whole lines, so the
client finds the status line and the headers that were written. `self_delimiting_iff`: a length is
announced exactly where the answer is not that of the hello handler. `clean_head_iff` and
`statusLine_iff`: the version of the request line is the one part of the head that comes from the
request, and decides whether a line break stands in the head and whether the status line is well
formed.
-/

set_option autoImplicit false

namespace HttpsTest

open Search HttpResponse

/-! ## The headers of an answer -/

theorem lookup_insert_iff {m : StringMap} {k k' v v' : Bytes} :
    (m.insert k v).lookup k' = some v' ↔ k' = k ∧ v' = v ∨ k' ≠ k ∧ m.lookup k' = some v' := by
  by_cases hk : k' = k
  · subst hk
    rw [AList.lookup_insert]
    simp [eq_comm]
  · rw [AList.lookup_insert_ne hk]
    simp [hk]

theorem lookup_connectionHeader {k v : Bytes} :
    connectionHeader.lookup k = some v ↔ k = bytes "Connection" ∧ v = bytes "Keep-Alive" := by
  rw [connectionHeader, lookup_insert_iff]
  simp

theorem lookup_contentTypeHeader {k v : Bytes} : contentTypeHeader.lookup k = some v ↔
    k = bytes "Content-Type" ∧ v = bytes "application/json" := by
  rw [contentTypeHeader, lookup_insert_iff]
  simp

variable {version : Bytes} {handler : Handler} {r : HttpResponse} {o : HashOrder}

/-- A header of an answer. -/
theorem Answer.lookup (h : Answer version handler r) {k v : Bytes}
    (hkv : r.headers.lookup k = some v) :
    k = bytes "Connection" ∧ handler ≠ .userHandler ∧ v = bytes "Keep-Alive" ∨
      k = bytes "Content-Length" ∧ handler ≠ .helloHandler ∧ v = decimal r.body.length ∨
      k = bytes "Content-Type" ∧ v = bytes "application/json" := by
  cases h with
  | hello =>
    obtain ⟨hk, hv⟩ := lookup_connectionHeader.1 hkv
    exact .inl ⟨hk, by decide, hv⟩
  | notFound text =>
    rcases lookup_insert_iff.1 hkv with ⟨hk, hv⟩ | ⟨-, hkv⟩
    · exact .inr (.inl ⟨hk, by decide, hv⟩)
    · obtain ⟨hk, hv⟩ := lookup_connectionHeader.1 hkv
      exact .inl ⟨hk, by decide, hv⟩
  | users status headers text hs hh =>
    rcases lookup_insert_iff.1 hkv with ⟨hk, hv⟩ | ⟨-, hkv⟩
    · exact .inr (.inl ⟨hk, by decide, hv⟩)
    · rcases hh with rfl | rfl
      · cases hkv
      · exact .inr (.inr (lookup_contentTypeHeader.1 hkv))

/-- The headers every answer of a handler has. -/
theorem Answer.has (h : Answer version handler r) :
    (handler ≠ .userHandler → r.headers.lookup (bytes "Connection") = some (bytes "Keep-Alive")) ∧
      (handler ≠ .helloHandler →
        r.headers.lookup (bytes "Content-Length") = some (decimal r.body.length)) := by
  have hne : bytes "Connection" ≠ bytes "Content-Length" := by decide
  cases h with
  | hello => exact ⟨fun _ => rfl, fun h => absurd rfl h⟩
  | notFound text =>
    exact ⟨fun _ => lookup_insert_iff.2 (.inr ⟨hne, rfl⟩),
      fun _ => lookup_insert_iff.2 (.inl ⟨rfl, rfl⟩)⟩
  | users => exact ⟨fun h => absurd rfl h, fun _ => lookup_insert_iff.2 (.inl ⟨rfl, rfl⟩)⟩

/-! ## Whole lines -/

theorem headOnly_whole {status : Int} (hs : status = 200 ∨ status = 400 ∨ status = 404)
    (hv : Lines.Unbroken 13 10 version) : (headOnly version status ∅).Whole where
  version := hv
  status := by
    have hall : ∀ status ∈ [200, 400, 404], Clean (headOnly [] status ∅).status := by decide
    exact hall status (by simpa using hs)
  headers k v hkv := by cases hkv

/-- The lines of an answer are whole, where its version holds no line end. -/
theorem Answer.whole (h : Answer version handler r) (hv : Lines.Unbroken 13 10 version) :
    r.Whole := by
  have hconnection : Clean (bytes "Connection") ∧ Clean (bytes "Keep-Alive") := by decide
  have htype : Clean (bytes "Content-Type") ∧ Clean (bytes "application/json") := by decide
  cases h with
  | hello => exact (headOnly_whole (.inl rfl) hv).setHeader hconnection.1 hconnection.2
  | notFound text =>
    have hhead := headOnly_whole (.inr (.inr rfl)) hv
    exact (hhead.setHeader hconnection.1 hconnection.2).setBody text
  | users status headers text hs hh =>
    have hhead := headOnly_whole (hs.imp_right .inl) hv
    rcases hh with rfl | rfl
    · exact hhead.setBody text
    · exact (hhead.setHeader htype.1 htype.2).setBody text

/-- The names of the headers hold no colon. -/
theorem Answer.no_colon (h : Answer version handler r) :
    ∀ k v, r.headers.lookup k = some v → 58 ∉ k := by
  intro k v hkv
  rcases h.lookup hkv with ⟨rfl, -⟩ | ⟨rfl, -⟩ | ⟨rfl, -⟩ <;> decide

/-- What an answer says about its connection. -/
theorem Answer.connection (h : Answer version handler r) (hv : Lines.Unbroken 13 10 version)
    {value : Bytes} : (bytes "connection", value) ∈ fields (r.str o) ↔
      handler ≠ .userHandler ∧ value = bytes "Keep-Alive" := by
  rw [(h.whole hv).mem_fields_str h.no_colon]
  refine ⟨fun hfield => ?_, fun hh => ?_⟩
  · obtain ⟨k, v, hkv, hk, rfl⟩ := hfield
    rcases h.lookup hkv with ⟨rfl, hh, rfl⟩ | ⟨rfl, -⟩ | ⟨rfl, -⟩
    · exact ⟨hh, by decide⟩
    · exact absurd hk (by decide)
    · exact absurd hk (by decide)
  · exact ⟨bytes "Connection", bytes "Keep-Alive", h.has.1 hh.1, by decide, by rw [hh.2]; decide⟩

/-- What an answer says about its length. -/
theorem Answer.contentLength (h : Answer version handler r) (hv : Lines.Unbroken 13 10 version)
    {value : Bytes} : (bytes "content-length", value) ∈ fields (r.str o) ↔
      handler ≠ .helloHandler ∧ value = decimal r.body.length := by
  rw [(h.whole hv).mem_fields_str h.no_colon]
  refine ⟨fun hfield => ?_, fun hh => ?_⟩
  · obtain ⟨k, v, hkv, hk, rfl⟩ := hfield
    rcases h.lookup hkv with ⟨rfl, -⟩ | ⟨rfl, hh, rfl⟩ | ⟨rfl, -⟩
    · exact absurd hk (by decide)
    · exact ⟨hh, trim_decimal _⟩
    · exact absurd hk (by decide)
  · exact ⟨bytes "Content-Length", decimal r.body.length, h.has.2 hh.1, by decide,
      by rw [hh.2, trim_decimal]⟩

/-! ## The length of a message -/

/-- The header block ends, and one of its fields is the number of bytes behind it. -/
def SelfDelimiting (text : Bytes) : Prop :=
  (find text crlfcrlf 0).isSome ∧
    (bytes "content-length", decimal (payload text).length) ∈ fields text

variable {X : Externals} {s : HandlerState} {raw : Bytes}

/-- The hello handler stands for one method and one path. -/
theorem handlerOf_hello : handlerOf raw = .helloHandler ↔
    (requestLine raw).method = bytes "GET" ∧ (requestLine raw).path = bytes "/hello" := by
  refine ⟨fun h => ?_, fun h => ?_⟩
  · unfold handlerOf at h
    cases hr : registeredFor (requestLine raw).method (requestLine raw).path with
    | none => rw [hr] at h; cases h
    | some handler =>
      rw [hr, Option.getD_some] at h
      subst h
      exact registeredFor_hello hr
  · rw [handlerOf, h.1, h.2]
    decide

/-- **Self-delimiting responses**: where the connection is kept, what is sent announces its length,
exactly if the request is not the one of the hello handler. -/
theorem self_delimiting_iff (X : Externals) (o : HashOrder) (s : HandlerState)
    (client : AsyncClientHandler) :
    (AsyncClientHandler.shouldKeepAlive client.requestData = true →
      ∀ text, (client.dispatch (mainHandler X) o s).1 = .ok text → SelfDelimiting text) ↔
    ¬ (AsyncClientHandler.shouldKeepAlive client.requestData = true ∧
      (requestLine client.requestData).method = bytes "GET" ∧
      (requestLine client.requestData).path = bytes "/hello") := by
  rw [← handlerOf_hello, not_and]
  refine imp_congr_right fun _ => ?_
  have hv := unbroken_version client.requestData
  refine ⟨fun h hhello => ?_, fun hne text ht => ?_⟩
  · obtain ⟨r, hr⟩ : ∃ r, Answers X s client.requestData r := answers_hello hhello
    obtain ⟨-, hlength⟩ := h _ (dispatch_answers.2 ⟨r, hr, rfl⟩)
    exact (hr.answer.contentLength hv).1 hlength |>.1 hhello
  · obtain ⟨r, hr, rfl⟩ := dispatch_answers.1 ht
    have hwhole := hr.answer.whole hv
    refine ⟨by rw [hwhole.find_str]; rfl, ?_⟩
    rw [hwhole.payload_str]
    exact (hr.answer.contentLength hv).2 ⟨hne, rfl⟩

/-- The hello handler sends no length on a connection that is kept. -/
theorem hello_not_delimiting :
    let client : AsyncClientHandler := { requestData := "GET /hello HTTP/1.1\r\n\r\n" }
    AsyncClientHandler.shouldKeepAlive client.requestData = true ∧
      ∃ text, (client.dispatch (mainHandler UserHandler.fewTexts) .listed
          { clocks := fun _ => UserHandler.noonClocks }).1 = .ok text ∧
        ¬ SelfDelimiting text := by
  refine ⟨by decide, bytes "HTTP/1.1 200 OK\r\nConnection: Keep-Alive\r\n\r\n", by decide, ?_⟩
  intro h
  exact absurd h.2 (by decide)

/-! ## Line breaks in the head -/

/-- A response that one of the servers writes in answer to a byte string. -/
def Responds (X : Externals) (s : HandlerState) (raw : Bytes) (r : HttpResponse) : Prop :=
  Answers X s raw r ∨ (SyncHTTPServer.respond (mainHandler X) raw s).1 = .ok (some r)

/-- The blocking server writes an answer, which it may have given a header of its own. -/
theorem respond_answers (hr : (SyncHTTPServer.respond (mainHandler X) raw s).1 = .ok (some r)) :
    ∃ request r₀, RequestFactory.parse raw = .ok request ∧ Answers X s raw r₀ ∧
      r = if request.type = .http then
          r₀.setHeader "Connection"
            (if SyncHTTPServer.keepAlive request then "keep-alive" else "close")
        else r₀ := by
  obtain ⟨request, hparse, hrespond⟩ := SyncHTTPServer.respond_spec (mainHandler X) raw s
  rw [hrespond] at hr
  cases hh : (mainHandler X request s).1 with
  | error e => simp [hh] at hr
  | ok response =>
    simp only [hh, SyncHTTPServer.advertise] at hr
    cases response with
    | none =>
      split at hr
      · cases hr
      · cases hr
    | some r₀ =>
      refine ⟨request, r₀, hparse, ⟨request, hparse, hh⟩, ?_⟩
      split at hr
      · rename_i hhttp
        rw [if_pos hhttp]
        cases hr
        rfl
      · rename_i hhttp
        rw [if_neg hhttp]
        cases hr
        rfl

/-- What is written holds whole lines and begins with the version of the request. -/
theorem Responds.shape (hr : Responds X s raw r) :
    r.Whole ∧ r.httpVersion = (requestLine raw).version := by
  have hanswers {r : HttpResponse} (h : Answers X s raw r) :
      r.Whole ∧ r.httpVersion = (requestLine raw).version :=
    ⟨h.answer.whole (unbroken_version raw), h.answer.httpVersion⟩
  rcases hr with hr | hr
  · exact hanswers hr
  · obtain ⟨request, r₀, -, hr₀, rfl⟩ := respond_answers hr
    obtain ⟨hwhole, hversion⟩ := hanswers hr₀
    split
    · refine ⟨hwhole.setHeader (by decide) ?_, hversion⟩
      split <;> decide
    · exact ⟨hwhole, hversion⟩

/-- **Line breaks in the head**: the head of what is written falls into the lines that were written,
none of which holds a CR or an LF, exactly if the version of the request holds none. -/
theorem clean_head_iff (hr : Responds X s raw r) (o : HashOrder) :
    (headLines (r.str o) = r.lines o ∧ ∀ line ∈ headLines (r.str o), Clean line) ↔
      Clean (requestLine raw).version := by
  obtain ⟨hwhole, hversion⟩ := hr.shape
  rw [hwhole.headLines_str, ← hversion]
  refine ⟨fun h => ?_, fun hclean => ?_⟩
  · exact (clean_append.1 (h.2 _ List.mem_cons_self)).1
  · refine ⟨rfl, fun line hline => ?_⟩
    rcases List.mem_cons.1 hline with rfl | hline
    · exact clean_append.2 ⟨hclean, hwhole.status⟩
    · exact hwhole.clean_fields hline

/-- The answer of the hello handler to a request of the given version. -/
def helloAnswer (version : Bytes) : HttpResponse := headOnly version 200 connectionHeader

theorem clean_head_hello :
    headLines ((helloAnswer "HTTP/1.1").str .listed) = (helloAnswer "HTTP/1.1").lines .listed ∧
      ∀ line ∈ headLines ((helloAnswer "HTTP/1.1").str .listed), Clean line :=
  (@clean_head_iff (helloAnswer "HTTP/1.1") UserHandler.fewTexts
    { clocks := fun _ => UserHandler.noonClocks }
    "GET /hello HTTP/1.1\r\n\r\n" (.inl ⟨_, rfl, by rfl⟩) .listed).2 (by decide)

/-- An LF in the request line starts a line of the response. -/
theorem version_breaks_head :
    ∃ r, Responds UserHandler.fewTexts { clocks := fun _ => UserHandler.noonClocks }
        "GET /hello HTTP/1.1\nSet-Cookie: a\r\n\r\n" r ∧
      ¬ ∀ line ∈ headLines (r.str .listed), Clean line :=
  ⟨helloAnswer "HTTP/1.1\nSet-Cookie: a", .inl ⟨_, rfl, by rfl⟩, by decide⟩

/-! ## The status line -/

/-- A notion of version token. -/
structure VersionToken where
  ok : Bytes → Prop
  plain : ∀ v, ok v → v ≠ [] ∧ 32 ∉ v

def StatusCode (code : Bytes) : Prop := code.length = 3 ∧ ∀ c ∈ code, 48 ≤ c ∧ c ≤ 57

instance (code : Bytes) : Decidable (StatusCode code) := inferInstanceAs (Decidable (_ ∧ _))

theorem StatusCode.no_space {code : Bytes} (h : StatusCode code) : 32 ∉ code :=
  fun hc => absurd (h.2 32 hc).1 (by decide)

/-- Version token, status code and reason phrase, separated by single spaces, and a line end. -/
def BeginsWithStatusLine (T : VersionToken) (text : Bytes) : Prop :=
  ∃ v code reason, T.ok v ∧ StatusCode code ∧ Clean reason ∧
    v ++ 32 :: (code ++ 32 :: (reason ++ crlf)) <+: text

/-- The version is a token, or looks like the beginning of a status line itself. -/
def StartsStatusLine (T : VersionToken) (version : Bytes) : Prop :=
  T.ok version ∨ ∃ v code, T.ok v ∧ StatusCode code ∧
    (version = v ++ 32 :: code ∨ ∃ rest, Clean rest ∧ version = v ++ 32 :: (code ++ 32 :: rest))

/-- A text that ends its first line ends it behind an unbroken front. -/
theorem clean_of_prefix {reason front t : Bytes} (hr : Clean reason)
    (hf : Lines.Unbroken 13 10 front) (h : reason ++ crlf <+: front ++ 32 :: t) : Clean front := by
  obtain ⟨u, hu⟩ := h
  have hfirst : find (front ++ 32 :: t) crlf 0 = some reason.length := by
    rw [← hu]
    exact find_crlf hr.unbroken u
  have hle : front.length ≤ reason.length := by
    by_contra hlt
    have hat := (find_eq_some.1 hfirst).2.1
    rw [crlf_eq] at hat
    have hget := hat.getElem? (j := 1) (by decide)
    by_cases hin : reason.length + 2 ≤ front.length
    · exact hf (hat.of_append hin).isInfix
    · rw [List.getElem?_append_right (by omega),
        show reason.length + 1 - front.length = 0 by omega] at hget
      simp at hget
  have hpre : front <+: reason := by
    refine List.prefix_of_prefix_length_le (List.prefix_append front (32 :: t)) ?_ hle
    exact ⟨crlf ++ u, by rw [← hu, List.append_assoc]⟩
  exact ⟨fun hc => hr.1 (hpre.subset hc), fun hc => hr.2 (hpre.subset hc)⟩

/-- The status line of a text that begins with a version, a code and a reason. -/
theorem beginsWithStatusLine_iff {T : VersionToken} {version code reason t : Bytes}
    (hv : Lines.Unbroken 13 10 version) (hcode : StatusCode code) (hreason : Clean reason) :
    BeginsWithStatusLine T (version ++ 32 :: (code ++ 32 :: (reason ++ crlf ++ t))) ↔
      StartsStatusLine T version := by
  refine ⟨fun h => ?_, fun h => ?_⟩
  · obtain ⟨v, code', reason', hok, hcode', hreason', hpre⟩ := h
    rcases (field_prefix_iff (T.plain v hok).2).1 hpre with ⟨rfl, -⟩ | ⟨w, rfl, hbehind⟩
    · exact .inl hok
    · refine .inr ⟨v, code', hok, hcode', ?_⟩
      rcases (field_prefix_iff hcode'.no_space).1 hbehind with ⟨rfl, -⟩ | ⟨rest, rfl, hend⟩
      · exact .inl rfl
      · have hrest : Lines.Unbroken 13 10 rest := hv.mono ⟨v ++ 32 :: (code' ++ [32]), [], by simp⟩
        exact .inr ⟨rest, clean_of_prefix hreason' hrest hend, rfl⟩
  · have htail : Clean (32 :: (code ++ 32 :: reason)) := by
      have hplain : Clean code :=
        ⟨fun hc => absurd (hcode.2 13 hc).1 (by decide),
          fun hc => absurd (hcode.2 10 hc).1 (by decide)⟩
      exact clean_append.2 ⟨(by decide : Clean [32]),
        clean_append.2 ⟨hplain, clean_append.2 ⟨(by decide : Clean [32]), hreason⟩⟩⟩
    rcases h with hok | ⟨v, code', hok, hcode', rfl | ⟨rest, hrest, rfl⟩⟩
    · exact ⟨version, code, reason, hok, hcode, hreason, t, by simp⟩
    · refine ⟨v, code', code ++ 32 :: reason, hok, hcode', ?_, t, by simp⟩
      exact (clean_append (s := [32])).1 htail |>.2
    · exact ⟨v, code', rest ++ 32 :: (code ++ 32 :: reason), hok, hcode',
        clean_append.2 ⟨hrest, htail⟩, t, by simp⟩

/-- **Status lines**: what is sent begins with a well-formed status line exactly if the version of
the request is a version token, or the beginning of a status line. -/
theorem statusLine_iff (T : VersionToken) {client : AsyncClientHandler} {text : Bytes}
    (hsent : (client.dispatch (mainHandler X) o s).1 = .ok text) :
    BeginsWithStatusLine T text ↔ StartsStatusLine T (requestLine client.requestData).version := by
  obtain ⟨r, hr, rfl⟩ := dispatch_answers.1 hsent
  have hversion := (Responds.shape (.inl hr)).2
  have hcodes : ∀ status ∈ [200, 400, 404],
      StatusCode (decimal status) ∧ Clean (HttpStatus.toString status) := by decide +kernel
  obtain ⟨hcode, hclean⟩ := hcodes r.statusCode (by simpa using hr.answer.statusCode)
  have htext : r.str o = r.httpVersion ++ 32 :: (decimal r.statusCode ++ 32 :: (r.reason ++ crlf ++
      ((UnorderedMap.items o r.headers).flatMap headerLine ++ crlf ++ r.body))) := by
    simp [str, show bytes " " = [32] by decide]
  rw [htext, hversion, hr.answer.reason]
  exact beginsWithStatusLine_iff (unbroken_version _) hcode hclean

/-- Anything without a space. -/
def anyToken : VersionToken where
  ok v := v ≠ [] ∧ 32 ∉ v
  plain _ h := h

theorem statusLine_hello : BeginsWithStatusLine anyToken ((helloAnswer "HTTP/1.1").str .listed) :=
  (@statusLine_iff .listed UserHandler.fewTexts { clocks := fun _ => UserHandler.noonClocks }
    anyToken { requestData := "GET /hello HTTP/1.1\r\n\r\n" } _ (by decide)).2
      (.inl (show _ ≠ _ ∧ _ ∉ _ by decide))

/-- A request line of two fields is answered with a line that begins with a space. -/
theorem statusLine_without_version :
    let client : AsyncClientHandler := { requestData := "GET /hello\r\n\r\n" }
    AsyncClientHandler.isCompleteRequest client.requestData = true ∧
      ∃ text, (client.dispatch (mainHandler UserHandler.fewTexts) .listed
          { clocks := fun _ => UserHandler.noonClocks }).1 = .ok text ∧
        ¬ BeginsWithStatusLine anyToken text := by
  refine ⟨by decide, bytes " 200 OK\r\nConnection: Keep-Alive\r\n\r\n", by decide, ?_⟩
  rintro ⟨v, code, reason, hok, -, -, u, hu⟩
  cases v with
  | nil => exact hok.1 rfl
  | cons c v =>
    have hspace : c = 32 := (List.cons.inj hu).1
    exact hok.2 (by simp [hspace])

end HttpsTest
