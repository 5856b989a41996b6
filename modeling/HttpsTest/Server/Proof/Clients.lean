import HttpsTest.Server.Clients
import HttpsTest.Server.Proof.Messages

/-!
# The network realizes exchanges

`realizes_of_run`: however the bytes of the clients are cut and their operations interleave, what
happens on the network are exchanges of whole requests and responses, one after the other. A
request is complete with its last byte and not before (`ClientRequest.isCompleteRequest_iff`), the
server parses it to what the client meant (`ClientRequest.factory_parse`), and the client reads in
the text of a response what the handler answered (`decode_answer`); `Talk` is the invariant of one
connection.
-/

set_option autoImplicit false

namespace HttpsTest

open AsyncClientHandler Search

/-! ## The text of a request -/

/-- The digits of a number are read as the number. -/
theorem digits_of_digits : ∀ {d : Bytes} (n : Nat), (∀ c ∈ d, 48 ≤ c ∧ c ≤ 57) →
    digits d n = d.foldl (fun n c => 10 * n + (c.toNat - 48)) n
  | [], _, _ => rfl
  | c :: d, n, h => by
    have hc : digit? c = some (c.toNat - 48) := if_pos (h c List.mem_cons_self)
    rw [digits, hc]
    exact digits_of_digits _ fun b hb => h b (List.mem_cons_of_mem c hb)

theorem isDecimal_decimal (n : Nat) : IsDecimal (decimal n) := by
  refine ⟨fun h => ?_, fun c hc => ?_⟩
  · have hread := readNat_decimal n
    rw [h] at hread
    cases hread
  · rw [digit?, if_pos (decimal_digits n c hc)]
    rfl

theorem digits_decimal (n : Nat) : digits (decimal n) 0 = n := by
  have hread := readNat_decimal n
  rw [digits_of_digits 0 (decimal_digits n)]
  unfold readNat at hread
  split at hread
  · exact Option.some.inj hread
  · cases hread

namespace RequestParts

variable (p : RequestParts)

theorem text_eq_head : p.text = p.head ++ p.body := rfl

/-- The lines of the header block. -/
theorem head_eq_join :
    p.head = Lines.join 13 10 (p.requestLine :: p.headers.map header) ++ crlfcrlf := by
  have hend := Lines.join_end (a := 13) (b := 10) p.requestLine (p.headers.map header)
  have hcrlf : crlf ++ crlf = crlfcrlf := by decide
  rw [← hcrlf, ← List.append_assoc, crlf_eq, hend, head, crlf_eq]
  simp

theorem head_lines : (∀ m ∈ p.requestLine :: p.headers.map header, Lines.Unbroken 13 10 m) ∧
    [] ∉ p.headers.map header := by
  refine ⟨fun m hm => ?_, fun hm => ?_⟩
  · rcases List.mem_cons.1 hm with rfl | hm
    · exact p.clean_requestLine.unbroken
    · obtain ⟨h, hh, rfl⟩ := List.mem_map.1 hm
      exact (p.clean_header hh).unbroken
  · obtain ⟨h, hh, hempty⟩ := List.mem_map.1 hm
    simp only [header, List.append_eq_nil_iff] at hempty
    exact (p.name_plain h hh).2.1 hempty.1.1

/-- The header block ends with its first empty line. -/
theorem head_ends : find p.head crlfcrlf 0 = some (p.head.length - 4) := by
  obtain ⟨hunbroken, hne⟩ := p.head_lines
  have hblock := Lines.find_block (by decide) hunbroken hne []
  have hlen : crlfcrlf.length = 4 := rfl
  have hcrlf : crlfcrlf = [13, 10, 13, 10] := by decide
  rw [head_eq_join, List.length_append, hlen, Nat.add_sub_cancel]
  rwa [List.append_nil, ← hcrlf] at hblock

/-- A header stands on a line of its own. -/
theorem at_header {h : Bytes × Bytes} (hh : h ∈ p.headers) :
    ∃ i, At p.head (crlf ++ header h ++ crlf) i := by
  obtain ⟨front, back, hsplit⟩ := List.append_of_mem hh
  have hend := Lines.join_end (a := 13) (b := 10) p.requestLine (front.map header)
  have hhead : p.head = Lines.join 13 10 (p.requestLine :: front.map header) ++
      (crlf ++ header h ++ crlf) ++ ((back.map header).flatMap (· ++ crlf) ++ crlf) := by
    rw [crlf_eq, ← List.append_assoc, List.append_assoc [13, 10], ← List.append_assoc, hend, head,
      hsplit, crlf_eq]
    simp
  exact ⟨_, at_iff_split.2 ⟨_, _, hhead, rfl⟩⟩

end RequestParts

namespace ClientRequest

open RequestParts

variable (r : ClientRequest)

/-- The line that tells the length, where there is one. -/
theorem length_line : (r.body = [] ∧ find r.head contentLengthName 0 = none) ∨
    ∃ i, ContentLengthAt r.head i (decimal r.body.length) := by
  refine r.length_told.imp_right fun hmem => ?_
  obtain ⟨i, hi⟩ := r.at_header hmem
  have hname : header (bytes "Content-Length", decimal r.body.length) =
      contentLengthName ++ decimal r.body.length := by
    have hcolon : bytes "Content-Length" ++ bytes ": " = contentLengthName := by decide
    rw [header, hcolon]
  rw [hname] at hi
  exact ⟨i, hi, isDecimal_decimal _⟩

/-- The request on the wire. -/
def wire : WireRequest where
  head := r.head
  body := r.body
  head_ends := r.head_ends
  announced := by
    rcases r.length_line with ⟨hb, hno⟩ | ⟨i, hi⟩
    · exact .inl ⟨hb, fun j d h => find_eq_none.1 hno (j + 2) (Nat.zero_le _) h.name⟩
    · refine .inr ⟨i, _, hi, fun j d hj => ?_, (digits_decimal _).symm⟩
      have := r.length_once _ _ hi.name hj.name
      omega

theorem getContentLength_head : getContentLength r.head = r.body.length := by
  refine r.wire.getContentLength_head (fun i hi => ?_) r.body_size
  rcases r.length_line with ⟨-, hno⟩ | ⟨j, hj⟩
  · exact absurd hi (find_eq_none.1 hno i (Nat.zero_le _))
  · exact ⟨j, _, r.length_once _ _ hi hj.name, hj⟩

/-- **A request is complete** with its last byte. -/
theorem isCompleteRequest_iff {p : Bytes} (hp : p <+: r.text) :
    isCompleteRequest p = true ↔ p = r.text := by
  have hlen : r.text.length = r.head.length + r.body.length := by
    rw [text_eq_head, List.length_append]
  have hcomplete := r.wire.isCompleteRequest_prefix (p := p) hp
  rw [show r.wire.head = r.head from rfl, getContentLength_head, ← hlen] at hcomplete
  rw [hcomplete]
  exact ⟨fun h => hp.eq_of_length_le h, fun h => by rw [h]⟩

theorem text_ne_nil : r.text ≠ [] := r.wire.bytes_ne_nil

/-- **The server parses** what the client meant. -/
theorem factory_parse : RequestFactory.parse r.text = .ok r.request := by
  have hhttp : RequestFactory.isHttp r.text = true := by
    have htext : r.text = r.method ++ bytes " " ++ (r.target ++ bytes " " ++ r.version ++ crlf ++
        (r.headers.map header).flatMap (· ++ crlf) ++ crlf ++ r.body) := by
      simp [text, RequestParts.requestLine]
    rw [htext]
    exact isHttp_of_method r.method_known _
  rw [RequestFactory.parse, if_pos hhttp, r.parse_text_eq]
  rfl

theorem version_text : (HttpsTest.requestLine r.text).version = r.version := by
  obtain ⟨request, hparse, -, -, -, hversion⟩ := requestLine_spec r.text
  rw [factory_parse] at hparse
  cases hparse
  exact hversion.symm

end ClientRequest

/-! ## The text of a response -/

/-- What a client reads in a response without broken lines. -/
theorem HttpResponse.Whole.decode_message {r : HttpResponse} (h : r.Whole) (hv : 32 ∉ r.httpVersion)
    (hcolon : ∀ k v, r.headers.lookup k = some v → 58 ∉ k) (o : HashOrder) :
    decode (r.str o) = some (r.message o) := by
  have hheaders : ((UnorderedMap.items o r.headers).map HttpResponse.headerField).map readHeader =
      UnorderedMap.items o r.headers := by
    rw [List.map_map]
    refine (List.map_congr_left ?_).trans (List.map_id _)
    intro p hp
    exact readHeader_headerField (hcolon _ _ (UnorderedMap.mem_items.1 hp)) p.2
  rw [decode, h.headLines_str, h.payload_str, HttpResponse.lines, List.head?_cons, List.tail_cons,
    hheaders]
  show (readStatus _ >>= _) = _
  rw [HttpResponse.status, HttpResponse.readStatus_status hv]
  rfl

/-- **A client reads** what the handler of `main` answered. -/
theorem decode_answer {X : Externals} {s : HandlerState} {q : ClientRequest} {r : HttpResponse}
    (hr : Answers X s q.text r) (o : HashOrder) : decode (r.str o) = some (r.message o) := by
  have hanswer := hr.answer
  refine (hanswer.whole (unbroken_version _)).decode_message ?_ hanswer.no_colon o
  rw [hanswer.httpVersion, q.version_text]
  exact q.version_plain

theorem decode_mainHandler {X : Externals} {s s' : HandlerState} {q : ClientRequest}
    {r : HttpResponse} (h : mainHandler X q.request s = (.ok (some r), s')) :
    decode (r.str X.hashOrder) = some (r.message X.hashOrder) :=
  decode_answer ⟨_, q.factory_parse, by rw [h]⟩ X.hashOrder

/-! ## One connection -/

/-- Where a client and its connection stand behind the exchanges `h`. -/
inductive Talk (h : List Exchange) (c : HttpClient) (connection : Connection) : Prop
  | idle (pending : connection.pending = .read) (data : connection.client.requestData = [])
      (inbox : c.inbox = []) (writing : c.writing = none) (sent : c.sent = h.map (·.request))
      (received : c.received.map decode = h.map (·.outcome))
  | sending (r : ClientRequest) (pending : connection.pending = .read)
      (data : connection.client.requestData ++ c.inbox = r.text)
      (incomplete : connection.client.requestData ≠ r.text) (writing : c.writing = none)
      (sent : c.sent = h.map (·.request) ++ [r])
      (received : c.received.map decode = h.map (·.outcome))
  | writing (front : List Exchange) (e : Exchange) (text : Bytes)
      (pending : connection.pending = .write) (data : connection.client.requestData = [])
      (inbox : c.inbox = []) (writing : c.writing = some text) (split : h = front ++ [e])
      (outcome : e.outcome = decode text) (sent : c.sent = h.map (·.request))
      (received : c.received.map decode = front.map (·.outcome))
  | closed (pending : connection.pending = .none) (writing : c.writing = none)
      (sent : h.map (·.request) <+: c.sent) (received : c.received.map decode <+: h.map (·.outcome))

/-- What a client learns of what the request handler returns. -/
def outcomeOf (o : HashOrder) : Except Exn (Option HttpResponse) → Option Message
  | .ok (some r) => some (r.message o)
  | _ => none

section
variable {σ : Type} (handler : IRequestHandler σ) (o : HashOrder) (s : σ) {h : List Exchange}
  {c : HttpClient} {connection : Connection}

/-- The requests that are served are the first ones that were sent. -/
theorem Talk.requests (ht : Talk h c connection) : h.map (·.request) <+: c.sent := by
  cases ht with
  | idle _ _ _ _ sent => rw [sent]
  | sending r _ _ _ _ sent => rw [sent]; exact List.prefix_append _ _
  | writing _ _ _ _ _ _ _ _ _ sent => rw [sent]
  | closed _ _ sent => exact sent

/-- What is read are the first outcomes. -/
theorem Talk.responses (ht : Talk h c connection) :
    c.received.map decode <+: h.map (·.outcome) := by
  cases ht with
  | idle _ _ _ _ _ received => rw [received]
  | sending _ _ _ _ _ _ received => rw [received]
  | writing front e _ _ _ _ _ split _ _ received =>
    rw [received, split, List.map_append]
    exact List.prefix_append _ _
  | closed _ _ _ received => exact received

/-- Where nothing is under way on an open connection, all requests have been answered. -/
theorem Talk.answered (ht : Talk h c connection) (hinbox : c.inbox = [])
    (hwriting : c.writing = none) (hopen : connection.pending ≠ .none) :
    c.received.length = c.sent.length := by
  cases ht with
  | idle _ _ _ _ sent received =>
    have hlen := congrArg List.length received
    rw [List.length_map, List.length_map] at hlen
    rw [sent, List.length_map, hlen]
  | sending r _ data incomplete =>
    rw [hinbox, List.append_nil] at data
    exact absurd data incomplete
  | writing _ _ _ _ _ _ writing => rw [hwriting] at writing; cases writing
  | closed pending => exact absurd pending hopen

/-- **A read of the last bytes** hands the request to the handler, and the response is written, or
the connection closed. -/
theorem Talk.completes {r : ClientRequest} {chunk : Bytes} (i : Nat)
    (hp : connection.pending = .read) (hdata : connection.client.requestData ++ chunk = r.text)
    (hdecode : ∀ response s', handler r.request s = (.ok (some response), s') →
      decode (response.str o) = some (response.message o))
    (sent : c.sent = h.map (·.request) ++ [r])
    (received : c.received.map decode = h.map (·.outcome)) :
    let res := connection.complete handler o (.read chunk) s
    let e : Exchange :=
      { client := i, request := r, outcome := outcomeOf o (handler r.request s).1 }
    res.2.2 = (handler r.request s).2 ∧
      Talk (h ++ [e]) { c with inbox := [], writing := Network.written res.1 } res.2.1 := by
  intro res e
  have hcomplete : isCompleteRequest r.text = true :=
    (r.isCompleteRequest_iff List.prefix_rfl).2 rfl
  obtain ⟨request, hparse, hd⟩ :=
    dispatch_spec handler o { connection.client with requestData := r.text } s
  cases (r.factory_parse).symm.trans hparse
  have hsent : c.sent = (h ++ [e]).map (·.request) := by
    rw [sent, List.map_append, List.map_singleton]
  have hprefix : (h ++ [e]).map (·.request) <+: c.sent := by
    rw [hsent]
  have hclosed : c.received.map decode <+: (h ++ [e]).map (·.outcome) := by
    rw [List.map_append, ← received]
    exact List.prefix_append _ _
  simp only [res, Connection.complete, hp, Connection.handleRead, hdata, hcomplete, if_true,
    processRequest, hd]
  rcases hres : handler r.request s with ⟨_ | _ | response, s'⟩
  · exact ⟨rfl, .closed rfl rfl hprefix hclosed⟩
  · exact ⟨rfl, .closed rfl rfl hprefix hclosed⟩
  · refine ⟨rfl, .writing h e _ rfl rfl rfl rfl rfl ?_ hsent received⟩
    show outcomeOf o (handler r.request s).1 = _
    rw [hres, hdecode response s' hres]
    rfl

/-- **A read** brings further bytes, or it completes a request, which is served. -/
theorem Talk.read (ht : Talk h c connection) (i : Nat) (hp : connection.pending = .read) {n : Nat}
    (hpos : 0 < n) (hn : n ≤ c.inbox.length)
    (hdecode : ∀ (r : ClientRequest) response s', handler r.request s = (.ok (some response), s') →
      decode (response.str o) = some (response.message o)) :
    let res := connection.complete handler o (.read (c.inbox.take n)) s
    let c' := { c with inbox := c.inbox.drop n, writing := Network.written res.1 }
    (res.2.2 = s ∧ Talk h c' res.2.1) ∨
      ∃ e : Exchange, e.client = i ∧
        connection.client.requestData ++ c.inbox.take n = e.request.text ∧
        res.2.2 = (handler e.request.request s).2 ∧
        e.outcome = outcomeOf o (handler e.request.request s).1 ∧ Talk (h ++ [e]) c' res.2.1 := by
  intro res c'
  cases ht with
  | idle _ _ inbox _ _ _ =>
    rw [inbox] at hn
    exact absurd hpos (by simpa using hn)
  | writing _ _ _ pending => rw [hp] at pending; cases pending
  | closed pending => rw [hp] at pending; cases pending
  | sending r pending data incomplete writing sent received =>
    have hcut : connection.client.requestData ++ c.inbox.take n ++ c.inbox.drop n = r.text := by
      rw [List.append_assoc, List.take_append_drop, data]
    have hprefix : connection.client.requestData ++ c.inbox.take n <+: r.text := ⟨_, hcut⟩
    by_cases hlast : connection.client.requestData ++ c.inbox.take n = r.text
    · have hdrop : c.inbox.drop n = [] := by
        rw [hlast] at hcut
        exact List.append_right_eq_self.1 hcut
      obtain ⟨hstate, htalk⟩ := Talk.completes handler o s i hp hlast (hdecode r) sent received
      refine .inr ⟨{ client := i, request := r, outcome := outcomeOf o (handler r.request s).1 },
        rfl, hlast, hstate, rfl, ?_⟩
      rw [show c' = { c with inbox := [], writing := Network.written res.1 } by
        simp only [c', hdrop]]
      exact htalk
    · have hincomplete : isCompleteRequest
          (connection.client.requestData ++ c.inbox.take n) = false := by
        rw [← Bool.not_eq_true, r.isCompleteRequest_iff hprefix]
        exact hlast
      left
      have hres : res = (.returned, { client := { connection.client with
            requestData := connection.client.requestData ++ c.inbox.take n }
                                      pending := .read }, s) := by
        simp only [res, Connection.complete, hp, Connection.handleRead, hincomplete,
          Bool.false_eq_true, if_false]
      rw [show c' = { c with inbox := c.inbox.drop n, writing := none } by
        simp only [c', hres, Network.written], hres]
      exact ⟨rfl, .sending r rfl hcut hlast rfl sent received⟩

/-- A client that has all responses sends its next request. -/
theorem Talk.send (ht : Talk h c connection) (hall : c.received.length = c.sent.length)
    (r : ClientRequest) :
    Talk h { c with sent := c.sent ++ [r], inbox := c.inbox ++ r.text } connection := by
  cases ht with
  | idle pending data inbox writing sent received =>
    refine .sending r pending (by simp [data, inbox]) ?_ writing (by rw [sent]) received
    rw [data]
    exact r.text_ne_nil.symm
  | sending _ _ _ _ _ sent received =>
    have hlen := congrArg List.length received
    rw [List.length_map, List.length_map] at hlen
    rw [sent, List.length_append, List.length_map, hlen] at hall
    simp at hall
  | writing front e text _ _ _ _ split _ sent received =>
    have hlen := congrArg List.length received
    rw [List.length_map, List.length_map] at hlen
    rw [sent, List.length_map, split, List.length_append, hlen] at hall
    simp at hall
  | closed pending writing sent received =>
    exact .closed pending writing (sent.trans (List.prefix_append _ _)) received

/-- A write that succeeds brings the client the response. -/
theorem Talk.written (ht : Talk h c connection) {text : Bytes} (hw : c.writing = some text) :
    let res := connection.complete handler o .written s
    res.2.2 = s ∧ Talk h { c with writing := none, received := c.received ++ [text] } res.2.1 := by
  intro res
  cases ht with
  | idle _ _ _ writing => rw [hw] at writing; cases writing
  | sending _ _ _ _ writing => rw [hw] at writing; cases writing
  | closed _ writing => rw [hw] at writing; cases writing
  | writing front e text' pending data inbox writing split outcome sent received =>
    rw [hw] at writing
    cases writing
    have hres : res = (.returned, { connection with
        pending := if connection.client.keepAlive then .read else .none }, s) := by
      simp only [res, Connection.complete, pending]
    have hreceived : (c.received ++ [text]).map decode = h.map (·.outcome) := by
      rw [List.map_append, received, split, List.map_append, List.map_singleton, List.map_singleton,
        outcome]
    rw [hres]
    refine ⟨rfl, ?_⟩
    cases hkeep : connection.client.keepAlive with
    | true => exact .idle (by simp) data inbox rfl sent hreceived
    | false =>
      refine .closed (by simp) rfl ?_ ?_
      · rw [← sent]
      · rw [hreceived]

/-- An operation that fails closes the connection. -/
theorem Talk.lose (ht : Talk h c connection) {k : Completion}
    (hk : Network.Fails connection.pending k) :
    let res := connection.complete handler o k s
    res.2.2 = s ∧ Talk h { c with writing := none } res.2.1 := by
  intro res
  have hres : res = (.returned, { connection with pending := .none }, s) := by
    simp only [res, Connection.complete]
    revert hk
    cases connection.pending <;> cases k <;> first | exact fun _ => rfl | exact False.elim
  rw [hres]
  exact ⟨rfl, .closed rfl rfl ht.requests ht.responses⟩

end

/-! ## The network -/

namespace Network

open Runs

variable {X : Externals} {s₀ : HandlerState} {history : List Exchange} {w w' : Network}

theorem exchangesOf_own (e : Exchange) :
    exchangesOf e.client (history ++ [e]) = exchangesOf e.client history ++ [e] := by
  simp [exchangesOf]

theorem exchangesOf_other {e : Exchange} {i : Nat} (hi : i ≠ e.client) :
    exchangesOf i (history ++ [e]) = exchangesOf i history := by
  simp [exchangesOf, Ne.symm hi]

structure Invariant (X : Externals) (s₀ : HandlerState) (history : List Exchange) (w : Network) :
    Prop where
  served : Path (Serves X) s₀ history w.server.handlers
  talks : ∀ i, Talk (exchangesOf i history) (w.clients i) (w.server.connections i)

/-- What a completion does to the server, while a thread is left. -/
theorem complete_eq {server : IoServer} (h : server.threads ≠ 0) (i : Nat) (k : Completion) :
    let res := (server.connections i).complete (mainHandler X) X.hashOrder k server.handlers
    (server.complete X (i, k)).connections = Function.update server.connections i res.2.1 ∧
      (server.complete X (i, k)).handlers = res.2.2 := by
  unfold IoServer.complete
  rw [if_neg h]
  exact ⟨rfl, rfl⟩

/-- A step of one client that serves nothing. -/
theorem Invariant.quietly (inv : Invariant X s₀ history w) {server : IoServer} {i : Nat}
    {c : HttpClient} {connection : Connection} (hhandlers : server.handlers = w.server.handlers)
    (hconnections : server.connections = Function.update w.server.connections i connection)
    (ht : Talk (exchangesOf i history) c connection) :
    Invariant X s₀ history { server, clients := Function.update w.clients i c } where
  served := hhandlers ▸ inv.served
  talks j := by
    show Talk _ (Function.update w.clients i c j) (server.connections j)
    rw [hconnections]
    by_cases hj : j = i
    · subst hj
      rwa [Function.update_self, Function.update_self]
    · rw [Function.update_of_ne hj, Function.update_of_ne hj]
      exact inv.talks j

/-- A step of one client that serves a request. -/
theorem Invariant.serving (inv : Invariant X s₀ history w) {server : IoServer} {e : Exchange}
    {c : HttpClient} {connection : Connection}
    (hserves : Serves X w.server.handlers e server.handlers)
    (hconnections : server.connections = Function.update w.server.connections e.client connection)
    (ht : Talk (exchangesOf e.client history ++ [e]) c connection) :
    Invariant X s₀ (history ++ [e])
      { server, clients := Function.update w.clients e.client c } where
  served := inv.served.append (.cons hserves (.nil _))
  talks j := by
    show Talk _ (Function.update w.clients e.client c j) (server.connections j)
    rw [hconnections]
    by_cases hj : j = e.client
    · subst hj
      rwa [Function.update_self, Function.update_self, exchangesOf_own]
    · rw [Function.update_of_ne hj, Function.update_of_ne hj, exchangesOf_other hj]
      exact inv.talks j

/-- **Every step** serves a request, or none. -/
theorem Invariant.step (inv : Invariant X s₀ history w) {a : Action} (hstep : Steps X w a w') :
    ∃ more, Invariant X s₀ (history ++ more) w' := by
  cases a with
  | send i r =>
    simp only [Steps, Network.step] at hstep
    split at hstep
    · rename_i hall
      cases hstep
      refine ⟨[], ?_⟩
      rw [List.append_nil]
      exact inv.quietly rfl (Function.update_eq_self i _).symm ((inv.talks i).send hall r)
    · cases hstep
  | read i n =>
    simp only [Steps, Network.step] at hstep
    split at hstep
    · rename_i hcan
      obtain ⟨hthreads, hpending, hpos, -, hn⟩ := hcan
      cases hstep
      obtain ⟨hconnections, hhandlers⟩ := complete_eq (X := X) hthreads i
        (.read ((w.clients i).inbox.take n))
      rcases (inv.talks i).read (mainHandler X) X.hashOrder w.server.handlers i hpending hpos hn
        fun _ _ _ => decode_mainHandler with ⟨hsame, ht⟩ | ⟨e, rfl, -, hstate, houtcome, ht⟩
      · refine ⟨[], ?_⟩
        rw [List.append_nil]
        exact inv.quietly (hhandlers.trans hsame) hconnections ht
      · refine ⟨[e], inv.serving (hhandlers ▸ ?_) hconnections ht⟩
        exact ⟨_, Prod.ext rfl hstate.symm, houtcome⟩
    · cases hstep
  | written i =>
    simp only [Steps, Network.step] at hstep
    split at hstep
    · rename_i text hw
      split at hstep
      · rename_i hthreads
        cases hstep
        obtain ⟨hconnections, hhandlers⟩ := complete_eq (X := X) hthreads i .written
        obtain ⟨hsame, ht⟩ := (inv.talks i).written (mainHandler X) X.hashOrder
          w.server.handlers hw
        refine ⟨[], ?_⟩
        rw [List.append_nil]
        exact inv.quietly (hhandlers.trans hsame) hconnections ht
      · cases hstep
    · cases hstep
  | lose i k =>
    simp only [Steps, Network.step] at hstep
    split at hstep
    · rename_i hcan
      cases hstep
      obtain ⟨hconnections, hhandlers⟩ := complete_eq (X := X) hcan.1 i k
      obtain ⟨hsame, ht⟩ := (inv.talks i).lose (mainHandler X) X.hashOrder
        w.server.handlers hcan.2
      refine ⟨[], ?_⟩
      rw [List.append_nil]
      exact inv.quietly (hhandlers.trans hsame) hconnections ht
    · cases hstep

theorem Invariant.realizes (inv : Invariant X s₀ history w) : Realizes X s₀ history w where
  served := inv.served
  requests i := (inv.talks i).requests
  responses i := (inv.talks i).responses
  answered i hquiet := (inv.talks i).answered hquiet.inbox hquiet.writing hquiet.isOpen

/-- Along every run exchanges are added. -/
theorem Invariant.run {s₀ : HandlerState} {history : List Exchange}
    (inv : Invariant X s₀ history w) {as : List Action} (hw : Path (Steps X) w as w') :
    ∃ more, Invariant X s₀ (history ++ more) w' :=
  hw.extends (J := fun w history => Invariant X s₀ history w) (fun _ _ _ _ inv => inv.step) inv

theorem invariant_start (X : Externals) (hardwareConcurrency : UInt32)
    (clocks : Nat → UserHandler.Clocks) :
    Invariant X { clocks } [] (start hardwareConcurrency clocks) :=
  ⟨.nil _, fun _ => .idle rfl rfl rfl rfl rfl rfl⟩

/-- **The network realizes exchanges**: in every run, however bytes are cut and operations
interleave or fail, the requests of all clients are served whole and in one order, in which the
handlers of `main` go from state to state, every client reads in its responses what they answered to
its requests, and later steps only add exchanges. -/
theorem realizes_of_run {hardwareConcurrency : UInt32} {clocks : Nat → UserHandler.Clocks}
    {as bs : List Action} (hw : Path (Steps X) (start hardwareConcurrency clocks) as w)
    (hw' : Path (Steps X) w bs w') :
    ∃ history more, Realizes X { clocks } history w ∧
      Realizes X { clocks } (history ++ more) w' := by
  obtain ⟨history, inv⟩ := (invariant_start X hardwareConcurrency clocks).run hw
  obtain ⟨more, inv'⟩ := inv.run hw'
  exact ⟨history, more, inv.realizes, inv'.realizes⟩

theorem http11_clean : Clean (bytes "HTTP/1.1") := by decide

theorem http11_unbroken : 32 ∉ bytes "HTTP/1.1" := by decide

theorem noQuery_keys : ∀ q ∈ ([] : List (Bytes × Bytes)),
    Clean q.1 ∧ 61 ∉ q.1 ∧ 38 ∉ q.1 ∧ 32 ∉ q.1 := by
  simp

theorem noQuery_values : ∀ q ∈ ([] : List (Bytes × Bytes)), Clean q.2 ∧ 38 ∉ q.2 ∧ 32 ∉ q.2 := by
  simp

/-- A request line alone. -/
def getParts (path : Bytes) (hplain : Clean path ∧ 32 ∉ path ∧ 63 ∉ path) : RequestParts where
  method := "GET"
  path
  query := []
  version := "HTTP/1.1"
  headers := []
  body := []
  method_plain := by decide +kernel
  path_plain := hplain
  version_clean := http11_clean
  key_plain := noQuery_keys
  value_plain := noQuery_values
  name_plain _ h := by cases h
  header_plain _ h := by cases h
  names_distinct := List.nodup_nil

def getRequest (path : Bytes) (hplain : Clean path ∧ 32 ∉ path ∧ 63 ∉ path)
    (hno : find (getParts path hplain).head contentLengthName 0 = none) : ClientRequest where
  toRequestParts := getParts path hplain
  method_known := show bytes "GET" ∈ RequestFactory.httpMethods by decide
  version_plain := http11_unbroken
  length_once i _ hi := absurd hi (find_eq_none.1 hno i (Nat.zero_le _))
  length_told := .inl ⟨rfl, hno⟩
  body_size := Nat.two_pow_pos 64

theorem hello_plain : Clean (bytes "/hello") ∧ 32 ∉ bytes "/hello" ∧ 63 ∉ bytes "/hello" := by
  decide

theorem hello_unannounced :
    find (getParts "/hello" hello_plain).head contentLengthName 0 = none := by
  decide +kernel

/-- Two clients whose requests come in pieces, the first of which is answered and asks again. -/
def twoClients : List Action :=
  [.send 0 (getRequest "/hello" hello_plain hello_unannounced),
    .send 1 (getRequest "/superusers" (by decide) (by decide)), .read 0 7, .read 1 20, .read 0 16,
    .read 1 8, .written 0, .send 0 (getRequest "/" (by decide) (by decide)), .written 1]

theorem twoClients_realized : ∃ w w' : Network,
    twoClients.foldlM (step UserHandler.fewTexts) (start 1 fun _ => UserHandler.noonClocks) =
      some w ∧
    [Action.read 0 18, .lose 1 .readEof].foldlM (step UserHandler.fewTexts) w = some w' ∧
    ∃ history more,
      Realizes UserHandler.fewTexts { clocks := fun _ => UserHandler.noonClocks } history w ∧
      Realizes UserHandler.fewTexts { clocks := fun _ => UserHandler.noonClocks }
        (history ++ more) w' := by
  have hrun : ((twoClients.foldlM (step UserHandler.fewTexts)
      (start 1 fun _ => UserHandler.noonClocks)).bind fun w =>
        [Action.read 0 18, .lose 1 .readEof].foldlM (step UserHandler.fewTexts) w).isSome := by
    decide +kernel
  obtain ⟨w', hw'⟩ := Option.isSome_iff_exists.1 hrun
  obtain ⟨w, hw, hw'⟩ := Option.bind_eq_some_iff.1 hw'
  exact ⟨w, w', hw, hw', realizes_of_run (path_iff_foldlM.2 hw) (path_iff_foldlM.2 hw')⟩

end Network

end HttpsTest
