import HttpsTest.Lib.Framing
import HttpsTest.Lib.Runs
import HttpsTest.Server.WireRequest
import HttpsTest.Users.Handlers

/-!
# Framing of a connection

A connection is a framing machine (`parsed_eq_outputs`): the whole buffer is parsed as one request
and then cleared. `parsed_eq_requests_iff`: over any cut of a stream of requests into reads, the
strings passed to `RequestFactory::parse` are the requests exactly if every request ends with a
read, no read ends in a body behind the length read from the header block, and the connection
goes on after each request but the last. `carried_of_length` covers the requests whose length is
read correctly: they can be cut in any way.
-/

set_option autoImplicit false

namespace HttpsTest

open AsyncClientHandler

variable {σ : Type} (handler : IRequestHandler σ) (o : HashOrder)

/-! ## The connection over its reads -/

/-- A read, with the write of the response it leads to. The strings passed to
`RequestFactory::parse` are collected. -/
def receive (st : (Connection × σ) × List Bytes) (chunk : Bytes) : (Connection × σ) × List Bytes :=
  let ((c, s), parsed) := st
  match c.complete handler o (.read chunk) s with
  | (.returned, c, s) => ((c, s), parsed)
  | (.dispatched request _, c, s) => ((c.complete handler o .written s).2, parsed ++ [request])
  | (.threw request _, c, s) => ((c, s), parsed ++ [request])

/-- The strings passed to `RequestFactory::parse` over the reads of a new connection. -/
def parsed (s : σ) (reads : List Bytes) : List Bytes :=
  (Runs.after (receive handler o) (({}, s), []) reads).2

/-- The state of the request handler after a request. -/
def afterRequest (data : Bytes) (s : σ) : σ :=
  match RequestFactory.parse data with
  | .ok request => (handler request s).2
  | .error _ => s

/-- The request handler answers a request with a response. -/
def answered (data : Bytes) (s : σ) : Bool :=
  match RequestFactory.parse data with
  | .ok request =>
    match (handler request s).1 with
    | .ok (some _) => true
    | _ => false
  | .error _ => false

/-- The connection as a framing machine. -/
def machine : Framing.Machine UInt8 σ where
  complete := isCompleteRequest
  dispatch data s := (afterRequest handler data s, answered handler data s && shouldKeepAlive data)

variable {handler o}

theorem processRequest_spec (handler : IRequestHandler σ) (o : HashOrder) (c : AsyncClientHandler)
    (s : σ) :
    (answered handler c.requestData s = true ∧ ∃ text, c.processRequest handler o s =
        (.ok text, { keepAlive := shouldKeepAlive c.requestData, requestData := [] },
          afterRequest handler c.requestData s)) ∨
      answered handler c.requestData s = false ∧ ∃ e, c.processRequest handler o s =
        (.error e, { c with keepAlive := shouldKeepAlive c.requestData },
          afterRequest handler c.requestData s) := by
  obtain ⟨request, hr, hd⟩ := dispatch_spec handler o c s
  unfold processRequest afterRequest answered
  rw [hd, hr]
  simp only
  rcases (handler request s).1 with e | _ | r
  · exact .inr ⟨rfl, e, rfl⟩
  · exact .inr ⟨rfl, .nullDereference, rfl⟩
  · exact .inl ⟨rfl, r.str o, rfl⟩

/-- A read on an open connection, in terms of the machine. -/
theorem receive_spec (handler : IRequestHandler σ) (o : HashOrder) {c : Connection}
    (hc : c.pending = .read) (s : σ) (out : List Bytes) (chunk : Bytes) :
    let data := c.client.requestData ++ chunk
    (isCompleteRequest data = false → ∃ c', receive handler o ((c, s), out) chunk = ((c', s), out) ∧
        c'.pending = .read ∧ c'.client.requestData = data) ∧
      (isCompleteRequest data = true → ∃ c', receive handler o ((c, s), out) chunk =
        ((c', ((machine handler).dispatch data s).1), out ++ [data]) ∧
        if ((machine handler).dispatch data s).2 then
          c'.pending = .read ∧ c'.client.requestData = []
        else c'.pending = .none) := by
  intro data
  unfold receive Connection.complete Connection.handleRead
  simp only [hc]
  refine ⟨fun hcomplete => ?_, fun hcomplete => ?_⟩
  · simp only [show isCompleteRequest (c.client.requestData ++ chunk) = false from hcomplete,
      Bool.false_eq_true, if_false]
    exact ⟨_, rfl, rfl, rfl⟩
  · simp only [show isCompleteRequest (c.client.requestData ++ chunk) = true from hcomplete,
      if_true]
    rcases processRequest_spec handler o
      { c.client with requestData := c.client.requestData ++ chunk } s with
      ⟨ha, text, hp⟩ | ⟨ha, e, hp⟩
    · rw [hp]
      refine ⟨_, rfl, ?_⟩
      simp only [machine, show answered handler data s = true from ha, Bool.true_and]
      cases shouldKeepAlive data <;> simp
    · rw [hp]
      refine ⟨_, rfl, ?_⟩
      simp only [machine, show answered handler data s = false from ha, Bool.false_and,
        Bool.false_eq_true, if_false]

/-- A closed connection reads nothing more. -/
theorem receive_closed {c : Connection} (hc : c.pending = .none) (s : σ) (out : List Bytes) :
    ∀ reads, Runs.after (receive handler o) ((c, s), out) reads = ((c, s), out)
  | [] => rfl
  | chunk :: reads => by
    have hstep : receive handler o ((c, s), out) chunk = ((c, s), out) := by
      unfold receive Connection.complete
      simp only [hc]
    rw [Runs.after_cons, hstep]
    exact receive_closed hc s out reads

/-- **The connection simulates the machine.** -/
theorem after_receive {c : Connection} (hc : c.pending = .read) (s : σ) (out reads : List Bytes) :
    (Runs.after (receive handler o) ((c, s), out) reads).2 =
      out ++ Framing.outputs (machine handler) s c.client.requestData reads := by
  induction reads generalizing c s out with
  | nil => simp [Framing.outputs]
  | cons chunk reads ih =>
    obtain ⟨hmore, hdone⟩ := receive_spec handler o hc s out chunk
    rw [Runs.after_cons, Framing.outputs_cons]
    cases hcomplete : isCompleteRequest (c.client.requestData ++ chunk) with
    | false =>
      obtain ⟨c', hstep, hc', hdata⟩ := hmore hcomplete
      rw [hstep, ih hc', hdata, if_neg (by simp [machine, hcomplete])]
    | true =>
      obtain ⟨c', hstep, hgo⟩ := hdone hcomplete
      rw [hstep, if_pos (show (machine handler).complete _ = true from hcomplete)]
      cases hd : ((machine handler).dispatch (c.client.requestData ++ chunk) s).2 with
      | true =>
        rw [hd, if_pos rfl] at hgo
        rw [ih hgo.1, hgo.2, if_pos rfl, List.append_assoc, List.singleton_append]
      | false =>
        rw [hd, if_neg Bool.false_ne_true] at hgo
        rw [receive_closed hgo, if_neg Bool.false_ne_true]

theorem parsed_eq_outputs (s : σ) (reads : List Bytes) :
    parsed handler o s reads = Framing.outputs (machine handler) s [] reads := by
  rw [parsed, after_receive rfl]
  rfl

/-! ## Requests -/

/-- The reads carry the request, and none before the last ends in its body behind the length read
from its header block. -/
structure Carried (g : List Bytes) (r : WireRequest) : Prop where
  carries : g.flatten = r.bytes
  length_le : getContentLength r.head ≤ r.body.length
  before : ∀ n < g.length, (g.take n).flatten.length < r.head.length + getContentLength r.head

/-- The reads fall into groups, one for each request, and the connection goes on between them. -/
def Delivered (handler : IRequestHandler σ) : σ → List Bytes → List WireRequest → Prop
  | _, reads, [] => reads = []
  | s, reads, r :: rs => ∃ g rest, reads = g ++ rest ∧ Carried g r ∧
      (rs ≠ [] → answered handler r.bytes s = true ∧ shouldKeepAlive r.bytes = true) ∧
      Delivered handler (afterRequest handler r.bytes s) rest rs

/-- What the machine needs of a group of reads, said of their lengths. -/
theorem fits_iff_carried {g : List Bytes} {r : WireRequest} :
    Framing.Fits (machine handler) [] g r.bytes ↔ Carried g r := by
  have hlen := r.length_bytes
  have h4 := r.four_le
  have hinitial (n : Nat) (hg : g.flatten = r.bytes) : (g.take n).flatten <+: r.bytes := by
    rw [← hg]
    exact ⟨(g.drop n).flatten, by rw [← List.flatten_append, List.take_append_drop]⟩
  refine ⟨fun h => ?_, fun h => ?_⟩
  · have hcarries : g.flatten = r.bytes := by simpa using h.carries
    refine ⟨hcarries, ?_, fun n hn => ?_⟩
    · have := (r.isCompleteRequest_prefix List.prefix_rfl).1 h.complete
      omega
    · by_cases h0 : n = 0
      · subst h0
        simp only [List.take_zero, List.flatten_nil, List.length_nil]
        omega
      · have hno := h.incomplete n (by omega) hn
        rw [List.nil_append] at hno
        by_contra hge
        have hyes := (r.isCompleteRequest_prefix (hinitial n hcarries)).2 (by omega)
        rw [show (machine handler).complete = isCompleteRequest from rfl, hyes] at hno
        cases hno
  · refine ⟨?_, by simpa using h.carries, ?_, fun n h0 hn => ?_⟩
    · rintro rfl
      exact r.bytes_ne_nil h.carries.symm
    · have := h.length_le
      exact (r.isCompleteRequest_prefix List.prefix_rfl).2 (by omega)
    · have hlt := h.before n hn
      rw [List.nil_append]
      apply Bool.eq_false_iff.2
      intro hyes
      have := (r.isCompleteRequest_prefix (hinitial n h.carries)).1 hyes
      omega

theorem delivers_iff_delivered {s : σ} {reads : List Bytes} {rs : List WireRequest} :
    Framing.Delivers (machine handler) s reads (rs.map WireRequest.bytes) ↔
      Delivered handler s reads rs := by
  induction rs generalizing s reads with
  | nil => exact Iff.rfl
  | cons r rs ih =>
    simp only [List.map_cons, Framing.Delivers, Delivered, fits_iff_carried, ih, Ne,
      List.map_eq_nil_iff]
    simp only [machine, Bool.and_eq_true]

/-- **The strings passed to `RequestFactory::parse` are the requests** exactly if the reads deliver
them one by one. -/
theorem parsed_eq_requests_iff (handler : IRequestHandler σ) (o : HashOrder) (s : σ)
    {rs : List WireRequest} {reads : List Bytes} (hne : ∀ c ∈ reads, c ≠ [])
    (hreads : reads.flatten = (rs.map WireRequest.bytes).flatten) :
    parsed handler o s reads = rs.map WireRequest.bytes ↔ Delivered handler s reads rs := by
  rw [parsed_eq_outputs, Framing.outputs_eq_iff hne hreads, delivers_iff_delivered]

/-- Every request is answered as `HelloHandler` does. -/
def helloOnly : IRequestHandler Unit :=
  fun request s => (.ok (some (HelloHandler.handleRequest request)), s)

def helloRequest : WireRequest :=
  .bodiless "GET /hello HTTP/1.1\r\nHost: a\r\n\r\n" (by decide) (by decide)

/-- Two requests, the first of them cut in its header block. -/
theorem parsed_two_requests :
    parsed helloOnly .listed () [helloRequest.bytes.take 7, helloRequest.bytes.drop 7,
      helloRequest.bytes] = [helloRequest.bytes, helloRequest.bytes] :=
  (@parsed_eq_requests_iff _ helloOnly .listed () [helloRequest, helloRequest] _
    (by decide) (by decide)).2
    ⟨[helloRequest.bytes.take 7, helloRequest.bytes.drop 7], [helloRequest.bytes], rfl,
      ⟨by decide, by decide, by decide⟩, fun _ => by decide,
      [helloRequest.bytes], [], rfl, ⟨by decide, by decide, by decide⟩, by decide, rfl⟩

/-- Two keep-alive requests that come in one read are parsed as one. -/
theorem parsed_pipelined : shouldKeepAlive helloRequest.bytes = true ∧
    parsed helloOnly .listed () [helloRequest.bytes ++ helloRequest.bytes] ≠
      [helloRequest.bytes, helloRequest.bytes] := by
  decide

/-- A request whose length is read correctly can be cut in any way. -/
theorem carried_of_length {g : List Bytes} {r : WireRequest}
    (hlen : getContentLength r.head = r.body.length) (hne : ∀ c ∈ g, c ≠ [])
    (hg : g.flatten = r.bytes) : Carried g r where
  carries := hg
  length_le := hlen.le
  before n hn := by
    have hsplit : (g.take n).flatten ++ (g.drop n).flatten = r.bytes := by
      rw [← List.flatten_append, List.take_append_drop, hg]
    have hdrop : (g.drop n).flatten ≠ [] := by
      intro h
      have hmem : g[n] ∈ g.drop n := by
        rw [List.drop_eq_getElem_cons hn]
        exact List.mem_cons_self
      exact hne g[n] (List.getElem_mem hn) (List.flatten_eq_nil_iff.1 h _ hmem)
    have hlens := congrArg List.length hsplit
    rw [List.length_append, r.length_bytes] at hlens
    have := List.length_pos_iff.2 hdrop
    omega

end HttpsTest
