import HttpsTest.Db.Proof.Connect
import HttpsTest.Server.Proof.Clients
import HttpsTest.Server.Proof.Exchanges
import HttpsTest.Server.Proof.Reading
import HttpsTest.Server.SyncClients

/-!
# The blocking server realizes exchanges

`SyncNetwork.served_in_order`: in every run the accept thread serves the requests of its clients
whole and one after the other, each client reads what the handlers of `main` answered, and the
database is the ledger of the connections that were accepted; `turns_of_run`: it serves one
connection after the other. `SyncRequest.readFullRequest_cut`: a request is read whole however it is
cut.
-/

set_option autoImplicit false

namespace HttpsTest

open Search SyncHTTPServer

/-! ## Reading a request -/

/-- All the bytes that are left are read, with the pieces they come in. -/
theorem readExactly_all {pieces : List Bytes} (h : [] ∉ pieces) :
    readExactly pieces.flatten.length pieces = .ok (pieces.flatten, []) := by
  induction pieces with
  | nil => rfl
  | cons piece pieces ih =>
    rw [List.mem_cons, not_or] at h
    obtain ⟨c, piece, rfl⟩ := List.exists_cons_of_ne_nil (Ne.symm h.1)
    rw [List.flatten_cons, List.length_append, List.length_cons,
      show piece.length + 1 + pieces.flatten.length = piece.length + pieces.flatten.length + 1 by
        omega, readExactly, if_neg (by rw [List.length_cons]; omega), List.length_cons,
      show piece.length + pieces.flatten.length + 1 - (piece.length + 1) =
        pieces.flatten.length by omega, ih h.2]
    rfl

namespace SyncRequest

variable (r : SyncRequest)

theorem head_eq_block : r.head = block (r.requestLine :: r.headers.map RequestParts.header) := by
  simp [RequestParts.head, block]

/-- The number behind the name is that of the bytes in the body. -/
theorem contentLength_head : contentLength r.head = .ok r.body.length := by
  have hname : contentLengthName = bytes "Content-Length:" ++ bytes " " := by decide
  rcases r.length_line with ⟨hbody, hno⟩ | ⟨i, hi⟩
  · have hnone : find r.head (bytes "Content-Length:") 0 = none :=
      find_eq_none.2 fun j hj hat => find_eq_none.1 hno j hj (r.name_spaced j hat)
    unfold contentLength
    simp only [hnone, hbody]
    rfl
  · obtain ⟨u, v, hhead, hu⟩ := hi.split
    rw [hname] at hhead
    have hsplit : r.head = u ++ crlf ++ bytes "Content-Length:" ++
        (bytes " " ++ decimal r.body.length) ++ crlf ++ v := by simp [hhead]
    -- the name stands nowhere else
    have hfind : find r.head (bytes "Content-Length:") 0 = some (u ++ crlf).length := by
      refine find_eq_some.2 ⟨Nat.zero_le _, at_iff_split.2 ⟨u ++ crlf,
        bytes " " ++ decimal r.body.length ++ crlf ++ v, by rw [hsplit]; simp, rfl⟩, ?_⟩
      intro j _ hj hat
      have hsame := r.length_once j (i + 2) (r.name_spaced j hat) hi.name
      rw [List.length_append, hu, show crlf.length = 2 from rfl] at hj
      omega
    have hclean : Clean (bytes " " ++ decimal r.body.length) :=
      clean_append.2 ⟨by decide, clean_decimal _⟩
    rw [hsplit] at hfind ⊢
    rw [contentLength_of hfind hclean]
    have hblank : stoul (bytes " " ++ decimal r.body.length ++ []) =
        stoul (decimal r.body.length) := stoul_blanks (by decide +kernel) (by simp)
    rw [List.append_nil] at hblank
    obtain ⟨hsign, hdigit⟩ := (isDecimal_decimal r.body.length).sign_eq
    rw [hblank, stoul, hsign]
    simp only [hdigit, digits_decimal, Bool.false_eq_true, if_false]
    rw [if_neg (by have := r.body_small; omega)]

/-- **A request is read whole**, however it is cut. -/
theorem readFullRequest_cut {cut : List Bytes} (hcut : cut.flatten = r.text) (hne : [] ∉ cut) :
    readFullRequest cut = .ok (r.text, []) := by
  have hcut' : [] ++ cut.flatten = r.head ++ r.body := by
    rw [List.nil_append, hcut, RequestParts.text_eq_head]
  obtain ⟨n, hread, hlen, -⟩ := readUntil_initial r.head_ends hcut'
  rw [List.nil_append] at hread hlen
  have htext : (cut.take n).flatten ++ (cut.drop n).flatten = r.head ++ r.body := by
    rw [← List.flatten_append, List.take_append_drop, hcut, RequestParts.text_eq_head]
  obtain ⟨t, ht⟩ : r.head <+: (cut.take n).flatten :=
    List.prefix_of_prefix_length_le (List.prefix_append _ _) ⟨_, htext⟩ hlen
  rw [← ht, List.append_assoc, List.append_cancel_left_eq] at htext
  have hdrop : [] ∉ cut.drop n := fun h => hne (List.mem_of_mem_drop h)
  have hheaders : readHeaders (r.head ++ t) = .ok (t, r.head) := by
    rw [r.head_eq_block]
    refine readHeaders_block (fun line hline => ?_) t
    rcases List.mem_cons.1 hline with rfl | hline
    · exact ⟨r.clean_requestLine, by simp [r.requestLine_eq]⟩
    · obtain ⟨p, hp, rfl⟩ := List.mem_map.1 hline
      exact ⟨r.clean_header hp, fun hempty => r.head_lines.2 (hempty ▸ hline)⟩
  have hrest : r.body.length - t.length = (cut.drop n).flatten.length := by
    rw [← htext, List.length_append]
    omega
  rw [readFullRequest, hread, ← ht]
  simp only [bind, Except.bind, hheaders, r.contentLength_head, hrest, readExactly_all hdrop]
  by_cases hbody : 0 < r.body.length
  · rw [if_pos hbody, List.append_assoc, htext, RequestParts.text_eq_head]
  · have hnil : r.body = [] := by
      rw [← List.length_eq_zero_iff]
      omega
    rw [hnil] at htext
    obtain ⟨rfl, hflat⟩ := List.append_eq_nil_iff.1 htext
    have hdropnil : cut.drop n = [] :=
      List.eq_nil_iff_forall_not_mem.2 fun piece hp => hdrop
        (List.flatten_eq_nil_iff.1 hflat piece hp ▸ hp)
    rw [if_neg hbody, hdropnil, RequestParts.text_eq_head, hnil, List.append_nil]

end SyncRequest

/-! ## One round -/

variable {X : Externals} {o : HashOrder} {s : HandlerState}

/-- A round that reads a request. -/
theorem round_text {r : SyncRequest} {cut : List Bytes} (hcut : cut.flatten = r.text)
    (hne : [] ∉ cut) (writeFails : Bool) :
    (∃ response s', mainHandler X r.request s = (.ok (some response), s') ∧
      SyncHTTPServer.round (mainHandler X) o { running := true, writeFails } { unread := cut } s =
        if writeFails then (.threw .systemError, { unread := cut, isOpen := false }, s')
        else (.answered r.text ((advertised r.request response).str o), { unread := [] }, s')) ∨
    ∃ res s' e, mainHandler X r.request s = (res, s') ∧ (∀ response, res ≠ .ok (some response)) ∧
      SyncHTTPServer.round (mainHandler X) o { running := true, writeFails } { unread := cut } s =
        (.threw e, { unread := cut, isOpen := false }, s') := by
  have hread := r.readFullRequest_cut hcut hne
  obtain ⟨request, hparse, hrespond⟩ := respond_spec (mainHandler X) r.text s
  cases r.factory_parse.symm.trans hparse
  unfold SyncHTTPServer.round
  simp only [SyncConnection.goesOn, Bool.and_self, not_true_eq_false, if_false, hread, hrespond]
  rcases hres : mainHandler X r.request s with ⟨e | _ | response, s'⟩
  · exact .inr ⟨_, s', e, rfl, fun _ h => (by cases h), rfl⟩
  · exact .inr ⟨_, s', .nullDereference, rfl, fun _ h => (by cases h), rfl⟩
  · exact .inl ⟨response, s', rfl, rfl⟩

/-- **The client reads** what the handler answered, with the header of the server. -/
theorem decode_advertised {q : ClientRequest} {r : HttpResponse} (hr : Answers X s q.text r) :
    decode ((advertised q.request r).str o) = some ((advertised q.request r).message o) := by
  have hanswer := hr.answer
  refine HttpResponse.Whole.decode_message ?_ ?_ (fun k v hkv => ?_) o
  · refine (hanswer.whole (unbroken_version _)).setHeader (by decide) ?_
    split <;> decide
  · show 32 ∉ r.httpVersion
    rw [hanswer.httpVersion, q.version_text]
    exact q.version_plain
  · rcases lookup_insert_iff.1 hkv with ⟨rfl, -⟩ | ⟨-, hkv⟩
    · decide
    · exact hanswer.no_colon k v hkv

/-! ## One client -/

/-- Where a client stands behind the exchanges `h`; if its connection is not closed, then idle or
waiting for an answer. -/
inductive SyncTalk (o : HashOrder) (h : List SyncExchange) (c : HttpClient) (isOpen : Prop) : Prop
  | idle (inbox : c.inbox = []) (sent : c.sent = h.map (·.request))
      (received : c.received.map decode = h.map (·.message o))
  | waiting (r : SyncRequest) (inbox : c.inbox = r.text)
      (sent : c.sent = h.map (·.request) ++ [r.toClientRequest])
      (received : c.received.map decode = h.map (·.message o))
  | closed (closed : ¬ isOpen) (sent : h.map (·.request) <+: c.sent)
      (received : c.received.map decode <+: h.map (·.message o))

section
variable {h : List SyncExchange} {c : HttpClient} {isOpen : Prop}

theorem SyncTalk.requests (ht : SyncTalk o h c isOpen) : h.map (·.request) <+: c.sent := by
  cases ht with
  | idle _ sent => rw [sent]
  | waiting r _ sent => rw [sent]; exact List.prefix_append _ _
  | closed _ sent => exact sent

theorem SyncTalk.responses (ht : SyncTalk o h c isOpen) :
    c.received.map decode <+: h.map (·.message o) := by
  cases ht with
  | idle _ _ received => rw [received]
  | waiting r _ _ received => rw [received]
  | closed _ _ received => exact received

/-- An open connection on which nothing is left to read has answered all requests. -/
theorem SyncTalk.answered (ht : SyncTalk o h c isOpen) (hopen : isOpen) (hinbox : c.inbox = []) :
    c.received.length = c.sent.length := by
  cases ht with
  | idle _ sent received =>
    have hlen := congrArg List.length received
    rw [List.length_map, List.length_map] at hlen
    rw [sent, List.length_map, hlen]
  | waiting r inbox =>
    rw [inbox] at hinbox
    exact absurd hinbox r.text_ne_nil
  | closed closed => exact absurd hopen closed

theorem SyncTalk.mono (ht : SyncTalk o h c isOpen) {isOpen' : Prop} (hopen : isOpen' → isOpen) :
    SyncTalk o h c isOpen' := by
  cases ht with
  | idle inbox sent received => exact .idle inbox sent received
  | waiting r inbox sent received => exact .waiting r inbox sent received
  | closed closed sent received => exact .closed (fun h => closed (hopen h)) sent received

/-- A connection that ends. -/
theorem SyncTalk.lose (ht : SyncTalk o h c isOpen) {isOpen' : Prop} (hclosed : ¬ isOpen')
    (inbox : Bytes) : SyncTalk o h { c with inbox } isOpen' :=
  .closed hclosed ht.requests ht.responses

/-- A client that has all responses sends its next request. -/
theorem SyncTalk.send (ht : SyncTalk o h c isOpen) (hall : c.received.length = c.sent.length)
    (r : SyncRequest) : SyncTalk o h
      { c with sent := c.sent ++ [r.toClientRequest], inbox := c.inbox ++ r.text } isOpen := by
  cases ht with
  | idle inbox sent received =>
    exact .waiting r (by rw [inbox]; rfl) (by rw [sent]) received
  | waiting _ _ sent received =>
    have hlen := congrArg List.length received
    rw [List.length_map, List.length_map] at hlen
    rw [sent, List.length_append, List.length_map, hlen] at hall
    simp at hall
  | closed closed sent received =>
    exact .closed closed (sent.trans (List.prefix_append _ _)) received

/-- **A round** serves the request that the client waits for. -/
theorem SyncTalk.round {X : Externals} {s : HandlerState} (ht : SyncTalk X.hashOrder h c isOpen)
    (hopen : isOpen) (i : Nat) {cut : List Bytes} (hcut : cut.flatten = c.inbox) (hsome : cut ≠ [])
    (hne : [] ∉ cut) (writeFails : Bool) (isOpen' : Prop) :
    let res := SyncHTTPServer.round (mainHandler X) X.hashOrder { running := true, writeFails }
      { unread := cut } s
    (res.2.1.isOpen = false → ¬ isOpen') →
    ∃ e : SyncExchange, e.client = i ∧ SyncServes X s e res.2.2 ∧
      SyncTalk X.hashOrder (h ++ [e])
        { c with
          inbox := res.2.1.unread.flatten
          received := c.received ++ SyncNetwork.written res.1 } isOpen' := by
  intro res hends
  cases ht with
  | idle inbox _ _ =>
    rw [inbox, List.flatten_eq_nil_iff] at hcut
    obtain ⟨piece, pieces, rfl⟩ := List.exists_cons_of_ne_nil hsome
    exact absurd (hcut piece List.mem_cons_self ▸ List.mem_cons_self) hne
  | closed closed => exact absurd hopen closed
  | waiting r inbox sent received =>
    have hprefix (e : SyncExchange) (he : e.request = r.toClientRequest) (inbox : Bytes)
        (hclosed : ¬ isOpen') : SyncTalk X.hashOrder (h ++ [e])
          { c with inbox, received := c.received ++ [] } isOpen' := by
      refine .closed hclosed ?_ ?_
      · simp [sent, he]
      · rw [List.append_nil, received, List.map_append]
        exact List.prefix_append _ _
    rcases round_text (X := X) (o := X.hashOrder) (s := s) (hcut.trans inbox) hne writeFails with
      ⟨response, s', hserve, heq⟩ | ⟨outcome, s', e, hserve, hnone, heq⟩
    · have hanswers : Answers X s r.text response := ⟨_, r.factory_parse, by rw [hserve]⟩
      refine ⟨{ client := i, request := r.toClientRequest, response := some response }, rfl, ?_, ?_⟩
      · refine ⟨_, hserve.trans (Prod.ext rfl ?_), rfl⟩
        show s' = (SyncHTTPServer.round _ _ _ _ _).2.2
        rw [heq]
        split <;> rfl
      · cases writeFails with
        | false =>
          simp only [res, heq, Bool.false_eq_true, if_false]
          refine .idle rfl (by simp [sent]) ?_
          simp [SyncNetwork.written, received, decode_advertised hanswers, SyncExchange.message]
        | true =>
          simp only [res, heq, if_true] at hends ⊢
          exact hprefix _ rfl _ (hends trivial)
    · refine ⟨{ client := i, request := r.toClientRequest, response := none }, rfl, ?_, ?_⟩
      · refine ⟨_, hserve.trans (Prod.ext rfl ?_), ?_⟩
        · show s' = (SyncHTTPServer.round _ _ _ _ _).2.2
          rw [heq]
        · split
          · exact absurd rfl (hnone _)
          · rfl
      · simp only [res, heq] at hends ⊢
        exact hprefix _ rfl _ (hends trivial)

end

/-! ## The network -/

namespace SyncNetwork

open Runs

variable {X : Externals} {database : SqliteDatabase} {s₀ : HandlerState}
  {history : List SyncExchange} {w w' : SyncNetwork}

/-- The connection is not accepted yet, or served. -/
def Open (w : SyncNetwork) (i : Nat) : Prop :=
  i ∉ w.accepted.map Prod.fst ∨ w.thread.serving = some i

structure Invariant (X : Externals) (database : SqliteDatabase) (s₀ : HandlerState)
    (history : List SyncExchange) (w : SyncNetwork) : Prop where
  served : Path (SyncServes X) s₀ history w.handlers
  database : w.database = after SyncHTTPServer.visited database (w.accepted.map Prod.snd)
  accepted : ∀ i, w.thread.serving = some i → i ∈ w.accepted.map Prod.fst
  talks : ∀ i, SyncTalk X.hashOrder (SyncExchange.ofClient i history) (w.clients i) (w.Open i)

theorem ofClient_append (i : Nat) (history : List SyncExchange) (e : SyncExchange) :
    SyncExchange.ofClient i (history ++ [e]) =
      if e.client = i then SyncExchange.ofClient i history ++ [e]
      else SyncExchange.ofClient i history := by
  unfold SyncExchange.ofClient
  rw [List.filter_append]
  by_cases hi : e.client = i <;> simp [hi]

/-- The thread moves on, and no other connection is opened by it. -/
theorem Invariant.thread (inv : Invariant X database s₀ history w) {thread : AcceptThread}
    (hserving : ∀ i, thread.serving = some i → w.thread.serving = some i) (running : Bool) :
    Invariant X database s₀ history { w with thread, running } where
  served := inv.served
  database := inv.database
  accepted i hi := inv.accepted i (hserving i hi)
  talks i := (inv.talks i).mono fun hopen => hopen.imp_right (hserving i)

/-- The client whose connection is being read has been accepted. -/
theorem Invariant.reading (inv : Invariant X database s₀ history w) {i : Nat}
    (hthread : w.thread = .reading i) : w.thread.serving = some i ∧
      i ∈ w.accepted.map Prod.fst := by
  have hserving : w.thread.serving = some i := by rw [hthread]; rfl
  exact ⟨hserving, inv.accepted i hserving⟩

/-- A client that is gone loses its connection. -/
theorem Invariant.gone (inv : Invariant X database s₀ history w) {i : Nat}
    (hthread : w.thread = .reading i) :
    Invariant X database s₀ history (w.serve X i [] false) := by
  have hserve : w.serve X i [] false = { w with
      thread := .accepting
      clients := Function.update w.clients i { w.clients i with
        inbox := []
        received := (w.clients i).received ++ [] } } := rfl
  rw [hserve, List.append_nil]
  refine ⟨inv.served, inv.database, nofun, fun j => ?_⟩
  by_cases hj : j = i
  · subst hj
    simp only [Function.update_self]
    refine (inv.talks j).lose (fun hopen => ?_) []
    rcases hopen with hnew | hserving
    · exact hnew (inv.reading hthread).2
    · cases hserving
  · simp only [Function.update_of_ne hj]
    exact (inv.talks j).mono fun hopen => hopen.imp_right nofun

theorem serve_clients (X : Externals) (w : SyncNetwork) (i : Nat) (unread : List Bytes)
    (writeFails : Bool) :
    let res := SyncHTTPServer.round (mainHandler X) X.hashOrder { running := true, writeFails }
      { unread } w.handlers
    (w.serve X i unread writeFails).clients = Function.update w.clients i { w.clients i with
      inbox := res.2.1.unread.flatten
      received := (w.clients i).received ++ written res.1 } := rfl

/-- A round that reads a request serves it. -/
theorem Invariant.round (inv : Invariant X database s₀ history w) {i : Nat} {cut : List Bytes}
    (hthread : w.thread = .reading i) (hcut : cut.flatten = (w.clients i).inbox) (hsome : cut ≠ [])
    (hne : [] ∉ cut) (writeFails : Bool) :
    ∃ e : SyncExchange, e.client = i ∧
      Invariant X database s₀ (history ++ [e]) (w.serve X i cut writeFails) := by
  obtain ⟨hserving, haccepted⟩ := inv.reading hthread
  obtain ⟨e, rfl, hserves, htalk⟩ := (inv.talks i).round (s := w.handlers) (.inr hserving) i hcut
    hsome hne writeFails ((w.serve X i cut writeFails).Open i) (by
      intro hclosed hopen
      rcases hopen with hnew | hserving'
      · exact hnew haccepted
      · simp only [serve, hclosed, Bool.false_eq_true, if_false] at hserving'
        cases hserving')
  have hsame (j : Nat) (hj : (w.serve X e.client cut writeFails).thread.serving = some j) :
      j = e.client := by
    simp only [serve] at hj
    split at hj
    · exact (Option.some.inj hj).symm
    · cases hj
  refine ⟨e, rfl, inv.served.append (.cons hserves (.nil _)), inv.database,
    fun j hj => hsame j hj ▸ haccepted, fun j => ?_⟩
  rw [ofClient_append, serve_clients]
  by_cases hj : j = e.client
  · subst hj
    rw [if_pos rfl, Function.update_self]
    exact htalk
  · rw [if_neg (Ne.symm hj), Function.update_of_ne hj]
    refine (inv.talks j).mono fun hopen => hopen.imp_right fun hserving' => ?_
    exact absurd (hsame j hserving') hj

/-- A connection is accepted. -/
theorem Invariant.accept (inv : Invariant X database s₀ history w) {i : Nat}
    (hnew : i ∉ w.accepted.map Prod.fst) (v : Visit) :
    Invariant X database s₀ history { w with
      database := (SyncHTTPServer.bookkeeping v w.database).2
      accepted := w.accepted ++ [(i, v)]
      thread := match (SyncHTTPServer.bookkeeping v w.database).1 with
        | .ok _ => .atLoop i
        | .error _ => .accepting } := by
  have hsame (j : Nat) (hj : (match (SyncHTTPServer.bookkeeping v w.database).1 with
      | .ok _ => AcceptThread.atLoop i
      | .error _ => AcceptThread.accepting).serving = some j) : j = i := by
    split at hj
    · exact (Option.some.inj hj).symm
    · cases hj
  refine ⟨inv.served, ?_, fun j hj => ?_, fun j => (inv.talks j).mono fun hopen => .inl ?_⟩
  · show SyncHTTPServer.visited w.database v = _
    rw [inv.database, List.map_append, after, after, List.foldl_append]
    rfl
  · rw [hsame j hj, List.map_append]
    exact List.mem_append_right _ (List.mem_singleton.2 rfl)
  · rcases hopen with hnot | hserving
    · rw [List.map_append, List.mem_append, not_or] at hnot
      exact hnot.1
    · exact hsame j hserving ▸ hnew

/-- The requests that are being read. -/
def underWay : AcceptThread → Nat
  | .reading _ => 1
  | _ => 0

theorem underWay_le (thread : AcceptThread) : underWay thread ≤ 1 := by
  unfold underWay
  split <;> omega

/-- Once the server is stopped it stays so, and serves no more than what is being read. -/
def Stopping (w : SyncNetwork) (history : List SyncExchange) (w' : SyncNetwork)
    (now : List SyncExchange) : Prop :=
  w.running = false → w'.running = false ∧
    now.length + underWay w'.thread ≤ history.length + underWay w.thread

theorem Stopping.trans {w'' : SyncNetwork} {now more : List SyncExchange}
    (h : Stopping w history w' now) (h' : Stopping w' now w'' (now ++ more)) :
    Stopping w history w'' (now ++ more) := by
  intro hstopped
  obtain ⟨hstopped', hbound⟩ := h hstopped
  obtain ⟨hstopped'', hbound'⟩ := h' hstopped'
  exact ⟨hstopped'', hbound'.trans hbound⟩

/-- A round ends the read. -/
theorem serve_ends (X : Externals) (w : SyncNetwork) (i : Nat) (unread : List Bytes)
    (writeFails : Bool) : underWay (w.serve X i unread writeFails).thread = 0 ∧
      (w.serve X i unread writeFails).running = w.running := by
  refine ⟨?_, rfl⟩
  simp only [serve]
  split <;> rfl

/-- **Every step** serves a request of the connection that is being read, or none. -/
theorem Invariant.step (inv : Invariant X database s₀ history w) {a : Action}
    (hstep : Steps X w a w') : ∃ more, Invariant X database s₀ (history ++ more) w' ∧
      Stopping w history w' (history ++ more) ∧ ∀ e ∈ more, w.thread = .reading e.client := by
  have hnone (inv' : Invariant X database s₀ history w')
      (hstopping : Stopping w history w' history) : ∃ more,
        Invariant X database s₀ (history ++ more) w' ∧
          Stopping w history w' (history ++ more) ∧
            ∀ e ∈ more, w.thread = .reading e.client := by
    refine ⟨[], ?_⟩
    rw [List.append_nil]
    exact ⟨inv', hstopping, fun _ he => by cases he⟩
  cases a with
  | send i r =>
    simp only [Steps, SyncNetwork.step] at hstep
    split at hstep
    · rename_i hall
      cases hstep
      refine hnone ⟨inv.served, inv.database, inv.accepted, fun j => ?_⟩ fun hs => ⟨hs, le_rfl⟩
      by_cases hj : j = i
      · subst hj
        simp only [Function.update_self]
        exact (inv.talks j).send hall r
      · simp only [Function.update_of_ne hj]
        exact inv.talks j
    · cases hstep
  | accept i v =>
    simp only [Steps, SyncNetwork.step] at hstep
    split at hstep
    · rename_i hcan
      split at hstep
      · rename_i hrunning
        cases hstep
        exact hnone (inv.accept hcan.2 v) fun hs => absurd (hrunning.symm.trans hs) nofun
      · cases hstep
        refine hnone (inv.thread (fun _ hj => by cases hj) w.running) fun hs => ⟨hs, ?_⟩
        exact Nat.add_le_add_left (Nat.zero_le _) _
    · cases hstep
  | check =>
    simp only [Steps, SyncNetwork.step] at hstep
    split at hstep
    · rename_i i hthread
      cases hstep
      refine hnone (inv.thread (fun j hj => ?_) w.running) fun hs => ⟨hs, ?_⟩
      · rw [hthread]
        split at hj
        · exact hj
        · cases hj
      · simp [hs, underWay]
    · cases hstep
  | round cut writeFails =>
    simp only [Steps, SyncNetwork.step] at hstep
    split at hstep
    · rename_i i hthread
      split at hstep
      · rename_i hcan
        cases hstep
        obtain ⟨e, rfl, he⟩ := inv.round hthread hcan.1 hcan.2.1 hcan.2.2 writeFails
        refine ⟨[e], he, fun hs => ⟨hs, ?_⟩, fun e' he' => ?_⟩
        · rw [(serve_ends X w e.client cut writeFails).1, hthread, List.length_append]
          exact le_rfl
        · rw [List.mem_singleton.1 he', hthread]
      · cases hstep
    · cases hstep
  | gone =>
    simp only [Steps, SyncNetwork.step] at hstep
    split at hstep
    · rename_i i hthread
      cases hstep
      refine hnone (inv.gone hthread) fun hs => ⟨hs, ?_⟩
      rw [(serve_ends X w i [] false).1]
      exact Nat.add_le_add_left (Nat.zero_le _) _
    · cases hstep
  | stop =>
    cases hstep
    exact hnone (inv.thread (fun _ => id) false) fun _ => ⟨rfl, le_rfl⟩

theorem Invariant.realizes (inv : Invariant X database s₀ history w) :
    SyncRealizes X database s₀ history w where
  served := inv.served
  database := inv.database
  requests i := (inv.talks i).requests
  responses i := (inv.talks i).responses
  answered i hserving hinbox := (inv.talks i).answered (.inr hserving) hinbox

/-- **The blocking server realizes exchanges**: in every run the requests of the clients are served
whole and one after the other, in which the handlers of `main` go from state to state, every client
reads in its responses what they answered, with the header of the server, and the bookkeeping is
that of the accepted connections. Later steps only add exchanges, at most one behind `stop()`. -/
theorem served_in_order {clocks : Nat → UserHandler.Clocks} {as bs : List Action}
    (hw : Path (Steps X) (start database clocks) as w) (hw' : Path (Steps X) w bs w') :
    ∃ history more, SyncRealizes X database { clocks } history w ∧
      SyncRealizes X database { clocks } (history ++ more) w' ∧
      (w.running = false → more.length ≤ 1) := by
  have hinit : Invariant X database { clocks } [] (start database clocks) :=
    ⟨.nil _, rfl, nofun, fun _ => .idle rfl rfl rfl⟩
  have hstep : ∀ (u : SyncNetwork) (a : Action) (u' : SyncNetwork) (now : List SyncExchange),
      Invariant X database { clocks } now u → Steps X u a u' →
        ∃ more, Invariant X database { clocks } (now ++ more) u' :=
    fun _ _ _ _ inv hstep => (inv.step hstep).imp fun _ => And.left
  obtain ⟨history, inv⟩ := hw.extends hstep hinit
  rw [List.nil_append] at inv
  have hlater : ∀ (u : SyncNetwork) (a : Action) (u' : SyncNetwork) (now : List SyncExchange),
      Invariant X database { clocks } now u ∧ Stopping w history u now → Steps X u a u' →
        ∃ more, Invariant X database { clocks } (now ++ more) u' ∧
          Stopping w history u' (now ++ more) := by
    rintro u a u' now ⟨inv, hstopping⟩ hstep
    obtain ⟨more, inv', hmore, -⟩ := inv.step hstep
    exact ⟨more, inv', hstopping.trans hmore⟩
  obtain ⟨more, inv', hstopping⟩ := hw'.extends hlater ⟨inv, fun hstopped => ⟨hstopped, le_rfl⟩⟩
  refine ⟨history, more, inv.realizes, inv'.realizes, fun hstopped => ?_⟩
  have hbound := (hstopping hstopped).2
  have := underWay_le w.thread
  rw [List.length_append] at hbound
  omega

/-- A request line alone. -/
def getRequest (path : Bytes) (hplain : Clean path ∧ 32 ∉ path ∧ 63 ∉ path)
    (hlength : find (Network.getParts path hplain).head contentLengthName 0 = none)
    (hname : find (Network.getParts path hplain).head (bytes "Content-Length:") 0 = none) :
    SyncRequest where
  toClientRequest := Network.getRequest path hplain hlength
  name_spaced i hi := absurd hi (find_eq_none.1 hname i (Nat.zero_le _))
  body_small := Nat.two_pow_pos 32

def hello : SyncRequest :=
  getRequest "/hello" Network.hello_plain Network.hello_unannounced (by decide +kernel)

/-- Two clients, the first of which is answered and leaves; the server is stopped while it reads
the request of the second. -/
def twoConnections : List Action :=
  [.send 1 hello, .accept 0 { address := some 5 }, .check, .send 0 hello,
    .round [hello.text.take 7, hello.text.drop 7] false, .check, .gone,
    .accept 1 { address := some 7 }, .check, .stop]

theorem twoConnections_realized : ∃ w w' : SyncNetwork,
    twoConnections.foldlM (step UserHandler.fewTexts)
      (start SqliteDatabase.memory fun _ => UserHandler.noonClocks) = some w ∧
    [Action.round [hello.text] true, .accept 2 { address := none }].foldlM
      (step UserHandler.fewTexts) w = some w' ∧
    ∃ history more,
      SyncRealizes UserHandler.fewTexts SqliteDatabase.memory
        { clocks := fun _ => UserHandler.noonClocks } history w ∧
      SyncRealizes UserHandler.fewTexts SqliteDatabase.memory
        { clocks := fun _ => UserHandler.noonClocks } (history ++ more) w' ∧
      (w.running = false → more.length ≤ 1) := by
  have hrun : ((twoConnections.foldlM (step UserHandler.fewTexts)
      (start SqliteDatabase.memory fun _ => UserHandler.noonClocks)).bind fun w =>
        [Action.round [hello.text] true, .accept 2 { address := none }].foldlM
          (step UserHandler.fewTexts) w).isSome := by
    decide +kernel
  obtain ⟨w', hw'⟩ := Option.isSome_iff_exists.1 hrun
  obtain ⟨w, hw, hw'⟩ := Option.bind_eq_some_iff.1 hw'
  exact ⟨w, w', hw, hw', served_in_order (path_iff_foldlM.2 hw) (path_iff_foldlM.2 hw')⟩

/-! ## One connection after the other -/

/-- The exchanges come in turns: those of a connection all stand behind those of the connections
accepted before it, and only the connection accepted last is served. -/
structure Turns (history : List SyncExchange) (w : SyncNetwork) : Prop where
  order : history = w.accepted.flatMap fun a => SyncExchange.ofClient a.1 history
  distinct : (w.accepted.map Prod.fst).Nodup
  last : ∀ i, w.thread.serving = some i → ∃ front v, w.accepted = front ++ [(i, v)]

/-- A step accepts a connection, or serves the one it served before. -/
theorem step_accepted {a : Action} (hstep : Steps X w a w') :
    (w'.accepted = w.accepted ∧ ∀ i, w'.thread.serving = some i → w.thread.serving = some i) ∨
      w.thread = .accepting ∧ ∃ i v, i ∉ w.accepted.map Prod.fst ∧
        w'.accepted = w.accepted ++ [(i, v)] ∧ ∀ j, w'.thread.serving = some j → j = i := by
  have hserve (i : Nat) (unread : List Bytes) (writeFails : Bool) (hthread : w.thread = .reading i)
      (j : Nat) (hj : (w.serve X i unread writeFails).thread.serving = some j) :
      w.thread.serving = some j := by
    simp only [serve] at hj
    split at hj
    · rw [hthread]
      exact hj
    · cases hj
  cases a with
  | send i r =>
    simp only [Steps, SyncNetwork.step] at hstep
    split at hstep
    · cases hstep
      exact .inl ⟨rfl, fun _ => id⟩
    · cases hstep
  | accept i v =>
    simp only [Steps, SyncNetwork.step] at hstep
    split at hstep
    · rename_i hcan
      split at hstep
      · cases hstep
        refine .inr ⟨hcan.1, i, v, hcan.2, rfl, fun j hj => ?_⟩
        simp only at hj
        split at hj
        · exact (Option.some.inj hj).symm
        · cases hj
      · cases hstep
        exact .inl ⟨rfl, fun _ hj => by cases hj⟩
    · cases hstep
  | check =>
    simp only [Steps, SyncNetwork.step] at hstep
    split at hstep
    · rename_i i hthread
      cases hstep
      refine .inl ⟨rfl, fun j hj => ?_⟩
      simp only at hj
      split at hj
      · rw [hthread]
        exact hj
      · cases hj
    · cases hstep
  | round cut writeFails =>
    simp only [Steps, SyncNetwork.step] at hstep
    split at hstep
    · rename_i i hthread
      split at hstep
      · cases hstep
        exact .inl ⟨rfl, hserve i cut writeFails hthread⟩
      · cases hstep
    · cases hstep
  | gone =>
    simp only [Steps, SyncNetwork.step] at hstep
    split at hstep
    · rename_i i hthread
      cases hstep
      exact .inl ⟨rfl, hserve i [] false hthread⟩
    · cases hstep
  | stop =>
    cases hstep
    exact .inl ⟨rfl, fun _ => id⟩

/-- A connection that was not accepted has made no exchange. -/
theorem Turns.ofClient_nil (h : Turns history w) {i : Nat} (hi : i ∉ w.accepted.map Prod.fst) :
    SyncExchange.ofClient i history = [] := by
  rw [SyncExchange.ofClient, List.filter_eq_nil_iff]
  intro e he hei
  rw [h.order] at he
  obtain ⟨a, ha, hea⟩ := List.mem_flatMap.1 he
  have hclient := (List.mem_filter.1 hea).2
  rw [decide_eq_true_eq] at hei hclient
  exact hi (List.mem_map.2 ⟨a, ha, hclient.symm.trans hei⟩)

/-- Further exchanges of the connection accepted last keep the order. -/
theorem Turns.append (h : Turns history w) {i : Nat} {more : List SyncExchange}
    (hmore : ∀ e ∈ more, e.client = i) (hserving : w.thread.serving = some i) :
    history ++ more =
      w.accepted.flatMap fun a => SyncExchange.ofClient a.1 (history ++ more) := by
  obtain ⟨front, v, hsplit⟩ := h.last i hserving
  have hlast : SyncExchange.ofClient i (history ++ more) =
      SyncExchange.ofClient i history ++ more := by
    rw [SyncExchange.ofClient, List.filter_append, SyncExchange.ofClient,
      List.filter_eq_self.2 fun e he => decide_eq_true (hmore e he)]
  have hfront : ∀ a ∈ front, SyncExchange.ofClient a.1 (history ++ more) =
      SyncExchange.ofClient a.1 history := by
    intro a ha
    have hne : i ≠ a.1 := by
      have hdistinct := h.distinct
      rw [hsplit, List.map_append, List.nodup_append] at hdistinct
      exact (hdistinct.2.2 a.1 (List.mem_map_of_mem ha) i List.mem_cons_self).symm
    have hnone : more.filter (·.client = a.1) = [] :=
      List.filter_eq_nil_iff.2 fun e he hea =>
        hne ((hmore e he).symm.trans (of_decide_eq_true hea))
    rw [SyncExchange.ofClient, List.filter_append, hnone, List.append_nil, SyncExchange.ofClient]
  have horder := h.order
  rw [hsplit, List.flatMap_append] at horder ⊢
  simp only [List.flatMap_cons, List.flatMap_nil, List.append_nil] at horder ⊢
  calc history ++ more
      = (front.flatMap (fun a => SyncExchange.ofClient a.1 history) ++
          SyncExchange.ofClient i history) ++ more := by rw [← horder]
    _ = front.flatMap (fun a => SyncExchange.ofClient a.1 (history ++ more)) ++
          SyncExchange.ofClient i (history ++ more) := by
        rw [List.append_assoc, hlast, List.flatMap_congr hfront]

/-- **A step** keeps the turns. -/
theorem Turns.step (h : Turns history w) {a : Action} (hstep : Steps X w a w')
    {more : List SyncExchange} (hmore : ∀ e ∈ more, w.thread = .reading e.client) :
    Turns (history ++ more) w' := by
  have hserving : ∀ e ∈ more, w.thread.serving = some e.client := by
    intro e he
    rw [hmore e he]
    rfl
  rcases step_accepted hstep with ⟨hsame, hthread⟩ | ⟨hthread, i, v, hnew, haccepted, hserved⟩
  · refine ⟨?_, hsame ▸ h.distinct, fun i hi => hsame ▸ h.last i (hthread i hi)⟩
    rw [hsame]
    cases more with
    | nil => simpa using h.order
    | cons e more =>
      have he := hserving e List.mem_cons_self
      exact h.append (fun e' he' => Option.some.inj ((hserving e' he').symm.trans he)) he
  · -- while it accepts, the thread serves nobody
    have hnil : more = [] := by
      cases more with
      | nil => rfl
      | cons e more =>
        have hreading := hmore e List.mem_cons_self
        rw [hthread] at hreading
        cases hreading
    rw [hnil, List.append_nil]
    refine ⟨?_, ?_, fun j hj => ⟨w.accepted, v, by rw [haccepted, hserved j hj]⟩⟩
    · rw [haccepted, List.flatMap_append, ← h.order]
      simp [h.ofClient_nil hnew]
    · rw [haccepted, List.map_append, List.nodup_append]
      refine ⟨h.distinct, List.nodup_singleton i, fun j hj k hk hjk => ?_⟩
      rw [List.map_singleton, List.mem_singleton] at hk
      rw [hjk, hk] at hj
      exact hnew hj

/-- Unless another connection has been accepted since `w`, only the client that was served then has
been answered. -/
def Waiting (w w' : SyncNetwork) (more : List SyncExchange) : Prop :=
  ∃ later, w'.accepted = w.accepted ++ later ∧ (later = [] →
    (∀ e ∈ more, w.thread.serving = some e.client) ∧
      ∀ i, w'.thread.serving = some i → w.thread.serving = some i)

theorem Waiting.step {w₀ : SyncNetwork} {now more : List SyncExchange} (h : Waiting w₀ w now)
    {a : Action} (hstep : Steps X w a w') (hmore : ∀ e ∈ more, w.thread = .reading e.client) :
    Waiting w₀ w' (now ++ more) := by
  obtain ⟨later, haccepted, hwait⟩ := h
  rcases step_accepted hstep with ⟨hsame, hthread⟩ | ⟨-, i, v, -, hnew, -⟩
  · refine ⟨later, hsame.trans haccepted, fun hnil => ?_⟩
    obtain ⟨hnow, hserving⟩ := hwait hnil
    refine ⟨fun e he => ?_, fun i hi => hserving i (hthread i hi)⟩
    rcases List.mem_append.1 he with he | he
    · exact hnow e he
    · refine hserving e.client ?_
      rw [hmore e he]
      rfl
  · refine ⟨later ++ [(i, v)], by rw [hnew, haccepted, List.append_assoc], fun hnil => ?_⟩
    simp at hnil

/-- **One connection after the other**: in every run the exchanges are those of the accepted
connections, one connection after the other in the order in which they are accepted. As long as no
other connection is accepted, all clients but the one that is served wait. -/
theorem turns_of_run {clocks : Nat → UserHandler.Clocks} {as bs : List Action}
    (hw : Path (Steps X) (start database clocks) as w) (hw' : Path (Steps X) w bs w') :
    ∃ history more, SyncRealizes X database { clocks } history w ∧
      SyncRealizes X database { clocks } (history ++ more) w' ∧
      history ++ more =
        w'.accepted.flatMap (fun a => SyncExchange.ofClient a.1 (history ++ more)) ∧
      (w'.accepted.length = w.accepted.length →
        ∀ e ∈ more, w.thread.serving = some e.client) := by
  have hinit : Invariant X database { clocks } [] (start database clocks) ∧
      Turns [] (start database clocks) :=
    ⟨⟨.nil _, rfl, nofun, fun _ => .idle rfl rfl rfl⟩, rfl, List.nodup_nil, nofun⟩
  obtain ⟨history, inv, hturns⟩ := hw.extends
    (J := fun u now => Invariant X database { clocks } now u ∧ Turns now u)
    (fun _ _ _ _ ⟨inv, hturns⟩ hstep => by
      obtain ⟨more, inv', -, hmore⟩ := inv.step hstep
      exact ⟨more, inv', hturns.step hstep hmore⟩) hinit
  rw [List.nil_append] at inv hturns
  have hbehind : Invariant X database { clocks } (history ++ []) w ∧ Turns (history ++ []) w ∧
      Waiting w w [] := by
    rw [List.append_nil]
    exact ⟨inv, hturns, [], (List.append_nil _).symm, fun _ => ⟨by simp, fun _ => id⟩⟩
  obtain ⟨more, inv', hturns', later, haccepted, hwait⟩ := hw'.extends
    (J := fun u now => Invariant X database { clocks } (history ++ now) u ∧
      Turns (history ++ now) u ∧ Waiting w u now)
    (fun _ _ _ now ⟨inv, hturns, hwaiting⟩ hstep => by
      obtain ⟨more, inv', -, hmore⟩ := inv.step hstep
      rw [List.append_assoc] at inv'
      refine ⟨more, inv', ?_, hwaiting.step hstep hmore⟩
      rw [← List.append_assoc]
      exact hturns.step hstep hmore) hbehind
  rw [List.nil_append] at inv' hturns' hwait
  refine ⟨history, more, inv.realizes, inv'.realizes, hturns'.order, fun hsame => (hwait ?_).1⟩
  rw [haccepted, List.length_append] at hsame
  exact List.eq_nil_of_length_eq_zero (by omega)

/-- The second client has written its request before the first one is accepted, and waits until that
one is gone. -/
theorem twoConnections_wait : ∃ w w' : SyncNetwork,
    (twoConnections.take 4).foldlM (step UserHandler.fewTexts)
      (start SqliteDatabase.memory fun _ => UserHandler.noonClocks) = some w ∧
    ((twoConnections.drop 4).take 2).foldlM (step UserHandler.fewTexts) w = some w' ∧
    ∃ history more,
      SyncRealizes UserHandler.fewTexts SqliteDatabase.memory
        { clocks := fun _ => UserHandler.noonClocks } history w ∧
      SyncRealizes UserHandler.fewTexts SqliteDatabase.memory
        { clocks := fun _ => UserHandler.noonClocks } (history ++ more) w' ∧
      history ++ more =
        w'.accepted.flatMap (fun a => SyncExchange.ofClient a.1 (history ++ more)) ∧
      ∀ e ∈ more, e.client = 0 := by
  have hrun : ((twoConnections.take 4).foldlM (step UserHandler.fewTexts)
      (start SqliteDatabase.memory fun _ => UserHandler.noonClocks)).any (fun w =>
        w.thread = .reading 0 && w.accepted.length == 1 &&
          (((twoConnections.drop 4).take 2).foldlM (step UserHandler.fewTexts) w).any
            (·.accepted.length == 1)) = true := by
    decide +kernel
  obtain ⟨w, hw, hsecond⟩ := (Option.any_eq_true _ _).1 hrun
  simp only [Bool.and_eq_true, beq_iff_eq, decide_eq_true_eq] at hsecond
  obtain ⟨⟨hthread, hone⟩, hsecond⟩ := hsecond
  obtain ⟨w', hw', hone'⟩ := (Option.any_eq_true _ _).1 hsecond
  obtain ⟨history, more, hrealizes, hrealizes', horder, hwait⟩ :=
    turns_of_run (path_iff_foldlM.2 hw) (path_iff_foldlM.2 hw')
  refine ⟨w, w', hw, hw', history, more, hrealizes, hrealizes', horder, fun e he => ?_⟩
  have hserving := hwait ((beq_iff_eq.1 hone').trans hone.symm) e he
  rw [hthread] at hserving
  exact (Option.some.inj hserving).symm

end SyncNetwork

end HttpsTest
