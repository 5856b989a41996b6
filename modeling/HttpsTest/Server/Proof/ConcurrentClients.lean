import HttpsTest.Server.ConcurrentClients
import HttpsTest.Server.Proof.Queries
import HttpsTest.Users.Proof.Concurrency

/-!
# Requests on several threads are exchanges one after the other

`ConcurrentNetwork.realizesAlone_of_run`: in every run in which no loop over the users runs while an
upload replaces them, the calls of the user handler may overlap in any way, and yet what happens on
the network are exchanges of whole requests and responses in one order, each as if its request had
been alone, but for the uploads that come while another one is in its section. A request takes its
place in this order when its response is settled, before its thread writes it; `InCall` is the
invariant of a connection whose request is being served.
`answersUploads_of_run`: what a client uploads is what the queries of all clients list.
-/

set_option autoImplicit false

namespace HttpsTest

open AsyncClientHandler Search Runs

/-! ## The handlers -/

section
variable {X : Externals}

theorem mainHandler_user {request : IRequest} (hr : router.route request = some .userHandler)
    (s : HandlerState) : mainHandler X request s =
      ((s.userHandler.handleRequest X (s.clocks 0) request).1.map some,
        { s.tick with
          userHandler := (s.userHandler.handleRequest X (s.clocks 0) request).2 }) := by
  unfold mainHandler RequestRouter.handleRequest
  rw [hr]
  rfl

/-- The other handlers do not look at the user handler. -/
theorem mainHandler_other {request : IRequest} (hr : router.route request ≠ some .userHandler)
    (u v : UserHandler) (clocks : Nat → UserHandler.Clocks) :
    (mainHandler X request { userHandler := u, clocks }).1 =
        (mainHandler X request { userHandler := v, clocks }).1 ∧
      (mainHandler X request { userHandler := u, clocks }).2.userHandler = u := by
  unfold mainHandler RequestRouter.handleRequest
  cases hroute : router.route request with
  | none => exact ⟨rfl, rfl⟩
  | some handler =>
    cases handler with
    | userHandler => exact absurd hroute hr
    | helloHandler => exact ⟨rfl, rfl⟩
    | defaultHandler => exact ⟨rfl, rfl⟩

variable {h h' : UserHandler}

/-- A request for another handler is served alone, whatever the user handler is doing. -/
theorem servesAlone_other {e : Exchange} {u : UserHandler}
    {clocks : UserHandler.Clocks}
    (hr : router.route e.request.request ≠ some .userHandler)
    (houtcome : e.outcome = outcomeOf X.hashOrder (mainHandler X e.request.request
      { userHandler := u, clocks := fun _ => clocks }).1) : ServesAlone X h e h := by
  obtain ⟨hsame, -⟩ := mainHandler_other (X := X) hr u h fun _ => clocks
  obtain ⟨-, hkeeps⟩ := mainHandler_other (X := X) hr h h fun _ => clocks
  rw [hsame] at houtcome
  exact ⟨clocks, _, ⟨_, rfl, houtcome⟩, hkeeps⟩

/-- A request for the user handler is served alone, and its response is read as it is meant. -/
theorem servesAlone_user {clocks : UserHandler.Clocks} {r : ClientRequest}
    {response : Except Exn HttpResponse} (hr : router.route r.request = some .userHandler)
    (hrun : h.handleRequest X clocks r.request = (response, h')) (i : Nat) :
    ServesAlone X h
        { client := i, request := r, outcome := outcomeOf X.hashOrder (response.map some) } h' ∧
      ∀ res, response = .ok res →
        decode (res.str X.hashOrder) = some (res.message X.hashOrder) := by
  have hmain := mainHandler_user (X := X) hr { userHandler := h, clocks := fun _ => clocks }
  simp only [hrun] at hmain
  refine ⟨⟨clocks, _, ⟨_, hmain, rfl⟩, rfl⟩, fun res hres => ?_⟩
  rw [hres] at hmain
  exact decode_mainHandler hmain

/-- The turn of a call that the sequential user handler serves. -/
def turnOf (o : HashOrder) (i : Nat) (r : ClientRequest) (entry : SharedHandler.Entry) : Turn where
  client := i
  request := r
  outcome := outcomeOf o (entry.response.map some)
  refusedCall := if entry.during then some entry.call else none

theorem refusedCalls_turnOf (o : HashOrder) (i : Nat) (r : ClientRequest)
    (entry : SharedHandler.Entry) :
    refusedCalls [turnOf o i r entry] = SharedHandler.refusals [entry] := by
  cases hduring : entry.during <;> simp [refusedCalls, turnOf, SharedHandler.refusals, hduring]

theorem refusedCalls_append (history more : List Turn) :
    refusedCalls (history ++ more) = refusedCalls history ++ refusedCalls more :=
  List.filterMap_append ..

/-- A call of the user handler is served in its turn, and its response is read as it is meant. -/
theorem servesTurn_entry {entry : SharedHandler.Entry} (hs : SharedHandler.Served X h entry h')
    (i : Nat) {r : ClientRequest} (hrequest : entry.request = r.request)
    (hr : router.route r.request = some .userHandler)
    (hduring : entry.during = true → UserHandler.isUpload entry.request = true) :
    ServesTurn X h (turnOf X.hashOrder i r entry) h' ∧
      ∀ response, entry.response = .ok response →
        decode (response.str X.hashOrder) = some (response.message X.hashOrder) := by
  unfold SharedHandler.Served at hs
  rw [hrequest] at hs hduring
  unfold ServesTurn turnOf
  cases hd : entry.during with
  | true =>
    rw [hd, if_pos rfl] at hs
    obtain ⟨hserves, hdecoded⟩ := servesAlone_user hr hs.1 i
    exact ⟨⟨hduring hd, hserves, hs.2⟩, hdecoded⟩
  | false =>
    rw [hd, if_neg Bool.false_ne_true] at hs
    exact servesAlone_user hr hs i

/-- Where no call is refused, every request is served alone. -/
theorem path_servesAlone {history : List Turn} (hserved : Path (ServesTurn X) h history h')
    (hnone : refusedCalls history = []) :
    Path (ServesAlone X) h (history.map (·.toExchange)) h' := by
  induction hserved with
  | nil h => exact .nil h
  | @cons h _ _ t history ht _ ih =>
    cases hcall : t.refusedCall with
    | none =>
      unfold ServesTurn at ht
      rw [hcall, if_neg (by simp)] at ht
      rw [refusedCalls, List.filterMap_cons_none hcall] at hnone
      exact .cons ht (ih hnone)
    | some k =>
      rw [refusedCalls, List.filterMap_cons_some hcall] at hnone
      cases hnone

end

/-! ## The parts of a completion handler -/

/-- What a completion handler leaves, once the text of a request that is served is cleared. -/
def Handled.settles : Handled → Connection → Connection
  | .dispatched _ _, c => c.clear
  | .returned, c | .threw _ _, c => c

/-- A read, and the clear behind it. -/
theorem Connection.handleRead_eq {σ : Type} (handler : IRequestHandler σ) (o : HashOrder)
    (chunk : Bytes) (c : Connection) (s : σ) : c.handleRead handler o chunk s =
      let r := c.receive handler o chunk s
      (r.1, r.1.settles r.2.1, r.2.2) := by
  unfold Connection.handleRead Connection.receive processRequest
  simp only
  split
  · rcases dispatch handler o _ s with ⟨_ | _, _, _⟩ <;> rfl
  · rfl

/-- A handler behind a write, or behind an operation that has failed, does not look at the text. -/
theorem Connection.complete_clear {σ : Type} (handler : IRequestHandler σ) (o : HashOrder)
    {k : Completion} (hk : ∀ chunk, k ≠ .read chunk) (c : Connection) (s : σ) :
    (c.clear.complete handler o k s).2.1 = (c.complete handler o k s).2.1.clear ∧
      (c.complete handler o k s).1 = .returned := by
  unfold Connection.complete
  rw [show c.clear.pending = c.pending from rfl]
  cases c.pending <;> cases k <;>
    first | exact ⟨rfl, rfl⟩ | exact absurd rfl (hk _)

/-! ## One connection -/

/-- Where a client stands whose request the user handler serves. -/
inductive InCall (o : HashOrder) (i : Nat) (h : List Exchange) (c : HttpClient) (call : UserCall) :
    Prop
  | unsettled (r : ClientRequest) (request : call.request = r.request)
      (routed : router.route r.request = some .userHandler) (inbox : c.inbox = [])
      (writing : c.writing = none) (unsettled : call.phase.result = none)
      (sent : c.sent = h.map (·.request) ++ [r])
      (received : c.received.map decode = h.map (·.outcome))
  | settled (r : ClientRequest) (front : List Exchange) (response : Except Exn HttpResponse)
      (inbox : c.inbox = []) (writing : c.writing = none)
      (settled : call.phase.result = some response)
      (split : h = front ++
        [{ client := i, request := r, outcome := outcomeOf o (response.map some) }])
      (decoded : ∀ res, response = .ok res → decode (res.str o) = some (res.message o))
      (sent : c.sent = front.map (·.request) ++ [r])
      (received : c.received.map decode = front.map (·.outcome))

section
variable {o : HashOrder} {i : Nat} {h : List Exchange} {c : HttpClient} {connection : Connection}
  {call call' : UserCall}

theorem InCall.writing_none (hc : InCall o i h c call) : c.writing = none := by
  cases hc with
  | unsettled _ _ _ _ writing => exact writing
  | settled _ _ _ _ writing => exact writing

/-- The client waits for a response. -/
theorem InCall.waits (hc : InCall o i h c call) : c.received.length ≠ c.sent.length := by
  have hlen {front : List Exchange} {r : ClientRequest}
      (sent : c.sent = front.map (·.request) ++ [r])
      (received : c.received.map decode = front.map (·.outcome)) :
      c.received.length ≠ c.sent.length := by
    have hreceived := congrArg List.length received
    rw [List.length_map, List.length_map] at hreceived
    rw [sent, List.length_append, List.length_map, hreceived]
    simp
  cases hc with
  | unsettled _ _ _ _ _ _ sent received => exact hlen sent received
  | settled _ _ _ _ _ _ _ _ sent received => exact hlen sent received

theorem InCall.requests (hc : InCall o i h c call) : h.map (·.request) <+: c.sent := by
  cases hc with
  | unsettled r _ _ _ _ _ sent => rw [sent]; exact List.prefix_append _ _
  | settled r front _ _ _ _ split _ sent =>
    rw [sent, split, List.map_append]
    exact List.prefix_rfl

theorem InCall.responses (hc : InCall o i h c call) :
    c.received.map decode <+: h.map (·.outcome) := by
  cases hc with
  | unsettled _ _ _ _ _ _ _ received => rw [received]
  | settled r front _ _ _ _ split _ _ received =>
    rw [received, split, List.map_append]
    exact List.prefix_append _ _

/-- A step of the call that settles nothing. -/
theorem InCall.congr (hc : InCall o i h c call)
    (hrequest : call'.request = call.request) (hresult : call'.phase.result = call.phase.result) :
    InCall o i h c call' := by
  cases hc with
  | unsettled r request routed inbox writing unsettled sent received =>
    exact .unsettled r (hrequest.trans request) routed inbox writing (hresult.trans unsettled) sent
      received
  | settled r front response inbox writing settled split decoded sent received =>
    exact .settled r front response inbox writing (hresult.trans settled) split decoded sent
      received

/-- **A read that begins a call** takes the last bytes of the request. -/
theorem Talk.begins {request : IRequest} (ht : Talk h c connection)
    (hp : connection.pending = .read) {n : Nat} (hpos : 0 < n) (hn : n ≤ c.inbox.length)
    (hrequest : ConcurrentNetwork.userRequest
      (connection.client.requestData ++ c.inbox.take n) = some request)
    (hcall : call.request = request) (hnone : call.phase.result = none) :
    InCall o i h { c with inbox := c.inbox.drop n } call := by
  cases ht with
  | idle _ _ inbox _ _ _ =>
    rw [inbox] at hn
    exact absurd hpos (by simpa using hn)
  | writing _ _ _ pending => rw [hp] at pending; cases pending
  | closed pending => rw [hp] at pending; cases pending
  | sending r pending data incomplete writing sent received =>
    have hcut : connection.client.requestData ++ c.inbox.take n ++ c.inbox.drop n = r.text := by
      rw [List.append_assoc, List.take_append_drop, data]
    unfold ConcurrentNetwork.userRequest at hrequest
    split at hrequest
    · rename_i hcomplete
      have hlast := (r.isCompleteRequest_iff ⟨_, hcut⟩).1 hcomplete
      rw [hlast, r.factory_parse] at hrequest
      simp only at hrequest
      split at hrequest
      · rename_i hroute
        cases hrequest
        have hdrop : c.inbox.drop n = [] := by
          rw [hlast] at hcut
          exact List.append_right_eq_self.1 hcut
        exact .unsettled r hcall hroute hdrop writing hnone sent received
      · cases hrequest
    · cases hrequest

/-- **Where the call is settled** its request is served. -/
theorem InCall.settles {X : Externals} {u u' : UserHandler}
    {entry : SharedHandler.Entry} {p : Phase} (hc : InCall X.hashOrder i h c call)
    (hserved : SharedHandler.Served X u entry u') (hrequest : entry.request = call.request)
    (hduring : entry.during = true → UserHandler.isUpload entry.request = true)
    (hnone : call.phase.result = none) (hresult : p.result = some entry.response) :
    ∃ r : ClientRequest, call.request = r.request ∧
      ServesTurn X u (turnOf X.hashOrder i r entry) u' ∧
      InCall X.hashOrder i (h ++ [(turnOf X.hashOrder i r entry).toExchange]) c
        { call with phase := p } := by
  cases hc with
  | settled _ _ _ _ _ settled =>
    rw [hnone] at settled
    cases settled
  | unsettled r request routed inbox writing _ sent received =>
    obtain ⟨hserves, hdecoded⟩ :=
      servesTurn_entry hserved i (hrequest.trans request) routed hduring
    exact ⟨r, request, hserves, .settled r h entry.response inbox writing hresult rfl hdecoded sent
      received⟩

/-- **Where the call has ended** its response is written, or the connection closed. -/
theorem InCall.answers {response : Except Exn HttpResponse}
    (hc : InCall o i h c call) (hended : call.phase = .ended response) (connection : Connection) :
    let res := connection.respond o response
    Talk h { c with writing := Network.written res.1 } (res.1.settles res.2) := by
  have hresult : call.phase.result = some response := by rw [hended]; rfl
  have hrequests := hc.requests
  have hresponses := hc.responses
  cases hc with
  | unsettled _ _ _ _ _ unsettled =>
    rw [hresult] at unsettled
    cases unsettled
  | settled r front response' inbox writing settled split decoded sent received =>
    cases hresult.symm.trans settled
    cases response with
    | error e => exact .closed rfl rfl hrequests hresponses
    | ok res =>
      have hsent : c.sent = h.map (·.request) := by
        rw [sent, split, List.map_append]
        rfl
      exact .writing front _ _ rfl rfl inbox rfl split (decoded res rfl).symm hsent received

end

namespace ConcurrentNetwork

open SharedHandler (Entry)
open Network (exchangesOf_own exchangesOf_other)

variable {X : Externals} {overlap : Bool} {history : List Turn} {w w' : ConcurrentNetwork}
  {entries : List Entry} {h : UserHandler} {holder : Option Nat} {i : Nat}

/-- The connection, once a text that is to be cleared is cleared. -/
def settled (w : ConcurrentNetwork) (i : Nat) : Connection :=
  if w.clearing i = 0 then w.connections i else (w.connections i).clear

/-- Where client `i` stands behind its exchanges. -/
structure TalkAt (o : HashOrder) (h : List Exchange) (w : ConcurrentNetwork) (i : Nat) : Prop where
  outside : w.serving i = none → Talk h (w.clients i) (w.settled i)
  inside : ∀ k, w.serving i = some k → w.clearing i = 0 ∧
    ∃ call, w.shared.calls[k]? = some call ∧ InCall o i h (w.clients i) call

/-- A client of which nothing changes but steps of its call that settle nothing. -/
theorem TalkAt.frame {o : HashOrder} {h : List Exchange} (ht : TalkAt o h w i)
    (hclient : w'.clients i = w.clients i) (hconnection : w'.connections i = w.connections i)
    (hclearing : w'.clearing i = w.clearing i) (hserving : w'.serving i = w.serving i)
    (hcalls : ∀ k call, w.serving i = some k → w.shared.calls[k]? = some call →
      ∃ call', w'.shared.calls[k]? = some call' ∧ call'.request = call.request ∧
        call'.phase.result = call.phase.result) : TalkAt o h w' i where
  outside hi := by
    unfold settled
    rw [hclient, hconnection, hclearing]
    exact ht.outside (hserving ▸ hi)
  inside k hi := by
    rw [hserving] at hi
    obtain ⟨hclear, call, hcall, hin⟩ := ht.inside k hi
    obtain ⟨call', hcall', hrequest, hresult⟩ := hcalls k call hi hcall
    rw [hclient, hclearing]
    exact ⟨hclear, call', hcall', hin.congr hrequest hresult⟩

structure Invariant (X : Externals) (history : List Turn) (w : ConcurrentNetwork)
    (entries : List Entry) (h : UserHandler) (holder : Option Nat) : Prop where
  shared : SharedHandler.Invariant X True {} w.shared entries h holder
  served : Path (ServesTurn X) {} history h
  called : ∀ t ∈ history, ∀ k, t.refusedCall = some k →
    ∃ call, w.shared.calls[k]? = some call ∧ call.request = t.request.request
  talks : ∀ i, TalkAt X.hashOrder (turnsOf i history) w i
  /-- A call that is not settled is one for a connection. -/
  owned : ∀ k call, w.shared.calls[k]? = some call → call.phase.result = none →
    ∃ i, w.serving i = some k
  apart : ∀ i j k, w.serving i = some k → w.serving j = some k → i = j

/-- A client that is in no call adds to the history at most exchanges of its own. -/
structure Follows (i : Nat) (history now : List Turn) : Prop where
  others : ∀ j, j ≠ i → turnsOf j now = turnsOf j history
  mem : ∀ t ∈ now, t.refusedCall ≠ none → t ∈ history

theorem Follows.same (i : Nat) (history : List Turn) : Follows i history history :=
  ⟨fun _ _ => rfl, fun _ ht _ => ht⟩

theorem turnsOf_own {t : Turn} (ht : t.client = i) (history : List Turn) :
    turnsOf i (history ++ [t]) = turnsOf i history ++ [t.toExchange] := by
  subst ht
  rw [turnsOf, List.map_append, List.map_singleton]
  exact exchangesOf_own t.toExchange

theorem turnsOf_other {j : Nat} {t : Turn} (hj : j ≠ t.client) (history : List Turn) :
    turnsOf j (history ++ [t]) = turnsOf j history := by
  rw [turnsOf, List.map_append, List.map_singleton]
  exact exchangesOf_other hj

theorem Follows.turn (history : List Turn) (e : Exchange) :
    Follows e.client history (history ++ [{ toExchange := e }]) where
  others j hj := turnsOf_other hj history
  mem t ht hcall := by
    rcases List.mem_append.1 ht with hin | hlast
    · exact hin
    · rw [List.mem_singleton.1 hlast] at hcall
      exact absurd rfl hcall

/-- A step of a client that is in no call. -/
theorem Invariant.client (inv : Invariant X history w entries h holder)
    (hnone : w.serving i = none) {now : List Turn}
    (hshared : w'.shared = w.shared) (hserving : w'.serving = w.serving)
    (hsame : ∀ j, j ≠ i → w'.clients j = w.clients j ∧ w'.connections j = w.connections j ∧
      w'.clearing j = w.clearing j)
    (hnow : Follows i history now) (hserved : Path (ServesTurn X) {} now h)
    (ht : Talk (turnsOf i now) (w'.clients i) (w'.settled i)) :
    Invariant X now w' entries h holder where
  shared := hshared ▸ inv.shared
  served := hserved
  called t hin k hk := by
    rw [hshared]
    exact inv.called t (hnow.mem t hin (by simp [hk])) k hk
  talks j := by
    by_cases hj : j = i
    · subst hj
      exact ⟨fun _ => ht, fun k hin => by rw [hserving, hnone] at hin; cases hin⟩
    · rw [hnow.others j hj]
      obtain ⟨hclient, hconnection, hclearing⟩ := hsame j hj
      refine (inv.talks j).frame hclient hconnection hclearing (by rw [hserving]) ?_
      intro k call _ hcall
      exact ⟨call, by rw [hshared, hcall], rfl, rfl⟩
  owned := by rw [hshared, hserving]; exact inv.owned
  apart := by rw [hserving]; exact inv.apart

/-- A client that is in no call. -/
theorem Invariant.serving_none (inv : Invariant X history w entries h holder)
    (hno : ∀ call, ¬ InCall X.hashOrder i (turnsOf i history) (w.clients i) call) :
    w.serving i = none := by
  cases hserving : w.serving i with
  | none => rfl
  | some k =>
    obtain ⟨-, call, -, hin⟩ := (inv.talks i).inside k hserving
    exact absurd hin (hno _)

theorem userRequest_text (r : ClientRequest) : userRequest r.text =
    if router.route r.request = some .userHandler then some r.request else none := by
  have hcomplete : isCompleteRequest r.text = true :=
    (r.isCompleteRequest_iff List.prefix_rfl).2 rfl
  unfold userRequest
  rw [if_pos hcomplete, r.factory_parse]

/-- What a completion handler changes beside the counts of the threads. -/
theorem behind_spec (w : ConcurrentNetwork) (i : Nat) (result : Handled × Connection)
    (c : HttpClient) :
    let w' := w.behind i result c
    w'.shared = w.shared ∧ w'.serving = w.serving ∧ w'.clients i = c ∧
      w'.settled i = (if w.clearing i = 0 then result.1.settles result.2 else result.2.clear) ∧
      ∀ j, j ≠ i → w'.clients j = w.clients j ∧ w'.connections j = w.connections j ∧
        w'.clearing j = w.clearing j := by
  obtain ⟨handled, connection⟩ := result
  have hother (j : Nat) (hj : j ≠ i) : Function.update w.clients i c j = w.clients j ∧
      Function.update w.connections i connection j = w.connections j :=
    ⟨Function.update_of_ne hj _ _, Function.update_of_ne hj _ _⟩
  cases handled with
  | returned | threw =>
    refine ⟨rfl, rfl, Function.update_self .., ?_,
      fun j hj => ⟨(hother j hj).1, (hother j hj).2, rfl⟩⟩
    simp only [settled, behind, Function.update_self]
    rfl
  | dispatched =>
    refine ⟨rfl, rfl, Function.update_self .., ?_, fun j hj =>
      ⟨(hother j hj).1, (hother j hj).2, Function.update_of_ne hj _ _⟩⟩
    simp only [settled, behind, Function.update_self, Nat.succ_ne_zero, if_false]
    exact (ite_self _).symm

/-- A completion handler of a client that is in no call, and its client behind it. -/
theorem Invariant.behind (inv : Invariant X history w entries h holder)
    (hnone : w.serving i = none) {now : List Turn} {result : Handled × Connection}
    {c : HttpClient} (hnow : Follows i history now) (hserved : Path (ServesTurn X) {} now h)
    (ht : Talk (turnsOf i now) c
      (if w.clearing i = 0 then result.1.settles result.2 else result.2.clear)) :
    Invariant X now (w.behind i result c) entries h holder := by
  obtain ⟨hshared, hserving, hclient, hsettled, hothers⟩ := w.behind_spec i result c
  refine inv.client hnone hshared hserving hothers hnow hserved ?_
  rwa [hclient, hsettled]

/-- A handler that does not look at the text of the request. -/
theorem complete_settled (w : ConcurrentNetwork) (i : Nat) {k : Completion}
    (hk : ∀ chunk, k ≠ .read chunk) :
    ((w.settled i).complete (fun _ (_ : Unit) => (.ok none, ())) X.hashOrder k ()).2.1 =
      if w.clearing i = 0 then (w.complete X i k).1.settles (w.complete X i k).2
      else (w.complete X i k).2.clear := by
  obtain ⟨hclear, hreturned⟩ := Connection.complete_clear
    (fun _ (_ : Unit) => (.ok none, ())) X.hashOrder hk (w.connections i) ()
  unfold settled
  split
  · rw [show (w.complete X i k).1 = .returned from hreturned]
    rfl
  · exact hclear

theorem Invariant.send (inv : Invariant X history w entries h holder) {r : ClientRequest}
    (hstep : Steps X w (.send i r) w') : Invariant X history w' entries h holder := by
  simp only [Steps, ConcurrentNetwork.step] at hstep
  split at hstep
  · rename_i hall
    cases hstep
    have hnone : w.serving i = none := inv.serving_none fun _ hin => hin.waits hall
    refine inv.client hnone rfl rfl (fun j hj => ⟨Function.update_of_ne hj _ _, rfl, rfl⟩)
      (.same i history) inv.served ?_
    simp only [Function.update_self]
    exact ((inv.talks i).outside hnone).send hall r
  · cases hstep

theorem Invariant.written (inv : Invariant X history w entries h holder)
    (hstep : Steps X w (.written i) w') : Invariant X history w' entries h holder := by
  simp only [Steps, ConcurrentNetwork.step] at hstep
  split at hstep
  · rename_i text hw
    split at hstep
    · cases hstep
      have hnone : w.serving i = none := inv.serving_none fun _ hin => by
        have hwriting := hin.writing_none
        rw [hw] at hwriting
        cases hwriting
      refine inv.behind hnone (.same i history) inv.served ?_
      rw [← w.complete_settled i fun _ hk => by cases hk]
      exact (((inv.talks i).outside hnone).written _ X.hashOrder () hw).2
    · cases hstep
  · cases hstep

theorem Invariant.lose (inv : Invariant X history w entries h holder) {k : Completion}
    (hstep : Steps X w (.lose i k) w') : Invariant X history w' entries h holder := by
  simp only [Steps, ConcurrentNetwork.step] at hstep
  split at hstep
  · rename_i hcan
    obtain ⟨-, hnone, hfails⟩ := hcan
    cases hstep
    have hfails' : Network.Fails (w.settled i).pending k := by
      unfold settled
      split <;> exact hfails
    have hk (chunk : Bytes) : k ≠ .read chunk := by
      rintro rfl
      revert hfails
      cases (w.connections i).pending <;> exact id
    refine inv.behind hnone (.same i history) inv.served ?_
    rw [← w.complete_settled i hk]
    exact (((inv.talks i).outside hnone).lose _ X.hashOrder () hfails').2
  · cases hstep

/-- The text of a request is cleared. -/
theorem Invariant.clear (inv : Invariant X history w entries h holder)
    (hstep : Steps X w (.clear i) w') : Invariant X history w' entries h holder := by
  simp only [Steps, ConcurrentNetwork.step] at hstep
  split at hstep
  · rename_i hclears
    cases hstep
    have hnone : w.serving i = none := by
      cases hserving : w.serving i with
      | none => rfl
      | some k =>
        have := ((inv.talks i).inside k hserving).1
        omega
    have ht := (inv.talks i).outside hnone
    refine inv.client hnone rfl rfl (fun j hj => ⟨rfl, Function.update_of_ne hj _ _,
      Function.update_of_ne hj _ _⟩) (.same i history) inv.served ?_
    unfold settled at ht ⊢
    rw [if_neg (by omega)] at ht
    simp only [Function.update_self]
    split <;> exact ht
  · cases hstep

/-- A read that begins a call. -/
theorem Invariant.beginCall (inv : Invariant X history w entries h holder)
    (hnone : w.serving i = none) (hclear : w.clearing i = 0) {chunk : Bytes} {request : IRequest}
    {clocks : UserHandler.Clocks} {c : HttpClient}
    (hin : InCall X.hashOrder i (turnsOf i history) c { request, clocks }) :
    Invariant X history (w.beginCall i chunk request clocks c) entries h holder := by
  have hlt {j k : Nat} (hj : w.serving j = some k) : k < w.shared.calls.length := by
    obtain ⟨-, call, hcall, -⟩ := (inv.talks j).inside k hj
    exact (List.getElem?_eq_some_iff.1 hcall).1
  have hold {j k : Nat} (hj : (w.beginCall i chunk request clocks c).serving j = some k) :
      j = i ∧ k = w.shared.calls.length ∨ j ≠ i ∧ w.serving j = some k := by
    by_cases hji : j = i
    · subst hji
      simp only [ConcurrentNetwork.beginCall, Function.update_self] at hj
      cases hj
      exact .inl ⟨rfl, rfl⟩
    · simp only [ConcurrentNetwork.beginCall, Function.update_of_ne hji] at hj
      exact .inr ⟨hji, hj⟩
  refine ⟨inv.shared.call request clocks, inv.served, fun t ht k hk => ?_, fun j => ?_,
    fun k call hcall hres => ?_, fun j j' k hj hj' => ?_⟩
  · obtain ⟨call, hcall, hrequest⟩ := inv.called t ht k hk
    refine ⟨call, ?_, hrequest⟩
    simp only [ConcurrentNetwork.beginCall,
      List.getElem?_append_left (List.getElem?_eq_some_iff.1 hcall).1, hcall]
  · by_cases hji : j = i
    · subst hji
      refine ⟨fun hout => ?_, fun k hj => ?_⟩
      · simp only [ConcurrentNetwork.beginCall, Function.update_self] at hout
        cases hout
      · rcases hold hj with ⟨-, rfl⟩ | ⟨hne, -⟩
        · refine ⟨hclear, { request, clocks }, by simp [ConcurrentNetwork.beginCall], ?_⟩
          simp only [ConcurrentNetwork.beginCall, Function.update_self]
          exact hin
        · exact absurd rfl hne
    · refine (inv.talks j).frame (Function.update_of_ne hji _ _) (Function.update_of_ne hji _ _) rfl
        (Function.update_of_ne hji _ _) fun k call hj hcall => ⟨call, ?_, rfl, rfl⟩
      simp only [ConcurrentNetwork.beginCall, List.getElem?_append_left (hlt hj), hcall]
  · by_cases hk : k < w.shared.calls.length
    · simp only [ConcurrentNetwork.beginCall, List.getElem?_append_left hk] at hcall
      obtain ⟨j, hj⟩ := inv.owned k call hcall hres
      have hji : j ≠ i := by
        rintro rfl
        rw [hnone] at hj
        cases hj
      exact ⟨j, by simp only [ConcurrentNetwork.beginCall, Function.update_of_ne hji, hj]⟩
    · have hlen := (List.getElem?_eq_some_iff.1 hcall).1
      simp only [ConcurrentNetwork.beginCall, List.length_append, List.length_singleton] at hlen
      obtain rfl : k = w.shared.calls.length := by omega
      exact ⟨i, Function.update_self ..⟩
  · rcases hold hj with ⟨hji, hk⟩ | ⟨-, hbefore⟩
    · rcases hold hj' with ⟨hji', -⟩ | ⟨-, hbefore'⟩
      · exact hji.trans hji'.symm
      · have := hlt hbefore'
        omega
    · rcases hold hj' with ⟨-, hk⟩ | ⟨-, hbefore'⟩
      · have := hlt hbefore
        omega
      · exact inv.apart j j' k hbefore hbefore'

/-- **A read** brings bytes, completes a request that is served at once, or begins a call. -/
theorem Invariant.read (inv : Invariant X history w entries h holder) {n : Nat}
    {clocks : UserHandler.Clocks} (hstep : Steps X w (.read i n clocks) w')
    (hclear : w.clearing i = 0) :
    ∃ more, Invariant X (history ++ more) w' entries h holder ∧ refusedCalls more = [] := by
  simp only [Steps, ConcurrentNetwork.step] at hstep
  split at hstep
  · rename_i hcan
    obtain ⟨-, hnone, hpending, hpos, -, hn⟩ := hcan
    have ht := (inv.talks i).outside hnone
    rw [settled, if_pos hclear] at ht
    split at hstep
    · rename_i request hrequest
      cases hstep
      refine ⟨[], ?_, rfl⟩
      rw [List.append_nil]
      exact inv.beginCall hnone hclear (ht.begins hpending hpos hn hrequest rfl rfl)
    · rename_i hother
      cases hstep
      have hread := ht.read (fun request (_ : Unit) => ((mainHandler X request
          { userHandler := w.shared.handler, clocks := fun _ => clocks }).1, ())) X.hashOrder () i
        hpending hpos hn (fun _ _ _ hres =>
          decode_mainHandler (Prod.ext (Prod.ext_iff.1 hres).1 rfl))
      -- the read of the buffer, and the clear behind it
      simp only [Connection.complete, hpending, Connection.handleRead_eq] at hread
      rcases hread with ⟨-, ht'⟩ | ⟨e, rfl, hdata, -, houtcome, ht'⟩
      · refine ⟨[], ?_, rfl⟩
        rw [List.append_nil]
        refine inv.behind hnone (.same i history) inv.served ?_
        rw [if_pos hclear]
        exact ht'
      · have hroute : router.route e.request.request ≠ some .userHandler := by
          intro hroute
          rw [hdata, userRequest_text, if_pos hroute] at hother
          cases hother
        refine ⟨[{ toExchange := e }], inv.behind hnone (.turn history e)
          (inv.served.append (.cons (servesAlone_other hroute houtcome) (.nil _))) ?_, rfl⟩
        rw [if_pos hclear]
        rw [turnsOf_own (i := e.client) (t := { toExchange := e }) rfl]
        exact ht'
  · cases hstep

/-- **A step of a call** settles its response, and the request is served, or it settles none. -/
theorem Invariant.work (inv : Invariant X history w entries h holder)
    {a : SharedHandler.Action} (hstep : Steps X w (.work a) w')
    (hsep : Separate overlap w (.work a)) :
    ∃ more entries' h' holder', Invariant X (history ++ more) w' entries' h' holder' ∧
      refusedCalls more = w.refusal (.work a) := by
  have hcall : ∀ request clocks, a ≠ .call request clocks := by
    rintro request clocks rfl
    cases hstep
  have hstep' : (w.shared.step X a).map (fun shared => { w with shared }) = some w' := by
    cases a with
    | call request clocks => exact absurd rfl (hcall request clocks)
    | advance _ => exact hstep
    | read _ _ => exact hstep
  obtain ⟨shared, hshared, rfl⟩ := Option.map_eq_some_iff.1 hstep'
  obtain ⟨newEntries, h', holder', inv', hrefusals, hduring⟩ :=
    inv.shared.step hshared fun _ => hsep.1
  obtain ⟨k, c, p, hc, hcalls⟩ := SharedHandler.step_calls hcall hshared
  have hset (k' : Nat) (d : UserCall) : shared.calls[k']? = some d ↔
      k' = k ∧ d = { c with phase := p } ∨ k' ≠ k ∧ w.shared.calls[k']? = some d := by
    rw [hcalls]
    exact SharedHandler.getElem?_set_call hc
  have hcalled (t : Turn) (ht : t ∈ history) (k' : Nat) (hk : t.refusedCall = some k') :
      ∃ call, shared.calls[k']? = some call ∧ call.request = t.request.request := by
    obtain ⟨d, hd, hrequest⟩ := inv.called t ht k' hk
    by_cases hkk : k' = k
    · subst hkk
      cases hc.symm.trans hd
      exact ⟨_, (hset k' _).2 (.inl ⟨rfl, rfl⟩), hrequest⟩
    · exact ⟨d, (hset k' d).2 (.inr ⟨hkk, hd⟩), hrequest⟩
  rcases inv.shared.recorded_step inv' hc hcalls with ⟨rfl, rfl, hresult⟩ |
    ⟨entry, rfl, hentry, hserved, hrequest, hnone, hresult⟩
  · refine ⟨[], _, _, holder', ⟨inv', ?_, ?_, fun j => ?_, fun k' d hd hres => ?_, inv.apart⟩,
      hrefusals⟩
    · rw [List.append_nil]
      exact inv.served
    · rw [List.append_nil]
      exact hcalled
    · rw [List.append_nil]
      refine (inv.talks j).frame rfl rfl rfl rfl fun k' d _ hd => ?_
      by_cases hk : k' = k
      · subst hk
        cases hc.symm.trans hd
        exact ⟨_, (hset k' _).2 (.inl ⟨rfl, rfl⟩), rfl, hresult⟩
      · exact ⟨d, (hset k' d).2 (.inr ⟨hk, hd⟩), rfl, rfl⟩
    · rcases (hset k' d).1 hd with ⟨rfl, rfl⟩ | ⟨-, hd⟩
      · exact inv.owned k' c hc (hresult.symm.trans hres)
      · exact inv.owned k' d hd hres
  · obtain ⟨i, hi⟩ := inv.owned k c hc hnone
    obtain ⟨hclear, call, hcall, hin⟩ := (inv.talks i).inside k hi
    cases hc.symm.trans hcall
    obtain ⟨r, hr, hserves, hin'⟩ := hin.settles hserved hrequest
      (fun h => (hduring entry (List.mem_singleton_self _) h).1) hnone hresult
    refine ⟨[turnOf X.hashOrder i r entry], _, h', holder',
      ⟨inv', inv.served.append (.cons hserves (.nil _)), fun t ht k' hk => ?_, fun j => ?_,
        fun k' d hd hres => ?_, inv.apart⟩, (refusedCalls_turnOf _ _ _ _).trans hrefusals⟩
    · rcases List.mem_append.1 ht with hin | hlast
      · exact hcalled t hin k' hk
      · obtain rfl := List.mem_singleton.1 hlast
        unfold turnOf at hk
        split at hk
        · cases hk
          rw [hentry]
          exact ⟨_, (hset k _).2 (.inl ⟨rfl, rfl⟩), hr⟩
        · cases hk
    · by_cases hj : j = i
      · subst hj
        refine ⟨fun hout => ?_, fun k' hserving => ?_⟩
        · cases hi.symm.trans hout
        · cases hi.symm.trans hserving
          rw [turnsOf_own (i := j) (t := turnOf X.hashOrder j r entry) rfl]
          exact ⟨hclear, _, (hset k _).2 (.inl ⟨rfl, rfl⟩), hin'⟩
      · rw [turnsOf_other hj history]
        refine (inv.talks j).frame rfl rfl rfl rfl fun k' d hj' hd => ?_
        have hk : k' ≠ k := by
          rintro rfl
          exact hj (inv.apart j i k' hj' hi)
        exact ⟨d, (hset k' d).2 (.inr ⟨hk, hd⟩), rfl, rfl⟩
    · rcases (hset k' d).1 hd with ⟨rfl, rfl⟩ | ⟨-, hd⟩
      · cases hresult.symm.trans hres
      · exact inv.owned k' d hd hres

theorem phase_of_response {k : Nat} {call : UserCall} {response : Except Exn HttpResponse}
    (h : w.response k = some response) (hcall : w.shared.calls[k]? = some call) :
    call.phase = .ended response := by
  simp only [ConcurrentNetwork.response, hcall, Option.bind_eq_bind, Option.bind_some] at h
  split at h
  · rename_i hphase
    cases h
    exact hphase
  · cases h

/-- **The end of a call** is written to its connection. -/
theorem Invariant.answer (inv : Invariant X history w entries h holder)
    (hstep : Steps X w (.answer i) w') : Invariant X history w' entries h holder := by
  simp only [Steps, ConcurrentNetwork.step] at hstep
  split at hstep
  · rename_i k hi
    split at hstep
    · rename_i response hended
      cases hstep
      obtain ⟨hclear, call, hcall, hin⟩ := (inv.talks i).inside k hi
      have hphase := phase_of_response hended hcall
      have ht := hin.answers hphase (w.connections i)
      generalize (w.connections i).respond X.hashOrder response = result at ht
      obtain ⟨hshared, hserving, hclient, hsettled, hothers⟩ :=
        { w with serving := Function.update w.serving i none, busy := w.busy - 1 }.behind_spec i
          result { w.clients i with writing := Network.written result.1 }
      simp only at hshared hserving hclient hsettled hothers
      generalize ConcurrentNetwork.behind _ i result _ = w' at *
      have hkeeps {j k' : Nat} (hj : w'.serving j = some k') : j ≠ i ∧ w.serving j = some k' := by
        rw [hserving] at hj
        by_cases hji : j = i
        · subst hji
          rw [Function.update_self] at hj
          cases hj
        · rw [Function.update_of_ne hji] at hj
          exact ⟨hji, hj⟩
      refine ⟨hshared ▸ inv.shared, inv.served, hshared ▸ inv.called, fun j => ?_,
        fun k' d hd hres => ?_,
        fun j j' k' hj hj' => inv.apart j j' k' (hkeeps hj).2 (hkeeps hj').2⟩
      · by_cases hji : j = i
        · subst hji
          refine ⟨fun _ => ?_, fun k' hin' => absurd rfl (hkeeps hin').1⟩
          rw [hclient, hsettled, if_pos hclear]
          exact ht
        · obtain ⟨hclient', hconnection, hclearing⟩ := hothers j hji
          refine (inv.talks j).frame hclient' hconnection hclearing ?_ fun _ d _ hd =>
            ⟨d, by rw [hshared, hd], rfl, rfl⟩
          rw [hserving]
          exact Function.update_of_ne hji _ _
      · rw [hshared] at hd
        obtain ⟨j, hj⟩ := inv.owned k' d hd hres
        have hji : j ≠ i := by
          rintro rfl
          cases hi.symm.trans hj
          cases hcall.symm.trans hd
          rw [hphase] at hres
          cases hres
        exact ⟨j, by rw [hserving]; exact (Function.update_of_ne hji _ _).trans hj⟩
    · cases hstep
  · cases hstep

/-- **Every step** extends the history, by a refused call exactly if it refuses one. -/
theorem Invariant.step (inv : Invariant X history w entries h holder) {a : Action}
    (hsep : Separate overlap w a) (hstep : Steps X w a w') :
    ∃ more entries' h' holder', Invariant X (history ++ more) w' entries' h' holder' ∧
      refusedCalls more = w.refusal a := by
  have hquiet (inv' : Invariant X history w' entries h holder) :
      ∃ more entries' h' holder', Invariant X (history ++ more) w' entries' h' holder' ∧
        refusedCalls more = [] := ⟨[], entries, h, holder, by rwa [List.append_nil], rfl⟩
  cases a with
  | send i r => exact hquiet (inv.send hstep)
  | read i n clocks =>
    obtain ⟨more, inv', hmore⟩ := inv.read hstep hsep
    exact ⟨more, entries, h, holder, inv', hmore⟩
  | work a => exact inv.work hstep hsep
  | answer i => exact hquiet (inv.answer hstep)
  | clear i => exact hquiet (inv.clear hstep)
  | written i => exact hquiet (inv.written hstep)
  | lose i k => exact hquiet (inv.lose hstep)

theorem Invariant.realizes (inv : Invariant X history w entries h holder) :
    RealizesAlone X (refusedCalls history) history w where
  served := ⟨h, inv.served, inv.shared.handler_eq⟩
  refusals := rfl
  called := inv.called
  requests i := by
    cases hserving : w.serving i with
    | none => exact ((inv.talks i).outside hserving).requests
    | some k =>
      obtain ⟨-, call, -, hin⟩ := (inv.talks i).inside k hserving
      exact hin.requests
  responses i := by
    cases hserving : w.serving i with
    | none => exact ((inv.talks i).outside hserving).responses
    | some k =>
      obtain ⟨-, call, -, hin⟩ := (inv.talks i).inside k hserving
      exact hin.responses
  answered i hquiet := by
    refine ((inv.talks i).outside hquiet.serving).answered hquiet.inbox hquiet.writing ?_
    unfold settled
    split <;> exact hquiet.isOpen
  inside := inv.shared.not_dangling

theorem invariant_start (X : Externals) (hardwareConcurrency : UInt32) :
    Invariant X [] (start hardwareConcurrency) [] {} none where
  shared := SharedHandler.Invariant.initial X True {}
  served := .nil _
  called _ h := by cases h
  talks _ := ⟨fun _ => .idle rfl rfl rfl rfl rfl rfl, fun _ h => by cases h⟩
  owned k call h := by cases h
  apart i j k h := by cases h

/-- **Requests on several threads** are exchanges one after the other: in every run in which no loop
over the users runs while an upload replaces them, and no connection is read again before the text
of its last request is cleared, however the calls of the user handler overlap, the requests of all
clients are served whole and in one order, each as if it were alone, but for the uploads whose
`try_lock` comes while another one is in its section, which are refused. Every client reads in its
responses what was answered, and later steps only add exchanges. -/
theorem realizesAlone_of_run {hardwareConcurrency : UInt32} {as bs : List Action}
    (hw : Path (Restrict (Steps X) (Separate overlap)) (start hardwareConcurrency) as w)
    (hw' : Path (Restrict (Steps X) (Separate overlap)) w bs w') :
    ∃ history more, RealizesAlone X (refused X (start hardwareConcurrency) as) history w ∧
      RealizesAlone X (refused X (start hardwareConcurrency) as ++ refused X w bs)
        (history ++ more) w' := by
  have hrun {u v : ConcurrentNetwork} {cs : List Action} {history : List Turn}
      (hpath : Path (Restrict (Steps X) (Separate overlap)) u cs v)
      (hu : ∃ entries h holder, Invariant X history u entries h holder) :
      ∃ more, (∃ entries h holder, Invariant X (history ++ more) v entries h holder) ∧
        refusedCalls more = refused X u cs :=
    hpath.extends_records (g := refusedCalls)
      (J := fun w history => ∃ entries h holder, Invariant X history w entries h holder) rfl
      refusedCalls_append (fun _ _ _ hstep => hstep.2)
      (fun _ _ _ _ ⟨_, _, _, inv⟩ hstep => by
        obtain ⟨more, entries, h, holder, inv', hmore⟩ := inv.step hstep.1 hstep.2
        exact ⟨more, ⟨entries, h, holder, inv'⟩, hmore⟩) hu
  obtain ⟨history, ⟨entries, h, holder, inv⟩, hrefused⟩ :=
    hrun hw ⟨[], {}, none, invariant_start X hardwareConcurrency⟩
  obtain ⟨more, ⟨entries', h', holder', inv'⟩, hmore⟩ := hrun hw' ⟨entries, h, holder, inv⟩
  refine ⟨history, more, ?_, ?_⟩
  · rw [← hrefused]
    exact inv.realizes
  · rw [← hrefused, ← hmore, ← refusedCalls_append]
    exact inv'.realizes

/-- Where no two uploads overlap, no call is refused. -/
theorem refused_of_path {as : List Action}
    (hw : Path (Restrict (Steps X) (Separate false)) w as w') : refused X w as = [] := by
  induction hw with
  | nil => rfl
  | @cons w _ _ a _ hstep _ ih =>
    have hfirst : w.refusal a = [] := by
      cases a with
      | work a =>
        exact SharedHandler.refusal_of_not fun href => absurd (hstep.1.2 href) Bool.false_ne_true
      | _ => rfl
    rw [refused, records, hfirst, hstep.2]
    exact ih

theorem superusers_unannounced :
    find (Network.getParts "/superusers" superusers_plain).head contentLengthName 0 = none := by
  decide +kernel

/-- **Queries list what was uploaded**, also where other requests are served meanwhile: in the one
order of the exchanges of such a run, in which no two uploads overlap, an upload of users is
confirmed with their number, and every query behind it lists the rows of these users until the next
upload, whichever client asks; unless a text was refused before, which leaves the mutex locked. -/
theorem answersUploads_of_run (hX : X.Lawful) {hardwareConcurrency : UInt32} {as : List Action}
    (hw : Path (Restrict (Steps X) (Separate false)) (start hardwareConcurrency) as w) :
    ∃ history, RealizesAlone X [] history w ∧
      AnswersUploads X (history.map (·.toExchange)) := by
  obtain ⟨history, more, hrealizes, -⟩ := realizesAlone_of_run hw (.nil w)
  rw [refused_of_path hw] at hrealizes
  obtain ⟨h, hserved, -⟩ := hrealizes.served
  exact ⟨history, hrealizes,
    answersUploads_of_path hX (path_servesAlone hserved hrealizes.refusals) rfl⟩

/-- While the upload of one client has the mutex, another one's is refused, and a third client asks
for the superusers. -/
def besideUpload : List Action :=
  [.send 0 anaRequest, .read 0 anaRequest.text.length UserHandler.noonClocks, .work (.advance 0),
    .work (.advance 0), .send 2 anaRequest,
    .read 2 anaRequest.text.length UserHandler.noonClocks, .work (.advance 1),
    .send 1 (Network.getRequest "/superusers" superusers_plain superusers_unannounced),
    .read 1 28 UserHandler.noonClocks, .work (.read 2 0), .answer 1]

/-- The query is received before the text of its request is cleared. -/
def endOfUpload : List Action :=
  List.replicate 5 (.work (.advance 0)) ++
    [.answer 0, .answer 2, .written 1, .clear 1, .clear 2, .clear 0, .written 0, .written 2]

theorem besideUpload_realized : ∃ w w' : ConcurrentNetwork,
    besideUpload.foldlM (fun (w : ConcurrentNetwork) a =>
      if Separate true w a then w.step UserHandler.fewTexts a else none) (start 1) = some w ∧
    endOfUpload.foldlM (fun (w : ConcurrentNetwork) a =>
      if Separate true w a then w.step UserHandler.fewTexts a else none) w = some w' ∧
    [0, 1, 2].map (fun i => ((w'.clients i).received.map decode).map (·.map (·.code))) =
      [[some 200], [some 200], [some 400]] ∧
    refused UserHandler.fewTexts (start 1) besideUpload = [1] ∧
    ∃ history more, RealizesAlone UserHandler.fewTexts
        (refused UserHandler.fewTexts (start 1) besideUpload) history w ∧
      RealizesAlone UserHandler.fewTexts
        (refused UserHandler.fewTexts (start 1) besideUpload ++
          refused UserHandler.fewTexts w endOfUpload) (history ++ more) w' := by
  have hrun : (besideUpload.foldlM (fun (w : ConcurrentNetwork) a =>
      if Separate true w a then w.step UserHandler.fewTexts a else none) (start 1)).any (fun w =>
        (endOfUpload.foldlM (fun (w : ConcurrentNetwork) a =>
          if Separate true w a then w.step UserHandler.fewTexts a else none) w).any fun w' =>
            [0, 1, 2].map (fun i => ((w'.clients i).received.map decode).map (·.map (·.code))) ==
              [[some 200], [some 200], [some 400]]) = true := by
    decide +kernel
  obtain ⟨w, hw, hsecond⟩ := (Option.any_eq_true _ _).1 hrun
  obtain ⟨w', hw', hreceived⟩ := (Option.any_eq_true _ _).1 hsecond
  exact ⟨w, w', hw, hw', beq_iff_eq.1 hreceived, by decide +kernel,
    realizesAlone_of_run (path_restrict_iff_foldlM.2 hw) (path_restrict_iff_foldlM.2 hw')⟩

/-- A client uploads Ana in two pieces, and another one, whose request begins to be read meanwhile,
asks for the superusers. -/
def anaQueried : List Action :=
  [.send 0 anaRequest, .read 0 100 UserHandler.noonClocks,
    .send 1 (Network.getRequest "/superusers" superusers_plain superusers_unannounced),
    .read 0 (anaRequest.text.length - 100) UserHandler.noonClocks, .work (.advance 0),
    .read 1 10 UserHandler.noonClocks] ++
    List.replicate 6 (.work (.advance 0)) ++
    [.answer 0, .read 1 18 UserHandler.noonClocks, .work (.read 1 0), .written 0, .clear 0,
      .work (.read 1 0), .answer 1, .clear 1, .written 1]

theorem ana_listed : ∃ w : ConcurrentNetwork,
    anaQueried.foldlM (fun (w : ConcurrentNetwork) a =>
      if Separate false w a then w.step UserHandler.fewTexts a else none) (start 1) = some w ∧
    ((w.clients 1).received.map decode).map (·.map (·.code)) = [some 200] ∧
    Nonempty (UsersUpload UserHandler.fewTexts [ana] anaRequest.toRequestParts) ∧
    ∃ history, RealizesAlone UserHandler.fewTexts [] history w ∧
      AnswersUploads UserHandler.fewTexts (history.map (·.toExchange)) := by
  have hrun : (anaQueried.foldlM (fun (w : ConcurrentNetwork) a =>
      if Separate false w a then w.step UserHandler.fewTexts a else none) (start 1)).any (fun w =>
        ((w.clients 1).received.map decode).map (·.map (·.code)) == [some 200]) = true := by
    decide +kernel
  obtain ⟨w, hw, hcode⟩ := (Option.any_eq_true _ _).1 hrun
  exact ⟨w, hw, beq_iff_eq.1 hcode, ⟨anaUpload⟩,
    answersUploads_of_run UserHandler.fewTexts_lawful (path_restrict_iff_foldlM.2 hw)⟩

end ConcurrentNetwork

end HttpsTest
