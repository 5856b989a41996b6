import HttpsTest.Server.Proof.ConcurrentClients
import HttpsTest.Users.Proof.Alone

/-!
# Completion handlers one at a time, on several threads

`ConcurrentNetwork.reaches_of_run`: a run of `Network`, in which every completion handler is one
step, is a run of `ConcurrentNetwork` in which each thread takes all steps of its handler before
another one begins. A read that completes a request for the user handler becomes a call that runs
alone and returns (`SharedHandler.returns_alone`), the start of its write and the clear behind it.
-/

set_option autoImplicit false

namespace HttpsTest

open AsyncClientHandler Search Runs

section
variable {X : Externals}

/-- The other handlers read the clocks once, and leave the user handler. -/
theorem mainHandler_now {request : IRequest} (hr : router.route request ≠ some .userHandler)
    (s : HandlerState) : (mainHandler X request
        { userHandler := s.userHandler, clocks := fun _ => s.clocks 0 }).1 =
      (mainHandler X request s).1 ∧ (mainHandler X request s).2.userHandler = s.userHandler := by
  unfold mainHandler RequestRouter.handleRequest
  cases hroute : router.route request with
  | none => exact ⟨rfl, rfl⟩
  | some handler =>
    cases handler with
    | userHandler => exact absurd hroute hr
    | helloHandler => exact ⟨rfl, rfl⟩
    | defaultHandler => exact ⟨rfl, rfl⟩

variable {c : Connection} {chunk : Bytes} {s : HandlerState}

/-- A read that completes no request for the user handler, with its clocks alone. -/
theorem receive_other
    (hother : ConcurrentNetwork.userRequest (c.client.requestData ++ chunk) = none) :
    let r := c.receive (mainHandler X) X.hashOrder chunk s
    c.receive (fun request (_ : Unit) => ((mainHandler X request
      { userHandler := s.userHandler, clocks := fun _ => s.clocks 0 }).1, ()))
        X.hashOrder chunk () = (r.1, r.2.1, ()) ∧ r.2.2.userHandler = s.userHandler := by
  unfold ConcurrentNetwork.userRequest at hother
  unfold Connection.receive
  simp only
  by_cases hcomplete : isCompleteRequest (c.client.requestData ++ chunk) = true
  · obtain ⟨request, hparse⟩ := RequestFactory.parse_ok (c.client.requestData ++ chunk)
    rw [if_pos hcomplete, hparse] at hother
    have hroute : router.route request ≠ some .userHandler := fun hroute => by
      simp [hroute] at hother
    obtain ⟨hnow, hkeeps⟩ := mainHandler_now (X := X) hroute s
    rcases hmain : mainHandler X request s with ⟨_ | _ | _, s'⟩ <;> rw [hmain] at hnow hkeeps <;>
      simp only [if_pos hcomplete, dispatch, hparse, hnow, hmain] <;> exact ⟨trivial, hkeeps⟩
  · simp only [if_neg hcomplete, and_self]

/-- A read that completes a request for the user handler: the call, the start of the write and the
clear behind it. -/
theorem handleRead_user {request : IRequest}
    (hrequest : ConcurrentNetwork.userRequest (c.client.requestData ++ chunk) = some request) :
    let served := s.userHandler.handleRequest X (s.clocks 0) request
    let result := (c.enter chunk).respond X.hashOrder served.1
    c.handleRead (mainHandler X) X.hashOrder chunk s =
      (result.1, result.1.settles result.2, { s.tick with userHandler := served.2 }) := by
  unfold ConcurrentNetwork.userRequest at hrequest
  obtain ⟨request', hparse⟩ := RequestFactory.parse_ok (c.client.requestData ++ chunk)
  split at hrequest
  · rename_i hcomplete
    rw [hparse] at hrequest
    simp only at hrequest
    split at hrequest
    · rename_i hroute
      cases hrequest
      have hmain := mainHandler_user (X := X) hroute s
      rw [Connection.handleRead_eq]
      rcases hserved : s.userHandler.handleRequest X (s.clocks 0) request with ⟨_ | _, h'⟩ <;>
        rw [hserved] at hmain <;>
        simp only [Connection.receive, if_pos hcomplete, dispatch, hparse, hmain] <;> rfl
    · cases hrequest
  · cases hrequest

/-- A handler behind a write, or behind an operation that has failed, returns, and neither calls
nor changes the handlers. -/
theorem complete_returned {k : Completion} (hk : ∀ chunk, k ≠ .read chunk) :
    c.complete (mainHandler X) X.hashOrder k s =
      (.returned, (c.complete (fun _ (_ : Unit) => (.ok none, ())) X.hashOrder k ()).2.1, s) ∧
    (c.complete (fun _ (_ : Unit) => (.ok none, ())) X.hashOrder k ()).1 = .returned := by
  unfold Connection.complete
  cases c.pending <;> cases k <;> first | exact ⟨rfl, rfl⟩ | exact absurd rfl (hk _)

end

namespace ConcurrentNetwork

variable {X : Externals} {w : ConcurrentNetwork} {calls : List UserCall}

/-- Where the thread of a completion handler of connection `i` has nothing more to do. -/
def settledBehind (w : ConcurrentNetwork) (i : Nat) (result : Handled × Connection)
    (c : HttpClient) : ConcurrentNetwork :=
  { w with
    connections := Function.update w.connections i (result.1.settles result.2)
    clients := Function.update w.clients i c
    threads := match result.1 with
      | .threw _ _ => w.threads - 1
      | _ => w.threads }

theorem reaches_settled (i : Nat) (result : Handled × Connection) (c : HttpClient) :
    Reaches (Restrict (Steps X) (Separate false)) (w.behind i result c)
      (w.settledBehind i result c) := by
  obtain ⟨handled, connection⟩ := result
  cases handled with
  | returned | threw => exact .refl _
  | dispatched =>
    refine .next (i := .clear i) ⟨trivial, ?_⟩ (.refl _)
    simp [Steps, step, behind, settledBehind, Handled.settles]

/-- A call that runs alone, on one of the threads. -/
theorem reaches_work {s t : SharedHandler} (h : Reaches (SharedHandler.StepsApart X) s t) :
    Reaches (Restrict (Steps X) (Separate false)) { w with shared := s }
      { w with shared := t } := by
  obtain ⟨as, h⟩ := h
  refine h.simulate (f := fun shared => { w with shared }) fun s a t hstep => ?_
  obtain ⟨⟨hsep, hrefuses, hcall⟩, hstep⟩ := hstep
  refine .next (i := .work a) ⟨⟨hsep, fun h => absurd h hrefuses⟩, ?_⟩ (.refl _)
  have hmap : (s.step X a).map (fun shared => { w with shared }) = some { w with shared := t } := by
    rw [hstep]
    rfl
  cases a with
  | call request clocks => exact absurd rfl (hcall request clocks)
  | advance _ => exact hmap
  | read _ _ => exact hmap

/-- A call that has ended is answered. -/
theorem reaches_answered {i k : Nat} {r : Except Exn HttpResponse} (hserving : w.serving i = some k)
    (hr : w.response k = some r) :
    let result := (w.connections i).respond X.hashOrder r
    Reaches (Restrict (Steps X) (Separate false)) w
      (settledBehind { w with serving := Function.update w.serving i none, busy := w.busy - 1 } i
        result { w.clients i with writing := Network.written result.1 }) := by
  refine .next (i := .answer i) ⟨trivial, ?_⟩ (reaches_settled ..)
  simp only [Steps, step, hserving, hr]

/-- **A call that runs alone** returns, and its response begins to be written. -/
theorem reaches_served {i : Nat} (hended : SharedHandler.Ended w.shared.calls)
    (hserving : w.serving i = none) (chunk : Bytes) (request : IRequest)
    (clocks : UserHandler.Clocks) (c : HttpClient) :
    let served := w.shared.handler.handleRequest X clocks request
    let result := ((w.connections i).enter chunk).respond X.hashOrder served.1
    Reaches (Restrict (Steps X) (Separate false)) (w.beginCall i chunk request clocks c)
      { w.settledBehind i result { c with writing := Network.written result.1 } with
        shared := {
          handler := served.2
          calls := w.shared.calls ++ [{ request, clocks, phase := .ended served.1 }] } } := by
  intro served result
  let begun := w.beginCall i chunk request clocks c
  let shared : SharedHandler :=
    { handler := served.2
      calls := w.shared.calls ++ [{ request, clocks, phase := .ended served.1 }] }
  have hwork : Reaches (Restrict (Steps X) (Separate false)) begun { begun with shared } :=
    reaches_work (w := begun) (SharedHandler.returns_alone hended request clocks w.shared.handler)
  have hbegun : begun.serving i = some w.shared.calls.length := Function.update_self ..
  have hresponse : response { begun with shared } w.shared.calls.length = some served.1 := by
    unfold response
    rw [show shared.calls[w.shared.calls.length]? = _ from List.getElem?_concat_length]
    rfl
  have hanswer := reaches_answered (X := X) (w := { begun with shared }) hbegun hresponse
  have hconnection : begun.connections i = (w.connections i).enter chunk :=
    Function.update_self ..
  have hclient : begun.clients i = c := Function.update_self ..
  simp only [hconnection, hclient] at hanswer
  refine hwork.trans ?_
  convert hanswer using 1
  simp only [settledBehind, begun, beginCall, Function.update_idem, Nat.add_sub_cancel]
  rw [Function.update_eq_self_iff (f := w.serving).2 hserving.symm]

/-- The network behind a completion handler that is one step. -/
theorem resting_complete (w : Network) (h : w.server.threads ≠ 0) (i : Nat) (k : Completion)
    (c : HttpClient) (result : Handled × Connection) {handlers : HandlerState}
    (hres : (w.server.connections i).complete (mainHandler X) X.hashOrder k w.server.handlers =
      (result.1, result.1.settles result.2, handlers)) :
    resting { server := w.server.complete X (i, k), clients := Function.update w.clients i c }
        calls =
      { (resting w calls).settledBehind i result c with
        shared := { handler := handlers.userHandler, calls } } := by
  unfold IoServer.complete
  rw [if_neg h]
  simp only [hres]
  rfl

section
variable {w w' : Network} {i n : Nat}

/-- The read of a connection can complete with `n` bytes. -/
def CanRead (w : Network) (i n : Nat) : Prop :=
  w.server.threads ≠ 0 ∧ (w.server.connections i).pending = .read ∧ 0 < n ∧ n ≤ 8192 ∧
    n ≤ (w.clients i).inbox.length

/-- What a read makes of the network, as one step. -/
theorem resting_read (calls : List UserCall) (hstep : w.step X (.read i n) = some w')
    {handled : Handled} {connection : Connection} {handlers : HandlerState}
    (hread : (w.server.connections i).handleRead (mainHandler X) X.hashOrder
      ((w.clients i).inbox.take n) w.server.handlers =
        (handled, handled.settles connection, handlers)) :
    CanRead w i n ∧ resting w' calls =
      { (resting w calls).settledBehind i (handled, connection) { w.clients i with
          inbox := (w.clients i).inbox.drop n
          writing := Network.written handled } with
        shared := { handler := handlers.userHandler, calls } } := by
  simp only [Network.step] at hstep
  split at hstep
  · rename_i hcan
    have hcomplete : (w.server.connections i).complete (mainHandler X) X.hashOrder
        (.read ((w.clients i).inbox.take n)) w.server.handlers =
          (handled, handled.settles connection, handlers) := by
      simp only [Connection.complete, hcan.2.1, hread]
    cases hstep
    rw [hcomplete, resting_complete w hcan.1 i _ _ (handled, connection) hcomplete]
    exact ⟨hcan, rfl⟩
  · cases hstep

/-- The same read on several threads. -/
theorem step_read (hcan : CanRead w i n) (clocks : UserHandler.Clocks) :
    (resting w calls).step X (.read i n clocks) =
      match userRequest ((w.server.connections i).client.requestData ++
        (w.clients i).inbox.take n) with
      | some request =>
        some ((resting w calls).beginCall i ((w.clients i).inbox.take n) request clocks
          { w.clients i with inbox := (w.clients i).inbox.drop n })
      | none =>
        let result := (resting w calls).receive X i ((w.clients i).inbox.take n) clocks
        some ((resting w calls).behind i result { w.clients i with
          inbox := (w.clients i).inbox.drop n
          writing := Network.written result.1 }) :=
  if_pos ⟨Nat.pos_of_ne_zero hcan.1, rfl, hcan.2⟩

/-- A read that completes no request for the user handler. -/
theorem reaches_receive (hstep : w.step X (.read i n) = some w')
    (hother : userRequest ((w.server.connections i).client.requestData ++
      (w.clients i).inbox.take n) = none) :
    Reaches (Restrict (Steps X) (Separate false)) (resting w calls) (resting w' calls) := by
  obtain ⟨hsame, hkeeps⟩ := receive_other (X := X) (s := w.server.handlers) hother
  obtain ⟨hcan, heq⟩ := resting_read calls hstep (Connection.handleRead_eq ..)
  rw [heq, hkeeps]
  refine .next (i := .read i n (w.server.handlers.clocks 0)) ⟨rfl, ?_⟩ (reaches_settled ..)
  have hresult : (resting w calls).receive X i ((w.clients i).inbox.take n)
      (w.server.handlers.clocks 0) = _ := congrArg (fun r => (r.1, r.2.1)) hsame
  rw [Steps, step_read hcan, hother, hresult]

/-- A read that completes a request for the user handler. -/
theorem reaches_call (hended : SharedHandler.Ended calls) {request : IRequest}
    (hstep : w.step X (.read i n) = some w')
    (hrequest : userRequest ((w.server.connections i).client.requestData ++
      (w.clients i).inbox.take n) = some request) :
    ∃ response, Reaches (Restrict (Steps X) (Separate false)) (resting w calls)
      (resting w' (calls ++ [{
        request
        clocks := w.server.handlers.clocks 0
        phase := .ended response }])) := by
  let clocks := w.server.handlers.clocks 0
  refine ⟨(w.server.handlers.userHandler.handleRequest X clocks request).1, ?_⟩
  obtain ⟨hcan, heq⟩ := resting_read _ hstep (handleRead_user hrequest)
  have hserved := reaches_served (X := X) (w := resting w calls) (i := i) hended rfl
    ((w.clients i).inbox.take n) request clocks
    { w.clients i with inbox := (w.clients i).inbox.drop n }
  rw [heq]
  refine .next (i := .read i n clocks) ⟨rfl, ?_⟩ hserved
  rw [Steps, step_read hcan, hrequest]

/-- A handler behind a write, or behind an operation that has failed. -/
theorem resting_returned (h : w.server.threads ≠ 0) {k : Completion} (hk : ∀ chunk, k ≠ .read chunk)
    (c : HttpClient) :
    resting { server := w.server.complete X (i, k), clients := Function.update w.clients i c }
        calls =
      (resting w calls).behind i ((resting w calls).complete X i k) c := by
  obtain ⟨hcomplete, hreturned⟩ := complete_returned (X := X) (c := w.server.connections i)
    (s := w.server.handlers) hk
  have hresult : (resting w calls).complete X i k = (.returned, _) :=
    Prod.ext hreturned rfl
  rw [resting_complete w h i k c (.returned, _) hcomplete, hresult]
  rfl

/-- **Every step** of the network is matched by the steps of one handler. -/
theorem reaches_step {a : Network.Action} (hended : SharedHandler.Ended calls)
    (hstep : Network.Steps X w a w') : ∃ more, SharedHandler.Ended more ∧
      Reaches (Restrict (Steps X) (Separate false)) (resting w calls)
        (resting w' (calls ++ more)) := by
  have hquiet (h : Reaches (Restrict (Steps X) (Separate false)) (resting w calls)
      (resting w' calls)) : ∃ more, SharedHandler.Ended more ∧
        Reaches (Restrict (Steps X) (Separate false)) (resting w calls)
          (resting w' (calls ++ more)) := ⟨[], SharedHandler.ended_nil, by rwa [List.append_nil]⟩
  cases a with
  | send i r =>
    refine hquiet (.next (i := .send i r) ⟨trivial, ?_⟩ (.refl _))
    simp only [Network.Steps, Network.step] at hstep
    split at hstep
    · rename_i hall
      cases hstep
      exact if_pos hall
    · cases hstep
  | read i n =>
    cases hrequest : userRequest ((w.server.connections i).client.requestData ++
      (w.clients i).inbox.take n) with
    | none => exact hquiet (reaches_receive hstep hrequest)
    | some request =>
      obtain ⟨response, hreach⟩ := reaches_call hended hstep hrequest
      refine ⟨_, fun call hcall => ?_, hreach⟩
      rw [List.mem_singleton.1 hcall]
      exact ⟨response, rfl⟩
  | written i =>
    refine hquiet (.next (i := .written i) ⟨trivial, ?_⟩ (.refl _))
    simp only [Network.Steps, Network.step] at hstep
    split at hstep
    · rename_i text hwriting
      split at hstep
      · rename_i hthreads
        cases hstep
        rw [Steps, resting_returned hthreads fun chunk h => by cases h]
        simp only [step, show ((resting w calls).clients i).writing = some text from hwriting]
        exact if_pos (Nat.pos_of_ne_zero hthreads)
      · cases hstep
    · cases hstep
  | lose i k =>
    refine hquiet (.next (i := .lose i k) ⟨trivial, ?_⟩ (.refl _))
    simp only [Network.Steps, Network.step] at hstep
    split at hstep
    · rename_i hcan
      cases hstep
      have hk : ∀ chunk, k ≠ .read chunk := by
        rintro chunk rfl
        cases hp : (w.server.connections i).pending <;> rw [hp] at hcan <;> exact hcan.2
      rw [Steps, resting_returned hcan.1 hk]
      exact if_pos ⟨Nat.pos_of_ne_zero hcan.1, rfl, hcan.2⟩
    · cases hstep

/-- **Handlers one at a time** are one of the orders in which several threads take the steps of
their handlers: every run of the network is matched by one in which no uploads overlap, no loop over
the users runs while an upload replaces them, and no connection is read again before the text of its
last request is cleared; it ends with no thread in a handler, and all calls have returned. -/
theorem reaches_of_run {as : List Network.Action} (hw : Path (Network.Steps X) w as w')
    (hended : SharedHandler.Ended calls) : ∃ more, SharedHandler.Ended more ∧
      Reaches (Restrict (Steps X) (Separate false)) (resting w calls)
        (resting w' (calls ++ more)) := by
  have hstep : ∀ w a w' c, (∃ more, SharedHandler.Ended more ∧ c = resting w (calls ++ more)) →
      Network.Steps X w a w' → ∃ c', Reaches (Restrict (Steps X) (Separate false)) c c' ∧
        ∃ more, SharedHandler.Ended more ∧ c' = resting w' (calls ++ more) := by
    rintro w a w' _ ⟨more, hmore, rfl⟩ ha
    obtain ⟨next, hnext, hreach⟩ := reaches_step (hended.append hmore) ha
    exact ⟨_, hreach, more ++ next, hmore.append hnext, by rw [List.append_assoc]⟩
  obtain ⟨_, hreach, more, hmore, rfl⟩ :=
    hw.simulate_of hstep ⟨[], SharedHandler.ended_nil, by rw [List.append_nil]⟩
  exact ⟨more, hmore, hreach⟩

end

/-- A client uploads Ana, and another one asks for the superusers. -/
def anaThenQuery : List Network.Action :=
  [.send 0 anaRequest, .read 0 anaRequest.text.length,
    .send 1 (Network.getRequest "/superusers" superusers_plain superusers_unannounced),
    .read 1 28, .written 0, .written 1]

theorem anaThenQuery_matched : ∃ w : Network,
    anaThenQuery.foldlM (Network.step UserHandler.fewTexts)
      (Network.start 1 fun _ => UserHandler.noonClocks) = some w ∧
    ((w.clients 1).received.map decode).map (·.map (·.code)) = [some 200] ∧
    ∃ more, SharedHandler.Ended more ∧
      Reaches (Restrict (Steps UserHandler.fewTexts) (Separate false)) (start 1)
        (resting w more) := by
  have hrun : (anaThenQuery.foldlM (Network.step UserHandler.fewTexts)
      (Network.start 1 fun _ => UserHandler.noonClocks)).any (fun w =>
        ((w.clients 1).received.map decode).map (·.map (·.code)) == [some 200]) = true := by
    decide +kernel
  obtain ⟨w, hw, hcode⟩ := (Option.any_eq_true _ _).1 hrun
  exact ⟨w, hw, beq_iff_eq.1 hcode, reaches_of_run (path_iff_foldlM.2 hw) SharedHandler.ended_nil⟩

end ConcurrentNetwork

end HttpsTest
