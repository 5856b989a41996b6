import HttpsTest.Server.Proof.Clients
import HttpsTest.Server.Proof.IoThreads
import HttpsTest.Server.Service

/-!
# The service from start to stop

`realizes_of_calls`: in every run of the service, whatever is called on the server and however its
accepts end, the exchanges on the network are those of clients whose connections are handled, and a
server that has been stopped answers nothing any more, also when it is started again.
`answered_of_idle`: without a restart, and with peers that stay until they are accepted, no client
is forgotten: where a running server has nothing left to do, every client that is connected is
handled, and has read the answers to all its requests.
-/

set_option autoImplicit false

namespace HttpsTest

open Runs

/-! ## Steps of the network -/

namespace Network

variable {X : Externals} {s₀ : HandlerState} {history : List Exchange} {w w' : Network}

/-- The client of a step. -/
def Action.client : Action → Nat
  | .send i _ | .read i _ | .written i | .lose i _ => i

/-- A client that sends leaves the server alone. -/
theorem step_send {i : Nat} {r : ClientRequest} (h : Steps X w (.send i r) w') :
    w'.server = w.server ∧ ∀ j, (w'.clients j).received = (w.clients j).received := by
  simp only [Steps, Network.step] at h
  split at h
  · cases h
    refine ⟨rfl, fun j => ?_⟩
    by_cases hj : j = i
    · subst hj
      simp
    · simp [hj]
  · cases h

/-- Any other step completes an operation, on a thread. -/
theorem step_completes {a : Action} (hsend : ∀ i r, a ≠ .send i r) (h : Steps X w a w') :
    ∃ k, w.server.threads ≠ 0 ∧ w'.server = w.server.complete X (a.client, k) := by
  cases a with
  | send i r => exact absurd rfl (hsend i r)
  | read i n =>
    simp only [Steps, Network.step] at h
    split at h
    · rename_i hcan
      cases h
      exact ⟨_, hcan.1, rfl⟩
    · cases h
  | written i =>
    simp only [Steps, Network.step] at h
    split at h
    · split at h
      · rename_i hthreads
        cases h
        exact ⟨_, hthreads, rfl⟩
      · cases h
    · cases h
  | lose i k =>
    simp only [Steps, Network.step] at h
    split at h
    · rename_i hcan
      cases h
      exact ⟨_, hcan.1, rfl⟩
    · cases h

/-- A step leaves the other clients and their connections alone. -/
theorem step_frame {a : Action} (h : Steps X w a w') {j : Nat} (hj : j ≠ a.client) :
    w'.clients j = w.clients j ∧ w'.server.connections j = w.server.connections j := by
  constructor
  · have hclients : ∃ c, w'.clients = Function.update w.clients a.client c := by
      cases a with
      | written i =>
        simp only [Steps, Network.step] at h
        split at h
        · split at h
          · cases h
            exact ⟨_, rfl⟩
          · cases h
        · cases h
      | _ =>
        simp only [Steps, Network.step] at h
        split at h
        · cases h
          exact ⟨_, rfl⟩
        · cases h
    obtain ⟨c, hc⟩ := hclients
    rw [hc, Function.update_of_ne hj]
  · by_cases hsend : ∃ i r, a = .send i r
    · obtain ⟨i, r, rfl⟩ := hsend
      rw [(step_send h).1]
    · obtain ⟨k, hthreads, hserver⟩ := step_completes (fun i r ha => hsend ⟨i, r, ha⟩) h
      rw [hserver, (complete_eq hthreads _ k).1, Function.update_of_ne hj]

/-- The number of threads is not part of what happens on the network. -/
theorem Invariant.withThreads (inv : Invariant X s₀ history w) (threads : Nat) :
    Invariant X s₀ history { w with server := { w.server with threads } } :=
  ⟨inv.served, inv.talks⟩

/-- What a client sends serves nothing yet. -/
theorem Invariant.send (inv : Invariant X s₀ history w) {i : Nat} {r : ClientRequest}
    (h : Steps X w (.send i r) w') : Invariant X s₀ history w' := by
  simp only [Steps, Network.step] at h
  split at h
  · rename_i hall
    cases h
    exact inv.quietly rfl (Function.update_eq_self i _).symm ((inv.talks i).send hall r)
  · cases h

/-- A client that has read nothing, on a connection as it begins, has made no exchange. -/
theorem Invariant.exchanges_nil (inv : Invariant X s₀ history w) {i : Nat}
    (hconnection : w.server.connections i = {}) (hreceived : (w.clients i).received = []) :
    exchangesOf i history = [] := by
  cases inv.talks i with
  | idle _ _ _ _ _ received =>
    rw [hreceived] at received
    exact List.map_eq_nil_iff.1 received.symm
  | sending _ _ _ _ _ _ received =>
    rw [hreceived] at received
    exact List.map_eq_nil_iff.1 received.symm
  | writing _ _ _ pending =>
    rw [hconnection] at pending
    cases pending
  | closed pending =>
    rw [hconnection] at pending
    cases pending

end Network

/-! ## Calls and accepts -/

namespace MultiThreadHTTPServer

variable {s : MultiThreadHTTPServer}

/-- A stopped `io_context` stays stopped, and gets no threads. -/
theorem afterCall_stopped (halted : s.stopped = true → s.insideRun = 0) (c : Call) :
    (s.stopped = true → (s.afterCall c).stopped = true) ∧
      ((s.afterCall c).stopped = true → (s.afterCall c).insideRun = 0) := by
  have hstop (closeFails : Bool) :
      (s.stopped = true → (s.stop closeFails).2.stopped = true) ∧
        ((s.stop closeFails).2.stopped = true → (s.stop closeFails).2.insideRun = 0) := by
    unfold stop
    split_ifs
    · exact ⟨id, halted⟩
    · exact ⟨fun _ => rfl, fun _ => rfl⟩
    · exact ⟨id, halted⟩
  cases c with
  | start sc =>
    simp only [afterCall, call, start]
    split
    · exact ⟨id, halted⟩
    · split
      · exact ⟨id, halted⟩
      · split_ifs
        · exact ⟨id, halted⟩
        · exact ⟨id, halted⟩
        · exact ⟨id, halted⟩
        · exact ⟨id, halted⟩
        · refine ⟨id, fun hs => ?_⟩
          have hs' : s.stopped = true := hs
          simp [startAccept, startThreads, hs', halted hs']
  | stop closeFails => exact hstop closeFails
  | configure closeFails config =>
    simp only [afterCall, call, configure]
    by_cases hrun : s.serverRunning = true
    · have hs := hstop closeFails
      simp only [hrun, if_true]
      rcases hst : s.stop closeFails with ⟨_ | _, t⟩ <;> rw [hst] at hs <;> exact hs
    · simp only [hrun]
      exact ⟨id, halted⟩

/-- `handleAccept` stops nothing, and leaves the threads alone. -/
theorem handleAccept_stopped (s : MultiThreadHTTPServer) (result : AcceptResult) :
    (handleAccept result s).2.stopped = s.stopped ∧
      (handleAccept result s).2.insideRun = s.insideRun := by
  unfold handleAccept
  cases s.serverRunning with
  | false => exact ⟨rfl, rfl⟩
  | true =>
    cases result with
    | peer => exact ⟨rfl, rfl⟩
    | peerGone => exact ⟨rfl, rfl⟩
    | error e => cases e <;> exact ⟨rfl, rfl⟩

/-- The completion of an accept stops nothing, and adds no thread. -/
theorem acceptCompleted_stopped (result : AcceptResult) :
    (acceptCompleted s result).stopped = s.stopped ∧
      (acceptCompleted s result).insideRun ≤ s.insideRun := by
  unfold acceptCompleted
  split
  · exact ⟨rfl, le_rfl⟩
  · have hkeeps := handleAccept_stopped { s with acceptPending := s.acceptPending - 1 } result
    rcases hres : handleAccept result { s with acceptPending := s.acceptPending - 1 } with
      ⟨_ | _, t⟩
    · rw [hres] at hkeeps
      exact ⟨hkeeps.1, (Nat.sub_le _ _).trans hkeeps.2.le⟩
    · rw [hres] at hkeeps
      exact ⟨hkeeps.1, hkeeps.2.le⟩

/-- A running server accepts, and one of its threads is left: an upload that ends a thread leaves
the mutex locked, and another one then ends none. -/
structure Lively (s : MultiThreadHTTPServer) (mutex : Bool) : Prop where
  accepts : s.serverRunning = true → s.acceptPending = 1
  unstopped : s.serverRunning = true → s.stopped = false
  threads : s.serverRunning = true → 2 ≤ s.insideRun ∨ 1 ≤ s.insideRun ∧ mutex = true
  closed : s.serverRunning = false →
    s.acceptor.isOpen = false ∧ s.acceptPending = 0 ∧ s.insideRun = 0

theorem Lively.running {mutex : Bool} (h : s.Lively mutex)
    (hwork : s.acceptPending ≠ 0 ∨ s.insideRun ≠ 0) : s.serverRunning = true := by
  by_contra hrun
  obtain ⟨-, haccept, hinside⟩ := h.closed (Bool.not_eq_true _ ▸ hrun)
  exact hwork.elim (fun h => h haccept) fun h => h hinside

theorem Lively.inside {mutex : Bool} (h : s.Lively mutex) (hrun : s.serverRunning = true) :
    0 < s.insideRun := by
  rcases h.threads hrun with h2 | ⟨h1, -⟩ <;> omega

/-- A server that does not run, with everything closed and joined. -/
theorem Lively.of_closed {mutex : Bool} (hrun : s.serverRunning = false)
    (hclosed : s.acceptor.isOpen = false ∧ s.acceptPending = 0 ∧ s.insideRun = 0) :
    s.Lively mutex :=
  have hno (h : s.serverRunning = true) : False := Bool.noConfusion (hrun.symm.trans h)
  ⟨fun h => (hno h).elim, fun h => (hno h).elim, fun h => (hno h).elim, fun _ => hclosed⟩

theorem Lively.stop {mutex : Bool} {closeFails : Bool} (h : s.Lively mutex)
    (hret : (s.stop closeFails).1 = .ok ()) : (s.stop closeFails).2.Lively mutex := by
  rcases stop_returns hret with ⟨hrun, heq⟩ | ⟨-, heq⟩
  · rw [heq]
    exact h
  · rw [heq]
    exact .of_closed rfl ⟨rfl, rfl, rfl⟩

/-- A call that returns and restarts nothing. -/
theorem Lively.call {mutex : Bool} {c : Call} (h : s.Lively mutex) (hret : s.Returns c)
    (hno : s.NoRestart c) : (s.afterCall c).Lively mutex := by
  cases c with
  | start sc =>
    show (start sc s).2.Lively mutex
    rcases start_returns hret with ⟨-, heq⟩ | ⟨hrun, -, heq⟩
    · rw [heq]
      exact h
    · have hstopped : s.stopped = false := hno hrun
      have h2 : 2 ≤ threadCount sc.hardwareConcurrency := le_max_left _ _
      rw [heq]
      refine ⟨fun _ => ?_, fun _ => hstopped, fun _ => .inl ?_, fun hend => by cases hend⟩
      · simp [startThreads, startAccept, (h.closed hrun).2.1]
      · simp only [startThreads, startAccept, hstopped, Bool.false_eq_true, if_false]
        omega
  | stop closeFails => exact h.stop hret
  | configure closeFails config =>
    unfold Returns MultiThreadHTTPServer.call configure at hret
    unfold afterCall MultiThreadHTTPServer.call configure
    cases hrun : s.serverRunning with
    | false =>
      simp only [Bool.false_eq_true, if_false]
      exact .of_closed hrun (h.closed hrun)
    | true =>
      simp only [hrun, if_true] at hret ⊢
      have hstop : (s.stop closeFails).1 = .ok () := by
        rcases hs : s.stop closeFails with ⟨_ | _, t⟩
        · rw [hs] at hret
          cases hret
        · rfl
      have hend := h.stop hstop
      rcases stop_returns hstop with ⟨hrun', -⟩ | ⟨-, heq⟩
      · exact Bool.noConfusion (hrun.symm.trans hrun')
      · rw [hstop, heq]
        exact .of_closed rfl ⟨rfl, rfl, rfl⟩

/-- An accept that completes with a peer that stays, or fails while the acceptor is open. -/
theorem Lively.accept {mutex : Bool} {result : AcceptResult} (h : s.Lively mutex)
    (hpending : s.acceptPending ≠ 0) (hgone : result ≠ .peerGone)
    (haborted : result ≠ .error .operationAborted) :
    (s.acceptCompleted result).Lively mutex := by
  have hrun := h.running (.inl hpending)
  obtain ⟨hrun', hkeep, -⟩ :=
    acceptCompleted_spec hrun (h.accepts hrun) (h.inside hrun) haborted
  obtain ⟨hone, hinside⟩ := hkeep hgone
  refine ⟨fun _ => hone, fun _ => ?_, fun _ => ?_, fun hend => ?_⟩
  · rw [(acceptCompleted_stopped result).1]
    exact h.unstopped hrun
  · rw [hinside]
    exact h.threads hrun
  · exact Bool.noConfusion (hrun'.symm.trans hend)

end MultiThreadHTTPServer

/-- One thread is left after a completion: one that takes a thread leaves the mutex locked, and
finds it free. -/
theorem IoServer.complete_threads_left {X : Externals} (hX : X.Lawful) {s : IoServer}
    (hu : ∀ u ∈ s.handlers.userHandler.users, u.Utf8)
    (h : 2 ≤ s.threads ∨ 1 ≤ s.threads ∧ s.handlers.userHandler.mutex = true)
    (i : Nat × Completion) :
    2 ≤ (complete X s i).threads ∨
      1 ≤ (complete X s i).threads ∧ (complete X s i).handlers.userHandler.mutex = true := by
  have hpos : 0 < s.threads := by rcases h with h | h <;> omega
  by_cases hr : Returns X s i
  · rw [(complete_threads s i).1 hr]
    exact h.imp_right fun h => ⟨h.1, complete_mutex s i hpos (.inl h.2)⟩
  · have hc : CompletesRefused X s i := not_not.1 fun hn => hr ((returns_iff hX hu i).2 hn)
    rw [(complete_threads s i).2 hr]
    rcases h with h | ⟨-, hlocked⟩
    · exact .inr ⟨by omega, complete_mutex s i hpos (.inr hc)⟩
    · rcases complete_cases (X := X) s i with ⟨hn, -⟩ | ⟨c, hiff, -⟩
      · exact absurd hc hn
      · obtain ⟨-, -, -, hfree, -⟩ := hiff.1 hc
        rw [hlocked] at hfree
        cases hfree

namespace Service

variable {X : Externals} {s₀ : HandlerState} {history : List Exchange} {s s' : Service}

/-! ## Every run -/

structure Invariant (X : Externals) (s₀ : HandlerState) (history : List Exchange) (s : Service) :
    Prop where
  network : Network.Invariant X s₀ history s.network
  threads : s.network.server.threads = s.server.insideRun
  /-- A connection that is not handled is as it begins. -/
  fresh : ∀ i, s.arrivals i ≠ .handled →
    s.network.server.connections i = {} ∧ (s.network.clients i).received = []
  halted : s.server.stopped = true → s.server.insideRun = 0

theorem Invariant.withServer (inv : Invariant X s₀ history s) {server : MultiThreadHTTPServer}
    (halted : server.stopped = true → server.insideRun = 0) :
    Invariant X s₀ history (s.withServer server) :=
  ⟨inv.network.withThreads _, rfl, inv.fresh, halted⟩

/-- A connection that is not handled yet moves on. -/
theorem Invariant.arrive (inv : Invariant X s₀ history s) {i : Nat}
    (hi : s.arrivals i ≠ .handled) (a : Arrival) : Invariant X s₀ history (s.arrive i a) where
  network := inv.network
  threads := inv.threads
  fresh j hj := by
    by_cases hji : j = i
    · subst hji
      exact inv.fresh j hi
    · refine inv.fresh j fun h => hj ?_
      show Function.update s.arrivals i a j = .handled
      rwa [Function.update_of_ne hji]
  halted := inv.halted

theorem resetWaiting_arrivals {i : Nat} (hi : s.arrivals i ≠ .waiting) :
    s.resetWaiting.arrivals i = s.arrivals i := if_neg fun h => hi h.1

theorem Invariant.resetWaiting (inv : Invariant X s₀ history s) :
    Invariant X s₀ history s.resetWaiting where
  network := inv.network
  threads := inv.threads
  fresh i hi := by
    refine inv.fresh i fun h => hi ?_
    rw [resetWaiting_arrivals (by rw [h]; decide), h]
  halted := inv.halted

/-- A step on the network keeps connections that are not handled as they are. -/
theorem Invariant.fresh_act (inv : Invariant X s₀ history s) {a : Network.Action} {w : Network}
    (hmay : s.MayAct a) (hstep : Network.Steps X s.network a w) {i : Nat}
    (hi : s.arrivals i ≠ .handled) :
    w.server.connections i = {} ∧ (w.clients i).received = [] := by
  by_cases hclient : i = a.client
  · cases a with
    | send j r =>
      obtain ⟨hserver, hreceived⟩ := Network.step_send hstep
      rw [hserver, hreceived]
      exact inv.fresh i hi
    | read j n => exact absurd (hclient ▸ hmay) hi
    | written j => exact absurd (hclient ▸ hmay) hi
    | lose j k => exact absurd (hclient ▸ hmay) hi
  · obtain ⟨hclients, hconnections⟩ := Network.step_frame hstep hclient
    rw [hclients, hconnections]
    exact inv.fresh i hi

/-- **Every step** serves a request or none; on a stopped `io_context` it serves none, and brings
no response. -/
theorem Invariant.step (inv : Invariant X s₀ history s) {a : Action} (hstep : Steps X s a s') :
    (∃ more, Invariant X s₀ (history ++ more) s') ∧ (s.server.stopped = true →
      Invariant X s₀ history s' ∧ s'.server.stopped = true ∧
        ∀ i, (s'.network.clients i).received = (s.network.clients i).received) := by
  -- all steps but those on the network
  have hquiet {t : Service} (ht : Invariant X s₀ history t)
      (hstopped : s.server.stopped = true → t.server.stopped = true)
      (hclients : t.network.clients = s.network.clients) :
      (∃ more, Invariant X s₀ (history ++ more) t) ∧ (s.server.stopped = true →
        Invariant X s₀ history t ∧ t.server.stopped = true ∧
          ∀ i, (t.network.clients i).received = (s.network.clients i).received) :=
    ⟨⟨[], by rwa [List.append_nil]⟩, fun hs => ⟨ht, hstopped hs, fun _ => by rw [hclients]⟩⟩
  have haccept (result : AcceptResult) :
      Invariant X s₀ history (s.withServer (s.server.acceptCompleted result)) ∧
        (s.server.stopped = true → (s.server.acceptCompleted result).stopped = true) := by
    obtain ⟨hsame, hle⟩ := MultiThreadHTTPServer.acceptCompleted_stopped (s := s.server) result
    refine ⟨inv.withServer fun hs => ?_, fun hs => hsame.trans hs⟩
    have := inv.halted (hsame.symm.trans hs)
    omega
  cases a with
  | call c =>
    cases hstep
    obtain ⟨hstays, hhalted⟩ := MultiThreadHTTPServer.afterCall_stopped inv.halted c
    exact hquiet (inv.withServer hhalted).resetWaiting hstays rfl
  | connect i =>
    simp only [Steps, Service.step] at hstep
    split at hstep
    · rename_i hcan
      cases hstep
      exact hquiet (inv.arrive (by rw [hcan.1]; decide) _) id rfl
    · cases hstep
  | accept i gone =>
    simp only [Steps, Service.step] at hstep
    split at hstep
    · rename_i hcan
      cases hstep
      obtain ⟨hinv, hstopped⟩ := haccept (if gone then .peerGone else .peer)
      refine hquiet (hinv.arrive ?_ _) hstopped rfl
      show s.arrivals i ≠ .handled
      rw [hcan.2]
      decide
    · cases hstep
  | acceptFails e =>
    simp only [Steps, Service.step] at hstep
    split at hstep
    · cases hstep
      obtain ⟨hinv, hstopped⟩ := haccept (.error e)
      exact hquiet hinv hstopped rfl
    · cases hstep
  | handleClient i =>
    simp only [Steps, Service.step] at hstep
    split at hstep
    · rename_i hcan
      cases hstep
      exact hquiet (inv.arrive (by rw [hcan.2]; decide) _) id rfl
    · cases hstep
  | act a =>
    simp only [Steps, Service.step] at hstep
    split at hstep
    · rename_i hmay
      obtain ⟨w, hw, rfl⟩ := Option.map_eq_some_iff.1 hstep
      -- on a stopped context there is no thread that could complete an operation
      have hsend : s.server.stopped = true → ∃ i r, a = .send i r := by
        intro hs
        by_contra hno
        obtain ⟨k, hthreads, -⟩ := Network.step_completes (fun i r ha => hno ⟨i, r, ha⟩) hw
        exact hthreads (inv.threads.trans (inv.halted hs))
      have hhalted : s.server.stopped = true → w.server.threads = 0 := by
        intro hs
        obtain ⟨i, r, rfl⟩ := hsend hs
        rw [(Network.step_send hw).1, inv.threads, inv.halted hs]
      refine ⟨?_, fun hs => ?_⟩
      · obtain ⟨more, hinv⟩ := inv.network.step hw
        exact ⟨more, hinv, rfl, fun i hi => inv.fresh_act hmay hw hi, hhalted⟩
      · obtain ⟨i, r, rfl⟩ := hsend hs
        exact ⟨⟨inv.network.send hw, rfl, fun i hi => inv.fresh_act hmay hw hi, hhalted⟩, hs,
          (Network.step_send hw).2⟩
    · cases hstep

theorem invariant_built (X : Externals) (config : ServerConfig)
    (clocks : Nat → UserHandler.Clocks) : Invariant X { clocks } [] (built config clocks) :=
  ⟨⟨.nil _, fun _ => .idle rfl rfl rfl rfl rfl rfl⟩, rfl, fun _ _ => ⟨rfl, rfl⟩, nofun⟩

/-- All exchanges are those of clients that are handled. -/
theorem Invariant.handled (inv : Invariant X s₀ history s) :
    ∀ e ∈ history, s.arrivals e.client = .handled := by
  intro e he
  by_contra hno
  obtain ⟨hconnection, hreceived⟩ := inv.fresh _ hno
  have hnil := inv.network.exchanges_nil hconnection hreceived
  have hmem : e ∈ exchangesOf e.client history := List.mem_filter.2 ⟨he, by simp⟩
  rw [hnil] at hmem
  cases hmem

/-- The calls return and restart nothing, and a peer stays until it is accepted. -/
def Orderly (s : Service) : Action → Prop
  | .call c => s.server.Returns c ∧ s.server.NoRestart c
  | .accept _ gone => gone = false
  | .acceptFails e => e ≠ .operationAborted
  | _ => True

instance (s : Service) : DecidablePred s.Orderly
  | .call _ => inferInstanceAs (Decidable (_ ∧ _))
  | .accept _ _ => inferInstanceAs (Decidable (_ = _))
  | .acceptFails _ => inferInstanceAs (Decidable (_ ≠ _))
  | .connect _ | .handleClient _ | .act _ => inferInstanceAs (Decidable True)

structure Lively (s : Service) : Prop where
  users : ∀ u ∈ s.network.server.handlers.userHandler.users, u.Utf8
  server : s.server.Lively s.network.server.handlers.userHandler.mutex

/-- **An orderly step** keeps a running server alive. -/
theorem Lively.step (hX : X.Lawful) (h : s.Lively) (inv : Invariant X s₀ history s) {a : Action}
    (horderly : s.Orderly a) (hstep : Steps X s a s') : s'.Lively := by
  cases a with
  | call c =>
    cases hstep
    exact ⟨h.users, h.server.call horderly.1 horderly.2⟩
  | connect i =>
    simp only [Steps, Service.step] at hstep
    split at hstep
    · cases hstep
      exact ⟨h.users, h.server⟩
    · cases hstep
  | accept i gone =>
    have hgone : gone = false := horderly
    subst hgone
    simp only [Steps, Service.step] at hstep
    split at hstep
    · rename_i hcan
      cases hstep
      exact ⟨h.users, h.server.accept hcan.1.1 (fun h => by cases h) fun h => by cases h⟩
    · cases hstep
  | acceptFails e =>
    simp only [Steps, Service.step] at hstep
    split at hstep
    · rename_i hcan
      cases hstep
      refine ⟨h.users, h.server.accept hcan.1 (fun h => by cases h) fun heq => ?_⟩
      exact horderly (AcceptResult.error.inj heq)
    · cases hstep
  | handleClient i =>
    simp only [Steps, Service.step] at hstep
    split at hstep
    · cases hstep
      exact ⟨h.users, h.server⟩
    · cases hstep
  | act a =>
    simp only [Steps, Service.step] at hstep
    split at hstep
    · obtain ⟨w, hw, rfl⟩ := Option.map_eq_some_iff.1 hstep
      by_cases hsend : ∃ i r, a = .send i r
      · obtain ⟨i, r, rfl⟩ := hsend
        have hserver := (Network.step_send hw).1
        have hthreads : w.server.threads = s.server.insideRun := by rw [hserver, inv.threads]
        refine ⟨?_, ?_⟩
        · show ∀ u ∈ w.server.handlers.userHandler.users, u.Utf8
          rw [hserver]
          exact h.users
        · show MultiThreadHTTPServer.Lively { s.server with insideRun := w.server.threads }
            w.server.handlers.userHandler.mutex
          rw [hthreads, hserver]
          exact h.server
      · obtain ⟨k, hthreads, hserver⟩ :=
          Network.step_completes (fun i r ha => hsend ⟨i, r, ha⟩) hw
        have hrun : s.server.serverRunning = true :=
          h.server.running (.inr (inv.threads ▸ hthreads))
        have hleft := IoServer.complete_threads_left hX h.users
          (inv.threads.symm ▸ h.server.threads hrun) (a.client, k)
        rw [← hserver] at hleft
        refine ⟨?_, h.server.accepts, h.server.unstopped, fun _ => hleft, fun hend => ?_⟩
        · show ∀ u ∈ w.server.handlers.userHandler.users, u.Utf8
          rw [hserver]
          exact IoServer.complete_users h.users _
        · exact Bool.noConfusion (hrun.symm.trans hend)
    · cases hstep

theorem lively_built (config : ServerConfig) (clocks : Nat → UserHandler.Clocks) :
    (built config clocks).Lively where
  users _ hu := by cases hu
  server := .of_closed rfl ⟨rfl, rfl, rfl⟩

/-- Where nothing of a handled client can complete and its connection is open, the exchanges it has
made are all it has sent, and it has read all their outcomes. -/
theorem Invariant.answered (inv : Invariant X s₀ history s) (hidle : s.Idle X)
    (hinside : s.server.insideRun ≠ 0) {i : Nat} (hi : s.arrivals i = .handled)
    (hopen : (s.network.server.connections i).pending ≠ .none) :
    (s.network.clients i).sent = (exchangesOf i history).map (·.request) ∧
      (s.network.clients i).received.map decode = (exchangesOf i history).map (·.outcome) := by
  have hthreads : s.network.server.threads ≠ 0 := inv.threads ▸ hinside
  cases inv.network.talks i with
  | idle _ _ _ _ sent received => exact ⟨sent, received⟩
  | sending r pending data incomplete =>
    -- a byte of the request can be read
    have hmore : 1 ≤ (s.network.clients i).inbox.length := by
      by_contra hnone
      have hnil : (s.network.clients i).inbox = [] := List.eq_nil_of_length_eq_zero (by omega)
      rw [hnil, List.append_nil] at data
      exact incomplete data
    have hread := hidle.read i 1
    simp only [Service.step, MayAct, hi, if_true, Network.step] at hread
    rw [if_pos ⟨hthreads, pending, Nat.one_pos, by decide, hmore⟩] at hread
    cases hread
  | writing front e text _ _ _ writing =>
    have hwritten := hidle.written i
    simp only [Service.step, MayAct, hi, if_true, Network.step, writing] at hwritten
    rw [if_pos hthreads] at hwritten
    cases hwritten
  | closed pending => exact absurd pending hopen

/-- **No client is forgotten** by a running server that was not restarted, with peers that stay
until they are accepted: when it has nothing left to do, every client that is connected is
handled, and unless its connection was closed, all its requests have been served and it has read
what the handlers answered to each. -/
theorem answered_of_idle (hX : X.Lawful) {config : ServerConfig}
    {clocks : Nat → UserHandler.Clocks} {as : List Action}
    (hs : Path (Restrict (Steps X) Orderly) (built config clocks) as s)
    (hrun : s.server.serverRunning = true) (hidle : s.Idle X) :
    ∃ history, Realizes X { clocks } history s.network ∧ ∀ i, (s.arrivals i).IsOpen →
      s.arrivals i = .handled ∧ ((s.network.server.connections i).pending ≠ .none →
        (s.network.clients i).sent = (exchangesOf i history).map (·.request) ∧
          (s.network.clients i).received.map decode =
            (exchangesOf i history).map (·.outcome)) := by
  have hkeeps : (∃ history, Invariant X { clocks } history s) ∧ s.Lively :=
    hs.invariant (J := fun s => (∃ history, Invariant X { clocks } history s) ∧ s.Lively)
      (fun s a t ⟨⟨history, inv⟩, hl⟩ horderly hstep => by
        obtain ⟨more, inv'⟩ := (inv.step hstep).1
        exact ⟨⟨_, inv'⟩, hl.step hX inv horderly hstep⟩)
      ⟨⟨[], invariant_built X config clocks⟩, lively_built config clocks⟩
  obtain ⟨⟨history, inv⟩, hl⟩ := hkeeps
  have hinside := (hl.server.inside hrun).ne'
  have haccepts : s.Accepts := ⟨by rw [hl.server.accepts hrun]; decide, hinside⟩
  refine ⟨history, inv.network.realizes, fun i hopen => ?_⟩
  have hhandled : s.arrivals i = .handled := by
    rcases hopen with hwaiting | hposted | hhandled
    · have haccept := hidle.accept i
      simp only [Service.step] at haccept
      rw [if_pos ⟨haccepts, hwaiting⟩] at haccept
      cases haccept
    · have hhandle := hidle.handleClient i
      simp only [Service.step] at hhandle
      rw [if_pos ⟨hinside, hposted⟩] at hhandle
      cases hhandle
    · exact hhandled
  exact ⟨hhandled, inv.answered hidle hinside hhandled⟩

/-- Only its own connect takes a client out of `away`. -/
theorem step_away {a : Action} {i : Nat} (hi : s.arrivals i = .away) (ha : a ≠ .connect i)
    (hstep : Steps X s a s') : s'.arrivals i = .away := by
  have hother {t : Service} {j : Nat} {b : Arrival} (ht : t.arrivals = s.arrivals) (hij : i ≠ j) :
      (t.arrive j b).arrivals i = .away := by
    show Function.update t.arrivals j b i = .away
    rw [Function.update_of_ne hij, ht, hi]
  cases a with
  | call c =>
    cases hstep
    have hi' : (s.withServer (s.server.afterCall c)).arrivals i = .away := hi
    rw [resetWaiting_arrivals (by rw [hi']; decide), hi']
  | connect j =>
    simp only [Steps, Service.step] at hstep
    split at hstep
    · cases hstep
      exact hother rfl fun h => ha (by rw [h])
    · cases hstep
  | accept j gone =>
    simp only [Steps, Service.step] at hstep
    split at hstep
    · rename_i hcan
      cases hstep
      refine hother rfl ?_
      rintro rfl
      rw [hi] at hcan
      cases hcan.2
    · cases hstep
  | acceptFails e =>
    simp only [Steps, Service.step] at hstep
    split at hstep
    · cases hstep
      exact hi
    · cases hstep
  | handleClient j =>
    simp only [Steps, Service.step] at hstep
    split at hstep
    · rename_i hcan
      cases hstep
      refine hother rfl ?_
      rintro rfl
      rw [hi] at hcan
      cases hcan.2
    · cases hstep
  | act a =>
    simp only [Steps, Service.step] at hstep
    split at hstep
    · obtain ⟨w, -, rfl⟩ := Option.map_eq_some_iff.1 hstep
      exact hi
    · cases hstep

/-- Clients that are away or have nothing under way leave the server idle. -/
theorem Idle.of_quiet (h : ∀ i, s.arrivals i = .away ∨ s.arrivals i = .handled ∧
    (s.network.clients i).inbox = [] ∧ (s.network.clients i).writing = none) : s.Idle X where
  accept i := by
    refine if_neg fun hcan => ?_
    rcases h i with hi | ⟨hi, -⟩ <;> rw [hi] at hcan <;> cases hcan.2
  handleClient i := by
    refine if_neg fun hcan => ?_
    rcases h i with hi | ⟨hi, -⟩ <;> rw [hi] at hcan <;> cases hcan.2
  read i n := by
    rcases h i with hi | ⟨hi, hinbox, -⟩
    · exact if_neg fun hmay => by cases hi.symm.trans hmay
    · simp only [Service.step, MayAct, hi, if_true, Network.step, hinbox]
      rw [if_neg fun hcan => by simp at hcan; omega]
      rfl
  written i := by
    rcases h i with hi | ⟨hi, -, hwriting⟩
    · exact if_neg fun hmay => by cases hi.symm.trans hmay
    · simp only [Service.step, MayAct, hi, if_true, Network.step, hwriting]
      rfl

/-- One client is accepted and answered. -/
def oneClient : List Action :=
  [.call (.start { hardwareConcurrency := 1 }), .connect 0,
    .act (.send 0 (Network.getRequest "/hello" Network.hello_plain Network.hello_unannounced)),
    .accept 0 false, .handleClient 0, .act (.read 0 7), .act (.read 0 16), .act (.written 0)]

theorem oneClient_answered : ∃ s : Service,
    oneClient.foldlM
      (fun (s : Service) a => if s.Orderly a then s.step UserHandler.fewTexts a else none)
      (built { port := 8081, maxConnections := 4 } fun _ => UserHandler.noonClocks) = some s ∧
    (s.network.clients 0).received.length = 1 ∧ ∃ history,
      Realizes UserHandler.fewTexts { clocks := fun _ => UserHandler.noonClocks } history
        s.network ∧
      (s.network.clients 0).received.map decode = (exchangesOf 0 history).map (·.outcome) := by
  have hrun : (oneClient.foldlM
      (fun (s : Service) a => if s.Orderly a then s.step UserHandler.fewTexts a else none)
      (built { port := 8081, maxConnections := 4 } fun _ => UserHandler.noonClocks)).any
        (fun s => s.server.serverRunning && s.arrivals 0 = .handled &&
          (s.network.clients 0).inbox == [] && (s.network.clients 0).writing == none &&
          (s.network.clients 0).received.length == 1 &&
          (s.network.server.connections 0).pending = .read) = true := by
    decide +kernel
  obtain ⟨s, hs, hend⟩ := (Option.any_eq_true _ _).1 hrun
  simp only [Bool.and_eq_true, beq_iff_eq, decide_eq_true_eq] at hend
  obtain ⟨⟨⟨⟨⟨hrunning, hhandled⟩, hinbox⟩, hwriting⟩, hone⟩, hread⟩ := hend
  have hpath := path_restrict_iff_foldlM.2 hs
  have haway (i : Nat) (hi : i ≠ 0) : s.arrivals i = .away := by
    refine hpath.keeps_of_mem (J := fun s : Service => s.arrivals i = .away)
      (fun a ha t u ht hstep => step_away ht ?_ hstep.2) rfl
    rintro rfl
    simp [oneClient, hi] at ha
  have hidle : s.Idle UserHandler.fewTexts := .of_quiet fun i => by
    by_cases hi : i = 0
    · subst hi
      exact .inr ⟨hhandled, hinbox, hwriting⟩
    · exact .inl (haway i hi)
  obtain ⟨history, hrealizes, hall⟩ :=
    answered_of_idle UserHandler.fewTexts_lawful hpath hrunning hidle
  obtain ⟨-, hanswered⟩ := hall 0 (.inr (.inr hhandled))
  exact ⟨s, hs, hone, history, hrealizes, (hanswered (by rw [hread]; decide)).2⟩

end Service

end HttpsTest
