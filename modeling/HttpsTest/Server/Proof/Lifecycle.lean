import HttpsTest.Lib.Runs
import HttpsTest.Server.MultiThreadHTTPServer

/-!
# The life of the server

`one_accept_iff`: while the server runs, one accept is outstanding after every completion exactly as
long as no accepted peer is gone before its address is read. `consistent_iff`: over any sequence
of calls that return, a running server listens on its port, accepts and has threads inside `run()`
exactly if it is never started again after a stop, because the stopped `io_context` is not
restarted, and never for a number outside the ports, of which the endpoint takes 16 bits.
-/

set_option autoImplicit false

namespace HttpsTest

/-- The acceptor is bound to the port exactly if it is one. -/
theorem StartConditions.boundPort_eq_iff (sc : StartConditions) (port : Int) :
    sc.boundPort port = port ↔ 0 < port ∧ port < 2 ^ 16 := by
  have hfree := sc.freePort.property
  unfold boundPort endpointPort
  split <;> omega

namespace MultiThreadHTTPServer

/-! ## Accepting -/

/-- A completion of the outstanding accept while the server runs. -/
theorem acceptCompleted_spec {s : MultiThreadHTTPServer} (hrun : s.serverRunning = true)
    (hone : s.acceptPending = 1) (hinside : 0 < s.insideRun) {result : AcceptResult}
    (hresult : result ≠ .error .operationAborted) :
    (acceptCompleted s result).serverRunning = true ∧
      (result ≠ .peerGone → (acceptCompleted s result).acceptPending = 1 ∧
        (acceptCompleted s result).insideRun = s.insideRun) ∧
      (result = .peerGone → (acceptCompleted s result).acceptPending = 0) := by
  unfold acceptCompleted handleAccept
  rw [if_neg (by omega), if_neg (not_not.2 hrun)]
  cases result with
  | peer => exact ⟨hrun, fun _ => ⟨by simp [startAccept, hone], rfl⟩, nofun⟩
  | peerGone => exact ⟨hrun, fun h => absurd rfl h, fun _ => by simp [hone]⟩
  | error e =>
    have he : e ≠ .operationAborted := fun h => hresult (h ▸ rfl)
    simp only [if_pos he]
    exact ⟨hrun, fun _ => ⟨by simp [startAccept, hone], rfl⟩, nofun⟩

/-- The server runs; the accept chain is alive, or has ended. -/
def Accepting (s : MultiThreadHTTPServer) : Prop :=
  s.serverRunning = true ∧ (s.acceptPending = 1 ∧ 0 < s.insideRun ∨ s.acceptPending = 0)

theorem accepting_completed {s : MultiThreadHTTPServer} {result : AcceptResult}
    (hresult : result ≠ .error .operationAborted) (h : s.Accepting) :
    (acceptCompleted s result).Accepting := by
  obtain ⟨hrun, ⟨hone, hinside⟩ | hnone⟩ := h
  · obtain ⟨hrun', hkeep, hgone⟩ := acceptCompleted_spec hrun hone hinside hresult
    refine ⟨hrun', ?_⟩
    by_cases hr : result = .peerGone
    · exact .inr (hgone hr)
    · obtain ⟨hone', hinside'⟩ := hkeep hr
      exact .inl ⟨hone', by omega⟩
  · unfold acceptCompleted
    rw [if_pos (.inl hnone)]
    exact ⟨hrun, .inr hnone⟩

/-- **One accept is outstanding** after every completion exactly if no accepted peer is gone. -/
theorem one_accept_iff {s : MultiThreadHTTPServer} (hrun : s.serverRunning = true)
    (hone : s.acceptPending = 1) (hinside : 0 < s.insideRun) {results : List AcceptResult}
    (hresults : ∀ r ∈ results, r ≠ .error .operationAborted) :
    Runs.Always acceptCompleted (fun s => s.acceptPending = 1) s results ↔
      ∀ r ∈ results, r ≠ .peerGone := by
  refine Iff.trans (Runs.always_iff_meets_of (J := Accepting)
    (fun _ _ hr => accepting_completed hr) ?_ (Runs.meets_iff_forall.2 hresults)
    ⟨hrun, .inl ⟨hone, hinside⟩⟩ hone) Runs.meets_iff_forall
  rintro s r hr ⟨hrun, hchain⟩ hone
  obtain ⟨-, hkeep, hgone⟩ := acceptCompleted_spec hrun hone (by omega) hr
  by_cases hr' : r = .peerGone
  · rw [hgone hr']
    exact iff_of_false (by decide) (not_not.2 hr')
  · exact iff_of_true (hkeep hr').1 hr'

/-- A new server after a successful start. -/
def startedOnce : MultiThreadHTTPServer := (start { hardwareConcurrency := 8 } {}).2

theorem one_accept_after_errors : Runs.Always acceptCompleted (fun s => s.acceptPending = 1)
    startedOnce [.peer, .error (.other 24), .peer] :=
  (one_accept_iff (by decide) (by decide) (by decide) (by decide)).2 (by decide)

/-- A peer that is gone before its address is read ends the accept chain of the running server. -/
theorem accept_ended_by_gone_peer :
    (acceptCompleted startedOnce .peerGone).serverRunning = true ∧
      ¬ Runs.Always acceptCompleted (fun s => s.acceptPending = 1) startedOnce [.peerGone] := by
  decide

/-! ## Calls -/

inductive Call where
  | start (conditions : StartConditions)
  | stop (closeFails : Bool)
  | configure (closeFails : Bool) (config : ServerConfig)

def call (s : MultiThreadHTTPServer) : Call → Except Exn Unit × MultiThreadHTTPServer
  | .start conditions => s.start conditions
  | .stop closeFails => s.stop closeFails
  | .configure closeFails config => s.configure closeFails config

def afterCall (s : MultiThreadHTTPServer) (c : Call) : MultiThreadHTTPServer := (s.call c).2

def Returns (s : MultiThreadHTTPServer) (c : Call) : Prop := (s.call c).1 = .ok ()

/-- A running server listens on its port, accepts and has at least two threads inside `run()`; a
stopped one has no threads. -/
structure Consistent (s : MultiThreadHTTPServer) : Prop where
  running : s.serverRunning = true → s.acceptor.ListensOn s.serverConfig.port ∧
    s.acceptPending = 1 ∧ s.stopped = false ∧ 2 ≤ s.insideRun
  stopped : s.serverRunning = false → s.ioThreads = 0 ∧ s.insideRun = 0

/-- The call does not start the server on an `io_context` that was stopped. -/
def NoRestart (s : MultiThreadHTTPServer) : Call → Prop
  | .start _ => s.serverRunning = false → s.stopped = false
  | _ => True

/-- The call does not start the server for a number that is no port. -/
def PortFits (s : MultiThreadHTTPServer) : Call → Prop
  | .start _ => s.serverRunning = false → 0 < s.serverConfig.port ∧ s.serverConfig.port < 2 ^ 16
  | _ => True

/-- What holds also where the server was restarted, or listens on another port. -/
structure Shape (s : MultiThreadHTTPServer) : Prop where
  accepts : s.serverRunning = true → s.acceptPending = 1
  threads : s.serverRunning = true → s.stopped = false → 2 ≤ s.insideRun
  closed : s.serverRunning = false → s.acceptor.isOpen = false ∧ s.acceptPending = 0
  joined : s.serverRunning = false → s.ioThreads = 0 ∧ s.insideRun = 0

theorem Shape.consistent_iff_unstopped {s : MultiThreadHTTPServer} (h : s.Shape) :
    s.Consistent ↔ (s.serverRunning = true →
      s.stopped = false ∧ s.acceptor.ListensOn s.serverConfig.port) :=
  ⟨fun hc hr => ⟨(hc.running hr).2.2.1, (hc.running hr).1⟩, fun hs =>
    ⟨fun hr => ⟨(hs hr).2, h.accepts hr, (hs hr).1, h.threads hr (hs hr).1⟩, h.joined⟩⟩

/-- A start that returns did nothing, or took the server into its running state. -/
theorem start_returns {sc : StartConditions} {s : MultiThreadHTTPServer}
    (h : (start sc s).1 = .ok ()) :
    s.serverRunning = true ∧ (start sc s).2 = s ∨
      s.serverRunning = false ∧ s.acceptor.isOpen = false ∧ (start sc s).2 =
        startThreads (threadCount sc.hardwareConcurrency) (startAccept { s with
          acceptor := { isOpen := true, boundTo := some (sc.boundPort s.serverConfig.port),
                        backlog := some s.serverConfig.maxConnections }
          serverRunning := true
          workGuard := true }) := by
  unfold start at h ⊢
  cases hr : s.serverRunning with
  | true => exact .inl ⟨rfl, by simp⟩
  | false =>
    right
    simp only [hr, Bool.false_eq_true, if_false] at h ⊢
    split at h
    · cases h
    · split_ifs at h with h1 h2 h3 h4
      · rw [not_or, Bool.not_eq_true, Bool.not_eq_true] at h1
        exact ⟨trivial, h1.2, by simp [h1, h2, h3, h4]⟩

/-- A stop that returns did nothing, or took the server out of its running state. -/
theorem stop_returns {closeFails : Bool} {s : MultiThreadHTTPServer}
    (h : (stop closeFails s).1 = .ok ()) :
    s.serverRunning = false ∧ (stop closeFails s).2 = s ∨
      s.serverRunning = true ∧ (stop closeFails s).2 = { s with
        serverRunning := false, acceptor := {}, acceptPending := 0, workGuard := false
        stopped := true, insideRun := 0, ioThreads := 0 } := by
  unfold stop at h ⊢
  cases hr : s.serverRunning with
  | false => exact .inl ⟨rfl, by simp⟩
  | true =>
    right
    cases hc : closeFails with
    | true => simp [hr, hc] at h
    | false => exact ⟨rfl, by simp⟩

/-- A server that does not run has the shape if everything is closed and joined. -/
theorem Shape.of_stopped {s : MultiThreadHTTPServer} (hr : s.serverRunning = false)
    (hclosed : s.acceptor.isOpen = false ∧ s.acceptPending = 0)
    (hjoined : s.ioThreads = 0 ∧ s.insideRun = 0) : s.Shape where
  accepts h := nomatch hr.symm.trans h
  threads h := nomatch hr.symm.trans h
  closed _ := hclosed
  joined _ := hjoined

/-- **A call that returns** keeps the shape, and keeps the state consistent exactly if it restarts
nothing and starts the server for a port. -/
theorem call_exact {s : MultiThreadHTTPServer} {c : Call} (hret : s.Returns c) (h : s.Shape) :
    (s.afterCall c).Shape ∧
      (s.Consistent → ((s.afterCall c).Consistent ↔ s.NoRestart c ∧ s.PortFits c)) := by
  -- a call after which the server does not run
  have hend {t : MultiThreadHTTPServer} (hn : t.serverRunning = false)
      (hclosed : t.acceptor.isOpen = false ∧ t.acceptPending = 0)
      (hjoined : t.ioThreads = 0 ∧ t.insideRun = 0) (hc : s.NoRestart c ∧ s.PortFits c) :
      t.Shape ∧ (s.Consistent → (t.Consistent ↔ s.NoRestart c ∧ s.PortFits c)) :=
    have ht := Shape.of_stopped hn hclosed hjoined
    ⟨ht, fun _ => iff_of_true (ht.consistent_iff_unstopped.2 fun hr => nomatch hn.symm.trans hr) hc⟩
  cases c with
  | start sc =>
    rcases start_returns hret with ⟨hrun, heq⟩ | ⟨hrun, hopen, heq⟩
    · show (start sc s).2.Shape ∧ (s.Consistent → ((start sc s).2.Consistent ↔ _))
      rw [heq]
      have hnot : s.serverRunning ≠ false := by rw [hrun]; decide
      exact ⟨h, fun hc => iff_of_true hc ⟨fun hno => absurd hno hnot, fun hno => absurd hno hnot⟩⟩
    · have hshape : (start sc s).2.Shape := by
        rw [heq]
        refine ⟨fun _ => ?_, fun _ hs => ?_, nofun, nofun⟩
        · simp [startThreads, startAccept, (h.closed hrun).2]
        · have hs' : s.stopped = false := hs
          have h2 : 2 ≤ threadCount sc.hardwareConcurrency := le_max_left _ _
          simp only [startThreads, startAccept, hs', Bool.false_eq_true, if_false]
          omega
      refine ⟨hshape, ?_⟩
      intro _
      have hlistens : (start sc s).2.acceptor.ListensOn s.serverConfig.port ↔
          0 < s.serverConfig.port ∧ s.serverConfig.port < 2 ^ 16 := by
        rw [heq, ← sc.boundPort_eq_iff]
        simp [startThreads, startAccept, Acceptor.ListensOn]
      show (start sc s).2.Consistent ↔ (s.serverRunning = false → s.stopped = false) ∧
        (s.serverRunning = false → 0 < s.serverConfig.port ∧ s.serverConfig.port < 2 ^ 16)
      rw [hshape.consistent_iff_unstopped]
      simp only [heq] at hlistens ⊢
      exact ⟨fun hs => ⟨fun _ => (hs rfl).1, fun _ => hlistens.1 (hs rfl).2⟩,
        fun ⟨hno, hport⟩ _ => ⟨hno hrun, hlistens.2 (hport hrun)⟩⟩
  | stop closeFails =>
    show (stop closeFails s).2.Shape ∧ (s.Consistent → ((stop closeFails s).2.Consistent ↔ _))
    rcases stop_returns hret with ⟨hrun, heq⟩ | ⟨hrun, heq⟩
    · rw [heq]
      exact hend hrun (h.closed hrun) (h.joined hrun) ⟨trivial, trivial⟩
    · rw [heq]
      exact hend rfl ⟨rfl, rfl⟩ ⟨rfl, rfl⟩ ⟨trivial, trivial⟩
  | configure closeFails config =>
    unfold Returns call configure at hret
    unfold afterCall call configure
    cases hrun : s.serverRunning with
    | false =>
      simp only [hrun, Bool.false_eq_true, if_false]
      exact hend rfl (h.closed hrun) (h.joined hrun) ⟨trivial, trivial⟩
    | true =>
      simp only [hrun, if_true] at hret ⊢
      have hstop : (stop closeFails s).1 = .ok () := by
        rcases hs : stop closeFails s with ⟨_ | _, t⟩
        · rw [hs] at hret
          cases hret
        · rfl
      rcases stop_returns hstop with ⟨hno, -⟩ | ⟨-, heq⟩
      · exact nomatch hrun.symm.trans hno
      · rw [hstop, heq]
        exact hend rfl ⟨rfl, rfl⟩ ⟨rfl, rfl⟩ ⟨trivial, trivial⟩

/-- **Every state is consistent**, in a run of calls that return, exactly if no call of the run
starts the server again after a stop, or for a number that is no port. -/
theorem consistent_iff (config : ServerConfig) (dependencies : Bool) {calls : List Call}
    (hret : Runs.Meets afterCall Returns { serverConfig := config, dependencies } calls) :
    Runs.Always afterCall Consistent { serverConfig := config, dependencies } calls ↔
      Runs.Meets afterCall (fun s c => s.NoRestart c ∧ s.PortFits c)
        { serverConfig := config, dependencies } calls :=
  Runs.always_iff_meets_of (J := Shape) (fun _ _ hr hs => (call_exact hr hs).1)
    (fun _ _ hr hs hc => (call_exact hr hs).2 hc) hret
    (.of_stopped rfl ⟨rfl, rfl⟩ ⟨rfl, rfl⟩) ⟨nofun, fun _ => ⟨rfl, rfl⟩⟩

instance (s : MultiThreadHTTPServer) : DecidablePred s.Returns := fun c =>
  match h : (s.call c).1 with
  | .ok () => .isTrue h
  | .error _ => .isFalse fun h' => nomatch h.symm.trans h'

instance (s : MultiThreadHTTPServer) : DecidablePred s.NoRestart
  | .start _ => inferInstanceAs (Decidable (_ → _))
  | .stop _ | .configure _ _ => inferInstanceAs (Decidable True)

instance (s : MultiThreadHTTPServer) : DecidablePred s.PortFits
  | .start _ => inferInstanceAs (Decidable (_ → _ ∧ _))
  | .stop _ | .configure _ _ => inferInstanceAs (Decidable True)

instance (s : MultiThreadHTTPServer) : Decidable s.Consistent :=
  decidable_of_iff ((s.serverRunning = true → s.acceptor.ListensOn s.serverConfig.port ∧
      s.acceptPending = 1 ∧ s.stopped = false ∧ 2 ≤ s.insideRun) ∧
    (s.serverRunning = false → s.ioThreads = 0 ∧ s.insideRun = 0))
    ⟨fun h => ⟨h.1, h.2⟩, fun h => ⟨h.1, h.2⟩⟩

theorem consistent_after_stop :
    Runs.Always afterCall Consistent { serverConfig := { port := 8081, maxConnections := 4 } }
      [.start { hardwareConcurrency := 8 }, .configure false { port := 80, maxConnections := 4 },
        .stop false] :=
  (consistent_iff _ true (by decide)).2 (by decide)

/-- After a second start the server runs without a thread inside `run()`. -/
theorem inconsistent_after_restart :
    let calls : List Call :=
      [.start { hardwareConcurrency := 8 }, .stop false, .start { hardwareConcurrency := 8 }]
    Runs.Meets afterCall Returns {} calls ∧ ¬ Runs.Always afterCall Consistent {} calls := by
  decide

end MultiThreadHTTPServer

end HttpsTest
