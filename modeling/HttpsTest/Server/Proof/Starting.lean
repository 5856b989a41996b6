import HttpsTest.Server.Proof.Lifecycle
import HttpsTest.Server.SyncHTTPServer

/-!
# Starting a server

Both servers call `open`, `set_option`, `bind` and `listen` on the acceptor one after the other, and
neither closes it where one of them fails. `starting_iff`: over any sequence of calls, a start that
fails leaves the server as it was, and a stopped server can always be started on a free port,
exactly if no start gets past `open` and fails behind it.
-/

set_option autoImplicit false

namespace HttpsTest

/-! ## The acceptor -/

/-- None of the calls fails for a reason of its own. -/
def StartConditions.Free (sc : StartConditions) : Prop :=
  sc.openFails = false ∧ sc.setOptionFails = false ∧ sc.bindFails = false ∧ sc.listenFails = false

namespace Acceptor

/-- A closed acceptor is opened, and one of the calls behind `open` fails. -/
def LeftOpen (sc : StartConditions) (a : Acceptor) : Prop :=
  a.isOpen = false ∧ sc.openFails = false ∧
    (sc.setOptionFails = true ∨ sc.bindFails = true ∨ sc.listenFails = true)

instance (sc : StartConditions) (a : Acceptor) : Decidable (a.LeftOpen sc) :=
  inferInstanceAs (Decidable (_ ∧ _ ∧ (_ ∨ _ ∨ _)))

variable {sc : StartConditions} {a : Acceptor}

/-- How the calls end: all of them succeed, `open` fails, or one behind it does. -/
theorem openAndListen_cases (sc : StartConditions) (config : ServerConfig) (a : Acceptor) :
    (∃ a', a.openAndListen sc config = (.ok (), a')) ∧ ¬ a.LeftOpen sc ∨
      a.openAndListen sc config = (.error .systemError, a) ∧ ¬ a.LeftOpen sc ∨
      (∃ a', a.openAndListen sc config = (.error .systemError, a') ∧ a' ≠ a) ∧ a.LeftOpen sc := by
  unfold openAndListen LeftOpen
  by_cases hopen : sc.openFails = true ∨ a.isOpen = true
  · rw [if_pos hopen]
    refine .inr (.inl ⟨rfl, ?_⟩)
    rintro ⟨ha, hsc, -⟩
    simp [ha, hsc] at hopen
  · rw [if_neg hopen]
    rw [not_or, Bool.not_eq_true, Bool.not_eq_true] at hopen
    have hne {a' : Acceptor} (h : a'.isOpen = true) : a' ≠ a := by
      rintro rfl
      exact Bool.noConfusion (h.symm.trans hopen.2)
    by_cases hset : sc.setOptionFails = true
    · rw [if_pos hset]
      exact .inr (.inr ⟨⟨_, rfl, hne rfl⟩, hopen.2, hopen.1, .inl hset⟩)
    · rw [if_neg hset]
      by_cases hbind : sc.bindFails = true
      · rw [if_pos hbind]
        exact .inr (.inr ⟨⟨_, rfl, hne rfl⟩, hopen.2, hopen.1, .inr (.inl hbind)⟩)
      · rw [if_neg hbind]
        by_cases hlisten : sc.listenFails = true
        · simp only [if_pos hlisten]
          exact .inr (.inr ⟨⟨_, rfl, hne rfl⟩, hopen.2, hopen.1, .inr (.inr hlisten)⟩)
        · simp only [if_neg hlisten]
          exact .inl ⟨⟨_, rfl⟩, by simp [hset, hbind, hlisten]⟩

theorem openAndListen_free (config : ServerConfig) (ha : a.isOpen = false) (hfree : sc.Free) :
    ∃ a', a.openAndListen sc config = (.ok (), a') := by
  obtain ⟨hopen, hset, hbind, hlisten⟩ := hfree
  simp [openAndListen, ha, hopen, hset, hbind, hlisten]

end Acceptor

/-! ## The multi-threaded server -/

namespace MultiThreadHTTPServer

theorem start_eq (sc : StartConditions) (s : MultiThreadHTTPServer) : s.start sc =
    if s.serverRunning then (.ok (), s)
    else
      match s.validateDependencies with
      | .error e => (.error e, s)
      | .ok () =>
        match s.acceptor.openAndListen sc s.serverConfig with
        | (.error e, acceptor) => (.error e, { s with acceptor })
        | (.ok (), acceptor) => (.ok (), startThreads (threadCount sc.hardwareConcurrency)
            (startAccept { s with acceptor, serverRunning := true, workGuard := true })) := by
  unfold start Acceptor.openAndListen
  split
  · rfl
  · cases s.validateDependencies with
    | error e => rfl
    | ok => simp only; split_ifs <;> rfl

/-- The acceptor, the running flag and the threads are the same. -/
structure Same (s t : MultiThreadHTTPServer) : Prop where
  acceptor : s.acceptor = t.acceptor
  running : s.serverRunning = t.serverRunning
  threads : s.ioThreads = t.ioThreads ∧ s.insideRun = t.insideRun

/-- A start that fails leaves the server as it was. -/
def FailsClean (s : MultiThreadHTTPServer) : Call → Prop
  | .start sc => (s.start sc).1 ≠ .ok () → (s.start sc).2.Same s
  | _ => True

/-- A server that does not run can be started on a free port. -/
def Restartable (s : MultiThreadHTTPServer) : Prop :=
  s.serverRunning = false → s.dependencies = true → ∀ sc : StartConditions, sc.Free →
    (s.start sc).1 = .ok () ∧ (s.start sc).2.serverRunning = true

/-- The call does not get a server that does not run past `open` and no further. -/
def Whole (s : MultiThreadHTTPServer) : Call → Prop
  | .start sc => s.serverRunning = false → s.dependencies = true → ¬ s.acceptor.LeftOpen sc
  | _ => True

/-- What a restart needs. -/
def Closed (s : MultiThreadHTTPServer) : Prop :=
  s.serverRunning = false → s.acceptor.isOpen = false

theorem Closed.restartable {s : MultiThreadHTTPServer} (h : s.Closed) : s.Restartable := by
  intro hrun hdep sc hfree
  obtain ⟨acceptor, hok⟩ := Acceptor.openAndListen_free s.serverConfig (h hrun) hfree
  rw [start_eq, if_neg (by simp [hrun]), validateDependencies, if_pos hdep, hok]
  exact ⟨rfl, rfl⟩

/-- A start leaves a server that does not run as it was, or left open, or takes it into its running
state. -/
theorem start_cases (sc : StartConditions) (s : MultiThreadHTTPServer) :
    s.Whole (.start sc) ∧ ((s.start sc).2 = s ∨
        (s.start sc).1 = .ok () ∧ (s.start sc).2.serverRunning = true) ∨
      ¬ s.Whole (.start sc) ∧ (s.start sc).1 ≠ .ok () ∧ (s.start sc).2.acceptor ≠ s.acceptor := by
  rw [start_eq]
  unfold Whole
  by_cases hrun : s.serverRunning = true
  · rw [if_pos hrun]
    exact .inl ⟨fun h => absurd hrun (by simp [h]), .inl rfl⟩
  · rw [if_neg hrun]
    unfold validateDependencies
    by_cases hdep : s.dependencies = true
    · rw [if_pos hdep]
      rcases Acceptor.openAndListen_cases sc s.serverConfig s.acceptor with
        ⟨⟨acceptor, hok⟩, hno⟩ | ⟨hfails, hno⟩ | ⟨⟨acceptor, hfails, hne⟩, hopen⟩
      · rw [hok]
        exact .inl ⟨fun _ _ => hno, .inr ⟨rfl, rfl⟩⟩
      · rw [hfails]
        exact .inl ⟨fun _ _ => hno, .inl rfl⟩
      · rw [hfails]
        refine .inr ⟨fun h => h (Bool.not_eq_true _ ▸ hrun) hdep hopen, nofun, hne⟩
    · rw [if_neg hdep]
      exact .inl ⟨fun _ h => absurd h hdep, .inl rfl⟩

theorem failsClean_iff {s : MultiThreadHTTPServer} {c : Call} : s.FailsClean c ↔ s.Whole c := by
  cases c with
  | start sc =>
    rcases start_cases sc s with ⟨hwhole, hsame | ⟨hok, -⟩⟩ | ⟨hopen, hfails, hne⟩
    · exact iff_of_true (fun _ => by rw [hsame]; exact ⟨rfl, rfl, rfl, rfl⟩) hwhole
    · exact iff_of_true (fun h => absurd hok h) hwhole
    · exact iff_of_false (fun h => hne (h hfails).acceptor) hopen
  | stop closeFails => exact Iff.rfl
  | configure closeFails config => exact Iff.rfl

theorem closed_stop {s : MultiThreadHTTPServer} (closeFails : Bool) (h : s.Closed) :
    (s.stop closeFails).2.Closed := by
  unfold stop
  split
  · exact h
  · split <;> exact fun _ => rfl

theorem closed_afterCall {s : MultiThreadHTTPServer} {c : Call} (hc : s.Whole c) (h : s.Closed) :
    (s.afterCall c).Closed := by
  cases c with
  | start sc =>
    show (s.start sc).2.Closed
    rcases start_cases sc s with ⟨-, hsame | ⟨-, hrun⟩⟩ | ⟨hopen, -⟩
    · rw [hsame]
      exact h
    · exact fun hno => nomatch hno.symm.trans hrun
    · exact absurd hc hopen
  | stop closeFails => exact closed_stop closeFails h
  | configure closeFails config =>
    have hstop : (if s.serverRunning then s.stop closeFails else (.ok (), s)).2.Closed := by
      split
      · exact closed_stop closeFails h
      · exact h
    show (s.configure closeFails config).2.Closed
    unfold configure
    rcases hres : (if s.serverRunning then s.stop closeFails else (.ok (), s)) with ⟨e | _, t⟩
    · rw [hres] at hstop
      exact hstop
    · rw [hres] at hstop
      exact hstop

end MultiThreadHTTPServer

/-! ## The blocking server -/

namespace SyncHTTPServer

inductive Call where
  | start (conditions : StartConditions)
  | stop
  | configure (config : ServerConfig)

def afterCall (s : SyncHTTPServer) : Call → SyncHTTPServer
  | .start conditions => (s.start conditions).2
  | .stop => s.stop
  | .configure config => s.configure config

/-- A start that logs a failure leaves the server as it was. -/
def FailsClean (s : SyncHTTPServer) : Call → Prop
  | .start sc => (s.start sc).1 ≠ none → (s.start sc).2 = s
  | _ => True

def Restartable (s : SyncHTTPServer) : Prop :=
  s.serverRunning = false → ∀ sc : StartConditions, sc.Free →
    (s.start sc).1 = none ∧ (s.start sc).2.serverRunning = true

def Whole (s : SyncHTTPServer) : Call → Prop
  | .start sc => s.serverRunning = false → ¬ s.acceptor.LeftOpen sc
  | _ => True

def Closed (s : SyncHTTPServer) : Prop := s.serverRunning = false → s.acceptor.isOpen = false

theorem Closed.restartable {s : SyncHTTPServer} (h : s.Closed) : s.Restartable := by
  intro hrun sc hfree
  obtain ⟨acceptor, hok⟩ := Acceptor.openAndListen_free s.serverConfig (h hrun) hfree
  rw [start, if_neg (by simp [hrun]), hok]
  exact ⟨rfl, rfl⟩

theorem start_cases (sc : StartConditions) (s : SyncHTTPServer) :
    s.Whole (.start sc) ∧ ((s.start sc).2 = s ∨
        (s.start sc).1 = none ∧ (s.start sc).2.serverRunning = true) ∨
      ¬ s.Whole (.start sc) ∧ (s.start sc).1 ≠ none ∧ (s.start sc).2 ≠ s := by
  unfold Whole start
  by_cases hrun : s.serverRunning = true
  · rw [if_pos hrun]
    exact .inl ⟨fun h => absurd hrun (by simp [h]), .inl rfl⟩
  · rw [if_neg hrun]
    rcases Acceptor.openAndListen_cases sc s.serverConfig s.acceptor with
      ⟨⟨acceptor, hok⟩, hno⟩ | ⟨hfails, hno⟩ | ⟨⟨acceptor, hfails, hne⟩, hopen⟩
    · rw [hok]
      exact .inl ⟨fun _ => hno, .inr ⟨rfl, rfl⟩⟩
    · rw [hfails]
      exact .inl ⟨fun _ => hno, .inl rfl⟩
    · rw [hfails]
      refine .inr ⟨fun h => h (Bool.not_eq_true _ ▸ hrun) hopen, nofun, ?_⟩
      exact fun h => hne (congrArg SyncHTTPServer.acceptor h)

theorem failsClean_iff {s : SyncHTTPServer} {c : Call} : s.FailsClean c ↔ s.Whole c := by
  cases c with
  | start sc =>
    rcases start_cases sc s with ⟨hwhole, hsame | ⟨hok, -⟩⟩ | ⟨hopen, hfails, hne⟩
    · exact iff_of_true (fun _ => hsame) hwhole
    · exact iff_of_true (fun h => absurd hok h) hwhole
    · exact iff_of_false (fun h => hne (h hfails)) hopen
  | stop => exact Iff.rfl
  | configure config => exact Iff.rfl

theorem closed_stop {s : SyncHTTPServer} (h : s.Closed) : s.stop.Closed := by
  unfold stop
  split
  · exact h
  · exact fun _ => rfl

theorem closed_afterCall {s : SyncHTTPServer} {c : Call} (hc : s.Whole c) (h : s.Closed) :
    (s.afterCall c).Closed := by
  cases c with
  | start sc =>
    show (s.start sc).2.Closed
    rcases start_cases sc s with ⟨-, hsame | ⟨-, hrun⟩⟩ | ⟨hopen, -⟩
    · rw [hsame]
      exact h
    · exact fun hno => nomatch hno.symm.trans hrun
    · exact absurd hc hopen
  | stop => exact closed_stop h
  | configure config =>
    show (if s.serverRunning then s.stop else s).Closed
    split
    · exact closed_stop h
    · exact h

end SyncHTTPServer

/-! ## Runs -/

/-- Starts that fail clean up, and stay possible, along a run in which they are clean step by step
and which keeps what a restart needs. -/
theorem clean_and_restartable_iff {σ ι : Type} {step : σ → ι → σ} {clean whole : σ → ι → Prop}
    {restartable closed : σ → Prop} (hclean : ∀ s c, clean s c ↔ whole s c)
    (hclosed : ∀ s c, whole s c → closed s → closed (step s c))
    (hrestart : ∀ s, closed s → restartable s) {s : σ} (hs : closed s) {calls : List ι} :
    Runs.Meets step clean s calls ∧ Runs.Always step restartable s calls ↔
      Runs.Meets step whole s calls := by
  have hcongr : Runs.Meets step clean s calls ↔ Runs.Meets step whole s calls :=
    Runs.meets_congr (J := fun _ => True) (fun _ _ _ => trivial) (fun s c _ => hclean s c) trivial
  rw [hcongr]
  refine ⟨And.left, fun h => ⟨h, ?_⟩⟩
  exact (Runs.always_of_meets hclosed h hs).mono hrestart

/-- **Failed starts**: in every run of calls on a new server of either kind, whatever fails in them,
starts that fail leave the server as it was and a stopped server can be started on a free port,
exactly if no start of the run gets past `open` and fails behind it. -/
theorem starting_iff (config : ServerConfig) :
    (∀ (dependencies : Bool) (calls : List MultiThreadHTTPServer.Call),
      Runs.Meets MultiThreadHTTPServer.afterCall MultiThreadHTTPServer.FailsClean
          { serverConfig := config, dependencies } calls ∧
        Runs.Always MultiThreadHTTPServer.afterCall MultiThreadHTTPServer.Restartable
          { serverConfig := config, dependencies } calls ↔
      Runs.Meets MultiThreadHTTPServer.afterCall MultiThreadHTTPServer.Whole
        { serverConfig := config, dependencies } calls) ∧
    ∀ calls : List SyncHTTPServer.Call,
      Runs.Meets SyncHTTPServer.afterCall SyncHTTPServer.FailsClean
          { serverConfig := config } calls ∧
        Runs.Always SyncHTTPServer.afterCall SyncHTTPServer.Restartable
          { serverConfig := config } calls ↔
      Runs.Meets SyncHTTPServer.afterCall SyncHTTPServer.Whole { serverConfig := config } calls :=
  ⟨fun _ _ => clean_and_restartable_iff (fun _ _ => MultiThreadHTTPServer.failsClean_iff)
      (fun _ _ => MultiThreadHTTPServer.closed_afterCall)
      (fun _ => MultiThreadHTTPServer.Closed.restartable) (fun _ => rfl),
    fun _ => clean_and_restartable_iff (fun _ _ => SyncHTTPServer.failsClean_iff)
      (fun _ _ => SyncHTTPServer.closed_afterCall) (fun _ => SyncHTTPServer.Closed.restartable)
      (fun _ => rfl)⟩

/-- A port that is taken once: the start behind it fails as well, on either server. -/
theorem start_fails_after_taken_port :
    let taken : StartConditions := { bindFails := true, hardwareConcurrency := 8 }
    let free : StartConditions := { hardwareConcurrency := 8 }
    free.Free ∧
      ((MultiThreadHTTPServer.start taken {}).2.acceptor.isOpen = true ∧
        (MultiThreadHTTPServer.start free (MultiThreadHTTPServer.start taken {}).2).1 =
          .error .systemError) ∧
      ¬ Runs.Meets MultiThreadHTTPServer.afterCall MultiThreadHTTPServer.FailsClean {}
        [.start taken] ∧
      ((SyncHTTPServer.start taken {}).2.acceptor.isOpen = true ∧
        (SyncHTTPServer.start free (SyncHTTPServer.start taken {}).2).1 = some .systemError) ∧
      ¬ Runs.Meets SyncHTTPServer.afterCall SyncHTTPServer.FailsClean {} [.start taken] := by
  refine ⟨⟨rfl, rfl, rfl, rfl⟩, ⟨rfl, rfl⟩, ?_, ⟨rfl, rfl⟩, ?_⟩
  · intro h
    have hopen := MultiThreadHTTPServer.failsClean_iff.1 h.1
    exact hopen rfl rfl (by decide)
  · intro h
    have hopen := SyncHTTPServer.failsClean_iff.1 h.1
    exact hopen rfl (by decide)

end HttpsTest
