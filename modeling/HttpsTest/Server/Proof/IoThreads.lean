import HttpsTest.Users.Proof.Returns
import HttpsTest.Server.Main

/-!
# The IO threads

Which requests end a thread. `processRequest_returns_iff`: with the handlers of `main`, exactly the
uploads that find the mutex free and whose text simdjson refuses leave `processRequest` by an
exception. `threads_kept_iff` says the same of whole runs of the server, over all connections and
all byte strings. Since such an upload leaves the mutex locked, a run loses at most one thread
(`threads_lost`).
-/

set_option autoImplicit false

namespace HttpsTest

open UserInfo UserHandler AsyncClientHandler

variable {X : Externals}

/-! ## One request -/

/-- The bytes are an upload that finds the mutex free and whose text is refused. -/
def RefusedUpload (X : Externals) (h : UserHandler) (data : Bytes) : Prop :=
  ∃ request, RequestFactory.parse data = .ok request ∧
    IsPost request ∧ h.mutex = false ∧ Refused X request

instance (h : UserHandler) (data : Bytes) : Decidable (RefusedUpload X h data) :=
  match hr : RequestFactory.parse data with
  | .error _ => .isFalse fun ⟨_, h', _⟩ => nomatch hr.symm.trans h'
  | .ok request =>
    decidable_of_iff (IsPost request ∧ h.mutex = false ∧ Refused X request)
      ⟨fun h => ⟨request, hr, h⟩, fun ⟨_, h', h⟩ => Except.ok.inj (hr.symm.trans h') ▸ h⟩

theorem route_post {request : IRequest} (hp : IsPost request) :
    router.route request = some .userHandler := by
  unfold RequestRouter.route
  rw [hp.1, hp.2]
  rfl

theorem route_isSome (request : IRequest) : (router.route request).isSome :=
  RequestRouter.route_isSome (by decide) request

/-- What the handlers of `main` do with a request. -/
theorem mainHandler_cases (request : IRequest) (s : HandlerState) :
    (¬ IsPost request ∧ (mainHandler X request s).2.userHandler = s.userHandler ∧
        ((∃ r, (mainHandler X request s).1 = .ok (some r)) ∨ (mainHandler X request s).1 =
          (DefaultHandler.handleRequest X (s.clocks 0).own request).map some)) ∨
      (mainHandler X request s).2.userHandler =
          (s.userHandler.handleRequest X (s.clocks 0) request).2 ∧
        (mainHandler X request s).1 =
          (s.userHandler.handleRequest X (s.clocks 0) request).1.map some := by
  unfold mainHandler RequestRouter.handleRequest
  have hsome := route_isSome request
  have hpost (hp : IsPost request) := route_post hp
  cases hr : router.route request with
  | none => rw [hr] at hsome; cases hsome
  | some handler =>
    rw [hr] at hpost
    cases handler with
    | helloHandler => exact .inl ⟨fun hp => (nomatch hpost hp), rfl, .inl ⟨_, rfl⟩⟩
    | defaultHandler => exact .inl ⟨fun hp => (nomatch hpost hp), rfl, .inr rfl⟩
    | userHandler => exact .inr ⟨rfl, rfl⟩

/-- The handlers of `main` answer every request but the refused uploads. -/
theorem mainHandler_returns_iff (hX : X.Lawful) {request : IRequest} {s : HandlerState}
    (hu : ∀ u ∈ s.userHandler.users, u.Utf8) :
    (∃ r, (mainHandler X request s).1 = .ok (some r)) ↔
      ¬ (IsPost request ∧ s.userHandler.mutex = false ∧ Refused X request) := by
  have hmap (x : Except Exn HttpResponse) :
      (∃ r, x.map some = .ok (some r)) ↔ ∃ r, x = .ok r := by
    cases x <;> simp [Except.map]
  rcases mainHandler_cases (X := X) request s with ⟨hp, -, h | h⟩ | ⟨-, h⟩
  · exact ⟨fun _ hc => hp hc.1, fun _ => h⟩
  · rw [h, hmap]
    exact ⟨fun _ hc => hp hc.1, fun _ => defaultHandler_returns hX _ _⟩
  · rw [h, hmap]
    exact handleRequest_returns_iff hX hu

/-- **`processRequest` ends normally** unless the bytes are a refused upload. -/
theorem processRequest_returns_iff (hX : X.Lawful) {c : AsyncClientHandler} {s : HandlerState}
    (hu : ∀ u ∈ s.userHandler.users, u.Utf8) :
    (∃ text, (c.processRequest (mainHandler X) X.hashOrder s).1 = .ok text) ↔
      ¬ RefusedUpload X s.userHandler c.requestData := by
  obtain ⟨request, hr, hd⟩ := dispatch_spec (mainHandler X) X.hashOrder c s
  have hparsed : RefusedUpload X s.userHandler c.requestData ↔
      IsPost request ∧ s.userHandler.mutex = false ∧ Refused X request := by
    refine ⟨fun ⟨request', hr', h⟩ => ?_, fun h => ⟨request, hr, h⟩⟩
    rw [hr] at hr'
    cases hr'
    exact h
  rw [(processRequest_eq c s).1, hd, hparsed, ← mainHandler_returns_iff hX hu]
  rcases (mainHandler X request s).1 with _ | _ | _ <;> simp

/-- Decoded users stay decoded ones, and a locked mutex stays locked. -/
theorem processRequest_users (c : AsyncClientHandler) (s : HandlerState) :
    ((∀ u ∈ s.userHandler.users, u.Utf8) → ∀ u ∈
        (c.processRequest (mainHandler X) X.hashOrder s).2.2.userHandler.users, u.Utf8) ∧
      (s.userHandler.mutex = true ∨ RefusedUpload X s.userHandler c.requestData →
        (c.processRequest (mainHandler X) X.hashOrder s).2.2.userHandler.mutex = true) := by
  obtain ⟨request, hr, hd⟩ := dispatch_spec (mainHandler X) X.hashOrder c s
  rw [(processRequest_eq c s).2, hd]
  refine ⟨fun hu => ?_, fun hm => ?_⟩
  · rcases mainHandler_cases (X := X) request s with ⟨-, h, -⟩ | ⟨h, -⟩
    · rwa [h]
    · rw [h]
      exact handleRequest_utf8 hu
  · have hrefused : s.userHandler.mutex = true ∨
        IsPost request ∧ s.userHandler.mutex = false ∧ Refused X request := by
      refine hm.imp_right fun ⟨request', hr', h⟩ => ?_
      rw [hr] at hr'
      cases hr'
      exact h
    rcases mainHandler_cases (X := X) request s with ⟨hp, h, -⟩ | ⟨h, -⟩
    · rw [h]
      exact hrefused.resolve_right fun hc => hp hc.1
    · rw [h]
      rcases hrefused with hlocked | ⟨hp, hfree, e, he⟩
      · exact handleRequest_locked hlocked
      · rw [handleRequest_post hp, (handlePOSTUsers_free _ _ _ hfree).2.1, he]
        rfl

/-! ## The server -/

namespace IoServer

/-- The completion handler ends normally. -/
def Returns (X : Externals) (s : IoServer) (i : Nat × Completion) : Prop :=
  ∀ request e,
    ((s.connections i.1).complete (mainHandler X) X.hashOrder i.2 s.handlers).1 ≠ .threw request e

/-- The completion is a read that completes a refused upload. -/
def CompletesRefused (X : Externals) (s : IoServer) (i : Nat × Completion) : Prop :=
  (s.connections i.1).pending = .read ∧ ∃ chunk, i.2 = .read chunk ∧
    let data := (s.connections i.1).client.requestData ++ chunk
    isCompleteRequest data = true ∧ RefusedUpload X s.handlers.userHandler data

instance (s : IoServer) : ∀ i, Decidable (CompletesRefused X s i)
  | (k, .read chunk) =>
    decidable_of_iff ((s.connections k).pending = .read ∧
        let data := (s.connections k).client.requestData ++ chunk
        isCompleteRequest data = true ∧ RefusedUpload X s.handlers.userHandler data)
      ⟨fun h => ⟨h.1, chunk, rfl, h.2⟩, fun ⟨h, _, hc, h'⟩ => Completion.read.inj hc ▸ ⟨h, h'⟩⟩
  | (_, .readEof) | (_, .readError) | (_, .written) | (_, .writeError) =>
    .isFalse fun ⟨_, _, h, _⟩ => nomatch h

/-- A completion handler leaves the handlers alone, or has processed a request. -/
theorem complete_cases (s : IoServer) (i : Nat × Completion) :
    (¬ CompletesRefused X s i ∧ Returns X s i ∧ ((s.connections i.1).complete (mainHandler X)
        X.hashOrder i.2 s.handlers).2.2 = s.handlers) ∨
      ∃ c : AsyncClientHandler,
        (CompletesRefused X s i ↔ RefusedUpload X s.handlers.userHandler c.requestData) ∧
        (Returns X s i ↔ ∃ text, (c.processRequest (mainHandler X) X.hashOrder s.handlers).1 =
          .ok text) ∧
        ((s.connections i.1).complete (mainHandler X) X.hashOrder i.2 s.handlers).2.2 =
          (c.processRequest (mainHandler X) X.hashOrder s.handlers).2.2 := by
  obtain ⟨k, completion⟩ := i
  unfold CompletesRefused Returns Connection.complete
  simp only
  cases hp : (s.connections k).pending with
  | none => exact .inl ⟨fun h => (nomatch h.1), fun _ _ => nofun, rfl⟩
  | write => cases completion <;> exact .inl ⟨fun h => (nomatch h.1), fun _ _ => nofun, rfl⟩
  | read =>
    cases completion with
    | read chunk =>
      unfold Connection.handleRead
      simp only
      by_cases hc : isCompleteRequest ((s.connections k).client.requestData ++ chunk) = true
      · right
        refine ⟨{ (s.connections k).client with
          requestData := (s.connections k).client.requestData ++ chunk }, ?_, ?_, ?_⟩
        · simp [hc]
        · rw [if_pos hc]
          rcases processRequest _ _ _ _ with ⟨_ | _, c', h'⟩ <;> simp
        · rw [if_pos hc]
          rcases processRequest _ _ _ _ with ⟨_ | _, c', h'⟩ <;> rfl
      · left
        refine ⟨?_, ?_, ?_⟩
        · rintro ⟨-, chunk', hchunk, h, -⟩
          cases hchunk
          exact hc h
        · rw [if_neg hc]
          exact fun _ _ => nofun
        · rw [if_neg hc]
    | readEof => exact .inl ⟨fun h => (nomatch h.2.choose_spec.1), fun _ _ => nofun, rfl⟩
    | readError => exact .inl ⟨fun h => (nomatch h.2.choose_spec.1), fun _ _ => nofun, rfl⟩
    | written => exact .inl ⟨fun h => (nomatch h.2.choose_spec.1), fun _ _ => nofun, rfl⟩
    | writeError => exact .inl ⟨fun h => (nomatch h.2.choose_spec.1), fun _ _ => nofun, rfl⟩

/-- A completion handler ends normally unless it completes a refused upload. -/
theorem returns_iff (hX : X.Lawful) {s : IoServer} (hu : ∀ u ∈ s.handlers.userHandler.users, u.Utf8)
    (i : Nat × Completion) : Returns X s i ↔ ¬ CompletesRefused X s i := by
  rcases complete_cases (X := X) s i with ⟨hc, hr, -⟩ | ⟨c, hc, hr, -⟩
  · exact iff_of_true hr hc
  · rw [hc, hr, processRequest_returns_iff hX hu]

theorem complete_users {s : IoServer} (hu : ∀ u ∈ s.handlers.userHandler.users, u.Utf8)
    (i : Nat × Completion) : ∀ u ∈ (complete X s i).handlers.userHandler.users, u.Utf8 := by
  unfold complete
  split
  · exact hu
  · rcases complete_cases (X := X) s i with ⟨-, -, h⟩ | ⟨c, -, -, h⟩
    · simpa only [h] using hu
    · simpa only [h] using (processRequest_users c s.handlers).1 hu

/-- A step takes a thread exactly if its handler does not end normally. -/
theorem complete_threads (s : IoServer) (i : Nat × Completion) :
    (Returns X s i → (complete X s i).threads = s.threads) ∧
      (¬ Returns X s i → (complete X s i).threads = s.threads - 1) := by
  unfold complete Returns
  by_cases h0 : s.threads = 0
  · simp [h0]
  · simp only [if_neg h0]
    cases h : ((s.connections i.1).complete (mainHandler X) X.hashOrder i.2 s.handlers).1 with
    | returned => exact ⟨fun _ => rfl, fun hn => absurd (fun _ _ => nofun) hn⟩
    | dispatched request response => exact ⟨fun _ => rfl, fun hn => absurd (fun _ _ => nofun) hn⟩
    | threw request e => exact ⟨fun hr => absurd rfl (hr request e), fun _ => rfl⟩

/-- A step that takes a thread finds the mutex free and leaves it locked. -/
theorem complete_mutex (s : IoServer) (i : Nat × Completion) (hpos : 0 < s.threads)
    (h : s.handlers.userHandler.mutex = true ∨ CompletesRefused X s i) :
    (complete X s i).handlers.userHandler.mutex = true := by
  unfold complete
  rw [if_neg (Nat.ne_of_gt hpos)]
  rcases complete_cases (X := X) s i with ⟨hc, -, hh⟩ | ⟨c, hc, -, hh⟩
  · simpa only [hh] using h.resolve_right hc
  · simpa only [hh] using (processRequest_users c s.handlers).2 (h.imp_right hc.1)

variable (hX : X.Lawful) (hardwareConcurrency : UInt32) (clocks : Nat → UserHandler.Clocks)
  (is : List (Nat × Completion))
include hX

/-- **No thread is lost** in a run of the server, and every completion handler ends normally,
exactly if no read of the run completes a refused upload. The run is of reads and writes: an accept
whose peer is gone ends a thread too (`MultiThreadHTTPServer.acceptCompleted`). -/
theorem threads_kept_iff :
    (Runs.Meets (complete X) (Returns X) (started hardwareConcurrency clocks) is ↔
      Runs.Meets (complete X) (fun s i => ¬ CompletesRefused X s i)
        (started hardwareConcurrency clocks) is) ∧
    (Runs.Always (complete X) (fun s => threadCount hardwareConcurrency ≤ s.threads)
        (started hardwareConcurrency clocks) is ↔
      Runs.Meets (complete X) (fun s i => ¬ CompletesRefused X s i)
        (started hardwareConcurrency clocks) is) := by
  have hstart : ∀ u ∈ (started hardwareConcurrency clocks).handlers.userHandler.users, u.Utf8 :=
    fun _ hu => nomatch hu
  refine ⟨Runs.meets_congr (J := fun s => ∀ u ∈ s.handlers.userHandler.users, u.Utf8)
    (fun s i hu => complete_users hu i) (fun s i hu => returns_iff hX hu i) hstart, ?_⟩
  -- the number of threads never grows, so a state that has lost one shows it
  refine Runs.always_iff_meets (J := fun s => s.threads ≤ threadCount hardwareConcurrency ∧
    ∀ u ∈ s.handlers.userHandler.users, u.Utf8) ?_ ?_ ⟨le_rfl, hstart⟩ le_rfl
  · rintro s i ⟨hle, hu⟩
    refine ⟨?_, complete_users hu i⟩
    by_cases hr : Returns X s i
    · exact ((complete_threads s i).1 hr).trans_le hle
    · rw [(complete_threads s i).2 hr]
      omega
  · rintro s i ⟨hle, hu⟩ hn
    have hpos : 2 ≤ threadCount hardwareConcurrency := le_max_left _ _
    rw [← returns_iff hX hu]
    by_cases hr : Returns X s i
    · rw [(complete_threads s i).1 hr]
      exact iff_of_true hn hr
    · rw [(complete_threads s i).2 hr]
      exact iff_of_false (by omega) hr

omit hX in
theorem threads_kept_by_upload :
    Runs.Always (complete fewTexts) (fun s => threadCount 1 ≤ s.threads)
    (started 1 fun _ => noonClocks)
    [(0, .read (uploadBytes "users" anaText)), (0, .written), (1, .readEof)] :=
  (threads_kept_iff fewTexts_lawful 1 _ _).2.2 (by decide +kernel)

omit hX in
/-- An upload without a part `users` ends a thread. -/
theorem thread_lost_by_missing_part :
    ¬ Runs.Always (complete fewTexts) (fun s => threadCount 1 ≤ s.threads)
      (started 1 fun _ => noonClocks) [(0, .read (uploadBytes "file" anaText))] := by
  decide +kernel

/-- **At most one thread is lost**, since the upload that ends it leaves the mutex locked. -/
theorem threads_lost : Runs.Always (complete X)
    (fun s => threadCount hardwareConcurrency ≤ s.threads + 1)
    (started hardwareConcurrency clocks) is := by
  let J (s : IoServer) : Prop := (∀ u ∈ s.handlers.userHandler.users, u.Utf8) ∧
    (threadCount hardwareConcurrency ≤ s.threads ∨
      threadCount hardwareConcurrency ≤ s.threads + 1 ∧ s.handlers.userHandler.mutex = true)
  refine Runs.Always.mono (P := J)
    (Runs.always_of_step ?_ ⟨fun _ hu => (nomatch hu), .inl le_rfl⟩ is)
    fun s hs => by rcases hs.2 with h | h <;> omega
  rintro s i ⟨hu, hs⟩
  have h2 : 2 ≤ threadCount hardwareConcurrency := le_max_left _ _
  have hpos : 0 < s.threads := by rcases hs with h | h <;> omega
  refine ⟨complete_users hu i, ?_⟩
  by_cases hr : Returns X s i
  · rw [(complete_threads s i).1 hr]
    exact hs.imp_right fun h => ⟨h.1, complete_mutex s i hpos (.inl h.2)⟩
  · have hc : CompletesRefused X s i := not_not.1 fun hn => hr ((returns_iff hX hu i).2 hn)
    rw [(complete_threads s i).2 hr]
    right
    refine ⟨?_, complete_mutex s i hpos (.inr hc)⟩
    rcases hs with h | ⟨-, hlocked⟩
    · omega
    · rcases complete_cases (X := X) s i with ⟨hn, -⟩ | ⟨c, hiff, -⟩
      · exact absurd hc hn
      · obtain ⟨-, -, -, hfree, -⟩ := hiff.1 hc
        rw [hlocked] at hfree
        cases hfree

end IoServer

end HttpsTest
