import HttpsTest.Users.Concurrency
import HttpsTest.Users.Proof.Upload

/-!
# The user handler on several threads is sequential

The uploads of a `UserHandler` take effect one after the other, whatever reads the users meanwhile:
the handler goes from the state before an upload to the one behind it where the upload is about to
unlock the mutex (`UploadSection.advance`), and a request that meets a locked mutex changes nothing
(`uploads_serializable`). The other requests fit into that order as long as none of their loops runs
while an upload replaces the users (`requests_serializable`).
-/

set_option autoImplicit false

namespace HttpsTest

open UserInfo Ondemand UserHandler

/-! ## The sequential handler -/

namespace UserHandler

variable {X : Externals}

/-- Threads that see the same users answer as `handleGetEvaluation`. -/
theorem evaluationOf_const (c : Clock) (ec : EvaluationClocks) (users : List User) :
    evaluationOf X c ec (fun _ => users) = handleGetEvaluation X c ec users := rfl

theorem isUpload_iff {request : IRequest} : isUpload request = true ↔
    request.method = bytes "POST" ∧ request.uri = bytes "/users" := by
  simp [isUpload]

theorem loopCount_of_upload {request : IRequest} (h : isUpload request = true) :
    loopCount request = 0 := by
  have hne : bytes "POST" ≠ bytes "GET" := by decide
  rw [loopCount, (isUpload_iff.1 h).1, if_neg hne]

/-- The answer depends on what the loops have seen only. -/
theorem replyOf_congr (c : Clocks) {request : IRequest} {f g : Nat → List User}
    (h : ∀ k < loopCount request, f k = g k) : replyOf X c request f = replyOf X c request g := by
  unfold loopCount at h
  unfold replyOf
  by_cases hm : request.method = bytes "GET"
  · simp only [hm, if_true, true_and] at h ⊢
    by_cases hsingle : request.uri = bytes "/superusers" ∨ request.uri = bytes "/top-countries" ∨
      request.uri = bytes "/team-insights" ∨ request.uri = bytes "/active-users-per-day"
    · rw [if_pos hsingle] at h
      rw [h 0 Nat.one_pos]
      rcases hsingle with huri | huri | huri | huri <;> rw [huri] <;> simp +decide
    · rw [if_neg hsingle] at h
      rw [not_or, not_or, not_or] at hsingle
      rw [if_neg hsingle.1, if_neg hsingle.2.1, if_neg hsingle.2.2.1, if_neg hsingle.2.2.2,
        if_neg hsingle.1, if_neg hsingle.2.1, if_neg hsingle.2.2.1, if_neg hsingle.2.2.2]
      by_cases heval : request.uri = bytes "/evaluation"
      · rw [if_pos heval] at h ⊢
        rw [if_pos heval]
        simp only [evaluationOf, h 0 (by decide), h 1 (by decide), h 2 (by decide),
          h 3 (by decide)]
      · rw [if_neg heval, if_neg heval]
  · simp [hm]

/-- A request that is no upload reads the users and changes nothing. -/
theorem handleRequest_read (c : Clocks) {request : IRequest} (hu : isUpload request = false)
    (h : UserHandler) : handleRequest X c request h =
      (answer request (replyOf X c request fun _ => h.users), h) := by
  have hpost : ¬ (request.method = bytes "POST" ∧ request.uri = bytes "/users") := by
    rw [← isUpload_iff, hu]
    exact Bool.false_ne_true
  unfold handleRequest replyOf answer
  rw [if_neg hpost]
  simp only [evaluationOf_const]
  repeat' split
  all_goals rfl

theorem handleRequest_upload (c : Clocks) {request : IRequest} (hu : isUpload request = true)
    (h : UserHandler) : handleRequest X c request h =
      (answer request (handlePOSTUsers X c.own request h).1,
        (handlePOSTUsers X c.own request h).2) := by
  unfold handleRequest answer
  rw [if_pos (isUpload_iff.1 hu)]

/-- An upload that finds the mutex locked. -/
theorem handleRequest_busy (c : Clocks) {request : IRequest} (hu : isUpload request = true)
    {h : UserHandler} (hm : h.mutex = true) : handleRequest X c request h =
      (answer request (.ok ((badRequest request).setBody
        "\x7b\"message\": \"Another request is being processed, please try again later.\"\x7d")),
        h) := by
  rw [handleRequest_upload c hu, handlePOSTUsers, if_pos hm]
  rfl

end UserHandler

/-! ## The section of an upload -/

/-- The body parser behind an accepted body. -/
def Parsed (request : IRequest) (h : UserHandler) (p : MultipartBodyParser) : Prop :=
  h.bodyParser.parse (request.getHeader "Content-Type") request.body = (.ok true, p)

/-- How far an upload has come: the handler was `h` before it and is `now`. -/
def UploadSection (X : Externals) (request : IRequest) (h now : UserHandler) : Phase → Prop
  | .locked => now = { h with mutex := true }
  | .accepted => ∃ p, Parsed request h p ∧ now = { h with bodyParser := p, mutex := true }
  | .cleared text => ∃ p, Parsed request h p ∧ text = p.getValue "users" ∧
      now = { bodyParser := p, users := [], mutex := true }
  -- what is decoded and what is not yet make up the whole array
  | .filling vs => ∃ p doc xs users, Parsed request h p ∧ X.iterate (p.getValue "users") = .ok doc ∧
      doc.getArray = .ok xs ∧ appendAll getUser xs [] = appendAll getUser vs users ∧
      now = { bodyParser := p, users, mutex := true }
  | .unlocking _ => now = { h with mutex := true }
  | _ => False

section
variable {X : Externals} {request : IRequest} {c : UserCall} {h now now' : UserHandler} {p' : Phase}

theorem UploadSection.locked (hsec : UploadSection X request h now p') : now.mutex = true := by
  cases p' with
  | locked => cases hsec; rfl
  | accepted => obtain ⟨p, -, rfl⟩ := hsec; rfl
  | cleared text => obtain ⟨p, -, -, rfl⟩ := hsec; rfl
  | filling vs => obtain ⟨p, doc, xs, users, -, -, -, -, rfl⟩ := hsec; rfl
  | unlocking r => cases hsec; rfl
  | _ => exact hsec.elim

theorem UploadSection.inSection (hsec : UploadSection X request h now p') : p'.InSection := by
  cases p' <;> first | exact hsec.elim | trivial

/-- Outside the decoding the users are those before the upload, or those behind it. -/
theorem UploadSection.users (hsec : UploadSection X request h now p') (hw : ¬ p'.Writing) :
    now.users = h.users := by
  cases p' with
  | locked => cases hsec; rfl
  | accepted => obtain ⟨p, -, rfl⟩ := hsec; rfl
  | cleared text => exact absurd trivial hw
  | filling vs => exact absurd trivial hw
  | unlocking r => cases hsec; rfl
  | _ => exact hsec.elim

/-- What an upload does whose body is parsed, up to the decoding of its users. -/
theorem handlePOSTUsers_parsed (clock : Clock) (hm : h.mutex = false) {p : MultipartBodyParser}
    (hp : Parsed request h p) : handlePOSTUsers X clock request h =
      match parseUsers X (p.getValue "users") [] with
      | (.error e, users) => (.error e, { bodyParser := p, users, mutex := true })
      | (.ok true, users) =>
        (do finish X clock ((badRequest request).setStatusCode 200)
              (← uploadReply "Arquivo recebido com sucesso" users.length),
          { bodyParser := p, users, mutex := false })
      | (.ok false, users) =>
        (do finish X clock (badRequest request) (← uploadReply "Erro ao processar o arquivo" 0),
          { bodyParser := p, users, mutex := false }) := by
  unfold Parsed at hp
  rcases hres : parseUsers X (p.getValue "users") [] with ⟨_ | _ | _, us⟩ <;>
    simp only [handlePOSTUsers, hm, hp, hres, Bool.false_eq_true, if_false, badRequest]

theorem parseUsers_filling {text : Bytes} {doc : Value} {xs vs : List Value} {users : List User}
    (hdoc : X.iterate text = .ok doc) (hxs : doc.getArray = .ok xs)
    (happ : appendAll getUser xs [] = appendAll getUser vs users) : parseUsers X text [] =
      match appendAll getUser vs users with
      | (some _, users) => (.ok false, users)
      | (none, users) => (.ok true, users) := by
  rcases hres : appendAll getUser vs users with ⟨_ | _, us⟩ <;>
    simp only [parseUsers, hdoc, Value.getVector, hxs, happ, hres]

/-- **The section of an upload**: a step stays inside it, or the handler has become what the whole
request makes of it, with the mutex still locked, and the response is that of the request. -/
theorem UploadSection.advance (hu : isUpload c.request = true) (hm : h.mutex = false)
    (hsec : UploadSection X c.request h now c.phase) (hnone : c.phase.result = none)
    (hstep : c.advance X now = some (now', p')) :
    (UploadSection X c.request h now' p' ∧ p'.InSection ∧ p'.result = none ∧
      (p'.Writing → c.phase.Writing ∨ c.phase = .accepted)) ∨
    ∃ r h', handleRequest X c.clocks c.request h = (r, h') ∧ now' = { h' with mutex := true } ∧
      (c.phase.Writing ∨ h'.users = h.users) ∧
      (p' = .unlocking r ∧ h'.mutex = false ∨ p' = .ended r ∧ h'.mutex = true) := by
  unfold UserCall.advance at hstep
  cases hphase : c.phase with
  | started => rw [hphase] at hsec; exact hsec.elim
  | unlocking r => rw [hphase] at hnone; cases hnone
  | reading loops => rw [hphase] at hsec; exact hsec.elim
  | ended r => rw [hphase] at hsec; exact hsec.elim
  | dangling => rw [hphase] at hsec; exact hsec.elim
  | locked =>
    rw [hphase] at hsec hstep
    cases hsec
    simp only at hstep
    rcases hp : h.bodyParser.parse (c.request.getHeader "Content-Type") c.request.body
      with ⟨_ | _ | _, p⟩
    all_goals
      simp only [hp, Option.some.injEq, Prod.mk.injEq] at hstep
      obtain ⟨rfl, rfl⟩ := hstep
    · refine .inr ⟨_, { h with bodyParser := p, mutex := true }, ?_, rfl, .inr rfl,
        .inr ⟨rfl, rfl⟩⟩
      rw [handleRequest_upload _ hu]
      simp [handlePOSTUsers, hm, hp, answer]
      rfl
    · refine .inr ⟨_, { h with bodyParser := p }, ?_, rfl, .inr rfl, .inl ⟨rfl, hm⟩⟩
      rw [handleRequest_upload _ hu]
      simp [handlePOSTUsers, hm, hp, badRequest]
    · exact .inl ⟨⟨p, hp, rfl⟩, trivial, rfl, nofun⟩
  | accepted =>
    rw [hphase] at hsec hstep
    obtain ⟨p, hp, rfl⟩ := hsec
    cases hstep
    exact .inl ⟨⟨p, hp, rfl, rfl⟩, trivial, rfl, fun _ => .inr rfl⟩
  | cleared text =>
    rw [hphase] at hsec hstep
    obtain ⟨p, hp, rfl, rfl⟩ := hsec
    simp only at hstep
    cases hdoc : X.iterate (p.getValue "users") with
    | error e =>
      rw [hdoc] at hstep
      cases hstep
      refine .inr ⟨_, { bodyParser := p, users := [], mutex := true }, ?_, rfl, .inl trivial,
        .inr ⟨rfl, rfl⟩⟩
      rw [handleRequest_upload _ hu, handlePOSTUsers_parsed _ hm hp]
      simp only [parseUsers, hdoc]
      rfl
    | ok doc =>
      rw [hdoc] at hstep
      simp only at hstep
      cases hxs : doc.getArray with
      | error e =>
        rw [hxs] at hstep
        cases hstep
        refine .inr ⟨_, { bodyParser := p, users := [], mutex := false }, ?_, rfl, .inl trivial,
          .inl ⟨rfl, rfl⟩⟩
        rw [handleRequest_upload _ hu, handlePOSTUsers_parsed _ hm hp]
        simp only [parseUsers, hdoc, Value.getVector, hxs]
        rfl
      | ok xs =>
        rw [hxs] at hstep
        cases hstep
        exact .inl ⟨⟨p, doc, xs, [], hp, hdoc, hxs, rfl, rfl⟩, trivial, rfl, fun _ => .inl trivial⟩
  | filling vs =>
    rw [hphase] at hsec hstep
    obtain ⟨p, doc, xs, users, hp, hdoc, hxs, happ, rfl⟩ := hsec
    cases vs with
    | nil =>
      cases hstep
      refine .inr ⟨_, { bodyParser := p, users, mutex := false }, ?_, rfl, .inl trivial,
        .inl ⟨rfl, rfl⟩⟩
      rw [handleRequest_upload _ hu, handlePOSTUsers_parsed _ hm hp,
        parseUsers_filling hdoc hxs happ]
      rfl
    | cons v vs =>
      simp only at hstep
      cases hv : getUser v with
      | error e =>
        rw [hv] at hstep
        cases hstep
        refine .inr ⟨_, { bodyParser := p, users, mutex := false }, ?_, rfl, .inl trivial,
          .inl ⟨rfl, rfl⟩⟩
        rw [handleRequest_upload _ hu, handlePOSTUsers_parsed _ hm hp,
          parseUsers_filling hdoc hxs happ]
        simp only [appendAll, hv]
        rfl
      | ok user =>
        rw [hv] at hstep
        cases hstep
        refine .inl ⟨⟨p, doc, xs, _, hp, hdoc, hxs, ?_, rfl⟩, trivial, rfl, fun _ => .inl trivial⟩
        rw [happ, appendAll, hv]

end

/-! ## The loops -/

/-- The loop has seen the first of the users, and its end is theirs. -/
structure UserLoop.Agrees (users : List User) (l : UserLoop) : Prop where
  seen : l.seen = users.take l.seen.length
  fresh : l.left = none → l.seen = []
  left : ∀ n, l.left = some n → l.seen.length + n = users.length

theorem UserLoop.Agrees.start (users : List User) : UserLoop.Agrees users {} where
  seen := rfl
  fresh _ := rfl
  left _ h := by cases h

/-- Behind its last step a loop has seen all users. -/
theorem UserLoop.Agrees.done {users : List User} {l : UserLoop} (h : l.Agrees users)
    (hl : l.left = some 0) : l.seen = users := by
  have hlen := h.left 0 hl
  rw [h.seen, List.take_of_length_le (by omega)]

/-- While the users stay the same, an element is where a loop looks for it. -/
theorem UserLoop.Agrees.step {users : List User} {l : UserLoop} {l' : Option UserLoop}
    (h : l.Agrees users) (hstep : l.step users = some l') :
    ∃ l1, l' = some l1 ∧ l1.Agrees users := by
  unfold UserLoop.step at hstep
  split at hstep
  · rename_i hleft
    cases hstep
    refine ⟨_, rfl, h.seen, fun hn => (by cases hn), fun n hn => ?_⟩
    cases hn
    simp [h.fresh hleft]
  · cases hstep
  · rename_i n hleft
    cases hstep
    have hlen := h.left _ hleft
    have hlt : l.seen.length < users.length := by omega
    rw [List.getElem?_eq_getElem hlt]
    refine ⟨_, rfl, ?_, fun hn => (by cases hn), fun m hm => ?_⟩
    · show l.seen ++ [users[l.seen.length]] = users.take (l.seen ++ [users[l.seen.length]]).length
      rw [List.length_append, List.length_singleton, List.take_add_one,
        List.getElem?_eq_getElem hlt, ← h.seen]
      rfl
    · cases hm
      simp only [List.length_append, List.length_singleton]
      omega

/-- What a step of a loop does to its call. -/
theorem UserCall.read_cases {X : Externals} {c : UserCall} {users : List User} {k : Nat} {p : Phase}
    (hstep : c.read X users k = some p) : ∃ loops l l', c.loops = some loops ∧ loops[k]? = some l ∧
      l.step users = some l' ∧ (l' = none ∧ p = .dangling ∨ ∃ l1, l' = some l1 ∧
        (p = .reading (loops.set k l1) ∨ (∀ l ∈ loops.set k l1, l.left = some 0) ∧
          p = .ended (answer c.request (replyOf X c.clocks c.request
            fun m => ((loops.set k l1)[m]?).elim [] (·.seen))))) := by
  unfold UserCall.read at hstep
  obtain ⟨loops, hloops, hstep⟩ := Option.bind_eq_some_iff.1 hstep
  obtain ⟨l, hl, hstep⟩ := Option.bind_eq_some_iff.1 hstep
  obtain ⟨l', hl', hstep⟩ := Option.bind_eq_some_iff.1 hstep
  refine ⟨loops, l, l', hloops, hl, hl', ?_⟩
  cases l' with
  | none =>
    cases hstep
    exact .inl ⟨rfl, rfl⟩
  | some l1 =>
    refine .inr ⟨l1, rfl, ?_⟩
    simp only at hstep
    split at hstep
    · rename_i hall
      cases hstep
      exact .inr ⟨by simpa using hall, rfl⟩
    · cases hstep
      exact .inl rfl

/-! ## The recorded calls -/

namespace SharedHandler

theorem refusal_of_not {s : SharedHandler} {a : Action} (h : ¬ s.Refuses a) : s.refusal a = [] := by
  cases a with
  | advance i => exact if_neg h
  | _ => rfl

open Runs

variable {X : Externals} {reads : Prop} {P : IRequest → Prop} {h₀ h : UserHandler}
  {s t : SharedHandler} {calls : List UserCall} {history : List Entry} {i : Nat} {c : UserCall}
  {p : Phase}

theorem getElem?_set_call {c' d : UserCall} {j : Nat} (hc : calls[i]? = some c) :
    (calls.set i c')[j]? = some d ↔ j = i ∧ d = c' ∨ j ≠ i ∧ calls[j]? = some d := by
  have hlt : i < calls.length := (List.getElem?_eq_some_iff.1 hc).1
  rw [List.getElem?_set, if_pos hlt]
  by_cases hij : i = j
  · subst hij
    simp [eq_comm]
  · simp [hij, Ne.symm hij]

/-- The entries of the history are the calls in `P` whose responses are settled. -/
structure Recorded (P : IRequest → Prop) (history : List Entry) (calls : List UserCall) : Prop where
  nodup : (history.map (·.call)).Nodup
  sound : ∀ e ∈ history, ∃ c, calls[e.call]? = some c ∧ c.request = e.request ∧
    c.clocks = e.clocks ∧ c.phase.result = some e.response
  complete : ∀ i c, calls[i]? = some c → P c.request → c.phase.result.isSome →
    ∃ e ∈ history, e.call = i

theorem Recorded.call (hr : Recorded P history calls) (request : IRequest) (clocks : Clocks) :
    Recorded P history (calls ++ [({ request, clocks } : UserCall)]) where
  nodup := hr.nodup
  sound e he := by
    obtain ⟨c, hc, hrest⟩ := hr.sound e he
    exact ⟨c, by rw [List.getElem?_append_left (List.getElem?_eq_some_iff.1 hc).1, hc], hrest⟩
  complete i c hc hp hsome := by
    rw [List.getElem?_append] at hc
    split at hc
    · exact hr.complete i c hc hp hsome
    · rw [List.getElem?_singleton] at hc
      split at hc
      · cases hc
        cases hsome
      · cases hc

/-- A step that settles nothing, or the response of a call outside `P`. -/
theorem Recorded.change (hr : Recorded P history calls) (hc : calls[i]? = some c)
    (hp : p.result = c.phase.result ∨ c.phase.result = none ∧ ¬ P c.request) :
    Recorded P history (calls.set i { c with phase := p }) where
  nodup := hr.nodup
  sound e he := by
    obtain ⟨d, hd, hreq, hclocks, hres⟩ := hr.sound e he
    by_cases hi : e.call = i
    · rw [hi, hc] at hd
      cases hd
      rcases hp with hp | ⟨hnone, -⟩
      · exact ⟨_, (getElem?_set_call hc).2 (.inl ⟨hi, rfl⟩), hreq, hclocks, hp.trans hres⟩
      · rw [hnone] at hres
        cases hres
    · exact ⟨d, (getElem?_set_call hc).2 (.inr ⟨hi, hd⟩), hreq, hclocks, hres⟩
  complete j d hd hP hsome := by
    rcases (getElem?_set_call hc).1 hd with ⟨rfl, rfl⟩ | ⟨-, hd⟩
    · rcases hp with hp | ⟨-, hnot⟩
      · exact hr.complete j c hc hP (by rwa [← hp])
      · exact absurd hP hnot
    · exact hr.complete j d hd hP hsome

/-- The entry of a call. -/
def entryOf (i : Nat) (c : UserCall) (response : Except Exn HttpResponse) (during : Bool) : Entry :=
  { call := i, request := c.request, clocks := c.clocks, response, during }

/-- A step that settles a response. -/
theorem Recorded.settle (hr : Recorded P history calls) (hc : calls[i]? = some c)
    (hnone : c.phase.result = none) {r : Except Exn HttpResponse} (hp : p.result = some r)
    (during : Bool) : Recorded P (history ++ [entryOf i c r during])
      (calls.set i { c with phase := p }) where
  nodup := by
    rw [List.map_append, List.nodup_append]
    refine ⟨hr.nodup, by simp, ?_⟩
    intro a ha b hb hab
    obtain ⟨e, he, rfl⟩ := List.mem_map.1 ha
    rw [List.map_singleton, List.mem_singleton] at hb
    obtain ⟨d, hd, -, -, hres⟩ := hr.sound e he
    have hdi : calls[i]? = some d := by
      rw [← hd, hab, hb]
      rfl
    rw [hc] at hdi
    cases hdi
    rw [hnone] at hres
    cases hres
  sound e he := by
    rcases List.mem_append.1 he with he | he
    · obtain ⟨d, hd, hrest⟩ := hr.sound e he
      have hne : e.call ≠ i := by
        intro hi
        rw [hi, hc] at hd
        cases hd
        rw [hnone] at hrest
        cases hrest.2.2
      exact ⟨d, (getElem?_set_call hc).2 (.inr ⟨hne, hd⟩), hrest⟩
    · rw [List.mem_singleton.1 he]
      exact ⟨_, (getElem?_set_call hc).2 (.inl ⟨rfl, rfl⟩), rfl, rfl, hp⟩
  complete j d hd hP hsome := by
    rcases (getElem?_set_call hc).1 hd with ⟨rfl, rfl⟩ | ⟨-, hd⟩
    · exact ⟨_, List.mem_append_right _ (List.mem_singleton_self _), rfl⟩
    · obtain ⟨e, he, hej⟩ := hr.complete j d hd hP hsome
      exact ⟨e, List.mem_append_left _ he, hej⟩

/-- The settled response of a call is that of its entry. -/
theorem Recorded.result_iff (hr : Recorded P history calls) (hc : calls[i]? = some c)
    (hP : P c.request) {r : Except Exn HttpResponse} :
    c.phase.result = some r ↔ ∃ e ∈ history, e.call = i ∧ e.response = r := by
  constructor
  · intro hres
    obtain ⟨e, he, hcall⟩ := hr.complete i c hc hP (by rw [hres]; rfl)
    obtain ⟨d, hd, -, -, hres'⟩ := hr.sound e he
    rw [hcall, hc] at hd
    cases hd
    exact ⟨e, he, hcall, Option.some.inj (hres'.symm.trans hres)⟩
  · rintro ⟨e, he, hcall, rfl⟩
    obtain ⟨d, hd, -, -, hres⟩ := hr.sound e he
    rw [hcall, hc] at hd
    cases hd
    exact hres

theorem Recorded.unsettled (hr : Recorded P history calls) (hc : calls[i]? = some c)
    (hP : P c.request) (hno : ∀ e ∈ history, e.call ≠ i) : c.phase.result = none := by
  refine Option.eq_none_iff_forall_ne_some.2 fun r hres => ?_
  obtain ⟨e, he, hcall, -⟩ := (hr.result_iff hc hP).1 hres
  exact hno e he hcall

/-! ## The invariant -/

/-- What holds of a call to `request`, with the users `users` behind the last entry. -/
def FineAt (reads : Prop) (users : List User) (request : IRequest) : Phase → Prop
  | .reading loops => loops.length = loopCount request ∧ (reads → ∀ l ∈ loops, l.Agrees users)
  | .dangling => ¬ reads
  | .started | .ended _ => True
  | _ => isUpload request = true

/-- The handler is `h`, or an upload is on its way from `h`. -/
def Holds (X : Externals) (s : SharedHandler) (h : UserHandler) : Option Nat → Prop
  | none => s.handler = h ∧ ∀ (j : Nat) (d : UserCall), s.calls[j]? = some d → ¬ d.phase.InSection
  | some i => h.mutex = false ∧ (∃ c, s.calls[i]? = some c ∧
      UploadSection X c.request h s.handler c.phase) ∧
      ∀ (j : Nat) (d : UserCall), s.calls[j]? = some d → d.phase.InSection → j = i

structure Invariant (X : Externals) (reads : Prop) (h₀ : UserHandler) (s : SharedHandler)
    (history : List Entry) (h : UserHandler) (holder : Option Nat) : Prop where
  served : Path (Served X) h₀ history h
  recorded : Recorded (fun r => isUpload r = true ∨ reads) history s.calls
  holds : Holds X s h holder
  fine : ∀ (j : Nat) (d : UserCall), s.calls[j]? = some d → FineAt reads h.users d.request d.phase
  apart : reads → ∀ (j k : Nat) (c d : UserCall), s.calls[j]? = some c → s.calls[k]? = some d →
    c.phase.Reading → ¬ d.phase.Writing

theorem FineAt.upload {users : List User} {request : IRequest}
    (h : FineAt reads users request p) (hp : p.InSection) : isUpload request = true := by
  cases p <;> first | exact h | exact hp.elim

/-- The calls but one are what they were. -/
theorem forall_set_call {Q : UserCall → Prop} (hc : calls[i]? = some c)
    (h : ∀ (j : Nat) (d : UserCall), j ≠ i → calls[j]? = some d → Q d)
    (hp : Q { c with phase := p }) :
    ∀ (j : Nat) (d : UserCall), (calls.set i { c with phase := p })[j]? = some d → Q d := by
  intro j d hd
  rcases (getElem?_set_call hc).1 hd with ⟨-, rfl⟩ | ⟨hj, hd⟩
  · exact hp
  · exact h j d hj hd

theorem apart_set (hc : calls[i]? = some c)
    (h : ∀ (j k : Nat) (c d : UserCall), calls[j]? = some c → calls[k]? = some d →
      c.phase.Reading → ¬ d.phase.Writing)
    (hread : p.Reading → ∀ d ∈ calls, ¬ d.phase.Writing)
    (hwrite : p.Writing → ∀ d ∈ calls, ¬ d.phase.Reading) :
    ∀ (j k : Nat) (a b : UserCall), (calls.set i { c with phase := p })[j]? = some a →
      (calls.set i { c with phase := p })[k]? = some b → a.phase.Reading → ¬ b.phase.Writing := by
  intro j k a b ha hb hra hwb
  rcases (getElem?_set_call hc).1 ha with ⟨-, rfl⟩ | ⟨-, ha⟩
  · rcases (getElem?_set_call hc).1 hb with ⟨-, rfl⟩ | ⟨-, hb⟩
    · cases p <;> first | exact hra.elim | exact hwb.elim
    · exact hread hra b (List.mem_of_getElem? hb) hwb
  · rcases (getElem?_set_call hc).1 hb with ⟨-, rfl⟩ | ⟨-, hb⟩
    · exact hwrite hwb a (List.mem_of_getElem? ha) hra
    · exact h j k a b ha hb hra hwb

theorem Holds.set {holder : Option Nat} (hh : Holds X s h holder) (hc : s.calls[i]? = some c)
    (hout : ¬ c.phase.InSection) (hp : ¬ p.InSection) :
    Holds X { s with calls := s.calls.set i { c with phase := p } } h holder := by
  cases holder with
  | none => exact ⟨hh.1, forall_set_call hc (fun j d _ hd => hh.2 j d hd) hp⟩
  | some k =>
    obtain ⟨hm, ⟨d, hd, hsec⟩, honly⟩ := hh
    have hki : k ≠ i := by
      intro hki
      rw [hki, hc] at hd
      cases hd
      exact hout hsec.inSection
    refine ⟨hm, ⟨d, (getElem?_set_call hc).2 (.inr ⟨hki, hd⟩), hsec⟩, ?_⟩
    intro j d hd hin
    rcases (getElem?_set_call hc).1 hd with ⟨-, rfl⟩ | ⟨-, hd⟩
    · exact absurd hin hp
    · exact honly j d hd hin

/-- While no upload replaces the users, they are those behind the last entry. -/
theorem Holds.users {holder : Option Nat} (hh : Holds X s h holder)
    (hw : ∀ d ∈ s.calls, ¬ d.phase.Writing) : s.handler.users = h.users := by
  cases holder with
  | none => rw [hh.1]
  | some k =>
    obtain ⟨-, ⟨d, hd, hsec⟩, -⟩ := hh
    exact hsec.users (hw d (List.mem_of_getElem? hd))

section
variable {holder : Option Nat} (inv : Invariant X reads h₀ s history h holder)
include inv

theorem Invariant.call (request : IRequest) (clocks : Clocks) :
    Invariant X reads h₀ { s with calls := s.calls ++ [({ request, clocks } : UserCall)] } history h
      holder := by
  have hsplit : ∀ (j : Nat) (d : UserCall),
      (s.calls ++ [({ request, clocks } : UserCall)])[j]? = some d →
      s.calls[j]? = some d ∨ d = { request, clocks } := by
    intro j d hd
    rw [List.getElem?_append] at hd
    split at hd
    · exact .inl hd
    · refine .inr ?_
      rw [List.getElem?_singleton] at hd
      split at hd <;> cases hd
      rfl
  refine ⟨inv.served, inv.recorded.call request clocks, ?_, ?_, ?_⟩
  · have hholds := inv.holds
    cases holder with
    | none =>
      refine ⟨hholds.1, fun j d hd => ?_⟩
      rcases hsplit j d hd with hd | rfl
      · exact hholds.2 j d hd
      · exact id
    | some k =>
      obtain ⟨hm, ⟨d, hd, hsec⟩, honly⟩ := hholds
      refine ⟨hm, ⟨d, ?_, hsec⟩, fun j d hd hin => ?_⟩
      · show (s.calls ++ _)[k]? = some d
        rw [List.getElem?_append_left (List.getElem?_eq_some_iff.1 hd).1, hd]
      · rcases hsplit j d hd with hd | rfl
        · exact honly j d hd hin
        · exact hin.elim
  · intro j d hd
    rcases hsplit j d hd with hd | rfl
    · exact inv.fine j d hd
    · trivial
  · intro hreads j k c d hc hd hr hw
    rcases hsplit j c hc with hc | rfl
    · rcases hsplit k d hd with hd | rfl
      · exact inv.apart hreads j k c d hc hd hr hw
      · exact hw.elim
    · exact hr.elim

/-- A step outside the section that settles nothing, or the response of a call left out. -/
theorem Invariant.change (hc : s.calls[i]? = some c) (hout : ¬ c.phase.InSection)
    (hnone : c.phase.result = none) (hp : ¬ p.InSection) (hw : ¬ p.Writing)
    (hres : p.result = none ∨ ¬ (isUpload c.request = true ∨ reads))
    (hfine : FineAt reads h.users c.request p)
    (hread : reads → p.Reading → ∀ d ∈ s.calls, ¬ d.phase.Writing) :
    Invariant X reads h₀ { s with calls := s.calls.set i { c with phase := p } } history h
      holder where
  served := inv.served
  recorded := inv.recorded.change hc (by
    rcases hres with hres | hres
    · exact .inl (hres.trans hnone.symm)
    · exact .inr ⟨hnone, hres⟩)
  holds := inv.holds.set hc hout hp
  fine := forall_set_call hc (fun j d _ hd => inv.fine j d hd) hfine
  apart hreads := apart_set hc (inv.apart hreads) (hread hreads) (fun h => absurd h hw)

/-- A step outside the section that ends a call as the sequential handler would serve it, which
changes nothing. -/
theorem Invariant.settle (hc : s.calls[i]? = some c) (hout : ¬ c.phase.InSection)
    (hnone : c.phase.result = none) {r : Except Exn HttpResponse} {during : Bool}
    (hserved : Served X h (entryOf i c r during) h) :
    Invariant X reads h₀ { s with calls := s.calls.set i { c with phase := .ended r } }
      (history ++ [entryOf i c r during]) h holder where
  served := inv.served.append (.cons hserved (.nil h))
  recorded := inv.recorded.settle hc hnone rfl during
  holds := inv.holds.set hc hout id
  fine := forall_set_call hc (fun j d _ hd => inv.fine j d hd) trivial
  apart hreads := apart_set hc (inv.apart hreads) False.elim False.elim

theorem Invariant.lock (hc : s.calls[i]? = some c) (hphase : c.phase = .started)
    (hu : isUpload c.request = true) (hfree : s.handler.mutex = false) :
    Invariant X reads h₀
      { handler := { s.handler with mutex := true }
        calls := s.calls.set i { c with phase := .locked } } history h (some i) := by
  have hholds := inv.holds
  cases holder with
  | some k =>
    obtain ⟨-, ⟨d, -, hsec⟩, -⟩ := hholds
    rw [hsec.locked] at hfree
    cases hfree
  | none =>
    obtain ⟨rfl, hno⟩ := hholds
    refine ⟨inv.served, inv.recorded.change hc (.inl (by rw [hphase]; rfl)), ?_,
      forall_set_call hc (fun j d _ hd => inv.fine j d hd) hu,
      fun hreads => apart_set hc (inv.apart hreads) False.elim False.elim⟩
    refine ⟨hfree, ⟨_, (getElem?_set_call hc).2 (.inl ⟨rfl, rfl⟩), rfl⟩, ?_⟩
    intro j d hd hin
    rcases (getElem?_set_call hc).1 hd with ⟨rfl, -⟩ | ⟨-, hd⟩
    · rfl
    · exact absurd hin (hno j d hd)

/-- The call in the section is the holder. -/
theorem Invariant.holder_eq (hc : s.calls[i]? = some c) (hin : c.phase.InSection) :
    holder = some i ∧ h.mutex = false ∧ UploadSection X c.request h s.handler c.phase ∧
      ∀ (j : Nat) (d : UserCall), s.calls[j]? = some d → d.phase.InSection → j = i := by
  have hholds := inv.holds
  cases holder with
  | none => exact absurd hin (hholds.2 i c hc)
  | some k =>
    obtain ⟨hm, ⟨d, hd, hsec⟩, honly⟩ := hholds
    cases honly i c hc hin
    rw [hc] at hd
    cases hd
    exact ⟨rfl, hm, hsec, honly⟩

/-- Where the upload was the only call that could touch the users, the others stay fine. -/
theorem Invariant.fine_set {h' : UserHandler} (hc : s.calls[i]? = some c)
    (hkeep : c.phase.Writing ∨ h'.users = h.users) (hp : FineAt reads h'.users c.request p) :
    ∀ (j : Nat) (d : UserCall), (s.calls.set i { c with phase := p })[j]? = some d →
      FineAt reads h'.users d.request d.phase := by
  refine forall_set_call hc (fun j d _ hd => ?_) hp
  have hd' := inv.fine j d hd
  rcases hkeep with hw | hkeep
  · cases hphase : d.phase with
    | reading loops =>
      rw [hphase] at hd'
      refine ⟨hd'.1, fun hreads => ?_⟩
      have hread : d.phase.Reading := by rw [hphase]; trivial
      exact absurd hw (inv.apart hreads j i d c hd hc hread)
    | _ => rw [hphase] at hd'; exact hd'
  · rwa [hkeep]

/-- A step inside the section. -/
theorem Invariant.section {now : UserHandler} (hc : s.calls[i]? = some c)
    (hin : c.phase.InSection) (hnone : c.phase.result = none)
    (hstep : c.advance X s.handler = some (now, p))
    (hsep : reads → c.phase = .accepted → ∀ d ∈ s.calls, ¬ d.phase.Reading) :
    ∃ more h' holder', Invariant X reads h₀
      { handler := now, calls := s.calls.set i { c with phase := p } } (history ++ more) h'
      holder' ∧ ∀ e ∈ more, e.during = false := by
  obtain ⟨rfl, hm, hsec, honly⟩ := inv.holder_eq hc hin
  have hu : isUpload c.request = true := (inv.fine i c hc).upload hin
  have honly' : ∀ (j : Nat) (d : UserCall), (s.calls.set i { c with phase := p })[j]? = some d →
      d.phase.InSection → j = i := by
    intro j d hd hin
    rcases (getElem?_set_call hc).1 hd with ⟨rfl, -⟩ | ⟨-, hd⟩
    · rfl
    · exact honly j d hd hin
  rcases hsec.advance hu hm hnone hstep with ⟨hsec', hin', hnone', hwrite⟩ |
    ⟨r, h', hserved, rfl, hkeep, hend⟩
  · have hnoread : ¬ p.Reading := by
      cases p <;> first | exact hin'.elim | exact id
    refine ⟨[], h, some i, ⟨by rw [List.append_nil]; exact inv.served, ?_, ?_, ?_, ?_⟩, by simp⟩
    · rw [List.append_nil]
      exact inv.recorded.change hc (.inl (hnone'.trans hnone.symm))
    · exact ⟨hm, ⟨_, (getElem?_set_call hc).2 (.inl ⟨rfl, rfl⟩), hsec'⟩, honly'⟩
    · refine inv.fine_set hc (.inr rfl) ?_
      cases p <;> first | exact hu | exact hin'.elim
    · refine fun hreads => apart_set hc (inv.apart hreads) (fun h => absurd h hnoread) ?_
      intro hw d hd hr
      obtain ⟨j, hj⟩ := List.mem_iff_getElem?.1 hd
      rcases hwrite hw with hw | hacc
      · exact inv.apart hreads j i d c hj hc hr hw
      · exact hsep hreads hacc d hd hr
  · refine ⟨[entryOf i c r false], h', if h'.mutex then none else some i,
      ⟨inv.served.append (.cons hserved (.nil h')), inv.recorded.settle hc hnone ?_ false,
        ?_, ?_, ?_⟩, by simp [entryOf]⟩
    · rcases hend with ⟨rfl, -⟩ | ⟨rfl, -⟩ <;> rfl
    · rcases hend with ⟨rfl, hm'⟩ | ⟨rfl, hm'⟩
      · rw [hm']
        exact ⟨hm', ⟨_, (getElem?_set_call hc).2 (.inl ⟨rfl, rfl⟩), rfl⟩, honly'⟩
      · rw [hm']
        refine ⟨by rw [← hm'], ?_⟩
        intro j d hd hin
        cases honly' j d hd hin
        rcases (getElem?_set_call hc).1 hd with ⟨-, rfl⟩ | ⟨hne, -⟩
        · exact hin
        · exact hne rfl
    · refine inv.fine_set hc hkeep ?_
      rcases hend with ⟨rfl, -⟩ | ⟨rfl, -⟩
      · exact hu
      · trivial
    · refine fun hreads => apart_set hc (inv.apart hreads) ?_ ?_
      all_goals rcases hend with ⟨rfl, -⟩ | ⟨rfl, -⟩ <;> exact False.elim

theorem Invariant.unlock {r : Except Exn HttpResponse} (hc : s.calls[i]? = some c)
    (hphase : c.phase = .unlocking r) :
    Invariant X reads h₀
      { handler := { s.handler with mutex := false }
        calls := s.calls.set i { c with phase := .ended r } } history h none := by
  obtain ⟨rfl, hm, hsec, honly⟩ := inv.holder_eq hc (by rw [hphase]; trivial)
  rw [hphase] at hsec
  have hnow : s.handler = { h with mutex := true } := hsec
  refine ⟨inv.served, inv.recorded.change hc (.inl (by rw [hphase]; rfl)), ⟨?_, ?_⟩,
    inv.fine_set hc (.inr rfl) trivial,
    fun hreads => apart_set hc (inv.apart hreads) False.elim False.elim⟩
  · rw [hnow, ← hm]
  · intro j d hd hin
    rcases (getElem?_set_call hc).1 hd with ⟨-, rfl⟩ | ⟨hne, hd⟩
    · exact hin
    · exact hne (honly j d hd hin)

/-- The loops of a call, begun or not. -/
theorem Invariant.loops (hc : s.calls[i]? = some c) {loops : List UserLoop}
    (hloops : c.loops = some loops) : ¬ c.phase.InSection ∧ c.phase.result = none ∧
      loops.length = loopCount c.request ∧ (reads → ∀ l ∈ loops, l.Agrees h.users) := by
  have hfine := inv.fine i c hc
  unfold UserCall.loops at hloops
  cases hphase : c.phase with
  | started =>
    rw [hphase] at hloops
    cases hloops
    refine ⟨id, rfl, List.length_replicate, fun _ l hl => ?_⟩
    rw [List.eq_of_mem_replicate hl]
    exact .start h.users
  | reading ls =>
    rw [hphase] at hloops hfine
    cases hloops
    exact ⟨id, rfl, hfine⟩
  | _ => rw [hphase] at hloops; cases hloops

/-- A step of a loop. -/
theorem Invariant.read {k : Nat} (hc : s.calls[i]? = some c)
    (hstep : c.read X s.handler.users k = some p)
    (hsep : reads → ∀ d ∈ s.calls, ¬ d.phase.Writing) :
    ∃ more, Invariant X reads h₀ { s with calls := s.calls.set i { c with phase := p } }
      (history ++ more) h holder ∧ ∀ e ∈ more, e.during = false := by
  obtain ⟨loops, l, l', hloops, hl, hstep, hcases⟩ := UserCall.read_cases hstep
  obtain ⟨hout, hnone, hlen, hagree⟩ := inv.loops hc hloops
  have hmem : l ∈ loops := List.mem_of_getElem? hl
  have hsee : reads → ∃ l1, l' = some l1 ∧ l1.Agrees h.users := by
    intro hreads
    rw [inv.holds.users (hsep hreads)] at hstep
    exact (hagree hreads l hmem).step hstep
  have hagree' : ∀ l1, l' = some l1 → reads → ∀ m ∈ loops.set k l1, m.Agrees h.users := by
    intro l1 hl1 hreads m hm
    rcases List.mem_or_eq_of_mem_set hm with hm | rfl
    · exact hagree hreads m hm
    · obtain ⟨l2, hl2, hag⟩ := hsee hreads
      rw [hl1] at hl2
      cases hl2
      exact hag
  have hread : isUpload c.request = false := by
    rw [Bool.eq_false_iff]
    intro hu
    have hlt := (List.getElem?_eq_some_iff.1 hl).1
    rw [hlen, loopCount_of_upload hu] at hlt
    exact Nat.not_lt_zero _ hlt
  rcases hcases with ⟨rfl, rfl⟩ | ⟨l1, rfl, rfl | ⟨hall, rfl⟩⟩
  · refine ⟨[], ?_, by simp⟩
    rw [List.append_nil]
    refine inv.change hc hout hnone id id (.inl rfl) (fun hreads => ?_) (fun _ => False.elim)
    obtain ⟨l1, hl1, -⟩ := hsee hreads
    cases hl1
  · refine ⟨[], ?_, by simp⟩
    rw [List.append_nil]
    exact inv.change hc hout hnone id id (.inl rfl)
      ⟨by rw [List.length_set, hlen], hagree' l1 rfl⟩ (fun hreads _ => hsep hreads)
  · by_cases hreads : reads
    · refine ⟨[entryOf i c _ false], inv.settle hc hout hnone ?_, by simp [entryOf]⟩
      show handleRequest X c.clocks c.request h = _
      rw [handleRequest_read _ hread]
      refine Prod.ext (congrArg (answer c.request) (replyOf_congr _ fun m hm => ?_)) rfl
      have hlt : m < (loops.set k l1).length := by rwa [List.length_set, hlen]
      have hmem' := List.getElem_mem hlt
      rw [List.getElem?_eq_getElem hlt]
      exact ((hagree' l1 rfl hreads _ hmem').done (hall _ hmem')).symm
    · refine ⟨[], ?_, by simp⟩
      rw [List.append_nil]
      refine inv.change hc hout hnone id id (.inr ?_) trivial (fun _ => False.elim)
      rw [hread]
      simp [hreads]

/-- The first step of a call. -/
theorem Invariant.start {now : UserHandler} (hc : s.calls[i]? = some c)
    (hphase : c.phase = .started) (hstep : c.advance X s.handler = some (now, p)) :
    ∃ more h' holder', Invariant X reads h₀
      { handler := now, calls := s.calls.set i { c with phase := p } } (history ++ more) h'
      holder' ∧ refusals more = s.refusal (.advance i) ∧
      ∀ e ∈ more, e.during = true → isUpload e.request = true ∧ s.Refuses (.advance i) := by
  have hrefuses : s.Refuses (.advance i) ↔
      isUpload c.request = true ∧ ∃ d ∈ s.calls, d.phase.InSection := by
    show ((s.calls[i]?).any _ = true ∧ _) ↔ _
    rw [hc, Option.any_some, hphase, Bool.and_true]
  have hout : ¬ c.phase.InSection := by rw [hphase]; exact id
  have hnone : c.phase.result = none := by rw [hphase]; rfl
  simp only [UserCall.advance, hphase] at hstep
  split at hstep
  · rename_i hu
    split at hstep
    · rename_i hm
      obtain ⟨rfl, rfl⟩ := Prod.mk.inj (Option.some.inj hstep)
      -- the upload is refused: the mutex is held, or an exception has left it locked
      have hholds := inv.holds
      cases holder with
      | none =>
        rw [hholds.1] at hm
        refine ⟨[entryOf i c _ false], h, none,
          inv.settle hc hout hnone (handleRequest_busy c.clocks hu hm), ?_, by simp [entryOf]⟩
        refine (refusal_of_not fun href => ?_).symm
        obtain ⟨d, hd, hin⟩ := (hrefuses.1 href).2
        obtain ⟨j, hj⟩ := List.mem_iff_getElem?.1 hd
        exact hholds.2 j d hj hin
      | some k =>
        obtain ⟨-, ⟨d, hd, hsec⟩, -⟩ := hholds
        have href := hrefuses.2 ⟨hu, d, List.mem_of_getElem? hd, hsec.inSection⟩
        refine ⟨[entryOf i c _ true], h, some k,
          inv.settle hc hout hnone ⟨handleRequest_busy c.clocks hu rfl, rfl⟩, ?_, fun e he _ => ?_⟩
        · exact (if_pos href).symm
        · rw [List.mem_singleton.1 he]
          exact ⟨hu, href⟩
    · rename_i hfree
      obtain ⟨rfl, rfl⟩ := Prod.mk.inj (Option.some.inj hstep)
      refine ⟨[], h, some i, ?_, ?_, by simp⟩
      · rw [List.append_nil]
        exact inv.lock hc hphase hu (by simpa using hfree)
      · -- the mutex is free, so nobody is in the section
        refine (refusal_of_not fun href => ?_).symm
        obtain ⟨d, hd, hin⟩ := (hrefuses.1 href).2
        obtain ⟨j, hj⟩ := List.mem_iff_getElem?.1 hd
        exact hfree (inv.holder_eq hj hin).2.2.1.locked
  · rename_i hu
    split at hstep
    · rename_i hcount
      obtain ⟨rfl, rfl⟩ := Prod.mk.inj (Option.some.inj hstep)
      refine ⟨[entryOf i c _ false], h, holder, inv.settle hc hout hnone ?_,
        (refusal_of_not fun href => hu (hrefuses.1 href).1).symm, by simp [entryOf]⟩
      show handleRequest X c.clocks c.request h = _
      rw [handleRequest_read _ (by simpa using hu)]
      refine Prod.ext (congrArg (answer c.request) (replyOf_congr _ fun m hm => ?_)) rfl
      rw [hcount] at hm
      exact absurd hm (Nat.not_lt_zero m)
    · cases hstep

/-- **Every step** extends the history, by an upload that is refused exactly if it comes while
another one is in its section. -/
theorem Invariant.step {a : Action} (hstep : Steps X s a t) (hsep : reads → Separate s a) :
    ∃ more h' holder', Invariant X reads h₀ t (history ++ more) h' holder' ∧
      refusals more = s.refusal a ∧
      ∀ e ∈ more, e.during = true → isUpload e.request = true ∧ s.Refuses a := by
  have hfree {more : List Entry} (hmore : ∀ e ∈ more, e.during = false) (href : ¬ s.Refuses a) :
      refusals more = s.refusal a ∧
        ∀ e ∈ more, e.during = true → isUpload e.request = true ∧ s.Refuses a := by
    rw [refusal_of_not href]
    refine ⟨?_, fun e he hduring => by cases hduring.symm.trans (hmore e he)⟩
    rw [refusals, List.filter_eq_nil_iff.2 fun e he => by rw [hmore e he]; exact Bool.false_ne_true]
    rfl
  cases a with
  | call request clocks =>
    cases hstep
    exact ⟨[], h, holder, by rw [List.append_nil]; exact inv.call request clocks, rfl, by simp⟩
  | read i k =>
    obtain ⟨c, hc, hstep⟩ := Option.bind_eq_some_iff.1 hstep
    obtain ⟨p, hp, hstep⟩ := Option.bind_eq_some_iff.1 hstep
    cases hstep
    obtain ⟨more, inv', hmore⟩ := inv.read hc hp hsep
    exact ⟨more, h, holder, inv', hfree hmore id⟩
  | advance i =>
    obtain ⟨c, hc, hstep⟩ := Option.bind_eq_some_iff.1 hstep
    obtain ⟨⟨now, p⟩, hadv, hstep⟩ := Option.bind_eq_some_iff.1 hstep
    cases hstep
    have hlater (hne : c.phase ≠ .started) : ¬ s.Refuses (.advance i) := by
      rintro ⟨href, -⟩
      rw [hc, Option.any_some, Bool.and_eq_true] at href
      cases hp : c.phase with
      | started => exact hne hp
      | _ =>
        rw [hp] at href
        exact absurd href.2 Bool.false_ne_true
    cases hphase : c.phase with
    | started => exact inv.start hc hphase hadv
    | unlocking r =>
      simp only [UserCall.advance, hphase, Option.some.injEq, Prod.mk.injEq] at hadv
      obtain ⟨rfl, rfl⟩ := hadv
      exact ⟨[], h, none, by rw [List.append_nil]; exact inv.unlock hc hphase,
        hfree (by simp) (hlater (by rw [hphase]; exact fun h => by cases h))⟩
    | reading loops => simp [UserCall.advance, hphase] at hadv
    | ended r => simp [UserCall.advance, hphase] at hadv
    | dangling => simp [UserCall.advance, hphase] at hadv
    | _ =>
      obtain ⟨more, h', holder', inv', hmore⟩ := inv.section hc (by rw [hphase]; trivial)
        (by rw [hphase]; rfl) hadv fun hreads hacc =>
          hsep hreads (by rw [hc, Option.any_some, hacc])
      exact ⟨more, h', holder', inv',
        hfree hmore (hlater (by rw [hphase]; exact fun h => by cases h))⟩

end

/-! ## Runs -/

theorem Invariant.initial (X : Externals) (reads : Prop) (h₀ : UserHandler) :
    Invariant X reads h₀ { handler := h₀ } [] h₀ none where
  served := .nil h₀
  recorded := {
    nodup := List.nodup_nil
    sound := fun e he => (by cases he)
    complete := fun i c hc => (by cases hc) }
  holds := ⟨rfl, fun j d hd => (by cases hd)⟩
  fine j d hd := by cases hd
  apart _ j k c d hc := by cases hc

/-- Where no upload is under way, the handler is the sequential one. -/
theorem Invariant.handler_eq {holder : Option Nat} (inv : Invariant X reads h₀ s history h holder)
    (hno : ∀ c ∈ s.calls, ¬ c.phase.InSection) : s.handler = h := by
  have hholds := inv.holds
  cases holder with
  | none => exact hholds.1
  | some k =>
    obtain ⟨-, ⟨c, hc, hsec⟩, -⟩ := hholds
    exact absurd hsec.inSection (hno c (List.mem_of_getElem? hc))

/-- No loop reads behind the end of the vector. -/
theorem Invariant.not_dangling {holder : Option Nat}
    (inv : Invariant X True h₀ s history h holder) : ∀ c ∈ s.calls, c.phase ≠ .dangling := by
  intro c hc hd
  obtain ⟨i, hi⟩ := List.mem_iff_getElem?.1 hc
  have hfine := inv.fine i c hi
  rw [hd] at hfine
  exact hfine trivial

theorem Invariant.explains {holder : Option Nat} (inv : Invariant X reads h₀ s history h holder)
    (hP : ∀ r, P r → isUpload r = true ∨ reads) : Explains X P h₀ history s where
  served := ⟨h, inv.served, inv.handler_eq⟩
  nodup := inv.recorded.nodup
  sound := inv.recorded.sound
  complete i c hc hp := inv.recorded.complete i c hc (hP _ hp)

theorem refusals_append (history more : List Entry) :
    refusals (history ++ more) = refusals history ++ refusals more := by
  rw [refusals, List.filter_append, List.map_append]
  rfl

/-- Along every run the history grows, by the calls that the run refuses among others, and the
invariant holds. -/
theorem invariant_of_run {R : SharedHandler → Action → SharedHandler → Prop}
    (hR : ∀ s a t, R s a t → Steps X s a t ∧ (reads → Separate s a)) {as : List Action}
    (hrun : Path R s as t) (hs : ∃ h holder, Invariant X reads h₀ s history h holder) :
    ∃ more h holder, Invariant X reads h₀ t (history ++ more) h holder ∧
      refusals more = refused X s as := by
  obtain ⟨more, ⟨h, holder, hinv⟩, hmore⟩ := hrun.extends_records (g := refusals)
    (J := fun s history => ∃ h holder, Invariant X reads h₀ s history h holder) rfl refusals_append
    (fun s a t hr => (hR s a t hr).1) (fun s a t history hs hr => by
      obtain ⟨h, holder, hinv⟩ := hs
      obtain ⟨hstep, hsep⟩ := hR s a t hr
      obtain ⟨more, h', holder', hinv', hfirst, -⟩ := hinv.step hstep hsep
      exact ⟨more, ⟨h', holder', hinv'⟩, hfirst⟩) hs
  exact ⟨more, h, holder, hinv, hmore⟩

theorem Served.unique {e : Entry} {h' h'' : UserHandler} (hs : Served X h e h')
    (hs' : Served X h e h'') : h' = h'' := by
  unfold Served at hs hs'
  split at hs
  · rename_i hduring
    rw [if_pos hduring] at hs'
    exact hs.2.trans hs'.2.symm
  · rename_i hduring
    rw [if_neg hduring, hs] at hs'
    exact (Prod.ext_iff.1 hs').2

/-- A step of a call that is made changes its phase alone. -/
theorem step_calls {a : Action} (hcall : ∀ request clocks, a ≠ .call request clocks)
    (hstep : Steps X s a t) :
    ∃ i c p, s.calls[i]? = some c ∧ t.calls = s.calls.set i { c with phase := p } := by
  cases a with
  | call request clocks => exact absurd rfl (hcall request clocks)
  | advance i =>
    obtain ⟨c, hc, hstep⟩ := Option.bind_eq_some_iff.1 hstep
    obtain ⟨⟨now, p⟩, -, hstep⟩ := Option.bind_eq_some_iff.1 hstep
    cases hstep
    exact ⟨i, c, p, hc, rfl⟩
  | read i k =>
    obtain ⟨c, hc, hstep⟩ := Option.bind_eq_some_iff.1 hstep
    obtain ⟨p, -, hstep⟩ := Option.bind_eq_some_iff.1 hstep
    cases hstep
    exact ⟨i, c, p, hc, rfl⟩

/-- **What a step records**: nothing, or the entry of its call, whose response it settles. -/
theorem Invariant.recorded_step {h' : UserHandler} {holder holder' : Option Nat} {more : List Entry}
    (inv : Invariant X True h₀ s history h holder)
    (inv' : Invariant X True h₀ t (history ++ more) h' holder') (hc : s.calls[i]? = some c)
    (ht : t.calls = s.calls.set i { c with phase := p }) :
    (more = [] ∧ h' = h ∧ p.result = c.phase.result) ∨
      ∃ e, more = [e] ∧ e.call = i ∧ Served X h e h' ∧ e.request = c.request ∧
        c.phase.result = none ∧ p.result = some e.response := by
  have hti : t.calls[i]? = some { c with phase := p } := by
    rw [ht]
    exact (getElem?_set_call hc).2 (.inl ⟨rfl, rfl⟩)
  obtain ⟨h₁, hold, hmore⟩ := inv'.served.split
  have hsame : h₁ = h :=
    Path.unique (R := Served X) (fun _ _ _ _ hs hs' => hs.unique hs') hold inv.served
  rw [hsame] at hmore
  have hnodup := inv'.recorded.nodup
  rw [List.map_append, List.nodup_append] at hnodup
  obtain ⟨-, hdistinct, hapart⟩ := hnodup
  -- an entry is new where its call was not settled
  have hnew : ∀ e ∈ more, e.call = i ∧ c.phase.result = none := by
    intro e he
    have hunsettled (d : UserCall) (hd : s.calls[e.call]? = some d) : d.phase.result = none :=
      inv.recorded.unsettled hd (.inr trivial) fun e' he' =>
        hapart _ (List.mem_map_of_mem he') _ (List.mem_map_of_mem he)
    obtain ⟨d, hd, -, -, hres⟩ := inv'.recorded.sound e (List.mem_append_right _ he)
    rw [ht] at hd
    rcases (getElem?_set_call hc).1 hd with ⟨hi, -⟩ | ⟨-, hd⟩
    · exact ⟨hi, hunsettled c (hi ▸ hc)⟩
    · rw [hunsettled d hd] at hres
      cases hres
  cases more with
  | nil =>
    cases hmore
    refine .inl ⟨rfl, rfl, ?_⟩
    rw [List.append_nil] at inv'
    refine Option.ext fun r => ?_
    exact (inv'.recorded.result_iff hti (.inr trivial)).trans
      (inv.recorded.result_iff hc (.inr trivial)).symm
  | cons e rest =>
    obtain ⟨hi, hnone⟩ := hnew e List.mem_cons_self
    have hrest : rest = [] := by
      cases rest with
      | nil => rfl
      | cons e' rest =>
        have hi' := (hnew e' (by simp)).1
        rw [List.map_cons, List.map_cons, hi, hi'] at hdistinct
        simp at hdistinct
    subst hrest
    obtain ⟨d, hd, hrequest, -, hres⟩ :=
      inv'.recorded.sound e (List.mem_append_right _ List.mem_cons_self)
    rw [hi, hti] at hd
    cases hd
    cases hmore with
    | cons hserved hend =>
      cases hend
      exact .inr ⟨e, rfl, hi, hserved, hrequest.symm, hnone, hres⟩

/-- **Uploads are serial**, in every run and whatever else reads the users: at most one is in its
section, and all that have been answered were answered by the sequential handler in one order, which
later steps only extend. Refused as during another one are exactly those whose `try_lock` comes
while that is in its section. -/
theorem uploads_serializable {as bs : List Action} (hs : Path (Steps X) { handler := h₀ } as s)
    (ht : Path (Steps X) s bs t) :
    (∃ history more, Explains X (isUpload · = true) h₀ history s ∧
      refusals history = refused X { handler := h₀ } as ∧
      Explains X (isUpload · = true) h₀ (history ++ more) t ∧
      refusals more = refused X s bs) ∧
    ∀ (i j : Nat) (c d : UserCall), t.calls[i]? = some c → t.calls[j]? = some d →
      c.phase.InSection → d.phase.InSection → i = j := by
  have hR : ∀ s a t, Steps X s a t → Steps X s a t ∧ (False → Separate s a) :=
    fun _ _ _ h => ⟨h, False.elim⟩
  obtain ⟨history, h, holder, hinv, hrefused⟩ :=
    invariant_of_run hR hs ⟨h₀, none, Invariant.initial X False h₀⟩
  obtain ⟨more, h', holder', hinv', hrefused'⟩ := invariant_of_run hR ht ⟨h, holder, hinv⟩
  refine ⟨⟨history, more, hinv.explains fun _ => .inl, hrefused, hinv'.explains fun _ => .inl,
    hrefused'⟩, ?_⟩
  intro i j c d hc hd hin hin'
  exact (hinv'.holder_eq hd hin').2.2.2 i c hc hin

/-- Two uploads of which the second finds the mutex locked, up to the decoding of the first. -/
def twoUploads : List Action :=
  [.call (uploadRequest "users" anaText) noonClocks,
    .call (uploadRequest "users" anaText) noonClocks, .advance 0, .advance 1, .advance 0,
    .advance 0]

def stateAfter (s : SharedHandler) (as : List Action) : SharedHandler :=
  (as.foldlM (step fewTexts) s).getD s

theorem twoUploads_serial :
    (∃ history more,
      Explains fewTexts (isUpload · = true) {} history (stateAfter {} twoUploads) ∧
      refusals history = refused fewTexts {} twoUploads ∧
      Explains fewTexts (isUpload · = true) {} (history ++ more)
        (stateAfter (stateAfter {} twoUploads) (List.replicate 4 (.advance 0))) ∧
      refusals more = refused fewTexts (stateAfter {} twoUploads)
        (List.replicate 4 (.advance 0))) ∧
    ∀ (i j : Nat) (c d : UserCall),
      (stateAfter (stateAfter {} twoUploads) (List.replicate 4 (.advance 0))).calls[i]? = some c →
      (stateAfter (stateAfter {} twoUploads) (List.replicate 4 (.advance 0))).calls[j]? = some d →
      c.phase.InSection → d.phase.InSection → i = j :=
  uploads_serializable (path_of_isSome (by decide +kernel) _) (path_of_isSome (by decide +kernel) _)

/-- **All requests are serial** in a run that lets no loop over the users run while an upload
replaces them, but for the uploads whose `try_lock` comes while another one is in its section, which
are refused; and no loop reads behind the end of the vector. -/
theorem requests_serializable {as bs : List Action}
    (hs : Path (Restrict (Steps X) Separate) { handler := h₀ } as s)
    (ht : Path (Restrict (Steps X) Separate) s bs t) :
    (∃ history more, Explains X (fun _ => True) h₀ history s ∧
      refusals history = refused X { handler := h₀ } as ∧
      Explains X (fun _ => True) h₀ (history ++ more) t ∧
      refusals more = refused X s bs) ∧
    ∀ c ∈ t.calls, ¬ c.phase matches .dangling := by
  have hR : ∀ s a t, Restrict (Steps X) Separate s a t →
      Steps X s a t ∧ (True → Separate s a) := fun _ _ _ h => ⟨h.2, fun _ => h.1⟩
  obtain ⟨history, h, holder, hinv, hrefused⟩ :=
    invariant_of_run hR hs ⟨h₀, none, Invariant.initial X True h₀⟩
  obtain ⟨more, h', holder', hinv', hrefused'⟩ := invariant_of_run hR ht ⟨h, holder, hinv⟩
  refine ⟨⟨history, more, hinv.explains fun _ _ => .inr trivial, hrefused,
    hinv'.explains fun _ _ => .inr trivial, hrefused'⟩, ?_⟩
  intro c hc hd
  have hnot := hinv'.not_dangling c hc
  cases hphase : c.phase with
  | dangling => exact hnot hphase
  | _ => rw [hphase] at hd; cases hd

/-- An upload, and then a request that reads its user while a second upload has the mutex and a
third one is refused. -/
def readBesideUpload : List Action :=
  .call (uploadRequest "users" anaText) noonClocks :: List.replicate 7 (.advance 0) ++
    [.call (requestOf "GET /superusers HTTP/1.1\r\n\r\n") noonClocks,
      .call (uploadRequest "users" numberText) noonClocks, .advance 2, .read 1 0,
      .call (uploadRequest "users" anaText) noonClocks, .advance 3, .read 1 0]

def separatedAfter (s : SharedHandler) (as : List Action) : Option SharedHandler :=
  as.foldlM (fun (s : SharedHandler) a => if s.Separate a then step fewTexts s a else none) s

theorem readBesideUpload_serial :
    ∃ s t, separatedAfter {} readBesideUpload = some s ∧
      separatedAfter s (List.replicate 5 (.advance 2)) = some t ∧
      refused fewTexts {} readBesideUpload = [3] ∧
      (∃ history more, Explains fewTexts (fun _ => True) {} history s ∧
        refusals history = refused fewTexts {} readBesideUpload ∧
        Explains fewTexts (fun _ => True) {} (history ++ more) t ∧
        refusals more = refused fewTexts s (List.replicate 5 (.advance 2))) ∧
      ∀ c ∈ t.calls, ¬ c.phase matches .dangling := by
  have hrun : ((separatedAfter {} readBesideUpload).bind fun s =>
      separatedAfter s (List.replicate 5 (.advance 2))).isSome := by decide +kernel
  obtain ⟨t, ht⟩ := Option.isSome_iff_exists.1 hrun
  obtain ⟨s, hs, ht⟩ := Option.bind_eq_some_iff.1 ht
  exact ⟨s, t, hs, ht, by decide +kernel, requests_serializable (path_restrict_iff_foldlM.2 hs)
    (path_restrict_iff_foldlM.2 ht)⟩

/-! ## The mutex -/

/-- The call was an upload that an exception of simdjson has left. -/
def LeftBy (X : Externals) (request : IRequest) (response : Except Exn HttpResponse) : Prop :=
  isUpload request = true ∧ ∃ e, upload X request = .unreadable e ∧
    response = .error (.simdjsonError e)

/-- An entry locks the mutex for good exactly if an exception has left it. -/
theorem Served.mutex {h h' : UserHandler} {e : Entry} (hserved : Served X h e h') :
    h'.mutex = true ↔ h.mutex = true ∨ LeftBy X e.request e.response := by
  unfold Served at hserved
  by_cases hu : isUpload e.request = true
  · split at hserved
    · obtain ⟨hrun, rfl⟩ := hserved
      rw [handleRequest_busy _ hu rfl] at hrun
      refine ⟨.inl, fun h => h.resolve_right fun ⟨_, err, _, hres⟩ => ?_⟩
      rw [← (Prod.mk.inj hrun).1] at hres
      cases hres
    · cases hm : h.mutex with
      | true =>
        rw [handleRequest_busy _ hu hm] at hserved
        rw [← (Prod.mk.inj hserved).2, hm]
        simp
      | false =>
        obtain ⟨-, hlocks, herr, -⟩ := handlePOSTUsers_free X e.clocks.own e.request hm
        rw [handleRequest_upload _ hu] at hserved
        obtain ⟨hres, rfl⟩ := Prod.mk.inj hserved
        rw [hlocks, locks_iff]
        refine ⟨fun ⟨err, hx⟩ => .inr ⟨hu, err, hx, ?_⟩, fun h => ?_⟩
        · rw [← hres, herr err hx]
          rfl
        · obtain ⟨-, err, hx, -⟩ := h.resolve_left Bool.false_ne_true
          exact ⟨err, hx⟩
  · have hread := handleRequest_read (X := X) e.clocks (Bool.eq_false_iff.2 hu)
    split at hserved
    · rw [hserved.2]
      exact ⟨.inl, fun h => h.resolve_right fun hl => hu hl.1⟩
    · rw [hread] at hserved
      rw [← (Prod.mk.inj hserved).2]
      exact ⟨.inl, fun h => h.resolve_right fun hl => hu hl.1⟩

theorem mutex_of_served (hrun : Path (Served X) h₀ history h) :
    h.mutex = true ↔ h₀.mutex = true ∨ ∃ e ∈ history, LeftBy X e.request e.response := by
  induction hrun with
  | nil => simp
  | cons hserved _ ih =>
    rw [ih, hserved.mutex]
    simp only [List.mem_cons, exists_eq_or_imp, or_assoc]

/-- **The mutex is locked** exactly while an upload is in its section, and for good behind one that
an exception of simdjson has left. -/
theorem mutex_locked_iff (hm : h₀.mutex = false) {as : List Action}
    (hs : Path (Steps X) { handler := h₀ } as s) : s.handler.mutex = true ↔
      (∃ c ∈ s.calls, c.phase.InSection) ∨
        ∃ c ∈ s.calls, ∃ r, c.phase = .ended r ∧ LeftBy X c.request r := by
  have hR (s a t) (h : Steps X s a t) : Steps X s a t ∧ (False → Separate s a) := ⟨h, False.elim⟩
  obtain ⟨history, h, holder, inv, -⟩ :=
    invariant_of_run hR hs ⟨h₀, none, Invariant.initial X False h₀⟩
  have hholds := inv.holds
  have hmutex := mutex_of_served inv.served
  rw [hm, List.nil_append] at hmutex
  cases holder with
  | some k =>
    obtain ⟨-, ⟨c, hc, hsec⟩, -⟩ := hholds
    rw [hsec.locked]
    exact ⟨fun _ => .inl ⟨c, List.mem_of_getElem? hc, hsec.inSection⟩, fun _ => rfl⟩
  | none =>
    obtain ⟨hh, hno⟩ := hholds
    rw [hh, hmutex]
    refine ⟨fun hl => .inr ?_, fun hl => .inr ?_⟩
    · obtain ⟨e, he, hleft⟩ := hl.resolve_left Bool.false_ne_true
      obtain ⟨c, hc, hreq, -, hres⟩ := inv.recorded.sound e he
      refine ⟨c, List.mem_of_getElem? hc, e.response, ?_, hreq ▸ hleft⟩
      have hnot := hno _ c hc
      cases hphase : c.phase with
      | ended r =>
        rw [hphase] at hres
        cases hres
        rfl
      | unlocking r =>
        rw [hphase] at hnot
        exact absurd trivial hnot
      | _ => rw [hphase] at hres; cases hres
    · rcases hl with ⟨c, hc, hin⟩ | ⟨c, hc, r, hphase, hleft⟩
      · obtain ⟨i, hi⟩ := List.mem_iff_getElem?.1 hc
        exact absurd hin (hno i c hi)
      · obtain ⟨i, hi⟩ := List.mem_iff_getElem?.1 hc
        obtain ⟨e, he, rfl⟩ := inv.recorded.complete i c hi (.inl hleft.1) (by rw [hphase]; rfl)
        obtain ⟨d, hd, hreq, -, hres⟩ := inv.recorded.sound e he
        rw [hi] at hd
        cases hd
        rw [hphase] at hres
        cases hres
        exact ⟨e, he, hreq ▸ hleft⟩

theorem twoUploads_locked : (stateAfter {} twoUploads).handler.mutex = true ↔
    (∃ c ∈ (stateAfter {} twoUploads).calls, c.phase.InSection) ∨
      ∃ c ∈ (stateAfter {} twoUploads).calls, ∃ r, c.phase = .ended r ∧
        LeftBy fewTexts c.request r :=
  mutex_locked_iff rfl (path_of_isSome (by decide +kernel) _)

end SharedHandler

end HttpsTest
