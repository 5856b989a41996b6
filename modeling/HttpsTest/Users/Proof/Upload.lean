import HttpsTest.Lib.Runs
import HttpsTest.Users.Handlers

/-!
# Uploads

`upload X request` says what a `POST /users` does, from the request alone: its multipart body is
rejected, simdjson refuses the text of its `users` part, an element fails to decode after some
users, or all are decoded. `handlePOSTUsers_free` is the specification of `handlePOSTUsers` in these
terms, for an unlocked mutex; `handlePOSTUsers_busy` is the other case.

The abstract upload store holds the list of the last upload answered with status 200.
`users_eq_lastUpload_iff`: over a run of requests the stored users agree with it exactly as long as
no upload fails in a way that leaves other users behind. `mutex_free_iff`: the mutex is free after
every request exactly if simdjson refuses none of the texts, and a request is turned away
as a concurrent one exactly if one was refused before it.
-/

set_option autoImplicit false

namespace HttpsTest

open UserInfo

namespace UserHandler

/-! ## What an upload does -/

inductive Upload where
  /-- The multipart body is rejected or has no part. -/
  | rejected
  /-- `iterate` reports an error. -/
  | unreadable (e : ErrorCode)
  /-- Decoding stops at an element behind `users`. -/
  | failed (users : List User)
  | complete (users : List User)
  deriving DecidableEq

def upload (X : Externals) (request : IRequest) : Upload :=
  match MultipartBodyParser.accepted (request.getHeader "Content-Type") request.body with
  | none => .rejected
  | some parts =>
    match X.iterate (parts.get "users") with
    | .error e => .unreadable e
    | .ok doc =>
      match doc.getVector getUser [] with
      | (some _, users) => .failed users
      | (none, users) => .complete users

namespace Upload

/-- The status of the response, `none` where the handler throws. -/
def status : Upload → Option Int
  | rejected => some 400
  | unreadable _ => none
  | failed _ => some 400
  | complete _ => some 200

/-- The users stored afterwards. -/
def usersAfter (old : List User) : Upload → List User
  | rejected => old
  | unreadable _ => []
  | failed users => users
  | complete users => users

/-- An upload that fails behind the multipart parser keeps the users only where it leaves those
already stored. -/
def Keeps (old : List User) : Upload → Prop
  | rejected => True
  | unreadable _ => old = []
  | failed users => old = users
  | complete _ => True

instance (old : List User) : DecidablePred (Keeps old)
  | rejected => inferInstanceAs (Decidable True)
  | unreadable _ => inferInstanceAs (Decidable (old = []))
  | failed users => inferInstanceAs (Decidable (old = users))
  | complete _ => inferInstanceAs (Decidable True)

/-- The mutex stays locked. -/
def locks : Upload → Bool
  | unreadable _ => true
  | _ => false

end Upload

/-- The body of the response to a request that finds the mutex locked. -/
def busyText : Bytes :=
  "\x7b\"message\": \"Another request is being processed, please try again later.\"\x7d"

/-- `parseUsers` onto the cleared vector. -/
theorem parseUsers_eq (X : Externals) (text : Bytes) :
    parseUsers X text [] = match X.iterate text with
      | .error e => (.error (.simdjsonError e), [])
      | .ok doc => (.ok (doc.getVector getUser []).1.isNone, (doc.getVector getUser []).2) := by
  unfold parseUsers
  cases X.iterate text with
  | error e => rfl
  | ok doc =>
    rcases hd : doc.getVector getUser [] with ⟨_ | e, users⟩ <;> simp only [hd] <;> rfl

/-- The end of a handler keeps the status of the response and dumps its body. -/
theorem finish_body {X : Externals} {c : Clock} {res r : HttpResponse} {js : Json}
    (hf : finish X c res js = .ok r) :
    r.statusCode = res.statusCode ∧ ∃ j, X.dump j = .ok r.body := by
  unfold finish at hf
  obtain ⟨j, -, hf⟩ := bind_ok hf
  obtain ⟨text, ht, hf⟩ := bind_ok hf
  cases hf
  exact ⟨rfl, j, ht⟩

section
variable (X : Externals) (c : Clock) (request : IRequest) {h : UserHandler}

/-- A locked mutex turns the request away and changes nothing. -/
theorem handlePOSTUsers_busy (hm : h.mutex = true) :
    ∃ r, handlePOSTUsers X c request h = (.ok r, h) ∧ r.statusCode = 400 ∧ r.body = busyText := by
  refine ⟨_, by unfold handlePOSTUsers; rw [if_pos hm], rfl, rfl⟩

/-- What a request does that finds the mutex free: the users it leaves, whether the mutex stays
locked, and the outcome as far as serialisation succeeds. -/
theorem handlePOSTUsers_free (hm : h.mutex = false) :
    (handlePOSTUsers X c request h).2.users = (upload X request).usersAfter h.users ∧
      (handlePOSTUsers X c request h).2.mutex = (upload X request).locks ∧
      (∀ e, upload X request = .unreadable e →
        (handlePOSTUsers X c request h).1 = .error (.simdjsonError e)) ∧
      (∀ r, (handlePOSTUsers X c request h).1 = .ok r →
        (upload X request).status = some r.statusCode ∧ ∃ j, X.dump j = .ok r.body) := by
  obtain ⟨hok, hparts⟩ := MultipartBodyParser.parse_spec h.bodyParser
    (request.getHeader "Content-Type") request.body
  unfold handlePOSTUsers upload
  rw [hm, if_neg Bool.false_ne_true]
  simp only [hok]
  cases ha : MultipartBodyParser.accepted (request.getHeader "Content-Type") request.body with
  | none =>
    refine ⟨rfl, rfl, nofun, ?_⟩
    intro r hr
    obtain ⟨hs, hj⟩ := finish_body hr
    exact ⟨by rw [hs]; rfl, hj⟩
  | some parts =>
    simp only [Option.isSome_some, MultipartBodyParser.getValue, hparts parts ha, parseUsers_eq]
    cases X.iterate (parts.get "users") with
    | error e => exact ⟨rfl, rfl, fun e' he => (by cases he; rfl), nofun⟩
    | ok doc =>
      rcases hd : doc.getVector getUser [] with ⟨_ | e, users⟩
      all_goals
        simp only [hd]
        refine ⟨rfl, rfl, nofun, ?_⟩
        intro r hr
        obtain ⟨js, -, hr⟩ := bind_ok hr
        obtain ⟨hs, hj⟩ := finish_body hr
        exact ⟨by rw [hs]; rfl, hj⟩

end

/-! ## Serialisation succeeds -/

theorem validUtf8_timestamp (t : UtcTime) : ValidUtf8 (getCurrentUtcTimestamp t) :=
  validUtf8_bytes _

theorem setDefaultBody_returns (c : Clock) {js : Json} (h : js.IsObject) :
    ∃ j, setDefaultBody c js = .ok j ∧ j.IsObject :=
  bind_returns (h.set (validUtf8_bytes _) (.integer _)) fun _ hj =>
    hj.set (validUtf8_bytes _) (.string (validUtf8_timestamp _))

theorem finish_returns {X : Externals} (hX : X.Lawful) (c : Clock) (res : HttpResponse) {js : Json}
    (h : js.IsObject) : ∃ r, finish X c res js = .ok r := by
  obtain ⟨j, hj, ho⟩ := setDefaultBody_returns c h
  obtain ⟨t, ht⟩ := hX.dump_utf8 j ho.utf8
  exact ⟨_, by unfold finish; rw [hj]; show X.dump j >>= _ = _; rw [ht]; rfl⟩

theorem uploadReply_returns (message : String) (n : Int) :
    ∃ j, uploadReply (bytes message) n = .ok j ∧ j.IsObject :=
  bind_returns (Json.IsObject.null.set (validUtf8_bytes _) (.string (validUtf8_bytes _)))
    fun _ hj => hj.set (validUtf8_bytes _) (.integer _)

/-- A request that finds the mutex free throws only where simdjson refuses its text. -/
theorem handlePOSTUsers_returns {X : Externals} (hX : X.Lawful) (c : Clock) (request : IRequest)
    {h : UserHandler} (hm : h.mutex = false) (hu : ∀ e, upload X request ≠ .unreadable e) :
    ∃ r, (handlePOSTUsers X c request h).1 = .ok r := by
  obtain ⟨hok, hparts⟩ := MultipartBodyParser.parse_spec h.bodyParser
    (request.getHeader "Content-Type") request.body
  unfold handlePOSTUsers
  unfold upload at hu
  rw [hm, if_neg Bool.false_ne_true]
  simp only [hok]
  cases ha : MultipartBodyParser.accepted (request.getHeader "Content-Type") request.body with
  | none => exact finish_returns hX c _ .null
  | some parts =>
    simp only [ha] at hu
    simp only [Option.isSome_some, MultipartBodyParser.getValue, hparts parts ha, parseUsers_eq]
    cases hi : X.iterate (parts.get "users") with
    | error e =>
      rw [hi] at hu
      exact absurd rfl (hu e)
    | ok doc =>
      rcases hd : doc.getVector getUser [] with ⟨_ | e, users⟩
      all_goals
        simp only [hd]
        obtain ⟨r, hr, -⟩ := bind_returns (Q := fun _ => True) (uploadReply_returns _ _)
          fun js hjs => (finish_returns hX c _ hjs).imp fun r hr => ⟨hr, trivial⟩
        exact ⟨r, hr⟩

/-! ## Libraries for a few texts -/

/-- One user, as `/users` receives it. -/
def anaText : Bytes :=
  bytes "[\x7b\"id\":\"1\",\"name\":\"Ana\",\"age\":30,\"score\":950,\"active\":true," ++
    bytes "\"country\":\"BR\",\"team\":\x7b\"name\":\"A\",\"leader\":false,\"projects\":[]\x7d," ++
    bytes "\"logs\":[]\x7d]\r\n"

/-- What simdjson reads in `anaText`. -/
def anaDocument : Ondemand.Value :=
  .array [.object [("id", .string "1"), ("name", .string "Ana"), ("age", .integer 30),
    ("score", .integer 950), ("active", .boolean true), ("country", .string "BR"),
    ("team", .object [("name", .string "A"), ("leader", .boolean false), ("projects", .array [])]
      none),
    ("logs", .array [])] none]

/-- A user that is a number. -/
def numberText : Bytes := "[7]\r\n"

/-- simdjson on the three texts of the requests below. -/
def iterateFew (text : Bytes) : Except ErrorCode Ondemand.Value :=
  if text = anaText then .ok anaDocument
  else if text = numberText then .ok (.array [.integer 7])
  else if text = [] then .error .empty
  else .error .tapeError

/-- `,"key":value` for a member that is a number or a plain string. -/
def dumpMember (j : Json) (key : Bytes) : Bytes :=
  match j.member key with
  | .ok (.integer n) => bytes ",\"" ++ key ++ bytes "\":" ++ decimal n
  | .ok (.string s) => bytes ",\"" ++ key ++ bytes "\":\"" ++ s ++ bytes "\""
  | _ => []

/-- `dump` on the replies to uploads, whose members come in the order of their keys. -/
def dumpReply (j : Json) : Bytes :=
  bytes "\x7b\"execution_time_ms\":" ++
    (match j.member "execution_time_ms" with
      | .ok (.integer n) => decimal n
      | _ => "null") ++
    dumpMember j "message" ++ dumpMember j "timestamp" ++ dumpMember j "user_count" ++ bytes "\x7d"

def fewTexts : Externals where
  iterate := iterateFew
  dump j := .ok (dumpReply j)
  parseJson _ := .ok .null
  what _ := "[json.exception.type_error.305]"
  hashOrder := .listed
  sortByTotal l := l.mergeSort fun a b => decide (b.2 ≤ a.2)
  sort_perm l := List.mergeSort_perm l _
  sort_sorted l := by
    simpa using @List.pairwise_mergeSort _ (fun a b : Bytes × Int => decide (b.2 ≤ a.2))
      (fun a b c hab hbc => by simp only [decide_eq_true_eq] at *; omega)
      (fun a b => by simp only [Bool.or_eq_true, decide_eq_true_eq]; omega) l

theorem fewTexts_lawful : fewTexts.Lawful where
  dump_utf8 _ _ := ⟨_, rfl⟩
  parse_dump _ _ _ := ⟨_, rfl, .null⟩
  what_typeError _ := validUtf8_bytes _

theorem fewTexts_dump (j : Json) (t : Bytes) (h : fewTexts.dump j = .ok t) : t ≠ busyText := by
  cases h
  intro heq
  -- the third bytes differ: the reply starts with its execution time
  have h2 : some (101 : UInt8) = busyText[2]? := congrArg (·[2]?) heq
  exact absurd h2 (by decide)

/-- The body of an upload with one part. -/
def uploadBody (part text : Bytes) : Bytes :=
  bytes "--b\r\nContent-Disposition: form-data; name=\"" ++ part ++ bytes "\"\r\n\r\n" ++ text ++
    bytes "--b--\r\n"

/-- The request as it comes over the wire. -/
def uploadBytes (part text : Bytes) : Bytes :=
  bytes "POST /users HTTP/1.1\r\nContent-Type: multipart/form-data; boundary=b\r\n" ++
    bytes "Content-Length: " ++ decimal (uploadBody part text).length ++ crlfcrlf ++
      uploadBody part text

def requestOf (raw : Bytes) : IRequest := (RequestFactory.parse raw).toOption.getD .command

def uploadRequest (part text : Bytes) : IRequest := requestOf (uploadBytes part text)

def noon : Clock := { durationMs := 0, now := ⟨2025, 1, 1, 12, 0, 0⟩ }

def noonClocks : Clocks := { own := noon, evaluation := ⟨noon, noon, noon, noon⟩ }

/-! ## The users are those of the last upload -/

/-- `POST /users`. -/
def IsPost (request : IRequest) : Prop :=
  request.method = bytes "POST" ∧ request.uri = bytes "/users"

instance (request : IRequest) : Decidable (IsPost request) := inferInstanceAs (Decidable (_ ∧ _))

theorem handleRequest_post {X : Externals} {c : Clocks} {request : IRequest} {h : UserHandler}
    (hp : IsPost request) : handleRequest X c request h =
      ((handlePOSTUsers X c.own request h).1.map (·.sethttpVersion request.getVersion),
        (handlePOSTUsers X c.own request h).2) := by
  unfold IsPost at hp
  unfold handleRequest
  rw [if_pos hp]

/-- Every other request leaves the handler as it is. -/
theorem handleRequest_other {X : Externals} {c : Clocks} {request : IRequest} {h : UserHandler}
    (hp : ¬ IsPost request) : (handleRequest X c request h).2 = h := by
  unfold IsPost at hp
  unfold handleRequest
  rw [if_neg hp]
  split_ifs <;> rfl

/-- Once locked, the mutex stays locked. -/
theorem handleRequest_locked {X : Externals} {c : Clocks} {request : IRequest} {h : UserHandler}
    (hm : h.mutex = true) : (handleRequest X c request h).2.mutex = true := by
  by_cases hp : IsPost request
  · obtain ⟨r, hr, -⟩ := handlePOSTUsers_busy X c.own request hm
    rw [handleRequest_post hp, hr]
    exact hm
  · rwa [handleRequest_other hp]

/-- The list decoded from an upload. -/
def decoded (X : Externals) (request : IRequest) : List User :=
  match upload X request with
  | .complete users => users
  | _ => []

/-- The request was an upload and was answered with status 200. -/
def Accepted (request : IRequest) (outcome : Except Exn HttpResponse) : Prop :=
  IsPost request ∧ outcome.toOption.map (·.statusCode) = some 200

instance (request : IRequest) (outcome : Except Exn HttpResponse) :
    Decidable (Accepted request outcome) := inferInstanceAs (Decidable (_ ∧ _))

/-- A request to the handler, beside the abstract store: the list decoded from the last upload
answered with status 200. -/
def serve (X : Externals) (s : UserHandler × List User) (i : IRequest × Clocks) :
    UserHandler × List User :=
  let (outcome, h) := handleRequest X i.2 i.1 s.1
  (h, if Accepted i.1 outcome then decoded X i.1 else s.2)

/-- The request is no upload, or finds the mutex locked, or keeps the users. -/
def KeepsUsers (X : Externals) (h : UserHandler) (request : IRequest) : Prop :=
  IsPost request → h.mutex = false → (upload X request).Keeps h.users

instance (X : Externals) (h : UserHandler) (request : IRequest) :
    Decidable (KeepsUsers X h request) := inferInstanceAs (Decidable (_ → _ → _))

/-- One request: the stored users go on agreeing with the abstract store exactly if the request
keeps them. -/
theorem serve_exact {X : Externals} (hX : X.Lawful) {s : UserHandler × List User}
    (i : IRequest × Clocks) (hs : s.1.users = s.2) :
    (serve X s i).1.users = (serve X s i).2 ↔ KeepsUsers X s.1 i.1 := by
  obtain ⟨h, last⟩ := s
  obtain ⟨request, c⟩ := i
  simp only at hs
  subst hs
  simp only [serve, KeepsUsers]
  by_cases hp : IsPost request
  · simp only [handleRequest_post hp, hp, true_implies, Accepted, true_and]
    cases hm : h.mutex with
    | true =>
      obtain ⟨r, hr, hs, -⟩ := handlePOSTUsers_busy X c.own request hm
      simp [hr, Except.map, Except.toOption, hs]
    | false =>
      obtain ⟨husers, -, herr, hok⟩ := handlePOSTUsers_free X c.own request hm
      rw [husers]
      cases hu : upload X request with
      | unreadable e =>
        simp [herr e hu, Except.map, Except.toOption, Upload.usersAfter, Upload.Keeps, eq_comm]
      | rejected | failed users | complete users =>
        obtain ⟨r, hr⟩ := handlePOSTUsers_returns hX c.own request hm fun e => by rw [hu]; nofun
        have hst := (hok r hr).1
        rw [hu, Upload.status, Option.some.injEq] at hst
        simp [hr, Except.map, Except.toOption, ← hst, decoded, hu, Upload.usersAfter, Upload.Keeps,
          eq_comm]
  · simp [handleRequest_other hp, hp, Accepted]

/-- **The stored users are the list of the last accepted upload** in every state of a run exactly if
every upload of the run that is not answered with 200 keeps the users. -/
theorem users_eq_lastUpload_iff {X : Externals} (hX : X.Lawful) (is : List (IRequest × Clocks)) :
    Runs.Always (serve X) (fun s => s.1.users = s.2) ({}, []) is ↔
      Runs.Meets (serve X) (fun s i => KeepsUsers X s.1 i.1) ({}, []) is :=
  Runs.always_iff_meets (J := fun _ => True) (fun _ _ _ => trivial)
    (fun _ i _ hs => serve_exact hX i hs) trivial rfl

/-- A rejected upload keeps the users of the accepted one before it. -/
theorem users_after_rejected :
    Runs.Always (serve fewTexts) (fun s => s.1.users = s.2) ({}, [])
      [(uploadRequest "users" anaText, noonClocks),
        (requestOf "POST /users HTTP/1.1\r\n\r\n", noonClocks)] :=
  (users_eq_lastUpload_iff fewTexts_lawful _).2 (by decide +kernel)

/-- An upload whose only element is a number is answered with status 400 and drops the users stored
before. -/
theorem users_lost_by_failed_upload :
    (handleRequest fewTexts noonClocks (uploadRequest "users" numberText)
        (handleRequest fewTexts noonClocks (uploadRequest "users" anaText) {}).2).1.toOption.map
        (·.statusCode) = some 400 ∧
      ¬ Runs.Always (serve fewTexts) (fun s => s.1.users = s.2) ({}, [])
        [(uploadRequest "users" anaText, noonClocks),
          (uploadRequest "users" numberText, noonClocks)] := by
  refine ⟨by decide +kernel, by decide +kernel⟩

/-! ## The mutex -/

/-- A run of uploads. -/
def post (X : Externals) (h : UserHandler) (i : IRequest × Clock) : UserHandler :=
  (handlePOSTUsers X i.2 i.1 h).2

theorem mutex_post (X : Externals) (h : UserHandler) (i : IRequest × Clock) :
    (post X h i).mutex = (h.mutex || (upload X i.1).locks) := by
  unfold post
  cases hm : h.mutex with
  | true =>
    obtain ⟨r, hr, -⟩ := handlePOSTUsers_busy X i.2 i.1 hm
    rw [hr]
    exact hm
  | false => exact (handlePOSTUsers_free X i.2 i.1 hm).2.1

/-- The mutex is locked after a run exactly if it was before, or some text was refused. -/
theorem mutex_after (X : Externals) :
    ∀ (is : List (IRequest × Clock)) (h : UserHandler),
      (Runs.after (post X) h is).mutex = (h.mutex || is.any fun i => (upload X i.1).locks)
  | [], h => by simp
  | i :: is, h => by
    rw [Runs.after_cons, mutex_after X is, mutex_post, List.any_cons, Bool.or_assoc]

/-- The text of a refused upload cannot be read. -/
def Refused (X : Externals) (request : IRequest) : Prop := ∃ e, upload X request = .unreadable e

theorem locks_iff {X : Externals} {request : IRequest} :
    (upload X request).locks = true ↔ Refused X request := by
  unfold Refused
  cases upload X request <;> simp [Upload.locks]

instance (X : Externals) (request : IRequest) : Decidable (Refused X request) :=
  decidable_of_iff _ locks_iff

/-- The request was answered as a concurrent one. -/
def AnsweredBusy (outcome : Except Exn HttpResponse) : Prop :=
  ∃ r, outcome = .ok r ∧ r.body = busyText

/-- **A request is turned away exactly if the mutex is locked.** -/
theorem answeredBusy_iff {X : Externals} (hb : ∀ j t, X.dump j = .ok t → t ≠ busyText) {c : Clock}
    {request : IRequest} {h : UserHandler} :
    AnsweredBusy (handlePOSTUsers X c request h).1 ↔ h.mutex = true := by
  refine ⟨fun ⟨r, hr, hbody⟩ => ?_, fun hm => ?_⟩
  · by_contra hm
    obtain ⟨-, -, -, hok⟩ := handlePOSTUsers_free X c request
      (Bool.not_eq_true _ ▸ hm)
    obtain ⟨-, j, hj⟩ := hok r hr
    exact hb j _ hj hbody
  · obtain ⟨r, hr, -, hbody⟩ := handlePOSTUsers_busy X c request hm
    exact ⟨r, by rw [hr], hbody⟩

/-- **The mutex is free after every request of a run** exactly if no text is refused, and a request
of the run is turned away exactly if a text was refused before it. -/
theorem mutex_free_iff {X : Externals} (hb : ∀ j t, X.dump j = .ok t → t ≠ busyText)
    (is : List (IRequest × Clock)) :
    (Runs.Always (post X) (fun h => h.mutex = false) {} is ↔ ∀ i ∈ is, ¬ Refused X i.1) ∧
      ∀ pre i rest, is = pre ++ i :: rest →
        (AnsweredBusy (handlePOSTUsers X i.2 i.1 (Runs.after (post X) {} pre)).1 ↔
          ∃ j ∈ pre, Refused X j.1) := by
  constructor
  · refine Iff.trans (Runs.always_iff_meets (J := fun _ => True) (fun _ _ _ => trivial)
      (fun h i _ hm => ?_) trivial rfl) Runs.meets_iff_forall
    rw [mutex_post, hm, ← locks_iff, Bool.false_or, Bool.not_eq_true]
  · intro pre i rest _
    rw [answeredBusy_iff hb, mutex_after]
    simp [locks_iff]

theorem mutex_free_after_upload :
    Runs.Always (post fewTexts) (fun h => h.mutex = false) {}
      [(uploadRequest "users" anaText, noon)] :=
  ((mutex_free_iff fewTexts_dump _).1).2 fun i hi => by
    rw [List.mem_singleton.1 hi, ← locks_iff]
    decide +kernel

/-- An upload without a part `users` leaves the mutex locked: the next one is turned away. -/
theorem mutex_locked_by_missing_part :
    ¬ Runs.Always (post fewTexts) (fun h => h.mutex = false) {}
        [(uploadRequest "file" anaText, noon)] ∧
      AnsweredBusy (handlePOSTUsers fewTexts noon (uploadRequest "users" anaText)
        (post fewTexts {} (uploadRequest "file" anaText, noon))).1 := by
  refine ⟨by decide +kernel, (answeredBusy_iff fewTexts_dump).2 (by decide +kernel)⟩

end UserHandler

end HttpsTest
