import HttpsTest.Http.Proof.FormEncoding
import HttpsTest.Server.ConcurrentClients
import HttpsTest.Server.Proof.Clients
import HttpsTest.Server.Proof.IoThreads
import HttpsTest.Users.Proof.Arrays
import HttpsTest.Users.Proof.Documents

/-!
# From an upload to the queries behind it

What a client uploads is what the queries behind it list. `UsersUpload`: a request whose form holds
a JSON text of a list of users. `answersUploads_of_path`: where requests are served one after the
other, such an upload is confirmed with the number of its users, and up to the next upload each
endpoint answers with the rows of these users.
-/

set_option autoImplicit false

namespace HttpsTest

open UserInfo UserHandler Runs

/-! ## Endpoints -/

namespace Endpoint

def path : Endpoint → Bytes
  | superusers => "/superusers"
  | topCountries => "/top-countries"
  | teamInsights => "/team-insights"
  | activeUsers => "/active-users-per-day"

/-- What the endpoint lists. -/
def rows (X : Externals) (users : List User) : Endpoint → List Json
  | superusers => (UserHandler.superusers users).map fun user => .string user.name
  | topCountries => (UserHandler.topCountries X users).map countryRow
  | teamInsights => (UnorderedMap.items X.hashOrder (teamCounts users)).map teamRow
  | activeUsers => (UnorderedMap.items X.hashOrder (loginCounts users)).map loginRow

/-- The request asks for the endpoint. -/
def Asked (e : Endpoint) (request : IRequest) : Prop :=
  request.method = bytes "GET" ∧ request.uri = e.path

variable {X : Externals} {users : List User} (e : Endpoint)

theorem answers (X : Externals) (c : Clock) (users : List User) :
    AnswersRows X users (e.handler · c users) e.field (e.rows X users) := by
  cases e with
  | superusers => exact superusers_rows X c users
  | topCountries => exact topCountries_rows X c users
  | teamInsights => exact teamInsights_rows X c users
  | activeUsers => exact activeUsers_rows X c users

theorem statusCode {c : Clock} {r : HttpResponse} (hr : e.handler X c users = .ok r) :
    r.statusCode = 200 := by
  have hends : ∃ res : HttpResponse, res.statusCode = 200 ∧
      EndsWith res (e.handler X c users) := by
    cases e with
    | superusers => exact ⟨_, rfl, .bind fun _ => .bind fun _ => endsWith_finish⟩
    | _ => exact ⟨_, rfl, .bind fun _ => endsWith_finish⟩
  obtain ⟨res, hstatus, hends⟩ := hends
  obtain ⟨text, rfl⟩ := hends r hr
  exact hstatus

/-- The user handler answers with the handler of the endpoint. -/
theorem handleRequest_asked {c : Clocks} {request : IRequest} {h : UserHandler}
    (hasked : e.Asked request) : handleRequest X c request h =
      ((e.handler X c.own h.users).map (·.sethttpVersion request.getVersion), h) := by
  unfold handleRequest
  rw [hasked.1, hasked.2]
  cases e <;> rfl

theorem route_asked {request : IRequest} (hasked : e.Asked request) :
    router.route request = some .userHandler := by
  unfold RequestRouter.route
  rw [hasked.1, hasked.2]
  cases e <;> rfl

end Endpoint

/-! ## Uploads -/

/-- A client uploads users: one content of the form that it sends is a JSON text of them, which
simdjson reads with the line end behind it. -/
structure UsersUpload (X : Externals) (users : List User) (p : RequestParts) where
  form : MultipartBodyParser.Form
  text : Bytes
  document : Ondemand.Value
  post : p.method = bytes "POST" ∧ p.path = bytes "/users"
  typed : (bytes "Content-Type", form.contentType) ∈ p.headers
  body : p.body = form.body
  uncut : ∀ part ∈ form.parts, ¬ form.delimiter <:+: part.1 ++ bytes "\""
  content : (bytes "users", text) ∈ form.parts
  read : X.iterate (text ++ crlf) = .ok document
  encodes : EncodesArray EncodesUser users document

namespace UsersUpload

variable {X : Externals} {users : List User} {p : RequestParts} (u : UsersUpload X users p)
include u

theorem isPost : IsPost p.request := u.post

/-- The form is found in the request. -/
theorem accepted : ∃ parts, MultipartBodyParser.accepted (p.request.getHeader "Content-Type")
    p.request.body = some parts ∧ parts.get "users" = u.text ++ crlf := by
  have htype : p.request.getHeader "Content-Type" = u.form.contentType := by
    show ((Filling.insertAll ∅ p.headers : StringMap).lookup _).getD [] = _
    rw [Filling.lookup_insertAll_of_nodup p.names_distinct u.typed, Option.getD_some]
  have hbody : p.request.body = u.form.body := u.body
  obtain ⟨hform, hvalues, -⟩ := MultipartBodyParser.parse_form {} u.form u.uncut
  have hsome : u.form.parts.isEmpty = false := by
    simpa using List.ne_nil_of_mem u.content
  have hvalue := hvalues _ u.content
  rw [htype, hbody]
  unfold MultipartBodyParser.accepted
  rcases hparse : MultipartBodyParser.parse {} u.form.contentType u.form.body with ⟨res, q⟩
  simp only [hparse, hsome, Bool.not_false] at hform hvalue
  subst hform
  exact ⟨q.parts, rfl, hvalue⟩

/-- **The upload is decoded** to the users. -/
theorem upload_eq : upload X p.request = .complete users := by
  obtain ⟨parts, haccepted, hget⟩ := u.accepted
  obtain ⟨vs, hdocument, hvs⟩ := u.encodes
  have hall : u.document.getVector getUser [] = (none, users) := by
    rw [hdocument]
    exact Ondemand.appendAll_forall₂ getUser_encodes hvs []
  unfold upload
  simp only [haccepted, hget, u.read, hall]

theorem users_utf8 : ∀ user ∈ users, user.Utf8 := by
  have hafter : ∀ user ∈ (upload X p.request).usersAfter [], user.Utf8 :=
    usersAfter_utf8 (by simp)
  rwa [u.upload_eq] at hafter

/-- **The reply** to an upload that finds the mutex free. -/
theorem reply (hX : X.Lawful) {c : Clock} {h : UserHandler} (hm : h.mutex = false) :
    ∃ r js, (handlePOSTUsers X c p.request h).1 = .ok r ∧ r.statusCode = 200 ∧
      X.dump js = .ok r.body ∧
      js.member "message" = .ok (.string "Arquivo recebido com sucesso") ∧
      js.member "user_count" = .ok (.integer users.length) := by
  obtain ⟨parts, haccepted, hget⟩ := u.accepted
  have hparse := parseUsers_encodes u.read u.encodes
  obtain ⟨hok, hparts⟩ := MultipartBodyParser.parse_spec h.bodyParser
    (p.request.getHeader "Content-Type") p.request.body
  obtain ⟨r, hr⟩ := handlePOSTUsers_returns hX c p.request hm fun e => by rw [u.upload_eq]; nofun
  have hfinish : (handlePOSTUsers X c p.request h).1 =
      finish X c (((({} : HttpResponse).setStatusCode 400).sethttpVersion
        p.request.getVersion).setStatusCode 200) (.object
          [("message", .string "Arquivo recebido com sucesso"),
            ("user_count", .integer users.length)]) := by
    unfold handlePOSTUsers
    rw [hm, if_neg Bool.false_ne_true]
    simp only [hok, haccepted, Option.isSome_some, MultipartBodyParser.getValue,
      hparts parts haccepted, hget, hparse]
    rfl
  rw [finish_object, hr] at hfinish
  obtain ⟨hdump, hstatus⟩ := dump_of_setBody hfinish.symm
  refine ⟨r, _, hr, hstatus, hdump, ?_, ?_⟩
  · rw [member_withDefaults c _ (by decide) (by decide)]
    rfl
  · rw [member_withDefaults c _ (by decide) (by decide)]
    rfl

end UsersUpload

/-! ## One request -/

variable {X : Externals} {s s' : HandlerState} {e : Exchange}

/-- An upload whose text simdjson refuses, after which the mutex stays locked. -/
def Locks (X : Externals) (request : IRequest) : Prop := IsPost request ∧ Refused X request

/-- Without a refused upload the mutex is free again. -/
theorem Serves.free (hs : Serves X s e s') (hno : ¬ Locks X e.request.request)
    (hm : s.userHandler.mutex = false) : s'.userHandler.mutex = false := by
  obtain ⟨response, hserve, -⟩ := hs
  have hs' : s' = (mainHandler X e.request.request s).2 := by rw [hserve]
  rcases mainHandler_cases (X := X) e.request.request s with ⟨-, hkept, -⟩ | ⟨hkept, -⟩
  · rw [hs', hkept, hm]
  · rw [hs', hkept]
    by_cases hp : IsPost e.request.request
    · obtain ⟨-, hmutex, -⟩ := handlePOSTUsers_free X (s.clocks 0).own e.request.request hm
      rw [handleRequest_post hp, hmutex, ← Bool.not_eq_true, locks_iff]
      exact fun hrefused => hno ⟨hp, hrefused⟩
    · rw [handleRequest_other hp, hm]

/-- Only an upload changes the users. -/
theorem Serves.users_eq (hs : Serves X s e s') (hp : ¬ IsPost e.request.request) :
    s'.userHandler.users = s.userHandler.users := by
  obtain ⟨response, hserve, -⟩ := hs
  have hs' : s' = (mainHandler X e.request.request s).2 := by rw [hserve]
  rcases mainHandler_cases (X := X) e.request.request s with ⟨-, hkept, -⟩ | ⟨hkept, -⟩
  · rw [hs', hkept]
  · rw [hs', hkept, handleRequest_other hp]

/-- The user handler answers what is routed to it. -/
theorem Serves.userHandler (hs : Serves X s e s')
    (hroute : router.route e.request.request = some .userHandler) :
    s'.userHandler = (s.userHandler.handleRequest X (s.clocks 0) e.request.request).2 ∧
      ∀ r, (s.userHandler.handleRequest X (s.clocks 0) e.request.request).1 = .ok r →
        e.outcome = some (r.message X.hashOrder) := by
  obtain ⟨response, hserve, houtcome⟩ := hs
  have hmain : mainHandler X e.request.request s =
      ((s.userHandler.handleRequest X (s.clocks 0) e.request.request).1.map some,
        { s.tick with
          userHandler := (s.userHandler.handleRequest X (s.clocks 0) e.request.request).2 }) := by
    unfold mainHandler RequestRouter.handleRequest
    rw [hroute]
    rfl
  obtain ⟨rfl, rfl⟩ := Prod.mk.inj (hmain.symm.trans hserve)
  refine ⟨rfl, fun r hr => ?_⟩
  rw [houtcome, hr]
  rfl

/-- **An upload is confirmed**, and stored. -/
theorem Serves.uploaded (hX : X.Lawful) (hs : Serves X s e s') {users : List User}
    (u : UsersUpload X users e.request.toRequestParts) (hm : s.userHandler.mutex = false) :
    s'.userHandler.users = users ∧ ∃ m js, e.outcome = some m ∧ m.code = 200 ∧
      X.dump js = .ok m.body ∧
      js.member "message" = .ok (.string "Arquivo recebido com sucesso") ∧
      js.member "user_count" = .ok (.integer users.length) := by
  obtain ⟨hhandler, houtcome⟩ := hs.userHandler (route_post u.isPost)
  obtain ⟨r, js, hr, hstatus, hdump, hmessage, hcount⟩ := u.reply hX (c := (s.clocks 0).own) hm
  obtain ⟨husers, -⟩ := handlePOSTUsers_free X (s.clocks 0).own e.request.request hm
  rw [handleRequest_post u.isPost] at hhandler houtcome
  have hanswer := houtcome (r.sethttpVersion e.request.request.getVersion) (by rw [hr]; rfl)
  refine ⟨?_, _, js, hanswer, hstatus, hdump, hmessage, hcount⟩
  rw [hhandler, husers, u.upload_eq]
  rfl

/-- **A query is answered** with the rows of the stored users. -/
theorem Serves.asked (hX : X.Lawful) (hs : Serves X s e s') (endpoint : Endpoint)
    (hasked : endpoint.Asked e.request.request) (hu : ∀ u ∈ s.userHandler.users, u.Utf8) :
    ∃ m js, e.outcome = some m ∧ m.code = 200 ∧ X.dump js = .ok m.body ∧
      js.member endpoint.field = .ok (Json.pushed (endpoint.rows X s.userHandler.users)) := by
  obtain ⟨-, houtcome⟩ := hs.userHandler (endpoint.route_asked hasked)
  rw [endpoint.handleRequest_asked hasked] at houtcome
  obtain ⟨js, hanswers, hmember⟩ :=
    endpoint.answers X (s.clocks 0).own s.userHandler.users
  obtain ⟨r, hr⟩ := hanswers.returns hX hu
  obtain ⟨res, hres⟩ := hanswers.dumped
  have hanswer := houtcome (r.sethttpVersion e.request.request.getVersion) (by
    show Except.map _ _ = _
    rw [hr]
    rfl)
  obtain ⟨hdump, -⟩ := dump_of_setBody ((hres X.dump).symm.trans hr)
  have hstatus : r.statusCode = 200 := endpoint.statusCode hr
  exact ⟨_, js, hanswer, hstatus, hdump, hmember⟩

/-! ## Requests one after the other -/

/-- What the clients read behind their uploads. -/
structure AnswersUploads (X : Externals) (history : List Exchange) : Prop where
  /-- An upload is confirmed, with the number of its users, unless one was refused before it. -/
  confirmed : ∀ {front back : List Exchange} {e : Exchange} {users : List User},
    history = front ++ e :: back → (∀ b ∈ front, ¬ Locks X b.request.request) →
    Nonempty (UsersUpload X users e.request.toRequestParts) →
    ∃ m js, e.outcome = some m ∧ m.code = 200 ∧ X.dump js = .ok m.body ∧
      js.member "message" = .ok (.string "Arquivo recebido com sucesso") ∧
      js.member "user_count" = .ok (.integer users.length)
  /-- Up to the next upload, each query lists the rows of its users. -/
  listed : ∀ {front between back : List Exchange} {e q : Exchange} {users : List User}
    (endpoint : Endpoint),
    history = front ++ e :: (between ++ q :: back) →
    (∀ b ∈ front, ¬ Locks X b.request.request) →
    Nonempty (UsersUpload X users e.request.toRequestParts) →
    (∀ b ∈ between, ¬ IsPost b.request.request) → endpoint.Asked q.request.request →
    ∃ m js, q.outcome = some m ∧ m.code = 200 ∧ X.dump js = .ok m.body ∧
      js.member endpoint.field = .ok (Json.pushed (endpoint.rows X users))

variable {h h' : UserHandler}

theorem ServesAlone.serves (hs : ServesAlone X h e h') :
    ∃ s s', s.userHandler = h ∧ s'.userHandler = h' ∧ Serves X s e s' := by
  obtain ⟨clocks, s', hserves, hleft⟩ := hs
  exact ⟨_, s', rfl, hleft, hserves⟩

/-- The state in which an upload of the history is served. -/
theorem free_before {front back : List Exchange} {e : Exchange}
    (hrun : Path (ServesAlone X) h (front ++ e :: back) h') (hm : h.mutex = false)
    (hno : ∀ b ∈ front, ¬ Locks X b.request.request) : ∃ s s', s.userHandler.mutex = false ∧
      Serves X s e s' ∧ Path (ServesAlone X) s'.userHandler back h' := by
  obtain ⟨u, hfront, hback⟩ := hrun.split
  have hfree := hfront.keeps_of_mem (J := fun h => h.mutex = false) (fun b hb _ _ hm hs => by
    obtain ⟨s, s', rfl, rfl, hserves⟩ := hs.serves
    exact hserves.free (hno b hb) hm) hm
  cases hback with
  | cons hs hrest =>
    obtain ⟨s, s', rfl, rfl, hserves⟩ := hs.serves
    exact ⟨s, s', hfree, hserves, hrest⟩

/-- **Queries list what was uploaded**, where requests are served one after the other. -/
theorem answersUploads_of_path (hX : X.Lawful) {history : List Exchange}
    (hrun : Path (ServesAlone X) h history h') (hm : h.mutex = false) :
    AnswersUploads X history where
  confirmed := by
    rintro front back e users rfl hno ⟨u⟩
    obtain ⟨s, s', hfree, hs, -⟩ := free_before hrun hm hno
    exact (hs.uploaded hX u hfree).2
  listed := by
    rintro front between back e q users endpoint rfl hno ⟨u⟩ hbetween hasked
    obtain ⟨s, s', hfree, hs, hrest⟩ := free_before hrun hm hno
    obtain ⟨v, hkept, hback⟩ := hrest.split
    have husers := hkept.keeps_of_mem (J := fun h => h.users = users) (fun b hb _ _ hu hs => by
      obtain ⟨s, s', rfl, rfl, hserves⟩ := hs.serves
      exact (hserves.users_eq (hbetween b hb)).trans hu) (hs.uploaded hX u hfree).1
    cases hback with
    | cons hq _ =>
      obtain ⟨t, t', rfl, rfl, hserves⟩ := hq.serves
      have hanswer := hserves.asked hX endpoint hasked (by rw [husers]; exact u.users_utf8)
      rwa [husers] at hanswer

/-! ## A client that uploads, and one that asks -/

def ana : User where
  id := "1"
  name := "Ana"
  age := 30
  score := 950
  active := true
  country := "BR"
  team := { name := "A", leader := false, projects := [] }
  logs := []

theorem ana_encoded : EncodesArray EncodesUser [ana] anaDocument := by
  have hteam : EncodesTeam ana.team (.object [("name", .string "A"), ("leader", .boolean false),
      ("projects", .array [])] none) :=
    ⟨_, rfl, by decide, ⟨"A", by simp, rfl⟩, by simp [HasBool, ana], _, by simp, [], rfl, .nil⟩
  refine ⟨_, rfl, .cons ⟨_, rfl, by decide, ?_⟩ .nil⟩
  exact {
    id := ⟨"1", by simp, rfl⟩
    name := ⟨"Ana", by simp, rfl⟩
    age := ⟨by simp [ana], by decide, by decide⟩
    score := ⟨by simp [ana], by decide, by decide⟩
    active := by simp [HasBool, ana]
    country := ⟨"BR", by simp, rfl⟩
    team := ⟨_, by simp, hteam⟩
    logs := ⟨_, by simp, [], rfl, .nil⟩ }

/-- `anaText` without its line end, which the form adds. -/
def anaJson : Bytes := anaText.take (anaText.length - 2)

def anaForm : MultipartBodyParser.Form where
  boundary := "x"
  parts := [(bytes "users", anaJson)]
  boundary_ne := by decide
  boundary_clean := by decide
  names_distinct := List.nodup_singleton _
  names_ne := by decide +kernel
  names_unquoted := by decide +kernel
  names_clean := by decide +kernel
  names_free := by decide +kernel
  contents_free := by decide +kernel

theorem post_plain : Clean (bytes "POST") ∧ 32 ∉ bytes "POST" := by decide

def anaParts : RequestParts where
  method := "POST"
  path := "/users"
  query := []
  version := "HTTP/1.1"
  headers := [(bytes "Content-Type", anaForm.contentType),
    (bytes "Content-Length", decimal anaForm.body.length)]
  body := anaForm.body
  method_plain := post_plain
  path_plain := by decide +kernel
  version_clean := Network.http11_clean
  key_plain := Network.noQuery_keys
  value_plain := Network.noQuery_values
  name_plain := by decide +kernel
  header_plain := by decide +kernel
  names_distinct := by decide +kernel

/-- The length stands in one place. -/
theorem anaParts_length {i : Nat}
    (hi : Search.At anaParts.head contentLengthName i) : i = 69 := by
  have hfirst : find anaParts.head contentLengthName 0 = some 69 := by
    decide +kernel
  have hrest : find anaParts.head contentLengthName 70 = none := by
    decide +kernel
  have hge : ¬ i < 69 := fun hlt => (Search.find_eq_some.1 hfirst).2.2 i (Nat.zero_le i) hlt hi
  have hle : ¬ 70 ≤ i := fun hle => Search.find_eq_none.1 hrest i hle hi
  omega

def anaRequest : ClientRequest where
  toRequestParts := anaParts
  method_known := show bytes "POST" ∈ RequestFactory.httpMethods by decide
  version_plain := Network.http11_unbroken
  length_once _ _ hi hj := (anaParts_length hi).trans (anaParts_length hj).symm
  length_told := .inr (by simp [anaParts])
  body_size := by decide +kernel

def anaUpload : UsersUpload fewTexts [ana] anaParts where
  form := anaForm
  text := anaJson
  document := anaDocument
  post := ⟨rfl, rfl⟩
  typed := List.mem_cons_self
  body := rfl
  uncut := by decide +kernel
  content := List.mem_cons_self
  read := by
    have htext : anaJson ++ crlf = anaText := by decide +kernel
    rw [htext]
    simp [fewTexts, iterateFew]
  encodes := ana_encoded

theorem superusers_plain :
    Clean (bytes "/superusers") ∧ 32 ∉ bytes "/superusers" ∧ 63 ∉ bytes "/superusers" := by
  decide +kernel

end HttpsTest
