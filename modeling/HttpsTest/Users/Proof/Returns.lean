import HttpsTest.Users.Proof.Upload

/-!
# Handlers that return

The read-only endpoints throw nothing: the values they build are objects all along, and every string
in them comes from a literal or from a decoded user, so it is valid UTF-8 and `dump` accepts it.
`handleRequest_returns_iff`: a request to the user handler ends with an exception exactly if it is
an upload that finds the mutex free and whose text simdjson refuses.
-/

set_option autoImplicit false

namespace HttpsTest

open UserInfo

/-! ## Tables of counts -/

namespace UserHandler

/-- Decoding a text yields users whose strings are valid. -/
theorem usersAfter_utf8 {X : Externals} {request : IRequest} {old : List User}
    (hu : ∀ u ∈ old, u.Utf8) : ∀ u ∈ (upload X request).usersAfter old, u.Utf8 := by
  have hdec (doc : Ondemand.Value) : ∀ u ∈ (doc.getVector getUser []).2, u.Utf8 :=
    doc.getVector_forall (fun _ _ h => getUser_utf8 h) (by simp)
  unfold upload
  split
  · exact hu
  · split
    · simp [Upload.usersAfter]
    · rename_i doc _
      have := hdec doc
      split <;> simp_all [Upload.usersAfter]

/-- Every key of the map is valid UTF-8. -/
def Utf8Keys {α : Type} (m : UnorderedMap α) : Prop := ∀ k ∈ m, ValidUtf8 k

theorem Utf8Keys.empty {α : Type} : Utf8Keys (∅ : UnorderedMap α) := fun _ hk =>
  absurd hk (AList.notMem_empty _)

theorem Utf8Keys.update {α : Type} {m : UnorderedMap α} (h : Utf8Keys m) {key : Bytes}
    (hk : ValidUtf8 key) (init : α) (f : α → α) : Utf8Keys (update m key init f) := by
  intro k hm
  rcases (AList.mem_insert _).1 hm with rfl | hm
  · exact hk
  · exact h k hm

variable {users : List User}

theorem countryCounts_utf8 (hu : ∀ u ∈ users, u.Utf8) : Utf8Keys (countryCounts users) :=
  List.foldlRecOn users _ .empty fun _ hm u hmem => hm.update (hu u hmem).country _ _

theorem teamCounts_utf8 (hu : ∀ u ∈ users, u.Utf8) : Utf8Keys (teamCounts users) :=
  List.foldlRecOn users _ .empty fun _ hm u hmem => hm.update (hu u hmem).team _ _

theorem loginCounts_utf8 (hu : ∀ u ∈ users, u.Utf8) : Utf8Keys (loginCounts users) :=
  List.foldlRecOn users _ .empty fun _ hm u hmem =>
    List.foldlRecOn u.logs _ hm fun _ hm l hl => by
      split
      · exact hm.update ((hu u hmem).dates l hl) _ _
      · exact hm

/-! ## The endpoints -/

/-- The body of the response is a dumped value. -/
def Dumped (X : Externals) (r : HttpResponse) : Prop := ∃ j, X.dump j = .ok r.body

variable {X : Externals} (hX : X.Lawful) (c : Clock)
include hX

theorem finish_dumped (res : HttpResponse) {js : Json} (h : js.IsObject) :
    ∃ r, finish X c res js = .ok r ∧ Dumped X r := by
  obtain ⟨r, hr⟩ := finish_returns hX c res h
  exact ⟨r, hr, (finish_body hr).2⟩

theorem handleGETSuperusers_returns (hu : ∀ u ∈ users, u.Utf8) :
    ∃ r, handleGETSuperusers X c users = .ok r ∧ Dumped X r :=
  bind_returns (P := Json.IsArray Json.Utf8)
    (foldlM_returns (fun js hjs u hmem => by
      split
      · exact hjs.pushBack (.string (hu u hmem).name)
      · exact ⟨js, rfl, hjs⟩) .null)
    fun _ hlist => bind_returns
      (Json.IsObject.null.set (validUtf8_bytes _) (hlist.utf8 fun _ h => h))
      fun _ hjs => finish_dumped hX c _ hjs

theorem handleGetTopCountries_returns (hu : ∀ u ∈ users, u.Utf8) :
    ∃ r, handleGetTopCountries X c users = .ok r ∧ Dumped X r :=
  bind_returns (P := Json.IsTable (bytes "countries"))
    (foldlM_returns (fun js hjs p hp => by
      have hmem := List.mem_of_mem_take (List.fst_mem_of_mem_zipIdx hp)
      have hkey := countryCounts_utf8 hu _
        (UnorderedMap.mem_of_items ((X.sort_perm _).mem_iff.1 hmem))
      exact bind_returns (hjs.setAt p.2 (validUtf8_bytes _) (.string hkey))
        fun _ hjs => hjs.setAt p.2 (validUtf8_bytes _) (.integer _)) .null)
    fun _ hjs => finish_dumped hX c _ (hjs.isObject (validUtf8_bytes _))

omit hX in
theorem teamRecord_returns {name : Bytes} (hn : ValidUtf8 name) (t : TeamCounts) :
    ∃ j, teamRecord name t = .ok j ∧ j.IsObject :=
  bind_returns (Json.IsObject.null.set (validUtf8_bytes _) (.string hn)) fun _ h =>
    bind_returns (h.set (validUtf8_bytes _) (.integer _)) fun _ h =>
      bind_returns (h.set (validUtf8_bytes _) (.floating _)) fun _ h =>
        bind_returns (h.set (validUtf8_bytes _) (.integer _)) fun _ h =>
          h.set (validUtf8_bytes _) (.integer _)

omit hX in
theorem loginRecord_returns {date : Bytes} (hd : ValidUtf8 date) (total : Int) :
    ∃ j, loginRecord date total = .ok j ∧ j.IsObject :=
  bind_returns (Json.IsObject.null.set (validUtf8_bytes _) (.string hd)) fun _ h =>
    h.set (validUtf8_bytes _) (.integer _)

theorem handleGetTeamInsights_returns (hu : ∀ u ∈ users, u.Utf8) :
    ∃ r, handleGetTeamInsights X c users = .ok r ∧ Dumped X r :=
  bind_returns (P := Json.IsTable (bytes "teams"))
    (foldlM_returns (fun _ hjs p hp =>
      bind_returns (teamRecord_returns (teamCounts_utf8 hu _ (UnorderedMap.mem_of_items hp)) p.2)
        fun _ hv => hjs.pushIn hv) .null)
    fun _ hjs => finish_dumped hX c _ (hjs.isObject (validUtf8_bytes _))

theorem handleGetActiveUsers_returns (hu : ∀ u ∈ users, u.Utf8) :
    ∃ r, handleGetActiveUsers X c users = .ok r ∧ Dumped X r :=
  bind_returns (P := Json.IsTable (bytes "logins"))
    (foldlM_returns (fun _ hjs p hp =>
      bind_returns (loginRecord_returns (loginCounts_utf8 hu _ (UnorderedMap.mem_of_items hp)) p.2)
        fun _ hv => hjs.pushIn hv) .null)
    fun _ hjs => finish_dumped hX c _ (hjs.isObject (validUtf8_bytes _))

/-- The report on an endpoint: what reading the reply throws ends up in it as a text. -/
theorem testEndpoint_returns {endpoint : Bytes} (he : ValidUtf8 endpoint) {r : HttpResponse}
    (hr : Dumped X r) : ∃ j, testEndpoint X endpoint r = .ok j ∧ j.IsObject := by
  obtain ⟨j, hj⟩ := hr
  obtain ⟨reply, hp, hreply⟩ := hX.parse_dump j _ hj
  have hbody : (do (← X.parseJson r.body).member "execution_time_ms") =
      reply.member "execution_time_ms" := by rw [hp]; rfl
  refine bind_returns (Json.OnlyMember.null.setIn (validUtf8_bytes _) (.integer _)) fun _ h1 =>
    bind_returns (h1.setIn (validUtf8_bytes _) (.integer _)) fun item h2 => ?_
  rw [hbody]
  rcases hreply.member "execution_time_ms" with ⟨v, hv, hutf⟩ | herr
  · rw [hv]
    obtain ⟨b, hb, hobj⟩ := bind_returns (h2.setIn (validUtf8_bytes _) hutf) fun _ h3 =>
      h3.setIn (validUtf8_bytes _) (.boolean true)
    exact ⟨b, hb, hobj.isObject he fun _ h => h.utf8⟩
  · rw [herr]
    obtain ⟨b, hb, hobj⟩ := bind_returns (h2.setIn (validUtf8_bytes _) (.boolean false)) fun _ h3 =>
      h3.setIn (validUtf8_bytes _) (.string (hX.what_typeError 305))
    exact ⟨b, hb, hobj.isObject he fun _ h => h.utf8⟩

/-- One endpoint of the evaluation: its handler, the report, and the report's place in the table. -/
theorem testedEndpoint_returns {endpoint : String} {handler : Except Exn HttpResponse}
    (hh : ∃ r, handler = .ok r ∧ Dumped X r) {js : Json}
    (hjs : Json.IsTable (bytes "tested_endpoints") js)
    {rest : Json → Except Exn HttpResponse}
    (hrest : ∀ j, Json.IsTable (bytes "tested_endpoints") j → ∃ r, rest j = .ok r ∧ Dumped X r) :
    ∃ r, (do
      let item ← testEndpoint X endpoint (← handler)
      let responseJson ← js.pushIn "tested_endpoints" item
      rest responseJson) = .ok r ∧ Dumped X r :=
  bind_returns hh fun _ hr => bind_returns (testEndpoint_returns hX (validUtf8_bytes _) hr)
    fun _ hitem => bind_returns (hjs.pushIn hitem) hrest

theorem handleGetEvaluation_returns (ec : EvaluationClocks) (hu : ∀ u ∈ users, u.Utf8) :
    ∃ r, handleGetEvaluation X c ec users = .ok r ∧ Dumped X r :=
  testedEndpoint_returns hX (handleGetTeamInsights_returns hX _ hu) .null fun _ h =>
    testedEndpoint_returns hX (handleGETSuperusers_returns hX _ hu) h fun _ h =>
      testedEndpoint_returns hX (handleGetTopCountries_returns hX _ hu) h fun _ h =>
        testedEndpoint_returns hX (handleGetActiveUsers_returns hX _ hu) h fun _ h =>
          finish_dumped hX c _ (h.isObject (validUtf8_bytes _))

theorem defaultHandler_returns (request : IRequest) :
    ∃ r, DefaultHandler.handleRequest X c request = .ok r := by
  obtain ⟨j1, h1, hobj1⟩ := Json.IsObject.null.set (validUtf8_bytes "message")
    (.string (validUtf8_bytes "Resource not found"))
  obtain ⟨j2, h2, hobj2⟩ := hobj1.set (validUtf8_bytes "timestamp")
    (.string (validUtf8_timestamp c.now))
  obtain ⟨text, ht⟩ := hX.dump_utf8 j2 hobj2.utf8
  exact ⟨_, by unfold DefaultHandler.handleRequest; simp only [h1, h2, ht, bind, Except.bind]; rfl⟩

/-! ## The user handler -/

omit hX in
/-- The stored users are decoded ones. -/
theorem handleRequest_utf8 {c : Clocks} {request : IRequest} {h : UserHandler}
    (hu : ∀ u ∈ h.users, u.Utf8) :
    ∀ u ∈ (handleRequest X c request h).2.users, u.Utf8 := by
  by_cases hp : IsPost request
  · rw [handleRequest_post hp]
    cases hm : h.mutex with
    | true =>
      obtain ⟨r, hr, -⟩ := handlePOSTUsers_busy X c.own request hm
      rw [hr]
      exact hu
    | false =>
      rw [(handlePOSTUsers_free _ _ _ hm).1]
      exact usersAfter_utf8 hu
  · rwa [handleRequest_other hp]

/-- **A request to the user handler returns** unless it is an upload that finds the mutex free and
whose text is refused. -/
theorem handleRequest_returns_iff {c : Clocks} {request : IRequest} {h : UserHandler}
    (hu : ∀ u ∈ h.users, u.Utf8) :
    (∃ r, (handleRequest X c request h).1 = .ok r) ↔
      ¬ (IsPost request ∧ h.mutex = false ∧ Refused X request) := by
  have hmap : ∀ {x : Except Exn HttpResponse} {f : HttpResponse → HttpResponse},
      (∃ r, x = .ok r) → ∃ r, x.map f = .ok r := by
    rintro _ f ⟨r, rfl⟩
    exact ⟨f r, rfl⟩
  by_cases hp : IsPost request
  · rw [handleRequest_post hp]
    simp only [hp, true_and, not_and]
    cases hm : h.mutex with
    | true =>
      obtain ⟨r, hr, -⟩ := handlePOSTUsers_busy X c.own request hm
      exact ⟨nofun, fun _ => hmap ⟨r, by rw [hr]⟩⟩
    | false =>
      constructor
      · rintro ⟨r, hr⟩ - ⟨e, he⟩
        rw [(handlePOSTUsers_free _ _ _ hm).2.2.1 e he] at hr
        cases hr
      · intro hrefused
        exact hmap (handlePOSTUsers_returns hX c.own request hm fun e he => hrefused rfl ⟨e, he⟩)
  · refine ⟨fun _ hc => hp hc.1, ?_⟩
    intro _
    unfold IsPost at hp
    unfold handleRequest
    rw [if_neg hp]
    have hret {x : Except Exn HttpResponse} (hx : ∃ r, x = .ok r ∧ Dumped X r) : ∃ r, x = .ok r :=
      hx.imp fun _ h => h.1
    split_ifs
    · exact hmap (hret (handleGETSuperusers_returns hX _ hu))
    · exact hmap (hret (handleGetTopCountries_returns hX _ hu))
    · exact hmap (hret (handleGetTeamInsights_returns hX _ hu))
    · exact hmap (hret (handleGetActiveUsers_returns hX _ hu))
    · exact hmap (hret (handleGetEvaluation_returns hX _ _ hu))
    · exact ⟨_, rfl⟩

end UserHandler

end HttpsTest
