import HttpsTest.Http.Proof.Decoding
import HttpsTest.Users.Proof.Tables

/-!
# The evaluation

`/evaluation` calls four endpoints and parses their replies. `evaluation_reports`: where parsing
gives back the execution time that was dumped, the four are listed in their order, each with the
status and the time of its own reply, and every reply is reported as valid.
-/

set_option autoImplicit false

namespace HttpsTest

open UserInfo

namespace Json

variable {j j' v : Json} {key k : Bytes}

theorem lookup_setMember (key : Bytes) (v : Json) :
    ∀ ms : List (Bytes × Json), (setMember key v ms).lookup key = some v
  | [] => by rw [setMember, List.lookup_cons, beq_self_eq_true]
  | m :: ms => by
    unfold setMember
    split
    next hm => rw [List.lookup_cons, beq_self_eq_true]
    next hm => rw [List.lookup_cons, beq_false_of_ne (Ne.symm hm), lookup_setMember key v ms]

theorem member_of_set (h : j.set key v = .ok j') : j'.member key = .ok v := by
  cases j with
  | null =>
    cases h
    simp [member]
  | object ms =>
    cases h
    rw [member, lookup_setMember, Option.getD_some]
  | _ => cases h

theorem member_of_set_ne (hk : k ≠ key) (h : j.set key v = .ok j') : j'.member k = j.member k := by
  cases j with
  | null =>
    cases h
    simp [member, List.lookup_cons, beq_false_of_ne hk]
  | object ms =>
    cases h
    rw [member, member, lookup_setMember_ne hk]
  | _ => cases h

theorem setIn_null (key field : Bytes) (v : Json) :
    null.setIn key field v = .ok (object [(key, object [(field, v)])]) := rfl

theorem setIn_object (key field : Bytes) (v : Json) (ms : List (Bytes × Json)) :
    (object [(key, object ms)]).setIn key field v =
      .ok (object [(key, object (setMember field v ms))]) := by
  simp [setIn, member, set, setMember, ok_bind]

end Json

namespace UserHandler

open Json

variable {X : Externals} {c : Clock} {users : List User}

/-! ## Replies with their time -/

/-- `nlohmann::json` parses the execution time that it has dumped. -/
structure ReadsTime (X : Externals) : Prop extends X.Lawful where
  time : ∀ {j j' : Json} {t : Bytes} {n : Int}, X.dump j = .ok t → X.parseJson t = .ok j' →
    j.member "execution_time_ms" = .ok (.integer n) →
    j'.member "execution_time_ms" = .ok (.integer n)

/-- A handler that returns answers with status 200 and the time it took. -/
def Timed (X : Externals) (c : Clock) (outcome : Except Exn HttpResponse) : Prop :=
  ∀ r, outcome = .ok r → r.statusCode = 200 ∧
    ∃ j, X.dump j = .ok r.body ∧ j.member "execution_time_ms" = .ok (.integer c.durationMs)

theorem Timed.bind {α : Type} {x : Except Exn α} {f : α → Except Exn HttpResponse}
    (h : ∀ a, Timed X c (f a)) : Timed X c (x >>= f) := by
  intro r hr
  obtain ⟨a, -, ha⟩ := bind_ok hr
  exact h a r ha

theorem timed_finish {res : HttpResponse} {js : Json} (hres : res.statusCode = 200) :
    Timed X c (finish X c res js) := by
  intro r hr
  obtain ⟨js', hdefault, hr⟩ := bind_ok hr
  obtain ⟨text, htext, hr⟩ := bind_ok hr
  obtain ⟨timed, htimed, hstamped⟩ := bind_ok hdefault
  cases hr
  refine ⟨hres, js', htext, ?_⟩
  rw [member_of_set_ne (by decide) hstamped]
  exact member_of_set htimed

/-! ## One endpoint -/

/-- The report on an endpoint that has answered. -/
def report (endpoint : Bytes) (c : Clock) : Json :=
  .object [(endpoint, .object [("status", .integer 200), ("time_ms", .integer c.durationMs),
    ("valid_response", .boolean true)])]

theorem testEndpoint_eq (hX : ReadsTime X) {handler : Except Exn HttpResponse}
    (ht : Timed X c handler) {r : HttpResponse} (hr : handler = .ok r) (endpoint : Bytes) :
    testEndpoint X endpoint r = .ok (report endpoint c) := by
  obtain ⟨hstatus, j, hdump, htime⟩ := ht r hr
  obtain ⟨reply, hparse, -⟩ := hX.parse_dump j _ hdump
  have hread : (do (← X.parseJson r.body).member "execution_time_ms") =
      .ok (.integer c.durationMs) := by
    rw [hparse]
    exact hX.time hdump hparse htime
  unfold testEndpoint
  rw [hread, hstatus, setIn_null, ok_bind, setIn_object, ok_bind]
  simp only
  rw [setIn_object, ok_bind, setIn_object]
  rfl

/-- One endpoint of the evaluation adds its report to the table. -/
theorem tested_eq (hX : ReadsTime X) {handler : Except Exn HttpResponse} (ht : Timed X c handler)
    (hh : ∃ r, handler = .ok r ∧ Dumped X r) (endpoint : Bytes) (reports : List Json)
    (rest : Json → Except Exn HttpResponse) : (do
      let item ← testEndpoint X endpoint (← handler)
      let responseJson ← (table "tested_endpoints" reports).pushIn "tested_endpoints" item
      rest responseJson) = rest (table "tested_endpoints" (reports ++ [report endpoint c])) := by
  obtain ⟨r, hr, -⟩ := hh
  have hitem := testEndpoint_eq hX ht hr endpoint
  subst hr
  rw [ok_bind, hitem, ok_bind, pushIn_table, ok_bind]

/-! ## All four -/

def reports (ec : EvaluationClocks) : List Json :=
  [report "/team-insights" ec.teamInsights, report "/superusers" ec.superusers,
    report "/top-countries" ec.topCountries, report "/active-users-per-day" ec.activeUsers]

/-- **The evaluation reports every endpoint as valid**, in the order in which it asks for their
results, with the status and the time of its own reply. -/
theorem evaluation_reports (hX : ReadsTime X) (c : Clock) (ec : EvaluationClocks)
    (hu : ∀ u ∈ users, u.Utf8) :
    ∃ r js, handleGetEvaluation X c ec users = .ok r ∧ r.statusCode = 200 ∧
      X.dump js = .ok r.body ∧ js.member "tested_endpoints" = .ok (.array (reports ec)) ∧
      js.member "execution_time_ms" = .ok (.integer c.durationMs) := by
  have hteams : Timed X ec.teamInsights (handleGetTeamInsights X ec.teamInsights users) :=
    .bind fun _ => timed_finish rfl
  have hsuperusers : Timed X ec.superusers (handleGETSuperusers X ec.superusers users) :=
    .bind fun _ => .bind fun _ => timed_finish rfl
  have hcountries : Timed X ec.topCountries (handleGetTopCountries X ec.topCountries users) :=
    .bind fun _ => timed_finish rfl
  have hlogins : Timed X ec.activeUsers (handleGetActiveUsers X ec.activeUsers users) :=
    .bind fun _ => timed_finish rfl
  have hfinish : handleGetEvaluation X c ec users =
      finish X c ((({} : HttpResponse).setStatusCode 200).setHeader "Content-Type"
        "application/json") (table "tested_endpoints" (reports ec)) := by
    unfold handleGetEvaluation
    have hnull : Json.null = table "tested_endpoints" [] := rfl
    rw [hnull,
      tested_eq hX hteams (handleGetTeamInsights_returns hX.toLawful _ hu),
      tested_eq hX hsuperusers (handleGETSuperusers_returns hX.toLawful _ hu),
      tested_eq hX hcountries (handleGetTopCountries_returns hX.toLawful _ hu),
      tested_eq hX hlogins (handleGetActiveUsers_returns hX.toLawful _ hu)]
    rfl
  obtain ⟨r, hr, -⟩ := handleGetEvaluation_returns hX.toLawful c ec hu
  have htable : table "tested_endpoints" (reports ec) =
      .object [(bytes "tested_endpoints", .array (reports ec))] := rfl
  rw [hfinish, htable, finish_object] at hr
  obtain ⟨hdump, hstatus⟩ := dump_of_setBody hr
  refine ⟨r, _, ?_, hstatus, hdump, ?_, ?_⟩
  · rw [hfinish, htable, finish_object, hr]
  · rw [member_withDefaults c _ (by decide) (by decide)]
    simp
  · rw [member, withDefaults, lookup_setMember_ne (by decide), lookup_setMember, Option.getD_some]

/-! ## A library that writes the replies -/

/-- The members in the order of their keys. -/
def sortMembers (ms : List (Bytes × Bytes)) : List (Bytes × Bytes) :=
  ms.mergeSort fun a b => decide (a.1 ≤ b.1)

def writeMember (m : Bytes × Bytes) : Bytes := bytes "\"" ++ m.1 ++ bytes "\":" ++ m.2

mutual

/-- The text of a value with plain strings, and fractions that are whole numbers. -/
def write : Json → Bytes
  | .null => "null"
  | .boolean b => if b then "true" else "false"
  | .integer n => decimal n
  | .floating q => decimal q.floor ++ bytes ".0"
  | .string s => bytes "\"" ++ s ++ bytes "\""
  | .array xs => bytes "[" ++ (bytes ",").intercalate (writeAll xs) ++ bytes "]"
  | .object ms => bytes "\x7b" ++
      (bytes ",").intercalate ((sortMembers (writeMembers ms)).map writeMember) ++ bytes "\x7d"

def writeAll : List Json → List Bytes
  | [] => []
  | x :: xs => write x :: writeAll xs

def writeMembers : List (Bytes × Json) → List (Bytes × Bytes)
  | [] => []
  | (key, x) :: ms => (key, write x) :: writeMembers ms

end

abbrev timeKey : Bytes := "execution_time_ms"

def timeName : Bytes := "\"execution_time_ms\":"

/-- What stands in front of the execution time; a text that has its name itself is left out. -/
def writeFront (ms : List (Bytes × Bytes)) : Bytes :=
  let front := bytes "\x7b" ++ ms.flatMap (writeMember · ++ bytes ",")
  if timeName <:+: front then bytes "\x7b" else front

/-- `dump`; an object is written around its execution time. -/
def dumpTimed (j : Json) : Bytes :=
  match j, j.member timeKey with
  | .object ms, .ok (.integer n) =>
    let ms := sortMembers ((writeMembers ms).filter (·.1 ≠ timeKey))
    writeFront (ms.filter (·.1 ≤ timeKey)) ++ timeName ++
      (decimal n ++ ((ms.filter (¬ ·.1 ≤ timeKey)).flatMap (bytes "," ++ writeMember ·) ++
        bytes "\x7d"))
  | _, _ => write j

/-- The execution time in such a text. -/
def parseTime (text : Bytes) : Json :=
  match Search.find text timeName 0 with
  | some i =>
    match readInt ((text.drop (i + timeName.length)).takeWhile fun b => b ≠ 44 ∧ b ≠ 125) with
    | some n => .object [(timeKey, .integer n)]
    | none => .null
  | none => .null

def replyTexts : Externals :=
  { fewTexts with
    dump := fun j => .ok (dumpTimed j)
    parseJson := fun text => .ok (parseTime text) }

theorem writeFront_no_time (ms : List (Bytes × Bytes)) : ¬ timeName <:+: writeFront ms := by
  unfold writeFront
  simp only
  split
  next h => decide
  next h => exact h

theorem parseTime_utf8 (text : Bytes) : (parseTime text).Utf8 := by
  unfold parseTime
  split
  · split
    · exact .object (by simpa using validUtf8_bytes "execution_time_ms")
        (by simpa using Json.Utf8.integer _)
    · exact .null
  · exact .null

/-- A number is read up to what closes its member. -/
theorem takeWhile_decimal (n : Int) {rest : Bytes} (hrest : rest.head? = some 44 ∨ rest = [125]) :
    (decimal n ++ rest).takeWhile (fun b => b ≠ 44 ∧ b ≠ 125) = decimal n := by
  have hdigits : ∀ b ∈ decimal n, decide (b ≠ 44 ∧ b ≠ 125) = true := by
    intro b hb
    rcases decimal_bytes n b hb with rfl | ⟨h1, h2⟩
    · decide
    · refine decide_eq_true ⟨?_, ?_⟩ <;> rintro rfl <;> revert h1 h2 <;> decide
  rw [List.takeWhile_append_of_pos hdigits]
  rcases hrest with h | rfl
  · cases rest with
    | nil => cases h
    | cons b rest =>
      cases h
      simp
  · simp

theorem parseTime_written {front : Bytes} (hfront : ¬ timeName <:+: front) (n : Int)
    {rest : Bytes} (hrest : rest.head? = some 44 ∨ rest = [125]) :
    parseTime (front ++ timeName ++ (decimal n ++ rest)) = .object [(timeKey, .integer n)] := by
  have hname : timeName = bytes "\"execution_time_ms\"" ++ [58] := by decide
  have hfind : Search.find (front ++ timeName ++ (decimal n ++ rest)) timeName 0 =
      some front.length := by
    rw [hname] at hfront ⊢
    exact (Search.find_ended_iff (by decide) _).2 hfront
  unfold parseTime
  rw [hfind]
  simp only
  rw [← List.length_append, List.drop_left, takeWhile_decimal n hrest, readInt_decimal]

theorem replyTexts_readsTime : ReadsTime replyTexts where
  dump_utf8 _ _ := ⟨_, rfl⟩
  parse_dump _ _ _ := ⟨_, rfl, parseTime_utf8 _⟩
  what_typeError _ := validUtf8_bytes _
  time := by
    intro j j' t n hdump hparse htime
    cases hdump
    cases hparse
    cases j with
    | object ms =>
      have hrest (ms : List (Bytes × Bytes)) :
          (ms.flatMap (bytes "," ++ writeMember ·) ++ bytes "\x7d").head? = some 44 ∨
            ms.flatMap (bytes "," ++ writeMember ·) ++ bytes "\x7d" = [125] := by
        cases ms with
        | nil => exact .inr rfl
        | cons m ms => exact .inl rfl
      have htime' : (Json.object ms).member timeKey = .ok (.integer n) := htime
      simp only [dumpTimed, htime']
      rw [parseTime_written (writeFront_no_time _) n (hrest _)]
      simp [Json.member, timeKey]
    | _ => cases htime

/-- A clock that measures so many milliseconds. -/
def lasting (durationMs : Int) : Clock := { noon with durationMs }

/-- Three users of two teams and two countries. -/
def threeUsers : List User :=
  [{ id := "1", name := "Ana", age := 30, score := 950, active := true, country := "BR"
     team := { name := "A", leader := true, projects := [{ name := "p", completed := true }] }
     logs := [{ date := "2025-01-01", action := "login" }] },
    { id := "2", name := "Bob", age := 41, score := 990, active := false, country := "BR"
      team := { name := "A", leader := false, projects := [] }
      logs := [{ date := "2025-01-01", action := "login" },
        { date := "2025-01-02", action := "logout" }] },
    { id := "3", name := "Eva", age := 25, score := 910, active := true, country := "PT"
      team := { name := "B", leader := true, projects := [] }
      logs := [{ date := "2025-01-02", action := "login" }] }]

theorem threeUsers_reported : ∃ r js,
    handleGetEvaluation replyTexts (lasting 9) ⟨lasting 4, lasting 1, lasting 3, lasting 2⟩
      threeUsers = .ok r ∧
      r.statusCode = 200 ∧ replyTexts.dump js = .ok r.body ∧
      js.member "tested_endpoints" =
        .ok (.array (reports ⟨lasting 4, lasting 1, lasting 3, lasting 2⟩)) ∧
      js.member "execution_time_ms" = .ok (.integer 9) := by
  refine evaluation_reports replyTexts_readsTime (lasting 9)
    ⟨lasting 4, lasting 1, lasting 3, lasting 2⟩ fun u hu => ?_
  simp only [threeUsers, List.mem_cons, List.not_mem_nil, or_false] at hu
  rcases hu with rfl | rfl | rfl <;>
    exact ⟨validUtf8_bytes _, validUtf8_bytes _, validUtf8_bytes _,
      by simp only [List.mem_cons, List.not_mem_nil, or_false]
         rintro l (rfl | rfl) <;> exact validUtf8_bytes _⟩

end UserHandler

end HttpsTest
