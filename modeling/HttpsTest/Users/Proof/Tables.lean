import HttpsTest.Users.Proof.Returns

/-!
# Tables in responses

What the read-only endpoints write. Each fills one array, by `push_back` or by indexing, and an
array nothing was put into is null (`Json.pushed`). `Answers`: the value a handler dumps into its
body, whatever `dump` writes; one lemma an endpoint says which rows that value lists.
-/

set_option autoImplicit false

namespace HttpsTest

open UserInfo

namespace Json

/-! ## Arrays that are filled -/

/-- An array that comes into being with its first element. -/
def pushed : List Json → Json
  | [] => null
  | x :: xs => array (x :: xs)

/-- A value whose one member, if it has one, is such an array. -/
def table (key : Bytes) : List Json → Json
  | [] => null
  | x :: xs => object [(key, array (x :: xs))]

variable {key : Bytes} {xs : List Json} {v : Json}

theorem pushed_append (xs : List Json) (v : Json) : pushed (xs ++ [v]) = array (xs ++ [v]) := by
  cases xs <;> rfl

theorem table_append (xs : List Json) (v : Json) :
    table key (xs ++ [v]) = object [(key, array (xs ++ [v]))] := by
  cases xs <;> rfl

theorem pushBack_pushed (xs : List Json) (v : Json) :
    (pushed xs).pushBack v = .ok (pushed (xs ++ [v])) := by
  rw [pushed_append]
  cases xs <;> rfl

theorem member_table (xs : List Json) : (table key xs).member key = .ok (pushed xs) := by
  cases xs with
  | nil => rfl
  | cons x xs => simp [table, member, pushed]

theorem set_table (xs ys : List Json) (v : Json) :
    (table key xs).set key (array (ys ++ [v])) = .ok (table key (ys ++ [v])) := by
  rw [table_append]
  cases xs with
  | nil => rfl
  | cons x xs => simp [table, set, setMember]

theorem pushIn_table (xs : List Json) (v : Json) :
    (table key xs).pushIn key v = .ok (table key (xs ++ [v])) := by
  rw [pushIn, member_table, ok_bind, pushBack_pushed, ok_bind, pushed_append]
  exact set_table xs xs v

theorem setElement_pushed (xs : List Json) (v : Json) :
    (pushed xs).setElement xs.length v = .ok (array (xs ++ [v])) := by
  cases xs with
  | nil => rfl
  | cons x xs => simp [pushed, setElement]

/-- The first field of a new row. -/
theorem setAt_table (xs : List Json) (field : Bytes) (v : Json) :
    (table key xs).setAt key xs.length field v =
      .ok (table key (xs ++ [object [(field, v)]])) := by
  have helement : (pushed xs).element xs.length = .ok null := by
    cases xs with
    | nil => rfl
    | cons x xs => simp [pushed, element]
  rw [setAt, member_table, ok_bind, helement, ok_bind, set, ok_bind, setElement_pushed, ok_bind]
  exact set_table xs xs _

/-- A further field of the last row. -/
theorem setAt_table_last (xs : List Json) (ms : List (Bytes × Json)) (field : Bytes) (v : Json) :
    (table key (xs ++ [object ms])).setAt key xs.length field v =
      .ok (table key (xs ++ [object (setMember field v ms)])) := by
  have helement : (array (xs ++ [object ms])).element xs.length = .ok (object ms) := by
    simp [element]
  have hset : (array (xs ++ [object ms])).setElement xs.length (object (setMember field v ms)) =
      .ok (array (xs ++ [object (setMember field v ms)])) := by
    simp [setElement]
  rw [setAt, member_table, pushed_append, ok_bind, helement, ok_bind, set, ok_bind, hset, ok_bind]
  exact set_table _ xs _

/-- A loop whose every round adds a row to those that `g` makes a value of. -/
theorem foldlM_rows {α : Type} {g : List Json → Json} {f : Json → α → Except Exn Json}
    {row : α → Json} (hf : ∀ xs a, f (g xs) a = .ok (g (xs ++ [row a]))) (l : List α)
    (xs : List Json) : l.foldlM f (g xs) = .ok (g (xs ++ l.map row)) := by
  induction l generalizing xs with
  | nil => simp [pure, Except.pure]
  | cons a l ih =>
    have hrest := ih (xs ++ [row a])
    rw [List.append_assoc] at hrest
    rw [List.foldlM_cons, hf]
    exact hrest

/-- The same of a loop that counts its rounds, the row of each round standing at its number. -/
theorem foldlM_zipIdx_rows {α : Type} {g : List Json → Json} {f : Json → α × Nat → Except Exn Json}
    {row : α → Json} (hf : ∀ xs a, f (g xs) (a, xs.length) = .ok (g (xs ++ [row a]))) (l : List α)
    (xs : List Json) : (l.zipIdx xs.length).foldlM f (g xs) = .ok (g (xs ++ l.map row)) := by
  induction l generalizing xs with
  | nil => simp [pure, Except.pure]
  | cons a l ih =>
    have hrest := ih (xs ++ [row a])
    rw [List.length_append, List.length_singleton, List.append_assoc] at hrest
    rw [List.zipIdx_cons, List.foldlM_cons, hf]
    exact hrest

theorem lookup_setMember_ne {k : Bytes} (h : k ≠ key) (v : Json) :
    ∀ ms : List (Bytes × Json), (setMember key v ms).lookup k = ms.lookup k
  | [] => by rw [setMember, List.lookup_cons, beq_false_of_ne h]
  | m :: ms => by
    unfold setMember
    split
    next hm => rw [List.lookup_cons, List.lookup_cons, hm, beq_false_of_ne h]
    next hm => rw [List.lookup_cons, List.lookup_cons, lookup_setMember_ne h v ms]

end Json

namespace UserHandler

open Json

/-! ## The value of a body -/

/-- `js` is the value the handler dumps into the body of its response, whatever `dump` writes for
it; where `dump` behaves and the strings of the users are valid, the handler returns. -/
structure Answers (X : Externals) (users : List User)
    (handler : Externals → Except Exn HttpResponse) (js : Json) : Prop where
  dumped : ∃ res : HttpResponse, ∀ dump, handler { X with dump } = (dump js).map res.setBody
  returns : X.Lawful → (∀ u ∈ users, u.Utf8) → ∃ r, handler X = .ok r

/-- The member `key` of the value lists the rows. -/
def AnswersRows (X : Externals) (users : List User)
    (handler : Externals → Except Exn HttpResponse) (key : Bytes) (rows : List Json) : Prop :=
  ∃ js, Answers X users handler js ∧ js.member key = .ok (pushed rows)

variable {X : Externals} {users : List User}

/-- A handler dumps one value. -/
theorem Answers.unique {handler : Externals → Except Exn HttpResponse} {js js' : Json}
    (h : Answers X users handler js) (h' : Answers X users handler js') : js = js' := by
  classical
  obtain ⟨res, hres⟩ := h.dumped
  obtain ⟨res', hres'⟩ := h'.dumped
  -- a `dump` that accepts the one value only
  have heq := (hres fun j => if j = js then .ok [] else .error .parseError).symm.trans (hres' _)
  by_contra hne
  rw [if_pos rfl, if_neg (Ne.symm hne)] at heq
  cases heq

theorem pushed_inj {xs ys : List Json} (h : pushed xs = pushed ys) : xs = ys := by
  cases xs <;> cases ys <;> cases h <;> rfl

theorem AnswersRows.unique {handler : Externals → Except Exn HttpResponse} {key : Bytes}
    {rows rows' : List Json} (h : AnswersRows X users handler key rows)
    (h' : AnswersRows X users handler key rows') : rows = rows' := by
  obtain ⟨js, hjs, hmember⟩ := h
  obtain ⟨js', hjs', hmember'⟩ := h'
  rw [hjs.unique hjs', hmember'] at hmember
  exact pushed_inj (Except.ok.inj hmember.symm)

/-- The members with those that `setDefaultBody` sets. -/
def withDefaults (c : Clock) (ms : List (Bytes × Json)) : List (Bytes × Json) :=
  setMember "timestamp" (.string (getCurrentUtcTimestamp c.now))
    (setMember "execution_time_ms" (.integer c.durationMs) ms)

theorem finish_object (X : Externals) (c : Clock) (res : HttpResponse) (ms : List (Bytes × Json)) :
    finish X c res (.object ms) = (X.dump (.object (withDefaults c ms))).map res.setBody := by
  show (X.dump (.object (withDefaults c ms)) >>= fun text => .ok (res.setBody text)) = _
  cases X.dump (.object (withDefaults c ms)) <;> rfl

/-- A response whose body is set to what `dump` writes. -/
theorem dump_of_setBody {x : Except Exn Bytes} {res r : HttpResponse}
    (h : x.map res.setBody = .ok r) : x = .ok r.body ∧ r.statusCode = res.statusCode := by
  cases x with
  | error e => cases h
  | ok text =>
    cases h
    exact ⟨rfl, rfl⟩

/-- Null becomes an object by the default members. -/
theorem finish_null (X : Externals) (c : Clock) (res : HttpResponse) :
    finish X c res .null = finish X c res (.object []) := rfl

theorem member_withDefaults (c : Clock) (ms : List (Bytes × Json)) {key : Bytes}
    (htime : key ≠ bytes "timestamp") (hduration : key ≠ bytes "execution_time_ms") :
    (Json.object (withDefaults c ms)).member key = .ok ((ms.lookup key).getD .null) := by
  rw [member, withDefaults, lookup_setMember_ne htime, lookup_setMember_ne hduration]

variable {c : Clock}

/-- A handler that ends with the members `ms`. -/
theorem answersRows_of_finish (ms : List (Bytes × Json))
    {handler : Externals → Except Exn HttpResponse} {res : HttpResponse} {key : Bytes}
    {rows : List Json}
    (hfinish : ∀ dump, handler { X with dump } = finish { X with dump } c res (.object ms))
    (hrows : (ms.lookup key).getD .null = pushed rows) (htime : key ≠ bytes "timestamp")
    (hduration : key ≠ bytes "execution_time_ms")
    (hreturns : X.Lawful → (∀ u ∈ users, u.Utf8) → ∃ r, handler X = .ok r ∧ Dumped X r) :
    AnswersRows X users handler key rows := by
  refine ⟨.object (withDefaults c ms), ⟨⟨res, fun dump => ?_⟩, fun hX hu => ?_⟩, ?_⟩
  · rw [hfinish, finish_object]
  · obtain ⟨r, hr, -⟩ := hreturns hX hu
    exact ⟨r, hr⟩
  · rw [member_withDefaults c ms htime hduration, hrows]

/-- A handler whose loop fills a table. -/
theorem answersRows_of_table {handler : Externals → Except Exn HttpResponse} {res : HttpResponse}
    {loop : Except Exn Json} {key : Bytes} {rows : List Json} (hloop : loop = .ok (table key rows))
    (hfinish : ∀ dump, handler { X with dump } = loop >>= finish { X with dump } c res)
    (htime : key ≠ bytes "timestamp") (hduration : key ≠ bytes "execution_time_ms")
    (hreturns : X.Lawful → (∀ u ∈ users, u.Utf8) → ∃ r, handler X = .ok r ∧ Dumped X r) :
    AnswersRows X users handler key rows := by
  simp only [hloop, ok_bind] at hfinish
  cases rows with
  | nil =>
    exact answersRows_of_finish [] (fun dump => (hfinish dump).trans (finish_null _ c res)) rfl
      htime hduration hreturns
  | cons row rows =>
    exact answersRows_of_finish _ hfinish (by simp [pushed]) htime hduration hreturns

/-! ## The endpoints -/

/-- The users `handleGETSuperusers` lists. -/
def superusers (users : List User) : List User :=
  users.filter fun user => user.active ∧ 900 ≤ user.score

/-- The countries `handleGetTopCountries` lists. -/
def topCountries (X : Externals) (users : List User) : List (Bytes × Int) :=
  (X.sortByTotal (UnorderedMap.items X.hashOrder (countryCounts users))).take 5

def countryRow (p : Bytes × Int) : Json :=
  .object [("country", .string p.1), ("total", .integer p.2)]

def teamRow (p : Bytes × TeamCounts) : Json :=
  .object [("team", .string p.1), ("total_members", .integer p.2.totalMembers),
    ("active_percentage", .floating (p.2.activeMembers * 100 / p.2.totalMembers)),
    ("leaders", .integer p.2.leaders), ("completed_projects", .integer p.2.completedProjects)]

def loginRow (p : Bytes × Int) : Json :=
  .object [("date", .string p.1), ("total", .integer p.2)]

theorem teamRecord_eq (p : Bytes × TeamCounts) : teamRecord p.1 p.2 = .ok (teamRow p) := rfl

theorem loginRecord_eq (p : Bytes × Int) : loginRecord p.1 p.2 = .ok (loginRow p) := rfl

theorem superusers_rows (X : Externals) (c : Clock) (users : List User) :
    AnswersRows X users (handleGETSuperusers · c users) "data"
      ((superusers users).map fun user => .string user.name) := by
  have hloop : users.foldlM (fun usersList user =>
      if user.active ∧ 900 ≤ user.score then usersList.pushBack (.string user.name)
      else .ok usersList) Json.null =
      .ok (pushed ((superusers users).map fun user => .string user.name)) := by
    have hfold := foldlM_rows (f := fun usersList (user : User) =>
      usersList.pushBack (.string user.name)) (fun xs _ => pushBack_pushed xs _)
      (superusers users) []
    rw [superusers, List.foldlM_filter] at hfold
    simp only [decide_eq_true_eq] at hfold
    exact hfold
  have hfinish : ∀ dump, handleGETSuperusers { X with dump } c users =
      .ok (pushed ((superusers users).map fun user => .string user.name)) >>= fun usersList =>
        finish { X with dump } c (((({} : HttpResponse).setStatusCode 200).sethttpVersion
          "HTTP/1.1").setHeader "Content-Type" "application/json")
          (.object [("data", usersList)]) := by
    intro dump
    rw [← hloop]
    rfl
  exact answersRows_of_finish _ hfinish rfl (by decide) (by decide)
    fun hX hu => handleGETSuperusers_returns hX c hu

theorem topCountries_rows (X : Externals) (c : Clock) (users : List User) :
    AnswersRows X users (handleGetTopCountries · c users) "countries"
      ((topCountries X users).map countryRow) := by
  have hrow : ∀ xs (p : Bytes × Int), (do
      let js ← (table "countries" xs).setAt "countries" xs.length "country" (.string p.1)
      js.setAt "countries" xs.length "total" (.integer p.2)) =
      .ok (table "countries" (xs ++ [countryRow p])) := by
    intro xs p
    rw [setAt_table, ok_bind]
    exact setAt_table_last xs _ _ _
  exact answersRows_of_table (foldlM_zipIdx_rows hrow (topCountries X users) []) (fun _ => rfl)
    (by decide) (by decide) fun hX hu => handleGetTopCountries_returns hX c hu

theorem teamInsights_rows (X : Externals) (c : Clock) (users : List User) :
    AnswersRows X users (handleGetTeamInsights · c users) "teams"
      ((UnorderedMap.items X.hashOrder (teamCounts users)).map teamRow) := by
  have hrow : ∀ xs (p : Bytes × TeamCounts), (do
      (table "teams" xs).pushIn "teams" (← teamRecord p.1 p.2)) =
      .ok (table "teams" (xs ++ [teamRow p])) := by
    intro xs p
    rw [teamRecord_eq, ok_bind]
    exact pushIn_table xs (teamRow p)
  exact answersRows_of_table (foldlM_rows hrow _ []) (fun _ => rfl) (by decide) (by decide)
    fun hX hu => handleGetTeamInsights_returns hX c hu

theorem activeUsers_rows (X : Externals) (c : Clock) (users : List User) :
    AnswersRows X users (handleGetActiveUsers · c users) "logins"
      ((UnorderedMap.items X.hashOrder (loginCounts users)).map loginRow) := by
  have hrow : ∀ xs (p : Bytes × Int), (do
      (table "logins" xs).pushIn "logins" (← loginRecord p.1 p.2)) =
      .ok (table "logins" (xs ++ [loginRow p])) := by
    intro xs p
    rw [loginRecord_eq, ok_bind]
    exact pushIn_table xs (loginRow p)
  exact answersRows_of_table (foldlM_rows hrow _ []) (fun _ => rfl) (by decide) (by decide)
    fun hX hu => handleGetActiveUsers_returns hX c hu

end UserHandler

end HttpsTest
