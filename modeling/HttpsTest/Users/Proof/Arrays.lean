import HttpsTest.Users.Proof.Counts

/-!
# The arrays clients rely on

Each read-only endpoint has one array in its body. It comes into being with its first element, so a
list of users without one leaves null under the field, or no field at all (`hasArray_iff`).
-/

set_option autoImplicit false

namespace HttpsTest

open UserInfo

/-- The endpoints that answer with an array. -/
inductive Endpoint where
  | superusers | topCountries | teamInsights | activeUsers
  deriving DecidableEq, Repr

namespace Endpoint

open UserHandler

def handler : Endpoint → Externals → Clock → List User → Except Exn HttpResponse
  | superusers => handleGETSuperusers
  | topCountries => handleGetTopCountries
  | teamInsights => handleGetTeamInsights
  | activeUsers => handleGetActiveUsers

def field : Endpoint → Bytes
  | superusers => "data"
  | topCountries => "countries"
  | teamInsights => "teams"
  | activeUsers => "logins"

/-- The number of elements the array is to have. -/
def size : Endpoint → List User → Nat
  | superusers, users => users.countP fun user => user.active ∧ 900 ≤ user.score
  | topCountries, users => min 5 (users.map User.country).dedup.length
  | teamInsights, users => (users.map (·.team.name)).dedup.length
  | activeUsers, users => ((logins users).map Log.date).dedup.length

/-- The list of users has something for the array. -/
def HasElement : Endpoint → List User → Prop
  | superusers, users => ∃ user ∈ users, user.active ∧ 900 ≤ user.score
  | topCountries, users | teamInsights, users => users ≠ []
  | activeUsers, users => ∃ user ∈ users, ∃ log ∈ user.logs, log.action = bytes "login"

/-- The body has the field, and it is an array of the right size; the names of the superusers stand
in upload order. -/
def HasArray (X : Externals) (c : Clock) (users : List User) (e : Endpoint) : Prop :=
  ∃ js xs, UserHandler.Answers X users (e.handler · c users) js ∧
    js.member e.field = .ok (.array xs) ∧ xs.length = e.size users ∧
    (e = superusers → xs = (UserHandler.superusers users).map fun user => .string user.name)

end Endpoint

namespace UserHandler

open Endpoint

variable {X : Externals} {c : Clock} {users : List User}

/-- What is read in the field are the rows, and null if there are none. -/
theorem AnswersRows.array_iff {handler : Externals → Except Exn HttpResponse} {key : Bytes}
    {rows : List Json} (h : AnswersRows X users handler key rows) (P : List Json → Prop) :
    (∃ js xs, Answers X users handler js ∧ js.member key = .ok (.array xs) ∧ P xs) ↔
      rows ≠ [] ∧ P rows := by
  obtain ⟨js, hjs, hmember⟩ := h
  refine ⟨fun harray => ?_, fun hrows => ?_⟩
  · obtain ⟨js', xs, hjs', hmember', hxs⟩ := harray
    rw [hjs'.unique hjs, hmember] at hmember'
    cases rows with
    | nil => cases hmember'
    | cons row rows =>
      cases hmember'
      exact ⟨List.cons_ne_nil _ _, hxs⟩
  · cases rows with
    | nil => exact absurd rfl hrows.1
    | cons row rows => exact ⟨js, _, hjs, hmember, hrows.2⟩

/-- The rows of an endpoint: as many as the array is to have, in upload order for the superusers. -/
theorem endpoint_rows (X : Externals) (c : Clock) (users : List User) (e : Endpoint) :
    ∃ rows, AnswersRows X users (e.handler · c users) e.field rows ∧
      rows.length = e.size users ∧
      (e = .superusers → rows = (superusers users).map fun user => .string user.name) := by
  cases e with
  | superusers =>
    refine ⟨_, superusers_rows X c users, ?_, fun _ => rfl⟩
    rw [List.length_map, superusers, ← List.countP_eq_length_filter]
    rfl
  | topCountries =>
    refine ⟨_, topCountries_rows X c users, ?_, fun h => (by cases h)⟩
    rw [List.length_map, topCountries, List.length_take, (X.sort_perm _).length_eq,
      countryCounts_eq, length_items_collect]
    rfl
  | teamInsights =>
    refine ⟨_, teamInsights_rows X c users, ?_, fun h => (by cases h)⟩
    rw [List.length_map, teamCounts_eq, length_items_collect]
    rfl
  | activeUsers =>
    refine ⟨_, activeUsers_rows X c users, ?_, fun h => (by cases h)⟩
    rw [List.length_map, loginCounts_eq, length_items_collect]
    rfl

theorem length_dedup_pos {α β : Type} [DecidableEq β] {f : α → β} {xs : List α} :
    0 < (xs.map f).dedup.length ↔ xs ≠ [] := by
  rw [List.length_pos_iff, ne_eq, List.dedup_eq_nil, List.map_eq_nil_iff]

/-- The array is to have an element where the list of users has something for it. -/
theorem size_pos_iff (e : Endpoint) (users : List User) :
    0 < e.size users ↔ e.HasElement users := by
  cases e with
  | superusers =>
    rw [Endpoint.size, List.countP_pos_iff]
    simp [HasElement]
  | topCountries =>
    rw [Endpoint.size, lt_min_iff, length_dedup_pos]
    exact and_iff_right (by decide)
  | teamInsights => exact length_dedup_pos
  | activeUsers =>
    rw [Endpoint.size, length_dedup_pos, logins, ne_eq, List.flatMap_eq_nil_iff]
    simp [HasElement, List.filter_eq_nil_iff]

/-- **An endpoint answers with its array** exactly where the list of users has an element for it. -/
theorem hasArray_iff (X : Externals) (c : Clock) (users : List User) (e : Endpoint) :
    e.HasArray X c users ↔ e.HasElement users := by
  obtain ⟨rows, hrows, hlength, hnames⟩ := endpoint_rows X c users e
  have harray := hrows.array_iff fun xs => xs.length = e.size users ∧
    (e = .superusers → xs = (superusers users).map fun user => .string user.name)
  rw [HasArray, harray, and_iff_left ⟨hlength, hnames⟩, ← size_pos_iff, ← hlength,
    List.length_pos_iff]

/-- Before anything was uploaded, `data` is null. -/
theorem data_null : ¬ ∀ (X : Externals) (c : Clock) (users : List User) (e : Endpoint),
    e.HasArray X c users := by
  intro h
  obtain ⟨js, xs, harray, hmember, -⟩ := h fewTexts noon [] .superusers
  obtain ⟨js', hjs', hmember'⟩ := superusers_rows fewTexts noon []
  rw [harray.unique hjs', show Endpoint.superusers.field = "data" from rfl, hmember'] at hmember
  cases hmember

end UserHandler

end HttpsTest
