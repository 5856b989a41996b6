import Mathlib.Algebra.Order.Field.Rat
import Mathlib.Tactic.Linarith
import Mathlib.Tactic.Positivity
import HttpsTest.Lib.Grouping
import HttpsTest.Users.Proof.Tables

/-!
# Counts

What the maps of the aggregating endpoints hold, and with it what the endpoints answer:
`/top-countries` the five greatest countries (`topCountries_spec`), `/team-insights` one record a
team (`teamInsights_spec`), `/active-users-per-day` the logins of each day (`activeUsers_spec`).
-/

set_option autoImplicit false

namespace HttpsTest

namespace UserHandler

open UserInfo Grouping

/-! ## The maps -/

theorem countryCounts_eq (users : List User) :
    countryCounts users = collect User.country 0 (fun n _ => n + 1) users := rfl

theorem teamCounts_eq (users : List User) :
    teamCounts users = collect (fun user => user.team.name) {} addMember users := rfl

/-- The logs `handleGetActiveUsers` counts. -/
def logins (users : List User) : List Log :=
  users.flatMap fun user => user.logs.filter fun log => log.action = bytes "login"

theorem loginCounts_eq (users : List User) :
    loginCounts users = collect Log.date 0 (fun n _ => n + 1) (logins users) := by
  unfold loginCounts collect logins
  rw [List.foldl_flatMap]
  congr 1
  funext m user
  rw [List.foldl_filter]
  simp only [decide_eq_true_eq]
  rfl

/-- The items of a map the elements were collected in. -/
theorem items_collect {α β : Type} (o : HashOrder) (key : β → Bytes) (init : α) (f : α → β → α)
    (xs : List β) : UnorderedMap.items o (collect key init f xs) =
      (o.order (collect key init f xs).keys).map fun k => (k, (group key k xs).foldl f init) := by
  have hitem : ∀ k ∈ o.order (collect key init f xs).keys,
      ((collect key init f xs).lookup k).map (k, ·) =
        some (k, (group key k xs).foldl f init) := by
    intro k hk
    rw [lookup_collect_of_mem (mem_collect.1 ((o.perm _).mem_iff.1 hk))]
    rfl
  rw [UnorderedMap.items, List.filterMap_congr hitem, List.filterMap_eq_map']

/-- The keys in iteration order are the distinct keys of the elements. -/
theorem order_collect {α β : Type} (o : HashOrder) (key : β → Bytes) (init : α) (f : α → β → α)
    (xs : List β) : (o.order (collect key init f xs).keys).Perm (xs.map key).dedup :=
  (o.perm _).trans (keys_collect xs)

theorem length_items_collect {α β : Type} (o : HashOrder) (key : β → Bytes) (init : α)
    (f : α → β → α) (xs : List β) :
    (UnorderedMap.items o (collect key init f xs)).length = (xs.map key).dedup.length := by
  rw [items_collect, List.length_map, (order_collect o key init f xs).length_eq]

theorem foldl_count {β : Type} (xs : List β) (n : Int) :
    xs.foldl (fun n _ => n + 1) n = n + xs.length := by
  induction xs generalizing n with
  | nil => simp
  | cons x xs ih =>
    rw [List.foldl_cons, ih, List.length_cons]
    omega

/-! ## Countries -/

/-- The number of users of a country. -/
def countryTotal (users : List User) (country : Bytes) : Nat :=
  users.countP fun user => user.country = country

theorem countryItems (o : HashOrder) (users : List User) :
    UnorderedMap.items o (countryCounts users) =
      (o.order (countryCounts users).keys).map fun k => (k, (countryTotal users k : Int)) := by
  rw [countryCounts_eq, items_collect]
  apply List.map_congr_left
  intro k _
  rw [foldl_count, group, ← List.countP_eq_length_filter, Int.zero_add]
  rfl

/-- The countries, the greatest totals first. -/
theorem sorted_countries (X : Externals) (users : List User) : ∃ countries : List Bytes,
    X.sortByTotal (UnorderedMap.items X.hashOrder (countryCounts users)) =
      countries.map (fun k => (k, (countryTotal users k : Int))) ∧
    countries.Perm (users.map User.country).dedup ∧
    countries.Pairwise fun a b => countryTotal users b ≤ countryTotal users a := by
  have hperm := X.sort_perm (UnorderedMap.items X.hashOrder (countryCounts users))
  have hsorted := X.sort_sorted (UnorderedMap.items X.hashOrder (countryCounts users))
  rw [countryItems] at hperm hsorted ⊢
  generalize X.sortByTotal _ = sorted at hperm hsorted
  -- a pair keeps its total, so the order of the pairs is an order of the countries
  have htotals : sorted = (sorted.map Prod.fst).map fun k => (k, (countryTotal users k : Int)) := by
    rw [List.map_map]
    refine (List.map_id sorted).symm.trans (List.map_congr_left fun p hp => ?_)
    obtain ⟨k, -, rfl⟩ := List.mem_map.1 (hperm.mem_iff.1 hp)
    rfl
  refine ⟨sorted.map Prod.fst, htotals, ?_, ?_⟩
  · have hkeys := hperm.map Prod.fst
    rw [List.map_map] at hkeys
    exact (hkeys.trans (.of_eq (List.map_id _))).trans
      (order_collect X.hashOrder User.country 0 (fun n _ => n + 1) users)
  · rw [htotals] at hsorted
    rw [List.pairwise_map] at hsorted
    exact hsorted.imp fun h => Int.ofNat_le.1 h

/-- The rows are those of the first five. -/
theorem topCountries_totals (X : Externals) (c : Clock) (users : List User) :
    ∃ countries : List Bytes,
      AnswersRows X users (handleGetTopCountries · c users) "countries"
        ((countries.take 5).map fun k => countryRow (k, countryTotal users k)) ∧
      countries.Perm (users.map User.country).dedup ∧
      countries.Pairwise fun a b => countryTotal users b ≤ countryTotal users a := by
  obtain ⟨countries, hsort, hperm, hsorted⟩ := sorted_countries X users
  have htop : topCountries X users =
      (countries.take 5).map fun k => (k, (countryTotal users k : Int)) := by
    rw [topCountries, hsort, List.map_take]
  have hrows := topCountries_rows X c users
  rw [htop, List.map_map] at hrows
  exact ⟨countries, hrows, hperm, hsorted⟩

/-- **The top countries**: five of the countries, or all of them, each with the number of its users;
none that is left out has more users than one that is listed. -/
theorem topCountries_spec (X : Externals) (c : Clock) (users : List User) :
    ∃ listed : List Bytes,
      AnswersRows X users (handleGetTopCountries · c users) "countries"
        (listed.map fun k => countryRow (k, countryTotal users k)) ∧
      listed.length = min 5 (users.map User.country).dedup.length ∧
      listed.Nodup ∧ (∀ k ∈ listed, k ∈ users.map User.country) ∧
      (listed.Pairwise fun a b => countryTotal users b ≤ countryTotal users a) ∧
      ∀ k ∈ users.map User.country, k ∉ listed →
        ∀ a ∈ listed, countryTotal users k ≤ countryTotal users a := by
  obtain ⟨countries, hrows, hperm, hsorted⟩ := topCountries_totals X c users
  have hmem (k : Bytes) : k ∈ countries ↔ k ∈ users.map User.country := by
    rw [hperm.mem_iff, List.mem_dedup]
  refine ⟨countries.take 5, hrows, by rw [List.length_take, hperm.length_eq], ?_, ?_,
    hsorted.sublist (List.take_sublist 5 _), ?_⟩
  · exact (hperm.nodup_iff.2 (List.nodup_dedup _)).sublist (List.take_sublist 5 _)
  · intro k hk
    exact (hmem k).1 (List.mem_of_mem_take hk)
  · intro k hk hleft a ha
    rw [← List.take_append_drop 5 countries, List.pairwise_append] at hsorted
    have hdrop : k ∈ countries.drop 5 := by
      have hall := (hmem k).2 hk
      rw [← List.take_append_drop 5 countries, List.mem_append] at hall
      exact hall.resolve_left hleft
    exact hsorted.2.2 a ha k hdrop

/-! ## Teams -/

/-- The users of a team. -/
def members (users : List User) (team : Bytes) : List User :=
  users.filter fun user => user.team.name = team

def completedProjects (members : List User) : Nat :=
  (members.flatMap (·.team.projects)).countP (·.completed)

def activePercentage (members : List User) : ℚ := 100 * members.countP (·.active) / members.length

/-- The record of a team that has the given members. -/
def teamReport (team : Bytes) (members : List User) : Json :=
  .object [("team", .string team), ("total_members", .integer members.length),
    ("active_percentage", .floating (activePercentage members)),
    ("leaders", .integer (members.countP (·.team.leader))),
    ("completed_projects", .integer (completedProjects members))]

theorem foldl_projects (projects : List Project) (t : TeamCounts) :
    projects.foldl (fun t project =>
      let t := { t with projects := t.projects + 1 }
      if project.completed then { t with completedProjects := t.completedProjects + 1 } else t) t =
    { t with projects := t.projects + projects.length,
             completedProjects := t.completedProjects + projects.countP (·.completed) } := by
  induction projects generalizing t with
  | nil => simp
  | cons project projects ih =>
    rw [List.foldl_cons, ih]
    cases hcompleted : project.completed <;> simp [hcompleted] <;> omega

/-- What the members add to the five counters of their team. -/
theorem foldl_addMember (members : List User) (t : TeamCounts) :
    members.foldl addMember t =
      { totalMembers := t.totalMembers + members.length
        activeMembers := t.activeMembers + members.countP (·.active)
        leaders := t.leaders + members.countP (·.team.leader)
        projects := t.projects + (members.flatMap (·.team.projects)).length
        completedProjects := t.completedProjects + completedProjects members } := by
  induction members generalizing t with
  | nil => simp [completedProjects]
  | cons user members ih =>
    rw [List.foldl_cons, ih, addMember, foldl_projects]
    cases hactive : user.active <;> cases hleader : user.team.leader <;>
      simp [hactive, hleader, completedProjects] <;> omega

theorem teamRow_members (team : Bytes) (members : List User) :
    teamRow (team, members.foldl addMember {}) = teamReport team members := by
  rw [foldl_addMember]
  simp [teamRow, teamReport, activePercentage, mul_comm]

/-- Each project that is completed is a project of the team. -/
theorem completedProjects_le (members : List User) :
    completedProjects members ≤ (members.flatMap (·.team.projects)).length :=
  List.countP_le_length

theorem activePercentage_bounds (members : List User) :
    0 ≤ activePercentage members ∧ activePercentage members ≤ 100 := by
  have hactive : (members.countP (·.active) : ℚ) ≤ members.length := by
    exact_mod_cast List.countP_le_length
  have hpos : (0 : ℚ) ≤ members.length := by positivity
  unfold activePercentage
  refine ⟨by positivity, div_le_of_le_mul₀ hpos (by norm_num) ?_⟩
  linarith

/-- The records are those of the distinct teams. -/
theorem teamInsights_reports (X : Externals) (c : Clock) (users : List User) :
    ∃ teams : List Bytes,
      AnswersRows X users (handleGetTeamInsights · c users) "teams"
        (teams.map fun team => teamReport team (members users team)) ∧
      teams.Perm (users.map (·.team.name)).dedup := by
  have hrows := teamInsights_rows X c users
  have hperm := order_collect X.hashOrder (fun user : User => user.team.name) {} addMember users
  rw [teamCounts_eq, items_collect, List.map_map] at hrows
  generalize X.hashOrder.order _ = teams at hrows hperm
  refine ⟨teams, ?_, hperm⟩
  rwa [List.map_congr_left fun team _ => (teamRow_members team (members users team)).symm]

/-- **The team insights**: one record a team, of exactly its members. -/
theorem teamInsights_spec (X : Externals) (c : Clock) (users : List User) :
    ∃ teams : List Bytes,
      AnswersRows X users (handleGetTeamInsights · c users) "teams"
        (teams.map fun team => teamReport team (members users team)) ∧
      teams.Nodup ∧ (∀ team, team ∈ teams ↔ team ∈ users.map (·.team.name)) ∧
      (∀ team ∈ teams, 1 ≤ (members users team).length ∧
        0 ≤ activePercentage (members users team) ∧
        activePercentage (members users team) ≤ 100 ∧
        completedProjects (members users team) ≤
          ((members users team).flatMap (·.team.projects)).length) ∧
      (teams.map fun team => (members users team).length).sum = users.length := by
  obtain ⟨teams, hrows, hperm⟩ := teamInsights_reports X c users
  have hmem (team : Bytes) : team ∈ teams ↔ team ∈ users.map (·.team.name) := by
    rw [hperm.mem_iff, List.mem_dedup]
  refine ⟨teams, hrows, hperm.nodup_iff.2 (List.nodup_dedup _), hmem, ?_, sum_group hperm⟩
  intro team hteam
  obtain ⟨hlo, hhi⟩ := activePercentage_bounds (members users team)
  refine ⟨?_, hlo, hhi, completedProjects_le _⟩
  obtain ⟨user, huser, hname⟩ := List.mem_map.1 ((hmem team).1 hteam)
  exact List.length_pos_of_mem (mem_group.2 ⟨huser, hname⟩)

/-! ## Logins -/

/-- The number of logins on a date, over all users and all their logs. -/
def loginTotal (users : List User) (date : Bytes) : Nat :=
  (users.flatMap (·.logs)).countP fun log => log.action = bytes "login" ∧ log.date = date

theorem logins_eq_filter (users : List User) :
    logins users = (users.flatMap (·.logs)).filter fun log => log.action = bytes "login" := by
  unfold logins
  rw [List.filter_flatMap]

theorem length_group_logins (users : List User) (date : Bytes) :
    (group Log.date date (logins users)).length = loginTotal users date := by
  rw [logins_eq_filter, group, List.filter_filter, ← List.countP_eq_length_filter, loginTotal]
  apply List.countP_congr
  intro log _
  simp [and_comm]

/-- The rows are those of the distinct dates of the logins. -/
theorem activeUsers_totals (X : Externals) (c : Clock) (users : List User) :
    ∃ dates : List Bytes,
      AnswersRows X users (handleGetActiveUsers · c users) "logins"
        (dates.map fun date => loginRow (date, loginTotal users date)) ∧
      dates.Perm ((logins users).map Log.date).dedup := by
  have hrows := activeUsers_rows X c users
  have hperm := order_collect X.hashOrder Log.date (0 : Int) (fun n _ => n + 1) (logins users)
  rw [loginCounts_eq, items_collect, List.map_map] at hrows
  generalize X.hashOrder.order _ = dates at hrows hperm
  have hrow (date : Bytes) : loginRow (date, (group Log.date date (logins users)).foldl
      (fun n _ => n + 1) 0) = loginRow (date, loginTotal users date) := by
    rw [foldl_count, length_group_logins, Int.zero_add]
  refine ⟨dates, ?_, hperm⟩
  rwa [List.map_congr_left fun date _ => (hrow date).symm]

/-- **The active users**: every date with a login, with the number of the logins on it. -/
theorem activeUsers_spec (X : Externals) (c : Clock) (users : List User) :
    ∃ dates : List Bytes,
      AnswersRows X users (handleGetActiveUsers · c users) "logins"
        (dates.map fun date => loginRow (date, loginTotal users date)) ∧
      dates.Nodup ∧
      (∀ date, date ∈ dates ↔
        ∃ user ∈ users, ∃ log ∈ user.logs, log.action = bytes "login" ∧ log.date = date) ∧
      (dates.map (loginTotal users)).sum =
        (users.flatMap (·.logs)).countP fun log => log.action = bytes "login" := by
  obtain ⟨dates, hrows, hperm⟩ := activeUsers_totals X c users
  refine ⟨dates, hrows, hperm.nodup_iff.2 (List.nodup_dedup _), fun date => ?_, ?_⟩
  · rw [hperm.mem_iff, List.mem_dedup, logins_eq_filter]
    simp only [List.mem_map, List.mem_filter, List.mem_flatMap, decide_eq_true_eq]
    grind
  · have hsum := sum_group hperm
    rwa [logins_eq_filter, ← List.countP_eq_length_filter, ← logins_eq_filter,
      List.map_congr_left fun date _ => length_group_logins users date] at hsum

end UserHandler

end HttpsTest
