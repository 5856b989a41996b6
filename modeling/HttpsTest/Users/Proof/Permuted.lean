import HttpsTest.Lib.Ranking
import HttpsTest.Users.Proof.Counts

/-!
# Uploads in another order

What two uploads of the same users in different orders have in common (`aggregates_perm`): the
records of the teams, the logins of the days, and of the top countries those that do not tie at the
cut. Which of the countries that tie there are listed is up to the hash maps (`ties_differ`).
-/

set_option autoImplicit false

namespace HttpsTest

namespace UserHandler

open UserInfo Ranking

/-- What an endpoint answers from: the users of the last upload, the iteration order their hash maps
get and the time. -/
structure Served where
  users : List User
  order : HashOrder
  clock : Clock

/-- An endpoint answers with the rows. -/
def Served.Rows (X : Externals) (s : Served)
    (handler : Externals → Clock → List User → Except Exn HttpResponse) (key : Bytes)
    (rows : List Json) : Prop :=
  AnswersRows { X with hashOrder := s.order } s.users (handler · s.clock s.users) key rows

/-- The rows of an endpoint in two answers are related by `R`. -/
def Related (X : Externals) (s s' : Served)
    (handler : Externals → Clock → List User → Except Exn HttpResponse) (key : Bytes)
    (R : List Json → List Json → Prop) : Prop :=
  ∃ rows rows', s.Rows X handler key rows ∧ s'.Rows X handler key rows' ∧ R rows rows'

/-- A country that does not tie at the cut: five countries have more users, or no more than five
have as many or more. -/
def DecidedCountry (users : List User) (country : Bytes) : Prop :=
  Decided (countryTotal users) 5 (users.map User.country).dedup country

section

variable {users users' : List User} (h : users.Perm users')
include h

theorem countryTotal_perm : countryTotal users = countryTotal users' := by
  funext country
  exact h.countP_eq _

theorem teamReport_perm (team : Bytes) :
    teamReport team (members users team) = teamReport team (members users' team) := by
  have hmembers : (members users team).Perm (members users' team) := h.filter _
  have hcompleted : completedProjects (members users team) =
      completedProjects (members users' team) :=
    (hmembers.flatMap_right _).countP_eq _
  rw [teamReport, teamReport, hcompleted, activePercentage, activePercentage, hmembers.length_eq,
    hmembers.countP_eq, hmembers.countP_eq]

theorem loginTotal_perm (date : Bytes) : loginTotal users date = loginTotal users' date :=
  (h.flatMap_right _).countP_eq _

end

/-- Rows with the same keys and the same values. -/
theorem rows_perm {row row' : Bytes → Json} {keys keys' ks ks' : List Bytes}
    (h : keys.Perm ks.dedup) (h' : keys'.Perm ks'.dedup) (hks : ks.Perm ks')
    (hrow : ∀ k, row k = row' k) : (keys.map row).Perm (keys'.map row') := by
  rw [funext hrow]
  exact ((h.trans hks.dedup).trans h'.symm).map row'

theorem mem_pairs {f : Bytes → Int} {keys : List Bytes} {p : Bytes × Int} :
    p ∈ keys.map (fun k => (k, f k)) ↔ p.1 ∈ keys ∧ f p.1 = p.2 := by
  rw [List.mem_map]
  refine ⟨fun hp => ?_, fun hp => ?_⟩
  · obtain ⟨k, hk, rfl⟩ := hp
    exact ⟨hk, rfl⟩
  · exact ⟨p.1, hp.1, by rw [hp.2]⟩

/-- The same totals in the same places, and the same countries but for those that tie at the cut. -/
def SameButTies (users : List User) (rows rows' : List Json) : Prop :=
  ∃ top top' : List (Bytes × Int), rows = top.map countryRow ∧ rows' = top'.map countryRow ∧
    top.map Prod.snd = top'.map Prod.snd ∧
    ∀ p, DecidedCountry users p.1 → (p ∈ top ↔ p ∈ top')

theorem topCountries_perm (X : Externals) (s s' : Served) (h : s.users.Perm s'.users) :
    Related X s s' handleGetTopCountries "countries" (SameButTies s.users) := by
  obtain ⟨l, hrows, hperm, hranked⟩ :=
    topCountries_totals { X with hashOrder := s.order } s.clock s.users
  obtain ⟨l', hrows', hperm', hranked'⟩ :=
    topCountries_totals { X with hashOrder := s'.order } s'.clock s'.users
  rw [← countryTotal_perm h] at hrows' hranked'
  have hll : l.Perm l' := (hperm.trans (h.map User.country).dedup).trans hperm'.symm
  refine ⟨_, _, hrows, hrows', (l.take 5).map fun k => (k, countryTotal s.users k),
    (l'.take 5).map fun k => (k, countryTotal s.users k), ?_, ?_, ?_, ?_⟩
  · rw [List.map_map]
    rfl
  · rw [List.map_map]
    rfl
  · have htotals := congrArg (List.map Int.ofNat ∘ List.take 5)
      (map_eq_of_perm hranked hranked' hll)
    simpa [List.map_take, Function.comp_def] using htotals
  · intro p hp
    have hdecided : Decided (countryTotal s.users) 5 l p.1 := (decided_perm hperm).2 hp
    have htake : p.1 ∈ l.take 5 ↔ p.1 ∈ l'.take 5 := by
      rw [mem_take_iff hranked hdecided, mem_take_iff hranked' ((decided_perm hll).1 hdecided),
        hll.mem_iff, ahead_perm hll]
    rw [mem_pairs, mem_pairs, htake]

/-- **The aggregates of uploads in different orders**: the same records of teams, the same logins,
and the same top countries but for those that tie at the cut. -/
theorem aggregates_perm (X : Externals) (s s' : Served) (h : s.users.Perm s'.users) :
    Related X s s' handleGetTopCountries "countries" (SameButTies s.users) ∧
      Related X s s' handleGetTeamInsights "teams" List.Perm ∧
      Related X s s' handleGetActiveUsers "logins" List.Perm := by
  refine ⟨topCountries_perm X s s' h, ?_, ?_⟩
  · obtain ⟨teams, hrows, hperm⟩ :=
      teamInsights_reports { X with hashOrder := s.order } s.clock s.users
    obtain ⟨teams', hrows', hperm'⟩ :=
      teamInsights_reports { X with hashOrder := s'.order } s'.clock s'.users
    exact ⟨_, _, hrows, hrows', rows_perm hperm hperm' (h.map _) (teamReport_perm h)⟩
  · obtain ⟨dates, hrows, hperm⟩ :=
      activeUsers_totals { X with hashOrder := s.order } s.clock s.users
    obtain ⟨dates', hrows', hperm'⟩ :=
      activeUsers_totals { X with hashOrder := s'.order } s'.clock s'.users
    refine ⟨_, _, hrows, hrows', rows_perm hperm hperm' ((h.flatMap_right _).map _) fun date => ?_⟩
    rw [loginTotal_perm h]

/-- A user of whom only the country matters. -/
def citizen (country : Bytes) : User :=
  { id := "1", name := "Ana", age := 30, score := 900, active := true, country
    team := { name := "Red", leader := true, projects := [] }, logs := [] }

/-- Two countries do not tie at the cut. -/
theorem aggregates_two :
    let s : Served := ⟨[citizen "BR", citizen "PT"], .listed, noon⟩
    let s' : Served := ⟨[citizen "PT", citizen "BR"], .listed, noon⟩
    Related fewTexts s s' handleGetTopCountries "countries" (SameButTies s.users) ∧
      DecidedCountry s.users "BR" ∧ DecidedCountry s.users "PT" := by
  intro s s'
  have h := aggregates_perm fewTexts s s' (List.Perm.swap (citizen "PT") (citizen "BR") [])
  exact ⟨h.1, by unfold DecidedCountry; decide, by unfold DecidedCountry; decide⟩

/-- Of six countries with a user each, the last five are listed: another one is missing when the
users come in the opposite order. -/
theorem ties_differ : ¬ ∀ (X : Externals) (s s' : Served), s.users.Perm s'.users →
    Related X s s' handleGetTopCountries "countries" (fun rows rows' =>
      ∀ row, row ∈ rows ↔ row ∈ rows') ∧
    Related X s s' handleGetTeamInsights "teams" List.Perm ∧
    Related X s s' handleGetActiveUsers "logins" List.Perm := by
  intro h
  let six := ["AR", "BR", "CL", "DE", "ES", "FR"].map fun country : String => citizen country
  obtain ⟨⟨rows, rows', hrows, hrows', hsame⟩, -⟩ := h fewTexts ⟨six, .listed, noon⟩
    ⟨six.reverse, .listed, noon⟩ (List.reverse_perm six).symm
  -- all totals are the same, so sorting changes nothing
  have hsort (users : List User)
      (hties : (UnorderedMap.items .listed (countryCounts users)).Pairwise
        fun a b => decide (b.2 ≤ a.2)) : topCountries fewTexts users =
          (UnorderedMap.items .listed (countryCounts users)).take 5 :=
    congrArg (List.take 5) (List.mergeSort_of_pairwise hties)
  have hleft := hrows.unique (topCountries_rows fewTexts noon six)
  have hright := hrows'.unique (topCountries_rows fewTexts noon six.reverse)
  rw [hsort six (by decide +kernel)] at hleft
  rw [hsort six.reverse (by decide +kernel)] at hright
  have hmem : countryRow (bytes "AR", 1) ∈ rows := by
    rw [hsame, hright]
    exact List.mem_map_of_mem (by decide +kernel)
  rw [hleft] at hmem
  obtain ⟨⟨k, n⟩, hp, hrow⟩ := List.mem_map.1 hmem
  obtain ⟨rfl, rfl⟩ : k = bytes "AR" ∧ n = 1 := by simpa [countryRow] using hrow
  revert hp
  decide +kernel

end UserHandler

end HttpsTest
