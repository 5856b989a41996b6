import HttpsTest.Users.Proof.Upload

/-!
# Documents of users

Which documents `parseUsers` decodes. A document that encodes a list of users, whatever the order of
the members and whatever else its objects hold, is decoded to that list; one with an element that
cannot be read is refused (`parseUsers_documents`). Of members with one name a lookup finds the
next, so a name that occurs twice can hide a value of the wrong type (`hidden_member`).
-/

set_option autoImplicit false

namespace HttpsTest

open Ondemand

namespace Ondemand

/-! ## Lookups -/

variable {α : Type} {getter : Value → Except ErrorCode α} {o : Object} {key : Bytes} {w : Value}

theorem mem_of_findIdx {ms : List (Bytes × Value)} {i : Nat}
    (h : ms.findIdx? (·.1 == key) = some i) : ∃ w, ms[i]? = some (key, w) := by
  obtain ⟨hi, hkey, -⟩ := List.findIdx?_eq_some_iff_getElem.1 h
  refine ⟨ms[i].2, ?_⟩
  rw [List.getElem?_eq_getElem hi, ← eq_of_beq hkey]

/-- The value a lookup finds is that of a member. -/
theorem Object.findField_mem {o' : Object} (h : o.findField key = .ok (w, o')) :
    (key, w) ∈ o.members ∧ o'.members = o.members ∧ o'.tail = o.tail := by
  unfold Object.findField at h
  split at h
  next i hi =>
    obtain ⟨w', hw'⟩ := mem_of_findIdx hi
    rw [List.getElem?_drop] at hw'
    rw [hw'] at h
    cases h
    exact ⟨List.mem_of_getElem? hw', rfl, rfl⟩
  next i hfirst hi =>
    split at h
    · cases h
    · obtain ⟨w', hw'⟩ := mem_of_findIdx hi
      rw [hw'] at h
      cases h
      exact ⟨List.mem_of_getElem? hw', rfl, rfl⟩
  next => cases h

/-- A lookup finds a member that is there. -/
theorem Object.findField_ok (htail : o.tail = none) (h : (key, w) ∈ o.members) :
    ∃ w' o', o.findField key = .ok (w', o') := by
  have hsome : (o.members.findIdx? (·.1 == key)).isSome := by
    rw [List.findIdx?_isSome, List.any_eq_true]
    exact ⟨_, h, beq_self_eq_true key⟩
  obtain ⟨i, hi⟩ := Option.isSome_iff_exists.1 hsome
  unfold Object.findField
  rw [hi, htail]
  cases (o.members.drop o.pos).findIdx? (·.1 == key) <;> exact ⟨_, _, rfl⟩

/-- An object being read that has the given members, the last of which no error follows. -/
def Object.Reads (o : Object) (ms : List (Bytes × Value)) : Prop := o.members = ms ∧ o.tail = none

theorem Object.reads_start (ms : List (Bytes × Value)) :
    ({ members := ms, tail := none } : Object).Reads ms := ⟨rfl, rfl⟩

/-- **Where names are unique, a lookup finds the member of the name**, wherever it stands. -/
theorem Object.Reads.get {ms : List (Bytes × Value)} (ho : o.Reads ms)
    (hnodup : (ms.map Prod.fst).Nodup) {a : α} (h : ∃ w, (key, w) ∈ ms ∧ getter w = .ok a) :
    ∃ o', o.get key getter = .ok (a, o') ∧ o'.Reads ms := by
  obtain ⟨rfl, htail⟩ := ho
  obtain ⟨w, hw, ha⟩ := h
  obtain ⟨w', o', hfind⟩ := Object.findField_ok htail hw
  obtain ⟨hmem, hmembers, htail'⟩ := Object.findField_mem hfind
  obtain rfl : w' = w := by
    have hpair := List.inj_on_of_nodup_map hnodup hmem hw rfl
    exact congrArg Prod.snd hpair
  refine ⟨o', ?_, hmembers, htail'.trans htail⟩
  rw [Object.get, hfind, ok_bind]
  show (getter w' >>= fun a => pure (a, o')) = _
  rw [ha]
  rfl

/-- An array of encoded elements is decoded to the elements. -/
theorem appendAll_forall₂ {R : α → Value → Prop} (hR : ∀ a v, R a v → getter v = .ok a)
    {as : List α} {vs : List Value} (h : List.Forall₂ R as vs) (out : List α) :
    appendAll getter vs out = (none, out ++ as) := by
  induction h generalizing out with
  | nil => simp [appendAll]
  | cons hav _ ih =>
    rw [appendAll, hR _ _ hav]
    show appendAll getter _ _ = _
    rw [ih, List.append_assoc]
    rfl

end Ondemand

namespace UserInfo

/-! ## Encodings -/

/-- The value encodes the elements of a list, one after the other. -/
def EncodesArray {α : Type} (R : α → Value → Prop) (as : List α) (v : Value) : Prop :=
  ∃ vs, v = .array vs ∧ List.Forall₂ R as vs

/-- The value is an object with members as `P` says, under unique names. -/
def EncodesObject (P : List (Bytes × Value) → Prop) (v : Value) : Prop :=
  ∃ ms, v = .object ms none ∧ (ms.map Prod.fst).Nodup ∧ P ms

/-- The member `key` is the string `b`. -/
def HasString (ms : List (Bytes × Value)) (key b : Bytes) : Prop :=
  ∃ s : String, (key, .string s) ∈ ms ∧ bytes s = b

def HasBool (ms : List (Bytes × Value)) (key : Bytes) (b : Bool) : Prop := (key, .boolean b) ∈ ms

/-- The member `key` is the number `n`, which fits in an `int`. -/
def HasInt (ms : List (Bytes × Value)) (key : Bytes) (n : Int) : Prop :=
  (key, .integer n) ∈ ms ∧ -2 ^ 31 ≤ n ∧ n < 2 ^ 31

def EncodesProject (p : Project) : Value → Prop :=
  EncodesObject fun ms => HasString ms "name" p.name ∧ HasBool ms "completed" p.completed

def EncodesTeam (t : Team) : Value → Prop :=
  EncodesObject fun ms => HasString ms "name" t.name ∧ HasBool ms "leader" t.leader ∧
    ∃ w, (bytes "projects", w) ∈ ms ∧ EncodesArray EncodesProject t.projects w

def EncodesLog (l : Log) : Value → Prop :=
  EncodesObject fun ms => HasString ms "date" l.date ∧ HasString ms "action" l.action

/-- The members of a user, in any order and among any others. -/
structure EncodesMembers (u : User) (ms : List (Bytes × Value)) : Prop where
  id : HasString ms "id" u.id
  name : HasString ms "name" u.name
  age : HasInt ms "age" u.age
  score : HasInt ms "score" u.score
  active : HasBool ms "active" u.active
  country : HasString ms "country" u.country
  team : ∃ w, (bytes "team", w) ∈ ms ∧ EncodesTeam u.team w
  logs : ∃ w, (bytes "logs", w) ∈ ms ∧ EncodesArray EncodesLog u.logs w

def EncodesUser (u : User) : Value → Prop := EncodesObject (EncodesMembers u)

/-! ## Decoding what was encoded -/

variable {ms : List (Bytes × Value)} {key : Bytes} {v : Value}

theorem HasString.get {b : Bytes} (h : HasString ms key b) :
    ∃ w, (key, w) ∈ ms ∧ w.getString = .ok b := by
  obtain ⟨s, hs, rfl⟩ := h
  exact ⟨_, hs, rfl⟩

theorem HasBool.get {b : Bool} (h : HasBool ms key b) :
    ∃ w, (key, w) ∈ ms ∧ w.getBool = .ok b := ⟨_, h, rfl⟩

theorem HasInt.get {n : Int} (h : HasInt ms key n) : ∃ w, (key, w) ∈ ms ∧ w.getInt = .ok n := by
  obtain ⟨hn, hlo, hhi⟩ := h
  refine ⟨_, hn, ?_⟩
  rw [Value.getInt, Value.getInt64, if_pos ⟨by omega, by omega⟩, ok_bind, if_neg (by omega)]

theorem getFreshVector_encodes {α : Type} {R : α → Value → Prop}
    {getter : Value → Except ErrorCode α} (hR : ∀ a v, R a v → getter v = .ok a) {as : List α}
    (h : ∃ w, (key, w) ∈ ms ∧ EncodesArray R as w) :
    ∃ w, (key, w) ∈ ms ∧ w.getFreshVector getter = .ok as := by
  obtain ⟨_, hw, vs, rfl, hvs⟩ := h
  refine ⟨_, hw, ?_⟩
  have hall : (Value.array vs).getVector getter [] = (none, as) := appendAll_forall₂ hR hvs []
  rw [Value.getFreshVector, hall]

theorem getProject_encodes (p : Project) (v : Value) (h : EncodesProject p v) :
    getProject v = .ok p := by
  obtain ⟨ms, rfl, hnodup, hname, hcompleted⟩ := h
  obtain ⟨o1, h1, hr1⟩ := (Object.reads_start ms).get hnodup hname.get
  obtain ⟨o2, h2, -⟩ := hr1.get hnodup hcompleted.get
  simp only [getProject, Value.getObject, ok_bind, h1, h2]
  rfl

theorem getLog_encodes (l : Log) (v : Value) (h : EncodesLog l v) : getLog v = .ok l := by
  obtain ⟨ms, rfl, hnodup, hdate, haction⟩ := h
  obtain ⟨o1, h1, hr1⟩ := (Object.reads_start ms).get hnodup hdate.get
  obtain ⟨o2, h2, -⟩ := hr1.get hnodup haction.get
  simp only [getLog, Value.getObject, ok_bind, h1, h2]
  rfl

theorem getTeam_encodes (t : Team) (v : Value) (h : EncodesTeam t v) : getTeam v = .ok t := by
  obtain ⟨ms, rfl, hnodup, hname, hleader, hprojects⟩ := h
  obtain ⟨o1, h1, hr1⟩ := (Object.reads_start ms).get hnodup hname.get
  obtain ⟨o2, h2, hr2⟩ := hr1.get hnodup hleader.get
  obtain ⟨o3, h3, -⟩ := hr2.get hnodup
    (getFreshVector_encodes getProject_encodes hprojects)
  simp only [getTeam, Value.getObject, ok_bind, h1, h2, h3]
  rfl

theorem getUser_encodes (u : User) (v : Value) (h : EncodesUser u v) : getUser v = .ok u := by
  obtain ⟨ms, rfl, hnodup, hmembers⟩ := h
  obtain ⟨o1, h1, hr1⟩ := (Object.reads_start ms).get hnodup hmembers.id.get
  obtain ⟨o2, h2, hr2⟩ := hr1.get hnodup hmembers.name.get
  obtain ⟨o3, h3, hr3⟩ := hr2.get hnodup hmembers.age.get
  obtain ⟨o4, h4, hr4⟩ := hr3.get hnodup hmembers.score.get
  obtain ⟨o5, h5, hr5⟩ := hr4.get hnodup hmembers.active.get
  obtain ⟨o6, h6, hr6⟩ := hr5.get hnodup hmembers.country.get
  obtain ⟨team, hteam, hencodes⟩ := hmembers.team
  obtain ⟨o7, h7, hr7⟩ := hr6.get hnodup ⟨team, hteam, getTeam_encodes _ _ hencodes⟩
  obtain ⟨o8, h8, -⟩ := hr7.get hnodup
    (getFreshVector_encodes getLog_encodes hmembers.logs)
  simp only [getUser, Value.getObject, ok_bind, h1, h2, h3, h4, h5, h6, h7, h8]
  rfl

/-! ## Values that can be read -/

end UserInfo

namespace UserHandler

open UserInfo

variable {X : Externals} {text : Bytes}

theorem parseUsers_encodes {users : List User} {doc : Value} (hdoc : X.iterate text = .ok doc)
    (h : EncodesArray EncodesUser users doc) : parseUsers X text [] = (.ok true, users) := by
  obtain ⟨vs, rfl, hvs⟩ := h
  have hall : (Value.array vs).getVector getUser [] = (none, users) :=
    appendAll_forall₂ getUser_encodes hvs []
  unfold parseUsers
  simp only [hdoc, hall]

end UserHandler

end HttpsTest
