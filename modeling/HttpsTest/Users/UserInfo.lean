import HttpsTest.Base

/-!
# User records and their deserialisation

`UserInfo` and its `tag_invoke` overloads. simdjson reads a document lazily: `Ondemand.Value` is the
tree of what its accessors find in a text, with an error code where reading fails. A string is a
Lean `String`, because simdjson accepts only valid UTF-8. Containers are filled element by element
and keep the elements before a bad one (`appendAll`).
-/

set_option autoImplicit false

namespace HttpsTest

namespace Ondemand

/-- What on-demand reading finds. -/
inductive Value where
  | null
  | boolean (b : Bool)
  | integer (n : Int)
  /-- A number that is no integer. -/
  | fraction
  | string (s : String)
  | array (xs : List Value)
  /-- The members, and the error met behind the last one, if any. -/
  | object (members : List (Bytes × Value)) (tail : Option ErrorCode)
  | malformed (e : ErrorCode)

/-- An object being read: the next search starts behind the member found last. -/
structure Object where
  members : List (Bytes × Value)
  tail : Option ErrorCode
  pos : Nat := 0

namespace Value

def getObject : Value → Except ErrorCode Object
  | object members tail => .ok { members, tail }
  | malformed e => .error e
  | _ => .error .incorrectType

def getArray : Value → Except ErrorCode (List Value)
  | array xs => .ok xs
  | malformed e => .error e
  | _ => .error .incorrectType

def getString : Value → Except ErrorCode Bytes
  | string s => .ok (bytes s)
  | malformed e => .error e
  | _ => .error .incorrectType

def getBool : Value → Except ErrorCode Bool
  | boolean b => .ok b
  | malformed e => .error e
  | _ => .error .incorrectType

def getInt64 : Value → Except ErrorCode Int
  | integer n => if -2 ^ 63 ≤ n ∧ n < 2 ^ 63 then .ok n else .error .numberError
  | malformed e => .error e
  | _ => .error .incorrectType

/-- `get<int>`. -/
def getInt (v : Value) : Except ErrorCode Int := do
  let x ← v.getInt64
  if x < -2 ^ 31 ∨ 2 ^ 31 ≤ x then .error .numberOutOfRange else .ok x

end Value

/-- `find_field_unordered`: from the current position to the end, then from the beginning. -/
def Object.findField (o : Object) (key : Bytes) : Except ErrorCode (Value × Object) :=
  match (o.members.drop o.pos).findIdx? (·.1 == key), o.members.findIdx? (·.1 == key) with
  | some i, _ => .ok (((o.members[o.pos + i]?).elim .null (·.2)), { o with pos := o.pos + i + 1 })
  | none, some i =>
    match o.tail with
    | some e => .error e
    | none => .ok (((o.members[i]?).elim .null (·.2)), { o with pos := i + 1 })
  | none, none => .error (o.tail.getD .noSuchField)

/-- `obj[key].get(out)`: the value and the object behind it. -/
def Object.get {α : Type} (o : Object) (key : Bytes) (getter : Value → Except ErrorCode α) :
    Except ErrorCode (α × Object) := do
  let (v, o) ← o.findField key
  let a ← getter v
  return (a, o)

/-- The loop over the elements of an array: the error, if any, and the container. -/
def appendAll {α : Type} (getter : Value → Except ErrorCode α) :
    List Value → List α → Option ErrorCode × List α
  | [], out => (none, out)
  | v :: vs, out =>
    match getter v with
    | .error e => (some e, out)
    | .ok a => appendAll getter vs (out ++ [a])

/-- `val.get<std::vector<T>>(out)`. -/
def Value.getVector {α : Type} (getter : Value → Except ErrorCode α) (v : Value) (out : List α) :
    Option ErrorCode × List α :=
  match v.getArray with
  | .error e => (some e, out)
  | .ok xs => appendAll getter xs out

/-- `val.get<std::vector<T>>().get(out)`: a fresh vector, or its error. -/
def Value.getFreshVector {α : Type} (getter : Value → Except ErrorCode α) (v : Value) :
    Except ErrorCode (List α) :=
  match v.getVector getter [] with
  | (none, out) => .ok out
  | (some e, _) => .error e

end Ondemand

open Ondemand

namespace UserInfo

structure Project where
  name : Bytes
  completed : Bool
  deriving DecidableEq, Repr

structure Team where
  name : Bytes
  leader : Bool
  projects : List Project
  deriving DecidableEq, Repr

structure Log where
  date : Bytes
  action : Bytes
  deriving DecidableEq, Repr

structure User where
  id : Bytes
  name : Bytes
  age : Int
  score : Int
  active : Bool
  country : Bytes
  team : Team
  logs : List Log
  deriving DecidableEq, Repr

/-! ## `tag_invoke` -/

def getProject (val : Value) : Except ErrorCode Project := do
  let obj ← val.getObject
  let (name, obj) ← obj.get "name" Value.getString
  let (completed, _) ← obj.get "completed" Value.getBool
  return { name, completed }

def getTeam (val : Value) : Except ErrorCode Team := do
  let obj ← val.getObject
  let (name, obj) ← obj.get "name" Value.getString
  let (leader, obj) ← obj.get "leader" Value.getBool
  let (projects, _) ← obj.get "projects" (Value.getFreshVector getProject)
  return { name, leader, projects }

def getLog (val : Value) : Except ErrorCode Log := do
  let obj ← val.getObject
  let (date, obj) ← obj.get "date" Value.getString
  let (action, _) ← obj.get "action" Value.getString
  return { date, action }

def getUser (val : Value) : Except ErrorCode User := do
  let obj ← val.getObject
  let (id, obj) ← obj.get "id" Value.getString
  let (name, obj) ← obj.get "name" Value.getString
  let (age, obj) ← obj.get "age" Value.getInt
  let (score, obj) ← obj.get "score" Value.getInt
  let (active, obj) ← obj.get "active" Value.getBool
  let (country, obj) ← obj.get "country" Value.getString
  let (team, obj) ← obj.get "team" getTeam
  let (logs, _) ← obj.get "logs" (Value.getFreshVector getLog)
  return { id, name, age, score, active, country, team, logs }

/-! ## What deserialisation yields -/

/-- The strings the handlers put into responses are valid UTF-8. -/
structure User.Utf8 (u : User) : Prop where
  name : ValidUtf8 u.name
  country : ValidUtf8 u.country
  team : ValidUtf8 u.team.name
  dates : ∀ l ∈ u.logs, ValidUtf8 l.date

end UserInfo

namespace Ondemand

theorem Value.getString_utf8 {v : Value} {b : Bytes} (h : v.getString = .ok b) : ValidUtf8 b := by
  unfold Value.getString at h
  split at h
  · cases h
    exact validUtf8_bytes _
  · cases h
  · cases h

/-- A found member was read by the getter. -/
theorem Object.get_ok {α : Type} {o o' : Object} {key : Bytes}
    {getter : Value → Except ErrorCode α} {a : α} (h : o.get key getter = .ok (a, o')) :
    ∃ v, getter v = .ok a := by
  unfold Object.get at h
  obtain ⟨⟨v, o1⟩, -, h⟩ := bind_ok h
  obtain ⟨a', ha, h⟩ := bind_ok h
  cases h
  exact ⟨v, ha⟩

/-- The elements of the container are those it had and read ones. -/
theorem appendAll_forall {α : Type} {getter : Value → Except ErrorCode α} {P : α → Prop}
    (hg : ∀ v a, getter v = .ok a → P a) :
    ∀ (vs : List Value) (out : List α), (∀ a ∈ out, P a) →
      ∀ a ∈ (appendAll getter vs out).2, P a
  | [], _, h => h
  | v :: vs, out, h => by
    unfold appendAll
    split
    · exact h
    · rename_i a ha
      apply appendAll_forall hg vs
      intro b hb
      rcases List.mem_append.1 hb with hb | hb
      · exact h b hb
      · rw [List.mem_singleton.1 hb]
        exact hg v a ha

theorem Value.getVector_forall {α : Type} {getter : Value → Except ErrorCode α} {P : α → Prop}
    (hg : ∀ v a, getter v = .ok a → P a) (v : Value) {out : List α} (h : ∀ a ∈ out, P a) :
    ∀ a ∈ (v.getVector getter out).2, P a := by
  unfold Value.getVector
  split
  · exact h
  · exact appendAll_forall hg _ _ h

theorem Value.getFreshVector_forall {α : Type} {getter : Value → Except ErrorCode α}
    {P : α → Prop} (hg : ∀ v a, getter v = .ok a → P a) {v : Value} {out : List α}
    (h : v.getFreshVector getter = .ok out) : ∀ a ∈ out, P a := by
  unfold Value.getFreshVector at h
  have hall : ∀ a ∈ (v.getVector getter []).2, P a := v.getVector_forall hg (by simp)
  split at h
  · rename_i hv
    cases h
    rw [hv] at hall
    exact hall
  · cases h

/-- Decoding onto a vector appends to it. -/
theorem appendAll_append {α : Type} (getter : Value → Except ErrorCode α) :
    ∀ (vs : List Value) (out : List α), appendAll getter vs out =
      ((appendAll getter vs []).1, out ++ (appendAll getter vs []).2)
  | [], out => by simp [appendAll]
  | v :: vs, out => by
    unfold appendAll
    split
    · simp
    · rename_i a _
      rw [appendAll_append getter vs (out ++ [a]), appendAll_append getter vs ([] ++ [a])]
      simp

end Ondemand

namespace UserInfo

theorem getLog_utf8 {v : Value} {l : Log} (h : getLog v = .ok l) : ValidUtf8 l.date := by
  unfold getLog at h
  obtain ⟨o, -, h⟩ := bind_ok h
  obtain ⟨⟨date, o1⟩, hd, h⟩ := bind_ok h
  obtain ⟨⟨action, o2⟩, -, h⟩ := bind_ok h
  cases h
  obtain ⟨w, hw⟩ := Object.get_ok hd
  exact Value.getString_utf8 hw

theorem getTeam_utf8 {v : Value} {t : Team} (h : getTeam v = .ok t) : ValidUtf8 t.name := by
  unfold getTeam at h
  obtain ⟨o, -, h⟩ := bind_ok h
  obtain ⟨⟨name, o1⟩, hn, h⟩ := bind_ok h
  obtain ⟨⟨leader, o2⟩, -, h⟩ := bind_ok h
  obtain ⟨⟨projects, o3⟩, -, h⟩ := bind_ok h
  cases h
  obtain ⟨w, hw⟩ := Object.get_ok hn
  exact Value.getString_utf8 hw

theorem getUser_utf8 {v : Value} {u : User} (h : getUser v = .ok u) : u.Utf8 := by
  unfold getUser at h
  obtain ⟨o, -, h⟩ := bind_ok h
  obtain ⟨⟨id, o1⟩, -, h⟩ := bind_ok h
  obtain ⟨⟨name, o2⟩, hn, h⟩ := bind_ok h
  obtain ⟨⟨age, o3⟩, -, h⟩ := bind_ok h
  obtain ⟨⟨score, o4⟩, -, h⟩ := bind_ok h
  obtain ⟨⟨active, o5⟩, -, h⟩ := bind_ok h
  obtain ⟨⟨country, o6⟩, hc, h⟩ := bind_ok h
  obtain ⟨⟨team, o7⟩, ht, h⟩ := bind_ok h
  obtain ⟨⟨logs, o8⟩, hl, h⟩ := bind_ok h
  cases h
  obtain ⟨vn, hvn⟩ := Object.get_ok hn
  obtain ⟨vc, hvc⟩ := Object.get_ok hc
  obtain ⟨vt, hvt⟩ := Object.get_ok ht
  obtain ⟨vl, hvl⟩ := Object.get_ok hl
  exact {
    name := Value.getString_utf8 hvn
    country := Value.getString_utf8 hvc
    team := getTeam_utf8 hvt
    dates := Value.getFreshVector_forall (fun _ _ h => getLog_utf8 h) hvl }

end UserInfo

end HttpsTest
