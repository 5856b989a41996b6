import Mathlib.Data.Rat.Defs
import HttpsTest.Base

/-!
# JSON values of responses

The part of `nlohmann::json` the handlers use: a default-constructed value is null and becomes an
object by `operator[]` with a key, an array by `push_back` or `operator[]` with an index; on a
value of another kind these throw. `Json.Utf8`: every string in a value is valid UTF-8, which is
what `dump` needs.
-/

set_option autoImplicit false

namespace HttpsTest

inductive Json where
  | null
  | boolean (b : Bool)
  | integer (n : Int)
  | floating (q : ℚ)
  | string (s : Bytes)
  | array (xs : List Json)
  | object (members : List (Bytes × Json))

namespace Json

/-- The members with the value of `key` set. -/
def setMember (key : Bytes) (v : Json) : List (Bytes × Json) → List (Bytes × Json)
  | [] => [(key, v)]
  | m :: ms => if m.1 = key then (key, v) :: ms else m :: setMember key v ms

/-- `j[key] = v`. -/
def set (j : Json) (key : Bytes) (v : Json) : Except Exn Json :=
  match j with
  | null => .ok (object [(key, v)])
  | object ms => .ok (object (setMember key v ms))
  | _ => .error (.typeError 305)

/-- `j[key]`, read. -/
def member (j : Json) (key : Bytes) : Except Exn Json :=
  match j with
  | null => .ok null
  | object ms => .ok ((ms.lookup key).getD null)
  | _ => .error (.typeError 305)

/-- `j.push_back(v)`. -/
def pushBack (j v : Json) : Except Exn Json :=
  match j with
  | null => .ok (array [v])
  | array xs => .ok (array (xs ++ [v]))
  | _ => .error (.typeError 308)

/-- `j[i]`, read. -/
def element (j : Json) (i : Nat) : Except Exn Json :=
  match j with
  | null => .ok null
  | array xs => .ok (xs[i]?.getD null)
  | _ => .error (.typeError 305)

/-- `j[i] = v`: an array too short is filled up with nulls. -/
def setElement (j : Json) (i : Nat) (v : Json) : Except Exn Json :=
  match j with
  | null => .ok (array (List.replicate i null ++ [v]))
  | array xs => .ok (array ((xs ++ List.replicate (i + 1 - xs.length) null).set i v))
  | _ => .error (.typeError 305)

/-- `j[key].push_back(v)`. -/
def pushIn (j : Json) (key : Bytes) (v : Json) : Except Exn Json := do
  let xs ← j.member key
  let xs ← xs.pushBack v
  j.set key xs

/-- `j[key][field] = v`. -/
def setIn (j : Json) (key field : Bytes) (v : Json) : Except Exn Json := do
  let inner ← j.member key
  let inner ← inner.set field v
  j.set key inner

/-- `j[key][i][field] = v`. -/
def setAt (j : Json) (key : Bytes) (i : Nat) (field : Bytes) (v : Json) : Except Exn Json := do
  let xs ← j.member key
  let item ← xs.element i
  let item ← item.set field v
  let xs ← xs.setElement i item
  j.set key xs

/-! ## Strings -/

/-- Every string in the value is valid UTF-8. -/
inductive Utf8 : Json → Prop
  | null : Utf8 null
  | boolean (b : Bool) : Utf8 (boolean b)
  | integer (n : Int) : Utf8 (integer n)
  | floating (q : ℚ) : Utf8 (floating q)
  | string {s : Bytes} : ValidUtf8 s → Utf8 (string s)
  | array {xs : List Json} : (∀ x ∈ xs, Utf8 x) → Utf8 (array xs)
  | object {ms : List (Bytes × Json)} : (∀ m ∈ ms, ValidUtf8 m.1) → (∀ m ∈ ms, Utf8 m.2) →
      Utf8 (object ms)

/-- A value that is an object, or becomes one by indexing, with valid strings. -/
inductive IsObject : Json → Prop
  | null : IsObject null
  | object {ms : List (Bytes × Json)} : Utf8 (object ms) → IsObject (object ms)

/-- A value that is an array, or becomes one by `push_back`, of objects with valid strings. -/
inductive IsArray (P : Json → Prop) : Json → Prop
  | null : IsArray P null
  | array {xs : List Json} : (∀ x ∈ xs, P x) → IsArray P (array xs)

theorem IsObject.utf8 {j : Json} (h : IsObject j) : Utf8 j := by
  cases h with
  | null => exact .null
  | object h => exact h

theorem IsArray.utf8 {P : Json → Prop} {j : Json} (h : IsArray P j) (hP : ∀ x, P x → Utf8 x) :
    Utf8 j := by
  cases h with
  | null => exact .null
  | array h => exact .array fun x hx => hP x (h x hx)

theorem mem_setMember {key : Bytes} {v : Json} :
    ∀ {ms : List (Bytes × Json)} {m : Bytes × Json}, m ∈ setMember key v ms →
      m = (key, v) ∨ m ∈ ms
  | [], m, h => .inl (List.mem_singleton.1 h)
  | a :: ms, m, h => by
    unfold setMember at h
    split at h
    · rcases List.mem_cons.1 h with h | h
      · exact .inl h
      · exact .inr (List.mem_cons_of_mem _ h)
    · rcases List.mem_cons.1 h with h | h
      · exact .inr (h ▸ List.mem_cons_self)
      · rcases mem_setMember h with h | h
        · exact .inl h
        · exact .inr (List.mem_cons_of_mem _ h)

theorem IsObject.set {j : Json} (h : IsObject j) {key : Bytes} {v : Json} (hk : ValidUtf8 key)
    (hv : Utf8 v) : ∃ j', j.set key v = .ok j' ∧ IsObject j' := by
  cases h with
  | null => exact ⟨_, rfl, .object (.object (by simpa using hk) (by simpa using hv))⟩
  | object h =>
    cases h with
    | object h1 h2 =>
      refine ⟨_, rfl, .object (.object (fun m hm => ?_) (fun m hm => ?_))⟩
      · rcases mem_setMember hm with rfl | hm
        · exact hk
        · exact h1 m hm
      · rcases mem_setMember hm with rfl | hm
        · exact hv
        · exact h2 m hm

theorem mem_of_lookup {key : Bytes} {v : Json} :
    ∀ {ms : List (Bytes × Json)}, ms.lookup key = some v → ∃ m ∈ ms, m.2 = v
  | [], h => by cases h
  | (k, w) :: ms, h => by
    rw [List.lookup_cons] at h
    split at h
    · exact ⟨_, List.mem_cons_self, Option.some.inj h⟩
    · obtain ⟨m, hm, hv⟩ := mem_of_lookup h
      exact ⟨m, List.mem_cons_of_mem _ hm, hv⟩

/-- Reading a member of an object never throws; with valid strings the member has valid ones. -/
theorem IsObject.member {j : Json} (h : IsObject j) (key : Bytes) :
    ∃ v, j.member key = .ok v ∧ Utf8 v := by
  cases h with
  | null => exact ⟨_, rfl, .null⟩
  | @object ms h =>
    refine ⟨_, rfl, ?_⟩
    cases hl : ms.lookup key with
    | none => exact .null
    | some v =>
      obtain ⟨m, hm, rfl⟩ := mem_of_lookup hl
      cases h with
      | object _ h2 => exact h2 m hm

/-- Reading a member of a value with valid strings yields valid strings, or throws. -/
theorem Utf8.member {j : Json} (h : Utf8 j) (key : Bytes) :
    (∃ v, j.member key = .ok v ∧ Utf8 v) ∨ j.member key = .error (.typeError 305) := by
  cases h with
  | null => exact .inl ⟨_, rfl, .null⟩
  | object h1 h2 => exact .inl (IsObject.member (.object (.object h1 h2)) key)
  | _ => exact .inr rfl

theorem IsArray.pushBack {P : Json → Prop} {j v : Json} (h : IsArray P j) (hv : P v) :
    ∃ j', j.pushBack v = .ok j' ∧ IsArray P j' := by
  cases h with
  | null => exact ⟨_, rfl, .array (by simpa using hv)⟩
  | array h =>
    refine ⟨_, rfl, .array ?_⟩
    intro x hx
    rcases List.mem_append.1 hx with hx | hx
    · exact h x hx
    · rw [List.mem_singleton.1 hx]
      exact hv

theorem IsArray.element {P : Json → Prop} {j : Json} (h : IsArray P j) (hnull : P Json.null)
    (i : Nat) : ∃ v, j.element i = .ok v ∧ P v := by
  cases h with
  | null => exact ⟨_, rfl, hnull⟩
  | @array xs h =>
    refine ⟨_, rfl, ?_⟩
    cases hx : xs[i]? with
    | none => exact hnull
    | some v => exact h v (List.mem_of_getElem? hx)

theorem IsArray.setElement {P : Json → Prop} {j v : Json} (h : IsArray P j) (hnull : P Json.null)
    (i : Nat) (hv : P v) : ∃ j', j.setElement i v = .ok j' ∧ IsArray P j' := by
  cases h with
  | null =>
    refine ⟨_, rfl, .array ?_⟩
    intro x hx
    rcases List.mem_append.1 hx with hx | hx
    · rw [List.eq_of_mem_replicate hx]
      exact hnull
    · rw [List.mem_singleton.1 hx]
      exact hv
  | @array xs h =>
    refine ⟨_, rfl, .array ?_⟩
    intro x hx
    rcases List.mem_or_eq_of_mem_set hx with hx | rfl
    · rcases List.mem_append.1 hx with hx | hx
      · exact h x hx
      · rw [List.eq_of_mem_replicate hx]
        exact hnull
    · exact hv

/-! ## Values of one member -/

/-- A value under construction that has at most the member `key`, with a value in `P`. -/
inductive OnlyMember (key : Bytes) (P : Json → Prop) : Json → Prop
  | null : OnlyMember key P null
  | object {v : Json} : P v → OnlyMember key P (object [(key, v)])

theorem OnlyMember.isObject {key : Bytes} {P : Json → Prop} {j : Json} (h : OnlyMember key P j)
    (hk : ValidUtf8 key) (hP : ∀ v, P v → Utf8 v) : IsObject j := by
  cases h with
  | null => exact .null
  | object hv => exact .object (.object (by simpa using hk) (by simpa using hP _ hv))

theorem OnlyMember.member {key : Bytes} {P : Json → Prop} {j : Json} (h : OnlyMember key P j)
    (hnull : P Json.null) : ∃ v, j.member key = .ok v ∧ P v := by
  cases h with
  | null => exact ⟨_, rfl, hnull⟩
  | object hv => exact ⟨_, by simp [Json.member], hv⟩

theorem OnlyMember.set {key : Bytes} {P : Json → Prop} {j v : Json} (h : OnlyMember key P j)
    (hv : P v) : ∃ j', j.set key v = .ok j' ∧ OnlyMember key P j' := by
  cases h with
  | null => exact ⟨_, rfl, .object hv⟩
  | object _ => exact ⟨_, by simp [Json.set, setMember], .object hv⟩

/-- A table under construction: an array of objects under the one member `key`. -/
abbrev IsTable (key : Bytes) : Json → Prop := OnlyMember key (IsArray IsObject)

theorem IsTable.isObject {key : Bytes} {j : Json} (h : IsTable key j) (hk : ValidUtf8 key) :
    IsObject j :=
  OnlyMember.isObject h hk fun _ hv => hv.utf8 fun _ hx => hx.utf8

theorem IsTable.pushIn {key : Bytes} {j v : Json} (h : IsTable key j) (hv : IsObject v) :
    ∃ j', j.pushIn key v = .ok j' ∧ IsTable key j' :=
  bind_returns (OnlyMember.member h .null) fun _ hxs =>
    bind_returns (hxs.pushBack hv) fun _ hxs' => OnlyMember.set h hxs'

theorem IsTable.setAt {key : Bytes} {j v : Json} (h : IsTable key j) (i : Nat) {field : Bytes}
    (hf : ValidUtf8 field) (hv : Utf8 v) :
    ∃ j', j.setAt key i field v = .ok j' ∧ IsTable key j' :=
  bind_returns (OnlyMember.member h .null) fun _ hxs =>
    bind_returns (hxs.element .null i) fun _ hitem =>
      bind_returns (hitem.set hf hv) fun _ hitem' =>
        bind_returns (hxs.setElement .null i hitem') fun _ hxs' => OnlyMember.set h hxs'

/-- Setting a field of an object under the one member `key`. -/
theorem OnlyMember.setIn {key : Bytes} {j v : Json} (h : OnlyMember key IsObject j) {field : Bytes}
    (hf : ValidUtf8 field) (hv : Utf8 v) :
    ∃ j', j.setIn key field v = .ok j' ∧ OnlyMember key IsObject j' :=
  bind_returns (h.member .null) fun _ hin => bind_returns (hin.set hf hv) fun _ hin' => h.set hin'

end Json

/-- A loop over a list whose every round returns and keeps `P`. -/
theorem foldlM_returns {α β : Type} {f : β → α → Except Exn β} {P : β → Prop} {l : List α}
    (hf : ∀ b, P b → ∀ a ∈ l, ∃ b', f b a = .ok b' ∧ P b') {b : β} (hb : P b) :
    ∃ b', l.foldlM f b = .ok b' ∧ P b' := by
  induction l generalizing b with
  | nil => exact ⟨b, rfl, hb⟩
  | cons a l ih =>
    obtain ⟨b1, h1, hp1⟩ := hf b hb a List.mem_cons_self
    obtain ⟨b2, h2, hp2⟩ := ih (fun b hb x hx => hf b hb x (List.mem_cons_of_mem _ hx)) hp1
    exact ⟨b2, by rw [List.foldlM_cons, h1]; exact h2, hp2⟩

end HttpsTest
