import Mathlib.Algebra.Group.Int.Defs
import Mathlib.Algebra.Group.Nat.Defs
import Mathlib.Data.List.AList
import Mathlib.Data.List.DropRight
import HttpsTest.Lib.Search
import HttpsTest.Lib.Loop

/-!
# Byte strings and exceptions

What every part of the server is written over: `std::string` and `std::string_view` as lists of
bytes with the members the sources call (`find`, `substr`, `starts_with`), the character
functions of the C locale, hash maps keyed by strings, and the exceptions that can leave a
function.
-/

set_option autoImplicit false

namespace HttpsTest

/-! ## Byte strings -/

/-- `std::string` and `std::string_view`. -/
abbrev Bytes := List UInt8

/-- The bytes of a literal: its UTF-8 encoding. -/
def bytes (s : String) : Bytes := s.toByteArray.data.toList

instance : Coe String Bytes := ⟨bytes⟩

/-- `b` is the UTF-8 encoding of a text. -/
def ValidUtf8 (b : Bytes) : Prop := ∃ s : String, b = bytes s

theorem validUtf8_bytes (s : String) : ValidUtf8 (bytes s) := ⟨s, rfl⟩

/-- `std::to_string` of an integer. -/
def decimal (n : Int) : Bytes := bytes (toString n)

def crlf : Bytes := "\r\n"

def crlfcrlf : Bytes := "\r\n\r\n"

/-! ## Exceptions -/

/-- The error codes of simdjson that reading a document can report. -/
inductive ErrorCode where
  | capacity | memalloc | tapeError | depthError | stringError | tAtomError | fAtomError
  | nAtomError | numberError | bigintError | utf8Error | uninitialized | empty | unescapedChars
  | unclosedString | incorrectType | numberOutOfRange | indexOutOfBounds | noSuchField
  | outOfOrderIteration | insufficientPadding | incompleteArrayOrObject | trailingContent
  deriving DecidableEq, Repr

/-- How a function ends that does not return. -/
inductive Exn where
  /-- `std::out_of_range`, thrown by `substr` and `stoul`. -/
  | outOfRange
  /-- `std::invalid_argument`, thrown by `stoul`. -/
  | invalidArgument
  /-- `simdjson::simdjson_error`, thrown where an erroneous result is converted to its value. -/
  | simdjsonError (e : ErrorCode)
  /-- `nlohmann::json::type_error` with its id. -/
  | typeError (id : Nat)
  /-- `nlohmann::json::parse_error`. -/
  | parseError
  /-- `std::system_error`, thrown by the asio calls without an error code. -/
  | systemError
  /-- `std::runtime_error`. -/
  | runtimeError
  /-- No exception: a null pointer is dereferenced and the process ends. -/
  | nullDereference
  /-- No exception: a loop that does not end within its bound. -/
  | endless
  deriving DecidableEq, Repr

theorem ok_bind {ε α β : Type} (a : α) (f : α → Except ε β) : Except.ok a >>= f = f a := rfl

/-- The parts of a computation that returns. -/
theorem bind_ok {ε α β : Type} {x : Except ε α} {f : α → Except ε β} {b : β}
    (h : x >>= f = .ok b) : ∃ a, x = .ok a ∧ f a = .ok b := by
  cases x with
  | error e => cases h
  | ok a => exact ⟨a, rfl, h⟩

/-- A bind of computations that return. -/
theorem bind_returns {ε α β : Type} {x : Except ε α} {f : α → Except ε β} {P : α → Prop}
    {Q : β → Prop} (hx : ∃ a, x = .ok a ∧ P a) (hf : ∀ a, P a → ∃ b, f a = .ok b ∧ Q b) :
    ∃ b, x >>= f = .ok b ∧ Q b := by
  obtain ⟨a, rfl, ha⟩ := hx
  exact hf a ha

/-! ## Members of strings -/

/-- `s.find(pat, pos)`, `none` for `npos`. -/
def find (s pat : Bytes) (pos : Nat) : Option Nat := Search.find s pat pos

/-- `s.substr(pos, n)`. -/
def substr (s : Bytes) (pos n : Nat) : Except Exn Bytes :=
  if pos ≤ s.length then .ok ((s.drop pos).take n) else .error .outOfRange

/-- `s.substr(pos)`. -/
def substrFrom (s : Bytes) (pos : Nat) : Except Exn Bytes := substr s pos s.length

theorem substr_ok {s : Bytes} {pos : Nat} (n : Nat) (h : pos ≤ s.length) :
    substr s pos n = .ok ((s.drop pos).take n) := if_pos h

theorem substrFrom_ok {s : Bytes} {pos : Nat} (h : pos ≤ s.length) :
    substrFrom s pos = .ok (s.drop pos) := by
  rw [substrFrom, substr_ok _ h, List.take_of_length_le (by rw [List.length_drop]; omega)]

theorem find_bound {s pat : Bytes} {pos i : Nat} (h : find s pat pos = some i) :
    pos ≤ i ∧ i + pat.length ≤ s.length := Search.find_bound h

/-- A found index is a valid position to go on from. -/
theorem find_le {s pat : Bytes} {pos i : Nat} (h : find s pat pos = some i) : i ≤ s.length := by
  have := (find_bound h).2
  omega

theorem find_append {s pat : Bytes} {pos i : Nat} (h : find s pat pos = some i) (t : Bytes) :
    find (s ++ t) pat pos = some i := Search.find_append h t

/-- `s.starts_with(p)`. -/
def startsWith (s p : Bytes) : Bool := p.isPrefixOf s

/-! ## Hash maps -/

/-- `std::unordered_map<std::string, α>`. -/
abbrev UnorderedMap (α : Type) := AList fun _ : Bytes => α

/-- `std::unordered_map<std::string, std::string>`. -/
abbrev StringMap := UnorderedMap Bytes

/-- `it != m.end() ? it->second : ""`. -/
def StringMap.get (m : StringMap) (name : Bytes) : Bytes := (m.lookup name).getD []

/-- The order in which a hash map with the given keys is iterated: some order of its keys. -/
structure HashOrder where
  order : List Bytes → List Bytes
  perm : ∀ keys, (order keys).Perm keys

/-- The keys in the order in which the map lists them. -/
def HashOrder.listed : HashOrder := { order := id, perm := fun _ => .refl _ }

/-- The elements of a hash map in iteration order. -/
def UnorderedMap.items {α : Type} (o : HashOrder) (m : UnorderedMap α) : List (Bytes × α) :=
  (o.order m.keys).filterMap fun k => (m.lookup k).map (k, ·)

/-- The items of a map are its entries. -/
theorem UnorderedMap.mem_items {α : Type} {o : HashOrder} {m : UnorderedMap α} {k : Bytes}
    {v : α} : (k, v) ∈ m.items o ↔ m.lookup k = some v := by
  unfold UnorderedMap.items
  rw [List.mem_filterMap]
  refine ⟨fun h => ?_, fun h => ?_⟩
  · obtain ⟨k', -, hk⟩ := h
    obtain ⟨v', hv, hkv⟩ := Option.map_eq_some_iff.1 hk
    cases hkv
    exact hv
  · refine ⟨k, (o.perm m.keys).mem_iff.2 ?_, by rw [h]; rfl⟩
    exact AList.lookup_isSome.1 (by rw [h]; rfl)

theorem UnorderedMap.mem_of_items {α : Type} {o : HashOrder} {m : UnorderedMap α}
    {p : Bytes × α} (h : p ∈ m.items o) : p.1 ∈ m :=
  AList.lookup_isSome.1 (by rw [mem_items.1 h]; rfl)

/-- The keys of the items are the keys of the map, in the order of the iteration. -/
theorem UnorderedMap.items_keys {α : Type} (o : HashOrder) (m : UnorderedMap α) :
    (m.items o).map Prod.fst = o.order m.keys := by
  have hkey : ∀ k ∈ o.order m.keys,
      (((m.lookup k).map (k, ·)).map Prod.fst : Option Bytes) = some k := by
    intro k hk
    obtain ⟨v, hv⟩ := Option.isSome_iff_exists.1
      (AList.lookup_isSome.2 ((o.perm m.keys).mem_iff.1 hk))
    rw [hv]
    rfl
  rw [UnorderedMap.items, List.map_filterMap, List.filterMap_congr hkey, List.filterMap_some]

theorem UnorderedMap.items_nodup {α : Type} (o : HashOrder) (m : UnorderedMap α) :
    ((m.items o).map Prod.fst).Nodup := by
  rw [items_keys]
  exact (o.perm m.keys).nodup_iff.2 m.keys_nodup

/-! ## Characters -/

/-- `std::isspace` in the C locale. -/
def isspace (c : UInt8) : Bool := c == 32 || (9 ≤ c && c ≤ 13)

/-- `toupper` in the C locale. -/
def toupper (c : UInt8) : UInt8 := if 97 ≤ c && c ≤ 122 then c - 32 else c

/-- The lambda `trim` of `HttpRequest::parseHttp`: white space is erased at both ends. -/
def trim (s : Bytes) : Bytes := (s.dropWhile isspace).rdropWhile isspace

end HttpsTest
