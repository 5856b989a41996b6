import HttpsTest.Users.Json

/-!
# Configurations

`IConfig` and `JSONConfig`: a configuration is a map from keys to values of four types, filled from
the members of a JSON value. What the library writes and parses is a `JsonText`. A `StringView` is
kept with the buffer it points into, since `get_value` hands on its pointer alone.
-/

set_option autoImplicit false

namespace HttpsTest

/-! ## Views -/

/-- A `std::string_view` into a buffer that is terminated by a NUL. -/
structure StringView where
  buffer : Bytes
  offset : Nat
  size : Nat
  bound : offset + size ≤ buffer.length

namespace StringView

/-- A whole string. -/
def ofBytes (s : Bytes) : StringView where
  buffer := s
  offset := 0
  size := s.length
  bound := by omega

/-- The characters of the view. -/
def chars (v : StringView) : Bytes := (v.buffer.drop v.offset).take v.size

/-- `std::string(v.data())`: the characters up to the next NUL. -/
def cString (v : StringView) : Bytes := (v.buffer.drop v.offset).takeWhile (· ≠ 0)

end StringView

/-! ## Values -/

/-- `IConfig::ConfigValue` -/
inductive ConfigValue where
  | int (n : Int32)
  | double (q : ℚ)
  | bool (b : Bool)
  | string (s : Bytes)
  deriving DecidableEq

/-- The alternatives of a `ConfigValue`. -/
inductive ConfigType where
  | int | double | bool | string
  deriving DecidableEq, Repr

/-- The type of an alternative. -/
abbrev ConfigType.Carrier : ConfigType → Type
  | int => Int32
  | double => ℚ
  | bool => Bool
  | string => Bytes

/-- `IConfig::extract` -/
def extract : (t : ConfigType) → Option ConfigValue → Option t.Carrier
  | .int, some (.int n) => some n
  | .double, some (.double q) => some q
  | .bool, some (.bool b) => some b
  | .string, some (.string s) => some s
  | _, _ => none

/-- `m_config.find(value.data())`, which `get_value` answers with. -/
def findValue (config : UnorderedMap ConfigValue) (value : StringView) : Option ConfigValue :=
  config.lookup value.cString

/-! ## `JSONConfig` -/

/-- The texts of `nlohmann::json`. -/
structure JsonText where
  parse : Bytes → Except Exn Json
  dump : Json → Except Exn Bytes

/-- `items()`: the members of an object, the elements of an array under their indices, and any other
value but null under the empty key. -/
def Json.items : Json → List (Bytes × Json)
  | .object ms => ms
  | .array xs => xs.zipIdx.map fun x => (decimal x.2, x.1)
  | .null => []
  | v => [([], v)]

structure JSONConfig where
  config : UnorderedMap ConfigValue

namespace JSONConfig

variable (J : JsonText)

/-- What is stored for a value. -/
def configValue : Json → Except Exn ConfigValue
  | .string s => .ok (.string s)
  | .boolean b => .ok (.bool b)
  | .integer n => .ok (.int (.ofInt n))
  | .floating q => .ok (.double q)
  | v => (J.dump v).map .string

/-- The loop of `PopulateConfig`; a parse error, which only it catches, ends it. -/
def populate : List (Bytes × Json) → UnorderedMap ConfigValue →
    Except Exn (UnorderedMap ConfigValue)
  | [], config => .ok config
  | (key, value) :: items, config =>
    match configValue J value with
    | .ok v => populate items (config.insert key v)
    | .error .parseError => .ok config
    | .error e => .error e

/-- The constructor. -/
def ofJson (config : Json) : Except Exn JSONConfig := (populate J config.items ∅).map (⟨·⟩)

def fromString (jsonStr : Bytes) : Except Exn JSONConfig := J.parse jsonStr >>= ofJson J

/-- `read` gives the contents of the files that can be opened. -/
def fromFile (read : Bytes → Option Bytes) (filePath : StringView) : Except Exn JSONConfig :=
  match read filePath.cString with
  | none => .error .runtimeError
  | some text => J.parse text >>= ofJson J

def getValue (c : JSONConfig) (value : StringView) : Option ConfigValue := findValue c.config value

/-- `get_as<T>` -/
def getAs (t : ConfigType) (c : JSONConfig) (key : StringView) : Option t.Carrier :=
  extract t (c.getValue key)

end JSONConfig

end HttpsTest
