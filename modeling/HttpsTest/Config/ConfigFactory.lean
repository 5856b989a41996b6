import HttpsTest.Config.JSONConfig

/-!
# The factory

`ConfigFactory::get`: the kind of a configuration is told by the ending of its path, or by the first
and last character of its text. An `XMLConfig` reads nothing yet.
-/

set_option autoImplicit false

namespace HttpsTest

structure XMLConfig where
  config : UnorderedMap ConfigValue := ∅

def XMLConfig.getValue (c : XMLConfig) (value : StringView) : Option ConfigValue :=
  findValue c.config value

inductive IConfig where
  | json (c : JSONConfig)
  | xml (c : XMLConfig)

namespace IConfig

def getValue : IConfig → StringView → Option ConfigValue
  | json c => c.getValue
  | xml c => c.getValue

/-- `get_as<T>` -/
def getAs (t : ConfigType) (c : IConfig) (key : StringView) : Option t.Carrier :=
  extract t (c.getValue key)

end IConfig

/-- `s.ends_with(p)`. -/
def endsWith (s p : Bytes) : Bool := p.isSuffixOf s

namespace ConfigFactory

variable (J : JsonText)

def isJson (str : Bytes) : Bool :=
  !str.isEmpty && ((startsWith str "[" && endsWith str "]") ||
    (startsWith str "\x7b" && endsWith str "\x7d"))

def getFromString (raw : StringView) : Except Exn IConfig :=
  if isJson raw.chars then (JSONConfig.fromString J raw.chars).map .json
  else if startsWith raw.chars "<" && endsWith raw.chars ">" then .ok (.xml {})
  else .error .runtimeError

def getFromFile (read : Bytes → Option Bytes) (path : StringView) : Except Exn IConfig :=
  if endsWith path.chars ".json" then (JSONConfig.fromFile J read path).map .json
  else if endsWith path.chars ".xml" then .ok (.xml {})
  else .error .runtimeError

def get (read : Bytes → Option Bytes) (source : StringView) (isRaw : Bool) : Except Exn IConfig :=
  if isRaw then getFromString J source else getFromFile J read source

end ConfigFactory

end HttpsTest
