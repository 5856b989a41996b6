import HttpsTest.Config.ConfigFactory
import HttpsTest.Server.SyncHTTPServer

/-!
# The settings of the blocking server

The constructor of `SyncHTTPServer`: it takes the settings from the nested configuration `server`,
each over a default of its own, and logs what is missing.
-/

set_option autoImplicit false

namespace HttpsTest

namespace SyncHTTPServer

/-- The pointers the constructor checks: whether they are not null. -/
structure Dependencies where
  logger : Bool := true
  clientRepo : Bool := true
  reqHandler : Bool := true

/-- The messages on null pointers, behind the name of the constructor. -/
def Dependencies.messages (d : Dependencies) : List String :=
  (if d.clientRepo then [] else ["IClientRepository cant be null"]) ++
    if d.reqHandler then [] else ["IRequestHandler cant be null"]

/-- What the constructor leaves: the server, the timeout of its configuration, which no function
reads, and what was logged. -/
structure Constructed where
  server : SyncHTTPServer := {}
  timeout : Int := 30
  messages : List String := []

/-- The settings of the configuration of the server, each where it is an integer. -/
def Constructed.configure (serverConfig : IConfig) (c : Constructed) : Constructed :=
  let serverType := serverConfig.getAs .string (.ofBytes "type")
  let serverPort := serverConfig.getAs .int (.ofBytes "port")
  let serverTimeout := serverConfig.getAs .int (.ofBytes "timeout")
  let serverMaxConnections := serverConfig.getAs .int (.ofBytes "max_connections")
  let message :=
    if serverType.isNone || serverPort.isNone || serverTimeout.isNone ||
        serverMaxConnections.isNone then ["Missing configuration values in IConfig"]
    else if serverType ≠ some (bytes "Http") then ["Server type is not sync_http"]
    else []
  { server := { c.server with
      serverConfig := {
        port := (serverPort.map (·.toInt)).getD c.server.serverConfig.port
        maxConnections :=
          (serverMaxConnections.map (·.toInt)).getD c.server.serverConfig.maxConnections } }
    timeout := (serverTimeout.map (·.toInt)).getD c.timeout
    messages := c.messages ++ message }

/-- The constructor. Behind the factory it tests again that there is a `server`, which there is. -/
def construct (J : JsonText) (read : Bytes → Option Bytes) (d : Dependencies)
    (config : Option IConfig) : Except Exn Constructed :=
  if ¬ d.logger then .error .runtimeError
  else
    let c : Constructed := { messages := d.messages }
    match config with
    | none => .ok c
    | some config =>
      match config.getAs .string (.ofBytes "server") with
      | some server => (ConfigFactory.get J read (.ofBytes server) true).map c.configure
      | none => .ok { c with messages := c.messages ++ ["Server config is not set in IConfig"] }

end SyncHTTPServer

end HttpsTest
