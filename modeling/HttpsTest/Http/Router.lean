import HttpsTest.Http.Request
import HttpsTest.Http.Response

/-!
# The router

`RequestRouter`: a table from (method, path) to handlers, in which the default handler stands
under ("*", "*"). The handlers are of any type; `route` gives the one a request is handed to.
A router is itself an `IRequestHandler`.
-/

set_option autoImplicit false

namespace HttpsTest

/-- `IRequestHandler`, with the state `σ` of the object; `none` is a null response. -/
abbrev IRequestHandler (σ : Type) := IRequest → σ → Except Exn (Option HttpResponse) × σ

structure RequestRouter (H : Type) where
  routes : AList fun _ : Bytes × Bytes => H := ∅

namespace RequestRouter

variable {H : Type}

/-- The key of the default handler. -/
def defaultKey : Bytes × Bytes := ("*", "*")

def toUpper (s : Bytes) : Bytes := s.map toupper

def registerHandler (r : RequestRouter H) (method path : Bytes) (handler : H) : RequestRouter H :=
  { r with routes := r.routes.insert (toUpper method, path) handler }

def registerDefaultHandler (r : RequestRouter H) (handler : H) : RequestRouter H :=
  { r with routes := r.routes.insert defaultKey handler }

/-- The handler a request is handed to, `none` where there is none. -/
def route (r : RequestRouter H) (request : IRequest) : Option H :=
  match r.routes.lookup (toUpper request.method, request.uri) with
  | some handler => some handler
  | none => r.routes.lookup defaultKey

/-- `handleRequest`: without a handler the response is null. -/
def handleRequest {σ : Type} (r : RequestRouter H) (call : H → IRequestHandler σ) :
    IRequestHandler σ := fun request s =>
  match r.route request with
  | some handler => call handler request s
  | none => (.ok none, s)

/-- A router with a default handler answers every request. -/
theorem route_isSome {r : RequestRouter H} (h : (r.routes.lookup defaultKey).isSome)
    (request : IRequest) : (r.route request).isSome := by
  unfold route
  split
  · rfl
  · exact h

end RequestRouter

end HttpsTest
