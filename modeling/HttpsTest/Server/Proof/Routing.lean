import HttpsTest.Http.Proof.Registrations
import HttpsTest.Http.Proof.RequestLine
import HttpsTest.Server.Main

/-!
# Routing

Which handler of `main` a request reaches: the one registered for its method and its path, or the
default one (`route_registered`), and no other is invoked (`handleRequest_recording`).
-/

set_option autoImplicit false

namespace HttpsTest

open RequestRouter

/-! ## The table of `main` -/

/-- The handler `main` registers for a method and a path. -/
def registeredFor (method path : Bytes) : Option Handler :=
  (registrations.find? fun r => bytes r.1 = method ∧ bytes r.2.1 = path).map fun r => r.2.2

/-- A call of `registerHandler` in `main`. -/
def mainRegistration (r : String × String × Handler) : Registration Handler :=
  .handler r.1 r.2.1 r.2.2

/-- The history of `main`. -/
def mainRegistrations : List (Registration Handler) :=
  registrations.map mainRegistration ++ [.default .defaultHandler]

theorem router_eq : router = built mainRegistrations := rfl

theorem mainRegistrations_nodup : (mainRegistrations.map Registration.key).Nodup := by decide

/-- `main` registers its handlers under methods in upper case. -/
theorem key_mainRegistration {r : String × String × Handler} (hr : r ∈ registrations) :
    (mainRegistration r).key = (bytes r.1, bytes r.2.1) := by
  revert r
  decide

/-- **The handler of a request** whose method is in upper case. -/
theorem route_registered {request : IRequest} (hm : toUpper request.method = request.method)
    (hstar : request.method ≠ bytes "*") : router.route request =
      some ((registeredFor request.method request.uri).getD .defaultHandler) := by
  have hfind : registrations.find?
        ((fun r => decide (r.key = (request.method, request.uri))) ∘ mainRegistration) =
      registrations.find? fun r => bytes r.1 = request.method ∧ bytes r.2.1 = request.uri := by
    apply List.find?_congr
    intro r hr
    simp [key_mainRegistration hr]
  have hdefault : [Registration.default Handler.defaultHandler].find?
      (fun r => decide (r.key = (request.method, request.uri))) = none := by
    simp [Registration.key, defaultKey, Ne.symm hstar]
  have hlast : Registration.last (request.method, request.uri) mainRegistrations =
      registeredFor request.method request.uri := by
    rw [last_of_nodup mainRegistrations_nodup, mainRegistrations, registeredFor,
      List.find?_append, List.find?_map, hfind, hdefault, Option.or_none, Option.map_map]
    rfl
  rw [router_eq, route_built, hm, hlast,
    show Registration.last defaultKey mainRegistrations = some .defaultHandler by decide]
  cases registeredFor request.method request.uri <;> rfl

/-- The line of the table a handler comes from. -/
theorem registeredFor_mem {method path : Bytes} {handler : Handler}
    (h : registeredFor method path = some handler) :
    ∃ r ∈ registrations, bytes r.1 = method ∧ bytes r.2.1 = path ∧ r.2.2 = handler := by
  obtain ⟨r, hr, hhandler⟩ := Option.map_eq_some_iff.1 h
  have hkey : bytes r.1 = method ∧ bytes r.2.1 = path := by simpa using List.find?_some hr
  exact ⟨r, List.mem_of_find?_eq_some hr, hkey.1, hkey.2, hhandler⟩

/-- The endpoint of the hello handler. -/
theorem registeredFor_hello {method path : Bytes}
    (h : registeredFor method path = some .helloHandler) :
    method = bytes "GET" ∧ path = bytes "/hello" := by
  obtain ⟨r, hr, rfl, rfl, hhello⟩ := registeredFor_mem h
  have hall : ∀ r ∈ registrations, r.2.2 = .helloHandler →
      bytes r.1 = bytes "GET" ∧ bytes r.2.1 = bytes "/hello" := by decide
  exact hall r hr hhello

/-- The endpoints of the user handler. -/
theorem registeredFor_user {method path : Bytes}
    (h : registeredFor method path = some .userHandler) :
    method = bytes "POST" ∧ path = bytes "/users" ∨ method = bytes "GET" ∧
      (path = bytes "/superusers" ∨ path = bytes "/top-countries" ∨ path = bytes "/team-insights" ∨
        path = bytes "/active-users-per-day" ∨ path = bytes "/evaluation") := by
  obtain ⟨r, hr, rfl, rfl, huser⟩ := registeredFor_mem h
  have hall : ∀ r ∈ registrations, r.2.2 = .userHandler →
      bytes r.1 = bytes "POST" ∧ bytes r.2.1 = bytes "/users" ∨ bytes r.1 = bytes "GET" ∧
        (bytes r.2.1 = bytes "/superusers" ∨ bytes r.2.1 = bytes "/top-countries" ∨
          bytes r.2.1 = bytes "/team-insights" ∨ bytes r.2.1 = bytes "/active-users-per-day" ∨
          bytes r.2.1 = bytes "/evaluation") := by decide
  exact hall r hr huser

/-! ## One invocation -/

/-- Handlers that record their invocations. -/
def recording {σ : Type} (call : Handler → IRequestHandler σ) :
    Handler → IRequestHandler (σ × List Handler) :=
  fun handler request s =>
    let (response, s') := call handler request s.1
    (response, (s', s.2 ++ [handler]))

/-- The handler a request is routed to is invoked, once, and no other one. -/
theorem handleRequest_recording {σ : Type} {request : IRequest} {handler : Handler}
    (hroute : router.route request = some handler) (call : Handler → IRequestHandler σ) (s : σ) :
    router.handleRequest (recording call) request (s, []) =
      ((call handler request s).1, (call handler request s).2, [handler]) := by
  unfold handleRequest
  rw [hroute]
  rfl

end HttpsTest
