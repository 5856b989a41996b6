import Mathlib.Data.List.Find
import HttpsTest.Http.Router

/-!
# Registrations

The table of a router as the history of its registrations (`lookup_built`): a key is looked up to
the handler registered for it last. `route_built` and `route_eq_none_iff` say the same of requests.
`handled_iff` compares the table with a router that keeps the default handler apart.
-/

set_option autoImplicit false

namespace HttpsTest

/-- A call of `registerHandler` or `registerDefaultHandler`. -/
inductive Registration (H : Type) where
  | handler (method path : Bytes) (h : H)
  | default (h : H)

namespace Registration

variable {H : Type}

/-- The entry of the table it sets. -/
def key : Registration H → Bytes × Bytes
  | handler method path _ => (RequestRouter.toUpper method, path)
  | default _ => RequestRouter.defaultKey

def registered : Registration H → H
  | handler _ _ h | default h => h

/-- A call of `registerHandler`. -/
def isHandler : Registration H → Bool
  | handler _ _ _ => true
  | default _ => false

/-- The handler that is registered last under a key. -/
def last (key : Bytes × Bytes) (rs : List (Registration H)) : Option H :=
  (rs.reverse.find? fun r => r.key = key).map registered

/-- The handler that `registerHandler` registers last under a key. -/
def lastHandler (key : Bytes × Bytes) (rs : List (Registration H)) : Option H :=
  last key (rs.filter isHandler)

def lastDefault (rs : List (Registration H)) : Option H :=
  last RequestRouter.defaultKey (rs.filter fun r => !r.isHandler)

end Registration

namespace RequestRouter

open Registration

variable {H : Type}

def register (r : RequestRouter H) : Registration H → RequestRouter H
  | .handler method path h => r.registerHandler method path h
  | .default h => r.registerDefaultHandler h

/-- A new router after a history of registrations. -/
def built (rs : List (Registration H)) : RequestRouter H := rs.foldl register {}

theorem routes_register (r : RequestRouter H) (reg : Registration H) :
    (r.register reg).routes = r.routes.insert reg.key reg.registered := by
  cases reg <;> rfl

theorem lookup_built (key : Bytes × Bytes) (rs : List (Registration H)) :
    (built rs).routes.lookup key = last key rs := by
  unfold last built
  induction rs using List.reverseRecOn with
  | nil => rfl
  | append_singleton rs reg ih =>
    rw [List.foldl_append, List.foldl_cons, List.foldl_nil, routes_register, List.reverse_append,
      List.reverse_singleton, List.singleton_append, List.find?_cons]
    by_cases hk : reg.key = key
    · subst hk
      rw [AList.lookup_insert, decide_eq_true rfl]
      rfl
    · rw [AList.lookup_insert_ne (Ne.symm hk), ih, decide_eq_false hk]

/-- **The handler of a request**: the one registered last for its method in upper case and its path,
or the default one. -/
theorem route_built (rs : List (Registration H)) (request : IRequest) :
    (built rs).route request =
      (last (toUpper request.method, request.uri) rs).or (last defaultKey rs) := by
  unfold route
  rw [lookup_built, lookup_built]
  cases last (toUpper request.method, request.uri) rs <;> rfl

theorem last_eq_none_iff {key : Bytes × Bytes} {rs : List (Registration H)} :
    last key rs = none ↔ ∀ r ∈ rs, r.key ≠ key := by
  simp [last]

/-- A request has no handler exactly if nothing is registered for it, nor as the default. -/
theorem route_eq_none_iff {rs : List (Registration H)} {request : IRequest} :
    (built rs).route request = none ↔
      ∀ r ∈ rs, r.key ≠ (toUpper request.method, request.uri) ∧ r.key ≠ defaultKey := by
  rw [route_built, Option.or_eq_none_iff, last_eq_none_iff, last_eq_none_iff]
  exact ⟨fun h r hr => ⟨h.1 r hr, h.2 r hr⟩,
    fun h => ⟨fun r hr => (h r hr).1, fun r hr => (h r hr).2⟩⟩

/-- Where every key is registered once, the history can be read from either end. -/
theorem last_of_nodup {rs : List (Registration H)} (h : (rs.map key).Nodup) (k : Bytes × Bytes) :
    last k rs = (rs.find? fun r => r.key = k).map registered := by
  rw [last, List.find?_eq_find?_of_perm (List.reverse_perm rs)]
  rintro r ⟨hr, hk⟩ r' ⟨hr', hk'⟩
  rw [decide_eq_true_eq] at hk hk'
  exact List.inj_on_of_nodup_map h (List.mem_reverse.1 hr) (List.mem_reverse.1 hr')
    (hk.trans hk'.symm)

/-! ## The default handler and the routes -/

/-- The key a request is looked up under. -/
def requestKey (request : IRequest) : Bytes × Bytes := (toUpper request.method, request.uri)

/-- The handler a request is meant for: the one `registerHandler` registered last for its method in
upper case and its path, otherwise the one registered last as default. -/
def intended (rs : List (Registration H)) (request : IRequest) : Option H :=
  (lastHandler (requestKey request) rs).or (lastDefault rs)

/-- One handler is invoked on the request, or none, which returns null. -/
def invoke {σ : Type} (call : H → IRequestHandler σ) : Option H → IRequestHandler σ
  | some h => call h
  | none => fun _ s => (.ok none, s)

/-- The entry of the default handler does not stand in the way of the request: its own key is not
that entry's, or the entry is a route's; without a route of its own it finds the default handler. -/
def Apart (rs : List (Registration H)) (request : IRequest) : Prop :=
  if requestKey request = defaultKey then
    ∀ h, lastHandler defaultKey rs = some h → last defaultKey rs = some h
  else lastHandler (requestKey request) rs = none → last defaultKey rs = lastDefault rs

theorem handleRequest_eq_invoke {σ : Type} (r : RequestRouter H) (call : H → IRequestHandler σ)
    (request : IRequest) (s : σ) :
    r.handleRequest call request s = invoke call (r.route request) request s := by
  unfold handleRequest invoke
  cases r.route request <;> rfl

/-- Handlers that record their invocations tell one handler from another. -/
theorem invoke_inj {x y : Option H} (request : IRequest)
    (h : ∀ (σ : Type) (call : H → IRequestHandler σ) (s : σ),
      invoke call x request s = invoke call y request s) : x = y := by
  have hrec : ∀ x : Option H,
      (invoke (fun h _ _ => (.ok none, some h)) x request none).2 = x := by
    intro x
    cases x <;> rfl
  rw [← hrec x, h, hrec]

/-- Under any other key than that of the default handler there are only routes. -/
theorem lastHandler_of_ne {key : Bytes × Bytes} (hkey : key ≠ defaultKey)
    (rs : List (Registration H)) : lastHandler key rs = last key rs := by
  unfold lastHandler last
  rw [← List.filter_reverse, List.find?_filter]
  congr 1
  apply List.find?_congr
  intro r _
  cases r with
  | handler method path h => simp [isHandler]
  | default h => simp [isHandler, Registration.key, Ne.symm hkey]

/-- Without a route under the key of the default handler only default handlers stand there. -/
theorem last_defaultKey {rs : List (Registration H)} (h : lastHandler defaultKey rs = none) :
    last defaultKey rs = lastDefault rs := by
  have hnone := last_eq_none_iff.1 h
  unfold lastDefault last
  rw [← List.filter_reverse, List.find?_filter]
  congr 1
  apply List.find?_congr
  intro r hr
  cases hroute : r.isHandler with
  | true =>
    have hmem := List.mem_filter.2 ⟨List.mem_reverse.1 hr, hroute⟩
    simp [hnone r hmem]
  | false => simp

theorem route_built_iff (rs : List (Registration H)) (request : IRequest) :
    (built rs).route request = intended rs request ↔ Apart rs request := by
  rw [route_built, intended, Apart, ← requestKey]
  split
  next hkey =>
    rw [hkey, Option.or_self]
    cases hlast : lastHandler defaultKey rs with
    | none => simp [last_defaultKey hlast]
    | some h => simp
  next hkey =>
    rw [← lastHandler_of_ne hkey]
    cases lastHandler (requestKey request) rs <;> simp

/-- **Which handler is invoked**: the intended one, exactly where the default handler's entry does
not stand in the way. -/
theorem handled_iff (rs : List (Registration H)) (request : IRequest) :
    (∀ (σ : Type) (call : H → IRequestHandler σ) (s : σ),
      (built rs).handleRequest call request s =
        invoke call (intended rs request) request s) ↔ Apart rs request := by
  rw [← route_built_iff]
  simp only [handleRequest_eq_invoke]
  refine ⟨invoke_inj request, fun h => ?_⟩
  intro σ call s
  rw [h]

/-- `registerHandler("*", "*", ..)` replaces the default handler: a request nothing is registered
for goes to the route. -/
theorem default_replaced :
    ¬ ∀ (rs : List (Registration Bool)) (request : IRequest) (σ : Type)
      (call : Bool → IRequestHandler σ) (s : σ), (built rs).handleRequest call request s =
        invoke call (intended rs request) request s := by
  intro h
  let request : IRequest := .http
    { request := "GET /x HTTP/1.1\r\n\r\n", method := "GET", path := "/x" }
  have hroute := invoke_inj request fun σ call s =>
    (handleRequest_eq_invoke _ call request s).symm.trans
      (h [.default true, .handler "*" "*" false] request σ call s)
  exact absurd hroute (by decide)

end RequestRouter

end HttpsTest
