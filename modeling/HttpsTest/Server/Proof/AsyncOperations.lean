import HttpsTest.Lib.Runs
import HttpsTest.Server.AsyncOperations
import HttpsTest.Server.Proof.Framing

/-!
# One operation at a time

`serial_of_path`: whatever the results of its operations, a connection has exactly one of them
outstanding until it is stopped and none afterwards; every dispatched request starts one write,
the responses are written in the order of the requests, and nothing is dispatched behind a request
whose connection is not kept. So the connection of one pending operation is all there is to it
(`connection_of_path`).
-/

set_option autoImplicit false

namespace HttpsTest

open AsyncClientHandler

namespace AsyncSession

variable {σ : Type} {handler : IRequestHandler σ} {o : HashOrder}

/-- What a client of the connection can rely on. -/
structure Serial (s : AsyncSession σ) : Prop where
  one : s.isOpen = true → ∃ op, s.outstanding = [op]
  none : s.isOpen = false → s.outstanding = []
  /-- Every request that was dispatched has started one write, in this order. -/
  writes : s.writes = s.dispatched.map Dispatched.response
  /-- The writes succeed in this order. -/
  delivered : s.delivered <+: s.writes
  /-- Behind a request that does not keep the connection none is dispatched. -/
  kept : ∀ d ∈ s.dispatched.dropLast, d.keepAlive = true
  decisions : ∀ d ∈ s.dispatched, d.keepAlive = shouldKeepAlive d.request

/-- The request handler returns a response, where the read completes a request. -/
def ReturnsNormally (handler : IRequestHandler σ) (o : HashOrder) (s : AsyncSession σ) :
    Nat × Completion → Prop
  | (_, .read chunk) => isCompleteRequest (s.client.requestData ++ chunk) = true →
      ∃ text, (dispatch handler o
        { s.client with requestData := s.client.requestData ++ chunk } s.handler).1 = .ok text
  | _ => True

/-! ## The phases of a connection -/

/-- Where a connection is, with the requests it has dispatched: it reads, it writes the response to
the last of them, or it is closed. -/
inductive Phase (s : AsyncSession σ) : Prop
  | reading (isOpen : s.isOpen = true) (outstanding : s.outstanding = [.read])
      (kept : ∀ d ∈ s.dispatched, d.keepAlive = true)
      (delivered : s.delivered = s.dispatched.map Dispatched.response)
  | writing (ds : List Dispatched) (d : Dispatched) (isOpen : s.isOpen = true)
      (outstanding : s.outstanding = [.write d.response]) (dispatched : s.dispatched = ds ++ [d])
      (kept : ∀ d ∈ ds, d.keepAlive = true) (decision : s.client.keepAlive = d.keepAlive)
      (delivered : s.delivered = ds.map Dispatched.response)
  | closed (isOpen : s.isOpen = false) (outstanding : s.outstanding = [])
      (kept : ∀ d ∈ s.dispatched.dropLast, d.keepAlive = true)
      (delivered : s.delivered <+: s.dispatched.map Dispatched.response)

structure Inv (s : AsyncSession σ) : Prop where
  phase : s.Phase
  writes : s.writes = s.dispatched.map Dispatched.response
  decisions : ∀ d ∈ s.dispatched, d.keepAlive = shouldKeepAlive d.request

theorem Inv.serial {s : AsyncSession σ} (h : s.Inv) : s.Serial := by
  obtain ⟨hphase, hwrites, hdecisions⟩ := h
  cases hphase with
  | reading isOpen outstanding kept delivered =>
    have hin : s.delivered <+: s.writes := by rw [hwrites, delivered]
    exact ⟨fun _ => ⟨_, outstanding⟩, fun hc => (nomatch isOpen.symm.trans hc), hwrites, hin,
      fun d hd => kept d (List.dropLast_subset _ hd), hdecisions⟩
  | writing ds d isOpen outstanding dispatched kept decision delivered =>
    have hin : s.delivered <+: s.writes := by
      rw [hwrites, delivered, dispatched, List.map_append]
      exact List.prefix_append _ _
    have hkept : ∀ d ∈ s.dispatched.dropLast, d.keepAlive = true := by
      rw [dispatched, List.dropLast_concat]
      exact kept
    exact ⟨fun _ => ⟨_, outstanding⟩, fun hc => (nomatch isOpen.symm.trans hc), hwrites, hin, hkept,
      hdecisions⟩
  | closed isOpen outstanding kept delivered =>
    exact ⟨fun ho => (nomatch isOpen.symm.trans ho), fun _ => outstanding, hwrites,
      hwrites ▸ delivered, kept, hdecisions⟩

theorem inv_start (h : σ) : (start h).Inv where
  phase := .reading rfl rfl nofun rfl
  writes := rfl
  decisions := nofun

/-! ## Completions -/

/-- How the one outstanding read completes. -/
theorem completed_read {s t : AsyncSession σ} {e : Nat × Completion}
    (houtstanding : s.outstanding = [.read]) (hstep : s.completed handler o e = some t) :
    (∃ chunk, e = (0, .read chunk) ∧
        t = handleRead handler o chunk { s with outstanding := [] }) ∨
      (e = (0, .readEof) ∨ e = (0, .readError)) ∧
        t = stop { s with outstanding := [] } := by
  obtain ⟨i, k⟩ := e
  unfold completed at hstep
  cases i with
  | succ i => simp [houtstanding] at hstep
  | zero =>
    simp only [houtstanding, List.getElem?_cons_zero, List.eraseIdx_cons_zero] at hstep
    cases k with
    | read chunk => exact .inl ⟨chunk, rfl, (Option.some.inj hstep).symm⟩
    | readEof => exact .inr ⟨.inl rfl, (Option.some.inj hstep).symm⟩
    | readError => exact .inr ⟨.inr rfl, (Option.some.inj hstep).symm⟩
    | written => cases hstep
    | writeError => cases hstep

/-- How the one outstanding write completes. -/
theorem completed_write {s t : AsyncSession σ} {e : Nat × Completion} {text : Bytes}
    (houtstanding : s.outstanding = [.write text]) (hstep : s.completed handler o e = some t) :
    e = (0, .written) ∧ t = handleWrite { s with
        outstanding := [], delivered := s.delivered ++ [text] } ∨
      e = (0, .writeError) ∧ t = stop { s with outstanding := [] } := by
  obtain ⟨i, k⟩ := e
  unfold completed at hstep
  cases i with
  | succ i => simp [houtstanding] at hstep
  | zero =>
    simp only [houtstanding, List.getElem?_cons_zero, List.eraseIdx_cons_zero] at hstep
    cases k with
    | written => exact .inl ⟨rfl, (Option.some.inj hstep).symm⟩
    | writeError => exact .inr ⟨rfl, (Option.some.inj hstep).symm⟩
    | read chunk => cases hstep
    | readEof => cases hstep
    | readError => cases hstep

/-- A read that completes a request which the handler answers. -/
theorem handleRead_dispatched {s : AsyncSession σ} {chunk text : Bytes}
    (hcomplete : isCompleteRequest (s.client.requestData ++ chunk) = true)
    (htext : (dispatch handler o { s.client with requestData := s.client.requestData ++ chunk }
      s.handler).1 = .ok text) :
    let data := s.client.requestData ++ chunk
    ∃ h, s.handleRead handler o chunk = { s with
      client := { keepAlive := shouldKeepAlive data, requestData := [] }
      handler := h
      outstanding := s.outstanding ++ [.write text]
      writes := s.writes ++ [text]
      dispatched := s.dispatched ++
        [{ request := data, keepAlive := shouldKeepAlive data, response := text }] } := by
  obtain ⟨request, -, hd⟩ := dispatch_spec handler o
    { s.client with requestData := s.client.requestData ++ chunk } s.handler
  unfold handleRead processRequest
  simp only [hcomplete, if_true]
  rw [hd] at htext ⊢
  simp only at htext
  simp only [htext]
  exact ⟨_, rfl⟩

/-! ## Runs -/

/-- **One completion** keeps the invariant. -/
theorem inv_completed {s t : AsyncSession σ} {e : Nat × Completion} (h : s.Inv)
    (hreturns : ReturnsNormally handler o s e) (hstep : s.completed handler o e = some t) :
    t.Inv := by
  obtain ⟨hphase, hwrites, hdecisions⟩ := h
  cases hphase with
  | reading isOpen outstanding kept delivered =>
    rcases completed_read outstanding hstep with ⟨chunk, rfl, rfl⟩ | ⟨-, rfl⟩
    · by_cases hcomplete : isCompleteRequest (s.client.requestData ++ chunk) = true
      · obtain ⟨text, htext⟩ := hreturns hcomplete
        obtain ⟨h', heq⟩ := @handleRead_dispatched _ _ _ { s with outstanding := [] } chunk text
          hcomplete htext
        rw [heq]
        refine ⟨.writing s.dispatched _ isOpen rfl rfl kept rfl delivered, ?_, ?_⟩
        · simp [hwrites]
        · intro d hd
          rcases List.mem_append.1 hd with hd | hd
          · exact hdecisions d hd
          · rw [List.mem_singleton.1 hd]
      · unfold handleRead
        simp only [if_neg hcomplete]
        exact ⟨.reading isOpen rfl kept delivered, hwrites, hdecisions⟩
    · have hin : s.delivered <+: s.dispatched.map Dispatched.response := by rw [delivered]
      exact ⟨.closed rfl rfl (fun d hd => kept d (List.dropLast_subset _ hd)) hin, hwrites,
        hdecisions⟩
  | writing ds d isOpen outstanding dispatched kept decision delivered =>
    have hkept : ∀ d ∈ s.dispatched.dropLast, d.keepAlive = true := by
      rw [dispatched, List.dropLast_concat]
      exact kept
    have hall : s.delivered ++ [d.response] = s.dispatched.map Dispatched.response := by
      rw [dispatched, delivered, List.map_append]
      rfl
    rcases completed_write outstanding hstep with ⟨-, rfl⟩ | ⟨-, rfl⟩
    · unfold handleWrite
      by_cases hkeep : s.client.keepAlive = true
      · simp only [if_pos hkeep]
        refine ⟨.reading isOpen rfl ?_ hall, hwrites, hdecisions⟩
        intro d' hd'
        rcases List.mem_append.1 (dispatched ▸ hd') with hd' | hd'
        · exact kept d' hd'
        · rw [List.mem_singleton.1 hd', ← decision]
          exact hkeep
      · simp only [if_neg hkeep]
        exact ⟨.closed rfl rfl hkept (hall ▸ List.prefix_rfl), hwrites, hdecisions⟩
    · have hin : s.delivered <+: s.dispatched.map Dispatched.response := by
        rw [← hall]
        exact List.prefix_append _ _
      exact ⟨.closed rfl rfl hkept hin, hwrites, hdecisions⟩
  | closed isOpen outstanding kept delivered =>
    -- nothing is left that could complete
    simp [completed, outstanding] at hstep

/-- The connection of one pending operation does what the operation does that completes. -/
theorem completed_connection {s t : AsyncSession σ} {e : Nat × Completion} (h : s.Inv)
    (hstep : s.completed handler o e = some t) :
    (s.connection.complete handler o e.2 s.handler).2 = (t.connection, t.handler) := by
  obtain ⟨hphase, -⟩ := h
  cases hphase with
  | reading isOpen outstanding kept delivered =>
    rcases completed_read outstanding hstep with ⟨chunk, rfl, rfl⟩ | ⟨he, rfl⟩
    · unfold connection Connection.complete Connection.handleRead handleRead
      simp only [outstanding]
      split
      · unfold AsyncClientHandler.processRequest processRequest
        rcases dispatch handler o
          { s.client with requestData := s.client.requestData ++ chunk } s.handler with
          ⟨_ | _, client, h'⟩ <;> rfl
      · rfl
    · rcases he with he | he
      · rw [he]
        simp [connection, Connection.complete, outstanding, stop]
      · rw [he]
        simp [connection, Connection.complete, outstanding, stop]
  | writing ds d isOpen outstanding dispatched kept decision delivered =>
    rcases completed_write outstanding hstep with ⟨he, rfl⟩ | ⟨he, rfl⟩
    · rw [he]
      unfold connection Connection.complete handleWrite
      simp only [outstanding]
      cases s.client.keepAlive <;> rfl
    · rw [he]
      simp [connection, Connection.complete, outstanding, stop]
  | closed isOpen outstanding kept delivered => simp [completed, outstanding] at hstep

/-- Along a path the connection of one pending operation does what the operations do. -/
theorem connection_of_path {s t : AsyncSession σ} {es : List (Nat × Completion)} (h : s.Inv)
    (hpath : Runs.Path (Runs.Restrict (fun s e t => completed handler o s e = some t)
      (ReturnsNormally handler o)) s es t) : (t.connection, t.handler) =
        es.foldl (fun c e => (c.1.complete handler o e.2 c.2).2) (s.connection, s.handler) := by
  induction hpath with
  | nil => rfl
  | cons hstep _ ih =>
    rw [List.foldl_cons, completed_connection h hstep.2]
    exact ih (inv_completed h hstep.1 hstep.2)

/-- **One operation at a time**, in every state a new connection reaches, whatever its operations
result in, as long as the request handler returns; so it is the connection of one pending
operation. -/
theorem serial_of_path {h : σ} {t : AsyncSession σ} {es : List (Nat × Completion)}
    (hpath : Runs.Path (Runs.Restrict (fun s e t => completed handler o s e = some t)
      (ReturnsNormally handler o)) (start h) es t) : t.Serial ∧ (t.connection, t.handler) =
        es.foldl (fun c e => (c.1.complete handler o e.2 c.2).2) ({}, h) := by
  refine ⟨Inv.serial (hpath.invariant (J := Inv) ?_ (inv_start h)),
    connection_of_path (inv_start h) hpath⟩
  exact fun s e t hs hreturns hstep => inv_completed hs hreturns hstep

/-- A request, its response, and the end of the stream. -/
theorem serial_hello : ∃ t : AsyncSession Unit,
    t.Serial ∧ t.isOpen = false ∧ t.dispatched.length = 1 := by
  refine ⟨_, (@serial_of_path Unit helloOnly .listed () _
    [(0, .read "GET /hello HTTP/1.1\r\n\r\n"), (0, .written), (0, .readEof)]
    (.cons ⟨fun _ => ⟨_, rfl⟩, by rfl⟩
      (.cons ⟨trivial, by rfl⟩ (.cons ⟨trivial, by rfl⟩ (.nil _))))).1,
    rfl, rfl⟩

end AsyncSession

end HttpsTest
