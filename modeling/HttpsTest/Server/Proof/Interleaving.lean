import HttpsTest.Lib.Runs
import HttpsTest.Server.Interleaving
import HttpsTest.Server.Proof.Framing

/-!
# Interleavings of a connection

`sound_of_orderly`: in every run in which each `handleRead` comes behind the clearing of the buffer,
and the client sends requests whose length is read correctly and that keep the connection alive,
requests are dispatched once each and no byte is lost. The invariant `Phase` follows one
request: the connection waits for it, reads it, has it complete in the buffer, or is given up
because the handler threw. `request_lost_by_late_clear` is a run with a `handleRead` before the
clearing.
-/

set_option autoImplicit false

namespace HttpsTest

open AsyncClientHandler

namespace SharedConnection

variable {σ : Type}

/-- The step does not read into a buffer that is still to be cleared, and what is sent can be told
apart from what follows. -/
def Orderly (s : SharedConnection σ) : SharedStep → Prop
  | .send r => getContentLength r.head = r.body.length ∧ shouldKeepAlive r.bytes = true
  | .handleRead _ => s.clears = 0
  | _ => True

instance (s : SharedConnection σ) : ∀ l, Decidable (s.Orderly l)
  | .send _ => inferInstanceAs (Decidable (_ ∧ _))
  | .handleRead _ => inferInstanceAs (Decidable (_ = _))
  | .process | .clear | .handleWrite => inferInstanceAs (Decidable True)

/-- Between two requests and while one is read, the buffer holds the fresh bytes, unless it is still
to be cleared; then there are none. -/
structure Buffered (s : SharedConnection σ) : Prop where
  operation : s.reads + s.writes = 1
  processing : s.processing = 0
  clears : s.clears = 0 ∧ s.client.requestData = s.fresh ∨ s.clears = 1 ∧ s.fresh = []
  writing : s.writes = 1 → s.client.keepAlive = true ∧ s.fresh = []

inductive Phase (s : SharedConnection σ) : Prop
  /-- Every request is dispatched. -/
  | waiting : s.Buffered → s.sent.map WireRequest.bytes = s.dispatched → s.fresh = [] →
      s.inbox = [] → s.answers = s.sent.length → Phase s
  /-- A request is on its way. -/
  | reading (r : WireRequest) : s.Buffered →
      getContentLength r.head = r.body.length → shouldKeepAlive r.bytes = true →
      s.sent.map WireRequest.bytes = s.dispatched ++ [r.bytes] → s.fresh ++ s.inbox = r.bytes →
      s.inbox ≠ [] → s.answers + 1 = s.sent.length → Phase s
  /-- A request is complete. -/
  | ready (r : WireRequest) : s.processing = 1 → s.reads = 0 → s.writes = 0 → s.clears = 0 →
      shouldKeepAlive r.bytes = true → s.sent.map WireRequest.bytes = s.dispatched ++ [r.bytes] →
      s.client.requestData = r.bytes → s.inbox = [] → s.answers + 1 = s.sent.length → Phase s
  /-- The handler threw. -/
  | finished : s.processing = 0 → s.reads = 0 → s.writes = 0 → s.clears = 0 →
      s.sent.map WireRequest.bytes = s.dispatched → s.answers + 1 = s.sent.length → Phase s

structure Inv (s : SharedConnection σ) : Prop where
  phase : s.Phase
  not_closed : s.closed = false
  lost : s.lost = []

theorem Inv.sound {s : SharedConnection σ} (h : s.Inv) : s.Sound := by
  obtain ⟨hphase, hopen, hlost⟩ := h
  cases hphase with
  | waiting hb hsent hfresh hinbox hans =>
    exact ⟨hsent ▸ List.prefix_rfl, fun _ => hsent.symm, hlost⟩
  | reading r hb hlen hkeep hsent hbytes hinbox hans =>
    refine ⟨hsent ▸ List.prefix_append _ _, fun hq => ?_, hlost⟩
    -- the connection still waits for the rest of the request
    have hreads := hb.operation
    rw [hq.writes] at hreads
    rcases hq.reads with h | h | h
    · omega
    · rw [hopen] at h
      cases h
    · exact absurd h hinbox
  | ready r hp hr hw hc hkeep hsent hdata hinbox hans =>
    refine ⟨hsent ▸ List.prefix_append _ _, fun hq => ?_, hlost⟩
    have := hq.processing
    omega
  | finished hp hr hw hc hsent hans =>
    exact ⟨hsent ▸ List.prefix_rfl, fun _ => hsent.symm, hlost⟩

variable {handler : IRequestHandler σ} {o : HashOrder} {s t : SharedConnection σ}

/-! ## Steps -/

theorem inv_send {r : WireRequest} (h : s.Inv) (hc : s.Orderly (.send r))
    (hs : s.step handler o (.send r) = some t) : t.Inv := by
  obtain ⟨hphase, hopen, hlost⟩ := h
  simp only [step] at hs
  split at hs
  · rename_i hans
    cases hs
    refine ⟨?_, hopen, hlost⟩
    cases hphase with
    | waiting hb hsent hfresh hinbox hans' =>
      exact .reading r ⟨hb.operation, hb.processing, hb.clears, hb.writing⟩ hc.1 hc.2
        (by simp [← hsent]) (by simp [hfresh, hinbox]) (by simp [hinbox, r.bytes_ne_nil])
        (by simp [hans'])
    | reading _ _ _ _ _ _ _ hans' => omega
    | ready _ _ _ _ _ _ _ _ _ hans' => omega
    | finished _ _ _ _ _ hans' => omega
  · cases hs

theorem inv_handleRead {n : Nat} (h : s.Inv) (hc : s.Orderly (.handleRead n))
    (hs : s.step handler o (.handleRead n) = some t) : t.Inv := by
  obtain ⟨hphase, hopen, hlost⟩ := h
  simp only [step] at hs
  split at hs
  · rename_i hguard
    obtain ⟨hreads, -, hn, -, hle⟩ := hguard
    cases hphase with
    | waiting hb hsent hfresh hinbox hans =>
      rw [hinbox, List.length_nil] at hle
      omega
    | ready r hp hr hw hc' hkeep hsent hdata hinbox hans => omega
    | finished hp hr hw hc' hsent hans => omega
    | reading r hb hlen hkeep hsent hbytes hinbox hans =>
      have hclear : s.clears = 0 := hc
      have hdata : s.client.requestData = s.fresh := by
        rcases hb.clears with h | h
        · exact h.2
        · omega
      have hops := hb.operation
      have hlens := congrArg List.length hbytes
      rw [List.length_append, r.length_bytes] at hlens
      -- the test answers yes exactly when the request is complete
      have hinitial : s.client.requestData ++ s.inbox.take n <+: r.bytes := by
        rw [hdata, ← hbytes, List.prefix_append_right_inj]
        exact List.take_prefix _ _
      have htest := r.isCompleteRequest_prefix hinitial
      rw [hdata, List.length_append, List.length_take, hlen] at htest
      split at hs
      · rename_i hcomplete
        cases hs
        rw [hdata] at hcomplete
        have hall := htest.1 hcomplete
        have htake : s.inbox.take n = s.inbox := List.take_of_length_le (by omega)
        refine ⟨.ready r ?_ ?_ ?_ hclear hkeep hsent ?_ ?_ hans, hopen, hlost⟩
        · simp [hb.processing]
        · show s.reads - 1 = 0
          omega
        · show s.writes = 0
          omega
        · simp only [hdata, htake, hbytes]
        · exact List.drop_eq_nil_of_le (by omega)
      · rename_i hcomplete
        cases hs
        rw [hdata] at hcomplete
        have hpart : ¬ r.head.length + r.body.length ≤ s.fresh.length + min n s.inbox.length :=
          fun hall => hcomplete (htest.2 hall)
        refine ⟨.reading r ⟨hops, hb.processing, .inl ⟨hclear, ?_⟩, fun hw => ?_⟩ hlen hkeep
          hsent ?_ ?_ hans, hopen, hlost⟩
        · simp only [hdata]
        · simp only at hw
          omega
        · simp only [List.append_assoc, List.take_append_drop, hbytes]
        · intro hnil
          have := List.drop_eq_nil_iff.1 hnil
          omega
  · cases hs

theorem inv_process (h : s.Inv) (hs : s.step handler o .process = some t) : t.Inv := by
  obtain ⟨hphase, hopen, hlost⟩ := h
  simp only [step] at hs
  split at hs
  · rename_i hguard
    cases hphase with
    | waiting hb => have := hb.processing; omega
    | reading r hb => have := hb.processing; omega
    | finished hp => omega
    | ready r hp hr hw hc hkeep hsent hdata hinbox hans =>
      obtain ⟨request, -, hd⟩ := dispatch_spec handler o s.client s.handler
      rw [hd] at hs
      simp only at hs
      split at hs
      · cases hs
        refine ⟨.waiting ⟨?_, ?_, .inr ⟨?_, rfl⟩, fun _ => ⟨?_, rfl⟩⟩ ?_ rfl hinbox hans, hopen,
          hlost⟩
        · simp [hr, hw]
        · simp [hp]
        · simp [hc]
        · rw [hdata]
          exact hkeep
        · rw [hsent, hdata]
      · cases hs
        exact ⟨.finished (by simp [hp]) hr hw hc (by rw [hsent, hdata]) hans, hopen, hlost⟩
  · cases hs

theorem Buffered.clear (hb : s.Buffered) (hc : 0 < s.clears) :
    s.fresh = [] ∧ { s with client := s.client.clear, lost := s.lost ++ s.fresh, fresh := [],
                            clears := s.clears - 1 }.Buffered := by
  rcases hb.clears with h | ⟨h, hfresh⟩
  · omega
  · exact ⟨hfresh, hb.operation, hb.processing, .inl ⟨by simp [h], rfl⟩,
      fun hw => ⟨(hb.writing hw).1, rfl⟩⟩

theorem inv_clear (h : s.Inv) (hs : s.step handler o .clear = some t) : t.Inv := by
  obtain ⟨hphase, hopen, hlost⟩ := h
  simp only [step] at hs
  split at hs
  · rename_i hguard
    cases hs
    cases hphase with
    | waiting hb hsent hfresh hinbox hans =>
      obtain ⟨-, hb'⟩ := hb.clear hguard
      exact ⟨.waiting hb' hsent rfl hinbox hans, hopen, by simp [hlost, hfresh]⟩
    | reading r hb hlen hkeep hsent hbytes hinbox hans =>
      obtain ⟨hfresh, hb'⟩ := hb.clear hguard
      rw [hfresh] at hbytes
      exact ⟨.reading r hb' hlen hkeep hsent hbytes hinbox hans, hopen, by simp [hlost, hfresh]⟩
    | ready r hp hr hw hc => omega
    | finished hp hr hw hc => omega
  · cases hs

theorem Buffered.handleWrite (hb : s.Buffered) (hw : 0 < s.writes) :
    s.client.keepAlive = true ∧
      { s with writes := s.writes - 1, reads := s.reads + 1 }.Buffered := by
  have hops := hb.operation
  exact ⟨(hb.writing (by omega)).1, by show s.reads + 1 + (s.writes - 1) = 1; omega, hb.processing,
    hb.clears, fun h => absurd (show s.writes - 1 = 1 from h) (by omega)⟩

theorem inv_handleWrite (h : s.Inv) (hs : s.step handler o .handleWrite = some t) : t.Inv := by
  obtain ⟨hphase, hopen, hlost⟩ := h
  simp only [step] at hs
  split at hs
  · rename_i hguard
    cases hphase with
    | waiting hb hsent hfresh hinbox hans =>
      obtain ⟨hkeep, hb'⟩ := hb.handleWrite hguard
      rw [if_pos hkeep] at hs
      cases hs
      exact ⟨.waiting hb' hsent hfresh hinbox hans, hopen, hlost⟩
    | reading r hb hlen hkeep' hsent hbytes hinbox hans =>
      obtain ⟨hkeep, hb'⟩ := hb.handleWrite hguard
      rw [if_pos hkeep] at hs
      cases hs
      exact ⟨.reading r hb' hlen hkeep' hsent hbytes hinbox hans, hopen, hlost⟩
    | ready r hp hr hw hc => omega
    | finished hp hr hw hc => omega
  · cases hs

theorem inv_step {l : SharedStep} (h : s.Inv) (hc : s.Orderly l)
    (hs : s.step handler o l = some t) : t.Inv := by
  cases l with
  | send r => exact inv_send h hc hs
  | handleRead n => exact inv_handleRead h hc hs
  | process => exact inv_process h hs
  | clear => exact inv_clear h hs
  | handleWrite => exact inv_handleWrite h hs

/-! ## Runs -/

theorem inv_start (h : σ) : ({ handler := h } : SharedConnection σ).Inv where
  phase := .waiting ⟨rfl, rfl, .inl ⟨rfl, rfl⟩, fun hw => nomatch hw⟩ rfl rfl rfl rfl
  not_closed := rfl
  lost := rfl

/-- **Every request is dispatched exactly once and no byte is lost**, in every state of every run
whose steps are orderly. -/
theorem sound_of_orderly (handler : IRequestHandler σ) (o : HashOrder) (h : σ)
    {ls : List SharedStep} {t : SharedConnection σ}
    (hrun : Runs.Path (Runs.Restrict (Steps handler o) Orderly) { handler := h } ls t) : t.Sound :=
  (Runs.Path.invariant (fun _ _ _ hi hc hs => inv_step hi hc hs) hrun (inv_start h)).sound

/-- The client sends `helloRequest`, and it is read in one piece. -/
def helloSteps : List SharedStep := [.send helloRequest, .handleRead helloRequest.bytes.length]

def earlyClear : List SharedStep := helloSteps ++ [.process, .handleWrite, .clear] ++ helloSteps

theorem sound_two_requests :
    ∃ t, Runs.Path (Runs.Restrict (Steps helloOnly .listed) Orderly) { handler := () } earlyClear
      t ∧ t.Sound := by
  obtain ⟨t, ht⟩ := Option.isSome_iff_exists.1 (show (earlyClear.foldlM
    (fun (s : SharedConnection Unit) l => if s.Orderly l then s.step helloOnly .listed l else none)
    { handler := () }).isSome by decide)
  have hpath : Runs.Path (Runs.Restrict (Steps helloOnly .listed) Orderly) { handler := () }
    earlyClear t := Runs.path_restrict_iff_foldlM.2 ht
  exact ⟨t, hpath, sound_of_orderly helloOnly .listed () hpath⟩

def lateClear : List SharedStep := helloSteps ++ [.process, .handleWrite] ++ helloSteps ++ [.clear]

/-- The response is sent, the client sends its next request, and it is read, all before the buffer
is cleared: the request is lost. -/
theorem request_lost_by_late_clear :
    ∃ t, Runs.Path (Steps helloOnly .listed) { handler := () } lateClear t ∧ ¬ t.Sound := by
  obtain ⟨t, ht, hlost⟩ := Option.map_eq_some_iff.1 (show (lateClear.foldlM
    (fun (s : SharedConnection Unit) l => s.step helloOnly .listed l) { handler := () }).map
    (·.lost) = some helloRequest.bytes by decide)
  refine ⟨t, Runs.path_iff_foldlM.2 ht, fun hs => helloRequest.bytes_ne_nil ?_⟩
  rw [← hlost, hs.nothing_lost]

end SharedConnection

end HttpsTest
