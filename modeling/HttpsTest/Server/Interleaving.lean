import HttpsTest.Server.WireRequest

/-!
# A connection on several threads

The completion handlers of one connection run on any thread inside `io_context_.run()`, so a
`handleWrite` and the `handleRead` behind it can run before the thread that started the write has
cleared the buffer. A step is one of: the client sends a request, after it has the response to the
one before; `handleRead`; `processRequest` up to the start of the write; the rest of
`processRequest`; `handleWrite`.

`fresh` are the bytes in the buffer that were part of no dispatched request, and `lost` those
of them that were removed.
-/

set_option autoImplicit false

namespace HttpsTest

open AsyncClientHandler

structure SharedConnection (σ : Type) where
  client : AsyncClientHandler := {}
  handler : σ
  /-- What the client has sent. -/
  sent : List WireRequest := []
  /-- Sent and not read. -/
  inbox : Bytes := []
  /-- Responses whose write was started. -/
  answers : Nat := 0
  closed : Bool := false
  /-- The reads that wait for bytes. -/
  reads : Nat := 1
  /-- The threads that are about to process the buffer. -/
  processing : Nat := 0
  /-- The threads that have started a write and are about to clear the buffer. -/
  clears : Nat := 0
  /-- The writes whose handler has not run. -/
  writes : Nat := 0
  dispatched : List Bytes := []
  fresh : Bytes := []
  lost : Bytes := []

inductive SharedStep where
  | send (r : WireRequest)
  | handleRead (n : Nat)
  | process
  | clear
  | handleWrite

namespace SharedConnection

variable {σ : Type} (handler : IRequestHandler σ) (o : HashOrder)

/-- The size of `m_buffer`. -/
def bufferSize : Nat := 8192

/-- A step, if it can be taken; `handleRead n` reads `n` bytes. -/
def step (s : SharedConnection σ) : SharedStep → Option (SharedConnection σ)
  | .send r =>
    if s.answers = s.sent.length then
      some { s with sent := s.sent ++ [r], inbox := s.inbox ++ r.bytes }
    else none
  | .handleRead n =>
    if 0 < s.reads ∧ ¬ s.closed ∧ 0 < n ∧ n ≤ bufferSize ∧ n ≤ s.inbox.length then
      let chunk := s.inbox.take n
      let client := { s.client with requestData := s.client.requestData ++ chunk }
      let s := { s with client, fresh := s.fresh ++ chunk, inbox := s.inbox.drop n }
      if isCompleteRequest client.requestData then
        some { s with reads := s.reads - 1, processing := s.processing + 1 }
      else some s
    else none
  | .process =>
    if 0 < s.processing then
      let (outcome, client, h) := dispatch handler o s.client s.handler
      let s := { s with
        client
        handler := h
        dispatched := s.dispatched ++ [s.client.requestData]
        fresh := []
        processing := s.processing - 1 }
      match outcome with
      | .ok _ =>
        some { s with answers := s.answers + 1, clears := s.clears + 1, writes := s.writes + 1 }
      | .error _ => some s
    else none
  | .clear =>
    if 0 < s.clears then
      some { s with
        client := s.client.clear
        lost := s.lost ++ s.fresh
        fresh := []
        clears := s.clears - 1 }
    else none
  | .handleWrite =>
    if 0 < s.writes then
      let s := { s with writes := s.writes - 1 }
      some (if s.client.keepAlive then { s with reads := s.reads + 1 }
        else { s with closed := true, reads := 0 })
    else none

/-- The steps as a relation. -/
def Steps (s : SharedConnection σ) (l : SharedStep) (t : SharedConnection σ) : Prop :=
  s.step handler o l = some t

/-- No step of the server can be taken. -/
structure Quiet (s : SharedConnection σ) : Prop where
  processing : s.processing = 0
  clears : s.clears = 0
  writes : s.writes = 0
  reads : s.reads = 0 ∨ s.closed = true ∨ s.inbox = []

/-- Requests are dispatched once each and in order, all of them by the time the server has nothing
left to do, and no byte is removed before. -/
structure Sound (s : SharedConnection σ) : Prop where
  in_order : s.dispatched <+: s.sent.map WireRequest.bytes
  all : s.Quiet → s.dispatched = s.sent.map WireRequest.bytes
  nothing_lost : s.lost = []

end SharedConnection

end HttpsTest
