import HttpsTest.Server.ThreadPool

/-!
# The notifications of the thread pool

`ThreadPool` with its calls of `notify_one` and `notify_all`, which stand behind the sections of
`enqueue` and of the destructor, and with the joins of the destructor. A worker in `condition.wait`
goes on when it is notified; the wake-ups without a notification are steps of their own.
-/

set_option autoImplicit false

namespace HttpsTest

structure NotifiedPool (τ : Type) (threadCount : Nat) where
  pool : ThreadPool τ threadCount := {}
  /-- The `enqueue` calls between their section and `notify_one`. -/
  notifyOnes : Nat := 0
  /-- The destructor is between its section and `notify_all`. -/
  notifyAll : Bool := false
  /-- The workers the destructor has joined. -/
  joined : Nat := 0

namespace NotifiedPool

inductive Action (τ : Type) (threadCount : Nat) where
  /-- The section of `enqueue`. -/
  | enqueue (task : τ)
  /-- `notify_one`, with the waiting worker it wakes, if one waits. -/
  | notifyOne (i : Option (Fin threadCount))
  | lock (i : Fin threadCount)
  /-- `wait` returns to its test without a notification. -/
  | wakeUp (i : Fin threadCount)
  | call (i : Fin threadCount)
  | finish (i : Fin threadCount)
  /-- The section of the destructor; every `enqueue` call has returned. -/
  | destroy
  | notifyAll
  /-- The destructor joins its next worker. -/
  | join

variable {τ : Type} {threadCount : Nat}

/-- A worker behind `notify_all`. -/
def wake : Worker τ → Worker τ
  | .waiting => .ready
  | w => w

def wakeAll (s : ThreadPool τ threadCount) : ThreadPool τ threadCount :=
  { s with workers := fun i => wake (s.workers i) }

/-- A step, if it can be taken. -/
def step (s : NotifiedPool τ threadCount) :
    Action τ threadCount → Option (NotifiedPool τ threadCount)
  | .enqueue task =>
    (s.pool.step (.enqueue task)).map fun pool => { s with pool, notifyOnes := s.notifyOnes + 1 }
  | .notifyOne (some i) =>
    if s.notifyOnes = 0 then none
    else
      (s.pool.step (.wakeUp i)).map fun pool => { s with pool, notifyOnes := s.notifyOnes - 1 }
  | .notifyOne none =>
    if s.notifyOnes ≠ 0 ∧ ∀ i, ¬ s.pool.workers i matches .waiting then
      some { s with notifyOnes := s.notifyOnes - 1 }
    else none
  | .lock i => (s.pool.step (.lock i)).map fun pool => { s with pool }
  | .wakeUp i => (s.pool.step (.wakeUp i)).map fun pool => { s with pool }
  | .call i => (s.pool.step (.call i)).map fun pool => { s with pool }
  | .finish i => (s.pool.step (.finish i)).map fun pool => { s with pool }
  | .destroy =>
    if s.notifyOnes = 0 then
      (s.pool.step .destroy).map fun pool => { s with pool, notifyAll := true }
    else none
  | .notifyAll => if s.notifyAll then some { s with pool := wakeAll s.pool, notifyAll := false }
    else none
  | .join =>
    if h : s.pool.stop ∧ ¬ s.notifyAll ∧ s.joined < threadCount then
      match s.pool.workers ⟨s.joined, h.2.2⟩ with
      | .returned => some { s with joined := s.joined + 1 }
      | _ => none
    else none

/-- The steps as a relation. -/
def Steps (s : NotifiedPool τ threadCount) (a : Action τ threadCount)
    (t : NotifiedPool τ threadCount) : Prop :=
  s.step a = some t

/-- The actions that the pool's own threads are bound to take. -/
def Action.Due : Action τ threadCount → Prop
  | .enqueue _ | .wakeUp _ | .destroy => False
  | .notifyOne _ | .lock _ | .call _ | .finish _ | .notifyAll | .join => True

/-- No thread of the pool, no `enqueue` call and no destructor can go on. -/
def Idle (s : NotifiedPool τ threadCount) : Prop :=
  ∀ a : Action τ threadCount, a.Due → s.step a = none

end NotifiedPool

end HttpsTest
