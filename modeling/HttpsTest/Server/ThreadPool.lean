import Mathlib.Data.List.Basic

/-!
# The thread pool

`ThreadPool`: workers that take tasks from a queue. A step is one section under `queue_mutex`, of
`enqueue`, of a worker or of the destructor, or a step of a worker between its sections. A worker in
`condition.wait` may go on at any time, since wake-ups need no notification; it then tests the
condition again.

A job is a task with the number of the `enqueue` call it comes from. `enqueued`, `taken`, `begun`
and `finished` record what has happened to the jobs. All `enqueue` calls are made before the
destructor sets `stop`, and no task throws.
-/

set_option autoImplicit false

namespace HttpsTest

structure Job (τ : Type) where
  call : Nat
  task : τ
  deriving DecidableEq

/-- Where a worker stands in its loop. -/
inductive Worker (τ : Type) where
  /-- In front of the lock. -/
  | ready
  /-- In `condition.wait`, without the lock. -/
  | waiting
  /-- Behind the section, with a job to call. -/
  | holding (job : Job τ)
  | executing (job : Job τ)
  | returned
  deriving DecidableEq

structure ThreadPool (τ : Type) (threadCount : Nat) where
  workers : Fin threadCount → Worker τ := fun _ => .ready
  tasks : List (Job τ) := []
  stop : Bool := false
  enqueued : List (Job τ) := []
  taken : List (Job τ) := []
  begun : List (Job τ) := []
  finished : List (Job τ) := []

namespace ThreadPool

inductive Action (τ : Type) (threadCount : Nat) where
  /-- The section of `enqueue`. -/
  | enqueue (task : τ)
  /-- The section of a worker: the test of `wait` and what follows it under the lock. -/
  | lock (i : Fin threadCount)
  | wakeUp (i : Fin threadCount)
  /-- `task()` is called. -/
  | call (i : Fin threadCount)
  /-- `task()` returns. -/
  | finish (i : Fin threadCount)
  /-- The section of the destructor. -/
  | destroy

variable {τ : Type} {threadCount : Nat}

def setWorker (s : ThreadPool τ threadCount) (i : Fin threadCount) (w : Worker τ) :
    ThreadPool τ threadCount :=
  { s with workers := Function.update s.workers i w }

theorem workers_setWorker (s : ThreadPool τ threadCount) (i : Fin threadCount) (w : Worker τ) :
    (s.setWorker i w).workers = Function.update s.workers i w := rfl

@[simp] theorem tasks_setWorker (s : ThreadPool τ threadCount) (i : Fin threadCount)
    (w : Worker τ) : (s.setWorker i w).tasks = s.tasks := rfl

@[simp] theorem stop_setWorker (s : ThreadPool τ threadCount) (i : Fin threadCount)
    (w : Worker τ) : (s.setWorker i w).stop = s.stop := rfl

/-- What a worker does under the lock. -/
def workerSection (s : ThreadPool τ threadCount) (i : Fin threadCount) : ThreadPool τ threadCount :=
  if s.stop ∨ s.tasks ≠ [] then
    match s.tasks with
    -- `stop` is set
    | [] => s.setWorker i .returned
    | job :: tasks => { s with tasks, taken := s.taken ++ [job] }.setWorker i (.holding job)
  else s.setWorker i .waiting

/-- A step, if it can be taken. -/
def step (s : ThreadPool τ threadCount) : Action τ threadCount → Option (ThreadPool τ threadCount)
  | .enqueue task =>
    if s.stop then none
    else
      let job := { call := s.enqueued.length, task }
      some { s with tasks := s.tasks ++ [job], enqueued := s.enqueued ++ [job] }
  | .lock i =>
    match s.workers i with
    | .ready => some (s.workerSection i)
    | _ => none
  | .wakeUp i =>
    match s.workers i with
    | .waiting => some (s.setWorker i .ready)
    | _ => none
  | .call i =>
    match s.workers i with
    | .holding job => some ({ s with begun := s.begun ++ [job] }.setWorker i (.executing job))
    | _ => none
  | .finish i =>
    match s.workers i with
    | .executing job => some ({ s with finished := s.finished ++ [job] }.setWorker i .ready)
    | _ => none
  | .destroy => if s.stop then none else some { s with stop := true }

/-- The steps as a relation. -/
def Steps (s : ThreadPool τ threadCount) (a : Action τ threadCount) (t : ThreadPool τ threadCount) :
    Prop :=
  s.step a = some t

end ThreadPool

end HttpsTest
