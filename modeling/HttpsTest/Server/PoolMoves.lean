import Mathlib.Logic.Function.Basic
import HttpsTest.Server.ThreadPool

/-!
# Moving thread pools

`ThreadPool` objects at addresses, with their move operations. A worker is bound to the object whose
constructor started it: its lambda has captured `this`, and the loop reads the mutex, the condition,
the queue and the stop flag through it. A move hands over the handles in `workers`, the queue and
the flag; the mutex, the condition and what a lambda has captured stay.

The steps are those of a program with any number of pools. Constructors, moves and `enqueue` are one
step each; a destructor is two, its section and the joins. The queue and the vector of a moved-from
pool are empty.
-/

set_option autoImplicit false

namespace HttpsTest

abbrev Address := Nat

/-- A running thread, behind its handle in `workers`. -/
structure Thread (τ : Type) where
  /-- The captured `this`. -/
  pool : Address
  worker : Worker τ := .ready

structure PoolObject (τ : Type) where
  workers : List (Thread τ) := []
  tasks : List (Job τ) := []
  stop : Bool := false
  /-- The number of `enqueue` calls so far. -/
  calls : Nat := 0
  /-- A move has had the object as its target. -/
  received : Bool := false

/-- The pools of a program. -/
structure Pools (τ : Type) where
  object : Address → Option (PoolObject τ) := fun _ => none
  /-- `std::terminate` has ended the program. -/
  terminated : Bool := false

namespace Pools

inductive Action (τ : Type) where
  | construct (p : Address) (threadCount : Nat)
  /-- `new (p) ThreadPool(std::move(other))` -/
  | moveConstruct (p other : Address)
  /-- `p = std::move(other)` -/
  | moveAssign (p other : Address)
  | enqueue (p : Address) (task : τ)
  /-- The section of the `i`-th worker that the pool `p` owns. -/
  | lock (p : Address) (i : Nat)
  | wakeUp (p : Address) (i : Nat)
  | call (p : Address) (i : Nat)
  | finish (p : Address) (i : Nat)
  /-- The section of the destructor. -/
  | destroy (p : Address)
  /-- The destructor has joined every worker, and the object is gone. -/
  | join (p : Address)

variable {τ : Type}

def set (s : Pools τ) (p : Address) (o : Option (PoolObject τ)) : Pools τ :=
  { s with object := Function.update s.object p o }

/-- The `i`-th worker that the pool owns. -/
def worker? (s : Pools τ) (p : Address) (i : Nat) : Option (Thread τ) :=
  (s.object p).bind (·.workers[i]?)

def setWorker (s : Pools τ) (p : Address) (i : Nat) (t : Thread τ) : Pools τ :=
  s.set p ((s.object p).map fun o => { o with workers := o.workers.set i t })

/-- What a move does to two objects, the one at `other` with the members of `o`. -/
def move (s : Pools τ) (p other : Address) (o : PoolObject τ) : Pools τ :=
  let moved := { o with workers := [], tasks := [] }
  (s.set other (some moved)).set p (some { o with received := true })

def terminate (s : Pools τ) : Pools τ :=
  { s with object := fun _ => none, terminated := true }

/-- What a worker does under the lock of the pool it is bound to. -/
def workerSection (s : Pools τ) (p : Address) (i : Nat) (t : Thread τ) (o : PoolObject τ) :
    Pools τ :=
  if o.stop ∨ o.tasks ≠ [] then
    match o.tasks with
    -- `stop` is set
    | [] => s.setWorker p i { t with worker := .returned }
    | job :: tasks =>
      (s.set t.pool (some { o with tasks })).setWorker p i { t with worker := .holding job }
  else s.setWorker p i { t with worker := .waiting }

/-- A step, if it can be taken. -/
def step (s : Pools τ) : Action τ → Option (Pools τ)
  | .construct p threadCount =>
    match s.object p with
    | none => some (s.set p (some { workers := List.replicate threadCount { pool := p } }))
    | some _ => none
  | .moveConstruct p other =>
    match s.object p, s.object other with
    | none, some o => some (s.move p other o)
    | _, _ => none
  | .moveAssign p other =>
    match s.object p, s.object other with
    | some o, some o' =>
      if p = other then some s
      else
        match o.workers with
        | [] => some (s.move p other o')
        -- joinable threads are destroyed
        | _ :: _ => some s.terminate
    | _, _ => none
  | .enqueue p task =>
    match s.object p with
    | some o =>
      let job := { call := o.calls, task }
      some (s.set p (some { o with tasks := o.tasks ++ [job], calls := o.calls + 1 }))
    | none => none
  | .lock p i =>
    match s.worker? p i with
    | some { pool, worker := .ready } =>
      (s.object pool).map (s.workerSection p i { pool, worker := .ready })
    | _ => none
  | .wakeUp p i =>
    match s.worker? p i with
    | some { pool, worker := .waiting } => some (s.setWorker p i { pool })
    | _ => none
  | .call p i =>
    match s.worker? p i with
    | some { pool, worker := .holding job } =>
      some (s.setWorker p i { pool, worker := .executing job })
    | _ => none
  | .finish p i =>
    match s.worker? p i with
    | some { pool, worker := .executing _ } => some (s.setWorker p i { pool })
    | _ => none
  | .destroy p =>
    match s.object p with
    | some o => if o.stop then none else some (s.set p (some { o with stop := true }))
    | none => none
  | .join p =>
    match s.object p with
    | some o =>
      if o.stop && o.workers.all (·.worker matches .returned) then some (s.set p none) else none
    | none => none

/-- The next state; a step that cannot be taken leaves the pools as they are. -/
def next (s : Pools τ) (a : Action τ) : Pools τ :=
  if s.terminated then s else (s.step a).getD s

end Pools

end HttpsTest
