import HttpsTest.Lib.Runs
import HttpsTest.Server.PoolMoves

/-!
# Who reads a pool's queue

`Served`: the workers that a pool owns are bound to it, and what is in the queue of a target of a
move is read by some worker. The steps that keep it are the `Careful` ones (`served_iff`). Along
such steps a target of a move has no workers and nothing in its queue (`Settled`), and a step of a
worker or of a destructor adds nothing to any object (`Shrinks`).
-/

set_option autoImplicit false

namespace HttpsTest

namespace Pools

variable {τ : Type} {s t : Pools τ} {p q : Address}

/-- The workers of a pool are bound to it, and every queue that a move has handed over is read. -/
structure Served (s : Pools τ) : Prop where
  bound : ∀ p o, s.object p = some o → ∀ w ∈ o.workers, w.pool = p
  read : ∀ p o, s.object p = some o → o.received = true → o.tasks ≠ [] →
    ∃ q owner, s.object q = some owner ∧ ∃ w ∈ owner.workers, w.pool = p ∧ w.worker ≠ .returned

/-- No pool that owns workers or has tasks queued is moved, onto itself apart, and nothing is
enqueued in a pool that was the target of a move. -/
def Harmless (s : Pools τ) : Action τ → Prop
  | .moveConstruct p other => ∀ o, s.object p = none → s.object other = some o →
      o.workers = [] ∧ o.tasks = []
  -- an assignment onto a pool that owns workers ends the program
  | .moveAssign p other => ∀ o o', s.object p = some o → s.object other = some o' → p ≠ other →
      o.workers = [] → o'.workers = [] ∧ o'.tasks = []
  | .enqueue p _ => ∀ o, s.object p = some o → o.received = false
  | _ => True

/-- A step of a program that has not ended is harmless. -/
def Careful (s : Pools τ) (a : Action τ) : Prop := s.terminated = false → s.Harmless a

/-- The targets of moves have neither workers nor tasks. -/
structure Settled (s : Pools τ) : Prop where
  bound : ∀ p o, s.object p = some o → ∀ w ∈ o.workers, w.pool = p
  empty : ∀ p o, s.object p = some o → o.received = true → o.workers = [] ∧ o.tasks = []

theorem Settled.served (h : Settled s) : Served s where
  bound := h.bound
  read p o ho hreceived htasks := absurd (h.empty p o ho hreceived).2 htasks

/-- The queue of a target without workers is empty. -/
theorem Served.tasks_eq (h : Served s) {o : PoolObject τ} (ho : s.object p = some o)
    (hreceived : o.received = true) (hworkers : o.workers = []) : o.tasks = [] := by
  by_contra htasks
  obtain ⟨q, owner, howner, w, hw, hpool, -⟩ := h.read p o ho hreceived htasks
  obtain rfl : p = q := hpool.symm.trans (h.bound q owner howner w hw)
  obtain rfl : o = owner := Option.some.inj (ho.symm.trans howner)
  rw [hworkers] at hw
  cases hw

/-! ## The steps -/

/-- What a step can do. -/
inductive Transition (s : Pools τ) : Action τ → Pools τ → Prop
  | construct (p : Address) (threadCount : Nat) : s.object p = none →
      Transition s (.construct p threadCount)
        (s.set p (some { workers := List.replicate threadCount { pool := p } }))
  | moveConstruct (p other : Address) (o : PoolObject τ) : s.object p = none →
      s.object other = some o → Transition s (.moveConstruct p other) (s.move p other o)
  | assignSelf (p : Address) (o : PoolObject τ) : s.object p = some o →
      Transition s (.moveAssign p p) s
  | moveAssign (p other : Address) (o o' : PoolObject τ) : p ≠ other → s.object p = some o →
      o.workers = [] → s.object other = some o' →
      Transition s (.moveAssign p other) (s.move p other o')
  | terminate (p other : Address) (o : PoolObject τ) : s.object p = some o → o.workers ≠ [] →
      Transition s (.moveAssign p other) s.terminate
  | enqueue (p : Address) (task : τ) (o : PoolObject τ) : s.object p = some o →
      Transition s (.enqueue p task) (s.set p (some
        { o with tasks := o.tasks ++ [{ call := o.calls, task }], calls := o.calls + 1 }))
  | lock (p : Address) (i : Nat) (pool : Address) (o : PoolObject τ) :
      s.worker? p i = some { pool, worker := .ready } → s.object pool = some o →
      Transition s (.lock p i) (s.workerSection p i { pool, worker := .ready } o)
  | wakeUp (p : Address) (i : Nat) (pool : Address) :
      s.worker? p i = some { pool, worker := .waiting } →
      Transition s (.wakeUp p i) (s.setWorker p i { pool, worker := .ready })
  | call (p : Address) (i : Nat) (pool : Address) (job : Job τ) :
      s.worker? p i = some { pool, worker := .holding job } →
      Transition s (.call p i) (s.setWorker p i { pool, worker := .executing job })
  | finish (p : Address) (i : Nat) (pool : Address) (job : Job τ) :
      s.worker? p i = some { pool, worker := .executing job } →
      Transition s (.finish p i) (s.setWorker p i { pool, worker := .ready })
  | destroy (p : Address) (o : PoolObject τ) : s.object p = some o → o.stop = false →
      Transition s (.destroy p) (s.set p (some { o with stop := true }))
  | join (p : Address) (o : PoolObject τ) : s.object p = some o → o.stop = true →
      (∀ w ∈ o.workers, w.worker = .returned) → Transition s (.join p) (s.set p none)

theorem returned_of_matches {w : Worker τ} (h : (w matches .returned) = true) : w = .returned := by
  cases w with
  | returned => rfl
  | ready | waiting | holding | executing => cases h

theorem transition_of_step {a : Action τ} (h : s.step a = some t) : Transition s a t := by
  cases a with
  | construct p threadCount =>
    simp only [step] at h
    split at h
    · cases h
      exact .construct p threadCount ‹_›
    · cases h
  | moveConstruct p other =>
    simp only [step] at h
    split at h
    · rename_i o hp ho
      cases h
      exact .moveConstruct p other o hp ho
    · cases h
  | moveAssign p other =>
    simp only [step] at h
    split at h
    · rename_i o o' hp ho
      split at h
      · rename_i heq
        cases h
        exact heq ▸ .assignSelf p o hp
      · rename_i hne
        split at h
        · rename_i hworkers
          cases h
          exact .moveAssign p other o o' hne hp hworkers ho
        · rename_i w ws hworkers
          cases h
          exact .terminate p other o hp (hworkers ▸ List.cons_ne_nil w ws)
    · cases h
  | enqueue p task =>
    simp only [step] at h
    split at h
    · rename_i o hp
      cases h
      exact .enqueue p task o hp
    · cases h
  | lock p i =>
    simp only [step] at h
    split at h
    · rename_i pool hw
      obtain ⟨o, ho, rfl⟩ := Option.map_eq_some_iff.1 h
      exact .lock p i pool o hw ho
    · cases h
  | wakeUp p i =>
    simp only [step] at h
    split at h
    · rename_i pool hw
      cases h
      exact .wakeUp p i pool hw
    · cases h
  | call p i =>
    simp only [step] at h
    split at h
    · rename_i pool job hw
      cases h
      exact .call p i pool job hw
    · cases h
  | finish p i =>
    simp only [step] at h
    split at h
    · rename_i pool job hw
      cases h
      exact .finish p i pool job hw
    · cases h
  | destroy p =>
    simp only [step] at h
    split at h
    · rename_i o hp
      split at h
      · cases h
      · rename_i hopen
        cases h
        exact .destroy p o hp (by simpa using hopen)
    · cases h
  | join p =>
    simp only [step] at h
    split at h
    · rename_i o hp
      split at h
      · rename_i hall
        cases h
        rw [Bool.and_eq_true, List.all_eq_true] at hall
        exact .join p o hp hall.1 fun w hw => returned_of_matches (hall.2 w hw)
      · cases h
    · cases h

/-! ## Objects -/

theorem object_set (o : Option (PoolObject τ)) :
    (s.set p o).object q = if q = p then o else s.object q :=
  Function.update_apply _ _ _ _

/-- The invariant, after a change to one object. -/
theorem Settled.set (h : Settled s) {o : Option (PoolObject τ)}
    (ho : ∀ o', o = some o' → (∀ w ∈ o'.workers, w.pool = p) ∧
      (o'.received = true → o'.workers = [] ∧ o'.tasks = [])) : Settled (s.set p o) := by
  refine ⟨fun q o' hq => ?_, fun q o' hq => ?_⟩
  · rw [object_set] at hq
    split at hq
    · rename_i hqp
      exact hqp ▸ (ho o' hq).1
    · exact h.bound q o' hq
  · rw [object_set] at hq
    split at hq
    · exact (ho o' hq).2
    · exact h.empty q o' hq

/-! ## Steps that add nothing -/

/-- Every object was there, with the bindings of its workers, and its queue is not filled. -/
def Shrinks (s t : Pools τ) : Prop :=
  ∀ p o', t.object p = some o' → ∃ o, s.object p = some o ∧ o'.received = o.received ∧
    (o.tasks = [] → o'.tasks = []) ∧ ∀ w' ∈ o'.workers, ∃ w ∈ o.workers, w'.pool = w.pool

theorem Shrinks.refl (s : Pools τ) : Shrinks s s :=
  fun _ o h => ⟨o, h, rfl, id, fun w hw => ⟨w, hw, rfl⟩⟩

theorem Shrinks.trans {u : Pools τ} (h : Shrinks s t) (h' : Shrinks t u) : Shrinks s u := by
  intro p o₂ h₂
  obtain ⟨o₁, h₁, hreceived', htasks', hworkers'⟩ := h' p o₂ h₂
  obtain ⟨o, ho, hreceived, htasks, hworkers⟩ := h p o₁ h₁
  refine ⟨o, ho, hreceived'.trans hreceived, fun he => htasks' (htasks he), fun w₂ hw₂ => ?_⟩
  obtain ⟨w₁, hw₁, hpool'⟩ := hworkers' w₂ hw₂
  obtain ⟨w, hw, hpool⟩ := hworkers w₁ hw₁
  exact ⟨w, hw, hpool'.trans hpool⟩

theorem Settled.shrinks (h : Settled s) (ht : Shrinks s t) : Settled t := by
  refine ⟨fun p o' ho' w' hw' => ?_, fun p o' ho' hreceived' => ?_⟩
  · obtain ⟨o, ho, -, -, hworkers⟩ := ht p o' ho'
    obtain ⟨w, hw, hpool⟩ := hworkers w' hw'
    exact hpool.trans (h.bound p o ho w hw)
  · obtain ⟨o, ho, hreceived, htasks, hworkers⟩ := ht p o' ho'
    obtain ⟨hnone, hempty⟩ := h.empty p o ho (hreceived.symm.trans hreceived')
    refine ⟨List.eq_nil_iff_forall_not_mem.2 fun w' hw' => ?_, htasks hempty⟩
    obtain ⟨w, hw, -⟩ := hworkers w' hw'
    rw [hnone] at hw
    cases hw

/-- One object changes, or goes. -/
theorem shrinks_set {o : PoolObject τ} (ho : s.object p = some o) {o' : Option (PoolObject τ)}
    (h : ∀ x, o' = some x → x.received = o.received ∧ (o.tasks = [] → x.tasks = []) ∧
      ∀ w' ∈ x.workers, ∃ w ∈ o.workers, w'.pool = w.pool) : Shrinks s (s.set p o') := by
  intro q x hx
  rw [object_set] at hx
  split at hx
  · rename_i hqp
    exact ⟨o, hqp ▸ ho, h x hx⟩
  · exact Shrinks.refl s q x hx

theorem worker?_eq_some {i : Nat} {w : Thread τ} (h : s.worker? p i = some w) :
    ∃ o, s.object p = some o ∧ w ∈ o.workers := by
  obtain ⟨o, ho, hw⟩ := Option.bind_eq_some_iff.1 h
  exact ⟨o, ho, List.mem_of_getElem? hw⟩

/-- A worker moves on in its loop. -/
theorem shrinks_setWorker {o : PoolObject τ} (ho : s.object p = some o) {w : Thread τ}
    (hw : w ∈ o.workers) (i : Nat) (at' : Worker τ) :
    Shrinks s (s.setWorker p i { w with worker := at' }) := by
  unfold setWorker
  rw [ho]
  refine shrinks_set ho fun x hx => ?_
  cases hx
  refine ⟨rfl, id, fun w' hw' => ?_⟩
  rcases List.mem_or_eq_of_mem_set hw' with hold | rfl
  · exact ⟨w', hold, rfl⟩
  · exact ⟨w, hw, rfl⟩

theorem shrinks_section {i : Nat} {w : Thread τ} (hw : s.worker? p i = some w) {o : PoolObject τ}
    (ho : s.object w.pool = some o) : Shrinks s (s.workerSection p i w o) := by
  obtain ⟨owner, howner, hmem⟩ := worker?_eq_some hw
  unfold workerSection
  split
  · split
    · exact shrinks_setWorker howner hmem i _
    · -- a job is taken out of the queue of the pool it is bound to
      rename_i job tasks htasks
      have htake : Shrinks s (s.set w.pool (some { o with tasks })) := by
        refine shrinks_set ho fun x hx => ?_
        cases hx
        exact ⟨rfl, fun hempty => absurd (htasks.symm.trans hempty) (List.cons_ne_nil _ _),
          fun w hw => ⟨w, hw, rfl⟩⟩
      have howner' : ∃ owner', (s.set w.pool (some { o with tasks })).object p = some owner' ∧
          w ∈ owner'.workers := by
        rw [object_set]
        split
        · rename_i hp
          refine ⟨_, rfl, ?_⟩
          rw [hp] at howner
          cases ho.symm.trans howner
          exact hmem
        · exact ⟨owner, howner, hmem⟩
      obtain ⟨owner', howner', hmem'⟩ := howner'
      exact htake.trans (shrinks_setWorker howner' hmem' i _)
  · exact shrinks_setWorker howner hmem i _

/-! ## Moves -/

/-- A move between two objects. -/
theorem move_exact (h : Settled s) {other : Address} {o : PoolObject τ}
    (ho : s.object other = some o) (hne : p ≠ other) :
    (Served (s.move p other o) ↔ o.workers = [] ∧ o.tasks = []) ∧
      (o.workers = [] ∧ o.tasks = [] → Settled (s.move p other o)) := by
  have hsettled : o.workers = [] ∧ o.tasks = [] → Settled (s.move p other o) := by
    intro hempty
    refine (h.set fun x hx => ?_).set fun x hx => ?_
    · cases hx
      simp
    · cases hx
      simp [hempty]
  refine ⟨⟨fun hserved => ?_, fun hempty => (hsettled hempty).served⟩, hsettled⟩
  have htarget : (s.move p other o).object p = some { o with received := true } := by
    rw [move, object_set, if_pos rfl]
  have hworkers : o.workers = [] := by
    -- the workers are bound to the source still
    refine List.eq_nil_iff_forall_not_mem.2 fun w hw => hne ?_
    exact (hserved.bound p _ htarget w hw).symm.trans (h.bound other o ho w hw)
  have htasks : { o with received := true }.tasks = [] := hserved.tasks_eq htarget rfl hworkers
  exact ⟨hworkers, htasks⟩

/-! ## The other operations -/

theorem construct_settled (h : Settled s) (p : Address) (threadCount : Nat) :
    Settled (s.set p (some { workers := List.replicate threadCount { pool := p } })) := by
  refine h.set fun x hx => ?_
  cases hx
  refine ⟨fun w hw => ?_, fun hreceived => (by cases hreceived)⟩
  rw [List.eq_of_mem_replicate hw]

theorem enqueue_exact (h : Settled s) {o : PoolObject τ} (hp : s.object p = some o) (job : Job τ)
    (calls : Nat) :
    let t := s.set p (some { o with tasks := o.tasks ++ [job], calls := calls })
    (Served t ↔ o.received = false) ∧ (o.received = false → Settled t) := by
  intro t
  have hsettled (hreceived : o.received = false) : Settled t := by
    refine h.set fun x hx => ?_
    cases hx
    refine ⟨h.bound p o hp, fun hx => ?_⟩
    rw [hreceived] at hx
    cases hx
  refine ⟨⟨fun hserved => ?_, fun hreceived => (hsettled hreceived).served⟩, hsettled⟩
  by_contra hreceived
  rw [Bool.not_eq_false] at hreceived
  -- a target of a move has no workers that could take the job
  have hobject : t.object p = some { o with tasks := o.tasks ++ [job], calls := calls } := by
    rw [object_set, if_pos rfl]
  have htasks : o.tasks ++ [job] = [] :=
    hserved.tasks_eq hobject hreceived (h.empty p o hp hreceived).1
  simp at htasks

/-- **Every step**: the workers stay with their queues exactly if it is harmless. -/
theorem step_exact (h : Settled s) {a : Action τ} (ht : Transition s a t) :
    (Served t ↔ Harmless s a) ∧ (Harmless s a → Settled t) := by
  have hshrinks (hs : Shrinks s t) (ha : Harmless s a) :
      (Served t ↔ Harmless s a) ∧ (Harmless s a → Settled t) :=
    ⟨iff_of_true (h.shrinks hs).served ha, fun _ => h.shrinks hs⟩
  cases ht with
  | construct p threadCount hp =>
    have hsettled := construct_settled h p threadCount
    exact ⟨iff_of_true hsettled.served trivial, fun _ => hsettled⟩
  | moveConstruct p other o hp ho =>
    have hne : p ≠ other := fun heq => (by rw [heq, ho] at hp; cases hp)
    have hharmless : Harmless s (.moveConstruct p other) ↔ o.workers = [] ∧ o.tasks = [] := by
      simp [Harmless, hp, ho]
    rw [hharmless]
    exact move_exact h ho hne
  | assignSelf p o hp => exact hshrinks (.refl s) fun _ _ _ _ hne => absurd rfl hne
  | moveAssign p other o o' hne hp hworkers ho =>
    have hharmless : Harmless s (.moveAssign p other) ↔ o'.workers = [] ∧ o'.tasks = [] := by
      simp [Harmless, hp, ho, hne, hworkers]
    rw [hharmless]
    exact move_exact h ho hne
  | terminate p other o hp hworkers =>
    refine hshrinks (fun _ _ hq => (by cases hq)) fun x _ hx _ _ hnone => ?_
    cases hp.symm.trans hx
    exact absurd hnone hworkers
  | enqueue p task o hp =>
    have hharmless : Harmless s (.enqueue p task) ↔ o.received = false := by
      simp [Harmless, hp]
    rw [hharmless]
    exact enqueue_exact h hp _ _
  | lock p i pool o hw ho => exact hshrinks (shrinks_section hw ho) trivial
  | wakeUp p i pool hw | call p i pool job hw | finish p i pool job hw =>
    obtain ⟨owner, howner, hmem⟩ := worker?_eq_some hw
    exact hshrinks (shrinks_setWorker howner hmem i _) trivial
  | destroy p o hp hopen =>
    refine hshrinks (shrinks_set hp fun x hx => ?_) trivial
    cases hx
    exact ⟨rfl, id, fun w hw => ⟨w, hw, rfl⟩⟩
  | join p o hp hstop hall => exact hshrinks (shrinks_set hp fun x hx => (by cases hx)) trivial

/-- Steps that cannot be taken are harmless. -/
theorem harmless_of_none {a : Action τ} (ha : s.step a = none) : Harmless s a := by
  cases a with
  | moveConstruct p other =>
    intro o hp ho
    simp [step, hp, ho] at ha
  | moveAssign p other =>
    intro o o' hp ho hne hworkers
    simp [step, hp, ho, hne, hworkers] at ha
  | enqueue p task =>
    intro o hp
    simp [step, hp] at ha
  | construct | lock | wakeUp | call | finish | destroy | join => trivial

theorem next_exact (h : Settled s) (a : Action τ) :
    (Served (s.next a) ↔ Careful s a) ∧ (Careful s a → Settled (s.next a)) := by
  unfold next Careful
  cases hended : s.terminated with
  | true => exact ⟨iff_of_true h.served (by simp), fun _ => h⟩
  | false =>
    simp only [Bool.false_eq_true, if_false, forall_const]
    cases hstep : s.step a with
    | none => exact ⟨iff_of_true h.served (harmless_of_none hstep), fun _ => h⟩
    | some t => exact step_exact h (transition_of_step hstep)

/-- **Every run**: the workers of the pools stay with their queues, and what moves hand over stays
in queues that are read, exactly if every step is careful. -/
theorem served_iff (actions : List (Action τ)) :
    Runs.Always next Served ({} : Pools τ) actions ↔ Runs.Meets next Careful {} actions := by
  have hinitial : Settled ({} : Pools τ) :=
    ⟨fun _ _ ho => (by cases ho), fun _ _ ho => (by cases ho)⟩
  exact Runs.always_iff_meets_kept (J := Settled) (fun s a hs _ hc => (next_exact hs a).2 hc)
    (fun s a hs _ => (next_exact hs a).1) hinitial hinitial.served

/-- A pool is moved: the worker is owned by the pool at 1 and bound to the one at 0. -/
theorem moved_unserved :
    ¬ Runs.Always next Served ({} : Pools Nat) [.construct 0 1, .moveConstruct 1 0] := by
  intro h
  let target : PoolObject Nat := { workers := [{ pool := 0 }], received := true }
  have hworker : ({ pool := 0 } : Thread Nat).pool = 1 :=
    h.last.bound 1 target rfl _ (List.mem_singleton_self _)
  cases hworker

end Pools

end HttpsTest
