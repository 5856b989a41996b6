import Mathlib.Algebra.Order.BigOperators.Group.Finset
import HttpsTest.Server.Notifications
import HttpsTest.Server.Proof.ThreadPool

/-!
# No wake-up is lost

While `stop` is not set, a queue with jobs has a notification on its way or a worker that does not
wait (`Invariant.attended`); behind `notify_all` nobody waits. So where no thread of the pool can go
on, every job has been executed, and a destructor has joined its workers (`executed_of_idle`). A
run is bounded by the calls of `enqueue`, the wake-ups without a notification and the destructor
(`work`), hence the destructor returns (`destructor_returns`).
-/

set_option autoImplicit false

namespace HttpsTest

namespace NotifiedPool

variable {τ : Type} {threadCount : Nat} {s t : NotifiedPool τ threadCount}

/-! ## The steps -/

/-- What a step can do. -/
inductive Transition (s : NotifiedPool τ threadCount) :
    Action τ threadCount → NotifiedPool τ threadCount → Prop
  | enqueue (task : τ) : s.pool.stop = false → Transition s (.enqueue task)
      { s with
        pool := { s.pool with
          tasks := s.pool.tasks ++ [{ call := s.pool.enqueued.length, task }]
          enqueued := s.pool.enqueued ++ [{ call := s.pool.enqueued.length, task }] }
        notifyOnes := s.notifyOnes + 1 }
  | notifyOne (i : Fin threadCount) : 0 < s.notifyOnes → s.pool.workers i = .waiting →
      Transition s (.notifyOne (some i))
        { s with pool := s.pool.setWorker i .ready, notifyOnes := s.notifyOnes - 1 }
  | notifyNone : 0 < s.notifyOnes → (∀ i, s.pool.workers i ≠ .waiting) →
      Transition s (.notifyOne none) { s with notifyOnes := s.notifyOnes - 1 }
  | wait (i : Fin threadCount) : s.pool.workers i = .ready → s.pool.stop = false →
      s.pool.tasks = [] → Transition s (.lock i) { s with pool := s.pool.setWorker i .waiting }
  | leave (i : Fin threadCount) : s.pool.workers i = .ready → s.pool.stop = true →
      s.pool.tasks = [] → Transition s (.lock i) { s with pool := s.pool.setWorker i .returned }
  | take (i : Fin threadCount) (job : Job τ) (tasks : List (Job τ)) :
      s.pool.workers i = .ready → s.pool.tasks = job :: tasks → Transition s (.lock i)
        { s with
          pool := { s.pool with tasks, taken := s.pool.taken ++ [job] }.setWorker i (.holding job) }
  | wakeUp (i : Fin threadCount) : s.pool.workers i = .waiting →
      Transition s (.wakeUp i) { s with pool := s.pool.setWorker i .ready }
  | call (i : Fin threadCount) (job : Job τ) : s.pool.workers i = .holding job →
      Transition s (.call i)
        { s with
          pool := { s.pool with begun := s.pool.begun ++ [job] }.setWorker i (.executing job) }
  | finish (i : Fin threadCount) (job : Job τ) : s.pool.workers i = .executing job →
      Transition s (.finish i)
        { s with pool := { s.pool with finished := s.pool.finished ++ [job] }.setWorker i .ready }
  | destroy : s.notifyOnes = 0 → s.pool.stop = false →
      Transition s .destroy { s with pool := { s.pool with stop := true }, notifyAll := true }
  | notifyAll : s.notifyAll = true →
      Transition s .notifyAll { s with pool := wakeAll s.pool, notifyAll := false }
  | join (h : s.joined < threadCount) : s.pool.stop = true → s.notifyAll = false →
      s.pool.workers ⟨s.joined, h⟩ = .returned →
      Transition s .join { s with joined := s.joined + 1 }

theorem transition_of_wakeUp {i : Fin threadCount} {pool : ThreadPool τ threadCount}
    (h : s.pool.step (.wakeUp i) = some pool) :
    s.pool.workers i = .waiting ∧ pool = s.pool.setWorker i .ready := by
  simp only [ThreadPool.step] at h
  split at h
  · rename_i hw
    cases h
    exact ⟨hw, rfl⟩
  · cases h

theorem transition_of_lock {i : Fin threadCount} (hw : s.pool.workers i = .ready) :
    Transition s (.lock i) { s with pool := s.pool.workerSection i } := by
  unfold ThreadPool.workerSection
  by_cases hgo : s.pool.stop ∨ s.pool.tasks ≠ []
  · rw [if_pos hgo]
    split
    · rename_i hempty
      exact .leave i hw (hgo.resolve_right (not_not_intro hempty)) hempty
    · rename_i job tasks htasks
      exact .take i job tasks hw htasks
  · rw [if_neg hgo]
    rw [not_or, Bool.not_eq_true, not_not] at hgo
    exact .wait i hw hgo.1 hgo.2

theorem transition_of_step {a : Action τ threadCount} (h : s.Steps a t) : Transition s a t := by
  cases a with
  | enqueue task =>
    obtain ⟨pool, hpool, rfl⟩ := Option.map_eq_some_iff.1 h
    simp only [ThreadPool.step] at hpool
    split at hpool
    · cases hpool
    · rename_i hstop
      cases hpool
      exact .enqueue task (by simpa using hstop)
  | notifyOne i =>
    cases i with
    | none =>
      simp only [Steps, step] at h
      split at h
      · rename_i hall
        cases h
        refine .notifyNone (Nat.pos_of_ne_zero hall.1) fun i hi => hall.2 i ?_
        rw [hi]
      · cases h
    | some i =>
      simp only [Steps, step] at h
      split at h
      · cases h
      · rename_i hpos
        obtain ⟨pool, hpool, rfl⟩ := Option.map_eq_some_iff.1 h
        obtain ⟨hw, rfl⟩ := transition_of_wakeUp hpool
        exact .notifyOne i (Nat.pos_of_ne_zero hpos) hw
  | lock i =>
    obtain ⟨pool, hpool, rfl⟩ := Option.map_eq_some_iff.1 h
    simp only [ThreadPool.step] at hpool
    split at hpool
    · rename_i hw
      cases hpool
      exact transition_of_lock hw
    · cases hpool
  | wakeUp i =>
    obtain ⟨pool, hpool, rfl⟩ := Option.map_eq_some_iff.1 h
    obtain ⟨hw, rfl⟩ := transition_of_wakeUp hpool
    exact .wakeUp i hw
  | call i =>
    obtain ⟨pool, hpool, rfl⟩ := Option.map_eq_some_iff.1 h
    simp only [ThreadPool.step] at hpool
    split at hpool
    · rename_i job hw
      cases hpool
      exact .call i job hw
    · cases hpool
  | finish i =>
    obtain ⟨pool, hpool, rfl⟩ := Option.map_eq_some_iff.1 h
    simp only [ThreadPool.step] at hpool
    split at hpool
    · rename_i job hw
      cases hpool
      exact .finish i job hw
    · cases hpool
  | destroy =>
    simp only [Steps, step] at h
    split at h
    · rename_i hzero
      obtain ⟨pool, hpool, rfl⟩ := Option.map_eq_some_iff.1 h
      simp only [ThreadPool.step] at hpool
      split at hpool
      · cases hpool
      · rename_i hstop
        cases hpool
        exact .destroy hzero (by simpa using hstop)
    · cases h
  | notifyAll =>
    simp only [Steps, step] at h
    split at h
    · rename_i hflag
      cases h
      exact .notifyAll hflag
    · cases h
  | join =>
    simp only [Steps, step] at h
    split at h
    · rename_i hjoin
      split at h
      · rename_i hw
        cases h
        exact .join hjoin.2.2 hjoin.1 (by simpa using hjoin.2.1) hw
      · cases h
    · cases h

/-! ## The pool without its notifications -/

theorem wake_eq_self {w : Worker τ} (h : w ≠ .waiting) : wake w = w := by
  cases w with
  | waiting => exact absurd rfl h
  | ready | holding | executing | returned => rfl

theorem wake_ne_waiting (w : Worker τ) : wake w ≠ .waiting := by
  cases w <;> simp [wake]

/-- Some of the workers wake up, one after the other. -/
theorem wakeUps_path (pool : ThreadPool τ threadCount) (ks : List (Fin threadCount)) :
    ∃ run, Runs.Path ThreadPool.Steps pool run { pool with
      workers := fun i => if i ∈ ks then wake (pool.workers i) else pool.workers i } := by
  induction ks with
  | nil => exact ⟨[], by simpa using Runs.Path.nil pool⟩
  | cons k ks ih =>
    obtain ⟨run, hrun⟩ := ih
    by_cases hk : k ∉ ks ∧ pool.workers k = .waiting
    · refine ⟨run ++ [.wakeUp k], hrun.append (.cons ?_ (.nil _))⟩
      simp only [ThreadPool.Steps, ThreadPool.step, if_neg hk.1, hk.2, ThreadPool.setWorker,
        Option.some.injEq]
      congr 1
      funext i
      by_cases hi : i = k
      · rw [hi, Function.update_self, if_pos List.mem_cons_self, hk.2]
        rfl
      · rw [Function.update_of_ne hi]
        simp only [List.mem_cons, hi, false_or]
    · refine ⟨run, ?_⟩
      have hworkers : (fun i => if i ∈ k :: ks then wake (pool.workers i) else pool.workers i) =
          fun i => if i ∈ ks then wake (pool.workers i) else pool.workers i := by
        funext i
        by_cases hi : i = k
        · subst hi
          rw [if_pos List.mem_cons_self]
          split
          · rfl
          · rename_i hnot
            exact wake_eq_self fun hw => hk ⟨hnot, hw⟩
        · simp only [List.mem_cons, hi, false_or]
      rwa [hworkers]

theorem wakeAll_path (pool : ThreadPool τ threadCount) :
    ∃ run, Runs.Path ThreadPool.Steps pool run (wakeAll pool) := by
  obtain ⟨run, hrun⟩ := wakeUps_path pool (List.finRange threadCount)
  simp only [List.mem_finRange, if_true] at hrun
  exact ⟨run, hrun⟩

theorem pool_path {a : Action τ threadCount} (h : s.Steps a t) :
    ∃ run, Runs.Path ThreadPool.Steps s.pool run t.pool := by
  have hone {b : ThreadPool.Action τ threadCount} (hb : s.pool.step b = some t.pool) :
      ∃ run, Runs.Path ThreadPool.Steps s.pool run t.pool := ⟨[b], .cons hb (.nil _)⟩
  cases transition_of_step h with
  | enqueue task hstop => exact hone (b := .enqueue task) (by simp [ThreadPool.step, hstop])
  | notifyOne i hpos hw | wakeUp i hw =>
    exact hone (b := .wakeUp i) (by simp [ThreadPool.step, hw])
  | notifyNone hpos hall => exact ⟨[], .nil _⟩
  | wait i hw hstop htasks =>
    exact hone (b := .lock i) (by simp [ThreadPool.step, ThreadPool.workerSection, *])
  | leave i hw hstop htasks =>
    exact hone (b := .lock i) (by simp [ThreadPool.step, ThreadPool.workerSection, *])
  | take i job tasks hw htasks =>
    exact hone (b := .lock i) (by simp [ThreadPool.step, ThreadPool.workerSection, *])
  | call i job hw => exact hone (b := .call i) (by simp [ThreadPool.step, hw])
  | finish i job hw => exact hone (b := .finish i) (by simp [ThreadPool.step, hw])
  | destroy hzero hstop => exact hone (b := .destroy) (by simp [ThreadPool.step, hstop])
  | notifyAll hflag => exact wakeAll_path s.pool
  | join hlt hstop hflag hw => exact ⟨[], .nil _⟩

/-- **Without its notifications** a run is one of `ThreadPool`. -/
theorem refines {run : List (Action τ threadCount)} (h : Runs.Path Steps s run t) :
    ∃ run', Runs.Path ThreadPool.Steps s.pool run' t.pool :=
  h.simulate (f := NotifiedPool.pool) fun _ _ _ hstep => pool_path hstep

/-- `stop` stays set. -/
theorem stop_of_step {a : Action τ threadCount} (h : s.Steps a t) (hs : s.pool.stop = true) :
    t.pool.stop = true := by
  cases transition_of_step h with
  | destroy => rfl
  | _ => exact hs

/-! ## The invariant -/

/-- What holds between the queue, the notifications and the workers. -/
structure Invariant (s : NotifiedPool τ threadCount) : Prop where
  pool : s.pool.Invariant
  attended : s.pool.stop = false → s.pool.tasks ≠ [] →
    0 < s.notifyOnes ∨ ∃ i, s.pool.workers i ≠ .waiting
  stopping : s.notifyAll = true → s.pool.stop = true
  awake : s.pool.stop = true → s.notifyAll = false → ∀ i, s.pool.workers i ≠ .waiting
  answered : s.pool.stop = true → s.notifyOnes = 0
  joined_le : s.joined ≤ threadCount
  joined : ∀ i : Fin threadCount, (i : Nat) < s.joined → s.pool.workers i = .returned

theorem invariant_initial : Invariant ({} : NotifiedPool τ threadCount) where
  pool := ThreadPool.invariant_initial
  attended _ htasks := absurd rfl htasks
  stopping h := (by cases h)
  awake h := (by cases h)
  answered _ := rfl
  joined_le := Nat.zero_le _
  joined _ hi := absurd hi (Nat.not_lt_zero _)

theorem setWorker_apply (pool : ThreadPool τ threadCount) (i k : Fin threadCount)
    (w : Worker τ) : (pool.setWorker i w).workers k = if k = i then w else pool.workers k :=
  Function.update_apply _ _ _ _

/-- A worker moves on in its loop, to a place where it does not wait. -/
theorem Invariant.move (h : s.Invariant) {i : Fin threadCount} {w : Worker τ}
    (hi : s.pool.workers i ≠ .returned) (hw : w ≠ .waiting) {pool : ThreadPool τ threadCount}
    (hpool : pool.Invariant) (hstop : pool.stop = s.pool.stop)
    (hworkers : pool.workers = (s.pool.setWorker i w).workers) : Invariant { s with pool } where
  pool := hpool
  attended _ _ := .inr ⟨i, by rw [hworkers, setWorker_apply, if_pos rfl]; exact hw⟩
  stopping hflag := hstop.trans (h.stopping hflag)
  awake hs hflag k := by
    rw [hworkers, setWorker_apply]
    split
    · exact hw
    · exact h.awake (hstop ▸ hs) hflag k
  answered hs := h.answered (hstop ▸ hs)
  joined_le := h.joined_le
  joined k hk := by
    rw [hworkers, setWorker_apply]
    split
    · rename_i hki
      exact absurd (h.joined i (hki ▸ hk)) hi
    · exact h.joined k hk

/-- **Every step keeps the invariant.** -/
theorem Invariant.step (hcount : 0 < threadCount) (h : s.Invariant) {a : Action τ threadCount}
    (hs : s.Steps a t) : t.Invariant := by
  have hpool : t.pool.Invariant := by
    obtain ⟨run, hrun⟩ := pool_path hs
    exact ThreadPool.invariant_of_run hrun h.pool
  cases transition_of_step hs with
  | enqueue task hstop =>
    refine { h with
      pool := hpool
      attended := fun _ _ => .inl (Nat.succ_pos _)
      answered := fun hs => ?_ }
    rw [hstop] at hs
    cases hs
  | notifyOne i hpos hw =>
    have hmove := h.move (i := i) (w := .ready) (by simp [hw]) (by simp) hpool rfl rfl
    refine { hmove with
      attended := fun _ _ => .inr ⟨i, ?_⟩
      answered := fun hs => ?_ }
    · rw [setWorker_apply, if_pos rfl]
      simp
    · rw [h.answered hs]
  | notifyNone hpos hall =>
    refine { h with
      attended := fun _ _ => .inr ⟨⟨0, hcount⟩, hall _⟩
      answered := fun hs => ?_ }
    rw [h.answered hs]
  | wait i hw hstop htasks =>
    refine { h with
      pool := hpool
      attended := fun _ hne => absurd htasks hne
      awake := fun hs _ => ?_
      joined := fun k hk => ?_ }
    · rw [show (s.pool.setWorker i .waiting).stop = s.pool.stop from rfl, hstop] at hs
      cases hs
    · rw [setWorker_apply]
      split
      · rename_i hki
        have hreturned := h.joined i (hki ▸ hk)
        rw [hw] at hreturned
        cases hreturned
      · exact h.joined k hk
  | leave i hw hstop htasks => exact h.move (by simp [hw]) (by simp) hpool rfl rfl
  | take i job tasks hw htasks => exact h.move (by simp [hw]) (by simp) hpool rfl rfl
  | wakeUp i hw => exact h.move (by simp [hw]) (by simp) hpool rfl rfl
  | call i job hw => exact h.move (by simp [hw]) (by simp) hpool rfl rfl
  | finish i job hw => exact h.move (by simp [hw]) (by simp) hpool rfl rfl
  | destroy hzero hstop =>
    exact { h with
      pool := hpool
      attended := fun hs _ => (by cases hs)
      stopping := fun _ => rfl
      awake := fun _ hflag => (by cases hflag)
      answered := fun _ => hzero }
  | notifyAll hflag =>
    refine { h with
      pool := hpool
      attended := fun hs _ => ?_
      stopping := fun hs => (by cases hs)
      awake := fun _ _ i => ?_
      joined := fun i hi => ?_ }
    · exact absurd (hs.symm.trans (h.stopping hflag)) (by decide)
    · exact wake_ne_waiting _
    · have hreturned := h.joined i hi
      simp only [wakeAll, hreturned, wake]
  | join hlt hstop hflag hw =>
    refine { h with joined_le := hlt, joined := fun i hi => ?_ }
    rcases Nat.lt_succ_iff_lt_or_eq.1 hi with hi | hi
    · exact h.joined i hi
    · rwa [show i = ⟨s.joined, hlt⟩ from Fin.ext hi]

theorem invariant_of_run (hcount : 0 < threadCount) {run : List (Action τ threadCount)}
    (h : Runs.Path Steps {} run s) : s.Invariant :=
  h.keeps (fun _ _ _ hs hstep => hs.step hcount hstep) invariant_initial

/-! ## Where nobody can go on -/

/-- The workers wait or have returned, and no notification is on its way. -/
theorem Idle.workers (h : s.Idle) : s.notifyOnes = 0 ∧ s.notifyAll = false ∧
    ∀ i, s.pool.workers i = .waiting ∨ s.pool.workers i = .returned := by
  refine ⟨?_, ?_, fun i => ?_⟩
  · by_contra hpos
    by_cases hsome : ∃ i, s.pool.workers i = .waiting
    · obtain ⟨i, hw⟩ := hsome
      have hnone := h (.notifyOne (some i)) trivial
      simp only [step, if_neg hpos, ThreadPool.step, hw] at hnone
      cases hnone
    · have hnone := h (.notifyOne none) trivial
      rw [step, if_pos ⟨hpos, fun i hi => hsome ⟨i, by
        revert hi
        cases s.pool.workers i <;> simp⟩⟩] at hnone
      cases hnone
  · have hnone := h .notifyAll trivial
    simp only [step] at hnone
    split at hnone
    · cases hnone
    · simpa using ‹¬ s.notifyAll = true›
  · have hlock := h (.lock i) trivial
    have hcall := h (.call i) trivial
    have hfinish := h (.finish i) trivial
    simp only [step, ThreadPool.step] at hlock hcall hfinish
    cases hw : s.pool.workers i with
    | waiting => exact .inl rfl
    | returned => exact .inr rfl
    | ready =>
      rw [hw] at hlock
      cases hlock
    | holding job =>
      rw [hw] at hcall
      cases hcall
    | executing job =>
      rw [hw] at hfinish
      cases hfinish

theorem idle_of_workers (hnotifyOnes : s.notifyOnes = 0) (hnotifyAll : s.notifyAll = false)
    (hall : ∀ i, s.pool.workers i = .waiting ∨ s.pool.workers i = .returned)
    (hjoined : s.pool.stop = true → s.joined = threadCount) : s.Idle := by
  intro a ha
  cases a with
  | enqueue | wakeUp | destroy => cases ha
  | notifyOne i => cases i <;> simp [step, hnotifyOnes]
  | lock i | call i | finish i =>
    rcases hall i with hi | hi <;> simp [step, ThreadPool.step, hi]
  | notifyAll => simp [step, hnotifyAll]
  | join =>
    rw [step, dif_neg]
    rintro ⟨hstop, -, hlt⟩
    exact absurd (hjoined hstop) (Nat.ne_of_lt hlt)

/-- All jobs are done, where the queue is empty and no worker has one. -/
theorem executed_of_empty (h : s.pool.Invariant) (htasks : s.pool.tasks = [])
    (hall : ∀ i, s.pool.workers i = .waiting ∨ s.pool.workers i = .returned) :
    s.pool.finished.Nodup ∧ s.pool.finished.Perm s.pool.enqueued := by
  have hheld : s.pool.held = 0 := Finset.sum_eq_zero fun i _ => by
    rcases hall i with hi | hi <;> simp [hi]
  have hrunning : s.pool.running = 0 := Finset.sum_eq_zero fun i _ => by
    rcases hall i with hi | hi <;> simp [hi]
  have hperm : s.pool.finished.Perm s.pool.enqueued := Multiset.coe_eq_coe.1 <|
    calc (s.pool.finished : Multiset (Job τ))
        = s.pool.begun := by rw [← h.running, hrunning, add_zero]
      _ = s.pool.taken := by rw [← h.held, hheld, add_zero]
      _ = s.pool.enqueued := by rw [← h.order, htasks, List.append_nil]
  exact ⟨hperm.nodup_iff.2 h.nodup_enqueued, hperm⟩

theorem Invariant.idle (hcount : 0 < threadCount) (h : s.Invariant) (hidle : s.Idle) :
    s.pool.tasks = [] ∧ s.pool.finished.Nodup ∧ s.pool.finished.Perm s.pool.enqueued ∧
      (s.pool.stop = true → s.joined = threadCount) := by
  obtain ⟨hnotifyOnes, hnotifyAll, hall⟩ := hidle.workers
  have hreturned (hstop : s.pool.stop = true) (i : Fin threadCount) :
      s.pool.workers i = .returned :=
    (hall i).resolve_left (h.awake hstop hnotifyAll i)
  have htasks : s.pool.tasks = [] := by
    cases hstop : s.pool.stop with
    | true => exact (h.pool.drained_all hcount (hreturned hstop)).1
    | false =>
      -- a waiting pool has nothing queued
      by_contra hne
      rcases h.attended hstop hne with hpos | ⟨i, hi⟩
      · omega
      · have hdrained := h.pool.drained i ((hall i).resolve_left hi)
        exact absurd (hstop.symm.trans hdrained.1) (by decide)
  obtain ⟨hnodup, hperm⟩ := executed_of_empty h.pool htasks hall
  refine ⟨htasks, hnodup, hperm, fun hstop => ?_⟩
  by_contra hne
  have hlt : s.joined < threadCount := lt_of_le_of_ne h.joined_le hne
  have hnone := hidle .join trivial
  have hjoin : s.pool.stop = true ∧ ¬ s.notifyAll = true ∧ s.joined < threadCount :=
    ⟨hstop, by simp [hnotifyAll], hlt⟩
  simp only [NotifiedPool.step, dif_pos hjoin, hreturned hstop] at hnone
  cases hnone

/-- **No wake-up is lost**: where no thread can go on without a wake-up from nowhere, the queue is
empty and each job has been executed once; if the destructor runs, it has joined every worker. -/
theorem executed_of_idle (hcount : 0 < threadCount) {run : List (Action τ threadCount)}
    (h : Runs.Path Steps {} run s) (hidle : s.Idle) :
    s.pool.tasks = [] ∧ s.pool.finished.Nodup ∧ s.pool.finished.Perm s.pool.enqueued ∧
      (s.pool.stop = true → s.joined = threadCount) :=
  (invariant_of_run hcount h).idle hcount hidle

/-! ## How long a run can be -/

/-- The steps a worker has before it in this round of its loop. When `stop` is set, a worker that
waits tests the condition once more. -/
def workOf (stop : Bool) : Worker τ → Nat
  | .ready => 1
  | .executing _ => 2
  | .holding _ => 3
  | .waiting => if stop then 2 else 0
  | .returned => 0

/-- A bound for the steps that are due. -/
def work (s : NotifiedPool τ threadCount) : Nat :=
  ∑ i, workOf s.pool.stop (s.pool.workers i) + 3 * s.pool.tasks.length + 2 * s.notifyOnes +
    (if s.notifyAll then 1 else 0) + (threadCount - s.joined)

/-- The steps an action can cause, itself counted. -/
def cost (stop : Bool) : Action τ threadCount → Nat
  | .enqueue _ => 6
  | .wakeUp _ => if stop then 0 else 2
  | .destroy => 2 * threadCount + 2
  | .notifyOne _ | .lock _ | .call _ | .finish _ | .notifyAll | .join => 0

/-- A worker moves on. -/
theorem workOf_update (stop : Bool) (workers : Fin threadCount → Worker τ) (i : Fin threadCount)
    (w : Worker τ) {a b : Nat} (ha : workOf stop (workers i) = a) (hb : workOf stop w = b) :
    ∑ k, workOf stop (Function.update workers i w k) + a = ∑ k, workOf stop (workers k) + b :=
  ha ▸ hb ▸ ThreadPool.sum_update (workOf stop) workers i w

theorem workOf_stop (workers : Fin threadCount → Worker τ) :
    ∑ i, workOf true (workers i) ≤ ∑ i, workOf false (workers i) + 2 * threadCount := by
  have hone (i : Fin threadCount) : workOf true (workers i) ≤ workOf false (workers i) + 2 := by
    cases workers i <;> simp [workOf]
  refine (Finset.sum_le_sum fun i _ => hone i).trans ?_
  simp [Finset.sum_add_distrib, Nat.mul_comm]

theorem workOf_wake (workers : Fin threadCount → Worker τ) :
    ∑ i, workOf true (wake (workers i)) ≤ ∑ i, workOf true (workers i) := by
  refine Finset.sum_le_sum fun i _ => ?_
  cases workers i <;> simp [wake, workOf]

theorem work_step (h : s.Invariant) {a : Action τ threadCount} (hs : s.Steps a t) :
    t.work + 1 ≤ s.work + cost s.pool.stop a := by
  have hmove {i : Fin threadCount} {v : Worker τ} (hv : s.pool.workers i = v) (w : Worker τ)
      {m n : Nat} (hm : workOf s.pool.stop v = m) (hn : workOf s.pool.stop w = n) :=
    workOf_update s.pool.stop s.pool.workers i w ((congrArg _ hv).trans hm) hn
  unfold work
  cases transition_of_step hs with
  | enqueue task hstop =>
    simp only [List.length_append, List.length_singleton, cost]
    omega
  | notifyOne i hpos hw =>
    have hstop : s.pool.stop = false := by
      by_contra hstop
      rw [h.answered (by simpa using hstop)] at hpos
      cases hpos
    have hsum := hmove hw .ready (m := 0) (n := 1) (by rw [hstop]; rfl) rfl
    simp only [ThreadPool.workers_setWorker, ThreadPool.stop_setWorker, ThreadPool.tasks_setWorker,
      cost]
    omega
  | notifyNone hpos hall =>
    simp only [cost]
    omega
  | wait i hw hstop htasks =>
    have hsum := hmove hw .waiting (m := 1) (n := 0) rfl (by rw [hstop]; rfl)
    simp only [ThreadPool.workers_setWorker, ThreadPool.stop_setWorker, ThreadPool.tasks_setWorker,
      cost]
    omega
  | leave i hw hstop htasks =>
    have hsum := hmove hw .returned (m := 1) (n := 0) rfl rfl
    simp only [ThreadPool.workers_setWorker, ThreadPool.stop_setWorker, ThreadPool.tasks_setWorker,
      cost]
    omega
  | take i job tasks hw htasks =>
    have hsum := hmove hw (.holding job) (m := 1) (n := 3) rfl rfl
    simp only [ThreadPool.workers_setWorker, ThreadPool.stop_setWorker, ThreadPool.tasks_setWorker,
      htasks, List.length_cons, cost]
    omega
  | wakeUp i hw =>
    simp only [ThreadPool.workers_setWorker, ThreadPool.stop_setWorker, ThreadPool.tasks_setWorker,
      cost]
    cases hstop : s.pool.stop with
    | true =>
      have hsum := hmove hw .ready (m := 2) (n := 1) (by rw [hstop]; rfl) rfl
      rw [hstop] at hsum
      simp only [if_true]
      omega
    | false =>
      have hsum := hmove hw .ready (m := 0) (n := 1) (by rw [hstop]; rfl) rfl
      rw [hstop] at hsum
      simp only [Bool.false_eq_true, if_false]
      omega
  | call i job hw =>
    have hsum := hmove hw (.executing job) (m := 3) (n := 2) rfl rfl
    simp only [ThreadPool.workers_setWorker, ThreadPool.stop_setWorker, ThreadPool.tasks_setWorker,
      cost]
    omega
  | finish i job hw =>
    have hsum := hmove hw .ready (m := 2) (n := 1) rfl rfl
    simp only [ThreadPool.workers_setWorker, ThreadPool.stop_setWorker, ThreadPool.tasks_setWorker,
      cost]
    omega
  | destroy hzero hstop =>
    have hsum := workOf_stop s.pool.workers
    simp only [hstop, cost, if_true]
    omega
  | notifyAll hflag =>
    have hsum := workOf_wake s.pool.workers
    simp only [hflag, wakeAll, h.stopping hflag, cost, Bool.false_eq_true, if_true, if_false]
    omega
  | join hlt hstop hflag hw =>
    simp only [cost]
    omega

/-- When `stop` is set, every step takes one off. -/
theorem work_step_of_stop (h : s.Invariant) (hstop : s.pool.stop = true)
    {a : Action τ threadCount} (hs : s.Steps a t) : t.work + 1 ≤ s.work := by
  have hstep := work_step h hs
  have hfree : cost s.pool.stop a = 0 := by
    cases transition_of_step hs with
    | enqueue task hopen => exact absurd (hstop.symm.trans hopen) (by decide)
    | destroy hzero hopen => exact absurd (hstop.symm.trans hopen) (by decide)
    | wakeUp i hw => rw [cost, if_pos hstop]
    | _ => rfl
  rwa [hfree, Nat.add_zero] at hstep

/-- **The destructor returns**: once it has set `stop`, no run of the pool is longer than `work`
says, wake-ups without a notification included; and wherever its threads cannot go on, the
destructor has joined every worker, and each job has been executed once. -/
theorem destructor_returns (hcount : 0 < threadCount) {run : List (Action τ threadCount)}
    (h : Runs.Path Steps {} run s) (hstop : s.pool.stop = true)
    {rest : List (Action τ threadCount)} (hrest : Runs.Path Steps s rest t) :
    rest.length ≤ s.work ∧ (t.Idle → t.joined = threadCount ∧ t.pool.tasks = [] ∧
      t.pool.finished.Nodup ∧ t.pool.finished.Perm t.pool.enqueued) := by
  let Stopping (s : NotifiedPool τ threadCount) : Prop := s.Invariant ∧ s.pool.stop = true
  have hstopping (s : NotifiedPool τ threadCount) (a : Action τ threadCount)
      (t : NotifiedPool τ threadCount) (hs : Stopping s) (hstep : s.Steps a t) : Stopping t :=
    ⟨hs.1.step hcount hstep, stop_of_step hstep hs.2⟩
  have hs : Stopping s := ⟨invariant_of_run hcount h, hstop⟩
  have hbound := hrest.length_le_measure (J := Stopping) hstopping
    (fun _ _ _ hs hstep => work_step_of_stop hs.1 hs.2 hstep) hs
  obtain ⟨hinv, hstop'⟩ := hrest.keeps hstopping hs
  refine ⟨?_, fun hidle => ?_⟩
  · omega
  · obtain ⟨htasks, hnodup, hperm, hjoined⟩ := hinv.idle hcount hidle
    exact ⟨hjoined hstop', htasks, hnodup, hperm⟩

/-- A worker that waits is notified of a job. -/
def oneJob : List (Action Nat 1) :=
  [.lock 0, .enqueue 7, .notifyOne (some 0), .lock 0, .call 0, .finish 0, .lock 0]

theorem oneJob_executed : ∃ s : NotifiedPool Nat 1, Runs.Path Steps {} oneJob s ∧ s.Idle ∧
    s.pool.enqueued = [⟨0, 7⟩] ∧ s.pool.finished.Perm s.pool.enqueued := by
  obtain ⟨s, hs, hend⟩ := Option.map_eq_some_iff.1 (show (oneJob.foldlM step {}).map
    (fun s => decide (s.notifyOnes = 0 ∧ s.notifyAll = false ∧ s.pool.stop = false ∧
      (∀ i, s.pool.workers i = .waiting) ∧ s.pool.enqueued = [⟨0, 7⟩])) = some true by decide)
  obtain ⟨hnotifyOnes, hnotifyAll, hstop, hall, henqueued⟩ := of_decide_eq_true hend
  have hpath : Runs.Path Steps {} oneJob s := Runs.path_iff_foldlM.2 hs
  have hidle : s.Idle := idle_of_workers hnotifyOnes hnotifyAll (fun i => .inl (hall i))
    fun h => absurd (hstop.symm.trans h) (by decide)
  exact ⟨s, hpath, hidle, henqueued, (executed_of_idle (by decide) hpath hidle).2.2.1⟩

/-- The destructor of a pool with a queued job, up to its section and behind it. -/
def queuedJob : List (Action Nat 1) := [.lock 0, .enqueue 7, .notifyOne (some 0), .destroy]

def lastJob : List (Action Nat 1) := [.notifyAll, .lock 0, .call 0, .finish 0, .lock 0, .join]

theorem queuedJob_destroyed : ∃ s t : NotifiedPool Nat 1, Runs.Path Steps {} queuedJob s ∧
    Runs.Path Steps s lastJob t ∧ lastJob.length ≤ s.work ∧ t.joined = 1 ∧
      t.pool.enqueued = [⟨0, 7⟩] ∧ t.pool.finished.Perm t.pool.enqueued := by
  obtain ⟨s, hs, hend⟩ := Option.map_eq_some_iff.1 (show (queuedJob.foldlM step {}).map
    (fun s => decide (s.pool.stop = true ∧ (lastJob.foldlM step s).any fun t => decide
      (t.notifyOnes = 0 ∧ t.notifyAll = false ∧ t.joined = 1 ∧
        (∀ i, t.pool.workers i = .returned) ∧ t.pool.enqueued = [⟨0, 7⟩]))) = some true by decide)
  obtain ⟨hstop, hlast⟩ := of_decide_eq_true hend
  obtain ⟨t, ht, hend⟩ := (Option.any_eq_true _ _).1 hlast
  obtain ⟨hnotifyOnes, hnotifyAll, hjoined, hall, henqueued⟩ := of_decide_eq_true hend
  have hpath : Runs.Path Steps {} queuedJob s := Runs.path_iff_foldlM.2 hs
  have hrest : Runs.Path Steps s lastJob t := Runs.path_iff_foldlM.2 ht
  have hidle : t.Idle :=
    idle_of_workers hnotifyOnes hnotifyAll (fun i => .inr (hall i)) fun _ => hjoined
  obtain ⟨hlength, hdone⟩ := destructor_returns (by decide) hpath hstop hrest
  exact ⟨s, t, hpath, hrest, hlength, hjoined, henqueued, (hdone hidle).2.2.2⟩

end NotifiedPool

end HttpsTest
