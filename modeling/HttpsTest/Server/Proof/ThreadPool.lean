import Mathlib.Algebra.BigOperators.Group.Finset.Basic
import Mathlib.Data.Fintype.Basic
import HttpsTest.Lib.Runs
import HttpsTest.Server.ThreadPool

/-!
# No job is lost

Every job is in the queue, in the hands of one worker or done with: `Invariant` says so with
multisets, and that a worker has returned only if `stop` is set and the queue is empty. It holds in
every run (`invariant_of_run`), whatever the order of the steps; `executed_of_run` draws the
conclusions for the pool whose workers have all returned.
-/

set_option autoImplicit false

namespace HttpsTest

/-- The job a worker holds. -/
@[simp] def Worker.held {τ : Type} : Worker τ → Multiset (Job τ)
  | .holding job => {job}
  | .ready | .waiting | .executing _ | .returned => 0

/-- The job a worker executes. -/
@[simp] def Worker.running {τ : Type} : Worker τ → Multiset (Job τ)
  | .executing job => {job}
  | .ready | .waiting | .holding _ | .returned => 0

namespace ThreadPool

variable {τ : Type} {threadCount : Nat}

/-! ## The steps -/

/-- What a step can do. -/
inductive Transition (s : ThreadPool τ threadCount) : ThreadPool τ threadCount → Prop
  | enqueue (job : Job τ) : s.stop = false → job.call = s.enqueued.length →
      Transition s { s with tasks := s.tasks ++ [job], enqueued := s.enqueued ++ [job] }
  | wait (i : Fin threadCount) : s.workers i = .ready → Transition s (s.setWorker i .waiting)
  | leave (i : Fin threadCount) : s.workers i = .ready → s.stop = true → s.tasks = [] →
      Transition s (s.setWorker i .returned)
  | take (i : Fin threadCount) (job : Job τ) (tasks : List (Job τ)) : s.workers i = .ready →
      s.tasks = job :: tasks →
      Transition s ({ s with tasks, taken := s.taken ++ [job] }.setWorker i (.holding job))
  | wakeUp (i : Fin threadCount) : s.workers i = .waiting → Transition s (s.setWorker i .ready)
  | call (i : Fin threadCount) (job : Job τ) : s.workers i = .holding job →
      Transition s ({ s with begun := s.begun ++ [job] }.setWorker i (.executing job))
  | finish (i : Fin threadCount) (job : Job τ) : s.workers i = .executing job →
      Transition s ({ s with finished := s.finished ++ [job] }.setWorker i .ready)
  | destroy : s.stop = false → Transition s { s with stop := true }

theorem transition_of_section {s : ThreadPool τ threadCount} {i : Fin threadCount}
    (hw : s.workers i = .ready) : Transition s (s.workerSection i) := by
  unfold workerSection
  by_cases hgo : s.stop ∨ s.tasks ≠ []
  · rw [if_pos hgo]
    split
    · rename_i hempty
      exact .leave i hw (hgo.resolve_right (not_not_intro hempty)) hempty
    · rename_i job tasks htasks
      exact .take i job tasks hw htasks
  · rw [if_neg hgo]
    exact .wait i hw

theorem transition_of_step {s t : ThreadPool τ threadCount} {a : Action τ threadCount}
    (h : s.Steps a t) : Transition s t := by
  cases a with
  | enqueue task =>
    simp only [Steps, step] at h
    split at h
    · cases h
    · rename_i hstop
      cases h
      exact .enqueue _ (by simpa using hstop) rfl
  | lock i =>
    simp only [Steps, step] at h
    split at h
    · rename_i hw
      cases h
      exact transition_of_section hw
    · cases h
  | wakeUp i =>
    simp only [Steps, step] at h
    split at h
    · rename_i hw
      cases h
      exact .wakeUp i hw
    · cases h
  | call i =>
    simp only [Steps, step] at h
    split at h
    · rename_i job hw
      cases h
      exact .call i job hw
    · cases h
  | finish i =>
    simp only [Steps, step] at h
    split at h
    · rename_i job hw
      cases h
      exact .finish i job hw
    · cases h
  | destroy =>
    simp only [Steps, step] at h
    split at h
    · cases h
    · rename_i hstop
      cases h
      exact .destroy (by simpa using hstop)

/-! ## The jobs in the hands of the workers -/

theorem sum_update {ι α M : Type} [Fintype ι] [DecidableEq ι] [AddCommMonoid M] (f : α → M)
    (w : ι → α) (i : ι) (x : α) :
    ∑ k, f (Function.update w i x k) + f (w i) = ∑ k, f (w k) + f x := by
  have hsame : ∑ k ∈ Finset.univ.erase i, f (Function.update w i x k) =
      ∑ k ∈ Finset.univ.erase i, f (w k) := by
    refine Finset.sum_congr rfl fun k hk => ?_
    rw [Function.update_of_ne (Finset.ne_of_mem_erase hk)]
  rw [← Finset.sum_erase_add _ _ (Finset.mem_univ i), hsame, Function.update_self,
    ← Finset.sum_erase_add _ (fun k => f (w k)) (Finset.mem_univ i)]
  exact add_right_comm _ _ _

def held (s : ThreadPool τ threadCount) : Multiset (Job τ) := ∑ i, (s.workers i).held

def running (s : ThreadPool τ threadCount) : Multiset (Job τ) := ∑ i, (s.workers i).running

theorem held_setWorker (s : ThreadPool τ threadCount) (i : Fin threadCount) (w : Worker τ) :
    (s.setWorker i w).held + (s.workers i).held = s.held + w.held :=
  sum_update Worker.held s.workers i w

theorem running_setWorker (s : ThreadPool τ threadCount) (i : Fin threadCount) (w : Worker τ) :
    (s.setWorker i w).running + (s.workers i).running = s.running + w.running :=
  sum_update Worker.running s.workers i w

/-! ## The invariant -/

structure Invariant (s : ThreadPool τ threadCount) : Prop where
  order : s.taken ++ s.tasks = s.enqueued
  numbered : s.enqueued.map Job.call = List.range s.enqueued.length
  held : (s.begun : Multiset (Job τ)) + s.held = s.taken
  running : (s.finished : Multiset (Job τ)) + s.running = s.begun
  drained : ∀ i, s.workers i = .returned → s.stop = true ∧ s.tasks = []

theorem invariant_initial : Invariant ({} : ThreadPool τ threadCount) where
  order := rfl
  numbered := rfl
  held := by simp [ThreadPool.held]
  running := by simp [ThreadPool.running]
  drained := nofun

/-- Who has returned when a worker has moved. -/
theorem drained_setWorker {s : ThreadPool τ threadCount} {P : Prop} {i : Fin threadCount}
    {w : Worker τ} (hs : ∀ k, s.workers k = .returned → P) (hw : w = .returned → P) :
    ∀ k, (s.setWorker i w).workers k = .returned → P := by
  intro k hk
  by_cases hki : k = i
  · subst hki
    exact hw (by simpa [setWorker] using hk)
  · exact hs k (by simpa [setWorker, hki] using hk)

/-- A worker moves without a job. -/
theorem Invariant.move {s : ThreadPool τ threadCount} (h : s.Invariant) {i : Fin threadCount}
    {w : Worker τ} (hheld : w.held = (s.workers i).held)
    (hrunning : w.running = (s.workers i).running)
    (hreturned : w = .returned → s.stop = true ∧ s.tasks = []) : (s.setWorker i w).Invariant where
  order := h.order
  numbered := h.numbered
  held := by
    have hsum := s.held_setWorker i w
    rw [hheld] at hsum
    rw [add_right_cancel hsum]
    exact h.held
  running := by
    have hsum := s.running_setWorker i w
    rw [hrunning] at hsum
    rw [add_right_cancel hsum]
    exact h.running
  drained := drained_setWorker h.drained hreturned

theorem coe_concat (jobs : List (Job τ)) (job : Job τ) :
    ((jobs ++ [job] : List (Job τ)) : Multiset (Job τ)) = jobs + {job} := by
  rw [← Multiset.coe_add, Multiset.coe_singleton]

/-- **Every step keeps the invariant.** -/
theorem Invariant.step {s t : ThreadPool τ threadCount} (h : s.Invariant) (ht : Transition s t) :
    t.Invariant := by
  cases ht with
  | enqueue job hstop hcall =>
    refine { h with order := ?_, numbered := ?_, drained := ?_ }
    · simp only [← h.order, List.append_assoc]
    · simp only [List.map_append, h.numbered, List.map_cons, List.map_nil, hcall,
        List.length_append, List.length_singleton, List.range_succ]
    · intro i hi
      exact absurd (h.drained i hi).1 (by simp [hstop])
  | wait i hw => exact h.move (by simp [hw]) (by simp [hw]) nofun
  | leave i hw hstop htasks =>
    exact h.move (by simp [hw]) (by simp [hw]) fun _ => ⟨hstop, htasks⟩
  | take i job tasks hw htasks =>
    have hheld := s.held_setWorker i (.holding job)
    have hrunning := s.running_setWorker i (.holding job)
    simp only [hw, Worker.held, Worker.running, add_zero] at hheld hrunning
    refine { order := ?_, numbered := h.numbered, held := ?_, running := ?_, drained := ?_ }
    · simp only [setWorker, List.append_assoc, List.singleton_append, ← htasks, h.order]
    · calc (s.begun : Multiset (Job τ)) + (s.setWorker i (.holding job)).held
          = s.begun + (s.held + {job}) := congrArg _ hheld
        _ = s.taken + {job} := by rw [← add_assoc, h.held]
        _ = (s.taken ++ [job] : List (Job τ)) := (coe_concat _ _).symm
    · calc (s.finished : Multiset (Job τ)) + (s.setWorker i (.holding job)).running
          = s.finished + s.running := congrArg _ hrunning
        _ = s.begun := h.running
    · -- nobody has returned, for the queue was not empty
      refine drained_setWorker (fun k hk => ?_) nofun
      exact absurd (h.drained k hk).2 (by simp [htasks])
  | wakeUp i hw => exact h.move (by simp [hw]) (by simp [hw]) nofun
  | call i job hw =>
    have hheld := s.held_setWorker i (.executing job)
    have hrunning := s.running_setWorker i (.executing job)
    simp only [hw, Worker.held, Worker.running, add_zero] at hheld hrunning
    refine { order := h.order, numbered := h.numbered, held := ?_, running := ?_, drained := ?_ }
    · calc ((s.begun ++ [job] : List (Job τ)) : Multiset (Job τ)) +
            (s.setWorker i (.executing job)).held
          = s.begun + ((s.setWorker i (.executing job)).held + {job}) := by
            rw [coe_concat, add_right_comm, add_assoc]
        _ = s.begun + s.held := congrArg _ hheld
        _ = s.taken := h.held
    · calc (s.finished : Multiset (Job τ)) + (s.setWorker i (.executing job)).running
          = s.finished + (s.running + {job}) := congrArg _ hrunning
        _ = s.begun + {job} := by rw [← add_assoc, h.running]
        _ = (s.begun ++ [job] : List (Job τ)) := (coe_concat _ _).symm
    · exact drained_setWorker h.drained nofun
  | finish i job hw =>
    have hheld := s.held_setWorker i .ready
    have hrunning := s.running_setWorker i .ready
    simp only [hw, Worker.held, Worker.running, add_zero] at hheld hrunning
    refine { order := h.order, numbered := h.numbered, held := ?_, running := ?_, drained := ?_ }
    · calc (s.begun : Multiset (Job τ)) + (s.setWorker i .ready).held
          = s.begun + s.held := congrArg _ hheld
        _ = s.taken := h.held
    · calc ((s.finished ++ [job] : List (Job τ)) : Multiset (Job τ)) +
            (s.setWorker i .ready).running
          = s.finished + ((s.setWorker i .ready).running + {job}) := by
            rw [coe_concat, add_right_comm, add_assoc]
        _ = s.finished + s.running := congrArg _ hrunning
        _ = s.begun := h.running
    · exact drained_setWorker h.drained nofun
  | destroy hstop =>
    refine { h with drained := fun i hi => ?_ }
    exact ⟨rfl, (h.drained i hi).2⟩

/-- It holds in every run. -/
theorem invariant_of_run {s t : ThreadPool τ threadCount} {run : List (Action τ threadCount)}
    (h : Runs.Path Steps s run t) (hs : s.Invariant) : t.Invariant := by
  induction h with
  | nil => exact hs
  | cons hstep _ ih => exact ih (hs.step (transition_of_step hstep))

/-! ## Conclusions -/

namespace Invariant

variable {s : ThreadPool τ threadCount} (h : s.Invariant)
include h

theorem nodup_enqueued : s.enqueued.Nodup := by
  refine List.Nodup.of_map Job.call ?_
  rw [h.numbered]
  exact List.nodup_range

/-- Only jobs that were taken are called, each of them once. -/
theorem nodup_begun : s.begun.Nodup := by
  have htaken : s.taken.Nodup := (h.order ▸ h.nodup_enqueued).of_append_left
  have hle : (s.begun : Multiset (Job τ)) ≤ s.taken := h.held ▸ Multiset.le_add_right _ _
  exact Multiset.coe_nodup.1 (Multiset.nodup_of_le hle htaken)

/-- When all workers have returned, all jobs are done. -/
theorem drained_all (hcount : 1 ≤ threadCount) (hall : ∀ i, s.workers i = .returned) :
    s.tasks = [] ∧ s.finished.Perm s.enqueued := by
  have htasks := (h.drained ⟨0, hcount⟩ (hall _)).2
  have hheld : s.held = 0 := Finset.sum_eq_zero fun i _ => by simp [hall i]
  have hrunning : s.running = 0 := Finset.sum_eq_zero fun i _ => by simp [hall i]
  refine ⟨htasks, Multiset.coe_eq_coe.1 ?_⟩
  calc (s.finished : Multiset (Job τ))
      = s.begun := by rw [← h.running, hrunning, add_zero]
    _ = s.taken := by rw [← h.held, hheld, add_zero]
    _ = s.enqueued := by rw [← h.order, htasks, List.append_nil]

end Invariant

/-- **No job is lost**: in every run the jobs are taken in the order in which they were enqueued and
none is called twice; when all workers have returned, the queue is empty and each job has been
executed once. -/
theorem executed_of_run (hcount : 1 ≤ threadCount) {run : List (Action τ threadCount)}
    {s : ThreadPool τ threadCount} (h : Runs.Path Steps {} run s) :
    s.taken <+: s.enqueued ∧ s.begun.Nodup ∧
      ((∀ i, s.workers i = .returned) →
        s.tasks = [] ∧ s.finished.Nodup ∧ s.finished.Perm s.enqueued) := by
  have hinv := invariant_of_run h invariant_initial
  refine ⟨⟨s.tasks, hinv.order⟩, hinv.nodup_begun, fun hall => ?_⟩
  obtain ⟨htasks, hperm⟩ := hinv.drained_all hcount hall
  exact ⟨htasks, hperm.nodup_iff.2 hinv.nodup_enqueued, hperm⟩

/-- `stop` is set while a job is queued. -/
def stopped : List (Action Nat 2) :=
  [.lock 0, .enqueue 7, .destroy, .wakeUp 0, .lock 0, .lock 1, .call 0, .finish 0, .lock 0]

theorem stopped_drained : ∃ s : ThreadPool Nat 2, Runs.Path Steps {} stopped s ∧
    (∀ i, s.workers i = .returned) ∧ s.enqueued = [⟨0, 7⟩] ∧ s.finished.Perm s.enqueued := by
  obtain ⟨s, hs, hend⟩ := Option.map_eq_some_iff.1 (show (stopped.foldlM step {}).map
    (fun s => decide ((∀ i, s.workers i = .returned) ∧ s.enqueued = [⟨0, 7⟩])) = some true by
    decide)
  obtain ⟨hall, henqueued⟩ := of_decide_eq_true hend
  have hpath : Runs.Path Steps {} stopped s := Runs.path_iff_foldlM.2 hs
  obtain ⟨-, -, hdrained⟩ := executed_of_run (by decide) hpath
  exact ⟨s, hpath, hall, henqueued, (hdrained hall).2.2⟩

end ThreadPool

end HttpsTest
