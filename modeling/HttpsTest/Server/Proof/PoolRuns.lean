import HttpsTest.Server.Proof.PoolMoves
import HttpsTest.Server.Proof.ThreadPool

/-!
# Pools that stay in place

In a program whose steps are harmless, the steps that concern a pool with workers (`single`) are a
run of the single pool of `ThreadPool` (`mirrors_of_path`), whatever happens to the other pools. So
when its destructor has joined the workers, every job that was enqueued in it has been executed once
(`executed_of_path`).
-/

set_option autoImplicit false

namespace HttpsTest

namespace Pools

variable {τ : Type} {threadCount : Nat} {s s' : Pools τ} {p q : Address}
  {o o' : PoolObject τ} {t : ThreadPool τ threadCount}

/-- The worker of the pool at `p` that a step of the `i`-th worker of `q` is about. -/
def index (p : Address) (threadCount : Nat) (q : Address) (i : Nat) : Option (Fin threadCount) :=
  if h : q = p ∧ i < threadCount then some ⟨i, h.2⟩ else none

/-- What a step of the program is for the pool at `p`. -/
def single (p : Address) (threadCount : Nat) : Action τ → Option (ThreadPool.Action τ threadCount)
  | .enqueue q task => if q = p then some (.enqueue task) else none
  | .lock q i => (index p threadCount q i).map .lock
  | .wakeUp q i => (index p threadCount q i).map .wakeUp
  | .call q i => (index p threadCount q i).map .call
  | .finish q i => (index p threadCount q i).map .finish
  | .destroy q => if q = p then some .destroy else none
  | _ => none

theorem index_self (p : Address) (k : Fin threadCount) : index p threadCount p k = some k :=
  dif_pos ⟨rfl, k.isLt⟩

theorem index_ne (hqp : q ≠ p) (i : Nat) : index p threadCount q i = none :=
  dif_neg fun h => hqp h.1

/-- The object at `p` is as the single pool. -/
structure Mirrors (p : Address) (o : PoolObject τ) (t : ThreadPool τ threadCount) : Prop where
  workers : o.workers = List.ofFn fun i => { pool := p, worker := t.workers i }
  tasks : o.tasks = t.tasks
  stop : o.stop = t.stop
  calls : o.calls = t.enqueued.length

theorem set_ofFn {α : Type} {n : Nat} (f : Fin n → α) (i : Fin n) (a : α) :
    (List.ofFn f).set i a = List.ofFn (Function.update f i a) := by
  refine List.ext_getElem (by simp) fun k h₁ h₂ => ?_
  simp only [List.getElem_set, List.getElem_ofFn, Function.update_apply, Fin.ext_iff, eq_comm]

theorem Mirrors.construct (p : Address) (threadCount : Nat) :
    Mirrors p { workers := List.replicate threadCount { pool := p } }
      ({} : ThreadPool τ threadCount) where
  workers := (List.ofFn_const _ _).symm
  tasks := rfl
  stop := rfl
  calls := rfl

/-- A worker of the object is one of the single pool. -/
theorem Mirrors.worker (hm : Mirrors p o t) {i : Nat} {w : Thread τ} (hw : o.workers[i]? = some w) :
    ∃ k : Fin threadCount, i = k ∧ w = { pool := p, worker := t.workers k } := by
  rw [hm.workers, List.getElem?_ofFn] at hw
  split at hw
  · rename_i hi
    exact ⟨⟨i, hi⟩, rfl, (Option.some.inj hw).symm⟩
  · cases hw

theorem Mirrors.setWorker (hm : Mirrors p o t) (i : Fin threadCount) (w : Worker τ) :
    Mirrors p { o with workers := o.workers.set i { pool := p, worker := w } }
      (t.setWorker i w) where
  workers := by
    rw [hm.workers, set_ofFn]
    refine congrArg List.ofFn (funext fun k => ?_)
    simp only [Function.update_apply, ThreadPool.setWorker]
    split <;> rfl
  tasks := hm.tasks
  stop := hm.stop
  calls := hm.calls

/-! ## Steps of the workers -/

theorem object_setWorker (ho : s.object p = some o) (i : Nat) (w : Thread τ) :
    (s.setWorker p i w).object p = some { o with workers := o.workers.set i w } := by
  rw [Pools.setWorker, object_set, if_pos rfl, ho]
  rfl

theorem object_setWorker_ne (hne : p ≠ q) (i : Nat) (w : Thread τ) :
    (s.setWorker q i w).object p = s.object p := by
  rw [Pools.setWorker, object_set, if_neg hne]

/-- What a worker of another pool does leaves the object alone. -/
theorem object_section_ne (hne : p ≠ q) (i : Nat) {w : Thread τ} (hw : w.pool = q)
    (o : PoolObject τ) : (s.workerSection q i w o).object p = s.object p := by
  unfold workerSection
  split
  · split
    · exact object_setWorker_ne hne i _
    · rw [object_setWorker_ne hne, object_set, if_neg (hw ▸ hne)]
  · exact object_setWorker_ne hne i _

/-- The section of a worker. -/
theorem Mirrors.section (hm : Mirrors p o t) (ho : s.object p = some o) (k : Fin threadCount)
    (w : Worker τ) : ∃ o', (s.workerSection p k { pool := p, worker := w } o).object p = some o' ∧
      Mirrors p o' (t.workerSection k) := by
  unfold workerSection ThreadPool.workerSection
  by_cases hgo : t.stop ∨ t.tasks ≠ []
  · rw [if_pos hgo, if_pos (by rwa [hm.stop, hm.tasks]), hm.tasks]
    cases t.tasks with
    | nil => exact ⟨_, object_setWorker ho k _, hm.setWorker k .returned⟩
    | cons job tasks =>
      have htaken : Mirrors p { o with tasks } { t with tasks, taken := t.taken ++ [job] } :=
        { hm with tasks := rfl }
      have hobject : (s.set p (some { o with tasks })).object p = some { o with tasks } := by
        rw [object_set, if_pos rfl]
      exact ⟨_, object_setWorker hobject k _, htaken.setWorker k (.holding job)⟩
  · rw [if_neg hgo, if_neg (by rwa [hm.stop, hm.tasks])]
    exact ⟨_, object_setWorker ho k _, hm.setWorker k .waiting⟩

/-! ## Every step -/

/-- The single pool takes the steps, and the object is as it then is. -/
def Matched (p : Address) (run : List (ThreadPool.Action τ threadCount)) (o' : PoolObject τ)
    (t : ThreadPool τ threadCount) : Prop :=
  ∃ t', Runs.Path ThreadPool.Steps t run t' ∧ Mirrors p o' t'

theorem Mirrors.matched (hm : Mirrors p o t) : Matched p [] o t := ⟨t, .nil t, hm⟩

theorem Mirrors.stepped {t' : ThreadPool τ threadCount} (hm : Mirrors p o t')
    {a : ThreadPool.Action τ threadCount} (h : t.step a = some t') : Matched p [a] o t :=
  ⟨t', .cons h (.nil t'), hm⟩

/-- A worker moves on between its sections. -/
theorem Mirrors.moved (hm : Mirrors p o t) (ho : s.object p = some o) {i : Nat}
    {w : Thread τ} (hw : s.worker? q i = some w) (w' : Worker τ)
    (ho' : (s.setWorker q i { w with worker := w' }).object p = some o')
    (action : Fin threadCount → ThreadPool.Action τ threadCount)
    (hstep : ∀ k : Fin threadCount, t.workers k = w.worker → ∃ u,
      t.step (action k) = some (u.setWorker k w') ∧ Mirrors p o u) :
    Matched p ((index p threadCount q i).map action).toList o' t := by
  obtain ⟨owner, howner, hmem⟩ := Option.bind_eq_some_iff.1 hw
  by_cases hqp : q = p
  · subst hqp
    cases ho.symm.trans howner
    obtain ⟨k, rfl, rfl⟩ := hm.worker hmem
    cases (object_setWorker ho _ _).symm.trans ho'
    obtain ⟨u, ha, hu⟩ := hstep k rfl
    rw [index_self]
    exact (hu.setWorker k w').stepped ha
  · rw [object_setWorker_ne (Ne.symm hqp), ho] at ho'
    cases ho'
    rw [index_ne hqp]
    exact hm.matched

/-- The section of a worker that some pool owns. -/
theorem Mirrors.locked (h : Settled s) (hm : Mirrors p o t) (ho : s.object p = some o) {i : Nat}
    {pool : Address} (hw : s.worker? q i = some { pool, worker := .ready }) {x : PoolObject τ}
    (hx : s.object pool = some x)
    (ho' : (s.workerSection q i { pool, worker := .ready } x).object p = some o') :
    Matched p ((index p threadCount q i).map .lock).toList o' t := by
  obtain ⟨owner, howner, hmem⟩ := Option.bind_eq_some_iff.1 hw
  obtain rfl : pool = q := h.bound q owner howner _ (List.mem_of_getElem? hmem)
  by_cases hqp : pool = p
  · subst hqp
    cases ho.symm.trans howner
    cases ho.symm.trans hx
    obtain ⟨k, rfl, hk⟩ := hm.worker hmem
    obtain ⟨y, hy, hsection⟩ := hm.section ho k .ready
    cases hy.symm.trans ho'
    have hready : t.workers k = .ready := (congrArg Thread.worker hk).symm
    have hstep : t.step (.lock k) = some (t.workerSection k) := by
      simp only [ThreadPool.step, hready]
    rw [index_self]
    exact hsection.stepped hstep
  · rw [object_section_ne (Ne.symm hqp) i rfl, ho] at ho'
    cases ho'
    rw [index_ne hqp]
    exact hm.matched

theorem Mirrors.enqueued (hm : Mirrors p o t) (hopen : o.stop = false) (task : τ) :
    let job : Job τ := { call := o.calls, task }
    Matched p [.enqueue task] { o with tasks := o.tasks ++ [job], calls := o.calls + 1 } t := by
  have hstep : t.step (.enqueue task) = some { t with
      tasks := t.tasks ++ [{ call := t.enqueued.length, task }]
      enqueued := t.enqueued ++ [{ call := t.enqueued.length, task }] } := by
    simp [ThreadPool.step, ← hm.stop, hopen]
  refine ⟨_, .cons hstep (.nil _), { hm with tasks := ?_, calls := ?_ }⟩
  · rw [hm.tasks, hm.calls]
  · rw [hm.calls, List.length_append, List.length_singleton]

theorem Mirrors.destroyed (hm : Mirrors p o t) (hopen : o.stop = false) :
    Matched p [.destroy] { o with stop := true } t := by
  have hstep : t.step .destroy = some { t with stop := true } := by
    simp [ThreadPool.step, ← hm.stop, hopen]
  exact ⟨_, .cons hstep (.nil _), { hm with stop := rfl }⟩

theorem object_move_ne {other : Address} (hp : p ≠ q) (hother : p ≠ other) (x : PoolObject τ) :
    (s.move q other x).object p = s.object p := by
  rw [move, object_set, if_neg hp, object_set, if_neg hother]

/-- **Every harmless step** that leaves an object at `p` is the step of the single pool that it is
for `p`, or does not concern it. -/
theorem Mirrors.step (h : Settled s) (hm : Mirrors p o t) (ho : s.object p = some o)
    (hcount : 0 < threadCount) {a : Action τ} (ht : Transition s a s') (ha : s.Harmless a)
    (hstop : ∀ task, a = .enqueue p task → o.stop = false) (ho' : s'.object p = some o') :
    Matched p (single p threadCount a).toList o' t := by
  have hsame (hnone : single p threadCount a = none) (heq : s'.object p = s.object p) :
      Matched p (single p threadCount a).toList o' t := by
    cases ho'.symm.trans (heq.trans ho)
    rw [hnone]
    exact hm.matched
  have hworkers : o.workers ≠ [] := by
    rw [hm.workers, ne_eq, List.ofFn_eq_nil_iff]
    omega
  cases ht with
  | construct q n hq =>
    have hne : p ≠ q := fun heq => (by rw [← heq, ho] at hq; cases hq)
    exact hsame rfl (by rw [object_set, if_neg hne])
  | moveConstruct q other x hq hx =>
    have hp : p ≠ q := fun heq => (by rw [← heq, ho] at hq; cases hq)
    have hother : p ≠ other := by
      rintro rfl
      cases ho.symm.trans hx
      exact hworkers (ha o hq hx).1
    exact hsame rfl (object_move_ne hp hother x)
  | assignSelf q x hx => exact hsame rfl rfl
  | moveAssign q other x x' hne hx hnone hx' =>
    have hp : p ≠ q := by
      rintro rfl
      cases ho.symm.trans hx
      exact hworkers hnone
    have hother : p ≠ other := by
      rintro rfl
      cases ho.symm.trans hx'
      exact hworkers (ha x o hx hx' hne hnone).1
    exact hsame rfl (object_move_ne hp hother x')
  | terminate q other x hx hsome => cases ho'
  | enqueue q task x hx =>
    by_cases hqp : q = p
    · subst hqp
      cases ho.symm.trans hx
      rw [object_set, if_pos rfl] at ho'
      cases ho'
      rw [single, if_pos rfl]
      exact hm.enqueued (hstop task rfl) task
    · exact hsame (if_neg hqp) (by rw [object_set, if_neg (Ne.symm hqp)])
  | lock q i pool x hw hx => exact hm.locked h ho hw hx ho'
  | wakeUp q i pool hw =>
    exact hm.moved ho hw .ready ho' .wakeUp fun k hk =>
      ⟨t, by simp only [ThreadPool.step, hk], hm⟩
  | call q i pool job hw =>
    exact hm.moved ho hw (.executing job) ho' .call fun k hk =>
      ⟨{ t with begun := t.begun ++ [job] }, by simp only [ThreadPool.step, hk], { hm with }⟩
  | finish q i pool job hw =>
    exact hm.moved ho hw .ready ho' .finish fun k hk =>
      ⟨{ t with finished := t.finished ++ [job] }, by simp only [ThreadPool.step, hk], { hm with }⟩
  | destroy q x hx hopen =>
    by_cases hqp : q = p
    · subst hqp
      cases ho.symm.trans hx
      rw [object_set, if_pos rfl] at ho'
      cases ho'
      rw [single, if_pos rfl]
      exact hm.destroyed hopen
    · exact hsame (if_neg hqp) (by rw [object_set, if_neg (Ne.symm hqp)])
  | join q x hx hclosed hall =>
    have hne : p ≠ q := by
      rintro rfl
      rw [object_set, if_pos rfl] at ho'
      cases ho'
    exact hsame rfl (by rw [object_set, if_neg hne])

/-! ## Runs -/

/-- A harmless step that leaves an object at `p`, and enqueues nothing in it behind the section of
its destructor. -/
structure Keeps (p : Address) (s : Pools τ) (a : Action τ) (s' : Pools τ) : Prop where
  step : s.step a = some s'
  harmless : s.Harmless a
  open_of_enqueue : ∀ task, a = .enqueue p task → ∀ o, s.object p = some o → o.stop = false
  kept : (s'.object p).isSome

/-- **A pool that stays in place**: the steps that concern it are a run of the single pool. -/
theorem mirrors_of_path {actions : List (Action τ)} (hpath : Runs.Path (Keeps p) s actions s')
    (hcount : 0 < threadCount) (h : Settled s) (ho : s.object p = some o) (hm : Mirrors p o t) :
    ∃ o', s'.object p = some o' ∧ Matched p (actions.filterMap (single p threadCount)) o' t := by
  induction hpath generalizing o t with
  | nil s => exact ⟨o, ho, hm.matched⟩
  | cons hstep _ ih =>
    obtain ⟨o₁, ho₁⟩ := Option.isSome_iff_exists.1 hstep.kept
    have ht := transition_of_step hstep.step
    have hsettled := (step_exact h ht).2 hstep.harmless
    obtain ⟨t₁, hrun, hm₁⟩ := hm.step h ho hcount ht hstep.harmless
      (fun task ha => hstep.open_of_enqueue task ha o ho) ho₁
    obtain ⟨o', ho', t', hrun', hm'⟩ := ih hsettled ho₁ hm₁
    refine ⟨o', ho', t', ?_, hm'⟩
    rw [List.filterMap_eq_flatMap_toList, List.flatMap_cons, ← List.filterMap_eq_flatMap_toList]
    exact hrun.append hrun'

/-- When a destructor has joined the workers, they have returned. -/
theorem Mirrors.returned (hm : Mirrors p o t) (ho : s.object p = some o)
    (hjoin : Transition s (.join p) s') : ∀ i, t.workers i = .returned := by
  cases hjoin with
  | join _ x hx hstop hall =>
    cases ho.symm.trans hx
    intro i
    exact hall _ (hm.workers ▸ List.mem_ofFn.2 ⟨i, rfl⟩)

/-- **No job of such a pool is lost**: from its construction to the joins, the steps that concern it
are a run of the single pool, in which the jobs that were enqueued are executed once each. -/
theorem executed_of_path {s₁ s₂ s₃ : Pools τ} {actions : List (Action τ)} (h : Settled s)
    (hcount : 0 < threadCount) (hconstruct : s.step (.construct p threadCount) = some s₁)
    (hpath : Runs.Path (Keeps p) s₁ actions s₂) (hjoin : s₂.step (.join p) = some s₃) :
    ∃ o, ∃ t : ThreadPool τ threadCount, s₂.object p = some o ∧ Mirrors p o t ∧
      Runs.Path ThreadPool.Steps {} (actions.filterMap (single p threadCount)) t ∧
        o.tasks = [] ∧ t.enqueued.length = o.calls ∧
          t.finished.Nodup ∧ t.finished.Perm t.enqueued := by
  have ht := transition_of_step hconstruct
  have hsettled : Settled s₁ := (step_exact h ht).2 trivial
  have hobject : s₁.object p = some { workers := .replicate threadCount { pool := p } } := by
    cases ht with
    | construct _ _ hp => rw [object_set, if_pos rfl]
  obtain ⟨o, ho, t, hrun, hm⟩ :=
    mirrors_of_path hpath hcount hsettled hobject (.construct p threadCount)
  have hinv := ThreadPool.invariant_of_run hrun ThreadPool.invariant_initial
  obtain ⟨htasks, hperm⟩ := hinv.drained_all hcount (hm.returned ho (transition_of_step hjoin))
  exact ⟨o, t, ho, hm, hrun, hm.tasks.trans htasks, hm.calls.symm,
    hperm.nodup_iff.2 hinv.nodup_enqueued, hperm⟩

/-- The pools at 0 and 1. -/
def pair (o other : Option (PoolObject Nat)) : Pools Nat :=
  ({} : Pools Nat).set 1 other |>.set 0 o

theorem pair_object_zero (o other : Option (PoolObject Nat)) : (pair o other).object 0 = o := rfl

theorem pair_object_one (o other : Option (PoolObject Nat)) : (pair o other).object 1 = other := rfl

theorem pair_set_zero (o other x : Option (PoolObject Nat)) :
    (pair o other).set 0 x = pair x other := by
  simp only [pair, set, Function.update_idem]

theorem pair_set_one (o other x : Option (PoolObject Nat)) :
    (pair o other).set 1 x = pair o x := by
  simp only [pair, set, Function.update_comm Nat.zero_ne_one, Function.update_idem]

/-- The pool at 0 behind its `enqueue`. -/
def onePool (worker : Worker Nat) (tasks : List (Job Nat)) (stop : Bool) : PoolObject Nat :=
  { workers := [{ pool := 0, worker }], tasks, stop, calls := 1 }

/-- A job of the pool at 0 is executed, then its destructor runs; a job of the other is queued. -/
def twoPools : List (Action Nat) :=
  [.construct 1 2, .enqueue 0 5, .lock 0 0, .call 0 0, .enqueue 1 6, .finish 0 0, .destroy 0,
    .lock 0 0]

theorem keeps_pair {o o' : PoolObject Nat} {other other' : Option (PoolObject Nat)}
    {a : Action Nat} (hstep : (pair (some o) other).step a = some (pair (some o') other'))
    (ha : (pair (some o) other).Harmless a)
    (hopen : ∀ task, a = .enqueue 0 task → o.stop = false) :
    Keeps 0 (pair (some o) other) a (pair (some o') other') :=
  ⟨hstep, ha, fun task h _ ho => Option.some.inj ho ▸ hopen task h, rfl⟩

theorem twoPools_kept : ∃ other,
    Runs.Path (Keeps 0) (pair (some { workers := [{ pool := 0 }] }) none) twoPools
      (pair (some (onePool .returned [] true)) other) := by
  let job : Job Nat := { call := 0, task := 5 }
  let x : PoolObject Nat := { workers := [{ pool := 1 }, { pool := 1 }] }
  let y : PoolObject Nat := { x with tasks := [{ call := 0, task := 6 }], calls := 1 }
  have h₁ : (pair (some { workers := [{ pool := 0 }] }) none).step (.construct 1 2) =
      some (pair (some { workers := [{ pool := 0 }] }) (some x)) := by
    simp [step, pair_object_one, pair_set_one, x, List.replicate]
  have h₂ : (pair (some { workers := [{ pool := 0 }] }) (some x)).step (.enqueue 0 5) =
      some (pair (some (onePool .ready [job] false)) (some x)) := by
    simp [step, pair_object_zero, pair_set_zero, onePool, job]
  have h₃ : (pair (some (onePool .ready [job] false)) (some x)).step (.lock 0 0) =
      some (pair (some (onePool (.holding job) [] false)) (some x)) := by
    simp [step, worker?, workerSection, setWorker, pair_object_zero, pair_set_zero, onePool]
  have h₄ : (pair (some (onePool (.holding job) [] false)) (some x)).step (.call 0 0) =
      some (pair (some (onePool (.executing job) [] false)) (some x)) := by
    simp [step, worker?, setWorker, pair_object_zero, pair_set_zero, onePool]
  have h₅ : (pair (some (onePool (.executing job) [] false)) (some x)).step (.enqueue 1 6) =
      some (pair (some (onePool (.executing job) [] false)) (some y)) := by
    simp [step, pair_object_one, pair_set_one, x, y]
  have h₆ : (pair (some (onePool (.executing job) [] false)) (some y)).step (.finish 0 0) =
      some (pair (some (onePool .ready [] false)) (some y)) := by
    simp [step, worker?, setWorker, pair_object_zero, pair_set_zero, onePool]
  have h₇ : (pair (some (onePool .ready [] false)) (some y)).step (.destroy 0) =
      some (pair (some (onePool .ready [] true)) (some y)) := by
    simp [step, pair_object_zero, pair_set_zero, onePool]
  have h₈ : (pair (some (onePool .ready [] true)) (some y)).step (.lock 0 0) =
      some (pair (some (onePool .returned [] true)) (some y)) := by
    simp [step, worker?, workerSection, setWorker, pair_object_zero, pair_set_zero, onePool]
  exact ⟨some y,
    .cons (keeps_pair h₁ trivial fun _ h => by cases h) <|
    .cons (keeps_pair h₂ (fun _ ho => by cases ho; rfl) fun _ _ => rfl) <|
    .cons (keeps_pair h₃ trivial fun _ h => by cases h) <|
    .cons (keeps_pair h₄ trivial fun _ h => by cases h) <|
    .cons (keeps_pair h₅ (fun _ ho => by cases ho; rfl) fun _ h => by cases h) <|
    .cons (keeps_pair h₆ trivial fun _ h => by cases h) <|
    .cons (keeps_pair h₇ trivial fun _ h => by cases h) <|
    .cons (keeps_pair h₈ trivial fun _ h => by cases h) (.nil _)⟩

/-- The pool at 0 has executed its job. -/
theorem twoPools_executed : ∃ o, ∃ t : ThreadPool Nat 1, Mirrors 0 o t ∧
    Runs.Path ThreadPool.Steps {} (twoPools.filterMap (single 0 1)) t ∧
      t.finished.length = 1 := by
  have hsettled : Settled (pair none none) :=
    ⟨fun _ _ ho => (by simp [pair, object_set] at ho),
      fun _ _ ho => (by simp [pair, object_set] at ho)⟩
  have hconstruct : (pair none none).step (.construct 0 1) =
      some (pair (some { workers := [{ pool := 0 }] }) none) := by
    simp [step, pair_object_zero, pair_set_zero]
  obtain ⟨other, hpath⟩ := twoPools_kept
  obtain ⟨o, t, ho, hm, hrun, -, hcalls, -, hperm⟩ :=
    executed_of_path hsettled Nat.one_pos hconstruct hpath rfl
  cases ho
  exact ⟨_, t, hm, hrun, hperm.length_eq.trans hcalls⟩

end Pools

end HttpsTest
