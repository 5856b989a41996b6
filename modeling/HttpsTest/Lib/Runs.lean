import Mathlib.Algebra.GroupWithZero.Nat

/-!
# Runs of state machines

A machine `step : σ → ι → σ` reads one input after the other. `Always step P s is`: `P` holds in
every state of the run from `s`; `Meets step C s is`: every step of the run meets the condition
`C` on its input and the state before it. `always_iff_meets` turns an exact condition for one step
(`P` is kept if and only if `C` is met) into the exact condition for whole runs.

For machines whose next state is not determined, `Path step s is s'` is a labelled path of a step
relation, and `Path.invariant` the induction over the steps of a path that all meet a condition.
-/

set_option autoImplicit false

namespace Runs

variable {σ ι : Type*}

/-! ## Machines -/

section
variable (step : σ → ι → σ)

/-- The state after a run. -/
def after (s : σ) (is : List ι) : σ := is.foldl step s

/-- `P` holds in every state of the run, the first one included. -/
def Always (P : σ → Prop) : σ → List ι → Prop
  | s, [] => P s
  | s, i :: is => P s ∧ Always P (step s i) is

/-- Every step of the run meets `C`. -/
def Meets (C : σ → ι → Prop) : σ → List ι → Prop
  | _, [] => True
  | s, i :: is => C s i ∧ Meets C (step s i) is

end

variable {step : σ → ι → σ} {P J : σ → Prop} {C : σ → ι → Prop}

@[simp] theorem after_nil (s : σ) : after step s [] = s := rfl

@[simp] theorem after_cons (s : σ) (i : ι) (is : List ι) :
    after step s (i :: is) = after step (step s i) is := rfl

instance Always.decidable [DecidablePred P] :
    ∀ (s : σ) (is : List ι), Decidable (Always step P s is)
  | s, [] => inferInstanceAs (Decidable (P s))
  | s, i :: is =>
    have := Always.decidable (step s i) is
    inferInstanceAs (Decidable (P s ∧ Always step P (step s i) is))

instance Meets.decidable [∀ s i, Decidable (C s i)] :
    ∀ (s : σ) (is : List ι), Decidable (Meets step C s is)
  | _, [] => inferInstanceAs (Decidable True)
  | s, i :: is =>
    have := Meets.decidable (step s i) is
    inferInstanceAs (Decidable (C s i ∧ Meets step C (step s i) is))

/-- Always, said of the states after the initial parts of the run. -/
theorem always_iff_forall {s : σ} {is : List ι} :
    Always step P s is ↔ ∀ n, P (after step s (is.take n)) := by
  induction is generalizing s with
  | nil => simp [Always]
  | cons i is ih =>
    rw [Always, ih]
    refine ⟨fun ⟨h0, h⟩ n => ?_, fun h => ?_⟩
    · cases n with
      | zero => exact h0
      | succ n => exact h n
    · exact ⟨h 0, fun n => h (n + 1)⟩

theorem Always.head {s : σ} {is : List ι} (h : Always step P s is) : P s := by
  cases is with
  | nil => exact h
  | cons => exact h.1

theorem Always.last {s : σ} {is : List ι} (h : Always step P s is) : P (after step s is) := by
  have := always_iff_forall.1 h is.length
  rwa [List.take_length] at this

theorem Always.mono {Q : σ → Prop} {s : σ} {is : List ι} (h : Always step P s is)
    (hq : ∀ s, P s → Q s) : Always step Q s is :=
  always_iff_forall.2 fun n => hq _ (always_iff_forall.1 h n)

theorem Always.and {Q : σ → Prop} {s : σ} {is : List ι} (h : Always step P s is)
    (hq : Always step Q s is) : Always step (fun s => P s ∧ Q s) s is :=
  always_iff_forall.2 fun n => ⟨always_iff_forall.1 h n, always_iff_forall.1 hq n⟩

/-- A condition on the inputs alone. -/
theorem meets_iff_forall {D : ι → Prop} {s : σ} {is : List ι} :
    Meets step (fun _ i => D i) s is ↔ ∀ i ∈ is, D i := by
  induction is generalizing s with
  | nil => simp [Meets]
  | cons i is ih => rw [Meets, ih, List.forall_mem_cons]

theorem Meets.and {D : σ → ι → Prop} {s : σ} {is : List ι} (h : Meets step C s is)
    (hd : Meets step D s is) : Meets step (fun s i => C s i ∧ D s i) s is := by
  induction is generalizing s with
  | nil => trivial
  | cons i is ih => exact ⟨⟨h.1, hd.1⟩, ih h.2 hd.2⟩

/-- Conditions that agree where the invariant holds, in a run whose steps all meet `E`. -/
theorem meets_congr_of {D E : σ → ι → Prop} (hJ : ∀ s i, E s i → J s → J (step s i))
    (h : ∀ s i, E s i → J s → (C s i ↔ D s i)) {s : σ} {is : List ι} (he : Meets step E s is)
    (hs : J s) : Meets step C s is ↔ Meets step D s is := by
  induction is generalizing s with
  | nil => exact Iff.rfl
  | cons i is ih =>
    obtain ⟨he0, he⟩ := he
    rw [Meets, Meets, h s i he0 hs, ih he (hJ s i he0 hs)]

/-- **The invariant rule.** -/
theorem always_of_step (hstep : ∀ s i, J s → J (step s i)) {s : σ} (hs : J s) :
    ∀ is, Always step J s is
  | [] => hs
  | i :: is => ⟨hs, always_of_step hstep (hstep s i hs) is⟩

/-- The invariant rule for a run whose steps all meet a condition. -/
theorem always_of_meets (hstep : ∀ s i, C s i → J s → J (step s i)) {s : σ} {is : List ι}
    (hc : Meets step C s is) (hs : J s) : Always step J s is := by
  induction is generalizing s with
  | nil => exact hs
  | cons i is ih => exact ⟨hs, ih hc.2 (hstep s i hc.1 hs)⟩

/-- **The exact condition for a run** whose steps all meet `D`: where the auxiliary invariant `J`
holds, such a step keeps `P` if and only if it meets `C`; then the run keeps `P` if and only if all
its steps meet `C`. -/
theorem always_iff_meets_of {D : σ → ι → Prop} (hJ : ∀ s i, D s i → J s → J (step s i))
    (hstep : ∀ s i, D s i → J s → P s → (P (step s i) ↔ C s i)) {s : σ} {is : List ι}
    (hd : Meets step D s is) (hj : J s) (hp : P s) :
    Always step P s is ↔ Meets step C s is := by
  induction is generalizing s with
  | nil => simp [Always, Meets, hp]
  | cons i is ih =>
    obtain ⟨hd0, hd⟩ := hd
    rw [Always, Meets]
    have hexact := hstep s i hd0 hj hp
    constructor
    · rintro ⟨-, h⟩
      exact ⟨hexact.1 h.head, (ih hd (hJ s i hd0 hj) h.head).1 h⟩
    · rintro ⟨hc, h⟩
      exact ⟨hp, (ih hd (hJ s i hd0 hj) (hexact.2 hc)).2 h⟩

theorem meets_true {s : σ} {is : List ι} : Meets step (fun _ _ => True) s is :=
  meets_iff_forall.2 fun _ _ => trivial

/-- Conditions that agree where the invariant holds. -/
theorem meets_congr {D : σ → ι → Prop} (hJ : ∀ s i, J s → J (step s i))
    (h : ∀ s i, J s → (C s i ↔ D s i)) {s : σ} (hs : J s) {is : List ι} :
    Meets step C s is ↔ Meets step D s is :=
  meets_congr_of (fun s i _ => hJ s i) (fun s i _ => h s i) meets_true hs

/-- The exact condition for a run, where `J` is kept by the steps that meet it. -/
theorem always_iff_meets_kept (hJ : ∀ s i, J s → P s → C s i → J (step s i))
    (hstep : ∀ s i, J s → P s → (P (step s i) ↔ C s i)) {s : σ} {is : List ι} (hj : J s)
    (hp : P s) : Always step P s is ↔ Meets step C s is := by
  induction is generalizing s with
  | nil => simp [Always, Meets, hp]
  | cons i is ih =>
    rw [Always, Meets]
    have hexact := hstep s i hj hp
    constructor
    · rintro ⟨-, h⟩
      have hc := hexact.1 h.head
      exact ⟨hc, (ih (hJ s i hj hp hc) h.head).1 h⟩
    · rintro ⟨hc, h⟩
      exact ⟨hp, (ih (hJ s i hj hp hc) (hexact.2 hc)).2 h⟩

/-- The exact condition for every run. -/
theorem always_iff_meets (hJ : ∀ s i, J s → J (step s i))
    (hstep : ∀ s i, J s → P s → (P (step s i) ↔ C s i)) {s : σ} {is : List ι} (hj : J s)
    (hp : P s) : Always step P s is ↔ Meets step C s is :=
  always_iff_meets_kept (fun s i hj _ _ => hJ s i hj) hstep hj hp

/-! ## Relations -/

/-- A labelled path of a step relation. -/
inductive Path (R : σ → ι → σ → Prop) : σ → List ι → σ → Prop
  | nil (s : σ) : Path R s [] s
  | cons {s t u : σ} {i : ι} {is : List ι} : R s i t → Path R t is u → Path R s (i :: is) u

/-- The steps of `R` that meet `C` in the state before them. -/
def Restrict (R : σ → ι → σ → Prop) (C : σ → ι → Prop) : σ → ι → σ → Prop :=
  fun s i t => C s i ∧ R s i t

variable {R : σ → ι → σ → Prop}

theorem Path.append {s t u : σ} {is js : List ι} (h : Path R s is t) (h' : Path R t js u) :
    Path R s (is ++ js) u := by
  induction h with
  | nil => exact h'
  | cons hr _ ih => exact .cons hr (ih h')

/-- A path is cut where its inputs are. -/
theorem Path.split {s u : σ} {is js : List ι} (h : Path R s (is ++ js) u) :
    ∃ t, Path R s is t ∧ Path R t js u := by
  induction is generalizing s with
  | nil => exact ⟨s, .nil s, h⟩
  | cons i is ih =>
    cases h with
    | cons hr hrest =>
      obtain ⟨t, hfront, hback⟩ := ih hrest
      exact ⟨t, .cons hr hfront, hback⟩

/-- The path of a functional relation is fixed by its inputs. -/
theorem Path.unique (hR : ∀ s i t u, R s i t → R s i u → t = u) {s t u : σ} {is : List ι}
    (h : Path R s is t) (h' : Path R s is u) : t = u := by
  induction h with
  | nil =>
    cases h'
    rfl
  | cons hr _ ih =>
    cases h' with
    | cons hr' hrest =>
      cases hR _ _ _ _ hr hr'
      exact ih hrest

/-- The paths of a partial function, by evaluation. -/
theorem path_iff_foldlM {step : σ → ι → Option σ} {s t : σ} {is : List ι} :
    Path (fun s i t => step s i = some t) s is t ↔ is.foldlM step s = some t := by
  induction is generalizing s with
  | nil =>
    refine ⟨fun h => ?_, fun h => ?_⟩
    · cases h
      rfl
    · cases h
      exact .nil _
  | cons i is ih =>
    rw [List.foldlM_cons]
    constructor
    · rintro (_ | ⟨hr, hp⟩)
      rw [hr]
      exact ih.1 hp
    · intro h
      obtain ⟨u, hu, hrest⟩ := Option.bind_eq_some_iff.1 h
      exact .cons hu (ih.2 hrest)

/-- The path of a partial function to where it leads. -/
theorem path_of_isSome {step : σ → ι → Option σ} {s : σ} {is : List ι}
    (h : (is.foldlM step s).isSome) (d : σ) :
    Path (fun s i t => step s i = some t) s is ((is.foldlM step s).getD d) := by
  obtain ⟨t, ht⟩ := Option.isSome_iff_exists.1 h
  rw [ht]
  exact path_iff_foldlM.2 ht

/-- The paths of a partial function whose steps meet `C`, by evaluation. -/
theorem path_restrict_iff_foldlM {step : σ → ι → Option σ} [∀ s i, Decidable (C s i)] {s t : σ}
    {is : List ι} : Path (Restrict (fun s i t => step s i = some t) C) s is t ↔
      is.foldlM (fun s i => if C s i then step s i else none) s = some t := by
  rw [← path_iff_foldlM]
  have hiff : (fun s i t => (if C s i then step s i else none) = some t) =
      Restrict (fun s i t => step s i = some t) C := by
    funext s i t
    by_cases hc : C s i <;> simp [Restrict, hc]
  rw [hiff]

/-- The invariant rule for all paths. -/
theorem Path.keeps (hstep : ∀ s i t, J s → R s i t → J t) {s t : σ} {is : List ι}
    (h : Path R s is t) (hs : J s) : J t := by
  induction h with
  | nil => exact hs
  | cons hr _ ih => exact ih (hstep _ _ _ hs hr)

/-- The same where the inputs of the path are known. -/
theorem Path.keeps_of_mem {is : List ι} (hstep : ∀ i ∈ is, ∀ s t, J s → R s i t → J t) {s t : σ}
    (h : Path R s is t) (hs : J s) : J t := by
  induction h with
  | nil => exact hs
  | cons hr _ ih =>
    rw [List.forall_mem_cons] at hstep
    exact ih hstep.2 (hstep.1 _ _ hs hr)

/-- Some path leads from one state to the other. -/
def Reaches (R : σ → ι → σ → Prop) (s t : σ) : Prop := ∃ is, Path R s is t

theorem Reaches.refl (s : σ) : Reaches R s s := ⟨[], .nil s⟩

theorem Reaches.next {s t u : σ} {i : ι} (hr : R s i t) (h : Reaches R t u) : Reaches R s u := by
  obtain ⟨is, h⟩ := h
  exact ⟨i :: is, .cons hr h⟩

theorem Reaches.trans {s t u : σ} (h : Reaches R s t) (h' : Reaches R t u) : Reaches R s u := by
  obtain ⟨is, h⟩ := h
  obtain ⟨js, h'⟩ := h'
  exact ⟨is ++ js, h.append h'⟩

/-- **Simulation**: where every step is matched by steps of another machine that lead to a related
state, so is every path. -/
theorem Path.simulate_of {σ' κ : Type*} {Sim : σ → σ' → Prop} {S : σ' → κ → σ' → Prop}
    (hstep : ∀ s i t s', Sim s s' → R s i t → ∃ t', Reaches S s' t' ∧ Sim t t') {s t : σ}
    {is : List ι} (h : Path R s is t) {s' : σ'} (hs : Sim s s') :
    ∃ t', Reaches S s' t' ∧ Sim t t' := by
  induction h generalizing s' with
  | nil s => exact ⟨s', .refl s', hs⟩
  | cons hr _ ih =>
    obtain ⟨t', hfirst, ht⟩ := hstep _ _ _ _ hs hr
    obtain ⟨u', hrest, hu⟩ := ih ht
    exact ⟨u', hfirst.trans hrest, hu⟩

/-- Simulation where one state determines the other. -/
theorem Path.simulate {σ' κ : Type*} {f : σ → σ'} {S : σ' → κ → σ' → Prop}
    (hstep : ∀ s i t, R s i t → Reaches S (f s) (f t)) {s t : σ} {is : List ι}
    (h : Path R s is t) : Reaches S (f s) (f t) := by
  have hmatched : ∀ s i t s', s' = f s → R s i t → ∃ t', Reaches S s' t' ∧ t' = f t := by
    rintro s i t _ rfl hr
    exact ⟨f t, hstep s i t hr, rfl⟩
  obtain ⟨_, hreach, rfl⟩ := h.simulate_of hmatched rfl
  exact hreach

/-- **Paths are bounded by their inputs**: where each step takes one off a measure, up to what its
input costs, a path is no longer than the measure of its first state and its inputs cost. -/
theorem Path.length_le {μ : σ → Nat} {c : ι → Nat} (hJ : ∀ s i t, J s → R s i t → J t)
    (hstep : ∀ s i t, J s → R s i t → μ t + 1 ≤ μ s + c i) {s t : σ} {is : List ι}
    (h : Path R s is t) (hs : J s) : μ t + is.length ≤ μ s + (is.map c).sum := by
  induction h with
  | nil => simp
  | cons hr _ ih =>
    have hfirst := hstep _ _ _ hs hr
    have hrest := ih (hJ _ _ _ hs hr)
    simp only [List.length_cons, List.map_cons, List.sum_cons]
    omega

/-- A measure that every step takes something off. -/
theorem Path.length_le_measure {μ : σ → Nat} (hJ : ∀ s i t, J s → R s i t → J t)
    (hstep : ∀ s i t, J s → R s i t → μ t + 1 ≤ μ s) {s t : σ} {is : List ι}
    (h : Path R s is t) (hs : J s) : μ t + is.length ≤ μ s := by
  have hle := h.length_le (c := fun _ => 0) hJ hstep hs
  simpa [List.map_const'] using hle

/-- **The invariant rule for paths whose steps all meet `C`.** -/
theorem Path.invariant (hstep : ∀ s i t, J s → C s i → R s i t → J t) {s t : σ} {is : List ι}
    (h : Path (Restrict R C) s is t) (hs : J s) : J t := by
  induction h with
  | nil => exact hs
  | cons hr _ ih => exact ih (hstep _ _ _ hs hr.1 hr.2)

/-- **The rule for histories**: where every step extends what is recorded, so does every path. -/
theorem Path.extends {κ : Type*} {J : σ → List κ → Prop}
    (hstep : ∀ s i t ks, J s ks → R s i t → ∃ more, J t (ks ++ more)) {s t : σ} {is : List ι}
    (h : Path R s is t) {ks : List κ} (hs : J s ks) : ∃ more, J t (ks ++ more) := by
  induction h generalizing ks with
  | nil => exact ⟨[], by rwa [List.append_nil]⟩
  | cons hr _ ih =>
    obtain ⟨first, hfirst⟩ := hstep _ _ _ _ hs hr
    obtain ⟨rest, hrest⟩ := ih hfirst
    exact ⟨first ++ rest, by rwa [← List.append_assoc]⟩

/-- What the steps of a run record, each in the state before it, as long as they can be taken. -/
def records {κ : Type*} (step : σ → ι → Option σ) (record : σ → ι → List κ) : σ → List ι → List κ
  | _, [] => []
  | s, i :: is => record s i ++
      match step s i with
      | some t => records step record t is
      | none => []

/-- The rule for histories, where each step also says what the history gains of one kind. -/
theorem Path.extends_records {κ κ' : Type*} {J : σ → List κ → Prop} {g : List κ → List κ'}
    {step : σ → ι → Option σ} {record : σ → ι → List κ'} (hnil : g [] = [])
    (hg : ∀ ks ks', g (ks ++ ks') = g ks ++ g ks')
    (hR : ∀ s i t, R s i t → step s i = some t)
    (hstep : ∀ s i t ks, J s ks → R s i t → ∃ more, J t (ks ++ more) ∧ g more = record s i)
    {s t : σ} {is : List ι} (h : Path R s is t) {ks : List κ} (hs : J s ks) :
    ∃ more, J t (ks ++ more) ∧ g more = records step record s is := by
  induction h generalizing ks with
  | nil => exact ⟨[], by rwa [List.append_nil], hnil⟩
  | cons hr _ ih =>
    obtain ⟨first, hfirst, hkept⟩ := hstep _ _ _ _ hs hr
    obtain ⟨rest, hrest, hall⟩ := ih hfirst
    refine ⟨first ++ rest, by rwa [← List.append_assoc], ?_⟩
    rw [hg, hkept, hall, records, hR _ _ _ hr]

end Runs
