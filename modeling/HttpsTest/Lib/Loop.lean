import Mathlib.Init

/-!
# While loops that may throw

`Loop.run exhausted body n s`: the loop `while (true) body` from the loop state `s`. A round throws,
leaves the loop with a result or goes on with a new loop state. At most `n` rounds are run;
`Loop.run_total` is the rule for total correctness: an invariant and a variant that decreases
in every round make the loop end normally, with a result that satisfies the postcondition.
`run_map` forgets parts of the loop state, `advancing` fails in a round that does not move a
position forward, and `run_agree` is the rule for two loops whose rounds agree.
-/

set_option autoImplicit false

namespace Loop

/-- How a round of a loop ends. -/
inductive Step (σ β : Type) where
  | next (s : σ)
  | done (b : β)
  deriving DecidableEq

variable {ε σ β : Type}

/-- What a round ends with, seen through two functions. -/
def Step.map {σ' β' : Type} (f : σ → σ') (g : β → β') : Step σ β → Step σ' β'
  | .next s => .next (f s)
  | .done b => .done (g b)

/-- The loop, for at most `n` rounds. -/
def run (exhausted : ε) (body : σ → Except ε (Step σ β)) : Nat → σ → Except ε β
  | 0, _ => .error exhausted
  | n + 1, s =>
    match body s with
    | .error e => .error e
    | .ok (.done b) => .ok b
    | .ok (.next s') => run exhausted body n s'

/-- **Total correctness**: the variant `μ` bounds the number of rounds. -/
theorem run_total (exhausted : ε) (body : σ → Except ε (Step σ β)) (Inv : σ → Prop) (μ : σ → Nat)
    (Post : β → Prop)
    (h : ∀ s, Inv s → (∃ s', body s = .ok (.next s') ∧ Inv s' ∧ μ s' < μ s) ∨
      ∃ b, body s = .ok (.done b) ∧ Post b) :
    ∀ n s, Inv s → μ s < n → ∃ b, run exhausted body n s = .ok b ∧ Post b
  | 0, _, _, hn => absurd hn (Nat.not_lt_zero _)
  | n + 1, s, hs, hn => by
    rcases h s hs with ⟨s', hb, hs', hlt⟩ | ⟨b, hb, hp⟩
    · obtain ⟨b, hr, hp⟩ := run_total exhausted body Inv μ Post h n s' hs' (by omega)
      exact ⟨b, by rw [run, hb]; exact hr, hp⟩
    · exact ⟨b, by rw [run, hb], hp⟩

/-- The rounds that fail where they do not move the position forward. -/
def advancing (stalled : ε) (pos : σ → Nat) (body : σ → Except ε (Step σ β)) (s : σ) :
    Except ε (Step σ β) :=
  match body s with
  | .ok (.next s') => if pos s < pos s' then .ok (.next s') else .error stalled
  | r => r

theorem advancing_done {stalled : ε} {pos : σ → Nat} {body : σ → Except ε (Step σ β)} {s : σ}
    {b : β} (h : body s = .ok (.done b)) : advancing stalled pos body s = .ok (.done b) := by
  rw [advancing, h]

theorem advancing_next {stalled : ε} {pos : σ → Nat} {body : σ → Except ε (Step σ β)} {s s' : σ}
    (h : body s = .ok (.next s')) (hlt : pos s < pos s') :
    advancing stalled pos body s = .ok (.next s') := by
  rw [advancing, h]
  exact if_pos hlt

/-- **Projection**: a loop whose rounds are those of another one, with more in its state. -/
theorem run_map {σ' β' : Type} {exhausted : ε} {body : σ → Except ε (Step σ β)}
    {body' : σ' → Except ε (Step σ' β')} {f : σ → σ'} {g : β → β'}
    (h : ∀ s, (body s).map (Step.map f g) = body' (f s)) :
    ∀ (n : Nat) (s : σ), (run exhausted body n s).map g = run exhausted body' n (f s)
  | 0, _ => rfl
  | n + 1, s => by
    rw [run, run, ← h s]
    cases body s with
    | error e => rfl
    | ok r =>
      cases r with
      | next s' => exact run_map h n s'
      | done b => rfl

/-- A loop returns what another one does if its rounds do. -/
theorem run_agree {ε' : Type} {exhausted : ε} {exhausted' : ε'} {body : σ → Except ε (Step σ β)}
    {body' : σ → Except ε' (Step σ β)} (h : ∀ s r, body s = .ok r → body' s = .ok r) {b : β} :
    ∀ {n : Nat} {s : σ}, run exhausted body n s = .ok b → run exhausted' body' n s = .ok b
  | 0, _, hr => (by cases hr)
  | n + 1, s, hr => by
    rw [run] at hr ⊢
    cases hb : body s with
    | error e =>
      rw [hb] at hr
      cases hr
    | ok r =>
      rw [hb] at hr
      rw [h s r hb]
      cases r with
      | next s' => exact run_agree h hr
      | done b' =>
        cases hr
        rfl

end Loop
