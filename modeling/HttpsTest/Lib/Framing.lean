import Mathlib.Data.List.Basic

/-!
# Framing by accumulation

A receiver appends what it reads to a buffer, tests the whole buffer for a complete message, and
hands the whole buffer over when the test answers yes; then it starts with an empty buffer, or
stops. `outputs_eq_iff`: what it hands over is a given division of the stream into messages
exactly if the reads fall into groups that carry one message each (`Delivers`).
-/

set_option autoImplicit false

namespace Framing

variable {α σ : Type*}

/-- The test for a complete message, and what handing a message over does: the next state, and
whether the receiver goes on. -/
structure Machine (α σ : Type*) where
  complete : List α → Bool
  dispatch : List α → σ → σ × Bool

variable (M : Machine α σ)

/-- The messages handed over, from a state and the contents of the buffer. -/
def outputs : σ → List α → List (List α) → List (List α)
  | _, _, [] => []
  | s, b, c :: cs =>
    if M.complete (b ++ c) then
      (b ++ c) :: if (M.dispatch (b ++ c) s).2 then outputs (M.dispatch (b ++ c) s).1 [] cs else []
    else outputs s (b ++ c) cs

/-- Behind the buffer `b` the reads `g` carry the message `r`: they complete it, and the test
answers no before the last of them. -/
structure Fits (b : List α) (g : List (List α)) (r : List α) : Prop where
  ne_nil : g ≠ []
  carries : b ++ g.flatten = r
  complete : M.complete r = true
  incomplete : ∀ n, 0 < n → n < g.length → M.complete (b ++ (g.take n).flatten) = false

/-- The reads fall into groups, one for each message, and the receiver goes on between them. -/
def Delivers : σ → List (List α) → List (List α) → Prop
  | _, reads, [] => reads = []
  | s, reads, r :: rs => ∃ g rest, reads = g ++ rest ∧ Fits M [] g r ∧
      (rs ≠ [] → (M.dispatch r s).2 = true) ∧ Delivers (M.dispatch r s).1 rest rs

variable {M}

theorem outputs_cons (s : σ) (b c : List α) (cs : List (List α)) :
    outputs M s b (c :: cs) = if M.complete (b ++ c) then
      (b ++ c) ::
        if (M.dispatch (b ++ c) s).2 then outputs M (M.dispatch (b ++ c) s).1 [] cs else []
    else outputs M s (b ++ c) cs := rfl

theorem Fits.single {b c : List α} (h : M.complete (b ++ c) = true) : Fits M b [c] (b ++ c) where
  ne_nil := by simp
  carries := by simp
  complete := h
  incomplete n h0 h1 := by
    rw [List.length_singleton] at h1
    omega

/-- A read that completes nothing goes in front of a group. -/
theorem Fits.cons {b c r : List α} {g : List (List α)} (hc : M.complete (b ++ c) = false)
    (h : Fits M (b ++ c) g r) : Fits M b (c :: g) r where
  ne_nil := by simp
  carries := by rw [← h.carries, List.flatten_cons, List.append_assoc]
  complete := h.complete
  incomplete n h0 h1 := by
    obtain ⟨m, rfl⟩ : ∃ m, n = m + 1 := ⟨n - 1, by omega⟩
    rw [List.take_succ_cons, List.flatten_cons, ← List.append_assoc]
    cases m with
    | zero => simpa using hc
    | succ m =>
      rw [List.length_cons] at h1
      exact h.incomplete (m + 1) (by omega) (by omega)

/-- The first read of a group of more than one completes nothing. -/
theorem Fits.tail {b c r : List α} {g : List (List α)} (h : Fits M b (c :: g) r) (hg : g ≠ []) :
    M.complete (b ++ c) = false ∧ Fits M (b ++ c) g r := by
  have hlen : 0 < g.length := List.length_pos_iff.2 hg
  refine ⟨by simpa using h.incomplete 1 (by omega) (by simpa using hlen), hg, ?_, h.complete, ?_⟩
  · rw [← h.carries, List.flatten_cons, List.append_assoc]
  · intro n h0 h1
    have := h.incomplete (n + 1) (by omega) (by rw [List.length_cons]; omega)
    rwa [List.take_succ_cons, List.flatten_cons, ← List.append_assoc] at this

/-- What is handed over first, and what comes behind it. -/
theorem outputs_cases (s : σ) (b : List α) (cs : List (List α)) :
    outputs M s b cs = [] ∨ ∃ g rest, cs = g ++ rest ∧ Fits M b g (b ++ g.flatten) ∧
      outputs M s b cs = (b ++ g.flatten) :: if (M.dispatch (b ++ g.flatten) s).2 then
        outputs M (M.dispatch (b ++ g.flatten) s).1 [] rest else [] := by
  induction cs generalizing b with
  | nil => exact .inl rfl
  | cons c cs ih =>
    rw [outputs_cons]
    by_cases hc : M.complete (b ++ c) = true
    · rw [if_pos hc]
      have hflat : b ++ [c].flatten = b ++ c := by simp
      exact .inr ⟨[c], cs, rfl, by rw [hflat]; exact .single hc, by rw [hflat]⟩
    · rw [if_neg hc]
      refine (ih (b ++ c)).imp_right fun ⟨g, rest, hcs, hfits, hout⟩ => ?_
      have hflat : b ++ (c :: g).flatten = b ++ c ++ g.flatten := by
        rw [List.flatten_cons, List.append_assoc]
      refine ⟨c :: g, rest, by rw [hcs]; rfl, ?_, by rw [hflat]; exact hout⟩
      rw [hflat]
      exact hfits.cons (Bool.not_eq_true _ ▸ hc)

/-- A group is handed over as its message. -/
theorem outputs_of_fits {b r : List α} {g : List (List α)} (h : Fits M b g r) (s : σ)
    (rest : List (List α)) : outputs M s b (g ++ rest) =
      r :: if (M.dispatch r s).2 then outputs M (M.dispatch r s).1 [] rest else [] := by
  induction g generalizing b with
  | nil => exact absurd rfl h.ne_nil
  | cons c g ih =>
    rw [List.cons_append, outputs_cons]
    by_cases hg : g = []
    · subst hg
      have hr : b ++ c = r := by simpa using h.carries
      rw [hr, if_pos h.complete, List.nil_append]
    · obtain ⟨hc, hfits⟩ := h.tail hg
      rw [if_neg (by simp [hc]), ih hfits]

/-- Reads that carry nothing are none. -/
theorem eq_nil_of_flatten {cs : List (List α)} (hne : ∀ c ∈ cs, c ≠ []) (h : cs.flatten = []) :
    cs = [] := by
  cases cs with
  | nil => rfl
  | cons c cs =>
    exact absurd (List.flatten_eq_nil_iff.1 h c List.mem_cons_self) (hne c List.mem_cons_self)

/-- **The messages of a stream are handed over exactly as they are** if and only if the reads fall
into groups that carry them. -/
theorem outputs_eq_iff {s : σ} {cs rs : List (List α)} (hne : ∀ c ∈ cs, c ≠ [])
    (h : cs.flatten = rs.flatten) : outputs M s [] cs = rs ↔ Delivers M s cs rs := by
  induction rs generalizing s cs with
  | nil =>
    have hcs := eq_nil_of_flatten hne h
    subst hcs
    exact iff_of_true rfl rfl
  | cons r rs ih =>
    -- what stays of the stream behind a group that carries the first message
    have hrest {g rest : List (List α)} (hcs : cs = g ++ rest) (hr : g.flatten = r) :
        (∀ c ∈ rest, c ≠ []) ∧ rest.flatten = rs.flatten := by
      subst hcs hr
      rw [List.flatten_append, List.flatten_cons] at h
      exact ⟨fun c hc => hne c (List.mem_append_right g hc), List.append_cancel_left h⟩
    refine ⟨fun hout => ?_, fun ⟨g, rest, hcs, hfits, hgo, hdel⟩ => ?_⟩
    · rcases outputs_cases (M := M) s [] cs with hnil | ⟨g, rest, hcs, hfits, hcons⟩
      · rw [hnil] at hout
        cases hout
      · rw [hout, List.nil_append] at hcons
        obtain ⟨hr, htail⟩ := List.cons.inj hcons
        rw [List.nil_append, ← hr] at hfits
        rw [← hr] at htail
        obtain ⟨hne', hflat⟩ := hrest hcs hr.symm
        refine ⟨g, rest, hcs, hfits, fun hrs => ?_, ?_⟩
        · by_contra hstop
          rw [if_neg hstop] at htail
          exact hrs htail
        · by_cases hrs : rs = []
          · subst hrs
            exact eq_nil_of_flatten hne' hflat
          · rw [← ih hne' hflat]
            by_cases hgo : (M.dispatch r s).2 = true
            · rw [if_pos hgo] at htail
              exact htail.symm
            · rw [if_neg hgo] at htail
              exact absurd htail hrs
    · obtain ⟨hne', hflat⟩ := hrest hcs (by simpa using hfits.carries)
      rw [hcs, outputs_of_fits hfits s rest, (ih hne' hflat).2 hdel]
      by_cases hrs : rs = []
      · simp [hrs]
      · rw [if_pos (hgo hrs)]

end Framing
