import Mathlib.Data.List.Sort

/-!
# Rankings

A list in which no element is greater than one before it, by a number `t` given to each. Which
elements stand among the first `n` is decided by counting, but for those that tie at the cut:
`Decided` says that an element is not one of these, `mem_take_iff` where it stands.
-/

set_option autoImplicit false

namespace Ranking

variable {α : Type*} (t : α → ℕ) (n : ℕ)

/-- The list is ranked, the greatest first. -/
def Ranked (l : List α) : Prop := l.Pairwise fun a b => t b ≤ t a

/-- The number of the elements that are greater than `k`. -/
def ahead (k : α) (l : List α) : ℕ := l.countP fun a => t k < t a

/-- The number of the elements that are not smaller. -/
def level (k : α) (l : List α) : ℕ := l.countP fun a => t k ≤ t a

/-- `k` does not tie at the cut: `n` elements are greater, or no more than `n` are not smaller. -/
def Decided (l : List α) (k : α) : Prop := n ≤ ahead t k l ∨ level t k l ≤ n

instance (l : List α) (k : α) : Decidable (Decided t n l k) := inferInstanceAs (Decidable (_ ∨ _))

variable {t n} {l l' : List α} {k : α}

theorem ahead_perm (h : l.Perm l') : ahead t k l = ahead t k l' := h.countP_eq _

theorem level_perm (h : l.Perm l') : level t k l = level t k l' := h.countP_eq _

theorem decided_perm (h : l.Perm l') : Decided t n l k ↔ Decided t n l' k := by
  rw [Decided, Decided, ahead_perm h, level_perm h]

/-- Fewer than `n` elements are greater than one of the first `n`. -/
theorem ahead_lt (h : Ranked t l) (hk : k ∈ l.take n) : ahead t k l < n := by
  unfold Ranked at h
  rw [← List.take_append_drop n l, List.pairwise_append] at h
  have hdrop : (l.drop n).countP (fun a => t k < t a) = 0 := by
    rw [List.countP_eq_zero]
    intro a ha
    simpa using h.2.2 k hk a ha
  have htake : (l.take n).countP (fun a => t k < t a) < (l.take n).length := by
    refine lt_of_le_of_ne List.countP_le_length fun hall => ?_
    have hself := List.countP_eq_length.1 hall k hk
    simp at hself
  calc ahead t k l = ahead t k (l.take n ++ l.drop n) := by rw [List.take_append_drop]
    _ = (l.take n).countP fun a => t k < t a := by
      rw [ahead, List.countP_append, hdrop, Nat.add_zero]
    _ < (l.take n).length := htake
    _ ≤ n := List.length_take_le n l

/-- More than `n` elements are not smaller than one behind the first `n`. -/
theorem lt_level (h : Ranked t l) (hk : k ∈ l.drop n) : n < level t k l := by
  unfold Ranked at h
  rw [← List.take_append_drop n l, List.pairwise_append] at h
  have htake : (l.take n).countP (fun a => t k ≤ t a) = (l.take n).length := by
    rw [List.countP_eq_length]
    intro a ha
    simpa using h.2.2 a ha k hk
  have hdrop : 0 < (l.drop n).countP fun a => t k ≤ t a :=
    List.countP_pos_iff.2 ⟨k, hk, by simp⟩
  have hlen : (l.take n).length = n := by
    rw [List.length_take, Nat.min_eq_left]
    have := List.length_pos_of_mem hk
    rw [List.length_drop] at this
    omega
  have hlevel : level t k l = (l.take n).length + (l.drop n).countP fun a => t k ≤ t a := by
    rw [← htake, ← List.countP_append, List.take_append_drop, level]
  omega

/-- **Where an element stands** that does not tie at the cut. -/
theorem mem_take_iff (h : Ranked t l) (hk : Decided t n l k) :
    k ∈ l.take n ↔ k ∈ l ∧ ahead t k l < n := by
  refine ⟨fun hmem => ⟨List.mem_of_mem_take hmem, ahead_lt h hmem⟩, fun hmem => ?_⟩
  have hlevel := hk.resolve_left (Nat.not_le.2 hmem.2)
  have hall := hmem.1
  rw [← List.take_append_drop n l, List.mem_append] at hall
  exact hall.resolve_right fun hdrop => absurd (lt_level h hdrop) (Nat.not_lt.2 hlevel)

/-- Ranked lists of the same elements have the same numbers in the same places. -/
theorem map_eq_of_perm (h : Ranked t l) (h' : Ranked t l') (hperm : l.Perm l') :
    l.map t = l'.map t := by
  have hsorted {m : List α} (hm : Ranked t m) : (m.map t).SortedGE := by
    have hpair : (m.map t).Pairwise (· ≥ ·) := List.pairwise_map.2 hm
    exact hpair.sortedGE
  exact (hperm.map t).eq_of_sortedGE (hsorted h) (hsorted h')

end Ranking
