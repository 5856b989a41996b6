import HttpsTest.Lib.Search

/-!
# Pieces between delimiters

`pieces d s`: the texts in front of the occurrences of `d` that a scan of `s` finds, each of them
looked for behind the one before; what stands behind the last is no piece. Every piece is free of
`d` and stands in `s` in front of one (`mem_pieces`), and the pieces of a prefix are the first ones
of the whole (`pieces_prefix`).
-/

set_option autoImplicit false

namespace Pieces

open Search

variable {α : Type*} [DecidableEq α] {d s : List α}

def pieces (d s : List α) : List (List α) :=
  match _h : find s d 0 with
  | none => []
  | some i => if _hd : d = [] then [] else s.take i :: pieces d (s.drop (i + d.length))
termination_by s.length
decreasing_by
  have hpos := List.length_pos_iff.2 _hd
  have hbound := (find_bound _h).2
  rw [List.length_drop]
  omega

theorem pieces_of_none (h : find s d 0 = none) : pieces d s = [] := by
  rw [pieces]
  split
  · rfl
  · rename_i hsome
    rw [h] at hsome
    cases hsome

theorem pieces_of_some (hd : d ≠ []) {i : Nat} (h : find s d 0 = some i) :
    pieces d s = s.take i :: pieces d (s.drop (i + d.length)) := by
  rw [pieces]
  split
  · rename_i hnone
    rw [h] at hnone
    cases hnone
  · rename_i j hsome
    rw [h] at hsome
    cases hsome
    rw [dif_neg hd]

/-- A piece has no delimiter in it and one behind it. -/
theorem mem_pieces {piece : List α} (h : piece ∈ pieces d s) :
    ∃ u v, s = u ++ piece ++ d ++ v ∧ ¬ d <:+: piece := by
  fun_induction pieces d s with
  | case1 | case2 => cases h
  | case3 s i hfind hd ih =>
    obtain ⟨-, hat, hfirst⟩ := find_eq_some.1 hfind
    obtain ⟨u, v, rfl, rfl⟩ := at_iff_split.1 hat
    rw [List.append_assoc, List.take_left, ← List.append_assoc, ← List.length_append,
      List.drop_left] at h
    rcases List.mem_cons.1 h with rfl | h
    · refine ⟨[], v, by simp, fun hc => ?_⟩
      obtain ⟨x, y, hxy⟩ := hc
      have hpos := List.length_pos_iff.2 hd
      have hlen := congrArg List.length hxy
      simp only [List.length_append] at hlen
      refine hfirst x.length (Nat.zero_le _) (by omega) (at_iff_split.2 ⟨x, y ++ d ++ v, ?_, rfl⟩)
      rw [← hxy]
      simp
    · rw [← List.length_append, List.drop_left] at ih
      obtain ⟨x, y, hxy, hno⟩ := ih h
      exact ⟨u ++ d ++ x, y, by rw [hxy]; simp, hno⟩

/-- **The pieces of a prefix** are the first pieces. -/
theorem pieces_prefix (t : List α) : pieces d s <+: pieces d (s ++ t) := by
  fun_induction pieces d s with
  | case1 | case2 => exact List.nil_prefix
  | case3 s i hfind hd ih =>
    have hbound := (find_bound hfind).2
    rw [pieces_of_some hd (find_append hfind t), List.take_append_of_le_length (by omega),
      List.drop_append_of_le_length hbound]
    exact (List.prefix_cons_inj _).2 ih

end Pieces
