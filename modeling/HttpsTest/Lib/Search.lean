import Mathlib.Data.List.Infix
import Mathlib.Data.List.TakeWhile

/-!
# First occurrences in a list

`Search.find s pat pos`: the index of the first occurrence of `pat` in `s` at or after `pos`, as
string libraries compute it. `find_eq_some` and `find_eq_none` characterise it by
`Search.At s pat i` (`pat` stands in `s` at index `i`); the rest of the file says how an
occurrence and the first occurrence behave when the list is cut or extended, and what a single
element separates: the field in front of its first occurrence and what stands `behind` it.
-/

set_option autoImplicit false

namespace Search

variable {α : Type*}

/-! ## Occurrences -/

/-- `pat` stands in `s` at index `i`. -/
def At (s pat : List α) (i : Nat) : Prop := i ≤ s.length ∧ pat <+: s.drop i

theorem At.bound {s pat : List α} {i : Nat} (h : At s pat i) : i + pat.length ≤ s.length := by
  have := h.2.length_le
  rw [List.length_drop] at this
  have := h.1
  omega

theorem at_iff_split {s pat : List α} {i : Nat} :
    At s pat i ↔ ∃ u v, s = u ++ pat ++ v ∧ u.length = i := by
  constructor
  · rintro ⟨hi, v, hv⟩
    refine ⟨s.take i, v, ?_, by rw [List.length_take]; omega⟩
    rw [List.append_assoc, hv, List.take_append_drop]
  · rintro ⟨u, v, rfl, rfl⟩
    refine ⟨by simp, v, ?_⟩
    rw [List.append_assoc, List.drop_left]

theorem At.isInfix {s pat : List α} {i : Nat} (h : At s pat i) : pat <:+: s := by
  obtain ⟨u, v, rfl, -⟩ := at_iff_split.1 h
  exact ⟨u, v, rfl⟩

theorem At.append {s pat : List α} {i : Nat} (h : At s pat i) (t : List α) :
    At (s ++ t) pat i := by
  obtain ⟨u, v, rfl, hu⟩ := at_iff_split.1 h
  exact at_iff_split.2 ⟨u, v ++ t, by simp, hu⟩

/-- An occurrence that ends within `s` is an occurrence in `s`. -/
theorem At.of_append {s t pat : List α} {i : Nat} (h : At (s ++ t) pat i)
    (hi : i + pat.length ≤ s.length) : At s pat i := by
  refine ⟨by omega, ?_⟩
  have hp := h.2
  rw [List.drop_append_of_le_length (by omega)] at hp
  exact List.prefix_of_prefix_length_le hp (List.prefix_append _ _)
    (by rw [List.length_drop]; omega)

/-- The occurrences in a front of the list are those that end there. -/
theorem at_take {s pat : List α} {k i : Nat} (hne : pat ≠ []) :
    At (s.take k) pat i ↔ At s pat i ∧ i + pat.length ≤ k := by
  have hpos := List.length_pos_iff.2 hne
  refine ⟨fun h => ?_, fun h => ?_⟩
  · have hbound := h.bound
    rw [List.length_take] at hbound
    have hs := h.append (s.drop k)
    rw [List.take_append_drop] at hs
    exact ⟨hs, by omega⟩
  · obtain ⟨h, hk⟩ := h
    have hbound := h.bound
    rw [← List.take_append_drop k s] at h
    exact h.of_append (by rw [List.length_take]; omega)

/-- Behind the front part, occurrences are those of the back part. -/
theorem at_append_right {s t pat : List α} {i : Nat} :
    At (s ++ t) pat (s.length + i) ↔ At t pat i := by
  unfold At
  rw [List.drop_append, List.length_append, List.drop_eq_nil_of_le (by omega)]
  simp

/-- The element of an occurrence is the pattern's. -/
theorem At.getElem? {s pat : List α} {i j : Nat} (h : At s pat i) (hj : j < pat.length) :
    s[i + j]? = pat[j]? := by
  obtain ⟨u, v, rfl, rfl⟩ := at_iff_split.1 h
  rw [List.append_assoc, List.getElem?_append_right (by omega),
    List.getElem?_append_left (by omega), Nat.add_sub_cancel_left]

theorem at_drop {s pat : List α} {pos i : Nat} (hp : pos ≤ s.length) :
    At (s.drop pos) pat i ↔ At s pat (pos + i) := by
  simp only [At, List.length_drop, List.drop_drop]
  constructor <;> rintro ⟨h1, h2⟩ <;> exact ⟨by omega, h2⟩

section
variable {c : α} {p u v : List α}

theorem infix_append_cons_iff (hc : c ∉ p) : p <:+: u ++ c :: v ↔ p <:+: u ∨ p <:+: v := by
  rw [List.infix_append_iff, List.infix_cons_iff]
  constructor
  · rintro (h | (h | h) | ⟨p1, p2, rfl, h1, h2⟩)
    · exact .inl h
    · cases p with
      | nil => exact .inl List.nil_infix
      | cons x p => exact absurd (List.cons_prefix_cons.1 h).1 fun hx => hc (by simp [hx])
    · exact .inr h
    · cases p2 with
      | nil => exact .inl (by simpa using h1.isInfix)
      | cons x p2 => exact absurd (List.cons_prefix_cons.1 h2).1 fun hx => hc (by simp [hx])
  · rintro (h | h)
    · exact .inl h
    · exact .inr (.inl (.inr h))

theorem suffix_of_append_cons (hc : c ∉ p) (h : p <:+ u ++ c :: v) : p <:+ v := by
  rcases List.suffix_or_suffix_of_suffix h (List.suffix_append u (c :: v)) with h | h
  · rcases List.suffix_cons_iff.1 h with rfl | h
    · simp at hc
    · exact h
  · exact absurd (h.subset (by simp)) hc

end

variable [DecidableEq α]

instance (s pat : List α) (i : Nat) : Decidable (At s pat i) :=
  inferInstanceAs (Decidable (_ ∧ _))

/-! ## The first occurrence -/

/-- The first occurrence of `pat` in the rest of a list, whose first element has index `i`. -/
def findFrom (pat : List α) : List α → Nat → Option Nat
  | [], i => if pat.isEmpty then some i else none
  | x :: xs, i => if pat.isPrefixOf (x :: xs) then some i else findFrom pat xs (i + 1)

/-- The first occurrence of `pat` in `s` at or after `pos`. -/
def find (s pat : List α) (pos : Nat) : Option Nat :=
  if pos ≤ s.length then findFrom pat (s.drop pos) pos else none

theorem findFrom_spec (pat : List α) : ∀ (l : List α) (n : Nat),
    (∀ k, findFrom pat l n = some k →
      ∃ i, k = n + i ∧ At l pat i ∧ ∀ j < i, ¬ At l pat j) ∧
    (findFrom pat l n = none → ∀ j, ¬ At l pat j)
  | [], n => by
    simp only [findFrom]
    cases pat with
    | nil => exact ⟨fun k hk => ⟨0, by simpa using hk.symm, by simp [At], by simp⟩, by simp⟩
    | cons => simp [At]
  | x :: xs, n => by
    obtain ⟨ih1, ih2⟩ := findFrom_spec pat xs (n + 1)
    have hcons : ∀ j, At (x :: xs) pat (j + 1) ↔ At xs pat j := by
      intro j; simp [At]
    simp only [findFrom]
    by_cases hp : pat.isPrefixOf (x :: xs) = true
    · have h0 : At (x :: xs) pat 0 := ⟨by simp, by simpa using List.isPrefixOf_iff_prefix.1 hp⟩
      rw [if_pos hp]
      refine ⟨fun k hk => ⟨0, ?_, h0, by simp⟩, by simp⟩
      cases hk
      rfl
    · have h0 : ¬ At (x :: xs) pat 0 := fun h =>
        hp (List.isPrefixOf_iff_prefix.2 (by simpa using h.2))
      rw [if_neg hp]
      refine ⟨fun k hk => ?_, fun hn j => ?_⟩
      · obtain ⟨i, rfl, hi, hlt⟩ := ih1 k hk
        refine ⟨i + 1, by omega, (hcons i).2 hi, ?_⟩
        intro j hj
        cases j with
        | zero => exact h0
        | succ j => exact fun h => hlt j (by omega) ((hcons j).1 h)
      · cases j with
        | zero => exact h0
        | succ j => exact fun h => ih2 hn j ((hcons j).1 h)

theorem find_eq_some {s pat : List α} {pos i : Nat} :
    find s pat pos = some i ↔ pos ≤ i ∧ At s pat i ∧ ∀ j, pos ≤ j → j < i → ¬ At s pat j := by
  unfold find
  by_cases hp : pos ≤ s.length
  · rw [if_pos hp]
    obtain ⟨h1, h2⟩ := findFrom_spec pat (s.drop pos) pos
    refine ⟨fun h => ?_, fun ⟨hle, hat, hlt⟩ => ?_⟩
    · obtain ⟨k, rfl, hk, hlt⟩ := h1 i h
      refine ⟨by omega, (at_drop hp).1 hk, fun j hj hji hat => hlt (j - pos) (by omega) ?_⟩
      rw [at_drop hp, show pos + (j - pos) = j by omega]
      exact hat
    · have hat' : At (s.drop pos) pat (i - pos) := by
        rw [at_drop hp, show pos + (i - pos) = i by omega]
        exact hat
      cases hf : findFrom pat (s.drop pos) pos with
      | none => exact absurd hat' (h2 hf _)
      | some k =>
        obtain ⟨m, rfl, hm, hml⟩ := h1 k hf
        have : ¬ pos + m < i := fun h => hlt (pos + m) (by omega) h ((at_drop hp).1 hm)
        have : ¬ i - pos < m := fun h => hml (i - pos) h hat'
        congr 1
        omega
  · rw [if_neg hp]
    constructor
    · intro h; cases h
    · rintro ⟨hle, hat, -⟩
      exact absurd hat.1 (by omega)

theorem find_eq_none {s pat : List α} {pos : Nat} :
    find s pat pos = none ↔ ∀ j, pos ≤ j → ¬ At s pat j := by
  refine ⟨fun h => ?_, fun h => ?_⟩
  · unfold find at h
    intro j hj hat
    by_cases hp : pos ≤ s.length
    · rw [if_pos hp] at h
      apply (findFrom_spec pat (s.drop pos) pos).2 h (j - pos)
      rw [at_drop hp, show pos + (j - pos) = j by omega]
      exact hat
    · exact hp (Nat.le_trans hj hat.1)
  · cases hf : find s pat pos with
    | none => rfl
    | some i => exact absurd (find_eq_some.1 hf).2.1 (h i (find_eq_some.1 hf).1)

/-- Lists in which the pattern stands at the same places. -/
theorem find_congr {s s' pat : List α} (h : ∀ i, At s pat i ↔ At s' pat i) (pos : Nat) :
    find s pat pos = find s' pat pos := by
  cases hf : find s pat pos with
  | none =>
    refine (find_eq_none.2 fun j hj hat => ?_).symm
    exact find_eq_none.1 hf j hj ((h j).2 hat)
  | some i =>
    obtain ⟨hle, hat, hfirst⟩ := find_eq_some.1 hf
    refine (find_eq_some.2 ⟨hle, (h i).1 hat, fun j hj hlt hat' => ?_⟩).symm
    exact hfirst j hj hlt ((h j).2 hat')

theorem find_take_congr {s s' pat : List α} (h : ∀ i, At s pat i ↔ At s' pat i) (hne : pat ≠ [])
    (k pos : Nat) : find (s.take k) pat pos = find (s'.take k) pat pos := by
  refine find_congr (fun i => ?_) pos
  rw [at_take hne, at_take hne, h i]

/-- A pattern is found exactly if the list contains it. -/
theorem isSome_find_iff {s pat : List α} : (find s pat 0).isSome ↔ pat <:+: s := by
  constructor
  · intro h
    obtain ⟨i, hi⟩ := Option.isSome_iff_exists.1 h
    exact (find_eq_some.1 hi).2.1.isInfix
  · rintro ⟨u, v, rfl⟩
    cases hf : find (u ++ pat ++ v) pat 0 with
    | some i => rfl
    | none => exact absurd (at_iff_split.2 ⟨u, v, rfl, rfl⟩) (find_eq_none.1 hf _ (Nat.zero_le _))

theorem find_none_iff {s pat : List α} : find s pat 0 = none ↔ ¬ pat <:+: s := by
  rw [← isSome_find_iff, Option.not_isSome_iff_eq_none]

/-- A found index lies at or after `pos`, and the occurrence within the list. -/
theorem find_bound {s pat : List α} {pos i : Nat} (h : find s pat pos = some i) :
    pos ≤ i ∧ i + pat.length ≤ s.length :=
  ⟨(find_eq_some.1 h).1, (find_eq_some.1 h).2.1.bound⟩

/-! ## Extending the list -/

/-- The first occurrence stays the first when the list grows at its end. -/
theorem find_append {s pat : List α} {pos i : Nat} (h : find s pat pos = some i) (t : List α) :
    find (s ++ t) pat pos = some i := by
  obtain ⟨h1, h2, h3⟩ := find_eq_some.1 h
  refine find_eq_some.2 ⟨h1, h2.append t, fun j hj hji hat => h3 j hj hji (hat.of_append ?_)⟩
  have := h2.bound
  omega

/-- A prefix that is long enough has the first occurrence. -/
theorem find_take {s pat : List α} {pos i n : Nat} (h : find s pat pos = some i)
    (hne : pat ≠ []) (hn : i + pat.length ≤ n) : find (s.take n) pat pos = some i := by
  obtain ⟨h1, h2, h3⟩ := find_eq_some.1 h
  exact find_eq_some.2 ⟨h1, (at_take hne).2 ⟨h2, hn⟩,
    fun j hj hji hat => h3 j hj hji ((at_take hne).1 hat).1⟩

/-- A prefix too short for the first occurrence has none. -/
theorem find_take_none {s pat : List α} {pos i n : Nat} (h : find s pat pos = some i)
    (hn : n < i + pat.length) : find (s.take n) pat pos = none := by
  apply find_eq_none.2
  intro j hj hat
  have hb := hat.bound
  rw [List.length_take] at hb
  have hs := (List.take_append_drop n s) ▸ hat.append (s.drop n)
  exact (find_eq_some.1 h).2.2 j hj (by omega) hs

/-- A pattern that holds its last element only there does not overlap itself: put behind a list, it
is the first occurrence exactly if there was none. -/
theorem find_ended_iff {s p : List α} {c : α} (hc : c ∉ p) (t : List α) :
    find (s ++ (p ++ [c]) ++ t) (p ++ [c]) 0 = some s.length ↔ ¬ p ++ [c] <:+: s := by
  refine ⟨fun hfind ⟨u, v, huv⟩ => ?_, fun hno => ?_⟩
  · have hlen := congrArg List.length huv
    simp only [List.length_append, List.length_singleton] at hlen
    refine (find_eq_some.1 hfind).2.2 u.length (Nat.zero_le _) (by omega) ?_
    rw [← huv]
    exact at_iff_split.2 ⟨u, v ++ (p ++ [c]) ++ t, by simp, rfl⟩
  · refine find_eq_some.2 ⟨Nat.zero_le _, at_iff_split.2 ⟨s, t, rfl, rfl⟩, fun j _ hj hat => ?_⟩
    rw [List.append_assoc, List.append_assoc] at hat
    by_cases hin : j + (p ++ [c]).length ≤ s.length
    · exact hno (hat.of_append hin).isInfix
    · -- the occurrence would end within the pattern
      rw [List.length_append, List.length_singleton] at hin
      have hget := hat.getElem? (j := p.length) (by simp)
      rw [List.getElem?_concat_length, List.getElem?_append_right (by omega),
        List.getElem?_append_left (by omega)] at hget
      exact hc (List.mem_of_getElem? hget)

/-! ## Going on from a position -/

theorem find_drop {s pat : List α} {pos : Nat} (hp : pos ≤ s.length) :
    find s pat pos = (find (s.drop pos) pat 0).map (pos + ·) := by
  cases hf : find (s.drop pos) pat 0 with
  | none =>
    apply find_eq_none.2
    intro j hj hat
    apply find_eq_none.1 hf (j - pos) (Nat.zero_le _)
    rwa [at_drop hp, Nat.add_sub_cancel' hj]
  | some i =>
    obtain ⟨-, hat, hlt⟩ := find_eq_some.1 hf
    refine find_eq_some.2 ⟨Nat.le_add_right _ _, (at_drop hp).1 hat, ?_⟩
    intro j hj hji hat'
    have hji' : j < pos + i := hji
    apply hlt (j - pos) (Nat.zero_le _) (by omega)
    rwa [at_drop hp, Nat.add_sub_cancel' hj]

theorem find_append_add {u s pat : List α} {pos : Nat} (hp : pos ≤ s.length) :
    find (u ++ s) pat (u.length + pos) = (find s pat pos).map (u.length + ·) := by
  rw [find_drop (by rw [List.length_append]; omega), ← List.drop_drop, List.drop_left, find_drop hp,
    Option.map_map]
  refine congrArg (Option.map · _) ?_
  funext k
  exact Nat.add_assoc _ _ _

/-- Behind a front in which no occurrence begins, the first one is that of the rest. -/
theorem find_append_right {u v p : List α} (h : ∀ j < u.length, ¬ At (u ++ v) p j) :
    find (u ++ v) p 0 = (find v p 0).map (u.length + ·) := by
  have hbehind {j : Nat} (hat : At (u ++ v) p j) : ∃ k, j = u.length + k ∧ At v p k := by
    obtain ⟨k, rfl⟩ := Nat.exists_eq_add_of_le (Nat.not_lt.1 fun hlt => h j hlt hat)
    exact ⟨k, rfl, at_append_right.1 hat⟩
  cases hf : find v p 0 with
  | none =>
    refine find_eq_none.2 fun j _ hat => ?_
    obtain ⟨k, -, hk⟩ := hbehind hat
    exact find_eq_none.1 hf k (Nat.zero_le _) hk
  | some i =>
    obtain ⟨-, hat, hfirst⟩ := find_eq_some.1 hf
    refine find_eq_some.2 ⟨Nat.zero_le _, at_append_right.2 hat, fun j _ hj hat' => ?_⟩
    obtain ⟨k, rfl, hk⟩ := hbehind hat'
    exact hfirst k (Nat.zero_le _) (Nat.lt_of_add_lt_add_left hj) hk

/-- An occurrence begins with the pattern's first element. -/
theorem find_behind {u v p : List α} {x : α} (hx : x ∉ u) :
    find (u ++ v) (x :: p) 0 = (find v (x :: p) 0).map (u.length + ·) := by
  refine find_append_right fun j hj hat => ?_
  have hget := hat.getElem? (j := 0) (by simp)
  rw [Nat.add_zero, List.getElem?_append_left hj] at hget
  exact hx (List.mem_of_getElem? hget)

/-- An occurrence does not reach over an element that the pattern lacks. -/
theorem find_separated {u v p : List α} {c : α} (hc : c ∉ p) (hno : ¬ p <:+: u) :
    find (u ++ [c] ++ v) p 0 = (find v p 0).map ((u ++ [c]).length + ·) := by
  refine find_append_right fun j hj hat => ?_
  rw [List.length_append, List.length_singleton] at hj
  rw [List.append_assoc] at hat
  by_cases hin : j + p.length ≤ u.length
  · exact hno (hat.of_append hin).isInfix
  · have hget := hat.getElem? (j := u.length - j) (by omega)
    rw [Nat.add_sub_cancel' (by omega), List.getElem?_append_right (Nat.le_refl _),
      Nat.sub_self] at hget
    exact hc (List.mem_of_getElem? hget.symm)

/-- A pattern put behind such an element is the first occurrence if there was none. -/
theorem find_put {s pat : List α} {c : α} (hs : s.getLast? = some c) (hc : c ∉ pat)
    (hno : ¬ pat <:+: s) (t : List α) : find (s ++ pat ++ t) pat 0 = some s.length := by
  obtain ⟨front, rfl⟩ := List.getLast?_eq_some_iff.1 hs
  have hfront : ¬ pat <:+: front := fun h => hno (h.trans (List.prefix_append _ _).isInfix)
  have hat : find (pat ++ t) pat 0 = some 0 :=
    find_eq_some.2 ⟨Nat.le_refl 0, at_iff_split.2 ⟨[], t, rfl, rfl⟩, by simp⟩
  rw [List.append_assoc _ pat, find_separated hc hfront, hat]
  rfl

/-! ## Separators -/

/-- What stands behind the first `c`. -/
def behind (c : α) (s : List α) : List α := (s.dropWhile (· ≠ c)).drop 1

section
variable {c : α} {u v : List α}

theorem ne_of_notMem (hu : c ∉ u) : ∀ a ∈ u, decide (a ≠ c) = true := by
  intro a ha
  rw [decide_eq_true_eq]
  rintro rfl
  exact hu ha

theorem takeWhile_append_cons (hu : c ∉ u) : (u ++ c :: v).takeWhile (· ≠ c) = u := by
  rw [List.takeWhile_append_of_pos (ne_of_notMem hu)]
  simp

/-- The field in front of the first separator does not depend on what stands behind one. -/
theorem takeWhile_append_sep (c : α) (u v : List α) :
    (u ++ c :: v).takeWhile (· ≠ c) = u.takeWhile (· ≠ c) := by
  rw [List.takeWhile_append]
  split
  · rename_i hall
    rw [(List.takeWhile_prefix _).eq_of_length hall]
    simp
  · rfl

theorem takeWhile_of_notMem (hu : c ∉ u) : u.takeWhile (· ≠ c) = u :=
  List.takeWhile_eq_self_iff.2 (ne_of_notMem hu)

/-- A part is what stands in front of the first `c` exactly if it has none and one follows, or
nothing does. -/
theorem takeWhile_append_eq_iff :
    (u ++ v).takeWhile (· ≠ c) = u ↔ c ∉ u ∧ ∀ a ∈ v.head?, a = c := by
  induction u with
  | nil =>
    cases v with
    | nil => simp
    | cons a v =>
      by_cases ha : a = c <;> simp [ha]
  | cons a u ih =>
    rw [List.cons_append]
    by_cases ha : a = c
    · simp [ha]
    · rw [List.takeWhile_cons_of_pos (by simpa using ha), List.cons_inj_right, ih, List.mem_cons,
        not_or, and_assoc, and_iff_right (Ne.symm ha)]

theorem behind_append_cons (hu : c ∉ u) : behind c (u ++ c :: v) = v := by
  rw [behind, List.dropWhile_append_of_pos (ne_of_notMem hu)]
  simp

theorem behind_of_notMem (hu : c ∉ u) : behind c u = [] := by
  rw [behind, List.dropWhile_eq_nil_iff.2 (ne_of_notMem hu), List.drop_nil]

theorem behind_length (h : u ≠ []) : (behind c u).length < u.length := by
  have hle := (List.dropWhile_suffix (l := u) fun a => decide (a ≠ c)).length_le
  have hpos := List.length_pos_iff.2 h
  rw [behind, List.length_drop]
  omega

theorem notMem_takeWhile (c : α) (u : List α) : c ∉ u.takeWhile (· ≠ c) := by
  intro hc
  simpa using List.mem_takeWhile_imp hc

/-- A list with the separator is cut at the first one. -/
theorem eq_append_behind (hc : c ∈ u) : u = u.takeWhile (· ≠ c) ++ c :: behind c u := by
  obtain ⟨u1, u2, rfl, hu1⟩ := List.eq_append_cons_of_mem hc
  rw [takeWhile_append_cons hu1, behind_append_cons hu1]

end

/-- The first occurrence of an element cuts the list in front of it and behind it. -/
theorem find_singleton_some {s : List α} {c : α} {i : Nat} (h : find s [c] 0 = some i) :
    s.take i = s.takeWhile (· ≠ c) ∧ s.drop (i + 1) = behind c s := by
  obtain ⟨-, hat, hlt⟩ := find_eq_some.1 h
  obtain ⟨u, v, rfl, rfl⟩ := at_iff_split.1 hat
  have hu : c ∉ u := by
    intro hc
    obtain ⟨u1, u2, rfl⟩ := List.append_of_mem hc
    apply hlt u1.length (Nat.zero_le _) (by simp)
    exact at_iff_split.2 ⟨u1, u2 ++ [c] ++ v, by simp, rfl⟩
  rw [List.append_assoc, List.singleton_append, takeWhile_append_cons hu, behind_append_cons hu,
    List.take_left, ← List.drop_drop, List.drop_left]
  exact ⟨rfl, rfl⟩

theorem find_append_cons {u v : List α} {c : α} (hu : c ∉ u) :
    find (u ++ c :: v) [c] 0 = some u.length := by
  refine find_eq_some.2 ⟨Nat.zero_le _, at_iff_split.2 ⟨u, v, by simp, rfl⟩, fun j _ hj hat => ?_⟩
  have hget := hat.getElem? (j := 0) (by simp)
  rw [Nat.add_zero, List.getElem?_append_left hj] at hget
  exact hu (List.mem_of_getElem? hget)

theorem find_singleton_none {s : List α} {c : α} (h : find s [c] 0 = none) : c ∉ s := by
  intro hc
  obtain ⟨u, v, rfl⟩ := List.append_of_mem hc
  exact find_eq_none.1 h u.length (Nat.zero_le _) (at_iff_split.2 ⟨u, v, by simp, rfl⟩)

/-- A field in front of a separator begins a list with a separator exactly if it is the field in
front of the first one there. -/
theorem field_prefix_iff {c : α} {u v s t : List α} (hu : c ∉ u) :
    u ++ c :: s <+: v ++ c :: t ↔
      v = u ∧ s <+: t ∨ ∃ w, v = u ++ c :: w ∧ s <+: w ++ c :: t := by
  constructor
  · rintro ⟨r, hr⟩
    have hfield := congrArg (List.takeWhile (· ≠ c)) hr
    have hrest := congrArg (behind c) hr
    rw [List.append_assoc, List.cons_append, takeWhile_append_cons hu] at hfield
    rw [List.append_assoc, List.cons_append, behind_append_cons hu] at hrest
    by_cases hv : c ∈ v
    · have hcut := eq_append_behind hv
      rw [hcut, List.append_assoc, List.cons_append,
        takeWhile_append_cons (notMem_takeWhile c v)] at hfield
      rw [hcut, List.append_assoc, List.cons_append,
        behind_append_cons (notMem_takeWhile c v)] at hrest
      exact .inr ⟨behind c v, by rw [hfield]; exact hcut, r, hrest⟩
    · rw [takeWhile_append_cons hv] at hfield
      rw [behind_append_cons hv] at hrest
      exact .inl ⟨hfield.symm, r, hrest⟩
  · rintro (⟨rfl, r, rfl⟩ | ⟨w, rfl, r, hr⟩)
    · exact ⟨r, by simp⟩
    · exact ⟨r, by rw [List.append_assoc, List.cons_append, hr]; simp⟩

/-- A pattern that ends with the separator stands at the first one or behind it. -/
theorem ended_infix_iff {c : α} {p u v : List α} (hp : c ∉ p) (hu : c ∉ u) :
    p ++ [c] <:+: u ++ c :: v ↔ p <:+ u ∨ p ++ [c] <:+: v := by
  constructor
  · intro h
    obtain ⟨x, y, hxy⟩ := h
    have hcut : x ++ p ++ c :: y = u ++ c :: v := by rw [← hxy]; simp
    by_cases hx : c ∈ x
    · have hx' := eq_append_behind hx
      have hrest := congrArg (behind c) hcut
      rw [hx', behind_append_cons hu, List.append_assoc, List.append_assoc, List.cons_append,
        behind_append_cons (notMem_takeWhile c x)] at hrest
      exact .inr ⟨behind c x, y, by rw [← hrest]; simp⟩
    · have hfield := congrArg (List.takeWhile (· ≠ c)) hcut
      have hxp : c ∉ x ++ p := by simp [hx, hp]
      rw [takeWhile_append_cons hxp, takeWhile_append_cons hu] at hfield
      exact .inl ⟨x, hfield⟩
  · rintro (⟨x, rfl⟩ | ⟨x, y, rfl⟩)
    · exact ⟨x, v, by simp⟩
    · exact ⟨u ++ c :: x, y, by simp⟩

end Search
