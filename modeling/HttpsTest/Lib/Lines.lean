import HttpsTest.Lib.Search

/-!
# Lines

Texts whose lines end with a line end of two different elements `a` and `b`. A line may hold both,
but not the line end (`Unbroken`). `split` cuts a text at its line ends. `find_line` and
`find_block` say where the first line and the first block of such a text end, a block being ended
by an empty line; `split_join` that the lines are recovered.
-/

set_option autoImplicit false

namespace Lines

open Search

variable {α : Type*}

/-- The list does not contain the line end. -/
def Unbroken (a b : α) (l : List α) : Prop := ¬ [a, b] <:+: l

/-- The lines with line ends between them. -/
def join (a b : α) (lines : List (List α)) : List α := [a, b].intercalate lines

/-- An element put in front of the first line. -/
def push (x : α) : List (List α) → List (List α)
  | [] => [[x]]
  | l :: ls => (x :: l) :: ls

/-- The lines of a text. -/
def split [DecidableEq α] (a b : α) : List α → List (List α)
  | [] => [[]]
  | [x] => [[x]]
  | x :: y :: t => if x = a ∧ y = b then [] :: split a b t else push x (split a b (y :: t))

variable {a b : α} {l : List α}

/-! ## Unbroken lists -/

theorem unbroken_of_notMem (h : a ∉ l ∨ b ∉ l) : Unbroken a b l := by
  intro hc
  rcases h with h | h
  · exact h (hc.subset (by simp))
  · exact h (hc.subset (by simp))

theorem unbroken_of_length (h : l.length < 2) : Unbroken a b l := fun hc =>
  absurd hc.length_le (by simpa using h)

theorem Unbroken.mono {m : List α} (h : Unbroken a b l) (hm : m <:+: l) : Unbroken a b m :=
  fun hc => h (hc.trans hm)

theorem unbroken_cons_cons {x y : α} {t : List α} :
    Unbroken a b (x :: y :: t) ↔ ¬ (x = a ∧ y = b) ∧ Unbroken a b (y :: t) := by
  unfold Unbroken
  rw [List.infix_cons_iff, not_or, List.cons_prefix_cons, List.cons_prefix_cons]
  simp [eq_comm]

theorem Unbroken.cons (h : Unbroken a b l) {x : α} (hx : x ≠ a) : Unbroken a b (x :: l) := by
  cases l with
  | nil => exact unbroken_of_notMem (.inl (by simpa using hx.symm))
  | cons y t => exact unbroken_cons_cons.2 ⟨fun hc => hx hc.1, h⟩

/-- A front without the first element of the line end breaks nothing. -/
theorem Unbroken.append (h : Unbroken a b l) {u : List α} (hu : a ∉ u) : Unbroken a b (u ++ l) := by
  induction u with
  | nil => exact h
  | cons x u ih =>
    rw [List.mem_cons, not_or] at hu
    exact (ih hu.2).cons (Ne.symm hu.1)

/-- So does a back without its second element. -/
theorem Unbroken.append_right (h : Unbroken a b l) {t : List α} (ht : b ∉ t) :
    Unbroken a b (l ++ t) := by
  induction l with
  | nil => exact unbroken_of_notMem (.inr ht)
  | cons x l ih =>
    cases l with
    | nil =>
      cases t with
      | nil => exact h
      | cons y t =>
        refine unbroken_cons_cons.2 ⟨fun hc => ht (by simp [hc.2]), ?_⟩
        exact unbroken_of_notMem (.inr ht)
    | cons y l =>
      obtain ⟨hxy, hl⟩ := unbroken_cons_cons.1 h
      exact unbroken_cons_cons.2 ⟨hxy, ih hl⟩

/-- Where a line end can stand in an unbroken list that a line end follows. -/
theorem Unbroken.at_append (hab : a ≠ b) (h : Unbroken a b l) {t : List α} {i : Nat}
    (hat : At (l ++ [a, b] ++ t) [a, b] i) : i = l.length ∨ l.length + 2 ≤ i := by
  by_contra hc
  rw [not_or] at hc
  have hget0 := hat.getElem? (j := 0) (by simp)
  have hget1 := hat.getElem? (j := 1) (by simp)
  rw [List.append_assoc] at hat hget0 hget1
  by_cases hlt : i + 2 ≤ l.length
  · exact h (hat.of_append hlt).isInfix
  · -- one element of it lies in the list and the other behind it, or both behind it
    obtain hi | hi : i + 1 = l.length ∨ i = l.length + 1 := by omega
    · rw [List.getElem?_append_right (by omega), show i + 1 - l.length = 0 by omega] at hget1
      simp only [List.cons_append, List.getElem?_cons_zero, List.getElem?_cons_succ,
        Option.some.injEq] at hget1
      exact hab hget1
    · rw [List.getElem?_append_right (by omega), show i + 0 - l.length = 1 by omega] at hget0
      simp only [List.cons_append, List.getElem?_cons_zero, List.getElem?_cons_succ,
        Option.some.injEq] at hget0
      exact hab hget0.symm

/-- No line end begins in an unbroken list in front of another element. -/
theorem Unbroken.not_at (h : Unbroken a b l) {x : α} (ha : x ≠ a) (hb : x ≠ b) {t : List α}
    {i : Nat} (hi : i ≤ l.length) : ¬ At (l ++ x :: t) [a, b] i := by
  intro hat
  have hx : (l ++ x :: t)[l.length]? = some x := by simp
  have hget0 := hat.getElem? (j := 0) (by simp)
  have hget1 := hat.getElem? (j := 1) (by simp)
  obtain hin | hlast | hout : i + 2 ≤ l.length ∨ i + 1 = l.length ∨ i + 0 = l.length := by omega
  · exact h (hat.of_append hin).isInfix
  · rw [hlast, hx] at hget1
    exact hb (Option.some.inj hget1)
  · rw [hout, hx] at hget0
    exact ha (Option.some.inj hget0)

/-! ## The first line and the first block -/

theorem join_cons_cons (l m : List α) (ms : List (List α)) :
    join a b (l :: m :: ms) = l ++ [a, b] ++ join a b (m :: ms) := List.intercalate_cons_cons

theorem join_push (x : α) {ls : List (List α)} (h : ls ≠ []) :
    join a b (push x ls) = x :: join a b ls := by
  cases ls with
  | nil => exact absurd rfl h
  | cons l ls =>
    cases ls with
    | nil => simp [push, join, List.intercalate_singleton]
    | cons m ms => simp [push, join_cons_cons]

/-- A text begins with its first line. -/
theorem join_append (l : List α) (ls : List (List α)) (t : List α) :
    ∃ t', join a b (l :: ls) ++ [a, b] ++ t = l ++ [a, b] ++ t' := by
  cases ls with
  | nil => exact ⟨t, by rw [join, List.intercalate_singleton]⟩
  | cons m ms => exact ⟨join a b (m :: ms) ++ [a, b] ++ t, by simp [join_cons_cons]⟩

theorem join_prefix (l : List α) (ls : List (List α)) : l <+: join a b (l :: ls) := by
  cases ls with
  | nil => rw [join, List.intercalate_singleton]
  | cons m ms => exact ⟨[a, b] ++ join a b (m :: ms), by rw [join_cons_cons, List.append_assoc]⟩

theorem join_append_cons (front : List (List α)) (l : List α) (back : List (List α)) :
    join a b (front ++ l :: back) = front.flatMap (· ++ [a, b]) ++ join a b (l :: back) := by
  induction front with
  | nil => rfl
  | cons m front ih =>
    cases front with
    | nil => simp [join_cons_cons]
    | cons n front =>
      rw [List.cons_append, List.cons_append, join_cons_cons, ← List.cons_append, ih]
      simp

/-- Lines between which line ends stand, and lines behind which they stand. -/
theorem join_end (l : List α) (ls : List (List α)) :
    join a b (l :: ls) ++ [a, b] = (l :: ls).flatMap (· ++ [a, b]) := by
  induction ls generalizing l with
  | nil => simp [join, List.intercalate_singleton]
  | cons m ms ih =>
    rw [join_cons_cons, List.append_assoc, ih m]
    simp

/-- An empty line between others. -/
theorem emptyLine_infix {front : List (List α)} (h : [] ∈ front) (l last : List α) :
    [a, b, a, b] <:+: join a b (l :: (front ++ [last])) := by
  obtain ⟨f1, f2, rfl⟩ := List.append_of_mem h
  obtain ⟨m, ms, hms⟩ : ∃ m ms, f2 ++ [last] = m :: ms := List.exists_cons_of_ne_nil (by simp)
  have hjoin : join a b (l :: (f1 ++ [] :: f2 ++ [last])) =
      join a b (l :: f1) ++ [a, b] ++ ([] ++ [a, b] ++ join a b (m :: ms)) := by
    rw [List.append_assoc, List.cons_append, hms, ← List.cons_append, join_append_cons, ← join_end,
      join_cons_cons]
  rw [hjoin]
  exact ⟨join a b (l :: f1), join a b (m :: ms), by simp⟩

/-- A pattern without elements of the line end lies within a line. -/
theorem at_line {pat : List α} (ha : a ∉ pat) (hb : b ∉ pat) (hne : pat ≠ []) {t : List α}
    (ht : ∀ i, ¬ At t pat i) {ls : List (List α)} {i : Nat}
    (hat : At (ls.flatMap (· ++ [a, b]) ++ t) pat i) :
    ∃ front x y back, ls = front ++ (x ++ pat ++ y) :: back ∧
      i = (front.flatMap (· ++ [a, b]) ++ x).length := by
  induction ls generalizing i with
  | nil => exact absurd hat (ht i)
  | cons l ls ih =>
    have hpos : 0 < pat.length := List.length_pos_iff.2 hne
    have hassoc : (l :: ls).flatMap (· ++ [a, b]) ++ t =
        l ++ ([a, b] ++ (ls.flatMap (· ++ [a, b]) ++ t)) := by simp
    by_cases hin : i + pat.length ≤ l.length
    · rw [hassoc] at hat
      obtain ⟨x, y, hl, hx⟩ := at_iff_split.1 (hat.of_append hin)
      exact ⟨[], x, y, ls, by rw [hl]; rfl, by simp [hx]⟩
    · by_cases hout : l.length + 2 ≤ i
      · obtain ⟨k, rfl⟩ : ∃ k, i = (l ++ [a, b]).length + k :=
          ⟨i - (l.length + 2), by simp; omega⟩
        rw [hassoc, ← List.append_assoc, at_append_right] at hat
        obtain ⟨front, x, y, back, rfl, rfl⟩ := ih hat
        exact ⟨l :: front, x, y, back, rfl, by simp; omega⟩
      · -- the occurrence holds one of the elements of the line end
        have hget (j : Nat) (hj : j < pat.length) (hlj : l.length ≤ i + j) :
            ([a, b] ++ (ls.flatMap (· ++ [a, b]) ++ t))[i + j - l.length]? = pat[j]? := by
          rw [← hat.getElem? hj, hassoc, List.getElem?_append_right hlj]
        by_cases hle : i ≤ l.length
        · have h0 := hget (l.length - i) (by omega) (by omega)
          rw [show i + (l.length - i) - l.length = 0 by omega] at h0
          exact absurd (List.mem_of_getElem? h0.symm) ha
        · have h1 := hget 0 hpos (by omega)
          rw [show i + 0 - l.length = 1 by omega] at h1
          exact absurd (List.mem_of_getElem? h1.symm) hb

/-- Where such a pattern can stand in a text of lines, and in what follows it. -/
theorem infix_lines_iff {pat : List α} (ha : a ∉ pat) (hb : b ∉ pat) (hne : pat ≠ []) {t : List α}
    {ls : List (List α)} :
    pat <:+: ls.flatMap (· ++ [a, b]) ++ t ↔ (∃ l ∈ ls, pat <:+: l) ∨ pat <:+: t := by
  constructor
  · rintro ⟨u, v, huv⟩
    by_cases ht : pat <:+: t
    · exact .inr ht
    · have hno (i : Nat) : ¬ At t pat i := fun hat => ht hat.isInfix
      obtain ⟨front, x, y, back, rfl, -⟩ :=
        at_line ha hb hne hno (at_iff_split.2 ⟨u, v, huv.symm, rfl⟩)
      exact .inl ⟨x ++ pat ++ y, by simp, x, y, rfl⟩
  · rintro (⟨l, hl, hpat⟩ | hpat)
    · obtain ⟨front, back, rfl⟩ := List.append_of_mem hl
      refine hpat.trans ⟨front.flatMap (· ++ [a, b]), [a, b] ++ back.flatMap (· ++ [a, b]) ++ t, ?_⟩
      simp
    · exact hpat.trans (List.suffix_append _ _).isInfix

/-- An empty line begins and ends with a line end. -/
theorem at_emptyLine {s : List α} {i : Nat} (h : At s [a, b, a, b] i) :
    At s [a, b] i ∧ At s [a, b] (i + 2) := by
  obtain ⟨u, v, rfl, rfl⟩ := at_iff_split.1 h
  exact ⟨at_iff_split.2 ⟨u, [a, b] ++ v, by simp, rfl⟩,
    at_iff_split.2 ⟨u ++ [a, b], v, by simp, by simp⟩⟩

variable [DecidableEq α]

theorem find_line (hab : a ≠ b) (h : Unbroken a b l) (t : List α) :
    find (l ++ [a, b] ++ t) [a, b] 0 = some l.length := by
  refine find_eq_some.2 ⟨Nat.zero_le _, at_iff_split.2 ⟨l, t, rfl, rfl⟩, ?_⟩
  intro j _ hj hat
  rcases h.at_append hab hat with hj' | hj' <;> omega

/-- **The end of a block**: of lines that are unbroken and, behind the first, not empty. -/
theorem find_block (hab : a ≠ b) {ls : List (List α)} (h : ∀ m ∈ l :: ls, Unbroken a b m)
    (hne : [] ∉ ls) (t : List α) :
    find (join a b (l :: ls) ++ [a, b, a, b] ++ t) [a, b, a, b] 0 =
      some (join a b (l :: ls)).length := by
  refine find_eq_some.2 ⟨Nat.zero_le _, at_iff_split.2 ⟨_, t, rfl, rfl⟩, ?_⟩
  rintro j - hj hat
  -- the occurrence begins with a line end, so in front of a line
  induction ls generalizing l j with
  | nil =>
    rw [join, List.intercalate_singleton] at hj hat
    have hfirst := (at_emptyLine hat).1
    rw [show l ++ [a, b, a, b] ++ t = l ++ [a, b] ++ ([a, b] ++ t) by simp] at hfirst
    rcases (h l (by simp)).at_append hab hfirst with hj' | hj' <;> omega
  | cons m ms ih =>
    have hback : (l ++ [a, b]).length = l.length + 2 := by simp
    rw [join_cons_cons, List.length_append, hback] at hj
    rw [show join a b (l :: m :: ms) ++ [a, b, a, b] ++ t =
      l ++ [a, b] ++ (join a b (m :: ms) ++ [a, b, a, b] ++ t) by simp [join_cons_cons]] at hat
    obtain ⟨hfirst, hsecond⟩ := at_emptyLine hat
    rcases (h l (by simp)).at_append hab hfirst with rfl | hj'
    · -- the next line would be empty
      obtain ⟨t', ht'⟩ := join_append (a := a) (b := b) m ms ([a, b] ++ t)
      rw [← hback, ← Nat.add_zero (l ++ [a, b]).length, at_append_right,
        show join a b (m :: ms) ++ [a, b, a, b] ++ t = m ++ [a, b] ++ t' by
          rw [← ht']; simp] at hsecond
      have hm : 0 < m.length := List.length_pos_iff.2 fun hm => hne (by simp [hm])
      rcases (h m (by simp)).at_append hab hsecond with hm' | hm' <;> omega
    · obtain ⟨k, rfl⟩ : ∃ k, j = (l ++ [a, b]).length + k := ⟨j - (l.length + 2), by omega⟩
      rw [at_append_right] at hat
      exact ih (fun m' hm' => h m' (List.mem_cons_of_mem _ hm'))
        (fun hm => hne (List.mem_cons_of_mem _ hm)) k (by omega) hat

/-! ## Splitting -/

theorem split_unbroken (h : Unbroken a b l) : split a b l = [l] := by
  induction l with
  | nil => rfl
  | cons x t ih =>
    cases t with
    | nil => rfl
    | cons y t =>
      obtain ⟨hxy, ht⟩ := unbroken_cons_cons.1 h
      rw [split, if_neg hxy, ih ht, push]

theorem split_append (hab : a ≠ b) (h : Unbroken a b l) (t : List α) :
    split a b (l ++ [a, b] ++ t) = l :: split a b t := by
  induction l with
  | nil => simp [split]
  | cons x l ih =>
    cases l with
    | nil =>
      have hx : ¬ (x = a ∧ a = b) := fun hc => hab hc.2
      have hend := ih (unbroken_of_notMem (by simp))
      simp only [List.nil_append, List.cons_append] at hend ⊢
      rw [split, if_neg hx, hend, push]
    | cons y l =>
      obtain ⟨hxy, hl⟩ := unbroken_cons_cons.1 h
      have hrest := ih hl
      simp only [List.cons_append] at hrest ⊢
      rw [split, if_neg hxy, hrest, push]

theorem split_ne_nil (s : List α) : split a b s ≠ [] := by
  fun_cases split a b s with
  | case1 | case2 | case3 => simp
  | case4 x y t hxy =>
    cases split a b (y :: t) with
    | nil => simp [push]
    | cons l ls => simp [push]

/-- The text is recovered. -/
theorem join_split (s : List α) : join a b (split a b s) = s := by
  fun_induction split a b s with
  | case1 => simp [join, List.intercalate_singleton]
  | case2 x => simp [join, List.intercalate_singleton]
  | case3 x y t hxy ih =>
    obtain ⟨l, ls, hls⟩ := List.exists_cons_of_ne_nil (split_ne_nil (a := a) (b := b) t)
    rw [hls, join_cons_cons, ← hls, ih, hxy.1, hxy.2]
    rfl
  | case4 x y t hxy ih => rw [join_push x (split_ne_nil _), ih]

theorem unbroken_split (s : List α) : ∀ m ∈ split a b s, Unbroken a b m := by
  fun_induction split a b s with
  | case1 | case2 => simp [unbroken_of_length]
  | case3 x y t hxy ih =>
    intro m hm
    rcases List.mem_cons.1 hm with rfl | hm
    · exact unbroken_of_length (by simp)
    · exact ih m hm
  | case4 x y t hxy ih =>
    have hjoin := join_split (a := a) (b := b) (y :: t)
    intro m hm
    cases hls : split a b (y :: t) with
    | nil => exact absurd hls (split_ne_nil _)
    | cons l ls =>
      rw [hls] at ih hm hjoin
      rcases List.mem_cons.1 hm with rfl | hm
      · -- the first line begins with `y`, if with anything
        cases l with
        | nil => exact unbroken_of_length (by simp)
        | cons z l =>
          have hhead : z = y := by
            have hpush := join_push (a := a) (b := b) z (List.cons_ne_nil l ls)
            rw [push, hjoin] at hpush
            exact (List.cons.inj hpush).1.symm
          exact unbroken_cons_cons.2 ⟨hhead ▸ hxy, ih _ List.mem_cons_self⟩
      · exact ih m (List.mem_cons_of_mem _ hm)

/-- **The lines are recovered.** -/
theorem split_join (hab : a ≠ b) {ls : List (List α)} (h : ∀ m ∈ l :: ls, Unbroken a b m) :
    split a b (join a b (l :: ls)) = l :: ls := by
  induction ls generalizing l with
  | nil => rw [join, List.intercalate_singleton, split_unbroken (h l (by simp))]
  | cons m ms ih =>
    rw [join_cons_cons, split_append hab (h l (by simp)),
      ih fun m' hm' => h m' (List.mem_cons_of_mem _ hm')]

/-- **The block a text begins with**, in front of the first empty line. -/
theorem block_of_find {s : List α} {i : Nat} (h : find s [a, b, a, b] 0 = some i) :
    ∃ l ls, (∀ m ∈ l :: ls, Unbroken a b m) ∧ [] ∉ ls ∧ (join a b (l :: ls)).length = i ∧
      s = join a b (l :: ls) ++ [a, b, a, b] ++ s.drop (i + 4) := by
  obtain ⟨-, hat, hfirst⟩ := find_eq_some.1 h
  obtain ⟨u, v, rfl, rfl⟩ := at_iff_split.1 hat
  have hdrop : (u ++ [a, b, a, b] ++ v).drop (u.length + 4) = v := by simp
  obtain ⟨l, ls, hls⟩ := List.exists_cons_of_ne_nil (split_ne_nil (a := a) (b := b) u)
  have hjoin : join a b (l :: ls) = u := by rw [← hls, join_split]
  refine ⟨l, ls, ?_, ?_, by rw [hjoin], by rw [hjoin, hdrop]⟩
  · rw [← hls]
    exact unbroken_split u
  · -- an empty line within the block would be found in front of its end
    intro hempty
    obtain ⟨front, back, rfl⟩ := List.append_of_mem hempty
    have hlines : u ++ [a, b] = l ++ [a, b] ++ front.flatMap (· ++ [a, b]) ++ [a, b] ++
        back.flatMap (· ++ [a, b]) := by
      rw [← hjoin, join_end]
      simp
    obtain ⟨w, hw⟩ : ∃ w, l ++ [a, b] ++ front.flatMap (· ++ [a, b]) = w ++ [a, b] := by
      rw [← List.flatMap_cons (f := (· ++ [a, b]))]
      exact ⟨join a b (l :: front), (join_end l front).symm⟩
    have hlen := congrArg List.length hlines
    simp only [hw, List.length_append, List.length_cons, List.length_nil] at hlen
    apply hfirst w.length (Nat.zero_le _) (by omega)
    refine at_iff_split.2 ⟨w, back.flatMap (· ++ [a, b]) ++ [a, b] ++ v, ?_, rfl⟩
    calc u ++ [a, b, a, b] ++ v = u ++ [a, b] ++ ([a, b] ++ v) := by simp
      _ = w ++ [a, b, a, b] ++ (back.flatMap (· ++ [a, b]) ++ [a, b] ++ v) := by
        rw [hlines, hw]
        simp

end Lines
