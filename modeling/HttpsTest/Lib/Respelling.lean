import Mathlib.Data.List.Forall2
import HttpsTest.Lib.Lines

/-!
# Names that are spelled differently

Texts of lines in which names stand, each between a line end `a b` and a separator `c`.
`Respelled a b c N s t`: the texts agree apart from such names, which are related by `N`. A pattern
without elements of the line end stands at the same places of both where no name makes or breaks it
(`Keeps`, `Respelled.split`), and what stands behind it up to the next line end is the same
(`Respelled.take_behind`). The lines of both differ in names only (`Respelled.lines`).
-/

set_option autoImplicit false

namespace Respelling

open Search

variable {α : Type*} {a b c : α} {N M : List α → List α → Prop}

/-- The texts agree apart from names, which are related by `N`. -/
inductive Respelled (a b c : α) (N : List α → List α → Prop) : List α → List α → Prop
  | same (s : List α) : Respelled a b c N s s
  | name (u : List α) {n n' t t' : List α} (hn : N n n') (ht : Respelled a b c N t t') :
      Respelled a b c N (u ++ a :: b :: (n ++ c :: t)) (u ++ a :: b :: (n' ++ c :: t'))

variable {s s' t t' u v p : List α}

/-! ## The relation -/

theorem Respelled.mono (h : Respelled a b c N s s') (hN : ∀ n n', N n n' → M n n') :
    Respelled a b c M s s' := by
  induction h with
  | same s => exact .same s
  | name u hn _ ih => exact .name u (hN _ _ hn) ih

theorem Respelled.symm (h : Respelled a b c N s s') (hN : ∀ n n', N n n' → N n' n) :
    Respelled a b c N s' s := by
  induction h with
  | same s => exact .same s
  | name u hn _ ih => exact .name u (hN _ _ hn) ih

theorem Respelled.prepend (h : Respelled a b c N s s') (x : List α) :
    Respelled a b c N (x ++ s) (x ++ s') := by
  cases h with
  | same => exact .same _
  | name u hn ht =>
    rw [← List.append_assoc, ← List.append_assoc]
    exact .name (x ++ u) hn ht

theorem Respelled.append (h : Respelled a b c N s s') (ht : Respelled a b c N t t') :
    Respelled a b c N (s ++ t) (s' ++ t') := by
  induction h with
  | same s => exact ht.prepend s
  | name u hn _ ih =>
    simp only [List.append_assoc, List.cons_append]
    exact .name u hn ih

/-- A map that does not tell the names apart. -/
theorem Respelled.map_eq {β : Type*} {f : α → β} (hN : ∀ n n', N n n' → n.map f = n'.map f)
    (h : Respelled a b c N s s') : s.map f = s'.map f := by
  induction h with
  | same => rfl
  | name u hn _ ih => simp only [List.map_append, List.map_cons, hN _ _ hn, ih]

/-- What stands in front of the first line end. -/
theorem Respelled.take_eq (h : Respelled a b c N s s') {m : Nat}
    (hm : ∀ j < m, ¬ At s [a, b] j) : s.take m = s'.take m := by
  cases h with
  | same => rfl
  | name u hn ht =>
    have hle : m ≤ u.length := by
      by_contra hlt
      exact hm u.length (by omega) (at_iff_split.2 ⟨u, _, by simp; rfl, rfl⟩)
    rw [List.take_append_of_le_length hle, List.take_append_of_le_length hle]

/-- Behind a front without the line end's first element. -/
theorem Respelled.behind (h : Respelled a b c N (v ++ s) t) (hv : a ∉ v) :
    ∃ s', t = v ++ s' ∧ Respelled a b c N s s' := by
  generalize hvs : v ++ s = w at h
  cases h with
  | same => exact ⟨s, hvs.symm, .same s⟩
  | name u hn ht =>
    rename_i n n' x x'
    rcases List.append_eq_append_iff.1 hvs with ⟨k, rfl, hk⟩ | ⟨k, rfl, hk⟩
    · exact ⟨k ++ a :: b :: (n' ++ c :: x'), by rw [List.append_assoc],
        by rw [hk]; exact .name k hn ht⟩
    · cases k with
      | nil =>
        rw [List.nil_append] at hk
        exact ⟨a :: b :: (n' ++ c :: x'), by simp, by rw [← hk]; exact .name [] hn ht⟩
      | cons y k =>
        obtain ⟨rfl, -⟩ := List.cons.inj hk
        exact absurd (by simp) hv

/-! ## Patterns -/

/-- Respelling a name keeps the occurrences of the pattern that begin in the name: behind such an
occurrence the texts go on alike. -/
def Keeps (a c : α) (N : List α → List α → Prop) (p : List α) : Prop :=
  ∀ n n', N n n' → ∀ x y t, n ++ c :: t = x ++ p ++ y → x.length ≤ n.length →
    ∃ v, t = v ++ y ∧ a ∉ v ∧
      ∀ y', ∃ x', n' ++ c :: (v ++ y') = x' ++ p ++ y' ∧ x'.length = x.length

/-- The names in front of a separator that lack the pattern's part in front of it. -/
theorem takeWhile_front [DecidableEq α] {n w x y t : List α} (hn : c ∉ n) (hw : c ∉ w)
    (hx : x.length ≤ n.length) (h : n ++ c :: t = x ++ (w ++ c :: v) ++ y) :
    n = x ++ w ∧ t = v ++ y := by
  have hcx : c ∉ x := by
    have htake := congrArg (List.take x.length) h
    rw [List.take_append_of_le_length hx, List.append_assoc, List.take_left] at htake
    intro hmem
    rw [← htake] at hmem
    exact hn (List.mem_of_mem_take hmem)
  have hxw : c ∉ x ++ w := by
    rw [List.mem_append, not_or]
    exact ⟨hcx, hw⟩
  have hassoc : n ++ c :: t = (x ++ w) ++ c :: (v ++ y) := by rw [h]; simp
  have hname := congrArg (List.takeWhile (· ≠ c)) hassoc
  rw [takeWhile_append_cons hn, takeWhile_append_cons hxw] at hname
  have hrest := congrArg (Search.behind c) hassoc
  rw [behind_append_cons hn, behind_append_cons hxw] at hrest
  exact ⟨hname, hrest⟩

/-- A pattern with a separator: a name ends with its part in front of it, or none does. -/
theorem keeps_of_suffix [DecidableEq α] {w : List α} (hw : c ∉ w) (hv : a ∉ v)
    (hN : ∀ n n', N n n' → c ∉ n ∧ n.length = n'.length ∧ (w <:+ n → w <:+ n')) :
    Keeps a c N (w ++ c :: v) := by
  intro n n' hnn x y t h hx
  obtain ⟨hn, hlen, hsuffix⟩ := hN n n' hnn
  obtain ⟨rfl, rfl⟩ := takeWhile_front hn hw hx h
  refine ⟨v, rfl, hv, fun y' => ?_⟩
  obtain ⟨x', hx'⟩ := hsuffix (List.suffix_append x w)
  refine ⟨x', by rw [← hx']; simp, ?_⟩
  have hlen' := congrArg List.length hx'
  rw [List.length_append] at hlen hlen'
  omega

/-- A pattern with an element that is in no name, and without a separator. -/
theorem keeps_of_notMem {e : α} (he : e ∈ p) (hc : c ∉ p) (hN : ∀ n n', N n n' → e ∉ n) :
    Keeps a c N p := by
  intro n n' hnn x y t h hx
  exfalso
  have hen := hN n n' hnn
  -- a separator in front of the end of the pattern would be in it
  have hfront {k : List α} (hk : p ++ y = k ++ c :: t) (hkn : k ⊆ n) : False := by
    rcases List.append_eq_append_iff.1 hk with ⟨k', rfl, -⟩ | ⟨k', rfl, hk'⟩
    · exact hen (hkn (List.mem_append_left _ he))
    · cases k' with
      | nil => exact hen (hkn (by simpa using he))
      | cons z k' =>
        obtain ⟨rfl, -⟩ := List.cons.inj hk'
        exact hc (by simp)
  rw [List.append_assoc] at h
  rcases List.append_eq_append_iff.1 h with ⟨k, rfl, hk⟩ | ⟨k, rfl, hk⟩
  · have hnil : k = [] := List.length_eq_zero_iff.1 (by rw [List.length_append] at hx; omega)
    subst hnil
    exact hfront (k := []) hk.symm (List.nil_subset _)
  · exact hfront hk fun z hz => List.mem_append_right _ hz

/-- Where a pattern without elements of the line end stands in a text with one. -/
theorem split_lineEnd (ha : a ∉ p) (hb : b ∉ p) (hne : p ≠ []) {r x y : List α}
    (h : u ++ a :: b :: r = x ++ p ++ y) :
    (∃ k, u = x ++ p ++ k ∧ y = k ++ a :: b :: r) ∨
      ∃ k, x = u ++ a :: b :: k ∧ r = k ++ p ++ y := by
  rcases List.append_eq_append_iff.1 h with ⟨k, hk, hk'⟩ | ⟨k, rfl, rfl⟩
  · rcases List.append_eq_append_iff.1 hk with ⟨j, rfl, rfl⟩ | ⟨j, rfl, rfl⟩
    · -- the pattern ends in front of the line end, or holds its first element
      cases k with
      | nil => exact .inl ⟨[], by simp, hk'.symm⟩
      | cons z k =>
        obtain ⟨rfl, -⟩ := List.cons.inj hk'
        exact absurd (by simp) ha
    · obtain ⟨q, p, rfl⟩ := List.exists_cons_of_ne_nil hne
      rcases j with _ | ⟨z, _ | ⟨z', j⟩⟩
      · exact absurd (by simp [(List.cons.inj hk').1]) ha
      · exact absurd (by simp [(List.cons.inj (List.cons.inj hk').2).1]) hb
      · simp only [List.cons_append, List.cons.injEq] at hk'
        obtain ⟨rfl, rfl, hk'⟩ := hk'
        exact .inr ⟨j, rfl, by simpa using hk'⟩
  · exact .inl ⟨k, rfl, rfl⟩

/-- **An occurrence is kept**, and the texts go on alike behind it. -/
theorem Respelled.split (hlen : ∀ n n', N n n' → n.length = n'.length) (ha : a ∉ p) (hb : b ∉ p)
    (hne : p ≠ []) (hp : Keeps a c N p) (h : Respelled a b c N s s') {x y : List α}
    (hs : s = x ++ p ++ y) :
    ∃ x' y', s' = x' ++ p ++ y' ∧ x'.length = x.length ∧ Respelled a b c N y y' := by
  induction h generalizing x y with
  | same => exact ⟨x, y, hs, rfl, .same y⟩
  | name u hn ht ih =>
    rename_i n n' t t'
    rcases split_lineEnd ha hb hne hs with ⟨k, rfl, rfl⟩ | ⟨x, rfl, hr⟩
    · exact ⟨x, k ++ a :: b :: (n' ++ c :: t'), by simp, rfl, .name k hn ht⟩
    · by_cases hin : x.length ≤ n.length
      · obtain ⟨v, rfl, hv, hkeep⟩ := hp n n' hn x y t hr hin
        obtain ⟨y', rfl, hy⟩ := ht.behind hv
        obtain ⟨x', hx', hlen⟩ := hkeep y'
        exact ⟨u ++ a :: b :: x', y', by rw [hx']; simp, by simp [hlen], hy⟩
      · -- the occurrence begins behind the name
        obtain ⟨k, rfl, rfl⟩ : ∃ k, x = n ++ c :: k ∧ t = k ++ p ++ y := by
          rw [List.append_assoc] at hr
          rcases List.append_eq_append_iff.1 hr with ⟨k, rfl, hk⟩ | ⟨k, rfl, -⟩
          · cases k with
            | nil => exact absurd (by simp) hin
            | cons z k =>
              obtain ⟨rfl, rfl⟩ := List.cons.inj hk
              exact ⟨k, rfl, by rw [List.append_assoc]; rfl⟩
          · exact absurd (by simp) hin
        obtain ⟨x', y', rfl, hx', hy⟩ := ih rfl
        exact ⟨u ++ a :: b :: (n' ++ c :: x'), y', by simp, by simp [hx', hlen n n' hn], hy⟩

/-- The occurrences are the same. -/
theorem Respelled.at_iff (hlen : ∀ n n', N n n' → n.length = n'.length)
    (hsymm : ∀ n n', N n n' → N n' n) (ha : a ∉ p) (hb : b ∉ p) (hne : p ≠ [])
    (hp : Keeps a c N p) (h : Respelled a b c N s s') {i : Nat} : At s p i ↔ At s' p i := by
  have hkept {s s' : List α} (h : Respelled a b c N s s') (hat : At s p i) : At s' p i := by
    obtain ⟨x, y, hs, rfl⟩ := at_iff_split.1 hat
    obtain ⟨x', y', hs', hx', -⟩ := h.split hlen ha hb hne hp hs
    exact at_iff_split.2 ⟨x', y', hs', hx'⟩
  exact ⟨hkept h, hkept (h.symm hsymm)⟩

/-- **What stands behind an occurrence** is the same up to the next line end. -/
theorem Respelled.take_behind (hlen : ∀ n n', N n n' → n.length = n'.length) (ha : a ∉ p)
    (hb : b ∉ p) (hne : p ≠ []) (hp : Keeps a c N p) (h : Respelled a b c N s s') {i m : Nat}
    (hat : At s p i) (hm : ∀ j < m, ¬ At s [a, b] (i + p.length + j)) :
    (s.drop (i + p.length)).take m = (s'.drop (i + p.length)).take m := by
  obtain ⟨x, y, hs, rfl⟩ := at_iff_split.1 hat
  obtain ⟨x', y', rfl, hx', hy⟩ := h.split hlen ha hb hne hp hs
  subst hs
  have htake := hy.take_eq (m := m) fun j hj hline => hm j hj (by
    rw [← List.length_append]
    exact at_append_right.2 hline)
  have hlen' : (x' ++ p).length = (x ++ p).length := by
    rw [List.length_append, List.length_append, hx']
  rw [← List.length_append, List.drop_left, htake, ← hlen', List.drop_left]

/-! ## Patterns that no name can hold -/

/-- A pattern of elements that a map tells from all others. -/
theorem at_map {β : Type*} {f : α → β} (hp : ∀ x ∈ p, ∀ y, f y = f x → y = x) {i : Nat} :
    At (s.map f) (p.map f) i ↔ At s p i := by
  have hprefix (s : List α) : p.map f <+: s.map f ↔ p <+: s := by
    induction p generalizing s with
    | nil => simp
    | cons x p ih =>
      cases s with
      | nil => simp
      | cons y s =>
        rw [List.map_cons, List.map_cons, List.cons_prefix_cons, List.cons_prefix_cons,
          ih (fun z hz => hp z (List.mem_cons_of_mem _ hz)) s]
        refine and_congr_left fun _ => ⟨fun h => ?_, fun h => by rw [h]⟩
        exact (hp x List.mem_cons_self y h.symm).symm
  unfold At
  rw [← List.map_drop, hprefix, List.length_map]

/-! ## Lines -/

/-- The lines are the same, or differ in the name in front of the first separator. -/
def LineRespelled (c : α) (N : List α → List α → Prop) (l l' : List α) : Prop :=
  l = l' ∨ ∃ n n' r, N n n' ∧ l = n ++ c :: r ∧ l' = n' ++ c :: r

theorem push_append {x : α} {ls ms : List (List α)} (h : ls ≠ []) :
    Lines.push x (ls ++ ms) = Lines.push x ls ++ ms := by
  cases ls with
  | nil => exact absurd rfl h
  | cons l ls => rfl

variable [DecidableEq α]

/-- A text is cut at each of its line ends. -/
theorem split_append_lineEnd (hab : a ≠ b) (u r : List α) :
    Lines.split a b (u ++ a :: b :: r) = Lines.split a b u ++ Lines.split a b r := by
  fun_induction Lines.split a b u with
  | case1 => simp [Lines.split]
  | case2 x =>
    have hx : ¬ (x = a ∧ a = b) := fun h => hab h.2
    simp [Lines.split, hx, Lines.push]
  | case3 x y t hxy ih => rw [List.cons_append, List.cons_append, Lines.split, if_pos hxy, ih]; rfl
  | case4 x y t hxy ih =>
    rw [List.cons_append] at ih
    rw [List.cons_append, List.cons_append, Lines.split, if_neg hxy, ih,
      push_append (Lines.split_ne_nil _)]

/-- A front without the line end's first element stands in the first line. -/
theorem split_front {n t l : List α} {ls : List (List α)} (hn : a ∉ n)
    (h : Lines.split a b t = l :: ls) : Lines.split a b (n ++ t) = (n ++ l) :: ls := by
  induction n with
  | nil => exact h
  | cons x n ih =>
    rw [List.mem_cons, not_or] at hn
    have hrest := ih hn.2
    cases hnt : n ++ t with
    | nil =>
      obtain ⟨rfl, rfl⟩ := List.append_eq_nil_iff.1 hnt
      cases h
      rfl
    | cons y r =>
      rw [hnt] at hrest
      rw [List.cons_append, hnt, Lines.split, if_neg fun hx => hn.1 hx.1.symm, hrest]
      rfl

/-- **The lines** behind the first differ in names only. -/
theorem Respelled.lines (hab : a ≠ b) (hc : a ≠ c) (hN : ∀ n n', N n n' → a ∉ n ∧ a ∉ n')
    (h : Respelled a b c N s s') :
    ∃ l ls ls', Lines.split a b s = l :: ls ∧ Lines.split a b s' = l :: ls' ∧
      List.Forall₂ (LineRespelled c N) ls ls' := by
  have hrefl (ls : List (List α)) : List.Forall₂ (LineRespelled c N) ls ls :=
    List.forall₂_same.2 fun l _ => .inl rfl
  induction h with
  | same s =>
    obtain ⟨l, ls, hls⟩ := List.exists_cons_of_ne_nil (Lines.split_ne_nil (a := a) (b := b) s)
    exact ⟨l, ls, ls, hls, hls, hrefl ls⟩
  | name u hn ht ih =>
    rename_i n n' t t'
    obtain ⟨m, ms, hms⟩ := List.exists_cons_of_ne_nil (Lines.split_ne_nil (a := a) (b := b) u)
    obtain ⟨l, ls, ls', hl, hl', hrest⟩ := ih
    have hnamed {n : List α} (hn : a ∉ n) {t : List α} {ls : List (List α)}
        (ht : Lines.split a b t = l :: ls) :
        Lines.split a b (u ++ a :: b :: (n ++ c :: t)) = m :: (ms ++ (n ++ c :: l) :: ls) := by
      have hfront : a ∉ n ++ [c] := by simp [hn, hc]
      have hsplit := split_front hfront ht
      rw [List.append_assoc, List.append_assoc, List.singleton_append,
        List.singleton_append] at hsplit
      rw [split_append_lineEnd hab, hms, hsplit]
      rfl
    refine ⟨m, _, _, hnamed (hN n n' hn).1 hl, hnamed (hN n n' hn).2 hl', ?_⟩
    exact List.rel_append (hrefl ms) (.cons (.inr ⟨n, n', l, hn, rfl, rfl⟩) hrest)

end Respelling
