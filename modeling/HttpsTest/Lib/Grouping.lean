import Mathlib.Algebra.BigOperators.Group.List.Lemmas
import Mathlib.Algebra.GroupWithZero.Nat
import Mathlib.Data.List.AList
import Mathlib.Data.List.Induction

/-!
# Grouping

Elements counted into a map: each one updates the accumulator under its key (`collect`).
`lookup_collect` says what stands under a key in the end: the accumulation over the elements of that
key alone. From it: the keys are the distinct keys of the elements (`keys_collect`), and the sizes
of the groups add up (`sum_group`).
-/

set_option autoImplicit false

namespace Grouping

variable {K α β : Type*} [DecidableEq K]

section

variable (key : β → K) (init : α) (f : α → β → α)

/-- The accumulator of an element's key, `init` where there is none yet, is updated by it. -/
def add (m : AList fun _ : K => α) (x : β) : AList fun _ : K => α :=
  m.insert (key x) (f ((m.lookup (key x)).getD init) x)

def collect (xs : List β) : AList fun _ : K => α := xs.foldl (add key init f) ∅

/-- The elements of a key. -/
def group (k : K) (xs : List β) : List β := xs.filter fun x => key x = k

end

variable {key : β → K} {init : α} {f : α → β → α} {xs ys : List β} {k : K}

theorem mem_group {x : β} : x ∈ group key k xs ↔ x ∈ xs ∧ key x = k := by
  unfold group
  rw [List.mem_filter, decide_eq_true_eq]

theorem group_eq_nil_iff : group key k xs = [] ↔ k ∉ xs.map key := by
  unfold group
  simp [List.filter_eq_nil_iff]

theorem collect_append_singleton (xs : List β) (x : β) :
    collect key init f (xs ++ [x]) = add key init f (collect key init f xs) x := by
  unfold collect
  rw [List.foldl_append, List.foldl_cons, List.foldl_nil]

/-- **What stands under a key**: nothing, or the accumulation over its elements. -/
theorem lookup_collect (xs : List β) (k : K) : (collect key init f xs).lookup k =
    if k ∈ xs.map key then some ((group key k xs).foldl f init) else none := by
  induction xs using List.reverseRecOn with
  | nil => simp [collect]
  | append_singleton xs x ih =>
    rw [collect_append_singleton, add]
    by_cases hk : key x = k
    · subst hk
      have hlast : group key (key x) (xs ++ [x]) = group key (key x) xs ++ [x] := by simp [group]
      -- an accumulator that is not there yet is the accumulation over no elements
      have hacc : ((collect key init f xs).lookup (key x)).getD init =
          (group key (key x) xs).foldl f init := by
        rw [ih]
        split
        · rfl
        next hnot => rw [group_eq_nil_iff.2 hnot, List.foldl_nil, Option.getD_none]
      rw [AList.lookup_insert, hacc, hlast, List.foldl_append, List.foldl_cons, List.foldl_nil,
        if_pos (by simp)]
    · have hlast : group key k (xs ++ [x]) = group key k xs := by simp [group, hk]
      rw [AList.lookup_insert_ne (Ne.symm hk), ih, hlast]
      simp [Ne.symm hk]

theorem lookup_collect_of_mem (h : k ∈ xs.map key) :
    (collect key init f xs).lookup k = some ((group key k xs).foldl f init) := by
  rw [lookup_collect, if_pos h]

theorem mem_collect : k ∈ collect key init f xs ↔ k ∈ xs.map key := by
  rw [← AList.lookup_isSome, lookup_collect]
  split <;> simp_all

/-- The keys are the distinct keys of the elements. -/
theorem keys_collect (xs : List β) :
    (collect key init f xs).keys.Perm (xs.map key).dedup := by
  refine (List.perm_ext_iff_of_nodup (AList.keys_nodup _) (List.nodup_dedup _)).2 fun k => ?_
  rw [List.mem_dedup]
  exact mem_collect

/-- **No element is lost and none counts twice**: the sizes of the groups add up. -/
theorem sum_group {ks : List K} (h : ks.Perm (xs.map key).dedup) :
    (ks.map fun k => (group key k xs).length).sum = xs.length := by
  have hcount : ∀ k, (group key k xs).length = (xs.map key).count k := by
    intro k
    rw [group, ← List.countP_eq_length_filter, List.count, List.countP_map]
    apply List.countP_congr
    simp
  rw [(h.map _).sum_eq, List.map_congr_left fun k _ => hcount k,
    List.sum_map_count_dedup_eq_length, List.length_map]

end Grouping
