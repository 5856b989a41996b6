import Mathlib.Data.List.AList

/-!
# Maps filled from lists

`insertAll m entries`: the entries are stored in `m` one after the other, each in the place of an
earlier one with its key. The lemmas say what is found under a key: the value of its last entry
(`lookup_insertAll_last`), which is its only one where the keys are distinct
(`lookup_insertAll_of_nodup`), and what `m` holds where there is none.
-/

set_option autoImplicit false

namespace Filling

variable {κ ν : Type*} [DecidableEq κ] {m : AList fun _ : κ => ν} {entries : List (κ × ν)} {k : κ}
  {v : ν}

def insertAll (m : AList fun _ : κ => ν) (entries : List (κ × ν)) : AList fun _ : κ => ν :=
  entries.foldl (fun m e => m.insert e.1 e.2) m

theorem insertAll_append (m : AList fun _ : κ => ν) (front back : List (κ × ν)) :
    insertAll m (front ++ back) = insertAll (insertAll m front) back := List.foldl_append

theorem lookup_insertAll_of_notMem (h : k ∉ entries.map Prod.fst) :
    (insertAll m entries).lookup k = m.lookup k := by
  induction entries generalizing m with
  | nil => rfl
  | cons e entries ih =>
    rw [List.map_cons, List.mem_cons, not_or] at h
    rw [insertAll, List.foldl_cons, ← insertAll, ih h.2, AList.lookup_insert_ne h.1]

theorem lookup_insertAll_last {front back : List (κ × ν)} (h : k ∉ back.map Prod.fst) :
    (insertAll m (front ++ (k, v) :: back)).lookup k = some v := by
  rw [insertAll_append, insertAll, List.foldl_cons, ← insertAll, lookup_insertAll_of_notMem h,
    AList.lookup_insert]

theorem lookup_insertAll_of_nodup (hnodup : (entries.map Prod.fst).Nodup) (h : (k, v) ∈ entries) :
    (insertAll m entries).lookup k = some v := by
  obtain ⟨front, back, rfl⟩ := List.append_of_mem h
  rw [List.map_append, List.map_cons] at hnodup
  exact lookup_insertAll_last (List.nodup_cons.1 (List.Nodup.of_append_right hnodup)).1

/-- What is found has been stored. -/
theorem mem_of_lookup_insertAll (h : (insertAll m entries).lookup k = some v) :
    (k, v) ∈ entries ∨ m.lookup k = some v := by
  induction entries generalizing m with
  | nil => exact .inr h
  | cons e entries ih =>
    rcases ih h with hmem | hm
    · exact .inl (List.mem_cons_of_mem _ hmem)
    · by_cases hk : k = e.1
      · rw [hk, AList.lookup_insert] at hm
        exact .inl (List.mem_cons.2 (.inl (Prod.ext hk (Option.some.inj hm).symm)))
      · rw [AList.lookup_insert_ne hk] at hm
        exact .inr hm

theorem mem_of_lookup_insertAll_empty (h : (insertAll ∅ entries).lookup k = some v) :
    (k, v) ∈ entries := by
  rcases mem_of_lookup_insertAll h with hmem | hempty
  · exact hmem
  · rw [AList.lookup_empty] at hempty
    cases hempty

theorem mem_insertAll_iff : k ∈ insertAll m entries ↔ k ∈ entries.map Prod.fst ∨ k ∈ m := by
  induction entries generalizing m with
  | nil => simp [insertAll]
  | cons e entries ih =>
    rw [insertAll, List.foldl_cons, ← insertAll, ih, AList.mem_insert, List.map_cons, List.mem_cons]
    tauto

/-- The filled map is empty if nothing is filled in. -/
theorem insertAll_empty_isEmpty :
    (insertAll (∅ : AList fun _ : κ => ν) entries).entries.isEmpty = entries.isEmpty := by
  cases entries with
  | nil => rfl
  | cons e entries =>
    have hmem : e.1 ∈ insertAll (∅ : AList fun _ : κ => ν) (e :: entries) :=
      mem_insertAll_iff.2 (.inl (by simp))
    rw [List.isEmpty_cons, List.isEmpty_eq_false_iff]
    intro hnil
    rw [AList.mem_keys, AList.keys, hnil] at hmem
    cases hmem

end Filling
