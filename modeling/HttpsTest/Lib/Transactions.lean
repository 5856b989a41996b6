import Mathlib.Data.Option.Basic

/-!
# Transactional stores

A store holds a committed value and, while a transaction is open, the working copy. Every step may
fail; a failed commit leaves the transaction open, or aborts it. `transact` begins, changes the
value by one statement and commits; it rolls back when the statement fails, and, where `rollsBack`
is set, also when the commit fails. `transact_working_iff`: it ends without an open transaction
exactly if it does not meet a failing commit that it leaves. `transact_holds_iff`: what keeps a
property of the value.
-/

set_option autoImplicit false

namespace Transactions

variable {τ : Type*}

structure Store (τ : Type*) where
  committed : τ
  working : Option τ := none

/-- Which steps the engine lets succeed. -/
structure Outcomes where
  begin : Bool := true
  statement : Bool := true
  commit : Bool := true
  /-- A commit that fails ends the transaction, and what it changed is gone. -/
  commitAborts : Bool := false
  rollback : Bool := true
  deriving DecidableEq, Repr

/-- A commit that fails is undone, by the engine or by a rollback. -/
def Outcomes.Undoes (o : Outcomes) (rollsBack : Bool) : Prop :=
  o.commitAborts = true ∨ rollsBack = true ∧ o.rollback = true

namespace Store

/-- What a statement sees. -/
def view (s : Store τ) : τ := s.working.getD s.committed

/-- `P` holds of the committed value and of what a statement sees. -/
def Holds (P : τ → Prop) (s : Store τ) : Prop := P s.committed ∧ P s.view

/-- `R` relates the committed values, and what statements see. -/
def Moves (R : τ → τ → Prop) (s s' : Store τ) : Prop :=
  R s.committed s'.committed ∧ R s.view s'.view

/-- A changed value, in the open transaction or at once. -/
def write (s : Store τ) (t : τ) : Store τ :=
  match s.working with
  | some _ => { s with working := some t }
  | none => { s with committed := t }

theorem Holds.imp {P Q : τ → Prop} {s : Store τ} (h : s.Holds P) (hpq : ∀ t, P t → Q t) :
    s.Holds Q := ⟨hpq _ h.1, hpq _ h.2⟩

/-- What holds, where nothing is moved. -/
theorem Holds.of_eq {P : τ → Prop} {s s' : Store τ} (h : s.Holds P) (heq : s.Moves Eq s') :
    s'.Holds P := ⟨heq.1 ▸ h.1, heq.2 ▸ h.2⟩

theorem Moves.trans_eq {R : τ → τ → Prop} {s s' s'' : Store τ} (h : s.Moves R s')
    (heq : s'.Moves Eq s'') : s.Moves R s'' := ⟨heq.1 ▸ h.1, heq.2 ▸ h.2⟩

def begin (ok : Bool) (s : Store τ) : Bool × Store τ :=
  if ok = true ∧ s.working = none then (true, { s with working := some s.committed })
  else (false, s)

/-- A statement, which may itself refuse the value it sees. -/
def update (ok : Bool) (f : τ → Option τ) (s : Store τ) : Bool × Store τ :=
  match ok, f s.view with
  | true, some t => (true, s.write t)
  | _, _ => (false, s)

def commit (ok aborts : Bool) (s : Store τ) : Bool × Store τ :=
  match ok, s.working with
  | true, some t => (true, { committed := t })
  | false, some _ => (false, if aborts then { committed := s.committed } else s)
  | _, none => (false, s)

def rollback (ok : Bool) (s : Store τ) : Bool × Store τ :=
  match ok, s.working with
  | true, some _ => (true, { committed := s.committed })
  | _, _ => (false, s)

@[simp] theorem view_of_none {s : Store τ} (h : s.working = none) : s.view = s.committed := by
  rw [view, h, Option.getD_none]

/-- A begin changes nothing that is seen. -/
theorem view_begin (ok : Bool) (s : Store τ) : (s.begin ok).2.view = s.view := by
  unfold begin
  split
  · rename_i hok
    rw [view_of_none hok.2]
    rfl
  · rfl

end Store

open Store

/-- A statement between its begin and its commit; whether it is reported as done. -/
def transact (o : Outcomes) (rollsBack : Bool) (f : τ → Option τ) (s : Store τ) : Bool × Store τ :=
  match s.begin o.begin with
  | (false, s) => (false, s)
  | (true, s) =>
    match s.update o.statement f with
    | (false, s) => (false, (s.rollback o.rollback).2)
    | (true, s) =>
      match s.commit o.commit o.commitAborts with
      | (true, s) => (true, s)
      | (false, s) => (false, if rollsBack then (s.rollback o.rollback).2 else s)

/-- The begin and the statement succeed. -/
def Reaches (o : Outcomes) (f : τ → Option τ) (s : Store τ) (t : τ) : Prop :=
  o.begin = true ∧ s.working = none ∧ o.statement = true ∧ f s.view = some t

variable {o : Outcomes} {rollsBack : Bool} {f : τ → Option τ} {s : Store τ}

/-- The ways a transaction ends: before its commit, with a commit, or with a failed one. -/
theorem transact_cases (o : Outcomes) (rollsBack : Bool) (f : τ → Option τ) (s : Store τ) :
    ((∀ t, ¬ Reaches o f s t) ∧ (transact o rollsBack f s).1 = false ∧
        (transact o rollsBack f s).2.committed = s.committed ∧
        (transact o rollsBack f s).2.view = s.view ∧
        (o.rollback = true → (transact o rollsBack f s).2 = s)) ∨
      ∃ t, Reaches o f s t ∧
        (o.commit = true ∧ transact o rollsBack f s = (true, { committed := t }) ∨
          o.commit = false ∧ (transact o rollsBack f s).1 = false ∧
            (o.Undoes rollsBack → (transact o rollsBack f s).2 = s) ∧
            (¬ o.Undoes rollsBack →
              (transact o rollsBack f s).2 = { s with working := some t })) := by
  obtain ⟨ob, os, oc, oa, orb⟩ := o
  obtain ⟨committed, working⟩ := s
  unfold transact Reaches Outcomes.Undoes
  cases working with
  | some w => cases ob <;> exact .inl ⟨fun _ h => by simp at h, rfl, rfl, rfl, fun _ => rfl⟩
  | none =>
    cases ob with
    | false => exact .inl ⟨fun _ h => by simp at h, rfl, rfl, rfl, fun _ => rfl⟩
    | true =>
      simp only [begin, and_self, if_true, update, view, Option.getD_some, Option.getD_none,
        true_and]
      cases os with
      | false => cases orb <;> exact .inl ⟨by simp, rfl, rfl, rfl, by simp [rollback]⟩
      | true =>
        cases hf : f committed with
        | none => cases orb <;> exact .inl ⟨by simp, rfl, rfl, rfl, by simp [rollback]⟩
        | some t =>
          refine .inr ⟨t, by simp, ?_⟩
          cases oc with
          | true => exact .inl ⟨rfl, rfl⟩
          | false =>
            cases oa <;> cases rollsBack <;> cases orb <;> simp [write, commit, rollback]

/-- **No transaction is left open**, exactly: the commit of a statement that was done does not fail,
or is rolled back. -/
theorem transact_working_iff (hs : s.working = none) (hrollback : o.rollback = true) :
    (transact o rollsBack f s).2.working = none ↔ ¬ (rollsBack = false ∧ o.commit = false ∧
      o.commitAborts = false ∧ ∃ t, Reaches o f s t) := by
  have hundoes : ¬ o.Undoes rollsBack ↔ rollsBack = false ∧ o.commitAborts = false := by
    unfold Outcomes.Undoes
    rw [hrollback]
    simp [and_comm]
  rcases transact_cases o rollsBack f s with ⟨hno, -, -, -, hsame⟩ | ⟨t, ht, ⟨hc, heq⟩ |
    ⟨hc, hfail, hback, hopen⟩⟩
  · rw [hsame hrollback]
    exact iff_of_true hs fun h => hno _ h.2.2.2.choose_spec
  · rw [heq]
    exact iff_of_true rfl fun h => by rw [hc] at h; cases h.2.1
  · by_cases hu : o.Undoes rollsBack
    · rw [hback hu]
      exact iff_of_true hs fun h => hundoes.2 ⟨h.1, h.2.2.1⟩ hu
    · rw [hopen hu]
      obtain ⟨hr, ha⟩ := hundoes.1 hu
      exact iff_of_false (fun h => by cases h) (not_not.2 ⟨hr, hc, ha, t, ht⟩)

theorem transact_of_reaches {t : τ} (ht : Reaches o f s t) (hc : o.commit = true) :
    transact o rollsBack f s = (true, { committed := t }) := by
  rcases transact_cases o rollsBack f s with ⟨hno, -⟩ | ⟨t', ht', ⟨-, heq⟩ | ⟨hc', -⟩⟩
  · exact absurd ht (hno t)
  · rw [heq, Option.some.inj (ht.2.2.2.symm.trans ht'.2.2.2)]
  · rw [hc] at hc'
    cases hc'

/-- Where no commit and no rollback fails, a transaction applies its statement or does nothing. -/
theorem transact_of_ends (hcommit : o.commit = true) (hrollback : o.rollback = true)
    (hs : s.working = none) :
    transact o rollsBack f s =
      match (if o.begin && o.statement then f s.committed else none) with
      | some t => (true, { committed := t })
      | none => (false, s) := by
  have hview : s.view = s.committed := view_of_none hs
  rcases transact_cases o rollsBack f s with ⟨hno, hfail, -, -, hsame⟩ | ⟨t, ht, ⟨-, heq⟩ | ⟨hc, -⟩⟩
  · have hnone : (if o.begin && o.statement then f s.committed else none) = none := by
      by_contra hsome
      obtain ⟨t, ht⟩ := Option.ne_none_iff_exists'.1 hsome
      obtain ⟨hruns, ht⟩ := Option.ite_none_right_eq_some.1 ht
      rw [Bool.and_eq_true] at hruns
      exact hno t ⟨hruns.1, hs, hruns.2, hview ▸ ht⟩
    rw [hnone]
    exact Prod.ext hfail (hsame hrollback)
  · rw [heq, ht.1, ht.2.2.1, ← hview, ht.2.2.2]
    rfl
  · rw [hcommit] at hc
    cases hc

/-- Where no step fails, a transaction applies its statement, unless that refuses the value. -/
theorem transact_of_outcomes (hbegin : o.begin = true) (hstatement : o.statement = true)
    (hcommit : o.commit = true) (hrollback : o.rollback = true) (hs : s.working = none) :
    transact o rollsBack f s =
      match f s.committed with
      | some t => (true, { committed := t })
      | none => (false, s) := by
  rw [transact_of_ends hcommit hrollback hs, hbegin, hstatement]
  rfl

/-- A transaction is done exactly if the statement is reached and the commit succeeds. -/
theorem transact_done_iff :
    (transact o rollsBack f s).1 = true ↔ o.commit = true ∧ ∃ t, Reaches o f s t := by
  refine ⟨fun h => ?_, fun ⟨hc, t, ht⟩ => ?_⟩
  · rcases transact_cases o rollsBack f s with ⟨-, hno, -⟩ | ⟨t, ht, ⟨hc, -⟩ | ⟨-, hno, -⟩⟩
    · rw [h] at hno
      cases hno
    · exact ⟨hc, t, ht⟩
    · rw [h] at hno
      cases hno
  · exact congrArg Prod.fst (transact_of_reaches ht hc)

/-- A transaction that is not done changes nothing that is committed. -/
theorem transact_failed (h : (transact o rollsBack f s).1 = false) :
    (transact o rollsBack f s).2.committed = s.committed := by
  rcases transact_cases o rollsBack f s with ⟨-, -, hc, -⟩ | ⟨t, -, ⟨-, heq⟩ | ⟨-, -, hback, hopen⟩⟩
  · exact hc
  · rw [heq] at h
    cases h
  · by_cases hu : o.Undoes rollsBack
    · rw [hback hu]
    · rw [hopen hu]

/-- Inside an open transaction nothing begins. -/
theorem transact_open (hs : s.working ≠ none) : transact o rollsBack f s = (false, s) := by
  have hbegin : s.begin o.begin = (false, s) := if_neg fun hok => hs hok.2
  unfold transact
  rw [hbegin]

/-- **What may stay open** is a transaction that was not done: with the committed value where its
rollback failed, with the value behind its statement where its commit failed. -/
theorem transact_left (hs : s.working = none) : (transact o rollsBack f s).2.working = none ∨
    (transact o rollsBack f s).1 = false ∧ ∃ t, (transact o rollsBack f s).2.working = some t ∧
      (t = s.committed ∨ f s.committed = some t) := by
  cases hw : (transact o rollsBack f s).2.working with
  | none => exact .inl rfl
  | some w =>
    right
    rcases transact_cases o rollsBack f s with ⟨-, hfail, hcommitted, hview, -⟩ |
      ⟨t, ht, ⟨-, heq⟩ | ⟨-, hfail, hback, hopen⟩⟩
    · refine ⟨hfail, w, rfl, .inl ?_⟩
      unfold view at hview
      rw [hw, hs] at hview
      exact hview
    · rw [heq] at hw
      cases hw
    · refine ⟨hfail, w, rfl, .inr ?_⟩
      by_cases hu : o.Undoes rollsBack
      · rw [hback hu, hs] at hw
        cases hw
      · rw [hopen hu] at hw
        cases hw
        rw [← view_of_none hs]
        exact ht.2.2.2

/-- **A property of the value** is kept exactly if a statement that is reached, and not undone,
keeps it. -/
theorem transact_holds_iff {P : τ → Prop} (hs : s.Holds P) :
    (transact o rollsBack f s).2.Holds P ↔
      ∀ t, Reaches o f s t → (o.commit = true ∨ ¬ o.Undoes rollsBack) → P t := by
  rcases transact_cases o rollsBack f s with ⟨hno, -, hcommitted, hview, -⟩ | ⟨t, ht, ⟨hc, heq⟩ |
    ⟨hc, hfail, hback, hopen⟩⟩
  · unfold Holds
    rw [hcommitted, hview]
    exact iff_of_true hs fun t ht => absurd ht (hno t)
  · have hunique {t' : τ} (ht' : Reaches o f s t') : t' = t :=
      Option.some.inj (ht'.2.2.2.symm.trans ht.2.2.2)
    rw [heq]
    exact ⟨fun h t' ht' _ => hunique ht' ▸ h.1, fun h => ⟨h t ht (.inl hc), h t ht (.inl hc)⟩⟩
  · have hunique {t' : τ} (ht' : Reaches o f s t') : t' = t :=
      Option.some.inj (ht'.2.2.2.symm.trans ht.2.2.2)
    by_cases hu : o.Undoes rollsBack
    · rw [hback hu]
      refine iff_of_true hs ?_
      rintro _ _ (h | h)
      · rw [hc] at h
        cases h
      · exact absurd hu h
    · rw [hopen hu]
      exact ⟨fun h t' ht' _ => hunique ht' ▸ h.2, fun h => ⟨hs.1, h t ht (.inr hu)⟩⟩

/-- **What a transaction moves**: it stays within a relation that its statement keeps. -/
theorem transact_moves {R : τ → τ → Prop} (hrefl : ∀ t, R t t)
    (h : ∀ t, Reaches o f s t → R s.view t) : s.Moves R (transact o rollsBack f s).2 := by
  rcases transact_cases o rollsBack f s with ⟨-, -, hcommitted, hview, -⟩ | ⟨t, ht, hend⟩
  · unfold Moves
    rw [hcommitted, hview]
    exact ⟨hrefl _, hrefl _⟩
  · have hmove := h t ht
    have hcommitted : s.view = s.committed := view_of_none ht.2.1
    rcases hend with ⟨-, heq⟩ | ⟨-, -, hback, hopen⟩
    · rw [heq]
      exact ⟨hcommitted ▸ hmove, hmove⟩
    · by_cases hu : o.Undoes rollsBack
      · rw [hback hu]
        exact ⟨hrefl _, hrefl _⟩
      · rw [hopen hu]
        exact ⟨hrefl _, hmove⟩

/-- A transaction whose statement is not reached moves nothing. -/
theorem transact_unreached (h : ∀ t, ¬ Reaches o f s t) :
    (transact o rollsBack f s).1 = false ∧ s.Moves Eq (transact o rollsBack f s).2 := by
  refine ⟨?_, transact_moves (fun _ => rfl) fun t ht => absurd ht (h t)⟩
  rw [← Bool.not_eq_true]
  intro hdone
  obtain ⟨-, t, ht⟩ := transact_done_iff.1 hdone
  exact h t ht

/-- A transaction whose commit fails and is undone moves nothing. -/
theorem transact_undone (hcommit : o.commit = false) (hundoes : o.Undoes rollsBack) :
    (transact o rollsBack f s).1 = false ∧ s.Moves Eq (transact o rollsBack f s).2 := by
  rcases transact_cases o rollsBack f s with ⟨-, hfail, hcommitted, hview, -⟩ | ⟨-, -, ⟨hc, -⟩ |
    ⟨-, hfail, hback, -⟩⟩
  · exact ⟨hfail, hcommitted.symm, hview.symm⟩
  · rw [hcommit] at hc
    cases hc
  · rw [hback hundoes]
    exact ⟨hfail, rfl, rfl⟩

/-- A statement that is reached is seen behind the transaction, where a failed commit is left. -/
theorem transact_view {t : τ} (ht : Reaches o f s t)
    (hleft : o.commit = true ∨ o.commitAborts = false) : (transact o false f s).2.view = t := by
  rcases transact_cases o false f s with ⟨hno, -⟩ | ⟨t', ht', ⟨-, heq⟩ | ⟨hc, -, -, hopen⟩⟩
  · exact absurd ht (hno t)
  · rw [heq]
    exact Option.some.inj (ht'.2.2.2.symm.trans ht.2.2.2)
  · rw [hopen (by simp [Outcomes.Undoes, hleft.resolve_left (by simp [hc])])]
    exact Option.some.inj (ht'.2.2.2.symm.trans ht.2.2.2)

end Transactions
