import HttpsTest.Db.SqliteDatabase

/-!
# Operations as transactions

On a connected object whose statements are all prepared on its connection (`Prepared`), an operation
that changes rows is the transaction of `Lib.Transactions` on the tables of the connection
(`transact_spec`, `run_spec`).
-/

set_option autoImplicit false

namespace HttpsTest

open Transactions

/-! ## Steps of the engine -/

namespace Sqlite

/-- What a step on the connection `h` leaves alone. -/
structure Frame (h : Nat) (w w' : Sqlite) : Prop where
  databaseOf : ∀ k, w'.databaseOf k = w.databaseOf k
  foreignKeys : (w'.connections h).foreignKeys = (w.connections h).foreignKeys
  others : ∀ d, d ≠ w.databaseOf h → w'.databases d = w.databases d

theorem Frame.trans {h : Nat} {w w' w'' : Sqlite} (h1 : Frame h w w') (h2 : Frame h w' w'') :
    Frame h w w'' where
  databaseOf k := (h2.databaseOf k).trans (h1.databaseOf k)
  foreignKeys := h2.foreignKeys.trans h1.foreignKeys
  others d hd := (h2.others d (by rwa [h1.databaseOf])).trans (h1.others d hd)

variable (w : Sqlite) (h : Nat)

theorem databaseOf_setStore (s : Store Tables) (k : Nat) :
    (w.setStore h s).databaseOf k = w.databaseOf k := by
  simp only [databaseOf, setStore, Function.update_apply]
  split
  · rename_i hk
    rw [hk]
  · rfl

theorem store_setStore (s : Store Tables) : (w.setStore h s).store h = s := by
  have hdb := w.databaseOf_setStore h s h
  unfold store
  rw [hdb]
  simp [setStore]

theorem frame_setStore (s : Store Tables) : Frame h w (w.setStore h s) where
  databaseOf := w.databaseOf_setStore h s
  foreignKeys := by simp [setStore]
  others d hd := Function.update_of_ne hd _ _

theorem frame_touch : Frame h w (w.touch h) := ⟨fun _ => rfl, rfl, fun _ _ => rfl⟩

theorem store_stepStore (act : Store Tables → Bool × Store Tables) :
    (w.stepStore h act).2.store h = (act (w.store h)).2 := store_setStore _ _ _

theorem frame_stepStore (act : Store Tables → Bool × Store Tables) :
    Frame h w (w.stepStore h act).2 := (w.frame_touch h).trans (frame_setStore _ _ _)

/-- The statement `n` as a change of the tables. -/
def change (n : StatementName) (parameter now : Int) (t : Tables) : Option Tables :=
  (n.modify (w.connections h).foreignKeys parameter now t).map (·.1)

theorem change_congr {w w' : Sqlite} {h : Nat} (hf : Frame h w w') (n : StatementName)
    (parameter now : Int) : w'.change h n parameter now = w.change h n parameter now := by
  unfold change
  rw [hf.foreignKeys]

/-- Storing the new id changes nothing else. -/
theorem setRowid_spec (rowid : Int) :
    let w' := { w with
      connections := Function.update w.connections h
        { w.connections h with lastInsertRowid := rowid } }
    w'.store h = w.store h ∧ Frame h w w' ∧ (w'.connections h).lastInsertRowid = rowid := by
  intro w'
  have hdb (k : Nat) : w'.databaseOf k = w.databaseOf k := by
    simp only [databaseOf, w', Function.update_apply]
    split
    · rename_i hk
      rw [hk]
    · rfl
  have hconn : w'.connections h = { w.connections h with lastInsertRowid := rowid } :=
    Function.update_self _ _ _
  refine ⟨?_, ⟨hdb, by rw [hconn], fun _ _ => rfl⟩, by rw [hconn]⟩
  unfold store
  rw [hdb, hconn]

theorem stepModify_spec (ok : Bool) (n : StatementName) (parameter now : Int) :
    let r := stepModify ok n parameter now w h
    r.1 = (Store.update ok (w.change h n parameter now) (w.store h)).1 ∧
      r.2.store h = (Store.update ok (w.change h n parameter now) (w.store h)).2 ∧
      Frame h w r.2 ∧
      (∀ t rowid, n.modify (w.connections h).foreignKeys parameter now (w.store h).view =
        some (t, some rowid) → r.1 = true → (r.2.connections h).lastInsertRowid = rowid) := by
  have hstep := w.store_stepStore h (Store.update ok (w.change h n parameter now))
  have hframe := w.frame_stepStore h (Store.update ok (w.change h n parameter now))
  unfold stepModify
  simp only
  rw [show (fun t => (n.modify (w.connections h).foreignKeys parameter now t).map (·.1)) =
    w.change h n parameter now from rfl]
  set w' := (w.stepStore h (Store.update ok (w.change h n parameter now))).2 with hw'
  have hdone : (w.stepStore h (Store.update ok (w.change h n parameter now))).1 =
    (Store.update ok (w.change h n parameter now) (w.store h)).1 := rfl
  split
  · rename_i done t rowid hd hm
    obtain ⟨hs, hf, hr⟩ := setRowid_spec w' h rowid
    refine ⟨hdone, hs.trans hstep, hframe.trans hf, ?_⟩
    intro t' rowid' ht _
    rw [hm] at ht
    cases ht
    exact hr
  · rename_i hno
    exact ⟨hdone, hstep, hframe, fun t rowid ht hd => (hno t rowid hd ht).elim⟩

end Sqlite

/-! ## Operations -/

namespace SqliteDatabase

/-! ### The statement table -/

section
variable {n : StatementName} {s : SqliteDatabase}

theorem statement_of_statement {h : Nat} (hslot : s.preparedStatements n = .statement h) :
    s.statement n = (some h, s) := by
  unfold statement
  rw [hslot]

theorem statement_of_none (hslot : ∀ h, s.preparedStatements n ≠ .statement h) :
    s.statement n = (none, (s.statement n).2) := by
  unfold statement
  cases hs : s.preparedStatements n with
  | statement h => exact absurd hs (hslot h)
  | _ => rfl

theorem world_statement (n : StatementName) (s : SqliteDatabase) :
    (s.statement n).2.world = s.world := by
  unfold statement
  split <;> rfl

end

/-! ### Prepared objects -/

/-- The object is connected, and every statement is prepared on its connection. -/
structure Prepared (s : SqliteDatabase) (h : Nat) : Prop where
  connected : s.db = some h
  statements : ∀ n, s.preparedStatements n = .statement h

variable {s : SqliteDatabase} {h : Nat}

theorem Prepared.statement (hp : s.Prepared h) (n : StatementName) :
    s.statement n = (some h, s) := statement_of_statement (hp.statements n)

theorem Prepared.withWorld (hp : s.Prepared h) (w : Sqlite) :
    { s with world := w }.Prepared h := ⟨hp.connected, hp.statements⟩

theorem Prepared.transactionStep (hp : s.Prepared h) (n : StatementName)
    (act : Sqlite → Nat → Bool × Sqlite) : s.transactionStep n act = s.step act h := by
  unfold SqliteDatabase.transactionStep
  rw [hp.statement n]

/-- What an operation that runs a transaction leaves, on a prepared object. -/
structure Ran {α : Type} (h : Nat) (s : SqliteDatabase) (o : StepOutcomes) (n : StatementName)
    (parameter : Int) (rollsBack : Bool) (result : SqliteDatabase → Except Exn α)
    (r : Except Exn (Option α) × SqliteDatabase) : Prop where
  prepared : r.2.Prepared h
  frame : Sqlite.Frame h s.world r.2.world
  store : r.2.world.store h = (Transactions.transact o.toOutcomes rollsBack
    (s.world.change h n parameter o.now) (s.world.store h)).2
  reply : ∃ a, r.1 = .ok a ∧ a.isSome = (Transactions.transact o.toOutcomes rollsBack
    (s.world.change h n parameter o.now) (s.world.store h)).1
  value : ∀ a, r.1 = .ok (some a) → ∃ s', s'.db = some h ∧ result s' = .ok a ∧
    ∀ t rowid, n.modify (s.world.connections h).foreignKeys parameter o.now
      (s.world.store h).view = some (t, some rowid) →
        (s'.world.connections h).lastInsertRowid = rowid

/-- How the three functions that begin and end transactions act on the tables. -/
theorem Prepared.stepStore (hp : s.Prepared h) (n : StatementName)
    (act : Store Tables → Bool × Store Tables) :
    ∃ w, s.transactionStep n (fun w h => w.stepStore h act) =
        ((act (s.world.store h)).1, { s with world := w }) ∧
      w.store h = (act (s.world.store h)).2 ∧ Sqlite.Frame h s.world w :=
  ⟨_, hp.transactionStep n _, Sqlite.store_stepStore _ _ _, Sqlite.frame_stepStore _ _ _⟩

/-- An operation that reported failure. -/
theorem Ran.failed {α : Type} {o : StepOutcomes} {n : StatementName} {parameter : Int}
    {rollsBack : Bool} {result : SqliteDatabase → Except Exn α} {w : Sqlite} {t : Store Tables}
    (hp : s.Prepared h) (hf : Sqlite.Frame h s.world w) (hw : w.store h = t)
    (ht : Transactions.transact o.toOutcomes rollsBack (s.world.change h n parameter o.now)
      (s.world.store h) = (false, t)) :
    Ran h s o n parameter rollsBack result (.ok none, { s with world := w }) where
  prepared := hp.withWorld w
  frame := hf
  store := by rw [ht]; exact hw
  reply := ⟨none, rfl, by rw [ht]; rfl⟩
  value _ ha := nomatch ha

theorem transact_spec {α : Type} (hp : s.Prepared h) (o : StepOutcomes) (n : StatementName)
    (parameter : Int) (rollsBack : Bool) (result : SqliteDatabase → Except Exn α)
    (hresult : ∀ s', s'.db = some h → ∃ a, result s' = .ok a) :
    Ran h s o n parameter rollsBack result (s.transact o n parameter rollsBack result) := by
  -- the begin
  obtain ⟨w1, e1, hs1, hf1⟩ := hp.stepStore .beginTransaction (Store.begin o.begin)
  have hp1 := hp.withWorld w1
  rcases hb : (s.world.store h).begin o.begin with ⟨_ | _, t1⟩ <;> rw [hb] at e1 hs1
  · have e : s.transact o n parameter rollsBack result = (.ok none, { s with world := w1 }) := by
      unfold SqliteDatabase.transact
      rw [show s.beginTransaction o.begin = _ from e1]
    rw [e]
    exact .failed hp hf1 hs1 (by unfold Transactions.transact; rw [hb])
  -- the statement
  obtain ⟨hd2, hs2, hf2, hr2⟩ := w1.stepModify_spec h o.statement n parameter o.now
  set r2 := w1.stepModify o.statement n parameter o.now h with hr2'
  rw [hs1, Sqlite.change_congr hf1] at hd2 hs2
  have hp2 := hp.withWorld r2.2
  have hf12 := hf1.trans hf2
  have e2 : s.transact o n parameter rollsBack result =
      conclude o rollsBack result (r2.1, { s with world := r2.2 }) := by
    unfold SqliteDatabase.transact
    rw [show s.beginTransaction o.begin = _ from e1]
    simp only [hp1.statement n]
    rfl
  -- the rollback of a failed statement or commit
  have hrollback (w : Sqlite) : ∃ w', ({ s with world := w }.rollbackTransaction o.rollback).2 =
      { s with world := w' } ∧ w'.store h = ((w.store h).rollback o.rollback).2 ∧
        Sqlite.Frame h w w' := by
    obtain ⟨w', e, hs, hf⟩ := (hp.withWorld w).stepStore .rollbackTransaction
      (Store.rollback o.rollback)
    exact ⟨w', by rw [show SqliteDatabase.rollbackTransaction _ _ = _ from e], hs, hf⟩
  rcases hu : t1.update o.statement (s.world.change h n parameter o.now) with ⟨_ | _, t2⟩ <;>
    rw [hu] at hd2 hs2 <;> rw [hd2, conclude] at e2
  · obtain ⟨w3, e3, hs3, hf3⟩ := hrollback r2.2
    rw [e2, e3]
    apply Ran.failed hp (hf12.trans hf3) hs3
    unfold Transactions.transact
    rw [hb]
    simp only [hu, hs2]
  -- the commit
  obtain ⟨a, ha⟩ := hresult { s with world := r2.2 } hp.connected
  obtain ⟨w3, e3, hs3, hf3⟩ :=
    hp2.stepStore .commitTransaction (Store.commit o.commit o.commitAborts)
  have hf123 := hf12.trans hf3
  rw [hs2] at e3 hs3
  simp only [ha,
    show commitTransaction o.commit o.commitAborts { s with world := r2.2 } = _ from e3] at e2
  rcases hc : t2.commit o.commit o.commitAborts with ⟨_ | _, t3⟩ <;>
    rw [hc] at e2 hs3 <;> simp only at e2
  · have hT : Transactions.transact o.toOutcomes rollsBack (s.world.change h n parameter o.now)
        (s.world.store h) = (false, if rollsBack then (t3.rollback o.rollback).2 else t3) := by
      unfold Transactions.transact
      rw [hb]
      simp only [hu, hc]
    cases rollsBack with
    | false =>
      rw [e2]
      exact .failed hp hf123 hs3 hT
    | true =>
      obtain ⟨w4, e4, hs4, hf4⟩ := hrollback w3
      rw [e2, if_pos rfl, e4]
      apply Ran.failed hp (hf123.trans hf4) hs4
      rw [hT, if_pos rfl, hs3]
  · have hT : Transactions.transact o.toOutcomes rollsBack (s.world.change h n parameter o.now)
        (s.world.store h) = (true, t3) := by
      unfold Transactions.transact
      rw [hb]
      simp only [hu, hc]
    rw [e2]
    refine ⟨hp.withWorld _, hf123, by rw [hT]; exact hs3, ⟨some a, rfl, by rw [hT]; rfl⟩, ?_⟩
    rintro a' ha'
    cases ha'
    refine ⟨{ s with world := r2.2 }, hp.connected, ha, ?_⟩
    intro t rowid ht
    refine hr2 t rowid ?_ hd2
    -- the statement sees the tables that were there at the begin
    have hview : t1.view = (s.world.store h).view := by
      unfold Store.begin at hb
      split at hb
      · rename_i hcond
        cases hb
        rw [Store.view_of_none hcond.2]
        rfl
      · cases hb
    rw [hs1, hf1.foreignKeys, hview]
    exact ht

end SqliteDatabase

/-! ## Operations as statements -/

open SqliteDatabase

/-- An operation that changes rows runs its statement in a transaction. -/
theorem Mutation.run_eq (m : Mutation) : ∃ (α : Type) (result : SqliteDatabase → Except Exn α)
    (reply : Option α → Reply), reply none = m.failure ∧ ∀ o s, m.run o s =
      ((s.transact o m.statement m.parameter m.rollsBack result).1.map reply,
        (s.transact o m.statement m.parameter m.rollsBack result).2) := by
  have hinsert (o : StepOutcomes) (n : StatementName) (parameter : Int) (s : SqliteDatabase) :
      (s.insert o n parameter).1.map Reply.int =
        (s.transact o n parameter false lastInsertRowid).1.map fun a => .int (a.getD (-1)) := by
    unfold SqliteDatabase.insert
    rcases s.transact o n parameter false lastInsertRowid with ⟨_ | _, _⟩ <;> rfl
  have hchange (o : StepOutcomes) (n : StatementName) (parameter : Int) (rollsBack : Bool)
      (s : SqliteDatabase) : (s.change o n parameter rollsBack).1.map Reply.bool =
        (s.transact o n parameter rollsBack fun _ => .ok ()).1.map fun a => .bool a.isSome := by
    unfold SqliteDatabase.change
    rcases s.transact o n parameter rollsBack fun _ => .ok () with ⟨_ | _, _⟩ <;> rfl
  cases m with
  | addClient | addClientConnection =>
    exact ⟨_, lastInsertRowid, _, rfl, fun o s => Prod.ext (hinsert o _ _ s) rfl⟩
  | _ => exact ⟨_, fun _ => .ok (), _, rfl, fun o s => Prod.ext (hchange o _ _ _ s) rfl⟩

/-- A statement that reads, on the connection it was prepared on. -/
theorem SqliteDatabase.query_of_statement {α : Type} {o : StepOutcomes} {n : StatementName}
    {failure : α} {read : Tables → Option α} {s : SqliteDatabase} {h : Nat}
    (hslot : s.preparedStatements n = .statement h) : query o n failure read s =
      (((s.world.stepSelect o.statement read h).1).getD failure,
        { s with world := s.world.touch h }) := by
  unfold query
  rw [statement_of_statement hslot]
  rfl

theorem SqliteDatabase.query_of_none {α : Type} {o : StepOutcomes} {n : StatementName}
    {failure : α} {read : Tables → Option α} {s : SqliteDatabase}
    (hslot : ∀ h, s.preparedStatements n ≠ .statement h) :
    query o n failure read s = (failure, (s.statement n).2) := by
  unfold query
  rw [statement_of_none hslot]

namespace Query

variable {q : Query} {o : StepOutcomes} {s : SqliteDatabase}

theorem run_of_statement {h : Nat} (hslot : s.preparedStatements q.statement = .statement h) :
    (q.run o s).2 = { s with world := s.world.touch h } := by
  cases q <;> simp only [statement] at hslot <;>
    simp only [run, SqliteDatabase.getClientById, SqliteDatabase.getClientByIp,
      SqliteDatabase.getClientIdByIp, SqliteDatabase.getClientIpById,
      SqliteDatabase.getClientCount, SqliteDatabase.getAllClients,
      SqliteDatabase.getClientConnectionCount, query_of_statement hslot]

theorem run_of_none (hslot : ∀ h, s.preparedStatements q.statement ≠ .statement h) :
    q.run o s = (q.failure, (s.statement q.statement).2) := by
  cases q <;> simp only [statement] at hslot <;>
    simp only [run, SqliteDatabase.getClientById, SqliteDatabase.getClientByIp,
      SqliteDatabase.getClientIdByIp, SqliteDatabase.getClientIpById,
      SqliteDatabase.getClientCount, SqliteDatabase.getAllClients,
      SqliteDatabase.getClientConnectionCount, query_of_none hslot] <;> rfl

end Query

end HttpsTest
