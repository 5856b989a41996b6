import HttpsTest.Lib.Runs
import HttpsTest.Db.Proof.Connect

/-!
# Atomicity of the operations

`mutation_atomic_iff`: an operation on a prepared object leaves no open transaction, and the tables
as they were where it reports failure, exactly if it is not one of the six that leave a failed
commit alone, or meets none that leaves the transaction open, and if no new id is reported as the -1
of a failure.
-/

set_option autoImplicit false

namespace HttpsTest

open Transactions SqliteDatabase

namespace Mutation

variable {s : SqliteDatabase} {h : Nat}

/-- Its statement as a change of the tables. -/
def effect (m : Mutation) (o : StepOutcomes) (s : SqliteDatabase) (h : Nat) :
    Tables → Option Tables := s.world.change h m.statement m.parameter o.now

/-- The id an insert gives its row. -/
def newId (m : Mutation) (t : Tables) : Int :=
  match m with
  | .addClient _ => newRowid ClientRow.id t.clients
  | _ => newRowid ConnectionRow.id t.connections

/-- The operation as a transaction on the tables of the connection. -/
def transaction (m : Mutation) (o : StepOutcomes) (s : SqliteDatabase) (h : Nat) :
    Bool × Store Tables :=
  Transactions.transact o.toOutcomes m.rollsBack (m.effect o s h) (s.world.store h)

/-- What an operation leaves, on a prepared object. -/
structure Ran (m : Mutation) (o : StepOutcomes) (s : SqliteDatabase) (h : Nat) : Prop where
  prepared : (m.run o s).2.Prepared h
  frame : Sqlite.Frame h s.world (m.run o s).2.world
  store : (m.run o s).2.world.store h = (m.transaction o s h).2
  reply : ∃ reply, (m.run o s).1 = .ok reply ∧
    ((m.transaction o s h).1 = false → reply = m.failure) ∧
    ((m.transaction o s h).1 = true →
      reply = if m.inserts then .int (.ofInt (m.newId (s.world.store h).view)) else .bool true)

/-- An insert that succeeds reports the id of its row. -/
theorem modify_insert {m : Mutation} (hm : m.inserts = true) {fk : Bool} {parameter now : Int}
    {t t' : Tables} {r : Option Int}
    (hr : m.statement.modify fk parameter now t = some (t', r)) : r = some (m.newId t) := by
  cases m with
  | addClient ip =>
    simp only [statement, StatementName.modify, Tables.insertClient] at hr
    split at hr
    · cases hr
    · cases hr
      rfl
  | addClientConnection id time =>
    simp only [statement, StatementName.modify, Tables.insertClientConnection] at hr
    split at hr
    · cases hr
    · cases hr
      rfl
  | _ => cases hm

/-- An operation that returns the new id. -/
theorem ran_insert {m : Mutation} (hm : m.inserts = true) (hback : m.rollsBack = false)
    (hp : s.Prepared h) (o : StepOutcomes)
    (hrun : m.run o s = ((s.insert o m.statement m.parameter).1.map .int,
      (s.insert o m.statement m.parameter).2)) : m.Ran o s h := by
  have hspec := transact_spec hp o m.statement m.parameter false lastInsertRowid
    fun s' hs' => ⟨_, by unfold lastInsertRowid; rw [hs']⟩
  obtain ⟨a, ha, hsome⟩ := hspec.reply
  have htrans : m.transaction o s h = Transactions.transact o.toOutcomes false
    (s.world.change h m.statement m.parameter o.now) (s.world.store h) := by
    unfold transaction effect
    rw [hback]
  have hreply : (m.run o s).1 = .ok (.int (a.getD (-1))) := by
    rw [hrun]
    unfold SqliteDatabase.insert
    simp only [ha]
    rfl
  refine ⟨by rw [hrun]; exact hspec.prepared, by rw [hrun]; exact hspec.frame,
    by rw [hrun, htrans]; exact hspec.store, _, hreply, ?_, ?_⟩
  · intro hfail
    rw [htrans, ← hsome, Option.isSome_eq_false_iff, Option.isNone_iff_eq_none] at hfail
    rw [hfail, failure, if_pos hm, Option.getD_none]
  · intro hdone
    obtain ⟨-, t, -, -, -, ht⟩ := transact_done_iff.1 hdone
    rw [htrans, ← hsome] at hdone
    obtain ⟨n, rfl⟩ := Option.isSome_iff_exists.1 hdone
    obtain ⟨s', hdb, hn, hrow⟩ := hspec.value n ha
    obtain ⟨⟨t', r⟩, hmod, -⟩ := Option.map_eq_some_iff.1 ht
    have hr := modify_insert hm hmod
    rw [hr] at hmod
    have hrowid := hrow t' _ hmod
    unfold lastInsertRowid at hn
    rw [hdb] at hn
    cases hn
    rw [if_pos hm, Option.getD_some, hrowid]

/-- An operation that returns whether it succeeded. -/
theorem ran_change {m : Mutation} (hm : m.inserts = false) (hp : s.Prepared h) (o : StepOutcomes)
    (hrun : m.run o s = ((s.change o m.statement m.parameter m.rollsBack).1.map .bool,
      (s.change o m.statement m.parameter m.rollsBack).2)) : m.Ran o s h := by
  have hspec := transact_spec hp o m.statement m.parameter m.rollsBack
    (fun _ => .ok ()) fun _ _ => ⟨(), rfl⟩
  obtain ⟨a, ha, hsome⟩ := hspec.reply
  have hreply : (m.run o s).1 = .ok (.bool a.isSome) := by
    rw [hrun]
    unfold SqliteDatabase.change
    simp only [ha]
    rfl
  refine ⟨by rw [hrun]; exact hspec.prepared, by rw [hrun]; exact hspec.frame,
    by rw [hrun]; exact hspec.store, _, hreply, ?_, ?_⟩
  · intro hfail
    rw [show a.isSome = false from hsome.trans hfail, failure, hm]
    rfl
  · intro hdone
    rw [show a.isSome = true from hsome.trans hdone, hm]
    rfl

/-- **Every operation is a transaction** on the tables of its connection. -/
theorem run_spec (hp : s.Prepared h) (m : Mutation) (o : StepOutcomes) : m.Ran o s h := by
  cases m with
  | addClient ip => exact ran_insert rfl rfl hp o rfl
  | addClientConnection id time => exact ran_insert rfl rfl hp o rfl
  | _ => exact ran_change rfl hp o rfl

/-- What an operation returns, behind the wrapping of `run`. -/
theorem reply_spec {α : Type} {m : Mutation} {wrap : α → Reply} (hp : s.Prepared h)
    {o : StepOutcomes} {r : Except Exn α × SqliteDatabase}
    (hrun : m.run o s = (r.1.map wrap, r.2)) :
    (∃ a, r.1 = .ok a ∧ wrap a = if (m.transaction o s h).1 then
        if m.inserts then .int (.ofInt (m.newId (s.world.store h).view)) else .bool true
      else m.failure) ∧
      r.2.Prepared h ∧ r.2.world.store h = (m.transaction o s h).2 := by
  obtain ⟨hprepared, -, hstore, reply, hreply, hfail, hdone⟩ := m.run_spec hp o
  rw [hrun] at hprepared hstore hreply
  refine ⟨?_, hprepared, hstore⟩
  cases hr : r.1 with
  | error e =>
    rw [hr] at hreply
    cases hreply
  | ok a =>
    rw [hr] at hreply
    cases hreply
    refine ⟨a, rfl, ?_⟩
    split
    · exact hdone ‹_›
    · exact hfail (Bool.not_eq_true _ ▸ ‹_›)

/-- What an operation returns that inserts a row. -/
theorem insert_spec {m : Mutation} (hm : m.inserts = true) (hp : s.Prepared h) {o : StepOutcomes}
    {r : Except Exn Int32 × SqliteDatabase} (hrun : m.run o s = (r.1.map .int, r.2)) :
    r.1 = .ok (if (m.transaction o s h).1 then .ofInt (m.newId (s.world.store h).view) else -1) ∧
      r.2.Prepared h ∧ r.2.world.store h = (m.transaction o s h).2 := by
  obtain ⟨⟨n, hr, hn⟩, hends⟩ := reply_spec hp hrun
  refine ⟨?_, hends⟩
  rw [failure, if_pos hm, if_pos hm, ← apply_ite Reply.int] at hn
  rw [hr, Reply.int.inj hn]

/-- What an operation returns that inserts none. -/
theorem change_spec {m : Mutation} (hm : m.inserts = false) (hp : s.Prepared h) {o : StepOutcomes}
    {r : Except Exn Bool × SqliteDatabase} (hrun : m.run o s = (r.1.map .bool, r.2)) :
    r.1 = .ok (m.transaction o s h).1 ∧ r.2.Prepared h ∧
      r.2.world.store h = (m.transaction o s h).2 := by
  obtain ⟨⟨b, hr, hb⟩, hends⟩ := reply_spec hp hrun
  refine ⟨?_, hends⟩
  rw [failure, hm, if_neg Bool.false_ne_true, if_neg Bool.false_ne_true,
    ← apply_ite Reply.bool] at hb
  rw [hr, Reply.bool.inj hb]
  cases (m.transaction o s h).1 <;> rfl

/-! ## Atomicity -/

/-- The operation returns without an open transaction, and with the tables it found where it reports
failure. -/
def Clean (m : Mutation) (o : StepOutcomes) (s : SqliteDatabase) (h : Nat) : Prop :=
  ∃ reply, (m.run o s).1 = .ok reply ∧
    ((m.run o s).2.world.connections h).transaction = none ∧
    (reply = m.failure →
      ∀ d, ((m.run o s).2.world.databases d).tables = (s.world.databases d).tables)

/-- The begin and the statement succeed. -/
def Reached (m : Mutation) (o : StepOutcomes) (s : SqliteDatabase) (h : Nat) : Prop :=
  o.begin = true ∧ o.statement = true ∧
    (m.effect o s h (s.world.databases (s.world.databaseOf h)).tables).isSome = true

/-- The operation meets a failing commit that it leaves, and that leaves the transaction open. -/
def LeavesCommit (m : Mutation) (o : StepOutcomes) (s : SqliteDatabase) (h : Nat) : Prop :=
  m.rollsBack = false ∧ m.Reached o s h ∧ o.commit = false ∧ o.commitAborts = false

/-- The new id, as an `int`, is -1. -/
def ReportsFailure (m : Mutation) (o : StepOutcomes) (s : SqliteDatabase) (h : Nat) : Prop :=
  m.inserts = true ∧ m.Reached o s h ∧ o.commit = true ∧
    Int32.ofInt (m.newId (s.world.databases (s.world.databaseOf h)).tables) = -1

/-- An insert changes the tables. -/
theorem effect_insert_ne {m : Mutation} (hm : m.inserts = true) {o : StepOutcomes} {t t' : Tables}
    (ht : m.effect o s h t = some t') : t' ≠ t := by
  obtain ⟨⟨t1, r⟩, hmod, rfl⟩ := Option.map_eq_some_iff.1 ht
  cases m with
  | addClient ip =>
    simp only [statement, StatementName.modify, Tables.insertClient] at hmod
    split at hmod
    · cases hmod
    · cases hmod
      intro heq
      simpa using congrArg (·.clients.length) heq
  | addClientConnection id time =>
    simp only [statement, StatementName.modify, Tables.insertClientConnection] at hmod
    split at hmod
    · cases hmod
    · cases hmod
      intro heq
      simpa using congrArg (·.connections.length) heq
  | _ => cases hm

/-- The tables of all databases are those of the transaction. -/
theorem tables_eq_iff (hp : s.Prepared h) (m : Mutation) (o : StepOutcomes) :
    (∀ d, ((m.run o s).2.world.databases d).tables = (s.world.databases d).tables) ↔
      (m.transaction o s h).2.committed = (s.world.store h).committed := by
  have hspec := m.run_spec hp o
  have htables : ((m.run o s).2.world.databases (s.world.databaseOf h)).tables =
      (m.transaction o s h).2.committed := by
    rw [← hspec.frame.databaseOf h]
    exact congrArg Store.committed hspec.store
  rw [← htables]
  refine ⟨fun hall => ?_, fun heq d => ?_⟩
  · exact hall _
  · by_cases hd : d = s.world.databaseOf h
    · rw [hd, heq]
      rfl
    · rw [hspec.frame.others d hd]

section
variable (hp : s.Prepared h) (hno : (s.world.connections h).transaction = none) (m : Mutation)
  {o : StepOutcomes}
include hno

theorem reached_iff :
    m.Reached o s h ↔ ∃ t, Reaches o.toOutcomes (m.effect o s h) (s.world.store h) t := by
  have hview : (s.world.store h).view = (s.world.databases (s.world.databaseOf h)).tables :=
    Store.view_of_none hno
  unfold Reached Reaches
  rw [Option.isSome_iff_exists, hview]
  constructor
  · rintro ⟨hbegin, hstatement, t, ht⟩
    exact ⟨t, hbegin, hno, hstatement, ht⟩
  · rintro ⟨t, hbegin, -, hstatement, ht⟩
    exact ⟨hbegin, hstatement, t, ht⟩

include hp

/-- An operation leaves a transaction open exactly if it leaves a failed commit. -/
theorem transaction_none_iff (hrollback : o.rollback = true) :
    ((m.run o s).2.world.connections h).transaction = none ↔ ¬ m.LeavesCommit o s h := by
  have htransaction : ((m.run o s).2.world.connections h).transaction =
      (m.transaction o s h).2.working := congrArg Store.working (m.run_spec hp o).store
  unfold LeavesCommit
  rw [htransaction, m.reached_iff hno, and_comm (b := o.commit = false ∧ _), and_assoc]
  exact transact_working_iff hno hrollback

/-- An operation that reports failure has changed the tables exactly if the failure it reports is
the new id. -/
theorem tables_kept_iff {reply : Reply} (hreply : (m.run o s).1 = .ok reply) :
    (reply = m.failure →
      ∀ d, ((m.run o s).2.world.databases d).tables = (s.world.databases d).tables) ↔
      ¬ m.ReportsFailure o s h := by
  obtain ⟨reply', hreply', -, hdone⟩ := (m.run_spec hp o).reply
  rw [hreply] at hreply'
  cases hreply'
  have hview : (s.world.store h).view = (s.world.databases (s.world.databaseOf h)).tables :=
    Store.view_of_none hno
  rw [m.tables_eq_iff hp]
  unfold ReportsFailure
  rw [m.reached_iff hno, ← hview]
  cases hd : (m.transaction o s h).1 with
  | false =>
    refine iff_of_true (fun _ => transact_failed hd) ?_
    intro hl
    rw [show (m.transaction o s h).1 = true from transact_done_iff.2 ⟨hl.2.2.1, hl.2.1⟩] at hd
    cases hd
  | true =>
    obtain ⟨hc, t, ht⟩ := transact_done_iff.1 hd
    rw [hdone hd, show m.transaction o s h = _ from transact_of_reaches ht hc]
    cases hm : m.inserts with
    | false =>
      refine iff_of_true (fun hf => ?_) fun hl => by cases hl.1
      rw [failure, hm] at hf
      simp at hf
    | true =>
      -- an insert that is done has changed the tables, so its reply must not be the failure
      have hne : t ≠ (s.world.store h).committed := by
        rw [← Store.view_of_none (s := s.world.store h) hno]
        exact effect_insert_ne hm ht.2.2.2
      rw [failure, hm, if_pos rfl, if_pos rfl, Reply.int.injEq]
      exact ⟨fun himp hl => hne (himp hl.2.2.2),
        fun hl hminus => (hl ⟨rfl, ⟨t, ht⟩, hc, hminus⟩).elim⟩

/-- **An operation is atomic** exactly if it leaves no failed commit and reports no new id as a
failure. -/
theorem mutation_atomic_iff (hrollback : o.rollback = true) :
    m.Clean o s h ↔ ¬ m.LeavesCommit o s h ∧ ¬ m.ReportsFailure o s h := by
  obtain ⟨reply, hreply, -⟩ := (m.run_spec hp o).reply
  have hclean : m.Clean o s h ↔ ((m.run o s).2.world.connections h).transaction = none ∧
      (reply = m.failure →
        ∀ d, ((m.run o s).2.world.databases d).tables = (s.world.databases d).tables) := by
    unfold Clean
    rw [hreply]
    refine ⟨fun ⟨r, hr, hnone, hkept⟩ => ?_, fun ⟨hnone, hkept⟩ => ?_⟩
    · cases hr
      exact ⟨hnone, hkept⟩
    · exact ⟨reply, rfl, hnone, hkept⟩
  rw [hclean, m.transaction_none_iff hp hno hrollback, m.tables_kept_iff hp hno hreply]

end

theorem removeConnection_clean :
    (Mutation.removeConnection 1).Clean { commit := false } memory 0 :=
  (mutation_atomic_iff memory_prepared rfl (.removeConnection 1) rfl).2
    ⟨fun hl => absurd hl.1 (by decide), fun hl => absurd hl.1 (by decide)⟩

/-- A client that cannot be committed leaves the transaction open, and the next one cannot begin. -/
theorem addClient_leaves_transaction :
    memory.Prepared 0 ∧ (memory.world.connections 0).transaction = none ∧
      ¬ (Mutation.addClient 7).Clean { commit := false } memory 0 ∧
      ((Mutation.addClient 8).run {} ((Mutation.addClient 7).run { commit := false } memory).2).1 =
        .ok (.int (-1)) :=
  ⟨memory_prepared, rfl, fun ⟨_, _, hnone, _⟩ => absurd hnone (by decide), by decide⟩

end Mutation

/-! ## Runs -/

namespace Operation

variable {s : SqliteDatabase} {h : Nat}

/-- An operation keeps the object prepared, and changes no connection's database. -/
theorem next_prepared (hp : s.Prepared h) (c : Operation × StepOutcomes) :
    (next s c).Prepared h ∧ Sqlite.Frame h s.world (next s c).world := by
  obtain ⟨m | q, o⟩ := c
  · exact ⟨(m.run_spec hp o).prepared, (m.run_spec hp o).frame⟩
  · have hq : next s (.read q, o) = { s with world := s.world.touch h } :=
      Query.run_of_statement (hp.statements _)
    rw [hq]
    exact ⟨hp.withWorld _, s.world.frame_touch h⟩

/-- An operation that reads leaves the tables of the connection alone. -/
theorem store_next_read (hp : s.Prepared h) (q : Query) (o : StepOutcomes) :
    (next s (.read q, o)).world.store h = s.world.store h := by
  have hq : next s (.read q, o) = { s with world := s.world.touch h } :=
    Query.run_of_statement (hp.statements _)
  rw [hq]
  rfl

end Operation

end HttpsTest
