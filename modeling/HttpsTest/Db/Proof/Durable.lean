import HttpsTest.Db.Proof.Increments

/-!
# What is reported and what is stored

A connected object whose connect, statements and steps may all have failed in part (`Attached`). In
every run of its operations, between which sqlite may roll a transaction back that was left open,
the database holds the changes that were reported as done, in their order, and nothing else; the
queries are answered from it, or from one change that was reported as failed, behind which no
operation changes anything before sqlite rolls it back (`durable_of_run`).
-/

set_option autoImplicit false

namespace HttpsTest

open Transactions SqliteDatabase

/-! ## What the operations mean -/

/-- What a mutation reports that is done on the tables. -/
def Mutation.success (m : Mutation) (t : Tables) : Reply :=
  if m.inserts then .int (.ofInt (m.newId t)) else .bool true

/-- The tables behind a mutation. -/
def Mutation.modify (m : Mutation) (fk : Bool) (now : Int) (t : Tables) : Option Tables :=
  (m.statement.modify fk m.parameter now t).map (·.1)

/-- What a query reports of the tables. -/
def Query.answer : Query → Tables → Reply
  | .getClientById id, t =>
    .client (((t.clients.find? (·.id = id.toInt)).map .ofRow).getD {})
  | .getClientByIp ip, t =>
    .client (((t.clients.find? (·.ip = ip.toInt)).map .ofRow).getD {})
  | .getClientIdByIp ip, t =>
    .int (((t.clients.find? (·.ip = ip.toInt)).map fun r => .ofInt r.id).getD (-1))
  | .getClientIpById id, t =>
    .int (((t.clients.find? (·.id = id.toInt)).map fun r => .ofInt r.ip).getD (-1))
  | .getClientCount, t => .int (.ofInt t.clients.length)
  | .getAllClients, t => .clients (t.clients.map .ofRow)
  | .getClientConnectionCount id, t => .int (.ofInt (t.clientConnectionCount id.toInt))

/-- A mutation as its caller knows it: the second it ran at, and what it returned. -/
structure Change where
  mutation : Mutation
  now : Int
  reply : Reply
  deriving DecidableEq

namespace Change

/-- It was reported as done. -/
def Acknowledged (c : Change) : Prop := c.reply ≠ c.mutation.failure

instance : DecidablePred Acknowledged := fun _ => inferInstanceAs (Decidable (_ ≠ _))

/-- The tables behind it, if it returned what a mutation returns that is done on them. -/
def apply (fk : Bool) (t : Tables) (c : Change) : Option Tables :=
  if c.reply = c.mutation.success t then c.mutation.modify fk c.now t else none

end Change

/-! ## Attached objects -/

namespace SqliteDatabase

/-- The object is connected, and the statements it has belong to its handle. -/
structure Attached (h : Nat) (s : SqliteDatabase) : Prop where
  connected : s.db = some h
  owned : Owned h s

/-- The object behind a rollback by sqlite. -/
def aborted (s : SqliteDatabase) : SqliteDatabase :=
  { s with world := s.db.elim s.world s.world.abort }

/-- Every query that has a statement, and is not refused, is answered from the tables. -/
def Shows (s : SqliteDatabase) (t : Tables) : Prop :=
  ∀ (q : Query) (o : StepOutcomes),
    (q.run o s).1 = if o.statement && s.has q.statement then q.answer t else q.failure

variable {h : Nat} {s s' : SqliteDatabase}

theorem aborted_spec (hs : s.Attached h) : s.aborted.Attached h ∧ Within h s s.aborted ∧
    s.aborted.world.store h = { committed := (s.world.store h).committed } := by
  have hworld : s.aborted.world = s.world.abort h := by
    unfold aborted
    rw [hs.connected]
    rfl
  refine ⟨⟨hs.connected, hs.owned⟩, ⟨?_, ⟨0, ?_⟩, fun _ => .inl rfl⟩, ?_⟩
  · rw [hworld]
    exact s.world.frame_setStore h _
  · rw [hworld]
    exact (List.append_nil _).symm
  · rw [hworld]
    exact s.world.store_setStore h _

/-- **A connect** that is given a handle attaches the object, whatever else of it fails. -/
theorem attached_connect (w : Sqlite) {o : ConnectOutcomes} (ho : o.opening ≠ .noHandle)
    (connectionString : Bytes) :
    let s := (connect o connectionString { world := w }).2
    s.Attached w.next ∧ (s.world.connections w.next).transaction = none := by
  intro s
  obtain ⟨hopen, -, hconn, -⟩ := w.openDatabase_spec
    (openedPath connectionString { world := w }) o.opening ho
  have hdb : (opened o connectionString { world := w }).db = some w.next := hopen
  have hs : s = (opened o connectionString { world := w }).createDatabase o := by
    simp only [s, connect_opened (s := { world := w }) rfl]
  have hfill := (createDatabase_fills o (opened o connectionString { world := w })).1
  rw [← hs] at hfill
  refine ⟨⟨hfill.db.trans hdb, fun n k hn => ?_⟩, ?_⟩
  · rcases hfill.slots n with heq | ⟨-, hnull | ⟨h, hdb', hstatement⟩⟩
    · rw [heq] at hn
      cases hn
    · rw [hnull] at hn
      cases hn
    · rw [hstatement] at hn
      rw [hdb] at hdb'
      cases hdb'
      cases hn
      rfl
  · rw [hfill.connections]
    exact congrArg DbConnection.transaction hconn

/-! ## The handle -/

theorem db_statement (n : StatementName) (s : SqliteDatabase) : (s.statement n).2.db = s.db := by
  unfold statement
  split <;> rfl

theorem db_transactionStep (n : StatementName) (act : Sqlite → Nat → Bool × Sqlite)
    (s : SqliteDatabase) : (s.transactionStep n act).2.db = s.db := by
  have hdb := db_statement n s
  unfold transactionStep
  rcases hst : s.statement n with ⟨_ | k, s1⟩ <;> rw [hst] at hdb <;> exact hdb

theorem db_conclude {α : Type} (o : StepOutcomes) (rollsBack : Bool)
    (result : SqliteDatabase → Except Exn α) (r : Bool × SqliteDatabase) :
    (conclude o rollsBack result r).2.db = r.2.db := by
  obtain ⟨_ | _, s⟩ := r
  · exact db_transactionStep _ _ s
  · have hcommit : (s.commitTransaction o.commit o.commitAborts).2.db = s.db :=
      db_transactionStep _ _ s
    unfold conclude
    simp only
    split
    · rfl
    · rcases hc : s.commitTransaction o.commit o.commitAborts with ⟨_ | _, s1⟩ <;>
        rw [hc] at hcommit
      · cases rollsBack with
        | false => exact hcommit
        | true => exact (db_transactionStep _ _ s1).trans hcommit
      · exact hcommit

theorem db_transact {α : Type} (o : StepOutcomes) (n : StatementName) (parameter : Int)
    (rollsBack : Bool) (result : SqliteDatabase → Except Exn α) (s : SqliteDatabase) :
    (s.transact o n parameter rollsBack result).2.db = s.db := by
  have hbegin : (s.beginTransaction o.begin).2.db = s.db := db_transactionStep _ _ s
  unfold transact
  rcases hb : s.beginTransaction o.begin with ⟨_ | _, s1⟩ <;> rw [hb] at hbegin
  · exact hbegin
  · have hst := db_statement n s1
    rcases hs : s1.statement n with ⟨_ | k, s2⟩ <;> rw [hs] at hst <;> simp only [hs]
    · exact (db_transactionStep _ _ s2).trans (hst.trans hbegin)
    · exact (db_conclude _ _ _ _).trans (hst.trans hbegin)

/-! ## Mutations -/

/-- What the result of a transaction is computed from: an object on the handle, on which an insert
has left the id of its row. -/
def Computed {α : Type} (h : Nat) (s : SqliteDatabase) (o : StepOutcomes) (n : StatementName)
    (parameter : Int) (result : SqliteDatabase → Except Exn α) (a : α) : Prop :=
  ∃ s', s'.db = some h ∧ result s' = .ok a ∧
    ∀ t rowid, n.modify (s.world.connections h).foreignKeys parameter o.now
      (s.world.store h).view = some (t, some rowid) →
        (s'.world.connections h).lastInsertRowid = rowid

/-- What a transaction leaves does not depend on its result. -/
theorem transact_result {α : Type} (hs : s.Attached h) (o : StepOutcomes) (n : StatementName)
    (parameter : Int) (rollsBack : Bool) (result : SqliteDatabase → Except Exn α)
    (hresult : ∀ s', s'.db = some h → ∃ a, result s' = .ok a) :
    let r := s.transact o n parameter rollsBack result
    let u := s.transact o n parameter rollsBack fun _ => .ok ()
    r.2 = u.2 ∧ ∃ a, r.1 = .ok a ∧ u.1 = .ok (a.map fun _ => ()) ∧
      ∀ x, a = some x → Computed h s o n parameter result x := by
  have hnone (x : α) (hx : none = some x) : Computed h s o n parameter result x := by cases hx
  have hbegin := begin_store hs.owned o.begin
  have hdb1 : (s.beginTransaction o.begin).2.db = s.db := db_transactionStep _ _ s
  have hwithin1 : Within h s (s.beginTransaction o.begin).2 :=
    transactionStep_within hs.owned _ _
  simp only [transact]
  rcases hb : s.beginTransaction o.begin with ⟨_ | _, s1⟩ <;> rw [hb] at hbegin hdb1 hwithin1 <;>
    simp only at hbegin hdb1 hwithin1 ⊢
  · exact ⟨trivial, none, rfl, rfl, hnone⟩
  have hview : (s1.world.store h).view = (s.world.store h).view := by
    rw [← Store.view_begin (o.begin && s.has .beginTransaction) (s.world.store h), ← hbegin]
  cases hn : s1.has n with
  | false =>
    rw [statement_of_not_has hn]
    exact ⟨rfl, none, rfl, rfl, hnone⟩
  | true =>
    rw [(hwithin1.owned hs.owned).statement hn]
    obtain ⟨-, -, -, hrowid⟩ := s1.world.stepModify_spec h o.statement n parameter o.now
    rcases hstep : s1.step (Sqlite.stepModify o.statement n parameter o.now) h with ⟨done, s2⟩
    have hdone : (s1.world.stepModify o.statement n parameter o.now h).1 = done :=
      congrArg Prod.fst hstep
    have hs2 : s2 = { s1 with world := (s1.world.stepModify o.statement n parameter o.now h).2 } :=
      (congrArg Prod.snd hstep).symm
    cases done with
    | false =>
      simp only [hstep, conclude]
      exact ⟨trivial, none, rfl, rfl, hnone⟩
    | true =>
      have hdb2 : s2.db = some h := by rw [hs2]; exact hdb1.trans hs.connected
      obtain ⟨a, ha⟩ := hresult s2 hdb2
      have hcomputed : Computed h s o n parameter result a := by
        refine ⟨s2, hdb2, ha, fun t rowid ht => ?_⟩
        rw [hs2]
        refine hrowid t rowid ?_ hdone
        rw [hwithin1.frame.foreignKeys, hview]
        exact ht
      simp only [hstep, conclude, ha]
      rcases s2.commitTransaction o.commit o.commitAborts with ⟨_ | _, s3⟩
      · exact ⟨rfl, none, rfl, rfl, hnone⟩
      · exact ⟨rfl, some a, rfl, rfl, fun x hx => by cases hx; exact hcomputed⟩

end SqliteDatabase

namespace Mutation

variable {h : Nat} {s : SqliteDatabase}

/-- The transaction of a mutation, in which a step without a statement fails. -/
def attempt (m : Mutation) (o : StepOutcomes) (s : SqliteDatabase) (h : Nat) :
    Bool × Store Tables :=
  Transactions.transact (s.available m.statement o.toOutcomes) m.rollsBack
    (m.modify (s.world.connections h).foreignKeys o.now) (s.world.store h)

/-- What a mutation returns and leaves. -/
structure Attempted (m : Mutation) (o : StepOutcomes) (s : SqliteDatabase) (h : Nat) : Prop where
  attached : (m.run o s).2.Attached h
  within : Within h s (m.run o s).2
  store : (m.run o s).2.world.store h = (m.attempt o s h).2
  reply : (m.run o s).1 =
    .ok (if (m.attempt o s h).1 then m.success (s.world.store h).view else m.failure)

theorem attempted_change {m : Mutation} (hm : m.inserts = false) (hs : s.Attached h)
    (o : StepOutcomes)
    (hrun : m.run o s = ((s.change o m.statement m.parameter m.rollsBack).1.map .bool,
      (s.change o m.statement m.parameter m.rollsBack).2)) : m.Attempted o s h := by
  obtain ⟨hreply, hstore, hwithin⟩ := change_store hs.owned o m.statement m.parameter m.rollsBack
  have hdb : (m.run o s).2.db = some h := by
    rw [hrun]
    exact (db_transact _ _ _ _ _ s).trans hs.connected
  refine ⟨⟨hdb, ?_⟩, by rw [hrun]; exact hwithin, by rw [hrun]; exact hstore, ?_⟩
  · rw [hrun]
    exact hwithin.owned hs.owned
  · rw [hrun]
    simp only [hreply, success, failure, hm]
    change Except.ok (Reply.bool (m.attempt o s h).1) = _
    cases (m.attempt o s h).1 <;> rfl

theorem attempted_insert {m : Mutation} (hm : m.inserts = true) (hback : m.rollsBack = false)
    (hs : s.Attached h) (o : StepOutcomes)
    (hrun : m.run o s = ((s.insert o m.statement m.parameter).1.map .int,
      (s.insert o m.statement m.parameter).2)) : m.Attempted o s h := by
  obtain ⟨hchange, hstore, hwithin⟩ := change_store hs.owned o m.statement m.parameter false
  obtain ⟨hsame, a, ha, hunit, hcomputed⟩ := transact_result hs o m.statement m.parameter false
    lastInsertRowid fun s' hs' => ⟨_, by unfold lastInsertRowid; rw [hs']⟩
  have hrun2 : (m.run o s).2 = (s.change o m.statement m.parameter false).2 := by
    rw [hrun]
    exact hsame
  have hdone : a.isSome = (m.attempt o s h).1 := by
    unfold SqliteDatabase.change at hchange
    simp only [hunit] at hchange
    unfold attempt
    rw [hback]
    exact Option.isSome_map.symm.trans (Except.ok.inj hchange)
  refine ⟨⟨?_, ?_⟩, ?_, ?_, ?_⟩
  · rw [hrun2]
    exact (db_transact _ _ _ _ _ s).trans hs.connected
  · rw [hrun2]
    exact hwithin.owned hs.owned
  · rw [hrun2]
    exact hwithin
  · rw [hrun2]
    unfold attempt
    rw [hback]
    exact hstore
  · have hreply : (m.run o s).1 = .ok (.int (a.getD (-1))) := by
      rw [hrun]
      unfold SqliteDatabase.insert
      simp only [ha]
      rfl
    rw [hreply, ← hdone]
    cases a with
    | none => simp [failure, hm]
    | some n =>
      obtain ⟨s', hdb, hn, hrow⟩ := hcomputed n rfl
      -- the statement was reached, so it changed the tables that it saw
      obtain ⟨-, t, -, -, -, ht⟩ := transact_done_iff.1 hdone.symm
      obtain ⟨⟨t', r⟩, hmod, -⟩ := Option.map_eq_some_iff.1 ht
      have hr := modify_insert hm hmod
      rw [hr] at hmod
      have hrowid := hrow t' _ hmod
      unfold lastInsertRowid at hn
      rw [hdb] at hn
      cases hn
      simp [success, hm, hrowid]

/-- **Every mutation is a transaction** of the steps that have a statement. -/
theorem run_attempted (hs : s.Attached h) (m : Mutation) (o : StepOutcomes) :
    m.Attempted o s h := by
  cases m with
  | addClient ip => exact attempted_insert rfl rfl hs o rfl
  | addClientConnection id time => exact attempted_insert rfl rfl hs o rfl
  | _ => exact attempted_change rfl hs o rfl

end Mutation

/-! ## Queries -/

namespace Query

variable {h : Nat} {s : SqliteDatabase}

theorem slot_of_has {n : StatementName} (hs : s.Attached h) (hn : s.has n = true) :
    s.preparedStatements n = .statement h := by
  unfold SqliteDatabase.has at hn
  cases hslot : s.preparedStatements n with
  | statement k => rw [hs.owned n k hslot]
  | null | absent =>
    rw [hslot] at hn
    cases hn

theorem slot_of_not_has {n : StatementName} (hn : s.has n = false) (k : Nat) :
    s.preparedStatements n ≠ .statement k := by
  intro hslot
  unfold SqliteDatabase.has at hn
  rw [hslot] at hn
  cases hn

/-- The statement of a query, on the tables its connection sees. -/
theorem query_of_has {α : Type} {o : StepOutcomes} {n : StatementName} {failure : α}
    {read : Tables → Option α} (hs : s.Attached h) (hn : s.has n = true) :
    (query o n failure read s).1 =
      if o.statement then (read (s.world.store h).view).getD failure else failure := by
  rw [query_of_statement (slot_of_has hs hn)]
  unfold Sqlite.stepSelect
  cases o.statement <;> rfl

/-- **Every query is answered** from the tables the connection sees. -/
theorem shows_view (hs : s.Attached h) : s.Shows (s.world.store h).view := by
  intro q o
  cases hn : s.has q.statement with
  | false =>
    rw [run_of_none (slot_of_not_has hn)]
    simp
  | true =>
    cases q <;> simp only [statement] at hn <;>
      simp only [Bool.and_true, run, SqliteDatabase.getClientById, SqliteDatabase.getClientByIp,
        SqliteDatabase.getClientIdByIp, SqliteDatabase.getClientIpById,
        SqliteDatabase.getClientCount, SqliteDatabase.getAllClients,
        SqliteDatabase.getClientConnectionCount, query_of_has hs hn, answer,
        Option.getD_some] <;>
      cases o.statement <;> rfl

/-- A query leaves the tables alone. -/
theorem run_store (hs : s.Attached h) (q : Query) (o : StepOutcomes) :
    (q.run o s).2.Attached h ∧ (q.run o s).2.world.store h = s.world.store h := by
  have howned := ((Operation.read q).run_within hs.owned o).1.owned hs.owned
  cases hn : s.has q.statement with
  | true =>
    have hrun := run_of_statement (o := o) (slot_of_has hs hn)
    refine ⟨⟨?_, howned⟩, ?_⟩
    · rw [hrun]
      exact hs.connected
    · rw [hrun]
      rfl
  | false =>
    have hrun := congrArg Prod.snd (run_of_none (o := o) (slot_of_not_has hn))
    refine ⟨⟨?_, howned⟩, ?_⟩
    · rw [hrun]
      exact (db_statement _ s).trans hs.connected
    · rw [hrun, world_statement]

end Query

/-! ## Runs -/

namespace Operation

open Counter (rows)
open Runs

variable {h : Nat} {s : SqliteDatabase} {c : Operation × StepOutcomes}

/-- The change that an operation reports. -/
def change (s : SqliteDatabase) (c : Operation × StepOutcomes) : Option Change :=
  match c.1, (c.1.run c.2 s).1 with
  | .mutate m, .ok reply => some { mutation := m, now := c.2.now, reply }
  | _, _ => none

/-- An operation, or sqlite rolls back a transaction that was left open: behind a failing begin or
query, which nothing of its operation follows. -/
inductive Event where
  | operation (c : Operation × StepOutcomes)
  | abort

/-- The object behind an event. -/
def happen (s : SqliteDatabase) : Event → SqliteDatabase
  | .operation c => next s c
  | .abort => s.aborted

/-- The change that an event reports. -/
def report (s : SqliteDatabase) : Event → Option Change
  | .operation c => change s c
  | .abort => none

/-- The changes that the operations of a run report. -/
def changes : SqliteDatabase → List Event → List Change
  | _, [] => []
  | s, e :: es => (report s e).toList ++ changes (happen s e) es

/-- The changes that are reported as done. -/
def acknowledged (s : SqliteDatabase) (es : List Event) : List Change :=
  (changes s es).filter (·.Acknowledged)

/-- The queries show the tables until sqlite rolls them back, and no operation stores anything
before; then they show what the database holds. -/
structure Halted (h : Nat) (t : Tables) (s : SqliteDatabase) : Prop where
  stays : ∀ more : List (Operation × StepOutcomes),
    let es := more.map Event.operation
    acknowledged s es = [] ∧ (after happen s es).Shows t ∧ rows (after happen s es) h = rows s h
  aborted : s.aborted.Shows (rows s h) ∧ rows s.aborted h = rows s h

/-- What a run leaves: every operation returns, the database of the handle holds what was reported
as done, in that order and with the ids that were reported, and no other database is changed; the
queries show what it holds, or they show a change that was reported as failed, or none, and the
object has halted. -/
structure Durable (h : Nat) (s : SqliteDatabase) (es : List Event) : Prop where
  returns : Meets happen
    (fun s e => ∀ c, e = .operation c → ∃ reply, (c.1.run c.2 s).1 = .ok reply) s es
  stored : (acknowledged s es).foldlM (Change.apply (s.world.connections h).foreignKeys)
    (rows s h) = some (rows (after happen s es) h)
  others : ∀ d, d ≠ s.world.databaseOf h →
    (after happen s es).world.databases d = s.world.databases d
  shown : (after happen s es).Shows (rows (after happen s es) h) ∨
    ∃ t, Halted h t (after happen s es) ∧ (t = rows (after happen s es) h ∨
      ∃ c ∈ changes s es, ¬ c.Acknowledged ∧
        c.mutation.modify (s.world.connections h).foreignKeys c.now (rows (after happen s es) h) =
          some t)

/-- No new id is reported that is the -1 of a failure. -/
def Tells (h : Nat) (s : SqliteDatabase) (e : Event) : Prop :=
  ∀ m o, e = .operation (.mutate m, o) → ¬ m.ReportsFailure o s h

/-! ### One operation -/

theorem next_attached (hs : s.Attached h) (c : Operation × StepOutcomes) :
    (next s c).Attached h ∧ Within h s (next s c) := by
  obtain ⟨m | q, o⟩ := c
  · exact ⟨(m.run_attempted hs o).attached, (m.run_attempted hs o).within⟩
  · exact ⟨(q.run_store hs o).1, ((Operation.read q).run_within hs.owned o).1⟩

theorem change_mutate (hs : s.Attached h) (m : Mutation) (o : StepOutcomes) :
    change s (.mutate m, o) = some {
      mutation := m
      now := o.now
      reply := if (m.attempt o s h).1 then m.success (s.world.store h).view else m.failure } := by
  have hreply := (m.run_attempted hs o).reply
  unfold change
  simp only [run, hreply]

theorem change_read (q : Query) (o : StepOutcomes) : change s (.read q, o) = none := rfl

/-- A mutation that fails is not acknowledged. -/
theorem acknowledged_failed (hs : s.Attached h) {m : Mutation} {o : StepOutcomes}
    (hfail : (m.attempt o s h).1 = false) :
    (change s (.mutate m, o)).toList.filter (·.Acknowledged) = [] := by
  rw [change_mutate hs, hfail]
  simp [Change.Acknowledged]

/-- The report of a mutation that reaches its commit is none of a failure. -/
theorem success_ne_failure {m : Mutation} {o : StepOutcomes} {t : Tables}
    (hreaches : Reaches (s.available m.statement o.toOutcomes)
      (m.modify (s.world.connections h).foreignKeys o.now) (s.world.store h) t)
    (hcommit : (s.available m.statement o.toOutcomes).commit = true)
    (htold : ¬ m.ReportsFailure o s h) : m.success (rows s h) ≠ m.failure := by
  intro heq
  obtain ⟨hbegin, hworking, hstatement, ht⟩ := hreaches
  rw [Store.view_of_none hworking] at ht
  cases hm : m.inserts with
  | false => simp [Mutation.success, Mutation.failure, hm] at heq
  | true =>
    simp only [Mutation.success, Mutation.failure, hm, if_true, Reply.int.injEq] at heq
    exact htold ⟨hm, ⟨(Bool.and_eq_true _ _ ▸ hbegin).1, (Bool.and_eq_true _ _ ▸ hstatement).1,
      Option.isSome_iff_exists.2 ⟨t, ht⟩⟩, (Bool.and_eq_true _ _ ▸ hcommit).1, heq⟩

/-- A mutation that is done is acknowledged, and has found the tables that are stored. -/
theorem acknowledged_done (hs : s.Attached h) {m : Mutation} {o : StepOutcomes}
    (hdone : (m.attempt o s h).1 = true) (htold : ¬ m.ReportsFailure o s h) :
    ∃ c : Change, (change s (.mutate m, o)).toList.filter (·.Acknowledged) = [c] ∧
      c.apply (s.world.connections h).foreignKeys (rows s h) =
        some (rows (next s (.mutate m, o)) h) := by
  obtain ⟨hcommit, t, hreaches⟩ := transact_done_iff.1 hdone
  have hack := success_ne_failure hreaches hcommit htold
  have hview : (s.world.store h).view = rows s h := Store.view_of_none hreaches.2.1
  have hnext : rows (next s (.mutate m, o)) h = t := by
    have hstore := (m.run_attempted hs o).store
    rw [show m.attempt o s h = _ from transact_of_reaches hreaches hcommit] at hstore
    exact congrArg Store.committed hstore
  have ht := hreaches.2.2.2
  rw [hview] at ht
  rw [change_mutate hs m o, hdone, if_pos rfl, hview, hnext]
  refine ⟨{ mutation := m, now := o.now, reply := m.success (rows s h) }, ?_, ?_⟩
  · simp [Change.Acknowledged, hack]
  · unfold Change.apply
    rw [if_pos rfl]
    exact ht

/-- **One operation** stores what it reports as done. -/
theorem stored_next (hs : s.Attached h) (htold : Tells h s (.operation c)) :
    ((change s c).toList.filter (·.Acknowledged)).foldlM
      (Change.apply (s.world.connections h).foreignKeys) (rows s h) = some (rows (next s c) h) := by
  obtain ⟨m | q, o⟩ := c
  · cases hd : (m.attempt o s h).1 with
    | false =>
      rw [acknowledged_failed hs hd, List.foldlM_nil]
      have hstore := congrArg Store.committed (m.run_attempted hs o).store
      rw [show (m.attempt o s h).2.committed = _ from transact_failed hd] at hstore
      exact congrArg some hstore.symm
    | true =>
      obtain ⟨c, hc, happly⟩ := acknowledged_done hs hd (htold m o rfl)
      rw [hc, List.foldlM_cons, happly]
      rfl
  · rw [change_read]
    exact congrArg some (congrArg Store.committed (q.run_store hs o).2).symm

/-- Inside an open transaction an operation changes nothing. -/
theorem next_open (hs : s.Attached h) (hopen : (s.world.store h).working ≠ none)
    (c : Operation × StepOutcomes) : (change s c).toList.filter (·.Acknowledged) = [] ∧
      (next s c).world.store h = s.world.store h := by
  obtain ⟨m | q, o⟩ := c
  · have hattempt : m.attempt o s h = (false, s.world.store h) := transact_open hopen
    refine ⟨acknowledged_failed hs (by rw [hattempt]), ?_⟩
    exact (m.run_attempted hs o).store.trans (by rw [hattempt])
  · exact ⟨rfl, (q.run_store hs o).2⟩

/-- Behind a transaction that stays open no operation stores anything. -/
theorem after_open (hs : s.Attached h) (hopen : (s.world.store h).working ≠ none)
    (more : List (Operation × StepOutcomes)) :
    let es := more.map Event.operation
    acknowledged s es = [] ∧ (after happen s es).Attached h ∧
      (after happen s es).world.store h = s.world.store h := by
  induction more generalizing s with
  | nil => exact ⟨rfl, hs, rfl⟩
  | cons c more ih =>
    obtain ⟨hnone, hstore⟩ := next_open hs hopen c
    obtain ⟨hrest, hattached, hsame⟩ := ih (next_attached hs c).1 (by rwa [hstore])
    refine ⟨?_, hattached, hsame.trans hstore⟩
    unfold acknowledged
    rw [List.map_cons, changes, List.filter_append]
    exact (congrArg (· ++ _) hnone).trans hrest

theorem halted_of_open (hs : s.Attached h) {t : Tables}
    (hopen : (s.world.store h).working = some t) : Halted h t s where
  stays more := by
    obtain ⟨hnone, hattached, hstore⟩ := after_open hs (by simp [hopen]) more
    refine ⟨hnone, ?_, congrArg Store.committed hstore⟩
    have hshows := Query.shows_view hattached
    rw [hstore, Store.view, hopen] at hshows
    exact hshows
  aborted := by
    obtain ⟨hattached, -, hstore⟩ := aborted_spec hs
    refine ⟨?_, congrArg Store.committed hstore⟩
    have hshows := Query.shows_view hattached
    rw [hstore] at hshows
    exact hshows

/-- What an operation may leave open. -/
theorem next_left (hs : s.Attached h) (hno : (s.world.store h).working = none)
    (c : Operation × StepOutcomes) : ((next s c).world.store h).working = none ∨
      ∃ t, ((next s c).world.store h).working = some t ∧ rows (next s c) h = rows s h ∧
        (t = rows s h ∨ ∃ d ∈ change s c, ¬ d.Acknowledged ∧
          d.mutation.modify (s.world.connections h).foreignKeys d.now (rows s h) = some t) := by
  obtain ⟨m | q, o⟩ := c
  · have hran := m.run_attempted hs o
    have hnext : (next s (.mutate m, o)).world.store h = (m.attempt o s h).2 := hran.store
    rw [hnext]
    refine (transact_left hno).imp id ?_
    rintro ⟨hfail, t, ht, hfrom⟩
    refine ⟨t, ht, ?_, hfrom.imp id fun hmod => ?_⟩
    · exact (congrArg Store.committed hnext).trans (transact_failed hfail)
    · refine ⟨_, change_mutate hs m o, ?_, hmod⟩
      rw [show (m.attempt o s h).1 = false from hfail]
      exact fun hack => hack rfl
  · exact .inl ((congrArg Store.working (q.run_store hs o).2).trans hno)

/-! ### Whole runs -/

theorem happen_attached (hs : s.Attached h) (e : Event) :
    (happen s e).Attached h ∧ Within h s (happen s e) := by
  cases e with
  | operation c => exact next_attached hs c
  | abort => exact ⟨(aborted_spec hs).1, (aborted_spec hs).2.1⟩

theorem stored_happen (hs : s.Attached h) {e : Event} (htold : Tells h s e) :
    ((report s e).toList.filter (·.Acknowledged)).foldlM
      (Change.apply (s.world.connections h).foreignKeys) (rows s h) =
        some (rows (happen s e) h) := by
  cases e with
  | operation c => exact stored_next hs htold
  | abort => exact congrArg some (congrArg Store.committed (aborted_spec hs).2.2).symm

theorem returns_next (hs : s.Attached h) (c : Operation × StepOutcomes) :
    ∃ reply, (c.1.run c.2 s).1 = .ok reply := by
  obtain ⟨m | q, o⟩ := c
  · exact ⟨_, (m.run_attempted hs o).reply⟩
  · exact ⟨_, rfl⟩

theorem returns_after (hs : s.Attached h) (es : List Event) :
    Meets happen
      (fun s e => ∀ c, e = .operation c → ∃ reply, (c.1.run c.2 s).1 = .ok reply) s es := by
  induction es generalizing s with
  | nil => trivial
  | cons e es ih => exact ⟨fun c _ => returns_next hs c, ih (happen_attached hs e).1⟩

/-- **A run** stores what it reports as done. -/
theorem stored_after (hs : s.Attached h) {es : List Event} (htold : Meets happen (Tells h) s es) :
    (acknowledged s es).foldlM (Change.apply (s.world.connections h).foreignKeys) (rows s h) =
      some (rows (after happen s es) h) := by
  induction es generalizing s with
  | nil => rfl
  | cons e es ih =>
    obtain ⟨hattached, hwithin⟩ := happen_attached hs e
    have hrest := ih hattached htold.2
    rw [hwithin.frame.foreignKeys] at hrest
    unfold acknowledged changes
    rw [List.filter_append, List.foldlM_append, stored_happen hs htold.1]
    exact hrest

theorem others_after (hs : s.Attached h) (es : List Event) {d : DatabaseId}
    (hd : d ≠ s.world.databaseOf h) :
    (after happen s es).world.databases d = s.world.databases d := by
  induction es generalizing s with
  | nil => rfl
  | cons e es ih =>
    obtain ⟨hattached, hwithin⟩ := happen_attached hs e
    exact (ih hattached (by rwa [hwithin.frame.databaseOf])).trans (hwithin.frame.others d hd)

theorem keys_after (hs : s.Attached h) (es : List Event) :
    ((after happen s es).world.connections h).foreignKeys =
      (s.world.connections h).foreignKeys := by
  induction es generalizing s with
  | nil => rfl
  | cons e es ih =>
    obtain ⟨hattached, hwithin⟩ := happen_attached hs e
    exact (ih hattached).trans hwithin.frame.foreignKeys

/-- A transaction that is open holds a change that was reported as failed, or none. -/
def Left (h : Nat) (known : List Change) (s : SqliteDatabase) : Prop :=
  ∀ t, (s.world.store h).working = some t → t = rows s h ∨
    ∃ c ∈ known, ¬ c.Acknowledged ∧
      c.mutation.modify (s.world.connections h).foreignKeys c.now (rows s h) = some t

/-- **What an event leaves open**: an operation leaves a transaction as it is, or one of its own; a
rollback leaves none. -/
theorem left_happen (hs : s.Attached h) {known : List Change} (hleft : Left h known s)
    (e : Event) : Left h (known ++ (report s e).toList) (happen s e) := by
  intro t ht
  have hkeys := (happen_attached hs e).2.frame.foreignKeys
  cases e with
  | abort =>
    rw [happen, (aborted_spec hs).2.2] at ht
    cases ht
  | operation c =>
    by_cases hno : (s.world.store h).working = none
    · rcases next_left hs hno c with hnone | ⟨t', hopen, hrows, hfrom⟩
      · exact absurd (hnone.symm.trans ht) (by simp)
      · cases hopen.symm.trans ht
        rw [hkeys, happen, hrows]
        refine hfrom.imp id ?_
        rintro ⟨d, hd, hrefused, hmod⟩
        exact ⟨d, List.mem_append_right _ (Option.mem_toList.2 hd), hrefused, hmod⟩
    · have hstore := (next_open hs hno c).2
      have hrows : rows (happen s (.operation c)) h = rows s h := congrArg Store.committed hstore
      rw [happen, hstore] at ht
      rw [hkeys, hrows]
      refine (hleft t ht).imp id ?_
      rintro ⟨d, hd, hrefused, hmod⟩
      exact ⟨d, List.mem_append_left _ hd, hrefused, hmod⟩

theorem left_after (hs : s.Attached h) {known : List Change} (hleft : Left h known s)
    (es : List Event) :
    (after happen s es).Attached h ∧ Left h (known ++ changes s es) (after happen s es) := by
  induction es generalizing s known with
  | nil => exact ⟨hs, by rwa [changes, List.append_nil]⟩
  | cons e es ih =>
    rw [changes, ← List.append_assoc]
    exact ih (happen_attached hs e).1 (left_happen hs hleft e)

/-- **What the queries show** behind a run. -/
theorem shown_after (hs : s.Attached h) (hno : (s.world.store h).working = none)
    (es : List Event) : (after happen s es).Shows (rows (after happen s es) h) ∨
      ∃ t, Halted h t (after happen s es) ∧ (t = rows (after happen s es) h ∨
        ∃ c ∈ changes s es, ¬ c.Acknowledged ∧
          c.mutation.modify (s.world.connections h).foreignKeys c.now
            (rows (after happen s es) h) = some t) := by
  have hnone : Left h [] s := fun t ht => by rw [hno] at ht; cases ht
  obtain ⟨hattached, hleft⟩ := left_after hs hnone es
  cases hopen : ((after happen s es).world.store h).working with
  | none =>
    left
    have hshows := Query.shows_view hattached
    rwa [Store.view_of_none hopen] at hshows
  | some t =>
    right
    have hfrom := hleft t hopen
    rw [keys_after hs es] at hfrom
    exact ⟨t, halted_of_open hattached hopen, hfrom⟩

theorem durable_of_run (hs : s.Attached h)
    (hno : (s.world.connections h).transaction = none) {es : List Event}
    (htold : Meets happen (Tells h) s es) : Durable h s es where
  returns := returns_after hs es
  stored := stored_after hs htold
  others _ hd := others_after hs es hd
  shown := shown_after hs hno es

/-- **What is reported is what is stored**: in every run behind the connect of a new object to any
database, whatever fails of the connect, but the handle, and of the steps of the operations, and
wherever sqlite rolls a transaction back. -/
theorem durable_of_connect (w : Sqlite) {o : ConnectOutcomes} (ho : o.opening ≠ .noHandle)
    (connectionString : Bytes) {es : List Event}
    (htold : Meets happen (Tells w.next) (connect o connectionString { world := w }).2 es) :
    Durable w.next (connect o connectionString { world := w }).2 es :=
  durable_of_run (attached_connect w ho connectionString).1
    (attached_connect w ho connectionString).2 htold

/-- A new object without the statement that counts connections. -/
def uncounted : SqliteDatabase :=
  (connect { prepares := fun n => decide (n ≠ .getClientConnectionCount) } ""
    { world := .initial }).2

/-- A client is added, and cannot be removed: the commit fails, and the transaction stays open until
a query fails and sqlite rolls it back. -/
def keptClient : List Event :=
  [.operation (.mutate (.addClient 7), { now := 1 }),
    .operation (.mutate (.removeClient 1), { commit := false, now := 2 }),
    .operation (.mutate (.addClient 8), { now := 3 }),
    .operation (.read .getClientCount, { statement := false }), .abort,
    .operation (.mutate (.addClient 8), { now := 4 })]

/-- No id of the run is -1. -/
theorem keptClient_tells : Meets happen (Tells 0) uncounted keptClient := by
  refine ⟨?_, ?_, ?_, ?_, ?_, ?_, trivial⟩
  · intro m o he hfailure
    cases he
    exact absurd hfailure.2.2.2 (by decide +kernel)
  · intro m o he hfailure
    cases he
    exact absurd hfailure.1 (by decide)
  · intro m o he hfailure
    cases he
    exact absurd hfailure.2.2.2 (by decide +kernel)
  · intro m o he
    cases he
  · intro m o he
    cases he
  · intro m o he hfailure
    cases he
    exact absurd hfailure.2.2.2 (by decide +kernel)

/-- The first client is stored, though it is not shown before the rollback. -/
theorem keptClient_durable : Durable 0 uncounted keptClient ∧
    acknowledged uncounted keptClient = [{ mutation := .addClient 7, now := 1, reply := .int 1 },
      { mutation := .addClient 8, now := 4, reply := .int 2 }] ∧
    ((Query.getClientCount).run {} (after happen uncounted (keptClient.take 3))).1 = .int 0 ∧
    ((Query.getClientCount).run {} (after happen uncounted keptClient)).1 = .int 2 :=
  ⟨durable_of_connect .initial (by decide) "" keptClient_tells,
    by decide +kernel, by decide +kernel, by decide +kernel⟩

end Operation

end HttpsTest
