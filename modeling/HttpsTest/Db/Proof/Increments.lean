import HttpsTest.Db.Proof.Atomic
import HttpsTest.Db.Proof.Connections

/-!
# The counters of a client

On any object that a run of connects, disconnects and operations leaves, an operation that changes
rows is a transaction on the tables of the handle its statements belong to, in which a step without
a statement fails (`change_store`). `increment_iff`: where the update of a counter is done, the
operation reports what it did exactly if the client is there and the commit succeeds, or it fails
and either ends the transaction or finds no client.
-/

set_option autoImplicit false

namespace HttpsTest

open Transactions

namespace SqliteDatabase

/-! ## Steps whose statement may be missing -/

/-- There is a statement under the name. -/
def has (s : SqliteDatabase) (n : StatementName) : Bool :=
  match s.preparedStatements n with
  | .statement _ => true
  | _ => false

/-- How the steps of a transaction of the statement `n` end. -/
def available (s : SqliteDatabase) (n : StatementName) (o : Outcomes) : Outcomes where
  begin := o.begin && s.has .beginTransaction
  statement := o.statement && s.has n
  commit := o.commit && s.has .commitTransaction
  commitAborts := o.commitAborts && s.has .commitTransaction
  rollback := o.rollback && s.has .rollbackTransaction

variable {h : Nat} {s s' : SqliteDatabase}

theorem Owned.statement (hs : Owned h s) {n : StatementName} (hn : s.has n = true) :
    s.statement n = (some h, s) := by
  unfold has at hn
  cases hslot : s.preparedStatements n with
  | statement k =>
    cases hs n k hslot
    exact statement_of_statement hslot
  | null | absent =>
    rw [hslot] at hn
    cases hn

theorem statement_of_not_has {n : StatementName} (hn : s.has n = false) :
    s.statement n = (none, (s.statement n).2) := by
  apply statement_of_none
  intro k hslot
  unfold has at hn
  rw [hslot] at hn
  cases hn

theorem Within.has (hw : Within h s s') (n : StatementName) : s'.has n = s.has n := by
  unfold SqliteDatabase.has
  rcases hw.slots n with heq | ⟨habs, hnull⟩
  · rw [heq]
  · rw [habs, hnull]

theorem Prepared.owned (hp : s.Prepared h) : Owned h s := by
  intro n k hn
  rw [hp.statements n] at hn
  cases hn
  rfl

/-- The functions that begin and end transactions, as steps of the tables. -/
theorem transactionStep_store (hs : Owned h s) (n : StatementName)
    (act : Bool → Store Tables → Bool × Store Tables) (hact : ∀ t, act false t = (false, t))
    (ok : Bool) :
    ((s.transactionStep n fun w k => w.stepStore k (act ok)).1,
      (s.transactionStep n fun w k => w.stepStore k (act ok)).2.world.store h) =
        act (ok && s.has n) (s.world.store h) := by
  unfold transactionStep
  cases hn : s.has n with
  | true =>
    rw [hs.statement hn, Bool.and_true]
    exact Prod.ext rfl (Sqlite.store_stepStore _ _ _)
  | false =>
    rw [statement_of_not_has hn, Bool.and_false, hact, world_statement]

theorem begin_store (hs : Owned h s) (ok : Bool) :
    ((s.beginTransaction ok).1, (s.beginTransaction ok).2.world.store h) =
      (s.world.store h).begin (ok && s.has .beginTransaction) :=
  transactionStep_store hs .beginTransaction Store.begin (fun _ => rfl) ok

theorem commit_store (hs : Owned h s) (ok aborts : Bool) :
    ((s.commitTransaction ok aborts).1, (s.commitTransaction ok aborts).2.world.store h) =
      (s.world.store h).commit (ok && s.has .commitTransaction)
        (aborts && s.has .commitTransaction) := by
  have hcommit := transactionStep_store hs .commitTransaction
    (fun has t => if has then t.commit ok aborts else (false, t)) (fun _ => rfl) true
  simp only [if_true, Bool.true_and] at hcommit
  refine hcommit.trans ?_
  cases s.has .commitTransaction with
  | true => rw [Bool.and_true, Bool.and_true, if_pos rfl]
  | false =>
    rw [Bool.and_false, Bool.and_false, if_neg Bool.false_ne_true]
    unfold Store.commit
    cases (s.world.store h).working with
    | none => rfl
    | some t => rfl

theorem rollback_store (hs : Owned h s) (ok : Bool) :
    (s.rollbackTransaction ok).2.world.store h =
      ((s.world.store h).rollback (ok && s.has .rollbackTransaction)).2 :=
  congrArg Prod.snd (transactionStep_store hs .rollbackTransaction Store.rollback
    (fun _ => rfl) ok)

/-- The end of an operation that returns whether it succeeded. -/
theorem conclude_store {r : Bool × SqliteDatabase} (hs : Owned h r.2) {u : Bool × Store Tables}
    (hu : (r.1, r.2.world.store h) = u) (o : StepOutcomes) (rollsBack : Bool) :
    let r' := conclude o rollsBack (fun _ => .ok ()) r
    let t :=
      match u with
      | (false, t) => (false, (t.rollback (o.rollback && r.2.has .rollbackTransaction)).2)
      | (true, t) =>
        match t.commit (o.commit && r.2.has .commitTransaction)
          (o.commitAborts && r.2.has .commitTransaction) with
        | (true, t) => (true, t)
        | (false, t) => (false,
            if rollsBack then (t.rollback (o.rollback && r.2.has .rollbackTransaction)).2 else t)
    r'.1 = .ok (if t.1 then some () else none) ∧ r'.2.world.store h = t.2 := by
  obtain ⟨done, s⟩ := r
  cases hu
  cases done with
  | false => exact ⟨rfl, rollback_store hs o.rollback⟩
  | true =>
    have hcommit := commit_store hs o.commit o.commitAborts
    have hwithin : Within h s (s.commitTransaction o.commit o.commitAborts).2 :=
      transactionStep_within hs _ _
    rcases hc : s.commitTransaction o.commit o.commitAborts with ⟨_ | _, s1⟩ <;>
      rw [hc] at hcommit hwithin <;> simp only at hcommit hwithin <;>
      simp only [conclude, hc, ← hcommit, if_true, Bool.false_eq_true, if_false, true_and]
    cases rollsBack with
    | false => rfl
    | true =>
      have hback := rollback_store (hwithin.owned hs) o.rollback
      rw [hwithin.has] at hback
      exact hback

/-- **A change of rows** on the handle the statements belong to. -/
theorem change_store (hs : Owned h s) (o : StepOutcomes) (n : StatementName) (parameter : Int)
    (rollsBack : Bool) :
    let r := s.change o n parameter rollsBack
    let t := Transactions.transact (s.available n o.toOutcomes) rollsBack
      (s.world.change h n parameter o.now) (s.world.store h)
    r.1 = .ok t.1 ∧ r.2.world.store h = t.2 ∧ Within h s r.2 := by
  intro r t
  have hwithin : Within h s r.2 :=
    (transact_within hs o n parameter rollsBack fun _ => .ok ()).1
  suffices htransact : (s.transact o n parameter rollsBack fun _ => .ok ()).1 =
      .ok (if t.1 then some () else none) ∧ r.2.world.store h = t.2 by
    refine ⟨?_, htransact.2, hwithin⟩
    simp only [r, change, htransact.1, Except.map]
    cases t.1 <;> rfl
  have hbegin := begin_store hs o.begin
  have hwithin1 : Within h s (s.beginTransaction o.begin).2 := transactionStep_within hs _ _
  simp only [r, t, change, transact, Transactions.transact, available]
  rcases hb : s.beginTransaction o.begin with ⟨_ | _, s1⟩ <;> rw [hb] at hbegin hwithin1 <;>
    simp only at hbegin hwithin1 <;> simp only [← hbegin]
  · exact ⟨rfl, trivial⟩
  · have hs1 := hwithin1.owned hs
    cases hn : s.has n with
    | true =>
      obtain ⟨hdone, hstore, hframe, -⟩ := s1.world.stepModify_spec h o.statement n parameter o.now
      have hwithin2 : Within h s1 (s1.step (Sqlite.stepModify o.statement n parameter o.now) h).2 :=
        stepModify_within _ _ _ _
      rw [Sqlite.change_congr hwithin1.frame] at hdone hstore
      have hend := conclude_store (hwithin2.owned hs1) (Prod.ext hdone hstore) o rollsBack
      rw [hwithin2.has, hwithin2.has, hwithin1.has, hwithin1.has] at hend
      rw [hs1.statement (by rw [hwithin1.has]; exact hn), Bool.and_true]
      rcases hu : (s1.world.store h).update o.statement (s.world.change h n parameter o.now) with
        ⟨_ | _, t2⟩ <;> rw [hu] at hend
      · exact hend
      · rcases hc : t2.commit (o.commit && s.has .commitTransaction)
            (o.commitAborts && s.has .commitTransaction) with ⟨_ | _, t3⟩ <;>
          simp only [hc] at hend ⊢ <;> exact hend
    | false =>
      rw [statement_of_not_has (by rw [hwithin1.has]; exact hn), Bool.and_false]
      have hwithin2 := statement_within h n s1
      have hback := rollback_store (hwithin2.owned hs1) o.rollback
      rw [hwithin2.has, hwithin1.has, world_statement] at hback
      exact ⟨rfl, hback⟩

end SqliteDatabase

/-! ## The counters -/

/-- The counters of a client. -/
inductive Counter where
  | connectionCount | eventCount
  deriving DecidableEq, Repr

namespace Counter

open SqliteDatabase

/-- The operation of the database object. -/
def increment (c : Counter) (o : StepOutcomes) (clientId : Int32) :
    SqliteDatabase → Except Exn Bool × SqliteDatabase :=
  match c with
  | connectionCount => incrementConnectionCount o clientId
  | eventCount => incrementEventCount o clientId

/-- The statement it runs. -/
def statement : Counter → StatementName
  | connectionCount => .incrementClientConnectionCount
  | eventCount => .incrementClientEventCount

/-- A client whose counter is one larger. -/
def more : Counter → ClientRow → ClientRow
  | connectionCount, r => { r with connectionCount := r.connectionCount + 1 }
  | eventCount, r => { r with eventCount := r.eventCount + 1 }

/-- The rows `t'` are those of `t`, but for the counter of the client, which is one larger. -/
structure Incremented (c : Counter) (clientId : Int) (t t' : Tables) : Prop where
  clients : t'.clients = t.clients.map fun r => if r.id = clientId then c.more r else r
  connections : t'.connections = t.connections

/-- The rows of the database of the handle. -/
def rows (s : SqliteDatabase) (h : Nat) : Tables :=
  (s.world.databases (s.world.databaseOf h)).tables

/-- There is a client with the id. -/
def Present (clientId : Int) (t : Tables) : Prop := ∃ r ∈ t.clients, r.id = clientId

/-- The operation returns true exactly when the client is there and its counter, and nothing else,
is one larger in the committed rows; when it returns false, no row is changed, be it committed or
as the connection sees it. -/
structure Honest (c : Counter) (o : StepOutcomes) (clientId : Int32) (s : SqliteDatabase)
    (h : Nat) : Prop where
  returns : ∃ b, (c.increment o clientId s).1 = .ok b
  true_iff : (c.increment o clientId s).1 = .ok true ↔
    Present clientId.toInt (rows s h) ∧
      c.Incremented clientId.toInt (rows s h) (rows (c.increment o clientId s).2 h) ∧
      ∀ d, d ≠ s.world.databaseOf h →
        (c.increment o clientId s).2.world.databases d = s.world.databases d
  unchanged : (c.increment o clientId s).1 = .ok false →
    (∀ d, ((c.increment o clientId s).2.world.databases d).tables =
      (s.world.databases d).tables) ∧
    ((c.increment o clientId s).2.world.store h).view = (s.world.store h).view

/-- The operation begins, and its update is done. -/
def Updates (c : Counter) (o : StepOutcomes) (s : SqliteDatabase) (h : Nat) : Prop :=
  (o.begin && s.has .beginTransaction) = true ∧ (s.world.connections h).transaction = none ∧
    (o.statement && s.has c.statement) = true

variable {c : Counter} {o : StepOutcomes} {clientId : Int32} {s : SqliteDatabase} {h : Nat}

/-- The rows behind an update. -/
def updated (c : Counter) (clientId : Int) : Tables → Tables :=
  match c with
  | connectionCount => Tables.incrementClientConnectionCount clientId
  | eventCount => Tables.incrementClientEventCount clientId

theorem incremented_updated (c : Counter) (clientId : Int) (t : Tables) :
    c.Incremented clientId t (c.updated clientId t) := by
  cases c <;> exact ⟨rfl, rfl⟩

theorem Incremented.unique {id : Int} {t t' t'' : Tables} (h1 : c.Incremented id t t')
    (h2 : c.Incremented id t t'') : t' = t'' :=
  Tables.ext (h1.clients.trans h2.clients.symm) (h1.connections.trans h2.connections.symm)

/-- The counter of a client that is there does change. -/
theorem incremented_self_iff {id : Int} {t : Tables} : c.Incremented id t t ↔ ¬ Present id t := by
  have hmore (r : ClientRow) : c.more r ≠ r := by
    cases c with
    | connectionCount =>
      intro heq
      have := congrArg ClientRow.connectionCount heq
      simp only [more] at this
      omega
    | eventCount =>
      intro heq
      have := congrArg ClientRow.eventCount heq
      simp only [more] at this
      omega
  have hiff : c.Incremented id t t ↔
      ∀ r ∈ t.clients, r = if r.id = id then c.more r else r := by
    rw [← List.map_inj_left, List.map_id'']
    · exact ⟨fun h => h.clients, fun h => ⟨h, rfl⟩⟩
    · exact fun _ => rfl
  rw [hiff]
  refine ⟨fun hall ⟨r, hr, hid⟩ => ?_, fun habs r hr => ?_⟩
  · have hr := hall r hr
    rw [if_pos hid] at hr
    exact hmore r hr.symm
  · rw [if_neg fun hid => habs ⟨r, hr, hid⟩]

/-- The operation as a transaction on the tables of the handle. -/
def transaction (c : Counter) (o : StepOutcomes) (clientId : Int32) (s : SqliteDatabase) (h : Nat) :
    Bool × Store Tables :=
  Transactions.transact (s.available c.statement o.toOutcomes) false
    (fun t => some (c.updated clientId.toInt t)) (s.world.store h)

theorem increment_spec (hs : Owned h s) (c : Counter) (o : StepOutcomes) (clientId : Int32) :
    (c.increment o clientId s).1 = .ok (c.transaction o clientId s h).1 ∧
      (c.increment o clientId s).2.world.store h = (c.transaction o clientId s h).2 ∧
      Within h s (c.increment o clientId s).2 := by
  cases c <;> exact change_store hs o _ clientId.toInt false

theorem updates_iff : c.Updates o s h ↔ Reaches (s.available c.statement o.toOutcomes)
    (fun t => some (c.updated clientId.toInt t)) (s.world.store h)
      (c.updated clientId.toInt (s.world.store h).view) := by
  unfold Updates Reaches available
  simp only [and_true]
  rfl

/-- Honesty, said of the tables of the connection. -/
theorem honest_iff_store (hs : Owned h s) : c.Honest o clientId s h ↔
    ((c.transaction o clientId s h).1 = true ↔ Present clientId.toInt (rows s h) ∧
      c.Incremented clientId.toInt (rows s h) (c.transaction o clientId s h).2.committed) ∧
    ((c.transaction o clientId s h).1 = false →
      (c.transaction o clientId s h).2.committed = rows s h ∧
        (c.transaction o clientId s h).2.view = (s.world.store h).view) := by
  obtain ⟨hreply, hstore, hwithin⟩ := increment_spec hs c o clientId
  have hrows : rows (c.increment o clientId s).2 h = (c.transaction o clientId s h).2.committed :=
    congrArg Store.committed hstore
  have hok (b : Bool) : (c.increment o clientId s).1 = .ok b ↔
      (c.transaction o clientId s h).1 = b := by
    rw [hreply, Except.ok.injEq]
  have htables : (∀ d, ((c.increment o clientId s).2.world.databases d).tables =
      (s.world.databases d).tables) ↔
        (c.transaction o clientId s h).2.committed = rows s h := by
    rw [← hrows]
    refine ⟨fun hall => ?_, fun heq d => ?_⟩
    · rw [rows, hwithin.frame.databaseOf, hall]
      rfl
    · by_cases hd : d = s.world.databaseOf h
      · rw [hd]
        rw [rows, hwithin.frame.databaseOf] at heq
        exact heq
      · rw [hwithin.frame.others d hd]
  refine ⟨fun hh => ?_, fun ⟨htrue, hfalse⟩ => ?_⟩
  · refine ⟨?_, fun hfalse => ?_⟩
    · rw [← hok, hh.true_iff, hrows, and_iff_left hwithin.frame.others]
    · obtain ⟨hkept, hview⟩ := hh.unchanged ((hok false).2 hfalse)
      exact ⟨htables.1 hkept, hstore ▸ hview⟩
  · refine ⟨⟨_, hreply⟩, ?_, fun hno => ?_⟩
    · rw [hok, htrue, hrows, and_iff_left hwithin.frame.others]
    · obtain ⟨hkept, hview⟩ := hfalse ((hok false).1 hno)
      exact ⟨htables.2 hkept, hstore ▸ hview⟩

/-- The commit of the operation succeeds. -/
def Commits (o : StepOutcomes) (s : SqliteDatabase) : Prop :=
  (o.commit && s.has .commitTransaction) = true

/-- The commit, where it fails, ends the transaction. -/
def Aborts (o : StepOutcomes) (s : SqliteDatabase) : Prop :=
  (o.commitAborts && s.has .commitTransaction) = true

/-- **The counters**: where the update is done, the operation is honest exactly if the client is
there and the commit succeeds, or it fails and either ends the transaction or finds no client. -/
theorem honest_iff (hs : Owned h s) : c.Honest o clientId s h ↔
    (c.Updates o s h → (Commits o s ∧ Present clientId.toInt (rows s h)) ∨
      (¬ Commits o s ∧ (Aborts o s ∨ ¬ Present clientId.toInt (rows s h)))) := by
  rw [honest_iff_store hs]
  have hself : ¬ (Present clientId.toInt (rows s h) ∧
      c.Incremented clientId.toInt (rows s h) (rows s h)) := by
    rintro ⟨hpresent, hinc⟩
    exact incremented_self_iff.1 hinc hpresent
  have hcases := transact_cases (s.available c.statement o.toOutcomes) false
    (fun t => some (c.updated clientId.toInt t)) (s.world.store h)
  rw [show Transactions.transact (s.available c.statement o.toOutcomes) false _ _ =
    c.transaction o clientId s h from rfl] at hcases
  rcases hcases with ⟨hno, hfail, hcommitted, hview, -⟩ | ⟨t, ht, hend⟩
  · -- the update is not done
    have hupdates : ¬ c.Updates o s h := fun hu => hno _ (updates_iff.1 hu)
    rw [hfail, hcommitted, hview]
    refine iff_of_true ⟨iff_of_false (by simp) hself, fun _ => ⟨rfl, rfl⟩⟩ fun hu => ?_
    exact absurd hu hupdates
  · have hview : (s.world.store h).view = rows s h := Store.view_of_none ht.2.1
    have hinc : c.Incremented clientId.toInt (rows s h) t := by
      rw [← Option.some.inj ht.2.2.2, hview]
      exact incremented_updated c _ _
    have hupdates : c.Updates o s h := by
      rw [updates_iff, Option.some.inj ht.2.2.2]
      exact ht
    rw [forall_prop_of_true hupdates]
    rcases hend with ⟨hc, heq⟩ | ⟨hc, hfail, hback, hopen⟩
    · -- it is committed
      have hcommits : Commits o s := hc
      rw [heq]
      simp [hcommits, hinc]
    · have hcommits : ¬ Commits o s := Bool.eq_false_iff.1 hc
      rw [hfail]
      simp only [hcommits, false_and, not_false_eq_true, true_and, false_or, Bool.false_eq_true,
        false_iff, forall_const]
      by_cases haborts : Aborts o s
      · -- the commit fails, and the engine rolls back
        rw [hback (.inl haborts)]
        exact iff_of_true ⟨hself, rfl, rfl⟩ (.inl haborts)
      · -- the commit fails, and the transaction stays open
        have hsame : t = rows s h ↔ ¬ Present clientId.toInt (rows s h) := by
          rw [← incremented_self_iff (c := c)]
          exact ⟨fun h' => h' ▸ hinc, fun h' => hinc.unique h'⟩
        have hleft : ¬ (s.available c.statement o.toOutcomes).Undoes false := by
          rintro (h' | ⟨h', -⟩)
          · exact haborts h'
          · cases h'
        rw [hopen hleft, hview, or_iff_right haborts, ← hsame]
        exact ⟨fun h' => h'.2.2, fun h' => ⟨hself, rfl, h'⟩⟩

/-- An operation that returns false has committed nothing. -/
theorem committed_of_false (hs : Owned h s) (hfalse : (c.increment o clientId s).1 = .ok false)
    (d : DatabaseId) : ((c.increment o clientId s).2.world.databases d).tables =
      (s.world.databases d).tables := by
  obtain ⟨hreply, hstore, hwithin⟩ := increment_spec hs c o clientId
  rw [hreply, Except.ok.injEq] at hfalse
  by_cases hd : d = s.world.databaseOf h
  · have hkept := transact_failed (show (Transactions.transact _ _ _ _).1 = false from hfalse)
    rw [show (Transactions.transact _ _ _ _).2 = _ from hstore.symm] at hkept
    have hat : rows (c.increment o clientId s).2 h = rows s h := hkept
    rw [rows, hwithin.frame.databaseOf] at hat
    rw [hd, hat]
    rfl
  · rw [hwithin.frame.others d hd]

/-- **The counters of every reachable object**: where the update is done, the operation is honest
exactly if the client is there and the commit succeeds, or it fails and either ends the transaction
or finds no client. In any case it has committed nothing where it returns false. -/
theorem increment_iff (w : Sqlite) (cs : List Call) :
    let s := reached w cs
    (∃ h, Owned h s) ∧ ∀ h, Owned h s → ∀ (c : Counter) (o : StepOutcomes) (clientId : Int32),
      (c.Honest o clientId s h ↔ (c.Updates o s h →
        (Commits o s ∧ Present clientId.toInt (rows s h)) ∨
        (¬ Commits o s ∧ (Aborts o s ∨ ¬ Present clientId.toInt (rows s h))))) ∧
      ((c.increment o clientId s).1 = .ok false →
        ∀ d, ((c.increment o clientId s).2.world.databases d).tables =
          (s.world.databases d).tables) :=
  ⟨(reached_cached w cs).owned, fun _ hs _ _ _ =>
    ⟨honest_iff hs, fun hfalse => committed_of_false hs hfalse⟩⟩

/-- A database in memory with one client. -/
def oneClient : List Call := [.connect {} "", .operate (.mutate (.addClient 7)) {}]

theorem oneClient_prepared : (reached .initial oneClient).Prepared 0 :=
  (Operation.next_prepared memory_prepared (.mutate (.addClient 7), {})).1

theorem increment_oneClient : connectionCount.Honest {} 1 (reached .initial oneClient) 0 :=
  ((increment_iff .initial oneClient).2 0 oneClient_prepared.owned connectionCount {} 1).1.2
    fun _ => .inl
      ⟨by unfold Commits; decide +kernel, { id := 1, ip := 7 }, by decide +kernel, by decide⟩

/-- Without a client the operation returns true, and the client whose update cannot be committed is
changed where it returns false. -/
theorem increment_dishonest :
    ¬ connectionCount.Honest {} 7 (reached .initial [.connect {} ""]) 0 ∧
      ¬ connectionCount.Honest { commit := false } 1 (reached .initial oneClient) 0 := by
  refine ⟨fun hh => ?_, fun hh => ?_⟩
  · obtain ⟨⟨r, hr, -⟩, -⟩ := hh.true_iff.1 (by decide +kernel)
    rw [show (rows (reached .initial [.connect {} ""]) 0).clients = [] by decide +kernel] at hr
    cases hr
  · have hview := (hh.unchanged (by decide +kernel)).2
    revert hview
    decide +kernel

end Counter

end HttpsTest
