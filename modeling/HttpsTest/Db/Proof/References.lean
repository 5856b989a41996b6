import HttpsTest.Db.Proof.Atomic

/-!
# References between the tables

`ClientConnection` declares `client_id` a foreign key, with `ON DELETE CASCADE`; the engine enforces
it where the connection says so. `referential_effect_iff` is what each operation keeps of it with
and without that, and `references_kept_iff` what a run keeps that starts with an empty database:
exactly if no connection is added for a client that is not there, and no client is removed that has
connections.
-/

set_option autoImplicit false

namespace HttpsTest

open Transactions SqliteDatabase

/-! ## The statements -/

namespace Tables

/-- Every connection is one of a client. -/
def Referential (t : Tables) : Prop := ∀ r ∈ t.connections, ∃ c ∈ t.clients, c.id = r.clientId

instance (t : Tables) : Decidable t.Referential :=
  inferInstanceAs (Decidable (∀ r ∈ t.connections, ∃ c ∈ t.clients, c.id = r.clientId))

/-- The ids of the clients are positive and at most `k`. -/
def IdsUpTo (k : Nat) (t : Tables) : Prop := ∀ c ∈ t.clients, 1 ≤ c.id ∧ c.id ≤ k

theorem referential_empty : empty.Referential := by
  intro r hr
  cases hr

theorem idsUpTo_empty : empty.IdsUpTo 0 := by
  intro c hc
  cases hc

variable {t t' : Tables} {k : Nat}

theorem IdsUpTo.mono (h : t.IdsUpTo k) {l : Nat} (hkl : k ≤ l) : t.IdsUpTo l := by
  intro c hc
  have := h c hc
  omega

theorem IdsUpTo.newRowid (h : t.IdsUpTo k) :
    1 ≤ newRowid ClientRow.id t.clients ∧ newRowid ClientRow.id t.clients ≤ k + 1 := by
  unfold HttpsTest.newRowid
  split
  · omega
  · rename_i c hc
    have := h c (List.mem_of_getLast? hc)
    omega

/-- No connection is one of the next client. -/
theorem Referential.clientConnectionCount_newRowid (ht : t.Referential) :
    t.clientConnectionCount (HttpsTest.newRowid ClientRow.id t.clients) = 0 := by
  rw [clientConnectionCount, List.countP_eq_zero]
  intro r hr hclient
  obtain ⟨c, hc, hid⟩ := ht r hr
  have := t.clients_ids.lt_newRowid hc
  rw [beq_iff_eq] at hclient
  omega

/-- The client at an address. -/
theorem find_ip {c : ClientRow} (hc : c ∈ t.clients) :
    t.clients.find? (·.ip = c.ip) = some c := by
  obtain ⟨c', hc'⟩ : ∃ c', t.clients.find? (·.ip = c.ip) = some c' :=
    Option.isSome_iff_exists.1 (List.find?_isSome.2 ⟨c, hc, by simp⟩)
  have hip : c'.ip = c.ip := by simpa using List.find?_some hc'
  rw [hc', List.inj_on_of_nodup_map t.clients_ips (List.mem_of_find?_eq_some hc') hc hip]

theorem insertClient_isSome {ip : Int} :
    (t.insertClient ip).isSome ↔ ip ∉ t.clients.map ClientRow.ip := by
  unfold insertClient
  split
  · exact iff_of_false (by simp) (not_not.2 ‹_›)
  · exact iff_of_true rfl ‹_›

/-- What `INSERT INTO client` gives. -/
theorem insertClient_eq {ip rowid : Int} (h : t.insertClient ip = some (t', rowid)) :
    t'.connections = t.connections ∧ rowid = newRowid ClientRow.id t.clients ∧
      t'.clients = t.clients ++ [{ id := rowid, ip }] := by
  unfold insertClient at h
  split at h
  · cases h
  · cases h
    exact ⟨rfl, rfl, rfl⟩

theorem Referential.insertClient (ht : t.Referential) {ip rowid : Int}
    (h : t.insertClient ip = some (t', rowid)) : t'.Referential := by
  obtain ⟨hconnections, -, hclients⟩ := insertClient_eq h
  intro r hr
  rw [hconnections] at hr
  obtain ⟨c, hc, hid⟩ := ht r hr
  exact ⟨c, by rw [hclients]; exact List.mem_append_left _ hc, hid⟩

theorem IdsUpTo.insertClient (ht : t.IdsUpTo k) {ip rowid : Int}
    (h : t.insertClient ip = some (t', rowid)) : t'.IdsUpTo (k + 1) := by
  obtain ⟨-, hrowid, hclients⟩ := insertClient_eq h
  intro c hc
  rw [hclients] at hc
  rcases List.mem_append.1 hc with hc | hc
  · exact ht.mono (Nat.le_succ k) c hc
  · rw [List.mem_singleton.1 hc]
    have := ht.newRowid
    simp only [hrowid]
    omega

theorem referential_deleteClients_iff (ht : t.Referential) (fk : Bool) (keep : Int → Bool) :
    (t.deleteClients fk keep).Referential ↔
      fk = true ∨ ∀ r ∈ t.connections, keep r.clientId = true := by
  unfold Referential deleteClients cascade
  refine ⟨fun h => ?_, fun h r hr => ?_⟩
  · cases fk with
    | true => exact .inl rfl
    | false =>
      right
      intro r hr
      obtain ⟨c, hc, hid⟩ := h r hr
      rw [← hid]
      exact (List.mem_filter.1 hc).2
  · have hkeep : r ∈ t.connections ∧ keep r.clientId = true := by
      cases fk with
      | true => exact List.mem_filter.1 hr
      | false => exact ⟨hr, h.resolve_left (by simp) r hr⟩
    obtain ⟨c, hc, hid⟩ := ht r hkeep.1
    exact ⟨c, List.mem_filter.2 ⟨hc, by rw [hid]; exact hkeep.2⟩, hid⟩

theorem IdsUpTo.deleteClients (ht : t.IdsUpTo k) (fk : Bool) (keep : Int → Bool) :
    (t.deleteClients fk keep).IdsUpTo k := by
  intro c hc
  exact ht c (List.mem_filter.1 hc).1

section
variable {id : Int} {set : ClientRow → ClientRow} {hid : ∀ r, (set r).id = r.id}
  {hip : ∀ r, (set r).ip = r.ip}

/-- The rows of `UPDATE client` have the ids of the old ones. -/
theorem mem_updateClient (id : Int) (hid : ∀ r, (set r).id = r.id) (hip : ∀ r, (set r).ip = r.ip)
    {c : ClientRow} (hc : c ∈ t.clients) :
    ∃ c' ∈ (t.updateClient id set hid hip).clients, c'.id = c.id := by
  refine ⟨_, List.mem_map_of_mem hc, ?_⟩
  split
  · exact hid c
  · rfl

theorem Referential.updateClient (ht : t.Referential) :
    (t.updateClient id set hid hip).Referential := by
  intro r hr
  obtain ⟨c, hc, hcid⟩ := ht r hr
  obtain ⟨c', hc', hcid'⟩ := mem_updateClient id hid hip hc
  exact ⟨c', hc', hcid'.trans hcid⟩

theorem IdsUpTo.updateClient (ht : t.IdsUpTo k) : (t.updateClient id set hid hip).IdsUpTo k := by
  intro c hc
  obtain ⟨c', hc', rfl⟩ := List.mem_map.1 hc
  split
  · rw [hid]
    exact ht c' hc'
  · exact ht c' hc'

end

/-- What `INSERT INTO ClientConnection` gives. -/
theorem insertClientConnection_eq {fk : Bool} {clientId now rowid : Int}
    (h : t.insertClientConnection fk clientId now = some (t', rowid)) :
    t'.clients = t.clients ∧
      t'.connections = t.connections ++ [{ id := rowid, clientId, connectionTimestamp := now }] ∧
      (fk = true → ∃ c ∈ t.clients, c.id = clientId) := by
  unfold insertClientConnection at h
  split at h
  · cases h
  · rename_i hfk
    cases h
    rw [not_and, not_not] at hfk
    exact ⟨rfl, rfl, fun htrue => List.mem_map.1 (hfk htrue)⟩

theorem referential_insertClientConnection_iff (ht : t.Referential) {fk : Bool}
    {clientId now rowid : Int} (h : t.insertClientConnection fk clientId now = some (t', rowid)) :
    t'.Referential ↔ fk = true ∨ ∃ c ∈ t.clients, c.id = clientId := by
  obtain ⟨hclients, hconnections, hfk⟩ := insertClientConnection_eq h
  unfold Referential
  rw [hclients, hconnections]
  refine ⟨fun h => ?_, fun hclient r hr => ?_⟩
  · exact .inr (h _ (List.mem_append_right _ (List.mem_singleton.2 rfl)))
  · rcases List.mem_append.1 hr with hr | hr
    · exact ht r hr
    · rw [List.mem_singleton.1 hr]
      exact hclient.elim hfk id

theorem Referential.deleteConnections (ht : t.Referential) (keep : ConnectionRow → Bool) :
    (t.deleteConnections keep).Referential := by
  intro r hr
  exact ht r (List.mem_filter.1 hr).1

end Tables

/-! ## The operations -/

namespace Mutation

/-- An operation that keeps the references without the help of the engine: a connection is added for
a client that is there, and a client is removed that has no connections. -/
def KeepsReferences (m : Mutation) (t : Tables) : Prop :=
  match m with
  | addClientConnection id _ => ∃ c ∈ t.clients, c.id = id.toInt
  | removeClient id => ∀ r ∈ t.connections, r.clientId ≠ id.toInt
  | removeAllClients => t.connections = []
  | _ => True

instance (m : Mutation) (t : Tables) : Decidable (m.KeepsReferences t) :=
  match m with
  | addClientConnection id _ => inferInstanceAs (Decidable (∃ c ∈ t.clients, c.id = id.toInt))
  | removeClient id => inferInstanceAs (Decidable (∀ r ∈ t.connections, r.clientId ≠ id.toInt))
  | removeAllClients => inferInstanceAs (Decidable (t.connections = []))
  | addClient _ | incrementConnectionCount _ | incrementEventCount _ | removeConnection _
  | removeClientConnections _ | removeAllConnections => inferInstanceAs (Decidable True)

variable {m : Mutation} {fk : Bool} {now : Int} {t t' : Tables} {r : Option Int} {k : Nat}

/-- **What an operation keeps**: the references stay exactly if the engine enforces them, or the
operation is one that keeps them. -/
theorem referential_modify_iff (ht : t.Referential)
    (h : m.statement.modify fk m.parameter now t = some (t', r)) :
    t'.Referential ↔ fk = true ∨ m.KeepsReferences t := by
  have hkept (hm : m.KeepsReferences t) (h : t'.Referential) :
      t'.Referential ↔ fk = true ∨ m.KeepsReferences t := iff_of_true h (.inr hm)
  cases m with
  | addClient ip =>
    obtain ⟨⟨t1, rowid⟩, hinsert, heq⟩ := Option.map_eq_some_iff.1 h
    cases heq
    exact hkept trivial (ht.insertClient hinsert)
  | removeClient id =>
    cases h
    apply (Tables.referential_deleteClients_iff ht fk _).trans
    apply or_congr_right
    exact forall₂_congr fun r _ => bne_iff_ne
  | removeAllClients =>
    cases h
    apply (Tables.referential_deleteClients_iff ht fk _).trans
    apply or_congr_right
    show (∀ r ∈ t.connections, false = true) ↔ t.connections = []
    simp [List.eq_nil_iff_forall_not_mem]
  | addClientConnection id time =>
    obtain ⟨⟨t1, rowid⟩, hinsert, heq⟩ := Option.map_eq_some_iff.1 h
    cases heq
    exact Tables.referential_insertClientConnection_iff ht hinsert
  | incrementConnectionCount | incrementEventCount =>
    cases h
    exact hkept trivial ht.updateClient
  | removeConnection | removeClientConnections | removeAllConnections =>
    cases h
    exact hkept trivial (ht.deleteConnections _)

/-- An operation adds at most one client, with the next id. -/
theorem idsUpTo_modify (ht : t.IdsUpTo k)
    (h : m.statement.modify fk m.parameter now t = some (t', r)) : t'.IdsUpTo (k + 1) := by
  cases m with
  | addClient ip =>
    obtain ⟨⟨t1, rowid⟩, hinsert, heq⟩ := Option.map_eq_some_iff.1 h
    cases heq
    exact ht.insertClient hinsert
  | addClientConnection id time =>
    obtain ⟨⟨t1, rowid⟩, hinsert, heq⟩ := Option.map_eq_some_iff.1 h
    cases heq
    intro c hc
    rw [(Tables.insertClientConnection_eq hinsert).1] at hc
    exact ht.mono (Nat.le_succ k) c hc
  | removeClient | removeAllClients =>
    cases h
    exact (ht.deleteClients _ _).mono (Nat.le_succ k)
  | incrementConnectionCount | incrementEventCount =>
    cases h
    exact ht.updateClient.mono (Nat.le_succ k)
  | removeConnection | removeClientConnections | removeAllConnections =>
    cases h
    exact ht.mono (Nat.le_succ k)

/-- An operation that breaks a reference is not refused where the engine does not enforce them, and
is one that leaves a failed commit. -/
theorem modify_of_not_keeps (h : ¬ m.KeepsReferences t) (now : Int) :
    m.rollsBack = false ∧ ∃ p, m.statement.modify false m.parameter now t = some p := by
  cases m with
  | removeClient | removeAllClients => exact ⟨rfl, _, rfl⟩
  | addClientConnection id time =>
    refine ⟨rfl, Option.isSome_iff_exists.1 ?_⟩
    simp [statement, StatementName.modify, Tables.insertClientConnection]
  | _ => exact absurd trivial h

end Mutation

/-! ## Runs -/

namespace Operation

/-- What the foreign key of the schema promises on the connection of the handle: every connection is
one of a client, in what is committed and in what a statement sees; and a client that is just added
has no connections. -/
structure Consistent (h : Nat) (s : SqliteDatabase) : Prop where
  references : (s.world.store h).Holds Tables.Referential
  newClient : ∀ ip o n, ((Mutation.addClient ip).run o s).1 = .ok (.int n) → n ≠ -1 →
    ∀ o' : StepOutcomes, o'.statement = true →
      ((Query.getClientConnectionCount n).run o' ((Mutation.addClient ip).run o s).2).1 = .int 0

/-- The operation, where its statement is reached and its commit is not aborted, is one that keeps
the references. -/
def KeepsReferences (h : Nat) (s : SqliteDatabase) (c : Operation × StepOutcomes) : Prop :=
  ∀ m, c.1 = .mutate m → c.2.begin = true → c.2.statement = true →
    (c.2.commit = true ∨ c.2.commitAborts = false) →
    (s.world.connections h).transaction = none →
      m.KeepsReferences (s.world.databases (s.world.databaseOf h)).tables

/-- A prepared object whose connection was opened as the code opens it. -/
structure Opened (h : Nat) (s : SqliteDatabase) : Prop where
  prepared : s.Prepared h
  foreignKeys : (s.world.connections h).foreignKeys = defaultForeignKeys

variable {s : SqliteDatabase} {h k : Nat}

theorem Opened.next (hs : Opened h s) (c : Operation × StepOutcomes) :
    Opened h (Operation.next s c) :=
  ⟨(next_prepared hs.prepared c).1,
    (next_prepared hs.prepared c).2.foreignKeys.trans hs.foreignKeys⟩

/-- **One operation** keeps the references exactly if it is one that keeps them. -/
theorem references_next_iff (hs : Opened h s) (href : (s.world.store h).Holds Tables.Referential)
    (c : Operation × StepOutcomes) :
    ((next s c).world.store h).Holds Tables.Referential ↔ KeepsReferences h s c := by
  obtain ⟨m | q, o⟩ := c
  · have hstore : (next s (.mutate m, o)).world.store h = (m.transaction o s h).2 :=
      (m.run_spec hs.prepared o).store
    rw [hstore]
    apply (transact_holds_iff href).trans
    constructor
    · intro hkeep m' hm' hbegin hstatement hcommit hnone
      cases hm'
      have hview : (s.world.store h).view = (s.world.databases (s.world.databaseOf h)).tables :=
        Store.view_of_none hnone
      have hdefault : (s.world.connections h).foreignKeys = false := hs.foreignKeys
      by_contra hno
      obtain ⟨hback, ⟨t, r⟩, hmod⟩ := Mutation.modify_of_not_keeps hno o.now
      rw [← hdefault, ← hview] at hmod
      have heffect : m.effect o s h (s.world.store h).view = some t :=
        Option.map_eq_some_iff.2 ⟨(t, r), hmod, rfl⟩
      have hleft : ¬ o.Undoes m.rollsBack ↔ o.commitAborts = false := by
        simp [Outcomes.Undoes, hback]
      have ht := hkeep t ⟨hbegin, hnone, hstatement, heffect⟩ (hcommit.imp id hleft.2)
      rcases (Mutation.referential_modify_iff href.2 hmod).1 ht with hfk | hkeeps
      · rw [hdefault] at hfk
        cases hfk
      · rw [hview] at hkeeps
        exact hno hkeeps
    · rintro hkeep t ⟨hbegin, hnone, hstatement, heffect⟩ hcommit
      obtain ⟨⟨t', r⟩, hmod, rfl⟩ := Option.map_eq_some_iff.1 heffect
      have hleft : ¬ o.Undoes m.rollsBack → o.commitAborts = false := by
        intro hu
        rw [Outcomes.Undoes, not_or, Bool.not_eq_true] at hu
        exact hu.1
      have hkeeps := hkeep m rfl hbegin hstatement (hcommit.imp id hleft) hnone
      rw [show (s.world.databases _).tables = (s.world.store h).view from
        (Store.view_of_none hnone).symm] at hkeeps
      exact (Mutation.referential_modify_iff href.2 hmod).2 (.inr hkeeps)
  · rw [store_next_read hs.prepared]
    exact iff_of_true href fun m hm => by cases hm

/-- An operation moves the largest id by at most one. -/
theorem ids_next (hs : s.Prepared h) (hids : (s.world.store h).Holds (Tables.IdsUpTo k))
    (c : Operation × StepOutcomes) :
    ((next s c).world.store h).Holds (Tables.IdsUpTo (k + 1)) := by
  have hmono : (s.world.store h).Holds (Tables.IdsUpTo (k + 1)) :=
    hids.imp fun _ ht => ht.mono (Nat.le_succ k)
  obtain ⟨m | q, o⟩ := c
  · rw [show (next s (.mutate m, o)).world.store h = _ from (m.run_spec hs o).store]
    apply (transact_holds_iff hmono).2
    intro t ht _
    obtain ⟨⟨t', r⟩, hmod, rfl⟩ := Option.map_eq_some_iff.1 ht.2.2.2
    exact Mutation.idsUpTo_modify hids.2 hmod
  · rw [store_next_read hs]
    exact hmono

/-- In a run the ids are at most the number of its operations. -/
theorem always_ids (hs : s.Prepared h) (hids : (s.world.store h).Holds (Tables.IdsUpTo k))
    {cs : List (Operation × StepOutcomes)} {l : Nat} (hl : k + cs.length ≤ l) :
    Runs.Always next (fun s => (s.world.store h).Holds (Tables.IdsUpTo l)) s cs := by
  induction cs generalizing s k with
  | nil => exact hids.imp fun _ ht => ht.mono hl
  | cons c cs ih =>
    rw [List.length_cons] at hl
    exact ⟨hids.imp fun _ ht => ht.mono (by omega),
      ih (next_prepared hs c).1 (ids_next hs hids c) (by omega)⟩

/-- **A client that is just added has no connections**, where every connection is one of a client
and the new id is an `int`. -/
theorem newClient_unused (hs : s.Prepared h) (href : (s.world.store h).Holds Tables.Referential)
    (hids : (s.world.store h).Holds (Tables.IdsUpTo (2 ^ 31 - 2))) {ip n : Int32} {o : StepOutcomes}
    (hadd : ((Mutation.addClient ip).run o s).1 = .ok (.int n)) (hn : n ≠ -1) {o' : StepOutcomes}
    (ho' : o'.statement = true) :
    ((Query.getClientConnectionCount n).run o' ((Mutation.addClient ip).run o s).2).1 = .int 0 := by
  have hspec := (Mutation.addClient ip).run_spec hs o
  obtain ⟨reply, hreply, hfail, hdone⟩ := hspec.reply
  rw [hadd] at hreply
  cases hreply
  cases hd : ((Mutation.addClient ip).transaction o s h).1 with
  | false =>
    cases hfail hd
    exact absurd rfl hn
  | true =>
    have hn' := hdone hd
    rw [if_pos (show (Mutation.addClient ip).inserts = true from rfl)] at hn'
    cases hn'
    obtain ⟨hc, t, ht⟩ := transact_done_iff.1 hd
    obtain ⟨⟨t', r⟩, hmod, rfl⟩ := Option.map_eq_some_iff.1 ht.2.2.2
    obtain ⟨⟨t1, rowid⟩, hinsert, heq⟩ := Option.map_eq_some_iff.1 hmod
    cases heq
    obtain ⟨hconnections, -, -⟩ := Tables.insertClient_eq hinsert
    have hid := hids.2.newRowid
    have htoInt : (Int32.ofInt ((Mutation.addClient ip).newId (s.world.store h).view)).toInt =
        newRowid ClientRow.id (s.world.store h).view.clients :=
      Int32.toInt_ofInt_of_le (by simp only [Mutation.newId]; omega)
        (by simp only [Mutation.newId]; omega)
    -- the count reads the tables that were committed
    have hstore : (((Mutation.addClient ip).run o s).2.world.store h).view = t1 := by
      rw [hspec.store, show (Mutation.addClient ip).transaction o s h = _ from
        transact_of_reaches ht hc]
      rfl
    have hcount : t1.clientConnectionCount
        (newRowid ClientRow.id (s.world.store h).view.clients) = 0 := by
      rw [Tables.clientConnectionCount, hconnections]
      exact href.2.clientConnectionCount_newRowid
    simp only [Query.run, SqliteDatabase.getClientConnectionCount,
      query_of_statement (hspec.prepared.statements _), Sqlite.stepSelect, if_pos ho', hstore,
      htoInt, hcount]
    rfl

/-- **The references of a run**: from an empty database on, every connection is one of a client, and
a client that is just added has none, exactly if every operation of the run is one that keeps the
references. -/
theorem references_kept_iff {w : Sqlite} {connectionString : Bytes}
    (hempty : ToEmpty w connectionString) {cs : List (Operation × StepOutcomes)}
    (hcs : cs.length < 2 ^ 31 - 1) :
    Runs.Always next (Consistent w.next) (connected w connectionString) cs ↔
      Runs.Meets next (KeepsReferences w.next) (connected w connectionString) cs := by
  obtain ⟨hprepared, hconn, -⟩ := connect_prepared w connectionString
  have hopened : Opened w.next (connected w connectionString) := ⟨hprepared, by rw [hconn]⟩
  have href : ((connected w connectionString).world.store w.next).Holds Tables.Referential := by
    rw [store_connected hempty]
    exact ⟨Tables.referential_empty, Tables.referential_empty⟩
  have hids : ((connected w connectionString).world.store w.next).Holds (Tables.IdsUpTo 0) := by
    rw [store_connected hempty]
    exact ⟨Tables.idsUpTo_empty, Tables.idsUpTo_empty⟩
  rw [← Runs.always_iff_meets (J := Opened w.next)
    (P := fun s => (s.world.store w.next).Holds Tables.Referential) (fun s c hs => hs.next c)
    (fun s c hs href => references_next_iff hs href c) hopened href]
  have hallOpened : Runs.Always next (Opened w.next) (connected w connectionString) cs :=
    Runs.always_of_step (fun s c hs => hs.next c) hopened cs
  have hallIds : Runs.Always next (fun s => (s.world.store w.next).Holds
      (Tables.IdsUpTo (2 ^ 31 - 2))) (connected w connectionString) cs :=
    always_ids hprepared hids (by omega)
  refine ⟨fun hall => ?_, fun hall => ?_⟩
  · exact hall.mono fun s hs => hs.references
  · apply ((hall.and hallOpened).and hallIds).mono
    rintro s ⟨⟨href, hs⟩, hids⟩
    exact ⟨href, fun ip o n hadd hn o' ho' => newClient_unused hs.prepared href hids hadd hn ho'⟩

/-- A client, a connection of it, and its end. -/
def visit : List (Operation × StepOutcomes) :=
  [(.mutate (.addClient 7), {}), (.mutate (.addClientConnection 1 0), {}),
    (.mutate (.removeClientConnections 1), {}), (.mutate (.removeClient 1), {})]

theorem visit_consistent : Runs.Always next (Consistent 0) (connected .initial "") visit :=
  (@references_kept_iff .initial "" (.inl (by decide)) visit (by decide)).2 <| by
    refine ⟨?_, ?_, ?_, ?_, trivial⟩ <;> rintro m ⟨⟩ - - - <;> decide +kernel

/-- A client and a connection of it, that stays when the client goes. -/
def orphan : List (Operation × StepOutcomes) :=
  [(.mutate (.addClient 7), {}), (.mutate (.addClientConnection 1 0), {}),
    (.mutate (.removeClient 1), {})]

theorem orphan_referential :
    ¬ ((Runs.after next (connected .initial "") orphan).world.store 0).view.Referential := by
  decide +kernel

/-- The client that is added next gets the id of the one that went, and its connection. -/
theorem client_inherits_connection :
    ¬ Runs.Always next (Consistent 0) (connected .initial "") orphan ∧
      let s := (Mutation.addClient 8).run {} (Runs.after next (connected .initial "") orphan)
      s.1 = .ok (.int 1) ∧ ((Query.getClientConnectionCount 1).run {} s.2).1 = .int 1 :=
  ⟨fun hall => orphan_referential hall.last.references.2, by decide +kernel⟩

end Operation

end HttpsTest
