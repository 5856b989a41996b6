import HttpsTest.Db.ConnectionMap
import HttpsTest.Db.Proof.ClientMap

/-!
# The table of connections is a map

The statements on `ClientConnection` as changes of the map of the table (`connectionMap_append`,
`without_deleteConnections`), and `refines_iff_stamped`: since the time stamp of the caller is not
bound, a run refines a map exactly if each connection with a time stamp is added at that time, and
the ids stay below `2 ^ 31`.
-/

set_option autoImplicit false

namespace HttpsTest

open SqliteDatabase

/-! ## The map of the table -/

namespace Tables

variable {t t' : Tables} {id : Int} {e : ConnectionEntry}

theorem connectionMap_congr (heq : t'.connections = t.connections) :
    t'.connectionMap = t.connectionMap := by
  apply Finmap.ext
  simp only [connectionMap, connectionEntries, heq]

theorem lookup_connectionMap : t.connectionMap.lookup id = some e ↔
    ∃ r ∈ t.connections, r.id = id ∧ r.entry = e := by
  have hmem : t.connectionMap.lookup id = some e ↔ ⟨id, e⟩ ∈ t.connectionEntries :=
    Finmap.lookup_eq_some_iff
  rw [hmem, connectionEntries, List.mem_map]
  refine exists_congr fun r => and_congr_right fun _ => ?_
  rw [Sigma.mk.injEq, heq_eq_eq]

theorem mem_connectionMap : id ∈ t.connectionMap ↔ ∃ r ∈ t.connections, r.id = id := by
  rw [Finmap.mem_iff]
  refine ⟨fun h => ?_, fun h => ?_⟩
  · obtain ⟨e, he⟩ := h
    obtain ⟨r, hr, hid, -⟩ := lookup_connectionMap.1 he
    exact ⟨r, hr, hid⟩
  · obtain ⟨r, hr, hid⟩ := h
    exact ⟨r.entry, lookup_connectionMap.2 ⟨r, hr, hid, rfl⟩⟩

/-- The id of the next row is not in the map. -/
theorem newRowid_notMem : newRowid ConnectionRow.id t.connections ∉ t.connectionMap := by
  intro hmem
  obtain ⟨r, hr, hid⟩ := mem_connectionMap.1 hmem
  have := t.connections_ids.lt_newRowid hr
  omega

/-- A row behind the others is an entry more. -/
theorem connectionMap_append {r : ConnectionRow} (hr : r.id ∉ t.connectionMap)
    (happend : t'.connections = t.connections ++ [r]) :
    t'.connectionMap = t.connectionMap.insert r.id r.entry := by
  apply Finmap.ext_lookup
  intro id
  apply Option.ext
  intro e
  rw [lookup_connectionMap, happend]
  by_cases hid : id = r.id
  · subst hid
    rw [Finmap.lookup_insert, Option.some.injEq]
    refine ⟨fun h => ?_, fun h => ⟨r, by simp, rfl, h⟩⟩
    obtain ⟨r', hr', hid', rfl⟩ := h
    rcases List.mem_append.1 hr' with hr' | hr'
    · exact absurd (mem_connectionMap.2 ⟨r', hr', hid'⟩) hr
    · rw [List.mem_singleton.1 hr']
  · rw [Finmap.lookup_insert_of_ne _ hid, lookup_connectionMap]
    refine ⟨fun h => ?_, fun h => ?_⟩
    · obtain ⟨r', hr', hid', he⟩ := h
      rcases List.mem_append.1 hr' with hr' | hr'
      · exact ⟨r', hr', hid', he⟩
      · rw [List.mem_singleton.1 hr'] at hid'
        exact absurd hid'.symm hid
    · obtain ⟨r', hr', hid', he⟩ := h
      exact ⟨r', List.mem_append_left _ hr', hid', he⟩

/-- Rows that are deleted are the entries that are named. -/
theorem without_deleteConnections {keep : ConnectionRow → Bool}
    {named : Int → ConnectionEntry → Prop}
    (hkeep : ∀ r : ConnectionRow, keep r = true ↔ ¬ named r.id r.entry) :
    t.connectionMap.Without (t.deleteConnections keep).connectionMap named := by
  intro id e
  have hfilter (r : ConnectionRow) : r ∈ (t.deleteConnections keep).connections ↔
      r ∈ t.connections ∧ keep r = true := List.mem_filter
  rw [lookup_connectionMap, lookup_connectionMap]
  refine ⟨fun h => ?_, fun h => ?_⟩
  · obtain ⟨r, hr, rfl, rfl⟩ := h
    obtain ⟨hmem, hk⟩ := (hfilter r).1 hr
    exact ⟨⟨r, hmem, rfl, rfl⟩, (hkeep r).1 hk⟩
  · obtain ⟨⟨r, hmem, rfl, rfl⟩, hnamed⟩ := h
    exact ⟨r, (hfilter r).2 ⟨hmem, (hkeep r).2 hnamed⟩, rfl, rfl⟩

theorem connectionMap_removeAllConnections : t.removeAllConnections.connectionMap = ∅ := by
  apply Finmap.ext_lookup
  intro id
  apply Option.ext
  intro e
  rw [lookup_connectionMap, removeAllConnections, deleteConnections]
  simp

/-- The statement counts the entries of the client. -/
theorem count_connectionMap (clientId : Int) :
    t.connectionMap.count clientId = t.clientConnectionCount clientId := by
  have hcount : t.connectionMap.count clientId =
      t.connectionEntries.countP fun e => e.2.clientId = clientId := Multiset.coe_countP _ _
  rw [hcount, connectionEntries, List.countP_map]
  rfl

end Tables

/-! ## One operation -/

namespace Operation

/-- A connected object without an open transaction. -/
structure Ready (h : Nat) (s : SqliteDatabase) : Prop where
  opened : Opened h s
  closed : (s.world.store h).working = none

/-- A connection that is added with a time stamp is added at that time, and the id it gets is an
`int`. -/
def Stamped (h : Nat) (s : SqliteDatabase) (c : Operation × StepOutcomes) : Prop :=
  ∀ clientId connectionTimestamp,
    c.1 = .mutate (.addClientConnection clientId connectionTimestamp) →
      let rowid := newRowid ConnectionRow.id (s.world.store h).committed.connections
      rowid < 2 ^ 31 ∧ -2 ^ 31 ≤ rowid ∧
        (connectionTimestamp ≠ 0 → c.2.now = connectionTimestamp.toInt)

/-- The number of connections of a client is an `int`. -/
def CountsFit (h : Nat) (s : SqliteDatabase) : Prop :=
  ∀ clientId : Int32,
    (s.world.store h).committed.clientConnectionCount clientId.toInt < 2 ^ 31

/-- The ids of the connections are positive `int`s. -/
def IdsFit (h : Nat) (s : SqliteDatabase) : Prop :=
  ∀ r ∈ (s.world.store h).committed.connections, 1 ≤ r.id ∧ r.id < 2 ^ 31

variable {s : SqliteDatabase} {h : Nat} {o : StepOutcomes}

/-- The statement of an operation, on a connection that does not enforce foreign keys. -/
theorem Opened.effect_eq (hs : Opened h s) (mu : Mutation) (o : StepOutcomes) (t : Tables) :
    mu.effect o s h t = (mu.statement.modify false mu.parameter o.now t).map (·.1) := by
  unfold Mutation.effect Sqlite.change
  rw [hs.foreignKeys]
  rfl

/-- What is committed behind an operation that changes rows, and what it returns. -/
theorem Ready.run_mutate (hs : Ready h s) (ho : o.AsDefined) (mu : Mutation) {t : Tables}
    (hmodify : (mu.statement.modify false mu.parameter o.now
      (s.world.store h).committed).map (·.1) = some t) :
    (mu.run o s).1 = .ok (if mu.inserts then
        .int (.ofInt (mu.newId (s.world.store h).committed)) else .bool true) ∧
      ((next s (.mutate mu, o)).world.store h).committed = t := by
  obtain ⟨reply, hreply, hspec⟩ := mu.run_asDefined hs.opened.prepared hs.closed ho
  rw [hs.opened.effect_eq, hmodify] at hspec
  obtain ⟨hstore, hreply'⟩ := hspec
  rw [hreply, hreply']
  exact ⟨rfl, congrArg Transactions.Store.committed hstore⟩

/-- The tables behind the statement of an operation; those before it, where it is refused. -/
def modified (mu : Mutation) (now : Int) (t : Tables) : Tables :=
  ((mu.statement.modify false mu.parameter now t).map (·.1)).getD t

theorem connections_modified_addClient (ip : Int32) (now : Int) (t : Tables) :
    (modified (.addClient ip) now t).connections = t.connections := by
  simp only [modified, Mutation.statement, StatementName.modify, Mutation.parameter,
    Option.map_map]
  cases hinsert : t.insertClient ip.toInt with
  | none => rfl
  | some p =>
    obtain ⟨t', rowid⟩ := p
    exact (Tables.insertClient_eq hinsert).1

/-- The operations that add no connection keep some of the rows. -/
theorem connections_modified_subset {mu : Mutation} (hadd : ∀ clientId t,
    mu ≠ .addClientConnection clientId t) (now : Int) (t : Tables) :
    (modified mu now t).connections ⊆ t.connections := by
  have hfilter (keep : ConnectionRow → Bool) :
      (t.deleteConnections keep).connections ⊆ t.connections :=
    List.filter_sublist.subset
  cases mu with
  | addClient ip =>
    rw [connections_modified_addClient]
    exact List.Subset.refl _
  | addClientConnection clientId t => exact absurd rfl (hadd clientId t)
  | removeClient | removeAllClients | incrementConnectionCount | incrementEventCount =>
    exact List.Subset.refl _
  | removeConnection | removeClientConnections | removeAllConnections => exact hfilter _

theorem Ready.store_next (hs : Ready h s) (ho : o.AsDefined) (mu : Mutation) :
    (Operation.next s (.mutate mu, o)).world.store h =
      { committed := modified mu o.now (s.world.store h).committed } := by
  have hstore : (Operation.next s (.mutate mu, o)).world.store h = _ :=
    mu.store_asDefined hs.opened.prepared hs.closed ho
  rw [hstore, hs.opened.effect_eq, modified]

/-- The rows behind an operation: those before it with the row that is added, or some of them. -/
theorem Ready.rows_next (hs : Ready h s) {c : Operation × StepOutcomes} (ho : c.2.AsDefined)
    {r : ConnectionRow} (hr : r ∈ ((next s c).world.store h).committed.connections) :
    r ∈ (s.world.store h).committed.connections ∨
      ∃ clientId t, c.1 = .mutate (.addClientConnection clientId t) ∧
        r.id = newRowid ConnectionRow.id (s.world.store h).committed.connections := by
  obtain ⟨op, o⟩ := c
  cases op with
  | read q =>
    rw [store_next_read hs.opened.prepared] at hr
    exact .inl hr
  | mutate mu =>
    by_cases hadd : ∃ clientId t, mu = .addClientConnection clientId t
    · obtain ⟨clientId, t, rfl⟩ := hadd
      rw [(hs.run_mutate ho _ rfl).2] at hr
      rcases List.mem_append.1 hr with hr | hr
      · exact .inl hr
      · exact .inr ⟨clientId, t, rfl, by rw [List.mem_singleton.1 hr]⟩
    · rw [hs.store_next ho] at hr
      refine .inl (connections_modified_subset ?_ _ _ hr)
      intro clientId t hmu
      exact hadd ⟨clientId, t, hmu⟩

theorem Ready.next (hs : Ready h s) {c : Operation × StepOutcomes} (ho : c.2.AsDefined) :
    Ready h (Operation.next s c) := by
  refine ⟨hs.opened.next c, ?_⟩
  obtain ⟨op, o⟩ := c
  cases op with
  | read q =>
    rw [store_next_read hs.opened.prepared]
    exact hs.closed
  | mutate mu => rw [hs.store_next ho]

/-- The map behind an operation that leaves the rows alone. -/
theorem Ready.connectionMap_next (hs : Ready h s) (ho : o.AsDefined) {mu : Mutation}
    (hmu : (modified mu o.now (s.world.store h).committed).connections =
      (s.world.store h).committed.connections) :
    connectionMap h (Operation.next s (.mutate mu, o)) = connectionMap h s := by
  unfold connectionMap
  rw [hs.store_next ho]
  exact Tables.connectionMap_congr hmu

/-- **Adding a connection** is what the map allows exactly if it is added at its time stamp and its
id is an `int`. -/
theorem Ready.conforms_add_iff (hs : Ready h s) (ho : o.AsDefined) (clientId t : Int32) :
    let rowid := newRowid ConnectionRow.id (s.world.store h).committed.connections
    Conforms h s (.mutate (.addClientConnection clientId t), o) ↔
      rowid < 2 ^ 31 ∧ -2 ^ 31 ≤ rowid ∧ (t ≠ 0 → o.now = t.toInt) := by
  intro rowid
  obtain ⟨hreply, hcommitted⟩ := hs.run_mutate ho (.addClientConnection clientId t) rfl
  have hfresh : rowid ∉ connectionMap h s := Tables.newRowid_notMem
  set row : ConnectionRow :=
    { id := rowid
      clientId := clientId.toInt
      connectionTimestamp := o.now } with hrow
  have hmap : connectionMap h (Operation.next s (.mutate (.addClientConnection clientId t), o)) =
      (connectionMap h s).insert rowid row.entry := by
    unfold connectionMap
    rw [hcommitted]
    exact Tables.connectionMap_append (r := row) hfresh rfl
  unfold Conforms
  rw [hmap]
  refine ⟨fun hc => ?_, fun hc => ?_⟩
  · obtain ⟨reply, hreply', id, time, rfl, hid, htime, heq⟩ := hc
    have hlookup := congrArg (Finmap.lookup rowid) heq
    rw [Finmap.lookup_insert] at hlookup
    -- the new entry is under the id that is returned
    have hid' : rowid = id.toInt := by
      by_contra hne
      rw [Finmap.lookup_insert_of_ne _ hne, Finmap.lookup_eq_none.2 hfresh] at hlookup
      cases hlookup
    rw [hid', Finmap.lookup_insert] at hlookup
    rw [hid']
    refine ⟨id.toInt_lt, id.le_toInt, fun ht => ?_⟩
    rw [← htime ht]
    exact congrArg ConnectionEntry.connectionTimestamp (Option.some.inj hlookup)
  · obtain ⟨hlt, hle, htime⟩ := hc
    have htoInt : (Int32.ofInt rowid).toInt = rowid :=
      Int32.toInt_ofInt_of_le (by omega) (by omega)
    refine ⟨_, hreply, .ofInt rowid, o.now, rfl, ?_, htime, ?_⟩ <;> rw [htoInt]
    · exact hfresh
    · rfl

/-- **One operation** does what the map allows exactly if it is stamped. -/
theorem Ready.conforms_iff_stamped (hs : Ready h s) {c : Operation × StepOutcomes}
    (ho : c.2.AsDefined) : Conforms h s c ↔ Stamped h s c := by
  obtain ⟨op, o⟩ := c
  have hother (hop : ∀ clientId t, op ≠ .mutate (.addClientConnection clientId t))
      (hconforms : Conforms h s (op, o)) : Conforms h s (op, o) ↔ Stamped h s (op, o) :=
    iff_of_true hconforms fun clientId t hc => absurd hc (hop clientId t)
  cases op with
  | read q =>
    refine hother (by simp) ⟨(q.run o s).1, rfl, ?_⟩
    unfold connectionMap
    rw [store_next_read hs.opened.prepared]
    cases q <;> rfl
  | mutate mu =>
    cases mu with
    | addClientConnection clientId t =>
      apply (hs.conforms_add_iff ho clientId t).trans
      refine ⟨fun hc clientId' t' heq => ?_, fun hc => hc clientId t rfl⟩
      cases heq
      exact hc
    | addClient ip =>
      obtain ⟨reply, hreply, -⟩ :=
        (Mutation.addClient ip).run_asDefined hs.opened.prepared hs.closed ho
      refine hother (by simp) ⟨reply, hreply, ?_⟩
      exact hs.connectionMap_next ho (connections_modified_addClient ip _ _)
    | removeClient | removeAllClients | incrementConnectionCount | incrementEventCount =>
      refine hother (by simp) ⟨_, (hs.run_mutate ho _ rfl).1, ?_⟩
      exact hs.connectionMap_next ho rfl
    | removeConnection id =>
      obtain ⟨hreply, hcommitted⟩ := hs.run_mutate ho (.removeConnection id) rfl
      refine hother (by simp) ⟨_, hreply, rfl, ?_⟩
      unfold connectionMap
      rw [hcommitted]
      exact Tables.without_deleteConnections fun r => by simp [Mutation.parameter]
    | removeClientConnections clientId =>
      obtain ⟨hreply, hcommitted⟩ := hs.run_mutate ho (.removeClientConnections clientId) rfl
      refine hother (by simp) ⟨_, hreply, rfl, ?_⟩
      unfold connectionMap
      rw [hcommitted]
      exact Tables.without_deleteConnections fun r => by
        simp [ConnectionRow.entry, Mutation.parameter]
    | removeAllConnections =>
      obtain ⟨hreply, hcommitted⟩ := hs.run_mutate ho .removeAllConnections rfl
      refine hother (by simp) ⟨_, hreply, rfl, ?_⟩
      unfold connectionMap
      rw [hcommitted]
      exact Tables.connectionMap_removeAllConnections

/-- The count that is returned is that of the map exactly if it is an `int`. -/
theorem Ready.counts_iff_fit (hs : Ready h s) : Counts h s ↔ CountsFit h s := by
  have hquery (clientId : Int32) {o : StepOutcomes} (ho : o.AsDefined) :
      ((Query.getClientConnectionCount clientId).run o s).1 =
        .int (.ofInt ((s.world.store h).committed.clientConnectionCount clientId.toInt)) :=
    congrArg Reply.int (query_asDefined hs.opened.prepared hs.closed ho .getClientConnectionCount
      (-1) fun t => some (Int32.ofInt (t.clientConnectionCount clientId.toInt)))
  unfold Counts connectionMap
  refine forall_congr' fun clientId => ?_
  rw [Tables.count_connectionMap]
  refine ⟨fun hc => ?_, fun hfit o ho => ⟨_, hquery clientId ho, ?_⟩⟩
  · obtain ⟨n, hn, hcount⟩ := hc {} (by decide)
    have := n.toInt_lt
    omega
  · exact Int32.toInt_ofInt_of_le (by omega) (by omega)

/-! ## Runs -/

/-- **The repository of connections is a map**: a run of a connected object in which the engine does
what SQL says refines a map exactly if every connection with a time stamp is added at that time, and
ids and counts are `int`s. -/
theorem refines_iff_stamped (hs : Ready h s) {cs : List (Operation × StepOutcomes)}
    (hcs : ∀ c ∈ cs, c.2.AsDefined) :
    Refines h s cs ↔
      Runs.Meets next (Stamped h) s cs ∧ Runs.Always next (CountsFit h) s cs := by
  have hdefined : Runs.Meets next (fun _ c => c.2.AsDefined) s cs := Runs.meets_iff_forall.2 hcs
  have hready : Runs.Always next (Ready h) s cs :=
    Runs.always_of_meets (fun s c ho hs => hs.next ho) hdefined hs
  have hmeets : Runs.Meets next (Conforms h) s cs ↔ Runs.Meets next (Stamped h) s cs :=
    Runs.meets_congr_of (fun s c ho hs => hs.next ho) (fun s c ho hs => hs.conforms_iff_stamped ho)
      hdefined hs
  unfold Refines
  rw [hmeets]
  refine and_congr_right fun _ => ⟨fun hcounts => ?_, fun hfit => ?_⟩
  · exact (hready.and hcounts).mono fun s hj => hj.1.counts_iff_fit.1 hj.2
  · exact (hready.and hfit).mono fun s hj => hj.1.counts_iff_fit.2 hj.2

/-! ### From an empty database on -/

theorem ready_connected {w : Sqlite} {connectionString : Bytes}
    (hempty : ToEmpty w connectionString) : Ready w.next (connected w connectionString) := by
  obtain ⟨hprepared, hconn, -⟩ := connect_prepared w connectionString
  exact ⟨⟨hprepared, by rw [hconn]⟩, by rw [store_connected hempty]⟩

/-- There are fewer connections than ids. -/
theorem IdsFit.countsFit (hids : IdsFit h s) : CountsFit h s := by
  have hnodup : ((s.world.store h).committed.connections.map ConnectionRow.id).Nodup :=
    List.pairwise_map.2 ((s.world.store h).committed.connections_ids.imp fun hab => hab.ne)
  have hsub : ((s.world.store h).committed.connections.map ConnectionRow.id).toFinset ⊆
      Finset.Ioo 0 (2 ^ 31) := by
    intro id hid
    obtain ⟨r, hr, rfl⟩ := List.mem_map.1 (List.mem_toFinset.1 hid)
    have := hids r hr
    exact Finset.mem_Ioo.2 ⟨by omega, by omega⟩
  have hcard := Finset.card_le_card hsub
  rw [List.toFinset_card_of_nodup hnodup, List.length_map, Int.card_Ioo] at hcard
  intro clientId
  have hle : (s.world.store h).committed.clientConnectionCount clientId.toInt ≤
      (s.world.store h).committed.connections.length := List.countP_le_length
  omega

theorem IdsFit.next (hids : IdsFit h s) (hs : Ready h s) {c : Operation × StepOutcomes}
    (ho : c.2.AsDefined) (hc : Stamped h s c) : IdsFit h (Operation.next s c) := by
  intro r hr
  rcases hs.rows_next ho hr with hr | ⟨clientId, t, hop, hid⟩
  · exact hids r hr
  · obtain ⟨hlt, -, -⟩ := hc clientId t hop
    rw [hid]
    refine ⟨?_, hlt⟩
    unfold newRowid
    split
    · exact Int.le_refl 1
    · rename_i last hlast
      have := hids last (List.mem_of_getLast? hlast)
      omega

/-- From an empty database on, the counts are `int`s where the ids are. -/
theorem countsFit_of_stamped {w : Sqlite} {connectionString : Bytes}
    (hempty : ToEmpty w connectionString) {cs : List (Operation × StepOutcomes)}
    (hcs : ∀ c ∈ cs, c.2.AsDefined)
    (hstamped : Runs.Meets next (Stamped w.next) (connected w connectionString) cs) :
    Runs.Always next (CountsFit w.next) (connected w connectionString) cs := by
  have hids : IdsFit w.next (connected w connectionString) := by
    intro r hr
    rw [store_connected hempty] at hr
    cases hr
  have hstep (s : SqliteDatabase) (c : Operation × StepOutcomes)
      (hc : c.2.AsDefined ∧ Stamped w.next s c) (hj : Ready w.next s ∧ IdsFit w.next s) :
      Ready w.next (next s c) ∧ IdsFit w.next (next s c) :=
    ⟨hj.1.next hc.1, hj.2.next hj.1 hc.1 hc.2⟩
  have hmeets : Runs.Meets next (fun s c => c.2.AsDefined ∧ Stamped w.next s c)
      (connected w connectionString) cs := (Runs.meets_iff_forall.2 hcs).and hstamped
  have hall := Runs.always_of_meets hstep hmeets ⟨ready_connected hempty, hids⟩
  exact hall.mono fun s hj => hj.2.countsFit

/-- A connection of a client that is removed, and the next one, which gets its id. -/
def connectionVisits : List (Operation × StepOutcomes) :=
  [(.mutate (.addClient 7), {}), (.mutate (.addClientConnection 1 5), { now := 5 }),
    (.mutate (.removeConnection 1), {}), (.mutate (.addClientConnection 1 8), { now := 8 }),
    (.mutate (.removeClientConnections 1), {})]

theorem connectionVisits_stamped :
    Runs.Meets next (Stamped 0) (connected .initial "") connectionVisits := by
  refine ⟨?_, ?_, ?_, ?_, ?_, trivial⟩ <;> intro clientId t hop <;> cases hop <;> decide +kernel

theorem connectionVisits_refines : Refines 0 (connected .initial "") connectionVisits :=
  (refines_iff_stamped (@ready_connected .initial "" (.inl (by decide))) (by decide)).2
    ⟨connectionVisits_stamped, @countsFit_of_stamped .initial "" (.inl (by decide))
      connectionVisits (by decide) connectionVisits_stamped⟩

/-- A connection of the client 1 at the time 1700000000, to be stored as one at 1600000000. -/
def earlierConnection : Operation × StepOutcomes :=
  (.mutate (.addClientConnection 1 1600000000), { now := 1700000000 })

/-- The row has the time at which it was inserted. -/
theorem timestamp_dropped :
    let s := next (connected .initial "") (.mutate (.addClient 7), {})
    ¬ Refines 0 s [earlierConnection] ∧
      ((next s earlierConnection).world.store 0).committed.connections =
        [{ id := 1, clientId := 1, connectionTimestamp := 1700000000 }] := by
  intro s
  have hs : Ready 0 s := (@ready_connected .initial "" (.inl (by decide))).next (by decide)
  refine ⟨fun hrefines => ?_, by decide +kernel⟩
  have hstamped := (hs.conforms_iff_stamped (by decide)).1 hrefines.1.1
  exact absurd ((hstamped 1 1600000000 rfl).2.2 (by decide)) (by decide)

end Operation

end HttpsTest
