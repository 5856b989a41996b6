import Mathlib.Data.Int.Interval
import HttpsTest.Db.ClientMap
import HttpsTest.Db.Proof.References

/-!
# The repository is a map

`Represents`: the rows of the table `client` are the records of the entries of a map. Each statement
keeps it (`Represents.modify`), so in every run in which the engine does what SQL says the object
returns what the map says (`agrees_of_run`).
-/

set_option autoImplicit false

namespace HttpsTest

open Transactions SqliteDatabase

/-! ## Records -/

/-- A record tells its id and its entry. -/
theorem ClientEntry.record_inj {e e' : ClientEntry} {id id' : Int}
    (h : e.record id = e'.record id') : id = id' ∧ e = e' := by
  obtain ⟨ip, connectionCount, eventCount⟩ := e
  obtain ⟨ip', connectionCount', eventCount'⟩ := e'
  simp only [ClientEntry.record, ClientRow.mk.injEq, Nat.cast_inj, Int32.toInt_inj] at h
  obtain ⟨rfl, rfl, rfl, rfl⟩ := h
  exact ⟨rfl, rfl⟩

/-- The columns of a record that fit into an `int` are returned unchanged. -/
theorem ClientEntry.value_ofRow {e : ClientEntry} {id : Int} (hid : 1 ≤ id ∧ id < 2 ^ 31)
    (hconnections : e.connectionCount < 2 ^ 31) (hevents : e.eventCount < 2 ^ 31) :
    (Client.ofRow (e.record id)).value = e.record id := by
  have hcolumn {n : Nat} (hn : n < 2 ^ 31) : (Int32.ofInt n).toInt = n :=
    Int32.toInt_ofInt_of_le (by omega) (by omega)
  simp only [Client.ofRow, Client.value, ClientEntry.record, hcolumn hconnections,
    hcolumn hevents, Int32.ofInt_toInt]
  rw [Int32.toInt_ofInt_of_le (by omega) (by omega)]

namespace ClientMap

variable {m : ClientMap} {t t' : Tables} {id : Int} {e : ClientEntry} {ip : Int32}

theorem has_record : m.Has (e.record id) ↔ m.lookup id = some e := by
  refine ⟨fun ⟨id', e', hlookup, hrecord⟩ => ?_, fun h => ?_⟩
  · obtain ⟨rfl, rfl⟩ := ClientEntry.record_inj hrecord
    exact hlookup
  · exact ⟨id, e, h, rfl⟩

/-! ## Tables and maps -/

/-- The rows are the records of the entries, whose ids are positive. -/
structure Represents (m : ClientMap) (t : Tables) : Prop where
  records : ∀ r, r ∈ t.clients ↔ m.Has r
  positive : ∀ id ∈ m, 1 ≤ id

theorem represents_empty {t : Tables} (h : t.clients = []) : Represents ∅ t where
  records r := by
    rw [h]
    simp [Has]
  positive id hid := absurd hid Finmap.notMem_empty

namespace Represents

variable (h : m.Represents t)
include h

theorem mem_clients (hlookup : m.lookup id = some e) : e.record id ∈ t.clients :=
  (h.records _).2 (has_record.2 hlookup)

theorem positive_of_lookup (hlookup : m.lookup id = some e) : 1 ≤ id :=
  h.positive id (Finmap.mem_of_lookup_eq_some hlookup)

theorem keys_eq : m.keys = (t.clients.map ClientRow.id).toFinset := by
  ext id
  rw [Finmap.mem_keys, Finmap.mem_iff, List.mem_toFinset, List.mem_map]
  constructor
  · rintro ⟨e, hlookup⟩
    exact ⟨_, h.mem_clients hlookup, rfl⟩
  · rintro ⟨r, hr, rfl⟩
    obtain ⟨id, e, hlookup, rfl⟩ := (h.records r).1 hr
    exact ⟨e, hlookup⟩

theorem mem_iff : id ∈ m ↔ ∃ r ∈ t.clients, r.id = id := by
  rw [← Finmap.mem_keys, h.keys_eq, List.mem_toFinset, List.mem_map]

theorem card_keys : m.keys.card = t.clients.length := by
  have hnodup : (t.clients.map ClientRow.id).Nodup :=
    List.pairwise_map.2 (t.clients_ids.imp fun hab => hab.ne)
  rw [h.keys_eq, List.toFinset_card_of_nodup hnodup, List.length_map]

/-- There are fewer entries than ids. -/
theorem card_le (hsmall : m.Small) : m.keys.card < 2 ^ 31 := by
  have hsub : m.keys ⊆ Finset.Ioo 0 (2 ^ 31) := by
    intro id hid
    obtain ⟨e, hlookup⟩ := Finmap.mem_iff.1 (Finmap.mem_keys.1 hid)
    have := h.positive_of_lookup hlookup
    have := (hsmall id e hlookup).1
    exact Finset.mem_Ioo.2 ⟨by omega, by omega⟩
  have hcard := Finset.card_le_card hsub
  rw [Int.card_Ioo] at hcard
  omega

theorem hasIp_iff : m.HasIp ip ↔ ip.toInt ∈ t.clients.map ClientRow.ip := by
  rw [List.mem_map]
  constructor
  · rintro ⟨id, e, hlookup, rfl⟩
    exact ⟨_, h.mem_clients hlookup, rfl⟩
  · rintro ⟨r, hr, hip⟩
    obtain ⟨id, e, hlookup, rfl⟩ := (h.records r).1 hr
    exact ⟨id, e, hlookup, Int32.toInt_inj.1 hip⟩

/-- The engine gives the next id. -/
theorem nextId_eq : m.nextId = newRowid ClientRow.id t.clients := by
  unfold nextId
  cases hmax : m.keys.max with
  | bot =>
    have hempty : t.clients = [] := by
      rw [List.eq_nil_iff_forall_not_mem]
      intro r hr
      have hmem := h.mem_iff.2 ⟨r, hr, rfl⟩
      rw [← Finmap.mem_keys, Finset.max_eq_bot.1 hmax] at hmem
      exact Finset.notMem_empty _ hmem
    rw [hempty]
    rfl
  | coe k =>
    obtain ⟨r, hr, rfl⟩ := h.mem_iff.1 (Finmap.mem_keys.1 (Finset.mem_of_max hmax))
    have hlt := t.clients_ids.lt_newRowid hr
    have hle {r' : ClientRow} (hr' : r' ∈ t.clients) : r'.id ≤ r.id :=
      Finset.le_max_of_eq (Finmap.mem_keys.2 (h.mem_iff.2 ⟨r', hr', rfl⟩)) hmax
    -- the last row has the largest id
    unfold newRowid at hlt ⊢
    cases hlast : t.clients.getLast? with
    | none => rw [List.getLast?_eq_none_iff.1 hlast] at hr; cases hr
    | some last =>
      have := hle (List.mem_of_getLast? hlast)
      simp only [hlast] at hlt
      simp only [WithBot.map_coe, WithBot.unbotD_coe]
      omega

theorem nextId_positive : 1 ≤ m.nextId := by
  unfold nextId
  cases hmax : m.keys.max with
  | bot => exact Int.le_refl 1
  | coe k =>
    have := h.positive k (Finmap.mem_keys.1 (Finset.mem_of_max hmax))
    simp only [WithBot.map_coe, WithBot.unbotD_coe]
    omega

/-! ## Rows that are found -/

theorem find_id (hlookup : m.lookup id = some e) :
    t.clients.find? (·.id = id) = some (e.record id) := by
  obtain ⟨r, hr⟩ : ∃ r, t.clients.find? (·.id = id) = some r :=
    Option.isSome_iff_exists.1 (List.find?_isSome.2 ⟨_, h.mem_clients hlookup, by
      simp [ClientEntry.record]⟩)
  have hid : r.id = id := by simpa using List.find?_some hr
  obtain ⟨id', e', hlookup', rfl⟩ := (h.records r).1 (List.mem_of_find?_eq_some hr)
  obtain rfl : id' = id := hid
  rw [hr, Option.some.inj (hlookup'.symm.trans hlookup)]

theorem find_id_none (hno : id ∉ m) : t.clients.find? (·.id = id) = none := by
  rw [List.find?_eq_none]
  intro r hr hid
  exact hno (h.mem_iff.2 ⟨r, hr, by simpa using hid⟩)

theorem find_ip (hlookup : m.lookup id = some e) :
    t.clients.find? (·.ip = e.ip.toInt) = some (e.record id) :=
  Tables.find_ip (h.mem_clients hlookup)

theorem find_ip_none (hno : ¬ m.HasIp ip) : t.clients.find? (·.ip = ip.toInt) = none := by
  rw [List.find?_eq_none]
  intro r hr hip
  exact hno (h.hasIp_iff.2 (List.mem_map.2 ⟨r, hr, by simpa using hip⟩))

end Represents

/-! ## Statements -/

theorem lookup_update (m : ClientMap) (id : Int) (f : ClientEntry → ClientEntry) (id' : Int) :
    (m.update id f).lookup id' = if id' = id then (m.lookup id).map f else m.lookup id' := by
  unfold update
  by_cases hid : id' = id
  · subst hid
    cases hlookup : m.lookup id' with
    | none => simp [hlookup]
    | some e => simp
  · cases hlookup : m.lookup id with
    | none => simp [hid]
    | some e => simp [hid]

theorem Represents.insertClient (h : m.Represents t) {rowid : Int}
    (hinsert : t.insertClient ip.toInt = some (t', rowid)) :
    Represents (m.insert m.nextId { ip }) t' := by
  obtain ⟨-, hrowid, hclients⟩ := Tables.insertClient_eq hinsert
  have hnew : m.nextId ∉ m := by
    intro hmem
    obtain ⟨r, hr, hid⟩ := h.mem_iff.1 hmem
    have := t.clients_ids.lt_newRowid hr
    rw [h.nextId_eq] at hid
    omega
  have hrow : ({ id := rowid, ip := ip.toInt } : ClientRow) =
      ClientEntry.record { ip } m.nextId := by rw [hrowid, ← h.nextId_eq]; rfl
  refine ⟨fun r => ?_, fun id hid => ?_⟩
  · rw [hclients, List.mem_append, List.mem_singleton, h.records, hrow]
    constructor
    · rintro (⟨id, e, hlookup, rfl⟩ | rfl)
      · have hne : id ≠ m.nextId := by
          rintro rfl
          exact hnew (Finmap.mem_of_lookup_eq_some hlookup)
        exact has_record.2 ((Finmap.lookup_insert_of_ne m hne).trans hlookup)
      · exact has_record.2 (Finmap.lookup_insert m)
    · rintro ⟨id, e, hlookup, rfl⟩
      by_cases hid : id = m.nextId
      · subst hid
        rw [Finmap.lookup_insert] at hlookup
        rw [Option.some.inj hlookup]
        exact .inr rfl
      · rw [Finmap.lookup_insert_of_ne m hid] at hlookup
        exact .inl (has_record.2 hlookup)
  · rcases Finmap.mem_insert.1 hid with rfl | hid
    · exact h.nextId_positive
    · exact h.positive id hid

/-- The entries that are kept. -/
theorem Represents.deleteClients (h : m.Represents t) (fk : Bool) {keep : Int → Bool}
    {m' : ClientMap}
    (hkeep : ∀ id e, m'.lookup id = some e ↔ m.lookup id = some e ∧ keep id = true) :
    m'.Represents (t.deleteClients fk keep) := by
  refine ⟨fun r => ?_, fun id hid => ?_⟩
  · have hfilter : r ∈ (t.deleteClients fk keep).clients ↔ r ∈ t.clients ∧ keep r.id = true :=
      List.mem_filter
    rw [hfilter, h.records]
    constructor
    · rintro ⟨⟨id, e, hlookup, rfl⟩, hk⟩
      exact has_record.2 ((hkeep id e).2 ⟨hlookup, hk⟩)
    · rintro ⟨id, e, hlookup, rfl⟩
      obtain ⟨hlookup, hk⟩ := (hkeep id e).1 hlookup
      exact ⟨has_record.2 hlookup, hk⟩
  · obtain ⟨e, hlookup⟩ := Finmap.mem_iff.1 hid
    exact h.positive_of_lookup ((hkeep id e).1 hlookup).1

/-- The entry that is changed. -/
theorem Represents.updateClient (h : m.Represents t) (id : Int) {f : ClientEntry → ClientEntry}
    {set : ClientRow → ClientRow} (hid : ∀ r, (set r).id = r.id) (hip : ∀ r, (set r).ip = r.ip)
    (hset : ∀ e id, (f e).record id = set (e.record id)) :
    (m.update id f).Represents (t.updateClient id set hid hip) := by
  have hrow (k : Int) (e : ClientEntry) :
      (if (e.record k).id = id then set (e.record k) else e.record k) =
        ClientEntry.record (if k = id then f e else e) k := by
    rw [show (e.record k).id = k from rfl]
    split
    · exact (hset e k).symm
    · rfl
  have hlookup' (k : Int) : (m.update id f).lookup k =
      (m.lookup k).map fun e => if k = id then f e else e := by
    rw [lookup_update]
    by_cases hk : k = id
    · subst hk
      simp only [if_true]
    · simp [hk]
  refine ⟨fun r => ?_, fun k hk => ?_⟩
  · have hmap : r ∈ (t.updateClient id set hid hip).clients ↔
        ∃ c ∈ t.clients, (if c.id = id then set c else c) = r := List.mem_map
    rw [hmap]
    constructor
    · rintro ⟨c, hc, rfl⟩
      obtain ⟨k, e, hlookup, rfl⟩ := (h.records c).1 hc
      rw [hrow]
      exact has_record.2 (by rw [hlookup', hlookup]; rfl)
    · rintro ⟨k, e', hk, rfl⟩
      rw [hlookup'] at hk
      obtain ⟨e, hlookup, rfl⟩ := Option.map_eq_some_iff.1 hk
      exact ⟨_, h.mem_clients hlookup, hrow k e⟩
  · obtain ⟨e', hk'⟩ := Finmap.mem_iff.1 hk
    rw [hlookup'] at hk'
    obtain ⟨e, hlookup, -⟩ := Option.map_eq_some_iff.1 hk'
    exact h.positive_of_lookup hlookup

/-- Other tables with the same clients. -/
theorem Represents.congr (h : m.Represents t) (heq : t'.clients = t.clients) :
    m.Represents t' := ⟨fun r => by rw [heq, h.records], h.positive⟩

/-- **Each statement** does to the table what the operation does to the map; one that is refused
changes neither. -/
theorem Represents.modify (h : m.Represents t) (mu : Mutation) (fk : Bool) (now : Int) :
    (m.next (.mutate mu)).Represents
      (((mu.statement.modify fk mu.parameter now t).map Prod.fst).getD t) := by
  cases mu with
  | addClient ip =>
    simp only [next, Mutation.statement, StatementName.modify, Mutation.parameter]
    cases hinsert : t.insertClient ip.toInt with
    | none =>
      have hused : m.HasIp ip := by
        rw [h.hasIp_iff, ← not_not (a := ip.toInt ∈ _), ← Tables.insertClient_isSome, hinsert]
        exact Bool.false_ne_true
      rw [if_pos hused]
      exact h
    | some p =>
      have hfree : ¬ m.HasIp ip := by
        rw [h.hasIp_iff, ← Tables.insertClient_isSome, hinsert]
        rfl
      rw [if_neg hfree]
      exact h.insertClient hinsert
  | removeClient id =>
    have hremoved : Represents (m.erase id.toInt) (t.removeClientById fk id.toInt) := by
      refine h.deleteClients fk fun k e => ?_
      rw [bne_iff_ne]
      by_cases hk : k = id.toInt
      · rw [hk, Finmap.lookup_erase]
        exact iff_of_false (fun hc => by cases hc) fun hc => hc.2 rfl
      · rw [Finmap.lookup_erase_ne hk]
        exact (and_iff_left hk).symm
    exact hremoved
  | removeAllClients =>
    have hremoved : Represents ∅ (t.removeAllClients fk) :=
      h.deleteClients fk fun k e => by simp
    exact hremoved
  | incrementConnectionCount id =>
    have hcounted : Represents
        (m.update id.toInt fun e => { e with connectionCount := e.connectionCount + 1 })
        (t.incrementClientConnectionCount id.toInt) := by
      refine h.updateClient _ _ _ ?_
      exact fun _ _ => rfl
    exact hcounted
  | incrementEventCount id =>
    have hcounted : Represents
        (m.update id.toInt fun e => { e with eventCount := e.eventCount + 1 })
        (t.incrementClientEventCount id.toInt) := by
      refine h.updateClient _ _ _ ?_
      exact fun _ _ => rfl
    exact hcounted
  | addClientConnection id time =>
    simp only [Mutation.statement, StatementName.modify, Option.map_map]
    cases hinsert : t.insertClientConnection fk (Mutation.parameter (.addClientConnection id time))
      now with
    | none => exact h
    | some p => exact h.congr (Tables.insertClientConnection_eq hinsert).1
  | removeConnection | removeClientConnections | removeAllConnections => exact h.congr rfl

end ClientMap

/-! ## Operations of an engine that does what SQL says -/

section
variable {s : SqliteDatabase} {h : Nat} {o : StepOutcomes}

/-- An operation that changes rows changes what is committed, and reports whether its statement was
refused. -/
theorem Mutation.run_asDefined (hp : s.Prepared h) (hclosed : (s.world.store h).working = none)
    (ho : o.AsDefined) (mu : Mutation) :
    ∃ reply, (mu.run o s).1 = .ok reply ∧
      match mu.effect o s h (s.world.store h).committed with
      | some t => (mu.run o s).2.world.store h = { committed := t } ∧ reply =
          if mu.inserts then .int (.ofInt (mu.newId (s.world.store h).committed)) else .bool true
      | none => (mu.run o s).2.world.store h = s.world.store h ∧ reply = mu.failure := by
  obtain ⟨hbegin, hstatement, hcommit, hrollback⟩ := ho
  obtain ⟨-, -, hstore, reply, hreply, hfail, hdone⟩ := mu.run_spec hp o
  have htransaction : mu.transaction o s h =
      match mu.effect o s h (s.world.store h).committed with
      | some t => (true, { committed := t })
      | none => (false, s.world.store h) := by
    rw [Mutation.transaction, transact_of_outcomes hbegin hstatement hcommit hrollback hclosed]
    cases mu.effect o s h (s.world.store h).committed <;> rfl
  refine ⟨reply, hreply, ?_⟩
  cases heffect : mu.effect o s h (s.world.store h).committed with
  | some t =>
    rw [heffect] at htransaction
    have hreply' := hdone (congrArg Prod.fst htransaction)
    rw [Store.view_of_none hclosed] at hreply'
    exact ⟨hstore.trans (congrArg Prod.snd htransaction), hreply'⟩
  | none =>
    rw [heffect] at htransaction
    exact ⟨hstore.trans (congrArg Prod.snd htransaction), hfail (congrArg Prod.fst htransaction)⟩

/-- What is committed behind an operation that changes rows; no transaction stays open. -/
theorem Mutation.store_asDefined (hp : s.Prepared h) (hclosed : (s.world.store h).working = none)
    (ho : o.AsDefined) (mu : Mutation) : (mu.run o s).2.world.store h =
      { committed := (mu.effect o s h (s.world.store h).committed).getD
          (s.world.store h).committed } := by
  obtain ⟨_, -, hspec⟩ := mu.run_asDefined hp hclosed ho
  cases heffect : mu.effect o s h (s.world.store h).committed with
  | some t =>
    rw [heffect] at hspec
    exact hspec.1
  | none =>
    rw [heffect] at hspec
    refine hspec.1.trans ?_
    rw [Option.getD_none, ← hclosed]

/-- Where the engine gives an answer, an operation that reads returns it. -/
theorem SqliteDatabase.query_asDefined {α : Type} (hp : s.Prepared h)
    (hclosed : (s.world.store h).working = none) (ho : o.AsDefined) (n : StatementName)
    (failure : α) (read : Tables → Option α) : (query o n failure read s).1 =
      (read (s.world.store h).committed).getD failure := by
  obtain ⟨-, hstatement, -, -⟩ := ho
  rw [query_of_statement (hp.statements n), Sqlite.stepSelect, if_pos hstatement,
    Store.view_of_none hclosed]

end

/-! ## Runs -/

namespace MappedClients

open ClientMap

/-- The object is prepared, no transaction is open, and the map is that of its table. -/
structure Tracks (h : Nat) (s : MappedClients) : Prop where
  prepared : s.object.Prepared h
  closed : (s.object.world.store h).working = none
  represents : s.map.Represents (s.object.world.store h).committed

variable {s : MappedClients} {h : Nat} {o : StepOutcomes}

/-- **One operation** keeps the map and the table together. -/
theorem Tracks.next (hs : s.Tracks h) (op : Operation) (ho : o.AsDefined) :
    (s.next (op, o)).Tracks h := by
  have hprepared : (s.next (op, o)).object.Prepared h :=
    (Operation.next_prepared hs.prepared (op, o)).1
  cases op with
  | mutate mu =>
    have hrep := hs.represents.modify mu (s.object.world.connections h).foreignKeys o.now
    have hstore : (s.next (.mutate mu, o)).object.world.store h = _ :=
      mu.store_asDefined hs.prepared hs.closed ho
    have heffect : mu.effect o s.object h (s.object.world.store h).committed =
        (mu.statement.modify (s.object.world.connections h).foreignKeys mu.parameter o.now
          (s.object.world.store h).committed).map Prod.fst := rfl
    rw [← heffect] at hrep
    refine ⟨hprepared, ?_, ?_⟩ <;> rw [hstore]
    exact hrep
  | read q =>
    have hstore : (s.next (.read q, o)).object.world.store h = s.object.world.store h :=
      Operation.store_next_read hs.prepared q o
    exact ⟨hprepared, by rw [hstore]; exact hs.closed, by rw [hstore]; exact hs.represents⟩

/-! ### What is returned -/

theorem Tracks.query_eq {α : Type} (hs : s.Tracks h) (ho : o.AsDefined) (n : StatementName)
    (failure : α) (read : Tables → Option α) : (query o n failure read s.object).1 =
      (read (s.object.world.store h).committed).getD failure :=
  query_asDefined hs.prepared hs.closed ho n failure read

/-- **What an operation returns that reads.** -/
theorem Tracks.answers_read (hs : s.Tracks h) (ho : o.AsDefined) (hsmall : s.map.Small)
    (q : Query) : s.map.Answers (.read q) (q.run o s.object).1.value := by
  have hrep := hs.represents
  have hvalue {id : Int} {e : ClientEntry} (hlookup : s.map.lookup id = some e) :
      (Client.ofRow (e.record id)).value = e.record id := by
    obtain ⟨hid, hconnections, hevents⟩ := hsmall id e hlookup
    exact ClientEntry.value_ofRow ⟨hrep.positive_of_lookup hlookup, hid⟩ hconnections hevents
  have hne {id : Int} {e : ClientEntry} (hlookup : s.map.lookup id = some e) :
      e.record id ≠ { id := 0, ip := 0 } := by
    intro hzero
    have := hrep.positive_of_lookup hlookup
    rw [show id = 0 from congrArg ClientRow.id hzero] at this
    omega
  have htoInt {id : Int} {e : ClientEntry} (hlookup : s.map.lookup id = some e) :
      (Int32.ofInt id).toInt = id := by
    have hid := hrep.positive_of_lookup hlookup
    have := (hsmall id e hlookup).1
    exact Int32.toInt_ofInt_of_le (by omega) (by omega)
  cases q with
  | getClientById id =>
    simp only [Query.run, getClientById, hs.query_eq ho, Reply.value, Answers]
    cases hlookup : s.map.lookup id.toInt with
    | none =>
      have hno : id.toInt ∉ s.map := Finmap.lookup_eq_none.1 hlookup
      rw [hrep.find_id_none hno]
      exact ⟨fun e he => (by cases he), iff_of_true rfl hno⟩
    | some e =>
      rw [hrep.find_id hlookup]
      simp only [Option.map_some, Option.getD_some, hvalue hlookup]
      refine ⟨fun e' he' => by rw [Option.some.inj he'], iff_of_false ?_ ?_⟩
      · exact fun hzero => hne hlookup (Returned.client.inj hzero)
      · exact not_not_intro (Finmap.mem_of_lookup_eq_some hlookup)
  | getClientByIp ip =>
    simp only [Query.run, getClientByIp, hs.query_eq ho, Reply.value, Answers]
    by_cases hip : s.map.HasIp ip
    · obtain ⟨id, e, hlookup, rfl⟩ := hip
      rw [hrep.find_ip hlookup]
      simp only [Option.map_some, Option.getD_some, hvalue hlookup]
      refine ⟨fun id' e' hlookup' hip' => ?_, iff_of_false ?_ ?_⟩
      · have hfound := hrep.find_ip hlookup'
        rw [hip', hrep.find_ip hlookup] at hfound
        rw [Option.some.inj hfound]
      · exact fun hzero => hne hlookup (Returned.client.inj hzero)
      · exact not_not_intro ⟨id, e, hlookup, rfl⟩
    · rw [hrep.find_ip_none hip]
      exact ⟨fun id e hlookup hip' => absurd ⟨id, e, hlookup, hip'⟩ hip, iff_of_true rfl hip⟩
  | getClientIdByIp ip =>
    simp only [Query.run, getClientIdByIp, hs.query_eq ho, Reply.value, Answers]
    by_cases hip : s.map.HasIp ip
    · obtain ⟨id, e, hlookup, rfl⟩ := hip
      rw [hrep.find_ip hlookup]
      simp only [Option.map_some, Option.getD_some, ClientEntry.record, htoInt hlookup]
      refine ⟨fun id' e' hlookup' hip' => ?_, iff_of_false ?_ ?_⟩
      · have hfound := hrep.find_ip hlookup'
        rw [hip', hrep.find_ip hlookup] at hfound
        rw [(ClientEntry.record_inj (Option.some.inj hfound)).1]
      · intro hfail
        have := hrep.positive_of_lookup hlookup
        have := Returned.int.inj hfail
        omega
      · exact not_not_intro ⟨id, e, hlookup, rfl⟩
    · rw [hrep.find_ip_none hip]
      exact ⟨fun id e hlookup hip' => absurd ⟨id, e, hlookup, hip'⟩ hip, iff_of_true rfl hip⟩
  | getClientIpById id =>
    simp only [Query.run, getClientIpById, hs.query_eq ho, Reply.value, Answers]
    cases hlookup : s.map.lookup id.toInt with
    | none =>
      rw [hrep.find_id_none (Finmap.lookup_eq_none.1 hlookup)]
      exact ⟨fun e he => (by cases he), fun _ => rfl⟩
    | some e =>
      rw [hrep.find_id hlookup]
      refine ⟨fun e' he' => ?_, fun hno => absurd (Finmap.mem_of_lookup_eq_some hlookup) hno⟩
      simp only [Option.map_some, Option.getD_some, ClientEntry.record, Int32.ofInt_toInt]
      rw [Option.some.inj he']
  | getClientCount =>
    simp only [Query.run, getClientCount, hs.query_eq ho, Reply.value, Answers, hrep.card_keys]
    have hcard := hrep.card_le hsmall
    rw [hrep.card_keys] at hcard
    rw [Option.getD_some, Int32.toInt_ofInt_of_le (by omega) (by omega)]
  | getAllClients =>
    simp only [Query.run, getAllClients, hs.query_eq ho, Reply.value, Answers]
    refine ⟨_, congrArg Returned.clients ?_, (s.object.world.store h).committed.clients_ids,
      hrep.records⟩
    rw [Option.getD_some, List.map_map]
    refine (List.map_congr_left fun r hr => ?_).trans (List.map_id _)
    obtain ⟨id, e, hlookup, rfl⟩ := (hrep.records r).1 hr
    exact hvalue hlookup
  | getClientConnectionCount id => trivial

/-- **What an operation returns that changes rows.** -/
theorem Tracks.answers_mutate (hs : s.Tracks h) (ho : o.AsDefined) (mu : Mutation)
    (hsmall : (s.map.next (.mutate mu)).Small) :
    ∃ reply, (mu.run o s.object).1 = .ok reply ∧ s.map.Answers (.mutate mu) reply.value := by
  have hrep := hs.represents
  obtain ⟨reply, hreply, hspec⟩ := mu.run_asDefined hs.prepared hs.closed ho
  refine ⟨reply, hreply, ?_⟩
  cases mu with
  | addClient ip =>
    have heffect : (Mutation.addClient ip).effect o s.object h
        (s.object.world.store h).committed =
          ((s.object.world.store h).committed.insertClient ip.toInt).map Prod.fst := by
      simp only [Mutation.effect, Sqlite.change, Mutation.statement, StatementName.modify,
        Mutation.parameter, Option.map_map]
      rfl
    have hisSome : ((s.object.world.store h).committed.insertClient ip.toInt).isSome ↔
        ip.toInt ∉ (s.object.world.store h).committed.clients.map ClientRow.ip :=
      Tables.insertClient_isSome
    rw [heffect] at hspec
    cases hinsert : (s.object.world.store h).committed.insertClient ip.toInt with
    | none =>
      rw [hinsert] at hspec hisSome
      have hused : s.map.HasIp ip := by
        rw [hrep.hasIp_iff]
        exact not_not.1 fun hno => Bool.false_ne_true (hisSome.2 hno)
      rw [hspec.2]
      exact .inl ⟨hused, rfl⟩
    | some p =>
      rw [hinsert] at hspec hisSome
      have hfree : ¬ s.map.HasIp ip := by
        rw [hrep.hasIp_iff]
        exact hisSome.1 rfl
      have hid : s.map.nextId < 2 ^ 31 := by
        simp only [ClientMap.next, if_neg hfree] at hsmall
        exact (hsmall _ _ (Finmap.lookup_insert s.map)).1
      have hpositive := hrep.nextId_positive
      rw [hspec.2]
      refine .inr ⟨hfree, congrArg Returned.int ?_⟩
      simp only [Mutation.newId, ← hrep.nextId_eq]
      exact Int32.toInt_ofInt_of_le (by omega) (by omega)
  | removeClient | removeAllClients | incrementConnectionCount | incrementEventCount =>
    rw [hspec.2]
    rfl
  | addClientConnection | removeConnection | removeClientConnections | removeAllConnections =>
    trivial

theorem Tracks.agrees (hs : s.Tracks h) : s.Agrees := by
  intro op o ho hsmall hsmall'
  cases op with
  | mutate mu => exact hs.answers_mutate ho mu hsmall'
  | read q => exact ⟨_, rfl, hs.answers_read ho hsmall q⟩

/-- **The repository is a map**: in every run on an empty database in which the engine does what SQL
says, every operation returns what the map says, as long as ids and counters are `int`s. -/
theorem agrees_of_run {w : Sqlite} {connectionString : Bytes} (hempty : ToEmpty w connectionString)
    {cs : List (Operation × StepOutcomes)} (hcs : ∀ c ∈ cs, c.2.AsDefined) :
    Runs.Always next Agrees { object := connected w connectionString } cs := by
  have hstore := store_connected hempty
  have hinitial : Tracks w.next { object := connected w connectionString } := by
    refine ⟨(connect_prepared w connectionString).1, ?_, ?_⟩ <;> rw [hstore]
    exact represents_empty rfl
  have hmeets : Runs.Meets next (fun _ c => c.2.AsDefined)
      { object := connected w connectionString } cs := Runs.meets_iff_forall.2 hcs
  have hstep (s : MappedClients) (c : Operation × StepOutcomes) (ho : c.2.AsDefined)
      (hs : s.Tracks w.next) : (s.next c).Tracks w.next := hs.next c.1 ho
  have htracks := Runs.always_of_meets hstep hmeets hinitial
  exact htracks.mono fun s hs => hs.agrees

/-- A client that is added twice, counted and removed, and the next one, which gets its id. -/
def replaced : List (Operation × StepOutcomes) :=
  [(.mutate (.addClient 7), {}), (.mutate (.addClient 7), {}),
    (.mutate (.incrementConnectionCount 1), {}), (.mutate (.removeClient 1), {}),
    (.mutate (.addClient 8), {}), (.read .getAllClients, {})]

theorem replaced_agrees : Runs.Always next Agrees { object := connected .initial "" } replaced :=
  agrees_of_run (.inl (by decide)) (by decide)

end MappedClients

end HttpsTest
