import HttpsTest.Server.Proof.Bookkeeping

/-!
# The ledger of the connections

What the bookkeeping is for, without a database: which addresses are clients, which connections are
counted and which have a row (`Ledger`). An operation may be refused, as long as no commit and no
rollback fails. `Change.bookkeeping` says what one connection does to the tables; from it,
`visits_ledger`: behind every run of connections the tables are those of the ledger.
-/

set_option autoImplicit false

namespace HttpsTest

open Transactions SqliteDatabase

/-! ## The ledger -/

/-- The begin and the statement are not refused. -/
def StepOutcomes.runs (o : StepOutcomes) : Bool := o.begin && o.statement

/-- No commit and no rollback fails. -/
def StepOutcomes.Ends (o : StepOutcomes) : Prop := o.commit = true ∧ o.rollback = true

namespace Visit

/-- The operations that change rows do not leave a transaction open. -/
@[mk_iff ends_iff]
structure Ends (v : Visit) : Prop where
  add : v.add.Ends
  increment : v.increment.Ends
  addConnection : v.addConnection.Ends

/-- The address becomes that of a client. -/
def adds (v : Visit) (known : Bool) : Bool := !known && v.add.runs

/-- The client has an id: it is found, or added. A look-up that fails is no way to a client that is
known, as its address is not added again. -/
def identifies (v : Visit) (known : Bool) : Bool :=
  if known then v.lookUp.statement else v.add.runs

/-- The connection is counted. -/
def counts (v : Visit) (known : Bool) : Bool := v.identifies known && v.increment.runs

/-- The connection has a row. -/
def records (v : Visit) (known : Bool) : Bool := v.counts known && v.addConnection.runs

end Visit

/-- The clients that are added, the connections that are counted, and those that have a row with
the time of it; each by the address. -/
structure Ledger where
  clients : List Int := []
  counted : List Int := []
  rows : List (Int × Int) := []

namespace Ledger

/-- A connection of an address, which is that of a client or not. -/
def record (l : Ledger) (v : Visit) (ip : Int) (known : Bool) : Ledger where
  clients := l.clients ++ if v.adds known then [ip] else []
  counted := l.counted ++ if v.counts known then [ip] else []
  rows := l.rows ++ if v.records known then [(ip, v.addConnection.now)] else []

/-- A connection, where `first` are the addresses of the clients that were there before. -/
def visit (first : List Int) (l : Ledger) (v : Visit) : Ledger :=
  match v.address with
  | none => l
  | some address =>
    let ip := address.toInt32.toInt
    l.record v ip (decide (ip ∈ first ++ l.clients))

/-- A client with the connections of an address that are counted since. -/
def counting (counted : List Int) (c : ClientRow) : ClientRow :=
  { c with connectionCount := c.connectionCount + counted.count c.ip }

/-- The row of a client that is added, `k` rows behind the id `rowid`. -/
def newClient (rowid : Int) (k : Nat) (ip : Int) : ClientRow := { id := rowid + k, ip }

/-- The rows of the clients: the first ones and those that are added, with their new counts. -/
def clientRows (l : Ledger) (t : Tables) : List ClientRow :=
  (t.clients ++ l.clients.mapIdx (newClient (newRowid ClientRow.id t.clients))).map
    (counting l.counted)

/-- The id of the client at an address. -/
def idOf (rows : List ClientRow) (ip : Int) : Int :=
  ((rows.find? (·.ip = ip)).map ClientRow.id).getD 0

/-- The row of a connection, `k` rows behind the id `rowid`. -/
def newConnection (clients : List ClientRow) (rowid : Int) (k : Nat) (r : Int × Int) :
    ConnectionRow where
  id := rowid + k
  clientId := idOf clients r.1
  connectionTimestamp := r.2

/-- The rows of the connections: the first ones and one for each that is recorded. -/
def connectionRows (l : Ledger) (t : Tables) : List ConnectionRow :=
  t.connections ++
    l.rows.mapIdx (newConnection (l.clientRows t) (newRowid ConnectionRow.id t.connections))

end Ledger

/-! ## Rows that are added -/

section
variable {ρ α : Type} {id : ρ → Int} {rows : List ρ}

theorem newRowid_append (r : ρ) : newRowid id (rows ++ [r]) = id r + 1 := by
  rw [newRowid, List.getLast?_concat]

theorem newRowid_map {f : ρ → ρ} (hf : ∀ r, id (f r) = id r) :
    newRowid id (rows.map f) = newRowid id rows := by
  unfold newRowid
  rw [List.getLast?_map]
  cases rows.getLast? with
  | none => rfl
  | some r => simp [hf]

/-- The next id behind rows with consecutive ids. -/
theorem newRowid_append_mapIdx {f : Nat → α → ρ} (hf : ∀ k x, id (f k x) = newRowid id rows + k)
    (xs : List α) : newRowid id (rows ++ xs.mapIdx f) = newRowid id rows + xs.length := by
  rcases List.eq_nil_or_concat xs with rfl | ⟨front, last, rfl⟩
  · simp
  · rw [List.concat_eq_append, List.mapIdx_concat, ← List.append_assoc, newRowid_append, hf,
      List.length_append, List.length_singleton]
    omega

theorem map_mapIdx_of_left_inverse {f : Nat → α → ρ} {g : ρ → α} (hf : ∀ k x, g (f k x) = x)
    (xs : List α) : (xs.mapIdx f).map g = xs := by
  induction xs using List.reverseRecOn with
  | nil => rfl
  | append_singleton xs x ih => rw [List.mapIdx_concat, List.map_append, ih, List.map_singleton, hf]

end

namespace Ledger

variable {first : List Int} {l : Ledger} {t : Tables} {ip : Int}

theorem map_counting_nil (rows : List ClientRow) : rows.map (counting []) = rows :=
  (List.map_congr_left fun c _ => by simp [counting]).trans (List.map_id rows)

theorem map_counting_append (xs ys : List Int) (rows : List ClientRow) :
    rows.map (counting (xs ++ ys)) = (rows.map (counting xs)).map (counting ys) := by
  rw [List.map_map]
  refine List.map_congr_left fun c _ => ?_
  simp only [Function.comp, counting, List.count_append, Int.natCast_add, Int.add_assoc]

/-- What an increment does to a client, by its address. -/
theorem counting_singleton (ip : Int) (c : ClientRow) : counting [ip] c =
    if c.ip = ip then { c with connectionCount := c.connectionCount + 1 } else c := by
  unfold counting
  rw [List.count_singleton]
  by_cases hip : c.ip = ip
  · simp [hip]
  · simp [hip, Ne.symm hip]

theorem map_ip_counting (counted : List Int) (rows : List ClientRow) :
    (rows.map (counting counted)).map ClientRow.ip = rows.map ClientRow.ip := by
  rw [List.map_map]
  rfl

theorem map_ip_clientRows (l : Ledger) (t : Tables) :
    (l.clientRows t).map ClientRow.ip = t.clients.map ClientRow.ip ++ l.clients := by
  rw [clientRows, map_ip_counting, List.map_append, map_mapIdx_of_left_inverse fun _ _ => rfl]

theorem newRowid_clientRows (l : Ledger) (t : Tables) : newRowid ClientRow.id (l.clientRows t) =
    newRowid ClientRow.id t.clients + l.clients.length := by
  rw [clientRows, newRowid_map (f := counting l.counted) fun _ => rfl,
    newRowid_append_mapIdx fun _ _ => rfl]

theorem newRowid_connectionRows (l : Ledger) (t : Tables) :
    newRowid ConnectionRow.id (l.connectionRows t) =
      newRowid ConnectionRow.id t.connections + l.rows.length :=
  newRowid_append_mapIdx (fun _ _ => rfl) _

/-! ### The id at an address -/

theorem idOf_counting (counted : List Int) (rows : List ClientRow) (ip : Int) :
    idOf (rows.map (counting counted)) ip = idOf rows ip := by
  unfold idOf
  rw [List.find?_map, Option.map_map]
  rfl

/-- Behind the rows that have an address, others do not change its id. -/
theorem idOf_append {rows : List ClientRow} (hip : ip ∈ rows.map ClientRow.ip)
    (more : List ClientRow) : idOf (rows ++ more) ip = idOf rows ip := by
  obtain ⟨c, hc, rfl⟩ := List.mem_map.1 hip
  obtain ⟨c', hfind⟩ : ∃ c', rows.find? (·.ip = c.ip) = some c' :=
    Option.isSome_iff_exists.1 (List.find?_isSome.2 ⟨c, hc, by simp⟩)
  unfold idOf
  rw [List.find?_append, hfind, Option.some_or]

theorem idOf_mem {c : ClientRow} (hc : c ∈ t.clients) : idOf t.clients c.ip = c.id := by
  rw [idOf, Tables.find_ip hc]
  rfl

end Ledger

namespace SyncHTTPServer

variable {s s' : SqliteDatabase} {h : Nat} {v : Visit} {ip : Int32} {t t' : Tables} {k : Nat}

/-! ## One connection -/

/-- The object is prepared, and has these tables and no open transaction. -/
structure Has (h : Nat) (s : SqliteDatabase) (t : Tables) : Prop where
  prepared : s.Prepared h
  store : s.world.store h = { committed := t }

theorem Has.closed (hs : Has h s t) : (s.world.store h).working = none := by rw [hs.store]

theorem Has.view (hs : Has h s t) : (s.world.store h).view = t := by
  rw [hs.store]
  rfl

/-- A transaction that ends applies its statement or changes nothing. -/
theorem Has.transaction (hs : Has h s t) (m : Mutation) {o : StepOutcomes} (ho : o.Ends) :
    m.transaction o s h =
      match (if o.runs then m.effect o s h t else none) with
      | some t' => (true, { committed := t' })
      | none => (false, { committed := t }) := by
  unfold Mutation.transaction StepOutcomes.runs
  rw [transact_of_ends ho.1 ho.2 hs.closed, hs.store]
  cases (if o.begin && o.statement then m.effect o s h t else none) <;> rfl

/-- The address is that of a client. -/
def known (t : Tables) (ip : Int) : Bool := decide (ip ∈ t.clients.map ClientRow.ip)

/-- The client at the address is added, or nothing is changed. -/
def Adds (added : Bool) (ip : Int) (t t' : Tables) : Prop :=
  if added then ∃ rowid, t.insertClient ip = some (t', rowid) else t' = t

theorem Has.addClient (hs : Has h s t) (ip : Int32) {o : StepOutcomes} (ho : o.Ends) :
    ∃ t', (Mutation.addClient ip).transaction o s h =
        (!known t ip.toInt && o.runs, { committed := t' }) ∧
      Adds (!known t ip.toInt && o.runs) ip.toInt t t' := by
  have heffect : (Mutation.addClient ip).effect o s h t = (t.insertClient ip.toInt).map (·.1) := by
    simp only [Mutation.effect, Sqlite.change, Mutation.statement, Mutation.parameter,
      StatementName.modify, Option.map_map]
    rfl
  rw [hs.transaction _ ho, heffect]
  cases hadded : (!known t ip.toInt && o.runs) with
  | true =>
    simp only [known, Bool.and_eq_true, Bool.not_eq_true', decide_eq_false_iff_not] at hadded
    obtain ⟨⟨t', rowid⟩, hinsert⟩ :=
      Option.isSome_iff_exists.1 (Tables.insertClient_isSome.2 hadded.1)
    rw [hinsert, hadded.2]
    exact ⟨t', rfl, rowid, hinsert⟩
  | false =>
    have hnone : (if o.runs then (t.insertClient ip.toInt).map (·.1) else none) = none := by
      cases hruns : o.runs with
      | false => rfl
      | true =>
        rw [hruns, Bool.and_true, Bool.not_eq_false', known, decide_eq_true_eq] at hadded
        rw [if_pos rfl, Option.map_eq_none_iff, ← Option.not_isSome_iff_eq_none,
          Tables.insertClient_isSome]
        exact not_not.2 hadded
    rw [hnone]
    exact ⟨t, rfl, rfl⟩

theorem Adds.ids {added : Bool} {ip : Int} (h : Adds added ip t t') (hids : t.IdsUpTo k) :
    t'.IdsUpTo (k + 1) := by
  unfold Adds at h
  split at h
  · obtain ⟨rowid, hinsert⟩ := h
    exact hids.insertClient hinsert
  · rw [h]
    exact hids.mono (Nat.le_succ k)

/-- An id that fits into an `int` is not the -1 of a failure. -/
theorem toInt_ofInt_id (hids : t.IdsUpTo k) (hk : k < 2 ^ 31) {c : ClientRow}
    (hc : c ∈ t.clients) : (Int32.ofInt c.id).toInt = c.id ∧ Int32.ofInt c.id ≠ -1 := by
  have hbound := hids c hc
  have htoInt : (Int32.ofInt c.id).toInt = c.id :=
    Int32.toInt_ofInt_of_le (by omega) (by omega)
  refine ⟨htoInt, fun hfail => ?_⟩
  rw [hfail] at htoInt
  have : (-1 : Int32).toInt = -1 := rfl
  omega

/-- The client at an address: looked up or added, with its id, or -1. -/
theorem Has.identify (hs : Has h s t) (hv : v.add.Ends) (hids : t.IdsUpTo k) (hk : k + 1 < 2 ^ 31)
    (ip : Int32) :
    ∃ n t', (SyncHTTPServer.identify v ip s).1 = .ok n ∧
      Has h (SyncHTTPServer.identify v ip s).2 t' ∧
      Adds (v.adds (known t ip.toInt)) ip.toInt t t' ∧
      if v.identifies (known t ip.toInt) then
        n ≠ -1 ∧ ∃ c ∈ t'.clients, c.ip = ip.toInt ∧ n.toInt = c.id
      else n = -1 := by
  obtain ⟨hprepared, ⟨n, hr, hn, hstatement, ⟨c, hc, hip, rfl⟩, hstore⟩ |
    ⟨hunknown, hstore, hr⟩⟩ := identify_cases hs.prepared v ip
  · rw [hs.view] at hc
    have hknown : known t ip.toInt = true := decide_eq_true (List.mem_map.2 ⟨c, hc, hip⟩)
    refine ⟨_, t, hr, ⟨hprepared, hstore.trans hs.store⟩, ?_, ?_⟩
    · rw [hknown]
      rfl
    · rw [hknown, if_pos (by rw [Visit.identifies, if_pos rfl, hstatement])]
      exact ⟨hn, c, hc, hip, (toInt_ofInt_id hids (by omega) hc).1⟩
  · obtain ⟨t', hadd, hadds⟩ := hs.addClient ip hv
    rw [hadd] at hstore hr
    refine ⟨_, t', hr, ⟨hprepared, hstore⟩, hadds, ?_⟩
    cases hknown : known t ip.toInt with
    | true =>
      -- the look-up failed, as the client is there
      have hlookUp : v.lookUp.statement = false := by
        rw [← Bool.not_eq_true]
        intro hstatement
        obtain ⟨c, hc, hip⟩ := List.mem_map.1 (of_decide_eq_true hknown)
        exact hunknown ⟨hstatement, c, by rwa [hs.view], hip,
          (toInt_ofInt_id hids (by omega) hc).2⟩
      rw [if_neg (by rw [Visit.identifies, if_pos rfl, hlookUp]; exact Bool.false_ne_true)]
      rfl
    | false =>
      rw [Visit.identifies, if_neg Bool.false_ne_true, Bool.not_false, Bool.true_and]
      rw [hknown, Bool.not_false, Bool.true_and] at hadds
      cases hruns : v.add.runs with
      | false => rfl
      | true =>
        have hids' := hadds.ids hids
        rw [Adds, if_pos hruns] at hadds
        obtain ⟨rowid, hinsert⟩ := hadds
        obtain ⟨-, hrowid, hclients⟩ := Tables.insertClient_eq hinsert
        have hrow : ({ id := rowid, ip := ip.toInt } : ClientRow) ∈ t'.clients := by
          rw [hclients]
          exact List.mem_append_right _ (List.mem_singleton.2 rfl)
        obtain ⟨htoInt, hne⟩ := toInt_ofInt_id hids' hk hrow
        rw [if_pos rfl, if_pos rfl, hs.view, ← hrowid]
        exact ⟨hne, _, hrow, rfl, htoInt⟩

theorem insertClientConnection_of_mem (fk : Bool) (now : Int) {clientId : Int}
    (hid : clientId ∈ t.clients.map ClientRow.id) : ∃ t',
    t.insertClientConnection fk clientId now =
        some (t', newRowid ConnectionRow.id t.connections) ∧
      t'.clients = t.clients ∧ t'.connections = t.connections ++
        [{ id := newRowid ConnectionRow.id t.connections
           clientId
           connectionTimestamp := now }] := by
  obtain ⟨t', hinsert⟩ : ∃ t', t.insertClientConnection fk clientId now =
      some (t', newRowid ConnectionRow.id t.connections) := by
    unfold Tables.insertClientConnection
    rw [if_neg fun hrefused => hrefused.2 hid]
    exact ⟨_, rfl⟩
  obtain ⟨hclients, hconnections, -⟩ := Tables.insertClientConnection_eq hinsert
  exact ⟨t', hinsert, hclients, hconnections⟩

/-- The row of a connection. -/
theorem Has.addClientConnection (hs : Has h s t) {o : StepOutcomes} (ho : o.Ends) {n : Int32}
    (hn : n.toInt ∈ t.clients.map ClientRow.id) (time : Int32) :
    ∃ t', Has h (s.addClientConnection o n time).2 t' ∧ t'.clients = t.clients ∧
      t'.connections = t.connections ++ if o.runs then
        [{ id := newRowid ConnectionRow.id t.connections
           clientId := n.toInt
           connectionTimestamp := o.now }] else [] := by
  obtain ⟨-, hprepared, hstore⟩ := Mutation.insert_spec (m := .addClientConnection n time) rfl
    hs.prepared (r := s.addClientConnection o n time) rfl
  obtain ⟨t', hinsert, hclients, hconnections⟩ :=
    insertClientConnection_of_mem (s.world.connections h).foreignKeys o.now hn
  have heffect : (Mutation.addClientConnection n time).effect o s h t = some t' := by
    simp only [Mutation.effect, Sqlite.change, Mutation.statement, Mutation.parameter,
      StatementName.modify, hinsert, Option.map_some]
  rw [hs.transaction _ ho, heffect] at hstore
  cases hruns : o.runs with
  | false =>
    rw [hruns] at hstore
    exact ⟨t, ⟨hprepared, hstore⟩, rfl, by simp⟩
  | true =>
    rw [hruns] at hstore
    exact ⟨t', ⟨hprepared, hstore⟩, hclients, hconnections⟩

theorem map_id_incrementClientConnectionCount (id : Int) (t : Tables) :
    (t.incrementClientConnectionCount id).clients.map ClientRow.id =
      t.clients.map ClientRow.id := by
  rw [Tables.incrementClientConnectionCount, Tables.updateClient, List.map_map]
  refine List.map_congr_left fun c _ => ?_
  rw [Function.comp]
  split <;> rfl

/-- The increment of a client, by its address. -/
theorem clients_incrementClientConnectionCount {c : ClientRow} (hc : c ∈ t.clients) :
    (t.incrementClientConnectionCount c.id).clients =
      t.clients.map (Ledger.counting [c.ip]) := by
  refine List.map_congr_left fun r hr => ?_
  have hiff : r.id = c.id ↔ r.ip = c.ip := by
    refine ⟨fun hid => ?_, fun hip => ?_⟩
    · have hids : (t.clients.map ClientRow.id).Nodup :=
        List.pairwise_map.2 (t.clients_ids.imp fun hab => hab.ne)
      rw [List.inj_on_of_nodup_map hids hr hc hid]
    · rw [List.inj_on_of_nodup_map t.clients_ips hr hc hip]
  rw [Ledger.counting_singleton]
  simp only [hiff]

/-- What the two calls for a client leave. -/
theorem Has.recordConnection (hs : Has h s t) (hv : v.Ends) {n : Int32}
    (hn : n.toInt ∈ t.clients.map ClientRow.id) :
    ∃ t', Has h (SyncHTTPServer.recordConnection v n s).2 t' ∧
      t'.clients = (if v.increment.runs then (t.incrementClientConnectionCount n.toInt).clients
        else t.clients) ∧
      t'.connections = t.connections ++ if v.increment.runs && v.addConnection.runs then
        [{ id := newRowid ConnectionRow.id t.connections
           clientId := n.toInt
           connectionTimestamp := v.addConnection.now }] else [] := by
  obtain ⟨hreply, hprepared, hstore⟩ := Mutation.change_spec
    (m := .incrementConnectionCount n) rfl hs.prepared
    (r := s.incrementConnectionCount v.increment n) rfl
  have heffect : (Mutation.incrementConnectionCount n).effect v.increment s h t =
      some (t.incrementClientConnectionCount n.toInt) := rfl
  rw [hs.transaction _ hv.increment, heffect] at hreply hstore
  unfold SyncHTTPServer.recordConnection
  generalize s.incrementConnectionCount v.increment n = r at hreply hprepared hstore ⊢
  obtain ⟨reply, s'⟩ := r
  cases hruns : v.increment.runs with
  | false =>
    rw [hruns] at hreply hstore
    cases hreply
    exact ⟨t, ⟨hprepared, hstore⟩, rfl, by simp⟩
  | true =>
    rw [hruns] at hreply hstore
    cases hreply
    have hs' : Has h s' (t.incrementClientConnectionCount n.toInt) := ⟨hprepared, hstore⟩
    have hn' : n.toInt ∈ (t.incrementClientConnectionCount n.toInt).clients.map ClientRow.id := by
      rw [map_id_incrementClientConnectionCount]
      exact hn
    obtain ⟨t', hs'', hclients, hconnections⟩ :=
      hs'.addClientConnection hv.addConnection hn' v.currentTime
    refine ⟨t', ?_, hclients, hconnections⟩
    simp only [if_true]
    split
    · rename_i heq
      rwa [heq] at hs''
    · rename_i heq
      rwa [heq] at hs''

/-- What a connection does to the tables: the client may be added, and it may be counted and
get its row. -/
structure Changes (v : Visit) (ip : Int) (t t' : Tables) : Prop where
  clients : t'.clients =
    (t.clients ++ if v.adds (known t ip) then
      [({ id := newRowid ClientRow.id t.clients, ip } : ClientRow)] else []).map
        (Ledger.counting (if v.counts (known t ip) then [ip] else []))
  connections : t'.connections = t.connections ++ if v.records (known t ip) then
    [{ id := newRowid ConnectionRow.id t.connections
       clientId := Ledger.idOf t'.clients ip
       connectionTimestamp := v.addConnection.now }] else []
  /-- Who is counted or has a row is a client. -/
  known : v.counts (known t ip) = true → ip ∈ t'.clients.map ClientRow.ip

theorem Adds.clients {added : Bool} {ip : Int} (h : Adds added ip t t') :
    t'.connections = t.connections ∧ t'.clients = t.clients ++
      if added then [{ id := newRowid ClientRow.id t.clients, ip }] else [] := by
  unfold Adds at h
  split at h
  · obtain ⟨rowid, hinsert⟩ := h
    obtain ⟨hconnections, rfl, hclients⟩ := Tables.insertClient_eq hinsert
    rw [if_pos ‹_›]
    exact ⟨hconnections, hclients⟩
  · rw [if_neg ‹_›, List.append_nil, h]
    exact ⟨rfl, rfl⟩

/-- **One connection.** -/
theorem Has.visited (hs : Has h s t) (hv : v.Ends) (hids : t.IdsUpTo k) (hk : k + 1 < 2 ^ 31)
    {address : UInt32} (haddress : v.address = some address) :
    ∃ t', Has h (SyncHTTPServer.visited s v) t' ∧ t'.IdsUpTo (k + 1) ∧
      Changes v address.toInt32.toInt t t' := by
  obtain ⟨n, t1, hn, hs1, hadds, hid⟩ := hs.identify hv.add hids hk address.toInt32
  have hids1 := hadds.ids hids
  obtain ⟨hconnections1, hclients1⟩ := hadds.clients
  unfold SyncHTTPServer.visited bookkeeping
  simp only [haddress]
  generalize SyncHTTPServer.identify v address.toInt32 s = r at hn hs1
  obtain ⟨reply, s1⟩ := r
  cases hn
  cases hidentified : v.identifies (known t address.toInt32.toInt) with
  | false =>
    rw [hidentified, if_neg Bool.false_ne_true] at hid
    simp only [if_pos hid]
    refine ⟨t1, hs1, hids1, ?_, ?_, ?_⟩
    · rw [Visit.counts, hidentified, Bool.false_and, if_neg Bool.false_ne_true,
        Ledger.map_counting_nil, hclients1]
    · simp [Visit.records, Visit.counts, hidentified, hconnections1]
    · simp [Visit.counts, hidentified]
  | true =>
    rw [hidentified, if_pos rfl] at hid
    obtain ⟨hne, c, hc, hip, htoInt⟩ := hid
    simp only [if_neg hne]
    obtain ⟨t', hs', hclients', hconnections'⟩ := hs1.recordConnection hv
      (List.mem_map.2 ⟨c, hc, htoInt.symm⟩)
    have hclients : t'.clients = t1.clients.map (Ledger.counting
        (if v.counts (known t address.toInt32.toInt) then [address.toInt32.toInt] else [])) := by
      rw [hclients', Visit.counts, hidentified, Bool.true_and, ← hip]
      split
      · rw [htoInt]
        exact clients_incrementClientConnectionCount hc
      · exact (Ledger.map_counting_nil _).symm
    refine ⟨t', hs', ?_, ?_, ?_, ?_⟩
    · intro c' hc'
      rw [hclients] at hc'
      obtain ⟨c, hc, rfl⟩ := List.mem_map.1 hc'
      exact hids1 c hc
    · rw [hclients, hclients1]
    · rw [hclients, Ledger.idOf_counting, ← hip, Ledger.idOf_mem hc, hip, ← htoInt]
      rw [hconnections', hconnections1, Visit.records, Visit.counts, hidentified, Bool.true_and]
    · intro _
      rw [hclients, Ledger.map_ip_counting]
      exact List.mem_map.2 ⟨c, hc, hip⟩

/-! ## Runs -/

/-- The tables are those of the ledger, which is one of clients that are there. -/
structure Kept (t₀ : Tables) (l : Ledger) (t : Tables) : Prop where
  clients : t.clients = l.clientRows t₀
  connections : t.connections = l.connectionRows t₀
  counted : ∀ ip ∈ l.counted, ip ∈ t.clients.map ClientRow.ip
  rows : ∀ r ∈ l.rows, r.1 ∈ t.clients.map ClientRow.ip

variable {t₀ : Tables} {l : Ledger}

theorem kept_empty (t : Tables) : Kept t {} t where
  clients := by simp [Ledger.clientRows, Ledger.map_counting_nil]
  connections := by simp [Ledger.connectionRows]
  counted := nofun
  rows := nofun

theorem Kept.known_eq (hl : Kept t₀ l t) (ip : Int) :
    known t ip = decide (ip ∈ t₀.clients.map ClientRow.ip ++ l.clients) := by
  rw [known, hl.clients, Ledger.map_ip_clientRows]

/-- The clients that are there stay, with their ids. -/
theorem Changes.stays {ip : Int} (h : Changes v ip t t') {ip' : Int}
    (hip : ip' ∈ t.clients.map ClientRow.ip) : ip' ∈ t'.clients.map ClientRow.ip ∧
      Ledger.idOf t'.clients ip' = Ledger.idOf t.clients ip' := by
  rw [h.clients, Ledger.map_ip_counting, List.map_append, Ledger.idOf_counting,
    Ledger.idOf_append hip]
  exact ⟨List.mem_append_left _ hip, rfl⟩

/-- The rows of the clients behind a connection. -/
theorem Kept.clientRows_record (hl : Kept t₀ l t) {ip : Int} (h : Changes v ip t t') :
    t'.clients = (l.record v ip (known t ip)).clientRows t₀ := by
  rw [h.clients, Ledger.clientRows, Ledger.record, Ledger.map_counting_append]
  congr 1
  cases hadds : v.adds (known t ip) with
  | false => rw [if_neg Bool.false_ne_true, if_neg Bool.false_ne_true, List.append_nil,
      List.append_nil, hl.clients, Ledger.clientRows]
  | true =>
    -- nothing is counted for an address that is not there yet
    have hnew : l.counted.count ip = 0 := by
      rw [List.count_eq_zero]
      intro hmem
      have hknown : known t ip = true := decide_eq_true (hl.counted ip hmem)
      rw [hknown] at hadds
      exact Bool.false_ne_true hadds
    rw [if_pos rfl, if_pos rfl, List.mapIdx_concat, ← List.append_assoc, List.map_append,
      ← Ledger.clientRows, ← hl.clients, List.map_singleton]
    congr 2
    rw [hl.clients, Ledger.newRowid_clientRows, Ledger.newClient, Ledger.counting, hnew]
    rfl

theorem Kept.connectionRows_record (hl : Kept t₀ l t) {ip : Int} (h : Changes v ip t t') :
    t'.connections = (l.record v ip (known t ip)).connectionRows t₀ := by
  have hsame : l.rows.mapIdx (Ledger.newConnection t'.clients
      (newRowid ConnectionRow.id t₀.connections)) = l.rows.mapIdx (Ledger.newConnection t.clients
        (newRowid ConnectionRow.id t₀.connections)) := by
    refine List.mapIdx_eq_mapIdx_iff.2 fun i hi => ?_
    rw [Ledger.newConnection, Ledger.newConnection,
      (h.stays (hl.rows _ (List.getElem_mem hi))).2]
  rw [Ledger.connectionRows, ← hl.clientRows_record h, h.connections]
  cases hrecords : v.records (known t ip) with
  | false =>
    rw [if_neg Bool.false_ne_true, List.append_nil, hl.connections, Ledger.connectionRows,
      ← hl.clients, ← hsame]
    simp [Ledger.record, hrecords]
  | true =>
    rw [if_pos rfl, hl.connections, Ledger.newRowid_connectionRows, Ledger.connectionRows,
      ← hl.clients, ← hsame]
    simp [Ledger.record, hrecords, Ledger.newConnection]

theorem Kept.visit (hl : Kept t₀ l t) {address : UInt32} (haddress : v.address = some address)
    (h : Changes v address.toInt32.toInt t t') :
    Kept t₀ (l.visit (t₀.clients.map ClientRow.ip) v) t' := by
  unfold Ledger.visit
  simp only [haddress, ← hl.known_eq]
  refine ⟨hl.clientRows_record h, hl.connectionRows_record h, fun ip hip => ?_, fun r hr => ?_⟩
  · rcases List.mem_append.1 hip with hip | hip
    · exact (h.stays (hl.counted ip hip)).1
    · obtain ⟨hcounts, hip⟩ := List.mem_ite_nil_right.1 hip
      rw [List.mem_singleton.1 hip]
      exact h.known hcounts
  · rcases List.mem_append.1 hr with hr | hr
    · exact (h.stays (hl.rows r hr)).1
    · obtain ⟨hrecords, hr⟩ := List.mem_ite_nil_right.1 hr
      rw [List.mem_singleton.1 hr]
      exact h.known (Bool.and_eq_true_iff.1 hrecords).1

theorem kept_of_run {vs : List Visit} (hs : Has h s t) (hl : Kept t₀ l t) (hids : t.IdsUpTo k)
    (hvs : ∀ v ∈ vs, v.Ends) (hk : k + vs.length < 2 ^ 31) :
    ∃ t', Has h (Runs.after SyncHTTPServer.visited s vs) t' ∧
      Kept t₀ (Runs.after (Ledger.visit (t₀.clients.map ClientRow.ip)) l vs) t' := by
  induction vs generalizing s l t k with
  | nil => exact ⟨t, hs, hl⟩
  | cons v vs ih =>
    rw [List.forall_mem_cons] at hvs
    rw [List.length_cons] at hk
    rw [Runs.after_cons, Runs.after_cons]
    cases haddress : v.address with
    | none =>
      rw [SyncHTTPServer.visited, bookkeeping, Ledger.visit]
      simp only [haddress]
      exact ih hs hl hids hvs.2 (by omega)
    | some address =>
      obtain ⟨t1, hs1, hids1, hchanges⟩ := hs.visited hvs.1 hids (by omega) haddress
      exact ih hs1 (hl.visit haddress hchanges) hids1 hvs.2 (by omega)

/-- **The database is the ledger of the connections.** From any tables on, and whichever operations
are refused, behind every run no transaction is open, the clients are the first ones and those that
are added, each with as many more connections as were counted for its address, and the rows of the
connections are the first ones and one for each that was recorded, in their order, with the id of
their client and the time of the statement. -/
theorem visits_ledger {vs : List Visit} (hs : Has h s t) (hids : t.IdsUpTo k)
    (hvs : ∀ v ∈ vs, v.Ends) (hk : k + vs.length < 2 ^ 31) :
    let l := Runs.after (Ledger.visit (t.clients.map ClientRow.ip)) {} vs
    ∃ t', Has h (Runs.after SyncHTTPServer.visited s vs) t' ∧
      t'.clients = l.clientRows t ∧ t'.connections = l.connectionRows t := by
  obtain ⟨t', hs', hl⟩ := kept_of_run hs (kept_empty t) hids hvs hk
  exact ⟨t', hs', hl.clients, hl.connections⟩

theorem memory_has : Has 0 memory .empty :=
  ⟨memory_prepared, store_connected (w := .initial) (.inl (by decide))⟩

/-- Three connections of two clients; of the second, the row is refused. -/
def threeVisits : List Visit :=
  [{ address := some 5 }, { address := some 7, addConnection := { statement := false, now := 2 } },
    { address := some 5, addConnection := { now := 3 } }]

theorem threeVisits_ledger : ∃ t', Has 0 (Runs.after SyncHTTPServer.visited memory threeVisits) t' ∧
    t'.clients = [{ id := 1, ip := 5, connectionCount := 2 },
      { id := 2, ip := 7, connectionCount := 1 }] ∧
    t'.connections = [{ id := 1, clientId := 1, connectionTimestamp := 0 },
      { id := 2, clientId := 1, connectionTimestamp := 3 }] := by
  have hends : ∀ v ∈ threeVisits, v.Ends := by
    simp [threeVisits, Visit.ends_iff, StepOutcomes.Ends]
  exact visits_ledger memory_has Tables.idsUpTo_empty hends (by decide)

end SyncHTTPServer

end HttpsTest
