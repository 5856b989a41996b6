import HttpsTest.Server.Bookkeeping
import HttpsTest.Db.Proof.References

/-!
# The bookkeeping of the connections

The bookkeeping of a connection is up to three transactions: that of a new client
(`identify_spec`), the increment and the row (`recordConnection_refused`, `recordConnection_run`).
`visits_fair` says of every run when each visit of it is counted as a whole or reported as not
counted: exactly if the client has an id and its increment is refused. One that goes through is
reported as a failure, and so is the row that is missing behind it.
-/

set_option autoImplicit false

namespace HttpsTest

open Transactions SqliteDatabase

/-! ## The tables -/

namespace Tables

/-- The connections counted for the client at an address. -/
def connectionCountOf (ip : Int) (t : Tables) : Int :=
  ((t.clients.find? (·.ip = ip)).map ClientRow.connectionCount).getD 0

/-- Every client has as many connections as are counted for it. -/
def Balanced (t : Tables) : Prop :=
  ∀ c ∈ t.clients, c.connectionCount = t.clientConnectionCount c.id

instance (t : Tables) : Decidable t.Balanced :=
  inferInstanceAs (Decidable (∀ c ∈ t.clients, c.connectionCount = t.clientConnectionCount c.id))

/-- The connection is counted, and its row is there. -/
structure Recorded (ip : Int) (t t' : Tables) : Prop where
  count : t'.connectionCountOf ip = t.connectionCountOf ip + 1
  row : ∃ c ∈ t'.clients, c.ip = ip ∧
    ∃ r : ConnectionRow, r.clientId = c.id ∧ t'.connections = t.connections ++ [r]

/-- No count and no connection is changed. -/
structure Untouched (t t' : Tables) : Prop where
  counts : ∀ ip, t'.connectionCountOf ip = t.connectionCountOf ip
  connections : t'.connections = t.connections

variable {t t' : Tables} {ip rowid : Int}

theorem Untouched.refl (t : Tables) : Untouched t t := ⟨fun _ => rfl, rfl⟩

theorem Recorded.not_untouched (h : Recorded ip t t') : ¬ Untouched t t' := by
  intro hu
  have := h.count
  rw [hu.counts] at this
  omega

theorem connectionCountOf_mem {c : ClientRow} (hc : c ∈ t.clients) :
    t.connectionCountOf c.ip = c.connectionCount := by
  rw [connectionCountOf, find_ip hc]
  rfl

/-- A new client has nothing counted. -/
theorem Untouched.insertClient (h : t.insertClient ip = some (t', rowid)) : Untouched t t' := by
  obtain ⟨hconnections, -, hclients⟩ := insertClient_eq h
  refine ⟨fun ip' => ?_, hconnections⟩
  rw [connectionCountOf, connectionCountOf, hclients, List.find?_append]
  cases t.clients.find? (·.ip = ip') with
  | some c => rfl
  | none =>
    by_cases hip : ip = ip'
    · simp [hip]
    · simp [hip]

theorem Balanced.insertClient (ht : t.Balanced) (href : t.Referential)
    (h : t.insertClient ip = some (t', rowid)) : t'.Balanced := by
  obtain ⟨hconnections, hrowid, hclients⟩ := insertClient_eq h
  have hcount (id : Int) : t'.clientConnectionCount id = t.clientConnectionCount id := by
    unfold clientConnectionCount
    rw [hconnections]
  intro c hc
  rw [hcount]
  rw [hclients] at hc
  rcases List.mem_append.1 hc with hc | hc
  · exact ht c hc
  · rw [List.mem_singleton.1 hc, hrowid, href.clientConnectionCount_newRowid]
    rfl

/-- What an increment does, at the address of a client. -/
theorem connectionCountOf_increment {c : ClientRow} (hc : c ∈ t.clients) :
    (t.incrementClientConnectionCount c.id).connectionCountOf c.ip =
      t.connectionCountOf c.ip + 1 := by
  have hmem : { c with connectionCount := c.connectionCount + 1 } ∈
      (t.incrementClientConnectionCount c.id).clients :=
    List.mem_map.2 ⟨c, hc, if_pos rfl⟩
  rw [connectionCountOf_mem hc]
  exact connectionCountOf_mem hmem

/-- The counts are right, and so they stay when a client is added. -/
def Settled (t : Tables) : Prop := t.Balanced ∧ t.Referential

/-- The ids of the clients are at most `k`, and that of the next connection is not 0 as an `int`. -/
def Fits (k : Nat) (t : Tables) : Prop :=
  t.IdsUpTo k ∧ Int32.ofInt (newRowid ConnectionRow.id t.connections) ≠ 0

theorem settled_empty : empty.Settled := by
  refine ⟨fun c hc => ?_, referential_empty⟩
  cases hc

theorem Settled.insertClient (ht : t.Settled) (h : t.insertClient ip = some (t', rowid)) :
    t'.Settled := ⟨ht.1.insertClient ht.2 h, ht.2.insertClient h⟩

theorem Fits.insertClient {k : Nat} (ht : t.Fits k) (h : t.insertClient ip = some (t', rowid)) :
    t'.Fits (k + 1) := by
  refine ⟨ht.1.insertClient h, ?_⟩
  rw [(insertClient_eq h).1]
  exact ht.2

theorem Fits.mono {k l : Nat} (ht : t.Fits k) (hkl : k ≤ l) : t.Fits l := ⟨ht.1.mono hkl, ht.2⟩

end Tables

/-- The steps of an operation change what its connection sees, where no transaction is open: the
commit succeeds, or leaves the transaction open. -/
def StepOutcomes.Counts (o : StepOutcomes) : Prop :=
  o.begin = true ∧ o.statement = true ∧ (o.commit = true ∨ o.commitAborts = false)

namespace SyncHTTPServer

/-! ## The client -/

variable {s : SqliteDatabase} {h : Nat} {v : Visit} {ip : Int32}

/-- The client is found, with an id that is not the -1 of a failure. -/
def Known (h : Nat) (s : SqliteDatabase) (v : Visit) (ip : Int32) : Prop :=
  v.lookUp.statement = true ∧
    ∃ c ∈ (s.world.store h).view.clients, c.ip = ip.toInt ∧ Int32.ofInt c.id ≠ -1

/-- The client is added, with an id that is not the -1 of a failure. -/
structure Added (h : Nat) (s : SqliteDatabase) (v : Visit) (ip : Int32) : Prop where
  begin : v.add.begin = true
  closed : (s.world.connections h).transaction = none
  statement : v.add.statement = true
  new : ip.toInt ∉ (s.world.store h).view.clients.map ClientRow.ip
  commit : v.add.commit = true
  id : Int32.ofInt (newRowid ClientRow.id (s.world.store h).view.clients) ≠ -1

/-- The client has an id. -/
def Identified (h : Nat) (s : SqliteDatabase) (v : Visit) (ip : Int32) : Prop :=
  Known h s v ip ∨ Added h s v ip

/-- The look-up, on a prepared object. -/
theorem getClientIdByIp_spec (hp : s.Prepared h) (v : Visit) (ip : Int32) :
    ∃ n, s.getClientIdByIp v.lookUp ip = (n, { s with world := s.world.touch h }) ∧
      (n = -1 → ¬ Known h s v ip) ∧
      (n ≠ -1 → v.lookUp.statement = true ∧ ∃ c ∈ (s.world.store h).view.clients,
        c.ip = ip.toInt ∧ n = .ofInt c.id) := by
  refine ⟨_, query_of_statement (hp.statements _), ?_, ?_⟩
  · rintro hn ⟨hstatement, c, hc, hip, hid⟩
    rw [Sqlite.stepSelect, if_pos hstatement, ← hip, Tables.find_ip hc] at hn
    exact hid hn
  · intro hn
    unfold Sqlite.stepSelect at hn ⊢
    cases hstatement : v.lookUp.statement with
    | false =>
      rw [hstatement] at hn
      exact absurd rfl hn
    | true =>
      rw [hstatement] at hn
      cases hfind : (s.world.store h).view.clients.find? (·.ip = ip.toInt) with
      | none =>
        simp only [hfind] at hn
        exact absurd rfl hn
      | some c =>
        refine ⟨rfl, c, List.mem_of_find?_eq_some hfind, ?_, ?_⟩
        · simpa using List.find?_some hfind
        · simp [hfind]

/-- The id of a client is looked up, or comes of a transaction. -/
theorem identify_cases (hp : s.Prepared h) (v : Visit) (ip : Int32) :
    let r := identify v ip s
    let add := (Mutation.addClient ip).transaction v.add s h
    r.2.Prepared h ∧
      ((∃ n, r.1 = .ok n ∧ n ≠ -1 ∧ v.lookUp.statement = true ∧
          (∃ c ∈ (s.world.store h).view.clients, c.ip = ip.toInt ∧ n = .ofInt c.id) ∧
          r.2.world.store h = s.world.store h) ∨
        (¬ Known h s v ip ∧ r.2.world.store h = add.2 ∧ r.1 = .ok (if add.1 then
          .ofInt (newRowid ClientRow.id (s.world.store h).view.clients) else -1))) := by
  intro r add
  obtain ⟨n, hlookUp, hunknown, hfound⟩ := getClientIdByIp_spec hp v ip
  by_cases hn : n = -1
  · have hr : r = SqliteDatabase.addClient v.add ip { s with world := s.world.touch h } := by
      simp only [r, identify, hlookUp, if_pos hn]
    obtain ⟨hreply, hprepared, hstore⟩ := Mutation.insert_spec (m := .addClient ip) rfl
      (hp.withWorld (s.world.touch h)) (o := v.add) (r := r) (by rw [hr]; rfl)
    exact ⟨hprepared, .inr ⟨hunknown hn, hstore, hreply⟩⟩
  · have hr : r = (.ok n, { s with world := s.world.touch h }) := by
      simp only [r, identify, hlookUp, if_neg hn]
    rw [hr]
    obtain ⟨hstatement, hc⟩ := hfound hn
    exact ⟨hp.withWorld _, .inl ⟨n, rfl, hn, hstatement, hc, rfl⟩⟩

/-- The statement that adds a client is reached, and with which tables. -/
theorem reaches_addClient {o : StepOutcomes} {t : Tables}
    (ht : Reaches o.toOutcomes ((Mutation.addClient ip).effect o s h) (s.world.store h) t) :
    ∃ rowid, (s.world.store h).view.insertClient ip.toInt = some (t, rowid) := by
  obtain ⟨⟨t', r⟩, hmod, rfl⟩ := Option.map_eq_some_iff.1 ht.2.2.2
  obtain ⟨⟨t1, rowid⟩, hinsert, heq⟩ := Option.map_eq_some_iff.1 hmod
  cases heq
  exact ⟨rowid, hinsert⟩

/-- A client is added and committed. -/
theorem addClient_done_iff {o : StepOutcomes} :
    ((Mutation.addClient ip).transaction o s h).1 = true ↔
      o.commit = true ∧ o.begin = true ∧ (s.world.connections h).transaction = none ∧
        o.statement = true ∧ ip.toInt ∉ (s.world.store h).view.clients.map ClientRow.ip := by
  apply transact_done_iff.trans
  apply and_congr_right'
  refine ⟨fun ⟨t, ht⟩ => ?_, fun ⟨hbegin, hclosed, hstatement, hnew⟩ => ?_⟩
  · obtain ⟨rowid, hinsert⟩ := reaches_addClient ht
    refine ⟨ht.1, ht.2.1, ht.2.2.1, Tables.insertClient_isSome.1 ?_⟩
    rw [hinsert]
    rfl
  · obtain ⟨⟨t, rowid⟩, hinsert⟩ := Option.isSome_iff_exists.1 (Tables.insertClient_isSome.2 hnew)
    refine ⟨t, hbegin, hclosed, hstatement, ?_⟩
    simp [Mutation.effect, Sqlite.change, Mutation.statement, Mutation.parameter,
      StatementName.modify, hinsert]

/-- What `identify` leaves, on a prepared object. -/
structure Identifies (h : Nat) (v : Visit) (ip : Int32) (s s' : SqliteDatabase) (n : Int32) :
    Prop where
  prepared : s'.Prepared h
  identified : n ≠ -1 ↔ Identified h s v ip
  moves : (s.world.store h).Moves Tables.Untouched (s'.world.store h)
  client : n ≠ -1 →
    ((s'.world.connections h).transaction = none ↔ (s.world.connections h).transaction = none) ∧
      ∃ c ∈ (s'.world.store h).view.clients, c.ip = ip.toInt ∧ n = .ofInt c.id
  settled : (s.world.store h).Holds Tables.Settled → (s'.world.store h).Holds Tables.Settled
  fits : ∀ k, (s.world.store h).Holds (Tables.Fits k) →
    (s'.world.store h).Holds (Tables.Fits (k + 1))

/-- A look-up that finds the client. -/
theorem identifies_found {s' : SqliteDatabase} {c : ClientRow} (hp : s'.Prepared h)
    (hstore : s'.world.store h = s.world.store h) (hstatement : v.lookUp.statement = true)
    (hc : c ∈ (s.world.store h).view.clients) (hip : c.ip = ip.toInt)
    (hid : Int32.ofInt c.id ≠ -1) : Identifies h v ip s s' (.ofInt c.id) where
  prepared := hp
  identified := iff_of_true hid (.inl ⟨hstatement, c, hc, hip, hid⟩)
  moves := by
    rw [hstore]
    exact ⟨.refl _, .refl _⟩
  client _ := by
    rw [show (s'.world.connections h).transaction = (s.world.connections h).transaction from
      congrArg Store.working hstore, hstore]
    exact ⟨Iff.rfl, c, hc, hip, rfl⟩
  settled := by
    rw [hstore]
    exact id
  fits k hk := by
    rw [hstore]
    exact hk.imp fun _ ht => ht.mono (Nat.le_succ k)

/-- A client that is not found, and what adding it gives. -/
theorem identifies_added {s' : SqliteDatabase} (hp : s'.Prepared h)
    (hstore : s'.world.store h = ((Mutation.addClient ip).transaction v.add s h).2)
    (hunknown : ¬ Known h s v ip) :
    Identifies h v ip s s' (if ((Mutation.addClient ip).transaction v.add s h).1 then
      .ofInt (newRowid ClientRow.id (s.world.store h).view.clients) else -1) := by
  -- an id that is not the -1 of a failure is that of a transaction that is done
  have hdone (hn : (if ((Mutation.addClient ip).transaction v.add s h).1 then
      Int32.ofInt (newRowid ClientRow.id (s.world.store h).view.clients) else -1) ≠ -1) :
      ((Mutation.addClient ip).transaction v.add s h).1 = true := by
    by_contra hfail
    exact hn (if_neg hfail)
  refine ⟨hp, ?_, ?_, ?_, ?_, ?_⟩
  · constructor
    · intro hn
      have hd := hdone hn
      rw [if_pos hd] at hn
      obtain ⟨hcommit, hbegin, hclosed, hstatement, hnew⟩ := addClient_done_iff.1 hd
      exact .inr ⟨hbegin, hclosed, hstatement, hnew, hcommit, hn⟩
    · rintro (hknown | hadd)
      · exact absurd hknown hunknown
      · rw [if_pos (addClient_done_iff.2
          ⟨hadd.commit, hadd.begin, hadd.closed, hadd.statement, hadd.new⟩)]
        exact hadd.id
  · rw [hstore]
    apply transact_moves Tables.Untouched.refl
    intro t ht
    obtain ⟨rowid, hinsert⟩ := reaches_addClient ht
    exact .insertClient hinsert
  · intro hn
    have hd := hdone hn
    obtain ⟨hcommit, t, ht⟩ := transact_done_iff.1 hd
    obtain ⟨rowid, hinsert⟩ := reaches_addClient ht
    obtain ⟨-, hrowid, hclients⟩ := Tables.insertClient_eq hinsert
    have hend : s'.world.store h = { committed := t } := by
      rw [hstore]
      exact congrArg Prod.snd (transact_of_reaches ht hcommit)
    refine ⟨iff_of_true (congrArg Store.working hend) ht.2.1,
      { id := rowid, ip := ip.toInt }, ?_, rfl, by rw [if_pos hd, hrowid]⟩
    rw [hend]
    exact hclients ▸ List.mem_append_right _ (List.mem_singleton.2 rfl)
  · intro hsettled
    rw [hstore]
    apply (transact_holds_iff hsettled).2
    intro t ht _
    obtain ⟨rowid, hinsert⟩ := reaches_addClient ht
    exact hsettled.2.insertClient hinsert
  · intro k hk
    rw [hstore]
    apply (transact_holds_iff (hk.imp fun _ ht => ht.mono (Nat.le_succ k))).2
    intro t ht _
    obtain ⟨rowid, hinsert⟩ := reaches_addClient ht
    exact hk.2.insertClient hinsert

theorem identify_spec (hp : s.Prepared h) (v : Visit) (ip : Int32) :
    ∃ n, (identify v ip s).1 = .ok n ∧ Identifies h v ip s (identify v ip s).2 n := by
  obtain ⟨hprepared, ⟨n, hr, hn, hstatement, ⟨c, hc, hip, rfl⟩, hstore⟩ |
    ⟨hunknown, hstore, hr⟩⟩ := identify_cases hp v ip
  · exact ⟨_, hr, identifies_found hprepared hstore hstatement hc hip hn⟩
  · exact ⟨_, hr, identifies_added hprepared hstore hunknown⟩

/-! ## The connection -/

/-- An increment that is refused is reported, and leaves everything as it is. -/
theorem recordConnection_refused (hp : s.Prepared h) {n : Int32}
    (hrefused : ¬ (v.increment.Counts ∧ (s.world.connections h).transaction = none)) :
    let r := recordConnection v n s
    r.1 = .ok (some (.incrementConnectionCount n)) ∧ r.2.Prepared h ∧
      (s.world.store h).Moves Eq (r.2.world.store h) := by
  intro r
  obtain ⟨hreply, hprepared, hstore⟩ := Mutation.change_spec
    (m := .incrementConnectionCount n) rfl hp (r := s.incrementConnectionCount v.increment n) rfl
  obtain ⟨hfail, hmoves⟩ : ((Mutation.incrementConnectionCount n).transaction v.increment s h).1 =
      false ∧ (s.world.store h).Moves Eq
        ((Mutation.incrementConnectionCount n).transaction v.increment s h).2 :=
by
    by_cases haborts : v.increment.commit = false ∧ v.increment.commitAborts = true
    · exact transact_undone haborts.1 (.inl haborts.2)
    · refine transact_unreached fun t ht => hrefused ⟨⟨ht.1, ht.2.2.1, ?_⟩, ht.2.1⟩
      simpa [← Bool.not_eq_true, or_iff_not_imp_left] using haborts
  rw [hfail] at hreply
  have hr : r = (.ok (some (.incrementConnectionCount n)),
      (s.incrementConnectionCount v.increment n).2) := by
    simp only [r, recordConnection]
    split
    · rename_i heq
      rw [heq] at hreply
      cases hreply
    · rename_i heq
      rw [heq]
    · rename_i heq
      rw [heq] at hreply
      cases hreply
  rw [hr]
  exact ⟨rfl, hprepared, hstore ▸ hmoves⟩

/-- The row of a connection leaves the counts, and its result is taken for a failure, be it -1 or
the id of the row. -/
theorem addClientConnection_taken (hp : s.Prepared h) {o : StepOutcomes} {n k : Int32}
    (hrow : Int32.ofInt (newRowid ConnectionRow.id (s.world.store h).view.connections) ≠ 0) :
    let r := s.addClientConnection o n k
    (∃ id, r.1 = .ok id ∧ id ≠ 0) ∧ ∀ ip, (r.2.world.store h).view.connectionCountOf ip =
      (s.world.store h).view.connectionCountOf ip := by
  intro r
  obtain ⟨hreply, -, hstore⟩ := Mutation.insert_spec (m := .addClientConnection n k) rfl hp
    (r := r) rfl
  constructor
  · refine ⟨_, hreply, ?_⟩
    split
    · exact hrow
    · decide
  · intro ip
    rw [hstore]
    refine (transact_moves (R := fun t t' : Tables =>
      t'.connectionCountOf ip = t.connectionCountOf ip) (fun _ => rfl) fun t ht => ?_).2
    obtain ⟨⟨t', _⟩, hmod, rfl⟩ := Option.map_eq_some_iff.1 ht.2.2.2
    obtain ⟨⟨t1, rowid⟩, hinsert, heq⟩ := Option.map_eq_some_iff.1 hmod
    cases heq
    unfold Tables.connectionCountOf
    rw [(Tables.insertClientConnection_eq hinsert).1]

/-- **An increment that is run is never the end of it**: the client is counted, and a failure is
reported, be it of the increment's commit or of the row, or the id of the new row taken for one. -/
theorem recordConnection_run (hp : s.Prepared h) {n : Int32} {c : ClientRow}
    (hc : c ∈ (s.world.store h).view.clients) (hn : n.toInt = c.id)
    (hrow : Int32.ofInt (newRowid ConnectionRow.id (s.world.store h).view.connections) ≠ 0)
    (hcounts : v.increment.Counts) (hclosed : (s.world.connections h).transaction = none) :
    let r := recordConnection v n s
    (∃ f, r.1 = .ok (some f)) ∧ (r.2.world.store h).view.connectionCountOf c.ip =
      (s.world.store h).view.connectionCountOf c.ip + 1 := by
  intro r
  obtain ⟨hreply, hprepared, hstore⟩ := Mutation.change_spec
    (m := .incrementConnectionCount n) rfl hp (r := s.incrementConnectionCount v.increment n) rfl
  have hview : ((s.incrementConnectionCount v.increment n).2.world.store h).view =
      (s.world.store h).view.incrementClientConnectionCount c.id := by
    rw [hstore]
    refine transact_view ⟨hcounts.1, hclosed, hcounts.2.1, ?_⟩ hcounts.2.2
    rw [← hn]
    rfl
  have hcount := Tables.connectionCountOf_increment hc
  rw [← hview] at hcount
  simp only [r, recordConnection]
  split
  · rename_i heq
    rw [heq] at hreply
    cases hreply
  · rename_i heq
    rw [heq] at hcount
    exact ⟨⟨_, rfl⟩, hcount⟩
  · rename_i s1 heq
    rw [heq] at hcount hprepared hview
    obtain ⟨⟨id, hid, hne⟩, hsame⟩ := addClientConnection_taken (o := v.addConnection) (n := n)
      (k := v.currentTime) hprepared (by rw [hview]; exact hrow)
    split
    · rename_i heq'
      rw [heq'] at hid
      cases hid
    · rename_i heq'
      rw [heq'] at hid hsame
      cases hid
      rw [if_pos hne]
      exact ⟨⟨_, rfl⟩, (hsame c.ip).trans hcount⟩

/-! ## The visits -/

/-- The client has an id, and its increment is refused: it cannot begin, its statement fails, or its
commit is aborted. A connection without an address has no client. -/
def Refused (h : Nat) (s : SqliteDatabase) (v : Visit) : Prop :=
  ∀ address, v.address = some address → Identified h s v address.toInt32 ∧
    ¬ (v.increment.Counts ∧ (s.world.connections h).transaction = none)

/-- **All or nothing, and reported**: the connection is counted, its row is there and no failure is
reported; or neither is changed, and one is. -/
def Fair (h : Nat) (s : SqliteDatabase) (v : Visit) : Prop :=
  ((bookkeeping v s).1 = .ok none ∧ ∃ address, v.address = some address ∧
    (s.world.store h).Moves (Tables.Recorded address.toInt32.toInt)
      ((visited s v).world.store h)) ∨
  ((bookkeeping v s).1 ≠ .ok none ∧
    (s.world.store h).Moves Tables.Untouched ((visited s v).world.store h))

/-- Every client has as many connections as are counted for it, also as the operations read them. -/
structure Balanced (h : Nat) (s : SqliteDatabase) : Prop where
  tables : (s.world.store h).Holds Tables.Balanced
  reads : ∀ clientId : Int32, (∃ c ∈ (s.world.store h).view.clients, c.id = clientId.toInt) →
    (s.getClientById {} clientId).1.connectionCount = (s.getClientConnectionCount {} clientId).1

theorem memory_settled : (memory.world.store 0).Holds Tables.Settled := by
  rw [show memory.world.store 0 = _ from store_connected (w := .initial) (.inl (by decide))]
  exact ⟨Tables.settled_empty, Tables.settled_empty⟩

/-- What the operations read, on a prepared object. -/
theorem balanced_of_tables (hp : s.Prepared h)
    (hs : (s.world.store h).Holds Tables.Balanced) : Balanced h s := by
  refine ⟨hs, ?_⟩
  rintro clientId ⟨c, hc, hid⟩
  obtain ⟨c', hfind⟩ : ∃ c', (s.world.store h).view.clients.find? (·.id = clientId.toInt) =
      some c' := Option.isSome_iff_exists.1 (List.find?_isSome.2 ⟨c, hc, by simpa using hid⟩)
  have hid' : c'.id = clientId.toInt := by simpa using List.find?_some hfind
  have hcount := hs.2 c' (List.mem_of_find?_eq_some hfind)
  rw [hid'] at hcount
  unfold getClientById getClientConnectionCount
  rw [query_of_statement (hp.statements _), query_of_statement (hp.statements _)]
  simp only [Sqlite.stepSelect, if_true, hfind, Option.map_some, Option.getD_some, Client.ofRow,
    hcount]

/-- **A visit whose increment is refused** changes no count and no connection, and is reported. -/
theorem visited_refused (hp : s.Prepared h) (hv : Refused h s v) :
    (bookkeeping v s).1 ≠ .ok none ∧
      (s.world.store h).Moves Tables.Untouched ((visited s v).world.store h) ∧
      (visited s v).Prepared h ∧
      ((s.world.store h).Holds Tables.Settled →
        ((visited s v).world.store h).Holds Tables.Settled) ∧
      ∀ k, (s.world.store h).Holds (Tables.Fits k) →
        ((visited s v).world.store h).Holds (Tables.Fits (k + 1)) := by
  unfold visited bookkeeping
  cases haddress : v.address with
  | none =>
    refine ⟨nofun, ⟨.refl _, .refl _⟩, hp, id, fun k hk => ?_⟩
    exact hk.imp fun _ ht => ht.mono (Nat.le_succ k)
  | some address =>
    obtain ⟨hidentified, hrefused⟩ := hv address haddress
    obtain ⟨n, hn, hs'⟩ := identify_spec hp v address.toInt32
    simp only
    generalize identify v address.toInt32 s = r at hn hs'
    obtain ⟨reply, s'⟩ := r
    cases hn
    have hid := hs'.identified.2 hidentified
    rw [← (hs'.client hid).1] at hrefused
    obtain ⟨hreply, hprepared, hsame⟩ := recordConnection_refused hs'.prepared (n := n) hrefused
    simp only [if_neg hid]
    refine ⟨by rw [hreply]; nofun, hs'.moves.trans_eq hsame, hprepared, ?_, ?_⟩
    · exact fun hsettled => (hs'.settled hsettled).of_eq hsame
    · exact fun k hk => (hs'.fits k hk).of_eq hsame

/-- Where the ids are `int`s, a visit that is fair is one whose increment is refused. -/
theorem refused_of_fair {k : Nat} (hp : s.Prepared h)
    (hfits : (s.world.store h).Holds (Tables.Fits k)) (hk : k + 1 < 2 ^ 31)
    (hfair : Fair h s v) : Refused h s v := by
  intro address haddress
  unfold Fair visited bookkeeping at hfair
  simp only [haddress] at hfair
  obtain ⟨n, hn, hs'⟩ := identify_spec hp v address.toInt32
  generalize identify v address.toInt32 s = r at hn hs' hfair
  obtain ⟨reply, s'⟩ := r
  cases hn
  by_cases hid : n = -1
  · -- without an id nothing is reported, and no row is there
    simp only [if_pos hid] at hfair
    rcases hfair with ⟨-, a, -, hrecorded⟩ | ⟨hreport, -⟩
    · exact absurd hs'.moves.2 hrecorded.2.not_untouched
    · exact absurd rfl hreport
  refine ⟨hs'.identified.1 hid, ?_⟩
  rintro ⟨hcounts, hclosed⟩
  obtain ⟨hopen, c, hc, hip, hcid⟩ := hs'.client hid
  have hfits' := (hs'.fits k hfits).2
  have hbound := hfits'.1 c hc
  have htoInt : n.toInt = c.id := by
    rw [hcid]
    exact Int32.toInt_ofInt_of_le (by omega) (by omega)
  obtain ⟨⟨f, hf⟩, hcount⟩ := recordConnection_run hs'.prepared hc htoInt hfits'.2
    hcounts (hopen.2 hclosed)
  simp only [if_neg hid] at hfair
  rcases hfair with ⟨hnone, -⟩ | ⟨-, -, huntouched⟩
  · rw [hf] at hnone
    cases hnone
  · have := huntouched.counts c.ip
    rw [hcount, hs'.moves.2.counts] at this
    omega

/-- **The bookkeeping of every run.** From a database on in which the counts are right, a run in
which the client of each visit has an id and its increment is refused is fair, and keeps the counts
right. No other run is fair, as far as the ids are `int`s. -/
theorem visits_fair (hp : s.Prepared h) (hs : (s.world.store h).Holds Tables.Settled)
    (vs : List Visit) :
    (Runs.Meets visited (Refused h) s vs →
      Runs.Meets visited (Fair h) s vs ∧ Runs.Always visited (Balanced h) s vs) ∧
    ∀ k, (s.world.store h).Holds (Tables.Fits k) → k + vs.length < 2 ^ 31 →
      Runs.Meets visited (Fair h) s vs → Runs.Meets visited (Refused h) s vs := by
  induction vs generalizing s with
  | nil =>
    exact ⟨fun _ => ⟨trivial, balanced_of_tables hp (hs.imp fun _ => And.left)⟩,
      fun _ _ _ _ => trivial⟩
  | cons v vs ih =>
    refine ⟨fun ⟨hv, hrest⟩ => ?_, fun k hfits hk ⟨hv, hrest⟩ => ?_⟩
    · obtain ⟨hreport, hmoves, hp', hs', -⟩ := visited_refused hp hv
      obtain ⟨hfair, hbalanced⟩ := (ih hp' (hs' hs)).1 hrest
      exact ⟨⟨.inr ⟨hreport, hmoves⟩, hfair⟩,
        balanced_of_tables hp (hs.imp fun _ => And.left), hbalanced⟩
    · rw [List.length_cons] at hk
      have hrefused := refused_of_fair hp hfits (by omega) hv
      obtain ⟨-, -, hp', hs', hfits'⟩ := visited_refused hp hrefused
      exact ⟨hrefused, (ih hp' (hs' hs)).2 (k + 1) (hfits' k hfits) (by omega) hrest⟩

/-- Two connections of one client, whose increments are refused. -/
def refusedVisits : List Visit :=
  [{ address := some 2130706433, increment := { statement := false } },
    { address := some 2130706433, increment := { begin := false } }]

theorem refusedVisits_fair : Runs.Meets visited (Fair 0) memory refusedVisits ∧
    Runs.Always visited (Balanced 0) memory refusedVisits := by
  refine (visits_fair memory_prepared memory_settled refusedVisits).1 ⟨?_, ?_, trivial⟩
  · rintro address ⟨⟩
    exact ⟨.inr ⟨rfl, rfl, rfl, by decide, rfl, by decide⟩, fun hrun => nomatch hrun.1.2.1⟩
  · rintro address ⟨⟩
    exact ⟨.inl ⟨rfl, by decide +kernel⟩, fun hrun => nomatch hrun.1.1⟩

/-- A connection for which every operation succeeds. -/
def wholeVisit : Visit := { address := some 2130706433 }

/-- A connection whose row is refused. -/
def lostRow : Visit := { address := some 2130706433, addConnection := { statement := false } }

/-- What is recorded as a whole is reported as a failure, and behind a row that is missing the count
is not right. -/
theorem wholeVisit_reported :
    (bookkeeping wholeVisit memory).1 = .ok (some (.addConnection 1)) ∧
      ¬ Runs.Meets visited (Fair 0) memory [wholeVisit] ∧
      ¬ Runs.Always visited (Balanced 0) memory [lostRow] := by
  have hreport : (bookkeeping wholeVisit memory).1 = .ok (some (.addConnection 1)) := by
    decide +kernel
  have hrow : ((visited memory wholeVisit).world.store 0).view.connections ≠
      (memory.world.store 0).view.connections := by decide +kernel
  have hcount : ¬ ((visited memory lostRow).world.store 0).view.Balanced := by decide +kernel
  refine ⟨hreport, ?_, fun hall => hcount hall.last.tables.2⟩
  rintro ⟨⟨hnone, -⟩ | ⟨-, -, huntouched⟩, -⟩
  · rw [hreport] at hnone
    cases hnone
  · exact hrow huntouched.connections

end SyncHTTPServer

end HttpsTest
