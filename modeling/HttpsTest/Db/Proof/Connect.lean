import HttpsTest.Db.Proof.Transact

/-!
# Connecting

What `CreateDatabase` does to the table of statements and to the databases (`createDatabase_fills`):
names that are taken stay, the others get statements of the handle, or null. An object that
connects for the first time, with no step failing, has every statement prepared on its new
handle (`connect_prepared`).
-/

set_option autoImplicit false

namespace HttpsTest

/-! ## Opening -/

namespace Sqlite

/-- An opened handle is a new connection to the database of the path; the tables of the databases
stay, except that a memory is empty. -/
theorem openDatabase_spec (w : Sqlite) (path : Bytes) (outcome : OpenOutcome)
    (ho : outcome ≠ .noHandle) :
    let r := w.openDatabase outcome path
    r.1 = some w.next ∧ r.2.next = w.next + 1 ∧
      r.2.connections w.next =
        { database := databaseAt w.next path, usable := decide (outcome = .opened) } ∧
      (∀ k, k ≠ w.next → r.2.connections k = w.connections k) ∧
      (∀ d, d ≠ .memory w.next → r.2.databases d = w.databases d) ∧
      (path = bytes ":memory:" → r.2.databases (.memory w.next) = {}) := by
  intro r
  have hr : r = (some w.next, { w with
      databases := if path = bytes ":memory:" then
        Function.update w.databases (.memory w.next) {} else w.databases
      connections := Function.update w.connections w.next
        { database := databaseAt w.next path, usable := decide (outcome = .opened) }
      next := w.next + 1 }) := by
    by_cases hp : path = bytes ":memory:"
    · cases outcome with
      | noHandle => exact absurd rfl ho
      | _ => simp only [r, openDatabase, if_pos hp]
    · cases outcome with
      | noHandle => exact absurd rfl ho
      | _ => simp only [r, openDatabase, if_neg hp]
  rw [hr]
  refine ⟨rfl, rfl, Function.update_self _ _ _, fun k hk => Function.update_of_ne hk _ _, ?_, ?_⟩
  · intro d hd
    simp only
    split
    · exact Function.update_of_ne hd _ _
    · rfl
  · intro hp
    simp only [if_pos hp]
    exact Function.update_self _ _ _

end Sqlite

namespace SqliteDatabase

/-! ## The statement table -/

/-- `s'` comes of `s` by taking names that were free, for null or for a statement of the handle, and
by creating tables. -/
structure Fills (s s' : SqliteDatabase) : Prop where
  db : s'.db = s.db
  connections : s'.world.connections = s.world.connections
  next : s'.world.next = s.world.next
  tables : ∀ d, (s'.world.databases d).tables = (s.world.databases d).tables
  slots : ∀ n, s'.preparedStatements n = s.preparedStatements n ∨
    s.preparedStatements n = .absent ∧ (s'.preparedStatements n = .null ∨
      ∃ h, s.db = some h ∧ s'.preparedStatements n = .statement h)

theorem Fills.refl (s : SqliteDatabase) : Fills s s :=
  ⟨rfl, rfl, rfl, fun _ => rfl, fun _ => .inl rfl⟩

theorem Fills.trans {s s' s'' : SqliteDatabase} (h1 : Fills s s') (h2 : Fills s' s'') :
    Fills s s'' where
  db := h2.db.trans h1.db
  connections := h2.connections.trans h1.connections
  next := h2.next.trans h1.next
  tables d := (h2.tables d).trans (h1.tables d)
  slots n := by
    rcases h2.slots n with h | ⟨habs, h⟩
    · rw [h]
      exact h1.slots n
    · rw [h1.db] at h
      rcases h1.slots n with h' | ⟨habs', -⟩
      · exact .inr ⟨h' ▸ habs, h⟩
      · exact .inr ⟨habs', h⟩

/-- A name that is taken keeps its entry. -/
theorem Fills.taken {s s' : SqliteDatabase} (h : Fills s s') {n : StatementName}
    (hn : s.preparedStatements n ≠ .absent) : s'.preparedStatements n = s.preparedStatements n :=
  (h.slots n).resolve_right fun h' => hn h'.1

theorem statement_fills (n : StatementName) (s : SqliteDatabase) : Fills s (s.statement n).2 := by
  unfold statement
  split
  · exact .refl s
  · exact .refl s
  · rename_i habs
    refine ⟨rfl, rfl, rfl, fun _ => rfl, ?_⟩
    intro m
    by_cases hm : m = n
    · subst hm
      exact .inr ⟨habs, .inl (Function.update_self _ _ _)⟩
    · exact .inl (Function.update_of_ne hm _ _)

theorem emplace_fills (ok : Bool) (n : StatementName) (s : SqliteDatabase) :
    Fills s (s.emplace ok n) ∧ (s.emplace ok n).preparedStatements n ≠ .absent := by
  unfold emplace
  split
  · rename_i habs
    have hslot (slot : Slot) (hs : slot = .null ∨ ∃ h, s.db = some h ∧ slot = .statement h) :
        Fills s { s with preparedStatements := Function.update s.preparedStatements n slot } ∧
          Function.update s.preparedStatements n slot n ≠ .absent := by
      refine ⟨⟨rfl, rfl, rfl, fun _ => rfl, fun m => ?_⟩, ?_⟩
      · by_cases hm : m = n
        · subst hm
          exact .inr ⟨habs, by simpa using hs⟩
        · exact .inl (Function.update_of_ne hm _ _)
      · rw [Function.update_self]
        rcases hs with rfl | ⟨h, -, rfl⟩ <;> simp
    apply hslot
    split
    · rename_i h hdb
      split
      · exact .inr ⟨h, hdb, rfl⟩
      · exact .inl rfl
    · exact .inl rfl
  · rename_i hn
    exact ⟨.refl s, hn⟩

theorem stepCreate_fills (ok : Bool) (table : TableName) (s : SqliteDatabase) (h : Nat) :
    Fills s { s with world := s.world.stepCreate ok table h } := by
  unfold Sqlite.stepCreate
  cases ok with
  | false => exact ⟨rfl, rfl, rfl, fun _ => rfl, fun _ => .inl rfl⟩
  | true =>
    refine ⟨rfl, rfl, rfl, fun d => ?_, fun _ => .inl rfl⟩
    simp only [if_true, Function.update_apply]
    split
    · rename_i hd
      rw [hd]
      rfl
    · rfl

theorem executeStatament_fills (ok : Bool) (n : StatementName) (table : TableName)
    (s : SqliteDatabase) : Fills s (s.executeStatament ok n table) := by
  have hs := statement_fills n s
  unfold executeStatament
  split
  · rename_i h s' heq
    rw [heq] at hs
    exact hs.trans (stepCreate_fills ok table s' h)
  · rename_i s' heq
    rw [heq] at hs
    exact hs

/-- A loop over names takes all of them. -/
theorem foldl_fills {α : Type} (f : SqliteDatabase → α → SqliteDatabase) (name : α → StatementName)
    (hf : ∀ s a, Fills s (f s a) ∧ (f s a).preparedStatements (name a) ≠ .absent) (l : List α)
    (s : SqliteDatabase) : Fills s (l.foldl f s) ∧
      ∀ a ∈ l, (l.foldl f s).preparedStatements (name a) ≠ .absent := by
  induction l generalizing s with
  | nil => exact ⟨.refl s, fun _ ha => nomatch ha⟩
  | cons a l ih =>
    obtain ⟨hfill, htaken⟩ := ih (f s a)
    refine ⟨(hf s a).1.trans hfill, ?_⟩
    intro b hb
    rcases List.mem_cons.1 hb with rfl | hb
    · rw [List.foldl_cons, hfill.taken (hf s b).2]
      exact (hf s b).2
    · exact htaken b hb

/-- `CreateDatabase` prepares every statement there is. -/
theorem mem_statements (n : StatementName) :
    n ∈ createStatements.map (·.1) ∨ n ∈ laterStatements := by
  cases n <;> decide

/-- **`CreateDatabase`** takes every name, and keeps the entries that are there. -/
theorem createDatabase_fills (o : ConnectOutcomes) (s : SqliteDatabase) :
    Fills s (s.createDatabase o) ∧ ∀ n, (s.createDatabase o).preparedStatements n ≠ .absent := by
  obtain ⟨hfirst, htaken⟩ := foldl_fills
    (fun s (c : StatementName × TableName) =>
      (s.emplace (o.prepares c.1) c.1).executeStatament (o.creates c.2) c.1 c.2) Prod.fst
    (fun s c => by
      obtain ⟨hfill, hslot⟩ := emplace_fills (o.prepares c.1) c.1 s
      have hexec := executeStatament_fills (o.creates c.2) c.1 c.2 (s.emplace (o.prepares c.1) c.1)
      exact ⟨hfill.trans hexec, by rw [hexec.taken hslot]; exact hslot⟩) createStatements s
  obtain ⟨hlater, htaken'⟩ := foldl_fills
    (fun s n => s.emplace (o.prepares n) n) id (fun s n => emplace_fills (o.prepares n) n s)
    laterStatements (createStatements.foldl (fun s c =>
      (s.emplace (o.prepares c.1) c.1).executeStatament (o.creates c.2) c.1 c.2) s)
  refine ⟨hfirst.trans hlater, ?_⟩
  intro n
  rcases mem_statements n with hn | hn
  · obtain ⟨c, hc, rfl⟩ := List.mem_map.1 hn
    unfold createDatabase
    rw [hlater.taken (htaken c hc)]
    exact htaken c hc
  · exact htaken' n hn

/-! ## The first connect -/

/-- Whether a table exists in the database of the handle. -/
def present (h : Nat) (s : SqliteDatabase) (table : TableName) : Bool :=
  (s.world.databases (s.world.databaseOf h)).present table

/-- The handle can be used, and the entries there are are its statements. -/
structure Filling (h : Nat) (s : SqliteDatabase) : Prop where
  db : s.db = some h
  usable : (s.world.connections h).usable = true
  slots : ∀ n, s.preparedStatements n = .absent ∨ s.preparedStatements n = .statement h

variable {h : Nat} {s : SqliteDatabase}

theorem Filling.emplace (hs : Filling h s) {n : StatementName}
    (hn : n.table.all (present h s) = true) :
    Filling h (s.emplace true n) ∧ (s.emplace true n).preparedStatements n = .statement h ∧
      (s.emplace true n).world = s.world := by
  have hprepares : s.world.prepares true n h = true := by
    rw [Sqlite.prepares, hs.usable]
    exact hn
  unfold SqliteDatabase.emplace
  rcases hs.slots n with habs | hstmt
  · rw [habs]
    simp only [hs.db, hprepares, if_true]
    refine ⟨⟨rfl, hs.usable, fun m => ?_⟩, Function.update_self _ _ _, trivial⟩
    by_cases hm : m = n
    · subst hm
      exact .inr (Function.update_self _ _ _)
    · simpa only [Function.update_of_ne hm] using hs.slots m
  · rw [hstmt]
    exact ⟨hs, hstmt, rfl⟩

/-- The step that creates a table. -/
theorem Filling.create (hs : Filling h s) {n : StatementName} (hn : n.table = none)
    (table : TableName) :
    let s' := (s.emplace true n).executeStatament true n table
    Filling h s' ∧ present h s' table = true ∧
      ∀ t, present h s t = true → present h s' t = true := by
  obtain ⟨hs1, hstmt, hworld⟩ := hs.emplace (n := n) (by rw [hn]; rfl)
  have hexec : (s.emplace true n).executeStatament true n table =
      { s.emplace true n with world := s.world.stepCreate true table h } := by
    rw [executeStatament, SqliteDatabase.statement, hstmt]
    simp only [hworld]
  have hpresent : present h { s.emplace true n with world := s.world.stepCreate true table h } =
      Function.update (present h s) table true := by
    funext t
    simp [present, Sqlite.stepCreate, Sqlite.databaseOf, Sqlite.touch]
    rfl
  intro s'
  rw [show s' = _ from hexec]
  refine ⟨⟨hs1.db, hs.usable, hs1.slots⟩, ?_, ?_⟩
  · rw [hpresent, Function.update_self]
  · intro t ht
    rw [hpresent, Function.update_apply, ht, ite_self]

/-- The tables the later statements need exist. -/
structure Ready (h : Nat) (s : SqliteDatabase) : Prop extends Filling h s where
  client : present h s .client = true
  clientConnection : present h s .clientConnection = true

theorem Ready.emplace (hs : Ready h s) (n : StatementName) : Ready h (s.emplace true n) := by
  obtain ⟨hfill, -, hworld⟩ := hs.toFilling.emplace (n := n) (by
    cases n <;> first | rfl | exact hs.client | exact hs.clientConnection)
  have hpresent : present h (s.emplace true n) = present h s := by
    unfold present
    rw [hworld]
  exact ⟨hfill, by rw [hpresent]; exact hs.client, by rw [hpresent]; exact hs.clientConnection⟩

theorem Ready.emplaceAll (hs : Ready h s) (l : List StatementName) :
    Ready h (l.foldl (fun s n => s.emplace true n) s) := by
  induction l generalizing s with
  | nil => exact hs
  | cons n l ih => exact ih (hs.emplace n)

/-- Where no step fails, `CreateDatabase` prepares every statement on the handle. -/
theorem Filling.createDatabase (hs : Filling h s) : (s.createDatabase {}).Prepared h := by
  obtain ⟨h1, hclient, -⟩ := hs.create (n := .createClientTable) rfl .client
  obtain ⟨h2, hconnection, hkeep2⟩ := h1.create (n := .createClientConnectionTable) rfl
    .clientConnection
  obtain ⟨h3, -, hkeep3⟩ := h2.create (n := .createEventTable) rfl .event
  have hready : Ready h (s.createDatabase {}) := Ready.emplaceAll
    ⟨h3, hkeep3 _ (hkeep2 _ hclient), hkeep3 _ hconnection⟩ laterStatements
  exact ⟨hready.db, fun n => (hready.slots n).resolve_left ((createDatabase_fills {} s).2 n)⟩

/-- The path a `connect` opens. -/
def openedPath (connectionString : Bytes) (s : SqliteDatabase) : Bytes :=
  let path := if connectionString.isEmpty then s.dbPath else connectionString
  if path.isEmpty then ":memory:" else path

/-- A connect of an object without a handle. -/
theorem connect_of_none (hdb : s.db = none) (o : ConnectOutcomes) (connectionString : Bytes) :
    s.connect o connectionString =
      connectStored o { s with dbPath := s.openedPath connectionString } := by
  unfold connect openedPath
  rw [if_neg (by simp [hdb])]
  by_cases hc : connectionString.isEmpty
  · by_cases hd : s.dbPath.isEmpty <;> simp [hc, hd]
  · simp [hc]

/-- A connect of an object with a handle does nothing. -/
theorem connect_of_some (hdb : s.db = some h) (o : ConnectOutcomes) (connectionString : Bytes) :
    s.connect o connectionString = (true, s) := by
  unfold connect
  rw [if_pos (by rw [hdb]; rfl)]

/-- The object with what `sqlite3_open` gives for the path of a connect. -/
def opened (o : ConnectOutcomes) (connectionString : Bytes) (s : SqliteDatabase) :
    SqliteDatabase :=
  let path := s.openedPath connectionString
  { s with
    dbPath := path
    db := (s.world.openDatabase o.opening path).1
    world := (s.world.openDatabase o.opening path).2 }

theorem connect_opened (hdb : s.db = none) (o : ConnectOutcomes) (connectionString : Bytes) :
    s.connect o connectionString = (true, (s.opened o connectionString).createDatabase o) := by
  rw [connect_of_none hdb]
  simp only [connectStored, resetDb, hdb]
  rfl

/-- A new object after its first connect, in which no step fails. -/
def connected (w : Sqlite) (connectionString : Bytes) : SqliteDatabase :=
  (connect {} connectionString { world := w }).2

/-- **The first connect**: every statement is prepared on the new handle, which is a new connection
to the database of the path; the tables are those that were there. -/
theorem connect_prepared (w : Sqlite) (connectionString : Bytes) :
    let r := connected w connectionString
    let path := openedPath connectionString { world := w }
    r.Prepared w.next ∧
      r.world.connections w.next = { database := Sqlite.databaseAt w.next path } ∧
      (r.world.databases (Sqlite.databaseAt w.next path)).tables =
        if path = bytes ":memory:" then .empty else
          (w.databases (Sqlite.databaseAt w.next path)).tables := by
  intro r path
  obtain ⟨hopen, -, hconn, -, hdb, hmem⟩ := w.openDatabase_spec path .opened nofun
  have hcreate : r = createDatabase {}
      { world := (w.openDatabase .opened path).2, dbPath := path, db := some w.next } := by
    simp only [r, connected, connect_opened (s := { world := w }) rfl]
    rw [← hopen]
    rfl
  have hfill := (createDatabase_fills {}
    { world := (w.openDatabase .opened path).2, dbPath := path, db := some w.next }).1
  rw [← hcreate] at hfill
  refine ⟨?_, by rw [hfill.connections]; exact hconn, ?_⟩
  · rw [hcreate]
    exact Filling.createDatabase ⟨rfl, by rw [hconn]; rfl, fun _ => .inl rfl⟩
  · rw [hfill.tables]
    unfold Sqlite.databaseAt
    by_cases hp : path = bytes ":memory:"
    · rw [if_pos hp, if_pos hp]
      exact congrArg Database.tables (hmem hp)
    · rw [if_neg hp, if_neg hp]
      exact congrArg Database.tables (hdb _ (by simp))

/-- The object connects to a memory, or to a file without rows. -/
def ToEmpty (w : Sqlite) (connectionString : Bytes) : Prop :=
  let path := openedPath connectionString { world := w }
  path = bytes ":memory:" ∨ (w.databases (.file path)).tables = .empty

/-- What a connection to an empty database sees. -/
theorem store_connected {w : Sqlite} {connectionString : Bytes}
    (hempty : ToEmpty w connectionString) :
    (connected w connectionString).world.store w.next = { committed := .empty } := by
  obtain ⟨-, hconn, htables⟩ := connect_prepared w connectionString
  unfold Sqlite.store Sqlite.databaseOf
  rw [hconn]
  simp only [htables]
  split
  · rfl
  · rename_i hp
    rw [Sqlite.databaseAt, if_neg hp, hempty.resolve_left hp]

/-- A new object on a database in memory. -/
def memory : SqliteDatabase := connected .initial ""

theorem memory_prepared : memory.Prepared 0 := (connect_prepared .initial "").1

end SqliteDatabase

end HttpsTest
