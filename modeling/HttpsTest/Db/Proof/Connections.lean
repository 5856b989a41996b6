import HttpsTest.Lib.Runs
import HttpsTest.Db.Proof.Connect

/-!
# The statements and the connection

The statements are those of the first connect that prepared any (`Cached`); a later connect finds
their names taken, and a disconnect does not finalize them. `conforms_iff` says of every run of
connects, disconnects and operations when each operation acts on the database the object was
last connected to, and on none while it is disconnected.
-/

set_option autoImplicit false

namespace HttpsTest

namespace SqliteDatabase

/-! ## What a statement reaches -/

/-- The statements there are belong to the handle. -/
def Owned (h : Nat) (s : SqliteDatabase) : Prop :=
  ∀ n k, s.preparedStatements n = .statement k → k = h

/-- `s'` comes of `s` by steps of statements of the handle, and by names that are looked up. -/
structure Within (h : Nat) (s s' : SqliteDatabase) : Prop where
  frame : Sqlite.Frame h s.world s'.world
  accessed : ∃ k, s'.world.accessed =
    s.world.accessed ++ List.replicate k (s.world.databaseOf h)
  slots : ∀ n, s'.preparedStatements n = s.preparedStatements n ∨
    s.preparedStatements n = .absent ∧ s'.preparedStatements n = .null

variable {h : Nat} {s s' s'' : SqliteDatabase}

theorem Within.refl (h : Nat) (s : SqliteDatabase) : Within h s s :=
  ⟨⟨fun _ => rfl, rfl, fun _ _ => rfl⟩, ⟨0, by simp⟩, fun _ => .inl rfl⟩

theorem Within.trans (h1 : Within h s s') (h2 : Within h s' s'') : Within h s s'' where
  frame := h1.frame.trans h2.frame
  accessed := by
    obtain ⟨k, hk⟩ := h1.accessed
    obtain ⟨l, hl⟩ := h2.accessed
    refine ⟨k + l, ?_⟩
    rw [hl, hk, h1.frame.databaseOf, List.append_assoc, List.replicate_append_replicate]
  slots n := by
    rcases h2.slots n with heq | ⟨habs, hnull⟩
    · rw [heq]
      exact h1.slots n
    · rcases h1.slots n with heq | ⟨-, hnull'⟩
      · exact .inr ⟨heq ▸ habs, hnull⟩
      · rw [hnull'] at habs
        cases habs

theorem Within.owned (hw : Within h s s') (hs : Owned h s) : Owned h s' := by
  intro n k hn
  rcases hw.slots n with heq | ⟨-, hnull⟩
  · exact hs n k (heq ▸ hn)
  · rw [hnull] at hn
    cases hn

theorem statement_within (h : Nat) (n : StatementName) (s : SqliteDatabase) :
    Within h s (s.statement n).2 := by
  have hworld := world_statement n s
  refine ⟨?_, ⟨0, by rw [hworld]; simp⟩, fun m => ?_⟩
  · rw [hworld]
    exact (Within.refl h s).frame
  · unfold statement
    split
    · exact .inl rfl
    · exact .inl rfl
    · rename_i habs
      by_cases hm : m = n
      · subst hm
        exact .inr ⟨habs, Function.update_self _ _ _⟩
      · exact .inl (Function.update_of_ne hm _ _)

/-- A step of a statement of the handle. -/
theorem step_within {act : Sqlite → Nat → Bool × Sqlite}
    (hframe : Sqlite.Frame h s.world (act s.world h).2)
    (haccessed : (act s.world h).2.accessed = s.world.accessed ++ [s.world.databaseOf h]) :
    Within h s (s.step act h).2 := ⟨hframe, ⟨1, haccessed⟩, fun _ => .inl rfl⟩

theorem transactionStep_within (hs : Owned h s) (n : StatementName)
    (act : Transactions.Store Tables → Bool × Transactions.Store Tables) :
    Within h s (s.transactionStep n fun w k => w.stepStore k act).2 := by
  unfold transactionStep
  cases hslot : s.preparedStatements n with
  | statement k =>
    cases hs n k hslot
    rw [statement_of_statement hslot]
    exact step_within (Sqlite.frame_stepStore _ _ _) rfl
  | null | absent =>
    rw [statement_of_none (by simp [hslot])]
    exact statement_within h n s

theorem conclude_within {α : Type} {o : StepOutcomes} {rollsBack : Bool}
    {result : SqliteDatabase → Except Exn α} {r : Bool × SqliteDatabase} (hr : Within h s r.2)
    (hs : Owned h s) : Within h s (conclude o rollsBack result r).2 := by
  have hback {s' : SqliteDatabase} (hw : Within h s s') :
      Within h s (s'.rollbackTransaction o.rollback).2 :=
    hw.trans (transactionStep_within (hw.owned hs) _ _)
  obtain ⟨_ | _, s1⟩ := r
  · exact hback hr
  · unfold conclude
    simp only
    split
    · exact hr
    · have hcommit : Within h s (s1.commitTransaction o.commit o.commitAborts).2 :=
        hr.trans (transactionStep_within (hr.owned hs) _ _)
      split
      · rename_i heq
        rw [heq] at hcommit
        exact hcommit
      · rename_i heq
        rw [heq] at hcommit
        split
        · exact hback hcommit
        · exact hcommit

theorem stepModify_within (ok : Bool) (n : StatementName) (parameter now : Int) :
    Within h s (s.step (Sqlite.stepModify ok n parameter now) h).2 := by
  apply step_within (s.world.stepModify_spec h ok n parameter now).2.2.1
  unfold Sqlite.stepModify
  simp only
  split <;> rfl

/-- The part of a transaction behind its begin. -/
theorem transact_within_begin {α : Type} (hs : Owned h s) {o : StepOutcomes} (n : StatementName)
    (parameter : Int) (rollsBack : Bool) (result : SqliteDatabase → Except Exn α) {b : Bool}
    {s1 : SqliteDatabase} (hb : s.beginTransaction o.begin = (b, s1)) :
    Within h s1 (s.transact o n parameter rollsBack result).2 := by
  have hbegin : Within h s (s.beginTransaction o.begin).2 := transactionStep_within hs _ _
  rw [hb] at hbegin
  have hs1 := hbegin.owned hs
  unfold transact
  rw [hb]
  cases b with
  | false => exact .refl h s1
  | true =>
    cases hslot : s1.preparedStatements n with
    | statement k =>
      cases hs1 n k hslot
      simp only [statement_of_statement hslot]
      exact conclude_within (stepModify_within _ _ _ _) hs1
    | null | absent =>
      simp only
      rw [statement_of_none (by simp [hslot])]
      have hstatement := statement_within h n s1
      exact hstatement.trans (transactionStep_within (hstatement.owned hs1) _ _)

/-- **An operation that changes rows** reaches only the database of its statements, and that one if
it has a statement to begin with; else it fails. -/
theorem transact_within {α : Type} (hs : Owned h s) (o : StepOutcomes) (n : StatementName)
    (parameter : Int) (rollsBack : Bool) (result : SqliteDatabase → Except Exn α) :
    let r := s.transact o n parameter rollsBack result
    Within h s r.2 ∧
      (s.preparedStatements .beginTransaction = .statement h →
        s.world.databaseOf h ∈ r.2.world.accessed) ∧
      ((∀ k, s.preparedStatements .beginTransaction ≠ .statement k) →
        r.1 = .ok none ∧ r.2.world = s.world) := by
  intro r
  rcases hb : s.beginTransaction o.begin with ⟨b, s1⟩
  have hbegin : Within h s (s.beginTransaction o.begin).2 := transactionStep_within hs _ _
  have hrest := transact_within_begin hs n parameter rollsBack result hb
  rw [hb] at hbegin
  refine ⟨hbegin.trans hrest, ?_, ?_⟩
  · intro hslot
    have hstep : s.beginTransaction o.begin = s.step (Sqlite.stepBegin o.begin) h := by
      unfold beginTransaction transactionStep
      rw [statement_of_statement hslot]
    rw [hb] at hstep
    cases hstep
    obtain ⟨k, hk⟩ := hrest.accessed
    rw [show r.2.world.accessed = _ from hk]
    simp [Sqlite.stepBegin, Sqlite.stepStore, Sqlite.setStore, Sqlite.touch]
  · intro hslot
    have hnone : s.beginTransaction o.begin = (false, (s.statement .beginTransaction).2) := by
      unfold beginTransaction transactionStep
      rw [statement_of_none hslot]
    have hr : r = (.ok none, (s.statement .beginTransaction).2) := by
      simp only [r, transact, hnone]
    rw [hr]
    exact ⟨rfl, world_statement _ _⟩

/-! ## The statements of an object -/

/-- The statements of an object: none yet, or all names taken, for statements of one handle or for
null. -/
def Cached (s : SqliteDatabase) : Prop :=
  (∀ n k, s.preparedStatements n ≠ .statement k) ∨
    ∃ h, (∀ n, s.preparedStatements n ≠ .absent) ∧ Owned h s

theorem Cached.owned (hs : Cached s) : ∃ h, Owned h s := by
  rcases hs with hnone | ⟨h, -, howned⟩
  · exact ⟨0, fun n k hn => absurd hn (hnone n k)⟩
  · exact ⟨h, howned⟩

theorem Cached.congr (hs : Cached s) (heq : s'.preparedStatements = s.preparedStatements) :
    Cached s' := by
  unfold Cached Owned
  rw [heq]
  exact hs

theorem Within.cached (hw : Within h s s') (hs : Cached s) : Cached s' := by
  rcases hs with hnone | ⟨k, htaken, howned⟩
  · left
    intro n k hn
    rcases hw.slots n with heq | ⟨-, hnull⟩
    · exact hnone n k (heq ▸ hn)
    · rw [hnull] at hn
      cases hn
  · have heq (n : StatementName) : s'.preparedStatements n = s.preparedStatements n :=
      (hw.slots n).resolve_right fun habs => htaken n habs.1
    exact .inr ⟨k, fun n => by rw [heq]; exact htaken n, fun n l hn => howned n l (heq n ▸ hn)⟩

/-- `CreateDatabase` prepares all statements on one handle, or none. -/
theorem Cached.createDatabase (hs : Cached s) (o : ConnectOutcomes) :
    Cached (s.createDatabase o) := by
  obtain ⟨hfill, htaken⟩ := createDatabase_fills o s
  rcases hs with hnone | ⟨k, htaken', howned⟩
  · cases hdb : s.db with
    | none =>
      left
      intro n k hn
      rcases hfill.slots n with heq | ⟨-, hnull | ⟨h, hdb', -⟩⟩
      · exact hnone n k (heq ▸ hn)
      · rw [hnull] at hn
        cases hn
      · rw [hdb] at hdb'
        cases hdb'
    | some h =>
      refine .inr ⟨h, htaken, ?_⟩
      intro n k hn
      rcases hfill.slots n with heq | ⟨-, hnull | ⟨h', hdb', hstatement⟩⟩
      · exact absurd (heq ▸ hn) (hnone n k)
      · rw [hnull] at hn
        cases hn
      · rw [hstatement] at hn
        rw [hdb] at hdb'
        cases hdb'
        cases hn
        rfl
  · exact .inr ⟨k, htaken, fun n l hn => howned n l (hfill.taken (htaken' n) ▸ hn)⟩

theorem preparedStatements_resetDb (db : Option Nat) (s : SqliteDatabase) :
    (s.resetDb db).preparedStatements = s.preparedStatements := by
  unfold resetDb
  split <;> rfl

theorem Cached.connect (hs : Cached s) (o : ConnectOutcomes) (connectionString : Bytes) :
    Cached (s.connect o connectionString).2 := by
  cases hdb : s.db with
  | none =>
    rw [connect_of_none hdb]
    refine Cached.createDatabase ?_ o
    exact hs.congr (preparedStatements_resetDb _ _)
  | some h =>
    rw [connect_of_some hdb]
    exact hs

end SqliteDatabase

/-! ## Operations -/

namespace Operation

open SqliteDatabase

/-- The statement an operation starts with. -/
def leading : Operation → StatementName
  | mutate _ => .beginTransaction
  | read q => q.statement

variable {h : Nat} {s : SqliteDatabase}

/-- **An operation** reaches only the database of its statements, and that one if it has a statement
to start with; else it fails. -/
theorem run_within (hs : Owned h s) (op : Operation) (o : StepOutcomes) :
    Within h s (op.run o s).2 ∧
      (s.preparedStatements op.leading = .statement h →
        s.world.databaseOf h ∈ (op.run o s).2.world.accessed) ∧
      ((∀ k, s.preparedStatements op.leading ≠ .statement k) →
        (op.run o s).1 = .ok op.failure ∧ (op.run o s).2.world = s.world) := by
  cases op with
  | mutate m =>
    obtain ⟨α, result, reply, hfailure, hrun⟩ := m.run_eq
    obtain ⟨hwithin, haccess, hfail⟩ := transact_within hs o m.statement m.parameter m.rollsBack
      result
    simp only [run, hrun]
    refine ⟨hwithin, haccess, fun hslot => ⟨?_, (hfail hslot).2⟩⟩
    rw [(hfail hslot).1]
    exact congrArg Except.ok hfailure
  | read q =>
    have htouch (k : Nat) (hslot : s.preparedStatements q.statement = .statement k) :
        (run (.read q) o s).2 = { s with world := s.world.touch k } := q.run_of_statement hslot
    refine ⟨?_, ?_, ?_⟩
    · cases hslot : s.preparedStatements q.statement with
      | statement k =>
        cases hs _ k hslot
        rw [htouch h hslot]
        exact ⟨s.world.frame_touch h, ⟨1, rfl⟩, fun _ => .inl rfl⟩
      | null | absent =>
        simp only [run, q.run_of_none (o := o) (s := s) (by simp [hslot])]
        exact statement_within h _ s
    · intro hslot
      rw [htouch h hslot]
      exact List.mem_append_right _ (List.mem_singleton.2 rfl)
    · intro hslot
      simp only [run, q.run_of_none (o := o) hslot]
      exact ⟨rfl, world_statement _ _⟩

end Operation

/-! ## Runs -/

/-- What a user of the object calls. -/
inductive Call where
  | connect (o : ConnectOutcomes) (connectionString : Bytes)
  | disconnect
  | operate (op : Operation) (o : StepOutcomes)

/-- The object, and the database its user takes it to be connected to: that of the path of the last
connect of the disconnected object, until a disconnect. -/
structure Session where
  object : SqliteDatabase
  target : Option DatabaseId := none

namespace Session

open SqliteDatabase

def next (s : Session) : Call → Session
  | .connect o connectionString =>
    { object := (s.object.connect o connectionString).2
      target :=
        if s.object.db.isNone then
          some (Sqlite.databaseAt s.object.world.next (s.object.openedPath connectionString))
        else s.target }
  | .disconnect => { object := s.object.disconnect }
  | .operate op o => { s with object := (op.run o s.object).2 }

/-- An operation alone, with the databases it accesses. -/
def runAlone (op : Operation) (o : StepOutcomes) (s : SqliteDatabase) :
    Except Exn Reply × SqliteDatabase :=
  op.run o { s with world := { s.world with accessed := [] } }

/-- An operation reads and writes the database its user means, and no other; without one it fails.
-/
def Conforms (s : Session) : Call → Prop
  | .operate op o =>
    let r := runAlone op o s.object
    (∀ d, s.target ≠ some d →
        d ∉ r.2.world.accessed ∧ r.2.world.databases d = s.object.world.databases d) ∧
      (s.target = none → r.1 = .ok op.failure)
  | _ => True

/-- The statement an operation starts with is none, or one on the database its user means. -/
def Fits (s : Session) : Call → Prop
  | .operate op _ =>
    ∀ h, s.object.preparedStatements op.leading = .statement h →
      s.target = some (s.object.world.databaseOf h)
  | _ => True

theorem cached_next {s : Session} (hs : s.object.Cached) (c : Call) : (s.next c).object.Cached := by
  cases c with
  | connect o connectionString => exact hs.connect o connectionString
  | disconnect => exact hs.congr (preparedStatements_resetDb none s.object)
  | operate op o =>
    obtain ⟨h, howned⟩ := hs.owned
    exact (op.run_within howned o).1.cached hs

theorem conforms_iff_fits {s : Session} (hs : s.object.Cached) (c : Call) :
    s.Conforms c ↔ s.Fits c := by
  cases c with
  | connect => exact Iff.rfl
  | disconnect => exact Iff.rfl
  | operate op o =>
    obtain ⟨h, howned⟩ := hs.owned
    set object : SqliteDatabase :=
      { s.object with world := { s.object.world with accessed := [] } } with hobject
    obtain ⟨hwithin, haccess, hfail⟩ := op.run_within (s := object) howned o
    constructor
    · rintro ⟨honly, -⟩ k hslot
      cases howned _ k hslot
      by_contra hother
      exact (honly _ hother).1 (haccess hslot)
    · intro hfits
      have hfits' : ∀ k, object.preparedStatements op.leading = .statement k →
          s.target = some (s.object.world.databaseOf k) := hfits
      by_cases hslot : ∃ k, object.preparedStatements op.leading = .statement k
      · obtain ⟨k, hslot⟩ := hslot
        cases howned _ k hslot
        have htarget := hfits' h hslot
        refine ⟨fun d hd => ?_, fun hnone => ?_⟩
        · have hne : d ≠ s.object.world.databaseOf h := by
            rintro rfl
            exact hd htarget
          obtain ⟨l, hl⟩ := hwithin.accessed
          refine ⟨?_, hwithin.frame.others d hne⟩
          intro hmem
          rw [show (runAlone op o s.object).2.world.accessed = _ from hl] at hmem
          exact hne (List.eq_of_mem_replicate
            (show d ∈ List.replicate l (s.object.world.databaseOf h) from hmem))
        · rw [htarget] at hnone
          cases hnone
      · rw [not_exists] at hslot
        obtain ⟨hreply, hworld⟩ := hfail hslot
        refine ⟨?_, fun _ => hreply⟩
        intro d _
        rw [show (runAlone op o s.object).2.world = _ from hworld]
        exact ⟨by simp [hobject], rfl⟩

/-- **The databases of a run**: every operation acts on the database its user means exactly if each
of them starts with a statement on that database, or with none. -/
theorem conforms_iff (w : Sqlite) (cs : List Call) :
    Runs.Meets next Conforms { object := { world := w } } cs ↔
      Runs.Meets next Fits { object := { world := w } } cs :=
  Runs.meets_congr (J := fun s => s.object.Cached) (fun _ c hs => cached_next hs c)
    (fun _ c hs => conforms_iff_fits hs c) (.inl fun _ _ => by simp)

/-- A second database after a first one. -/
def reconnect : List Call := [.connect {} "a", .disconnect, .connect {} "b"]

/-- After the disconnect a client still reaches the first database, where adding it ends with the
null handle; after the second connect it is added to the first database. -/
theorem second_database_missed :
    ¬ Runs.Meets next Conforms { object := { world := .initial } }
        [.connect {} "a", .disconnect, .operate (.mutate (.addClient 7)) {}] ∧
      ¬ Runs.Meets next Conforms { object := { world := .initial } }
        (reconnect ++ [.operate (.mutate (.addClient 7)) {}]) ∧
      let s := Runs.after next { object := { world := .initial } }
        (reconnect ++ [.operate (.mutate (.addClient 7)) {}])
      (s.object.world.databases (.file "a")).tables.clients.length = 1 ∧
        (s.object.world.databases (.file "b")).tables.clients.length = 0 := by
  refine ⟨?_, ?_, ?_⟩
  · intro h
    exact (h.2.2.1.1 (.file "a") nofun).1 (by decide +kernel)
  · intro h
    exact (h.2.2.2.1.1 (.file "a") (by decide +kernel)).1 (by decide +kernel)
  · decide +kernel

end Session

/-! ## Reachable objects -/

/-- The object after a run. -/
def SqliteDatabase.reached (w : Sqlite) (cs : List Call) : SqliteDatabase :=
  (Runs.after Session.next { object := { world := w } } cs).object

theorem SqliteDatabase.reached_cached (w : Sqlite) (cs : List Call) : (reached w cs).Cached :=
  (Runs.always_of_step (J := fun s : Session => s.object.Cached)
    (fun _ c hs => Session.cached_next hs c) (.inl fun _ _ => by simp) cs).last

end HttpsTest
