import Mathlib.Logic.Function.Basic
import HttpsTest.Base
import HttpsTest.Lib.Transactions
import HttpsTest.Db.Tables

/-!
# The engine

What the code relies on of sqlite: databases, connections to them, and prepared statements, which
act on the connection they were prepared on. A connection keeps the open transaction and the id it
inserted last. Which steps fail beyond what the data forces is an input. `accessed` lists the
databases the steps of statements read or write.
-/

set_option autoImplicit false

namespace HttpsTest

open Transactions

inductive TableName where
  | client | clientConnection | event
  deriving DecidableEq, Repr

/-- The keys of `m_prepared_statements`. -/
inductive StatementName where
  | createClientTable | createClientConnectionTable | createEventTable
  | beginTransaction | commitTransaction | rollbackTransaction
  | insertClient | removeClientById | removeAllClients
  | incrementClientConnectionCount | incrementClientEventCount
  | selectClientById | selectClientByIp | selectClientIpById | selectClientIdByIp
  | countAll | selectAll
  | insertClientConnection | removeConnectionById | removeClientConnections | removeAllConnections
  | getClientConnectionCount
  deriving DecidableEq, Repr

namespace StatementName

/-- The table a statement can only be prepared with. -/
def table : StatementName → Option TableName
  | createClientTable | createClientConnectionTable | createEventTable
  | beginTransaction | commitTransaction | rollbackTransaction => none
  | insertClientConnection | removeConnectionById | removeClientConnections
  | removeAllConnections | getClientConnectionCount => some .clientConnection
  | _ => some .client

/-- What a statement that changes rows does with its bound parameter, at the time `now`; an insert
also gives the new id. -/
def modify (n : StatementName) (fk : Bool) (parameter now : Int) (t : Tables) :
    Option (Tables × Option Int) :=
  match n with
  | insertClient => (t.insertClient parameter).map fun r => (r.1, some r.2)
  | removeClientById => some (t.removeClientById fk parameter, none)
  | removeAllClients => some (t.removeAllClients fk, none)
  | incrementClientConnectionCount => some (t.incrementClientConnectionCount parameter, none)
  | incrementClientEventCount => some (t.incrementClientEventCount parameter, none)
  | insertClientConnection =>
    (t.insertClientConnection fk parameter now).map fun r => (r.1, some r.2)
  | removeConnectionById => some (t.removeConnectionById parameter, none)
  | removeClientConnections => some (t.removeClientConnections parameter, none)
  | removeAllConnections => some (t.removeAllConnections, none)
  | _ => some (t, none)

end StatementName

/-- A database: a file, or the memory of one connection. -/
inductive DatabaseId where
  | file (path : Bytes)
  | memory (handle : Nat)
  deriving DecidableEq, Repr

structure Database where
  present : TableName → Bool := fun _ => false
  tables : Tables := .empty

/-- `SQLITE_DEFAULT_FOREIGN_KEYS`, which the project leaves undefined: a new connection does not
enforce foreign keys, and no `PRAGMA foreign_keys` changes that. -/
def defaultForeignKeys : Bool := false

/-- `sqlite3`. -/
structure DbConnection where
  database : DatabaseId
  /-- The handle can be used: it was opened without an error. -/
  usable : Bool := true
  foreignKeys : Bool := defaultForeignKeys
  /-- The working copy of the open transaction. -/
  transaction : Option Tables := none
  lastInsertRowid : Int := 0

structure Sqlite where
  databases : DatabaseId → Database
  connections : Nat → DbConnection
  /-- The next handle. -/
  next : Nat := 0
  accessed : List DatabaseId := []

namespace Sqlite

/-- No database has rows, and no handle is open. -/
def initial : Sqlite where
  databases _ := {}
  connections h := { database := .memory h, usable := false }

/-- The database of a handle. -/
def databaseOf (w : Sqlite) (h : Nat) : DatabaseId := (w.connections h).database

/-- The tables as a connection sees and changes them. -/
def store (w : Sqlite) (h : Nat) : Store Tables where
  committed := (w.databases (w.databaseOf h)).tables
  working := (w.connections h).transaction

/-- The tables of a connection after a step of one of its statements. -/
def setStore (w : Sqlite) (h : Nat) (s : Store Tables) : Sqlite :=
  { w with
    databases := Function.update w.databases (w.databaseOf h)
      { w.databases (w.databaseOf h) with tables := s.committed }
    connections := Function.update w.connections h
      { w.connections h with transaction := s.working } }

def touch (w : Sqlite) (h : Nat) : Sqlite := { w with accessed := w.accessed ++ [w.databaseOf h] }

/-- A step that acts on the tables of its connection. -/
def stepStore (w : Sqlite) (h : Nat) (act : Store Tables → Bool × Store Tables) : Bool × Sqlite :=
  ((act (w.store h)).1, (w.touch h).setStore h (act (w.store h)).2)

def stepBegin (ok : Bool) (w : Sqlite) (h : Nat) : Bool × Sqlite := w.stepStore h (Store.begin ok)

/-- A commit that fails with `SQLITE_BUSY` leaves the transaction open; every other error of it
rolls the transaction back (`aborts`). -/
def stepCommit (ok aborts : Bool) (w : Sqlite) (h : Nat) : Bool × Sqlite :=
  w.stepStore h (Store.commit ok aborts)

def stepRollback (ok : Bool) (w : Sqlite) (h : Nat) : Bool × Sqlite :=
  w.stepStore h (Store.rollback ok)

/-- An open transaction is rolled back by sqlite itself, behind a begin or a query that fails out of
memory or at an I/O error. -/
def abort (w : Sqlite) (h : Nat) : Sqlite :=
  w.setStore h { committed := (w.store h).committed }

/-- The step of a statement that changes rows: whether it is done. If it rolls the transaction back
as it fails, it is as one that is followed by a rollback. -/
def stepModify (ok : Bool) (n : StatementName) (parameter now : Int) (w : Sqlite) (h : Nat) :
    Bool × Sqlite :=
  let modify := n.modify (w.connections h).foreignKeys parameter now
  let (done, w') := w.stepStore h (Store.update ok fun t => (modify t).map (·.1))
  match done, modify (w.store h).view with
  | true, some (_, some rowid) =>
    (done, { w' with
      connections := Function.update w'.connections h
        { w'.connections h with lastInsertRowid := rowid } })
  | _, _ => (done, w')

/-- The step of a statement that reads rows. -/
def stepSelect {α : Type} (ok : Bool) (read : Tables → Option α) (w : Sqlite) (h : Nat) :
    Option α × Sqlite :=
  (if ok then read (w.store h).view else none, w.touch h)

/-- The step of `CREATE TABLE IF NOT EXISTS`. -/
def stepCreate (ok : Bool) (name : TableName) (w : Sqlite) (h : Nat) : Sqlite :=
  let w := w.touch h
  if ok then
    let database := w.databases (w.databaseOf h)
    { w with
      databases := Function.update w.databases (w.databaseOf h)
        { database with present := Function.update database.present name true } }
  else w

/-- `sqlite3_prepare_v3`: whether a statement comes of it. -/
def prepares (ok : Bool) (n : StatementName) (w : Sqlite) (h : Nat) : Bool :=
  ok && (w.connections h).usable &&
    n.table.all (w.databases (w.databaseOf h)).present

/-- The database a path names for a new handle. -/
def databaseAt (h : Nat) (path : Bytes) : DatabaseId :=
  if path = bytes ":memory:" then .memory h else .file path

/-- How `sqlite3_open` ends: with a handle, with one that cannot be used, or without one. -/
inductive OpenOutcome where
  | opened | failed | noHandle
  deriving DecidableEq, Repr

def openDatabase (outcome : OpenOutcome) (path : Bytes) (w : Sqlite) : Option Nat × Sqlite :=
  match outcome with
  | .noHandle => (none, w)
  | _ =>
    let w := if path = bytes ":memory:" then
      { w with databases := Function.update w.databases (.memory w.next) {} } else w
    (some w.next, { w with
      connections := Function.update w.connections w.next
        { database := databaseAt w.next path, usable := decide (outcome = .opened) }
      next := w.next + 1 })

/-- `sqlite3_close` of a connection without statements: an open transaction is rolled back. -/
def close (w : Sqlite) (h : Nat) : Sqlite :=
  { w with
    connections := Function.update w.connections h
      { w.connections h with usable := false, transaction := none } }

end Sqlite

end HttpsTest
