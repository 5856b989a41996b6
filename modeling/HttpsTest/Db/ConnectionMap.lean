import Mathlib.Data.Finmap
import HttpsTest.Lib.Runs
import HttpsTest.Db.ClientMap

/-!
# The connections as a map

What the connection repository is for: a finite map from ids to a client and a time stamp.
`Tables.connectionMap` is the map of the table, `ConnectionMap.Allows` what an operation may return
and make of the map, and `Operation.Refines` says that a run does only that. The operations on
clients leave the map alone.
-/

set_option autoImplicit false

namespace HttpsTest

structure ConnectionEntry where
  clientId : Int
  connectionTimestamp : Int
  deriving DecidableEq

abbrev ConnectionMap := Finmap fun _ : Int => ConnectionEntry

namespace ConnectionMap

variable (m m' : ConnectionMap)

/-- The number of entries of a client. -/
def count (clientId : Int) : Nat := m.entries.countP fun e => e.2.clientId = clientId

/-- The entries of `m'` are those of `m` that are not named. -/
def Without (named : Int → ConnectionEntry → Prop) : Prop :=
  ∀ id e, m'.lookup id = some e ↔ m.lookup id = some e ∧ ¬ named id e

/-- What an operation may return, and what it may make of the map. The time stamp 0 is that of a
caller that gives none. -/
def Allows : Operation → Reply → Prop
  | .mutate (.addClientConnection clientId connectionTimestamp), reply =>
    ∃ id time, reply = .int id ∧ id.toInt ∉ m ∧
      (connectionTimestamp ≠ 0 → time = connectionTimestamp.toInt) ∧
      m' = m.insert id.toInt { clientId := clientId.toInt, connectionTimestamp := time }
  | .mutate (.removeConnection connectionId), reply =>
    reply = .bool true ∧ m.Without m' fun id _ => id = connectionId.toInt
  | .mutate (.removeClientConnections clientId), reply =>
    reply = .bool true ∧ m.Without m' fun _ e => e.clientId = clientId.toInt
  | .mutate .removeAllConnections, reply => reply = .bool true ∧ m' = ∅
  | .mutate (.addClient _), _ | .mutate (.removeClient _), _ | .mutate .removeAllClients, _
  | .mutate (.incrementConnectionCount _), _ | .mutate (.incrementEventCount _), _
  | .read _, _ => m' = m

end ConnectionMap

/-! ## The table -/

def ConnectionRow.entry (r : ConnectionRow) : ConnectionEntry where
  clientId := r.clientId
  connectionTimestamp := r.connectionTimestamp

namespace Tables

/-- The ids with their entries. -/
def connectionEntries (t : Tables) : List (Sigma fun _ : Int => ConnectionEntry) :=
  t.connections.map fun r => ⟨r.id, r.entry⟩

theorem connectionEntries_nodupKeys (t : Tables) : t.connectionEntries.NodupKeys := by
  rw [List.nodupKeys_iff_pairwise, connectionEntries, List.pairwise_map]
  exact t.connections_ids.imp fun hab => hab.ne

/-- The map of the table. -/
def connectionMap (t : Tables) : ConnectionMap where
  entries := t.connectionEntries
  nodupKeys := Multiset.coe_nodupKeys.2 t.connectionEntries_nodupKeys

end Tables

/-! ## Runs -/

namespace Operation

/-- The map of a connected object. -/
def connectionMap (h : Nat) (s : SqliteDatabase) : ConnectionMap :=
  (s.world.store h).committed.connectionMap

/-- An operation returns, and makes of the map, what it may. -/
def Conforms (h : Nat) (s : SqliteDatabase) (c : Operation × StepOutcomes) : Prop :=
  ∃ reply, (c.1.run c.2 s).1 = .ok reply ∧
    (connectionMap h s).Allows (connectionMap h (next s c)) c.1 reply

/-- Whatever client is asked for, the count that is returned is the number of its entries. -/
def Counts (h : Nat) (s : SqliteDatabase) : Prop :=
  ∀ clientId o, StepOutcomes.AsDefined o →
    ∃ n, ((Query.getClientConnectionCount clientId).run o s).1 = .int n ∧
      n.toInt = (connectionMap h s).count clientId.toInt

/-- Every operation of a run does what it may, and the counts are right in every state. -/
def Refines (h : Nat) (s : SqliteDatabase) (cs : List (Operation × StepOutcomes)) : Prop :=
  Runs.Meets next (Conforms h) s cs ∧ Runs.Always next (Counts h) s cs

end Operation

end HttpsTest
