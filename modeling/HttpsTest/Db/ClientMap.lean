import Mathlib.Data.Finmap
import Mathlib.Data.Finset.Max
import Mathlib.Algebra.Order.Ring.Int
import HttpsTest.Db.SqliteDatabase

/-!
# The clients as a map

What the client repository is for: a finite map from ids to an address and two counters. `next` is
what each operation makes of the map and `Answers` what it may return, both in integers without a
bound. The operations on connections leave the map alone, and nothing is said of what they return.
-/

set_option autoImplicit false

namespace HttpsTest

structure ClientEntry where
  ip : Int32
  connectionCount : Nat := 0
  eventCount : Nat := 0

abbrev ClientMap := Finmap fun _ : Int => ClientEntry

/-- What an operation returns, in integers. -/
inductive Returned where
  | int (n : Int)
  | bool (b : Bool)
  | client (r : ClientRow)
  | clients (rs : List ClientRow)

/-- The record of an entry. -/
def ClientEntry.record (e : ClientEntry) (id : Int) : ClientRow where
  id
  ip := e.ip.toInt
  connectionCount := e.connectionCount
  eventCount := e.eventCount

namespace ClientMap

variable (m : ClientMap)

/-- The record is that of an entry. -/
def Has (r : ClientRow) : Prop := ∃ id e, m.lookup id = some e ∧ e.record id = r

def HasIp (ip : Int32) : Prop := ∃ id e, m.lookup id = some e ∧ e.ip = ip

/-- One more than the largest id, 1 where there is none. -/
def nextId : Int := (m.keys.max.map (· + 1)).unbotD 1

/-- The entry of an id is changed, if there is one. -/
def update (id : Int) (f : ClientEntry → ClientEntry) : ClientMap :=
  match m.lookup id with
  | some e => m.insert id (f e)
  | none => m

open Classical in
/-- The map after an operation. -/
noncomputable def next : Operation → ClientMap
  | .mutate (.addClient ip) => if m.HasIp ip then m else m.insert m.nextId { ip }
  | .mutate (.removeClient id) => m.erase id.toInt
  | .mutate .removeAllClients => ∅
  | .mutate (.incrementConnectionCount id) =>
    m.update id.toInt fun e => { e with connectionCount := e.connectionCount + 1 }
  | .mutate (.incrementEventCount id) =>
    m.update id.toInt fun e => { e with eventCount := e.eventCount + 1 }
  | .mutate (.addClientConnection ..) | .mutate (.removeConnection _)
  | .mutate (.removeClientConnections _) | .mutate .removeAllConnections | .read _ => m

/-- What an operation may return. -/
def Answers : Operation → Returned → Prop
  | .mutate (.addClient ip), a =>
    m.HasIp ip ∧ a = .int (-1) ∨ ¬ m.HasIp ip ∧ a = .int m.nextId
  | .mutate (.removeClient _), a | .mutate .removeAllClients, a
  | .mutate (.incrementConnectionCount _), a | .mutate (.incrementEventCount _), a => a = .bool true
  | .read (.getClientById id), a =>
    (∀ e, m.lookup id.toInt = some e → a = .client (e.record id.toInt)) ∧
      (a = .client { id := 0, ip := 0 } ↔ id.toInt ∉ m)
  | .read (.getClientByIp ip), a =>
    (∀ id e, m.lookup id = some e → e.ip = ip → a = .client (e.record id)) ∧
      (a = .client { id := 0, ip := 0 } ↔ ¬ m.HasIp ip)
  | .read (.getClientIdByIp ip), a =>
    (∀ id e, m.lookup id = some e → e.ip = ip → a = .int id) ∧ (a = .int (-1) ↔ ¬ m.HasIp ip)
  | .read (.getClientIpById id), a =>
    (∀ e, m.lookup id.toInt = some e → a = .int e.ip.toInt) ∧ (id.toInt ∉ m → a = .int (-1))
  | .read .getClientCount, a => a = .int m.keys.card
  | .read .getAllClients, a =>
    ∃ rs, a = .clients rs ∧ Ascending ClientRow.id rs ∧ ∀ r, r ∈ rs ↔ m.Has r
  | .mutate (.addClientConnection ..), _ | .mutate (.removeConnection _), _
  | .mutate (.removeClientConnections _), _ | .mutate .removeAllConnections, _
  | .read (.getClientConnectionCount _), _ => True

/-- The ids and the counters are below `2 ^ 31`. -/
def Small : Prop := ∀ id e, m.lookup id = some e →
  id < 2 ^ 31 ∧ e.connectionCount < 2 ^ 31 ∧ e.eventCount < 2 ^ 31

end ClientMap

/-! ## The object and the map -/

def Client.value (c : Client) : ClientRow where
  id := c.id.toInt
  ip := c.ip.toInt
  connectionCount := c.connectionCount.toInt
  eventCount := c.eventCount.toInt

/-- The integers that are returned. -/
def Reply.value : Reply → Returned
  | int n => .int n.toInt
  | bool b => .bool b
  | client c => .client c.value
  | clients cs => .clients (cs.map Client.value)

/-- The engine does what SQL says. -/
def StepOutcomes.AsDefined (o : StepOutcomes) : Prop :=
  o.begin = true ∧ o.statement = true ∧ o.commit = true ∧ o.rollback = true

instance (o : StepOutcomes) : Decidable o.AsDefined := inferInstanceAs (Decidable (_ ∧ _))

/-- An object, and the map its user has in mind. -/
structure MappedClients where
  object : SqliteDatabase
  map : ClientMap := ∅

namespace MappedClients

noncomputable def next (s : MappedClients) (c : Operation × StepOutcomes) : MappedClients where
  object := Operation.next s.object c
  map := s.map.next c.1

/-- Whatever operation comes next, it returns what the map says. -/
def Agrees (s : MappedClients) : Prop :=
  ∀ op o, StepOutcomes.AsDefined o → s.map.Small → (s.map.next op).Small →
    ∃ reply, (op.run o s.object).1 = .ok reply ∧ s.map.Answers op reply.value

end MappedClients

end HttpsTest
