import Mathlib.Data.List.Nodup
import Mathlib.Data.List.Sort

/-!
# The tables

The tables `client` and `ClientConnection` and the statements of `sql_queries.hpp` on them. A table
is the list of its rows in the order of their ids; its keys are part of the structure. A row that is
inserted gets the largest id plus one. `fk` says whether the connection enforces foreign keys.

The column `created_at` and the table `Event` are left out: no statement reads or writes them.
-/

set_option autoImplicit false

namespace HttpsTest

/-! ## Rows in the order of their ids -/

section
variable {ρ : Type}

/-- The ids of the rows ascend. -/
def Ascending (id : ρ → Int) (rows : List ρ) : Prop := rows.Pairwise fun a b => id a < id b

instance (id : ρ → Int) (rows : List ρ) : Decidable (Ascending id rows) :=
  inferInstanceAs (Decidable (List.Pairwise _ _))

/-- The id of the next row: 1, or one more than that of the last row. -/
def newRowid (id : ρ → Int) (rows : List ρ) : Int :=
  match rows.getLast? with
  | none => 1
  | some r => id r + 1

variable {id : ρ → Int} {rows : List ρ}

theorem Ascending.lt_newRowid (h : Ascending id rows) {r : ρ} (hr : r ∈ rows) :
    id r < newRowid id rows := by
  unfold newRowid
  rcases List.eq_nil_or_concat rows with rfl | ⟨front, last, rfl⟩
  · cases hr
  · rw [List.concat_eq_append] at h hr ⊢
    rw [List.getLast?_concat]
    simp only
    rcases List.mem_append.1 hr with hr | hr
    · have := (List.pairwise_append.1 h).2.2 r hr last (List.mem_singleton.2 rfl)
      omega
    · rw [List.mem_singleton.1 hr]
      omega

theorem Ascending.append (h : Ascending id rows) {r : ρ} (hr : id r = newRowid id rows) :
    Ascending id (rows ++ [r]) :=
  List.pairwise_append.2 ⟨h, List.pairwise_singleton _ _, fun a ha b hb => by
    rw [List.mem_singleton.1 hb, hr]
    exact h.lt_newRowid ha⟩

theorem Ascending.filter (h : Ascending id rows) (p : ρ → Bool) : Ascending id (rows.filter p) :=
  List.Pairwise.filter p h

/-- Changing rows keeps the order of their ids. -/
theorem Ascending.map (h : Ascending id rows) {f : ρ → ρ} (hf : ∀ r, id (f r) = id r) :
    Ascending id (rows.map f) :=
  List.pairwise_map.2 (h.imp fun hab => by rwa [hf, hf])

end

/-! ## The tables -/

structure ClientRow where
  id : Int
  ip : Int
  connectionCount : Int := 0
  eventCount : Int := 0
  deriving DecidableEq, Repr

structure ConnectionRow where
  id : Int
  clientId : Int
  connectionTimestamp : Int
  deriving DecidableEq, Repr

@[ext]
structure Tables where
  clients : List ClientRow := []
  connections : List ConnectionRow := []
  /-- `id INTEGER PRIMARY KEY` -/
  clients_ids : Ascending ClientRow.id clients := by exact List.Pairwise.nil
  /-- `ip INTEGER NOT NULL UNIQUE` -/
  clients_ips : (clients.map ClientRow.ip).Nodup := by exact List.nodup_nil
  connections_ids : Ascending ConnectionRow.id connections := by exact List.Pairwise.nil

namespace Tables

/-- No rows. -/
def empty : Tables := {}

instance : DecidableEq Tables := fun s t =>
  decidable_of_iff (s.clients = t.clients ∧ s.connections = t.connections)
    ⟨fun h => Tables.ext h.1 h.2, fun h => h ▸ ⟨rfl, rfl⟩⟩

/-- `INSERT INTO client (ip) VALUES (?)`, with the new id. -/
def insertClient (ip : Int) (t : Tables) : Option (Tables × Int) :=
  if h : ip ∈ t.clients.map ClientRow.ip then none
  else
    let row : ClientRow := { id := newRowid ClientRow.id t.clients, ip }
    some ({ t with
      clients := t.clients ++ [row]
      clients_ids := t.clients_ids.append rfl
      clients_ips := by
        rw [List.map_append, List.map_singleton, ← List.concat_eq_append]
        exact t.clients_ips.concat h }, row.id)

/-- Rows whose client is gone, where foreign keys are enforced. -/
def cascade (fk : Bool) (t : Tables) (keep : Int → Bool) : List ConnectionRow :=
  if fk then t.connections.filter fun r => keep r.clientId else t.connections

theorem cascade_ids (fk : Bool) (t : Tables) (keep : Int → Bool) :
    Ascending ConnectionRow.id (t.cascade fk keep) := by
  unfold cascade
  split
  · exact t.connections_ids.filter _
  · exact t.connections_ids

/-- `DELETE FROM client` for the clients that are not kept. -/
def deleteClients (fk : Bool) (keep : Int → Bool) (t : Tables) : Tables where
  clients := t.clients.filter fun r => keep r.id
  connections := t.cascade fk keep
  clients_ids := t.clients_ids.filter _
  clients_ips := t.clients_ips.sublist (List.filter_sublist.map _)
  connections_ids := t.cascade_ids fk keep

/-- `DELETE FROM client WHERE id = ?` -/
def removeClientById (fk : Bool) (id : Int) (t : Tables) : Tables := t.deleteClients fk (· != id)

/-- `DELETE FROM client` -/
def removeAllClients (fk : Bool) (t : Tables) : Tables := t.deleteClients fk fun _ => false

/-- `UPDATE client SET … WHERE id = ?` of a column that is no key. -/
def updateClient (id : Int) (set : ClientRow → ClientRow) (hid : ∀ r, (set r).id = r.id)
    (hip : ∀ r, (set r).ip = r.ip) (t : Tables) : Tables where
  clients := t.clients.map fun r => if r.id = id then set r else r
  connections := t.connections
  clients_ids := t.clients_ids.map fun r => by
    split
    · exact hid r
    · rfl
  clients_ips := by
    have hcomp : (ClientRow.ip ∘ fun r => if r.id = id then set r else r) = ClientRow.ip := by
      funext r
      simp only [Function.comp]
      split
      · exact hip r
      · rfl
    rw [List.map_map, hcomp]
    exact t.clients_ips
  connections_ids := t.connections_ids

def incrementClientConnectionCount (id : Int) : Tables → Tables :=
  updateClient id (fun r => { r with connectionCount := r.connectionCount + 1 }) (fun _ => rfl)
    fun _ => rfl

def incrementClientEventCount (id : Int) : Tables → Tables :=
  updateClient id (fun r => { r with eventCount := r.eventCount + 1 }) (fun _ => rfl) fun _ => rfl

/-- `INSERT INTO ClientConnection (client_id) VALUES (?)` at the time `now`, with the new id. -/
def insertClientConnection (fk : Bool) (clientId now : Int) (t : Tables) : Option (Tables × Int) :=
  if fk = true ∧ clientId ∉ t.clients.map ClientRow.id then none
  else
    let row : ConnectionRow :=
      { id := newRowid ConnectionRow.id t.connections, clientId, connectionTimestamp := now }
    some ({ t with
      connections := t.connections ++ [row]
      connections_ids := t.connections_ids.append rfl }, row.id)

/-- `DELETE FROM ClientConnection` for the rows that are not kept. -/
def deleteConnections (keep : ConnectionRow → Bool) (t : Tables) : Tables :=
  { t with
    connections := t.connections.filter keep
    connections_ids := t.connections_ids.filter _ }

/-- `DELETE FROM ClientConnection WHERE id = ?` -/
def removeConnectionById (id : Int) : Tables → Tables := deleteConnections fun r => r.id != id

/-- `DELETE FROM ClientConnection WHERE client_id = ?` -/
def removeClientConnections (clientId : Int) : Tables → Tables :=
  deleteConnections fun r => r.clientId != clientId

/-- `DELETE FROM ClientConnection` -/
def removeAllConnections : Tables → Tables := deleteConnections fun _ => false

/-- `SELECT COUNT(*) FROM ClientConnection WHERE client_id = ?` -/
def clientConnectionCount (clientId : Int) (t : Tables) : Nat :=
  t.connections.countP fun r => r.clientId == clientId

end Tables

end HttpsTest
