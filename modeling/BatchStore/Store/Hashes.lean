import BatchStore.Store.Words

/-!
# Hashes

A hash maps fields to values and keeps the order in which the fields came. A hash that
loses its last field is gone.
-/

namespace BatchStore.Hashes

/-- Writes fields one after another. -/
def putFields (fields : Table Datum Datum) (pairs : List (Octets × Octets)) : Table Datum Datum :=
  fields.putAll (pairs.map fun e => (.octets e.1, .octets e.2))

/-- Sets fields and answers how many of them are new. -/
def hsetStep (pairs : List (Octets × Octets)) : KeyStep := fun seen => do
  let old := (← expect Value.hash? seen).getD .empty
  let new := putFields old pairs
  return (.int (new.size - old.size), some (.replace seen (.hash new)))

/-- HSET key field value … -/
def hset (now : Float) (key : Octets) (words : List Octets) : Step :=
  match pairUp words with
  | none => fun s => (refuse (.wrongArity .hset), s)
  | some pairs => Store.onKey now key (hsetStep pairs)

/-- HGET key field. -/
def hget (field : Octets) : KeyStep := fun seen => do
  let fields := (← expect Value.hash? seen).getD .empty
  keep seen ((fields.get? (.octets field)).getD .null)

/-- Takes keys out of a table in turn and counts those that held something. -/
def removeAll (t : Table Datum Datum) : List Octets → Table Datum Datum × Nat
  | [] => (t, 0)
  | key :: rest =>
    let held := (t.get? (.octets key)).any (· != .null)
    let (t, n) := removeAll (t.erase (.octets key)) rest
    (t, if held then n + 1 else n)

/-- HDEL key field …: answers how many fields were there. -/
def hdel (fields : List Octets) : KeyStep := fun seen => do
  match ← expect Value.hash? seen with
  | none => keep seen (.int 0)
  | some old =>
    let (new, n) := removeAll old fields
    return (.int n, Entry.replaceUnlessEmpty seen (.hash new))

/-- HGETALL key. -/
def hgetall : KeyStep := fun seen => do
  let fields := (← expect Value.hash? seen).getD .empty
  keep seen (.mapping fields.entries)

/-- HEXISTS key field. -/
def hexists (field : Octets) : KeyStep := fun seen => do
  let fields := (← expect Value.hash? seen).getD .empty
  keep seen (.bool (fields.contains (.octets field)))

/-- HLEN key. -/
def hlen : KeyStep := fun seen => do
  let fields := (← expect Value.hash? seen).getD .empty
  keep seen (.int fields.size)

end BatchStore.Hashes
