import BatchStore.Store.Halves
import BatchStore.Store.Places
import BatchStore.Store.Sets

/-!
# Collections in two tables

A list, set, hash or sorted set stands in the table of values and is changed where it stands. What
grows is stored empty first if it is not there (`grow`); what shrinks goes out of both tables when
nothing is left in it (`shrink`). The commands differ in the kind of collection and in the change.
-/

namespace BatchStore

/-- How a kind of collection is told among values and made into one, and what it is when empty. -/
structure Holding (α : Type) where
  of? : Value → Option α
  make : α → Value
  empty : α

namespace Holding

def list : Holding (List Datum) := ⟨Value.list?, .list, []⟩

def set : Holding (List Datum) := ⟨Value.set?, .set, []⟩

def hash : Holding (Table Datum Datum) := ⟨Value.hash?, .hash, .empty⟩

def zset : Holding (Table Datum Datum) := ⟨Value.zset?, .zset, .empty⟩

end Holding

namespace Halves

variable {α : Type}

/-- Changes the collection at a key where it stands; a missing one is stored empty before. -/
def grow (k : Holding α) (now : Float) (key : Octets) (change : α → Datum × α) : Edit Datum :=
  lookUpKind now key k.of? fun old? db =>
    let db := if old?.isNone then db.store key (k.make k.empty) false else db
    let (reply, new) := change (old?.getD k.empty)
    (.ok reply, db.assign key (k.make new))

/-- Changes the collection at a key where it stands, and takes it out if nothing is left. -/
def shrink (k : Holding α) (now : Float) (key : Octets) (missing : Datum)
    (change : α → Except Halt (Datum × α)) : Edit Datum :=
  lookUpKind now key k.of? fun
    | none => answer (.ok missing)
    | some old => Store.given (change old) fun (reply, new) db =>
      (.ok reply, (db.assign key (k.make new)).dropIfEmpty key)

/-! ## Lists -/

/-- LPUSH and RPUSH key element … -/
def push (e : Lists.End) (now : Float) (key : Octets) (elements : List Octets) : Edit Datum :=
  grow .list now key fun old =>
    let new := Lists.push old e elements
    (.int new.length, new)

/-- LPOP and RPOP key: an empty list is left as it is. -/
def pop (e : Lists.End) (now : Float) (key : Octets) : Edit Datum :=
  lookUpKind now key Value.list? fun old? =>
    match Lists.pop? (old?.getD []) e with
    | none => answer (.ok .null)
    | some (element, new) => fun db =>
      (.ok element, (db.assign key (.list new)).dropIfEmpty key)

/-! ## Sets and hashes -/

/-- SADD key member … -/
def sadd (now : Float) (key : Octets) (members : List Octets) : Edit Datum :=
  grow .set now key fun old =>
    let new := Sets.insertAll old members
    (.int (new.length - old.length), new)

/-- SREM key member … -/
def srem (now : Float) (key : Octets) (members : List Octets) : Edit Datum :=
  shrink .set now key (.int 0) fun old =>
    let new := Sets.eraseAll old members
    .ok (.int (old.length - new.length), new)

/-- HSET key, with the fields and values in pairs. -/
def hset (now : Float) (key : Octets) (pairs : List (Octets × Octets)) : Edit Datum :=
  grow .hash now key fun old =>
    let new := Hashes.putFields old pairs
    (.int (new.size - old.size), new)

/-- HDEL key field … -/
def hdel (now : Float) (key : Octets) (fields : List Octets) : Edit Datum :=
  shrink .hash now key (.int 0) fun old =>
    let (new, n) := Hashes.removeAll old fields
    .ok (.int n, new)

/-! ## Sorted sets -/

/-- ZADD key, with the scores read. -/
def zadd (now : Float) (key : Octets) (pairs : List (Datum × Datum)) : Edit Datum :=
  grow .zset now key fun old =>
    let new := old.putAll pairs
    (.int (new.size - old.size), new)

/-- ZREM key member … -/
def zrem (now : Float) (key : Octets) (members : List Octets) : Edit Datum :=
  shrink .zset now key (.int 0) fun old =>
    let (new, n) := Hashes.removeAll old members
    .ok (.int n, new)

/-- ZPOPMIN and ZPOPMAX key count. -/
def zpop (e : SortedSets.Extreme) (now : Float) (key : Octets) (count : Int) : Edit Datum :=
  shrink .zset now key (.mapping []) fun old => do
    let popped ← SortedSets.extremes old e count
    return (.mapping popped, old.withoutEntries popped)

/-- GEOADD key, with the places read: a set that no place came into is taken out again. -/
def geoadd (now : Float) (key : Octets) (flags : Places.Flags) (places : List (Datum × Datum)) :
    Edit Datum :=
  Store.andThen
    (grow .zset now key fun old =>
      let (new, n) := flags.write old places
      (.int n, new))
    fun reply db => (.ok reply, db.dropIfEmpty key)

end Halves

end BatchStore
