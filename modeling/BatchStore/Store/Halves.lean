import BatchStore.Store.Keyspace

/-!
# A database in two tables

A database is kept in two tables: one gives each key its value, the other gives those keys that are
to end the moment at which they do. The tables are written apart. That a key with a deadline has a
value, and that no value comes under the deadline of one before it, is up to whoever writes them.

What is done to such a database is an `Edit`. `lookUp` looks at a key and takes it out of both
tables if it is expired, `store` writes a value and takes the deadline away unless that is to
stay, `assign` puts a value in the place of another, as a change to a list or a set does, and
`remove` takes a key out of both tables.

A `Database` has the two tables in one. That an edit does to the two what a command does to the one
is shown of each command.
-/

namespace BatchStore

/-- The two tables of a database: the keys with their values, and with their deadlines. -/
structure Halves where
  data : Table Octets Value := .empty
  expires : Table Octets Float := .empty
deriving DecidableEq

/-- What is done to a database in two tables, with what comes of it. -/
abbrev Edit (α : Type) := ActOn Halves α

namespace Halves

variable {α β : Type}

/-! ## Tables -/

/-- What the two tables say of a key. -/
def held? (db : Halves) (key : Octets) : Option Entry :=
  (db.data.get? key).map fun value => { value, deadline? := db.expires.get? key }

/-- The two tables in one, in the order of the values. -/
def merged (db : Halves) : Database :=
  ⟨db.data.entries.map fun e => (e.1, { value := e.2, deadline? := db.expires.get? e.1 })⟩

/-- Takes a key out of both tables. -/
def remove (db : Halves) (key : Octets) : Halves :=
  { data := db.data.erase key, expires := db.expires.erase key }

/-- Puts a value to a key; a deadline stays. -/
def assign (db : Halves) (key : Octets) (value : Value) : Halves :=
  { db with data := db.data.put key value }

/-- Takes the deadline of a key away. -/
def persist (db : Halves) (key : Octets) : Halves := { db with expires := db.expires.erase key }

/-- Puts a value to a key and takes the deadline away, unless it is to stay. -/
def store (db : Halves) (key : Octets) (value : Value) (keepDeadline : Bool) : Halves :=
  if keepDeadline then db.assign key value else (db.assign key value).persist key

/-- Gives a key a deadline, if there is one to give. -/
def expireAt (db : Halves) (key : Octets) : Option Float → Halves
  | some t => { db with expires := db.expires.put key t }
  | none => db

/-- Takes a key out that has no value or an empty one. -/
def dropIfEmpty (db : Halves) (key : Octets) : Halves :=
  if (db.data.get? key).all Value.isEmpty then db.remove key else db

/-- Takes a key out of both tables if its deadline has come. -/
def settle (db : Halves) (now : Float) (key : Octets) : Halves :=
  match db.expires.get? key with
  | some t => if t ≤ now then db.remove key else db
  | none => db

/-- Looks at some keys in turn, and gathers those that are there. -/
def gather (now : Float) : List Octets → Halves → List Octets × Halves
  | [], db => ([], db)
  | key :: keys, db =>
    let db := db.settle now key
    let (others, after) := gather now keys db
    (if db.data.contains key then key :: others else others, after)

/-- Looks at all keys, and gathers those that are there. -/
def liveKeys (now : Float) (db : Halves) : List Octets × Halves := gather now db.data.keys db

/-! ## Edits -/

/-- Answers and leaves the tables alone. -/
def answer (reply : Except Halt α) : Edit α := fun db => (reply, db)

/-- Looks at a key, which takes it out if it is expired, and goes on with its value. -/
def lookUp (now : Float) (key : Octets) (next : Option Value → Edit α) : Edit α := fun db =>
  let db := db.settle now key
  next (db.data.get? key) db

/-- A value that is seen, without a deadline. -/
def bare (value? : Option Value) : Option Entry := value?.map fun value => { value }

/-- Looks at a key whose value must be of one kind, if it is there. -/
def lookUpKind (now : Float) (key : Octets) (kind? : Value → Option α)
    (next : Option α → Edit β) : Edit β :=
  lookUp now key fun value? => Store.given (expect kind? (bare value?)) next

/-- Answers from what the tables say of a key; nothing is written. -/
def read (now : Float) (key : Octets) (step : KeyStep) : Edit Datum :=
  lookUp now key fun _ db => Store.given (step (db.held? key)) (fun a => answer (.ok a.1)) db

end Halves

end BatchStore
