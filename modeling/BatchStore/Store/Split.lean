import BatchStore.Store.Halves.Keys
import BatchStore.Store.Libraries
import BatchStore.Store.Scan
import BatchStore.Store.Server
import BatchStore.Store.Strings

/-!
# Stores of databases in two tables

A `Split` is a store as `Store` is one, but each of its databases is in two tables. A command on one
key is an edit of the selected database (`onSelected`). RENAME, MOVE and COPY write the tables of
one database or of two, key by key, by `edit`. What concerns no key is done on the `outline`, the
store without its keys.
-/

namespace BatchStore

/-- The databases, each in two tables, the selected one, and the function libraries. -/
structure Split where
  databases : List Halves
  selected : Nat := 0
  libraries : Table Datum Datum := .empty
deriving DecidableEq

namespace Split

variable {α : Type}

/-- A store with `n` empty databases. -/
def new (n : Int) : Except Failure Split :=
  if n ≤ 0 then .error (.fault (.breach .noDatabase))
  else .ok { databases := List.replicate n.toNat {} }

/-- The database with a number; one that is not there is empty. -/
def database (m : Split) (i : Nat) : Halves := m.databases.getD i {}

/-- Puts a database in its place. -/
def setDatabase (m : Split) (i : Nat) (db : Halves) : Split :=
  { m with databases := m.databases.set i db }

/-- Edits the tables of a database. -/
def edit (m : Split) (i : Nat) (f : Halves → Halves) : Split := m.setDatabase i (f (m.database i))

/-- The store without its keys. -/
def outline (m : Split) : Store :=
  { databases := m.databases.map fun _ => .empty, selected := m.selected, libraries := m.libraries }

/-- Does what concerns no key. -/
def onOutline (step : Step) : ActOn Split Datum := fun m =>
  let (reply, s) := step m.outline
  (reply, { m with selected := s.selected, libraries := s.libraries })

/-- Carries out an edit on the selected database. -/
def onSelected (p : Edit α) : ActOn Split α := fun m =>
  let (a, db) := p (m.database m.selected)
  (a, m.setDatabase m.selected db)

/-- Carries out an edit of one key on each of some keys in turn and gathers the replies. -/
def onEach (p : Octets → Edit Datum) : List Octets → ActOn Split (List Datum)
  | [] => fun m => (.ok [], m)
  | key :: keys =>
    Store.andThen (onSelected (p key)) fun reply =>
      Store.andThen (onEach p keys) fun replies m => (.ok (reply :: replies), m)

/-- Answers how many keys an edit counts. -/
def countKeys (p : Octets → Edit Datum) (keys : List Octets) : ActOn Split Datum :=
  Store.andThen (onEach p keys) fun replies m => (.ok (.int (total replies)), m)

/-- Answers the replies of an edit of each key. -/
def listKeys (p : Octets → Edit Datum) (keys : List Octets) : ActOn Split Datum :=
  Store.andThen (onEach p keys) fun replies m => (.ok (.list replies), m)

/-- Looks at a key of a database, which takes it out if it is expired, and goes on with its
value. -/
def lookUp (now : Float) (i : Nat) (key : Octets) (next : Option Value → ActOn Split α) :
    ActOn Split α := fun m =>
  let db := (m.database i).settle now key
  next (db.data.get? key) (m.setDatabase i db)

/-! ## Carrying over -/

/-- RENAME key newKey: the new key is stored without a deadline, and gets the one of the old. -/
def rename (now : Float) (key newKey : Octets) : ActOn Split Datum := fun m =>
  let i := m.selected
  lookUp now i key (fun
    | none => fun m => (refuse .noSuchKey, m)
    | some value => fun m =>
      let deadline? := (m.database i).expires.get? key
      let m := m.edit i (·.remove key)
      let m := m.edit i (·.store newKey value false)
      (.ok okReply, m.edit i (·.expireAt newKey deadline?))) m

/-- Moves a key of a database to another database, unless that holds the key. -/
def moveTo (now : Float) (key : Octets) (target i : Nat) : ActOn Split Datum :=
  if target = i then fun m => (refuse .sameObject, m)
  else lookUp now i key fun
    | none => fun m => (.ok (.bool false), m)
    | some value => lookUp now target key fun taken? m =>
      if taken?.isSome then (.ok (.bool false), m)
      else
        let m := m.edit target (·.assign key value)
        let m := m.edit target (·.expireAt key ((m.database i).expires.get? key))
        (.ok (.bool true), m.edit i (·.remove key))

/-- MOVE key index. -/
def move (now : Float) (key index : Octets) : ActOn Split Datum := fun m =>
  Store.given ((readInt index).bind m.outline.index?)
    (fun target m => moveTo now key target m.selected m) m

/-- Copies a key of a database as planned; what is in the way is removed before. -/
def runCopy (plan : Keys.CopyPlan) (now : Float) (source destination : Octets) (i : Nat) :
    ActOn Split Datum :=
  if plan.target = i ∧ source = destination then fun m => (refuse .sameObject, m)
  else lookUp now i source fun
    | none => fun m => (.ok (.bool false), m)
    | some value => lookUp now plan.target destination fun taken? m =>
      if taken?.isSome && !plan.replace then (.ok (.bool false), m)
      else
        let m := if taken?.isSome then m.edit plan.target (·.remove destination) else m
        let m := m.edit plan.target (·.assign destination value)
        (.ok (.bool true),
          m.edit plan.target (·.expireAt destination ((m.database i).expires.get? source)))

/-- COPY source destination options. -/
def copy (now : Float) (source destination : Octets) (options : List Octets) :
    ActOn Split Datum := fun m =>
  Store.given (Keys.CopyPlan.read m.outline { target := m.selected } options)
    (fun plan m => runCopy plan now source destination m.selected m) m

/-! ## Many keys at once -/

/-- Stores strings to keys of the selected database one after another; no key is looked at. -/
def writeAll (pairs : List (Octets × Octets)) (m : Split) : Split :=
  pairs.foldl (fun m e => m.edit m.selected (·.store e.1 (.string e.2) false)) m

/-- MSET key value key value … -/
def mset (words : List Octets) : ActOn Split Datum :=
  match pairUp words with
  | none => fun m => (refuse (.wrongArity .mset), m)
  | some pairs => fun m => (.ok okReply, writeAll pairs m)

/-- DBSIZE looks at every key of the selected database. -/
def dbsize (now : Float) : ActOn Split Datum := onSelected fun db =>
  let (keys, db) := db.liveKeys now
  (.ok (.int keys.length), db)

/-- FLUSHDB empties both tables of the selected database. -/
def flushdb : ActOn Split Datum := onSelected fun _ => (.ok okReply, {})

/-- SCAN cursor options: every key of the selected database is looked at. -/
def scan (now : Float) (cursor : Octets) (options : List Octets) : ActOn Split Datum :=
  match Number.int? cursor with
  | none => fun m => (refuse .invalidCursor, m)
  | some cursor =>
    Store.given (Scan.Plan.read { cursor } options) fun plan => onSelected fun db =>
      let (_, db) := db.liveKeys now
      (plan.reply Octets.fitsGlob db.merged, db)

/-- The line of INFO on a database whose keys were looked at: how many of them are there, and how
long the table of deadlines is. -/
def infoLine (i : Nat) (seen : List Octets × Halves) : List String :=
  Server.countsLine i seen.1.length seen.2.expires.size

/-- INFO looks at every key of every database. -/
def info (now : Float) : ActOn Split Datum := fun m =>
  let seen := m.databases.map (·.liveKeys now)
  let lines := seen.zipIdx.flatMap fun e => infoLine e.2 e.1
  (.ok (.octets (Octets.ofText (Server.textOfLines lines))),
    { m with databases := seen.map (·.2) })

end Split

end BatchStore
