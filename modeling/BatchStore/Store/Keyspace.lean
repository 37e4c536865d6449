import BatchStore.Store.Value
import BatchStore.Failure

/-!
# Databases and keys

A store has a row of databases, one of them selected, and a table of function
libraries. A database gives each key a value and perhaps a deadline. A key whose
deadline has come is not there any more, but stays in the table until something looks
it up: `live?` is what a command sees, and `settle` takes an expired key out.

What is done to a store is an `Act`: it leaves a store and perhaps a result. Acts are put
together by `andThen`, which ends where the first fails; `lookUp` is the act that looks at a
key.

A command that concerns one key is a `KeyStep`: a function from what it sees at the
key to a reply and what the key holds afterwards. A step that fails leaves the key as
it was. `Store.onKey` carries it out.
-/

namespace BatchStore

/-- A value with the moment at which it ends, in seconds. -/
structure Entry where
  value : Value
  deadline? : Option Float := none
deriving DecidableEq

namespace Entry

/-- Whether the deadline has come. -/
def isExpired (now : Float) (e : Entry) : Bool :=
  match e.deadline? with
  | some t => t ≤ now
  | none => false

/-- A value written where `old?` was, with the old deadline. -/
def replace (old? : Option Entry) (value : Value) : Entry :=
  { value, deadline? := old?.bind (·.deadline?) }

/-- The same, but nothing in place of an empty value. -/
def replaceUnlessEmpty (old? : Option Entry) (value : Value) : Option Entry :=
  if value.isEmpty then none else some (replace old? value)

end Entry

/-- Keys with their values and deadlines. -/
abbrev Database := Table Octets Entry

namespace Database

/-- What a command sees at a key. -/
def live? (db : Database) (now : Float) (key : Octets) : Option Entry :=
  (db.get? key).filter fun e => !e.isExpired now

/-- Takes the key out if it is expired. -/
def settle (db : Database) (now : Float) (key : Octets) : Database :=
  match db.get? key with
  | some e => if e.isExpired now then db.erase key else db
  | none => db

/-- Takes every expired key out. -/
def settleAll (db : Database) (now : Float) : Database :=
  db.filter fun _ e => !e.isExpired now

/-- A key that is taken out was not visible. -/
theorem live?_settle (db : Database) (now : Float) (key k : Octets) :
    (db.settle now key).live? now k = db.live? now k := by
  simp only [settle]
  split
  · rename_i e hEntry
    split
    · rename_i hExpired
      simp only [live?, Table.get?_erase]
      by_cases hk : k = key
      · subst hk
        simp [hEntry, Option.filter_some, hExpired]
      · simp [hk]
    · rfl
  · rfl

end Database

/-- The databases, the selected one, and the function libraries. -/
structure Store where
  databases : List Database
  selected : Nat := 0
  libraries : Table Datum Datum := .empty
deriving DecidableEq

/-- Why a command has no reply: the store refuses it, or it breaks down. -/
inductive Halt where
  | refused (r : Refusal)
  | faulted (f : Fault)
deriving DecidableEq

/-- What a command answers. -/
abbrev Reply := Except Halt Datum

/-- What is done to a state of some kind, with what comes of it. -/
abbrev ActOn (σ α : Type) := σ → Except Halt α × σ

/-- What is done to a store. -/
abbrev Act (α : Type) := ActOn Store α

/-- What a command does to a store. -/
abbrev Step := Act Datum

/-- What a command does to a key. -/
abbrev KeyStep := Option Entry → Except Halt (Datum × Option Entry)

/-- A refusal in place of a result. -/
def refuse {α : Type} (r : Refusal) : Except Halt α := .error (.refused r)

/-- A fault in place of a result. -/
def breakDown {α : Type} (f : Fault) : Except Halt α := .error (.faulted f)

/-- The reply of commands that have nothing to say. -/
def okReply : Datum := .text "OK"

namespace Store

/-- A store with `n` empty databases. -/
def new (n : Int) : Except Failure Store :=
  if n ≤ 0 then .error (.fault (.breach .noDatabase))
  else .ok { databases := List.replicate n.toNat .empty }

/-- The database with a number; one that is not there is empty. -/
def database (s : Store) (i : Nat) : Database := s.databases.getD i .empty

/-- Puts a database in its place. -/
def setDatabase (s : Store) (i : Nat) (db : Database) : Store :=
  { s with databases := s.databases.set i db }

/-- The number of a database that is there. -/
def index? (s : Store) (i : Int) : Except Halt Nat :=
  if 0 ≤ i ∧ i < s.databases.length then .ok i.toNat else refuse .databaseOutOfRange

/-- What a key of a database holds, expired or not. -/
def held? (s : Store) (i : Nat) (key : Octets) : Option Entry := (s.database i).get? key

/-- What a command sees at a key of a database. -/
def live? (s : Store) (now : Float) (i : Nat) (key : Octets) : Option Entry :=
  (s.database i).live? now key

/-- Takes a key of a database out if it is expired. -/
def settle (s : Store) (now : Float) (i : Nat) (key : Octets) : Store :=
  s.setDatabase i ((s.database i).settle now key)

/-- Takes all expired keys of a database out. -/
def settleAll (s : Store) (now : Float) (i : Nat) : Store :=
  s.setDatabase i ((s.database i).settleAll now)

/-- Takes all expired keys of all databases out. -/
def sweep (s : Store) (now : Float) : Store :=
  { s with databases := s.databases.map (·.settleAll now) }

/-- Writes a key of a database, or takes it out. -/
def setEntry (s : Store) (i : Nat) (key : Octets) (e? : Option Entry) : Store :=
  s.setDatabase i ((s.database i).set key e?)

/-! ## Acts -/

/-- Goes on with what comes of an act, or ends with its failure. -/
def andThen {σ α β : Type} (first : ActOn σ α) (next : α → ActOn σ β) : ActOn σ β := fun s =>
  match first s with
  | (.error h, s) => (.error h, s)
  | (.ok a, s) => next a s

/-- Goes on with a result, or ends with the failure in its place. -/
def given {σ α β : Type} (x : Except Halt α) (next : α → ActOn σ β) : ActOn σ β :=
  andThen (fun s => (x, s)) next

/-- Goes on with the number of the selected database. -/
def withSelected {α : Type} (next : Nat → Act α) : Act α := fun s => next s.selected s

/-- Goes on with the libraries. -/
def withLibraries {α : Type} (next : Table Datum Datum → Act α) : Act α := fun s =>
  next s.libraries s

/-- Looks at a key of a database, which takes it out if it is expired, and goes on with what
was seen. -/
def lookUp {α : Type} (now : Float) (i : Nat) (key : Octets) (next : Option Entry → Act α) :
    Act α := fun s =>
  next (s.live? now i key) (s.settle now i key)

/-- Carries out a step on a key of a database. -/
def onKeyIn (now : Float) (i : Nat) (key : Octets) (step : KeyStep) : Step :=
  lookUp now i key fun seen =>
    given (step seen) fun (reply, e?) s => (.ok reply, s.setEntry i key e?)

/-- Carries out a step on a key of the selected database. -/
def onKey (now : Float) (key : Octets) (step : KeyStep) : Step :=
  withSelected fun i => onKeyIn now i key step

/-- Carries out a step on each of some keys in turn and gathers the replies, up to the
first failure. -/
def onEach (now : Float) (step : KeyStep) : List Octets → Act (List Datum)
  | [] => fun s => (.ok [], s)
  | key :: keys =>
    andThen (onKey now key step) fun reply =>
      andThen (onEach now step keys) fun replies s => (.ok (reply :: replies), s)

end Store

/-! ## Parts of steps -/

/-- A reply that leaves the key as it was. -/
def keep (seen : Option Entry) (reply : Datum) : Except Halt (Datum × Option Entry) :=
  .ok (reply, seen)

/-- The value at a key, which must be of one kind if the key is there. -/
def expect {α : Type} (kind? : Value → Option α) (seen : Option Entry) :
    Except Halt (Option α) :=
  match seen with
  | none => .ok none
  | some e =>
    match kind? e.value with
    | some a => .ok (some a)
    | none => refuse .wrongType

/-- The sum of replies that are numbers. -/
def total : List Datum → Int
  | [] => 0
  | .int n :: rest => n + total rest
  | _ :: rest => total rest

end BatchStore
