import BatchStore.Datum.Same
import BatchStore.Table

/-!
# Stored values

A key holds a value of one of five kinds. Elements, fields and members are values of
any type: commands put octet strings and doubles there, and a restored payload puts
whatever it holds.
-/

namespace BatchStore

/-- What a key holds. -/
inductive Value where
  | string (w : Octets)
  | list (items : List Datum)
  | set (members : List Datum)
  | hash (fields : Table Datum Datum)
  | zset (scores : Table Datum Datum)
deriving DecidableEq

namespace Value

/-- The name of a value's kind. -/
def kindName : Value → String
  | string _ => "string"
  | list _ => "list"
  | set _ => "set"
  | hash _ => "hash"
  | zset _ => "zset"

/-- Whether there is nothing in the value. -/
def isEmpty : Value → Bool
  | string w => w.isEmpty
  | list xs => xs.isEmpty
  | set xs => xs.isEmpty
  | hash t => t.isEmpty
  | zset t => t.isEmpty

/-- The value as replies and payloads show it. -/
def toDatum : Value → Datum
  | string w => .octets w
  | list xs => .list xs
  | set xs => .set xs
  | hash t => .mapping t.entries
  | zset t => .mapping t.entries

/-! ## One kind at a time -/

def string? : Value → Option Octets
  | string w => some w
  | _ => none

def list? : Value → Option (List Datum)
  | list xs => some xs
  | _ => none

def set? : Value → Option (List Datum)
  | set xs => some xs
  | _ => none

def hash? : Value → Option (Table Datum Datum)
  | hash t => some t
  | _ => none

def zset? : Value → Option (Table Datum Datum)
  | zset t => some t
  | _ => none

end Value

end BatchStore
