import BatchStore.Octets.Glob.Match
import BatchStore.Store.Words
import BatchStore.Window

/-!
# Scanning the keys of a database

SCAN goes through the keys of the selected database in the order of their octets, a
window at a time. The cursor is the place of the window; the filters are applied to the
keys in the window, so they do not change where it ends. What it is for a key to fit a pattern
is left to a matcher; `scan` is the one with the matcher of patterns with wildcards.
-/

namespace BatchStore.Scan

/-- What a scan asks for. -/
structure Plan where
  cursor : Int
  pattern? : Option Octets := none
  count : Int := 10
  kind? : Option String := none

/-- Reads the options of SCAN. -/
def Plan.read (plan : Plan) : List Octets → Except Halt Plan
  | [] => .ok plan
  | [_] => refuse .syntaxError
  | w :: v :: rest =>
    match Keyword.ofOctets? w with
    | some .pattern => Plan.read { plan with pattern? := some v } rest
    | some .count => do
      let count ← readInt v
      if count ≤ 0 then refuse .syntaxError else Plan.read { plan with count } rest
    | some .type => do
      let kind ← readText v
      Plan.read { plan with kind? := some kind.toLower } rest
    | _ => refuse .syntaxError

/-- The keys of a database in the order of their octets. -/
def sortedKeys (db : Database) : List Octets :=
  db.keys.mergeSort fun a b => !decide (b < a)

/-- Whether a key passes the filters. -/
def Plan.admits (plan : Plan) (fits : Octets → Octets → Bool) (db : Database) (key : Octets) :
    Bool :=
  (plan.pattern?.all fun p => fits key p)
    && (plan.kind?.all fun kind => (db.get? key).any fun e => e.value.kindName == kind)

/-- The cursor for the next window; zero at the end. -/
def Plan.nextCursor (plan : Plan) (size : Nat) : Int :=
  if plan.cursor + plan.count < size then plan.cursor + plan.count else 0

/-- The keys of the window that pass the filters. -/
def Plan.keys (plan : Plan) (fits : Octets → Octets → Bool) (db : Database) : List Octets :=
  (window (sortedKeys db) plan.cursor (plan.cursor + plan.count)).filter (plan.admits fits db)

/-- The reply of a scan of a database without expired keys. -/
def Plan.reply (plan : Plan) (fits : Octets → Octets → Bool) (db : Database) : Reply :=
  match Number.intText? (plan.nextCursor db.size) with
  | none => breakDown .tooManyDigits
  | some cursor =>
    .ok (.list [.octets (Octets.ofText cursor), .list ((plan.keys fits db).map .octets)])

/-- Scans the selected database from a cursor, with a matcher of patterns. -/
def scanBy (fits : Octets → Octets → Bool) (now : Float) (cursor : Octets)
    (options : List Octets) : Step :=
  match Number.int? cursor with
  | none => fun s => (refuse .invalidCursor, s)
  | some cursor =>
    Store.given (Plan.read { cursor } options) fun plan => Store.withSelected fun i s =>
      let s := s.settleAll now i
      (plan.reply fits (s.database i), s)

/-- SCAN cursor options. -/
def scan : Float → Octets → List Octets → Step := scanBy Octets.fitsGlob

end BatchStore.Scan
