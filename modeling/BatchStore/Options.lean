import BatchStore.Options.Backup
import BatchStore.Options.Lookup
import BatchStore.Options.Place
import BatchStore.Options.Range

/-!
# Options of calls

The options of a call are words behind its arguments. A call takes options of any kind and
has them write themselves; whether the words make sense there is for the store to say.
-/

namespace BatchStore

/-- The options of a call. -/
inductive Options where
  | expiry (e : Expiry)
  | set (o : SetOptions)
  | getex (o : GetExOptions)
  | lpos (o : LPosOptions)
  | scan (o : ScanOptions)
  | restore (o : RestoreOptions)
  | zpop (o : ZPopOptions)
  | limit (l : Limit)
  | place (p : GeoPoint)
  | geoadd (o : GeoAddOptions)
  | range (q : RangeQuery)
  /-- A range with the words of other options behind its own. -/
  | rangeThen (q : RangeQuery) (others : Options)
  /-- A value that writes no words, by its type. -/
  | wordless (found : String)

namespace Options

/-- The words of the options. An expiry by itself is of no type that is asked for. -/
def toArgs : Options → Except Failure ArgList
  | expiry e => e.toArgs []
  | set o => o.toArgs
  | getex o => o.toArgs
  | lpos o => o.toArgs
  | scan o => o.toArgs
  | restore o => o.toArgs
  | zpop o => o.toArgs
  | limit l => l.toArgs
  | place p => p.toArgs
  | geoadd o => o.toArgs
  | range q => q.toArgs
  | rangeThen q others => do
    let words ← q.toArgs
    return words ++ (← others.toArgs)
  | wordless found => .error (.fault (.notOptions found))

/-- The words of options that may be missing. -/
def wordsOf : Option Options → Except Failure ArgList
  | none => .ok []
  | some o => o.toArgs

end Options

/-- The arguments of named places: the words of the place, then the name. -/
def namedPlaces : List (Datum × Options) → Except Failure ArgList
  | [] => .ok []
  | (name, place) :: rest => do
    let words ← place.toArgs
    let name ← Arg.check name
    return words ++ name :: (← namedPlaces rest)

end BatchStore
