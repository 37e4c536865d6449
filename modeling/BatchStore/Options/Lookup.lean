import BatchStore.Options.Keyword

/-!
# Options of searches

How far LPOS, SCAN and the popping commands go, and what they look for. Each record
has one function, `toArgs`, that writes it as arguments or says what is wrong with it.
Numbers are checked when they are written.
-/

namespace BatchStore

/-- A keyword with a number behind it, if the number is given. -/
def numberOption (k : Keyword) : Datum → Except Failure ArgList
  | .null => .ok []
  | v => do return [k.arg, .text (← numberText v)]

/-- Options of LPOS; a missing number is null. -/
structure LPosOptions where
  rank : Datum := .null
  maxLen : Datum := .null

def LPosOptions.toArgs (o : LPosOptions) : Except Failure ArgList := do
  let rank ← numberOption .rank o.rank
  let maxLen ← numberOption .maxlen o.maxLen
  return rank ++ maxLen

/-- Whether a count asks for nothing. -/
def asksForNothing (count : Datum) : Except Failure Bool := compareNumber .atMost count (.int 0)

/-- Options of ZPOPMIN and ZPOPMAX: how many members; without a positive count, one. -/
structure ZPopOptions where
  count : Datum := .int 0

def ZPopOptions.toArgs (o : ZPopOptions) : Except Failure ArgList := do
  if ← asksForNothing o.count then return []
  return [.text (← numberText o.count)]

/-- The kinds of value that a scan can ask for. -/
inductive ObjectType where
  | string
  | list
  | set
  | zset
  | hash
  | stream
deriving DecidableEq, Repr

namespace ObjectType

def word : ObjectType → String
  | string => "string"
  | list => "list"
  | set => "set"
  | zset => "zset"
  | hash => "hash"
  | stream => "stream"

def ofWord? (s : String) : Option ObjectType :=
  [string, list, set, zset, hash, stream].find? fun t => t.word == s

end ObjectType

/-- Options of SCAN; a missing pattern or count is null. -/
structure ScanOptions where
  pattern : Datum := .null
  count : Datum := .null
  type? : Option ObjectType := none

namespace ScanOptions

/-- The arguments of the pattern. -/
def patternArgs (o : ScanOptions) : Except Failure ArgList :=
  match o.pattern with
  | .null => .ok []
  | v => do return [Keyword.pattern.arg, ← Arg.check v]

/-- The arguments of the count, which must be positive. -/
def countArgs (o : ScanOptions) : Except Failure ArgList :=
  match o.count with
  | .null => .ok []
  | count => do
    if ← asksForNothing count then throw (.option .scanCount)
    numberOption .count count

def toArgs (o : ScanOptions) : Except Failure ArgList := do
  let pattern ← o.patternArgs
  let count ← o.countArgs
  let type :=
    match o.type? with
    | none => []
    | some t => [Keyword.type.arg, .text t.word]
  return pattern ++ count ++ type

end ScanOptions

end BatchStore
