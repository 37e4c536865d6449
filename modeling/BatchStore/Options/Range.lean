import BatchStore.Options.Keyword

/-!
# Range queries on sorted sets

A range goes by place, by score or by the order of the members, forwards or
backwards. The last two can be cut to a window.
-/

namespace BatchStore

/-- An unbounded end. -/
inductive Unbounded where
  | above
  | below
deriving DecidableEq, Repr

def Unbounded.sign : Unbounded → String
  | above => "+"
  | below => "-"

def Unbounded.ofSign? (s : String) : Option Unbounded :=
  [above, below].find? fun u => u.sign == s

/-- An end of a range, as it is written. -/
structure Bound where
  word : Arg
deriving DecidableEq, Repr

namespace Bound

/-- An end at a score, which is taken in or left out. -/
def ofScore (exclusive : Bool) (score : Datum) : Except Failure Bound := do
  return ⟨.text ((if exclusive then "(" else "") ++ (← numberText score))⟩

/-- The end of all scores. -/
def ofAllScores (u : Unbounded) : Bound := ⟨.text (u.sign ++ "inf")⟩

/-- An end at a member, which is taken in or left out. -/
def ofMember (exclusive : Bool) (member : Datum) : Except Failure Bound := do
  let mark := if exclusive then '(' else '['
  match ← Arg.check member with
  | .text s => return ⟨.text (String.ofList [mark] ++ s)⟩
  | .octets w => return ⟨.octets (String.utf8EncodeChar mark ++ w)⟩

/-- The end of all members. -/
def ofAllMembers (u : Unbounded) : Bound := ⟨.text u.sign⟩

end Bound

/-- A window on the members of a range: how many to pass over and how many to give. A
negative count gives all that are left. -/
structure Limit where
  offset : Datum
  count : Datum

def Limit.toArgs (l : Limit) : Except Failure ArgList := do
  return [Keyword.limit.arg, .text (← numberText l.offset), .text (← numberText l.count)]

/-- A range of a sorted set. -/
inductive RangeQuery where
  | byIndex (first last : Datum) (reverse : Bool)
  | byScore (first last : Bound) (reverse : Bool) (limit? : Option Limit)
  | byLex (first last : Bound) (reverse : Bool) (limit? : Option Limit)

namespace RangeQuery

/-- The arguments of the direction. -/
def reverseArgs (reverse : Bool) : ArgList := if reverse then [Keyword.rev.arg] else []

/-- The arguments of the window. -/
def limitArgs : Option Limit → Except Failure ArgList
  | none => .ok []
  | some l => l.toArgs

def toArgs : RangeQuery → Except Failure ArgList
  | byIndex first last reverse => do
    let first ← numberText first
    let last ← numberText last
    return [.text first, .text last] ++ reverseArgs reverse
  | byScore first last reverse limit? => do
    let limit ← limitArgs limit?
    return [first.word, last.word, Keyword.byscore.arg] ++ reverseArgs reverse
      ++ limit
  | byLex first last reverse limit? => do
    let limit ← limitArgs limit?
    return [first.word, last.word, Keyword.bylex.arg] ++ reverseArgs reverse ++ limit

end RangeQuery

end BatchStore
