import BatchStore.Options.Range
import BatchStore.Store.Hashes
import BatchStore.Store.Lists
import BatchStore.Store.Ranking

/-!
# Sorted sets

A sorted set gives each member a score. Ranges go by place, by score or by the order of
the members, and popping takes members off either end of the ranking. A sorted set that
loses its last member is gone.
-/

namespace BatchStore.SortedSets

/-- What stands in for a result that a fault kept from coming about. -/
def orBreakDown {α : Type} : Except Fault α → Except Halt α
  | .ok a => .ok a
  | .error f => breakDown f

/-- The members of a sorted set with their scores, ranked. -/
def inOrder (scores : Table Datum Datum) : Except Halt (List Scored) :=
  orBreakDown (ranked scores.entries)

/-- The sorted set at a key; a missing one is empty. -/
def scoresAt (seen : Option Entry) : Except Halt (Table Datum Datum) := do
  return (← expect Value.zset? seen).getD .empty

/-! ## Members -/

/-- The scores and members that a row of word pairs stands for. -/
def readScores : List (Octets × Octets) → Except Halt (List (Datum × Datum))
  | [] => .ok []
  | (score, member) :: rest => do
    let score ← readReal score
    return (.octets member, .real score) :: (← readScores rest)

/-- Sets scores and answers how many members are new. -/
def zaddStep (pairs : List (Datum × Datum)) : KeyStep := fun seen => do
  let old ← scoresAt seen
  let new := old.putAll pairs
  return (.int (new.size - old.size), some (.replace seen (.zset new)))

/-- ZADD key score member …: the scores are read before the key is looked at. -/
def zadd (now : Float) (key : Octets) (words : List Octets) : Step :=
  match pairUp words with
  | none => fun s => (refuse .syntaxError, s)
  | some pairs => Store.given (readScores pairs) fun pairs => Store.onKey now key (zaddStep pairs)

/-- ZREM key member …: answers how many members were there. -/
def zrem (members : List Octets) : KeyStep := fun seen => do
  match ← expect Value.zset? seen with
  | none => keep seen (.int 0)
  | some old =>
    let (new, n) := Hashes.removeAll old members
    return (.int n, Entry.replaceUnlessEmpty seen (.zset new))

/-- ZSCORE key member. -/
def zscore (member : Octets) : KeyStep := fun seen => do
  keep seen (((← scoresAt seen).get? (.octets member)).getD .null)

/-- ZCARD key. -/
def zcard : KeyStep := fun seen => do
  keep seen (.int (← scoresAt seen).size)

/-! ## Ends of ranges -/

/-- An end of a range of scores. -/
structure ScoreEnd where
  value : Float
  exclusive : Bool

/-- Reads an end of a range of scores; a parenthesis leaves the end itself out. -/
def ScoreEnd.read : Octets → Except Halt ScoreEnd
  | 40 :: w => do return ⟨← readReal w, true⟩
  | w => do return ⟨← readReal w, false⟩

/-- The comparison that keeps a value from falling below an end. -/
def fromEnd (exclusive : Bool) : Comparison := if exclusive then .greater else .atLeast

/-- The comparison that keeps a value from rising above an end. -/
def toEnd (exclusive : Bool) : Comparison := if exclusive then .less else .atMost

/-- Whether a score is not below the end. -/
def ScoreEnd.admitsFrom (e : ScoreEnd) (score : Datum) : Except Fault Bool :=
  (fromEnd e.exclusive).holds score (.real e.value)

/-- Whether a score is not above the end. -/
def ScoreEnd.admitsTo (e : ScoreEnd) (score : Datum) : Except Fault Bool :=
  (toEnd e.exclusive).holds score (.real e.value)

/-- An end of a range of members. -/
inductive LexEnd where
  | unbounded (u : Unbounded)
  | at (w : Octets) (exclusive : Bool)

/-- Reads an end of a range of members: a sign alone is no bound, a bracket takes the
end in, and a parenthesis leaves it out. -/
def LexEnd.read : Octets → Except Halt LexEnd
  | 43 :: _ => .ok (.unbounded .above)
  | 45 :: _ => .ok (.unbounded .below)
  | 91 :: w => .ok (.at w false)
  | 40 :: w => .ok (.at w true)
  | _ => refuse .badRangeItem

/-- Whether a member is not below the end. -/
def LexEnd.admitsFrom (e : LexEnd) (member : Datum) : Except Fault Bool :=
  match e with
  | unbounded .below => .ok true
  | unbounded .above => .ok false
  | LexEnd.at w exclusive => (fromEnd exclusive).holds member (.octets w)

/-- Whether a member is not above the end. -/
def LexEnd.admitsTo (e : LexEnd) (member : Datum) : Except Fault Bool :=
  match e with
  | unbounded .above => .ok true
  | unbounded .below => .ok false
  | LexEnd.at w exclusive => (toEnd exclusive).holds member (.octets w)

/-! ## ZRANGE -/

/-- What a range goes by. -/
inductive RangeBy where
  | index
  | score
  | lex
deriving DecidableEq, Repr

/-- What the words behind the ends of ZRANGE ask for. -/
structure RangePlan where
  goesBy : RangeBy := .index
  reverse : Bool := false
  limit? : Option (Int × Int) := none

/-- Reads the options of ZRANGE; a later one overrides an earlier one. -/
def RangePlan.read (plan : RangePlan) : List Octets → Except Halt RangePlan
  | [] => .ok plan
  | w :: rest =>
    match Keyword.ofOctets? w, rest with
    | some .byscore, rest => RangePlan.read { plan with goesBy := .score } rest
    | some .bylex, rest => RangePlan.read { plan with goesBy := .lex } rest
    | some .rev, rest => RangePlan.read { plan with reverse := true } rest
    | some .limit, offset :: count :: rest => do
      let offset ← readInt offset
      let count ← readInt count
      RangePlan.read { plan with limit? := some (offset, count) } rest
    | _, _ => refuse .syntaxError

/-- The window that a limit leaves of a row; a negative count leaves all from the
offset on. -/
def limited {α : Type} (xs : List α) : Option (Int × Int) → List α
  | none => xs
  | some (offset, count) =>
    if count < 0 then windowFrom xs offset else window xs offset (offset + count)

/-- Whether both of two tests are passed; the second is made only if the first is. -/
def passesBoth (first second : Except Fault Bool) : Except Fault Bool :=
  match first with
  | .ok true => second
  | other => other

/-- The members that pass a test, up to the first at which the test breaks down. -/
def passing (test : Scored → Except Fault Bool) : List Scored → Except Fault (List Scored)
  | [] => .ok []
  | m :: ms => do
    let keep ← test m
    let others ← passing test ms
    return if keep then m :: others else others

/-- The members between two ends, of which the first is the lower. -/
def between (plan : RangePlan) (members : List Scored) (low high : Octets) :
    Except Halt (List Scored) :=
  match plan.goesBy with
  | .index =>
    if plan.limit?.isSome then refuse .syntaxError
    else do
      let low ← readInt low
      let high ← readInt high
      return Lists.range members low high
  | .score => do
    let low ← ScoreEnd.read low
    let high ← ScoreEnd.read high
    orBreakDown (passing (fun m => passesBoth (low.admitsFrom m.2) (high.admitsTo m.2)) members)
  | .lex => do
    let low ← LexEnd.read low
    let high ← LexEnd.read high
    orBreakDown (passing (fun m => passesBoth (low.admitsFrom m.1) (high.admitsTo m.1)) members)

/-- The members of a range. Backwards, a range by score or by member gives its upper end
first. -/
def RangePlan.select (plan : RangePlan) (scores : Table Datum Datum) (first last : Octets) :
    Except Halt (List Datum) := do
  let members ← inOrder scores
  let members := if plan.reverse then members.reverse else members
  let swapped := plan.reverse && plan.goesBy != .index
  let chosen ← between plan members (if swapped then last else first)
    (if swapped then first else last)
  return limited (chosen.map (·.1)) plan.limit?

/-- ZRANGE key first last, with the options read. -/
def zrangeStep (plan : RangePlan) (first last : Octets) : KeyStep := fun seen => do
  keep seen (.list (← plan.select (← scoresAt seen) first last))

/-- ZRANGE key first last options: options, kind of the value and ends are looked at in
this order. -/
def zrange (now : Float) (key first last : Octets) (options : List Octets) : Step :=
  Store.given (RangePlan.read {} options) fun plan =>
    Store.onKey now key (zrangeStep plan first last)

/-! ## Popping -/

/-- An end of the ranking. -/
inductive Extreme where
  | least
  | greatest
deriving DecidableEq, Repr

/-- The first `count` members from an end; a negative count leaves that many at the
other end. -/
def extremes (scores : Table Datum Datum) (e : Extreme) (count : Int) :
    Except Halt (List Scored) := do
  let members ← inOrder scores
  return window (match e with | .least => members | .greatest => members.reverse) 0 count

/-- Takes members off an end and answers them with their scores. -/
def zpopStep (e : Extreme) (count : Int) : KeyStep := fun seen => do
  match ← expect Value.zset? seen with
  | none => keep seen (.mapping [])
  | some old =>
    let popped ← extremes old e count
    let new := old.withoutEntries popped
    return (.mapping popped, Entry.replaceUnlessEmpty seen (.zset new))

/-- ZPOPMIN and ZPOPMAX key, perhaps with a count: the count is read first. -/
def zpop (now : Float) (e : Extreme) (key : Octets) (count? : Option Octets) : Step :=
  Store.given (count?.mapM readInt) fun count? =>
    Store.onKey now key (zpopStep e (count?.getD 1))

end BatchStore.SortedSets
