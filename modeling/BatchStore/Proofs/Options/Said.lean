import BatchStore.Batch.Call
import BatchStore.Store.Run

/-!
# What options say

A record of options is written as groups of words and read by the store as a plan. Here both
are given for the record itself: `groups` are its words, a group for each option, and `plan` is
what it says, without any words in between.

The records are those that a caller builds as they are meant: numbers are whole where whole
numbers are asked for, and the ends of a range come from their own constructors. `IsTyped` says
so of each. Texts and octet strings are not asked for: anything else keeps the record from being
written.
-/

namespace BatchStore

/-! ## Values -/

namespace Datum

/-- A whole number. -/
def IsWhole (v : Datum) : Prop := ∃ n, v = .int n

/-- A whole number, or nothing. -/
def IsWholeOrNull (v : Datum) : Prop := v = .null ∨ v.IsWhole

/-- A number other than NaN. -/
def IsNumber : Datum → Prop
  | .int _ => True
  | .real x => x.isNaN = false
  | _ => False

/-- The whole number that a value is, or another one in its place. -/
def wholeOr (other : Int) : Datum → Int
  | .int n => n
  | _ => other

/-- The octets of a value that is an argument. -/
def word (v : Datum) : Octets := (Arg.ofDatum? v).elim [] Arg.toOctets

end Datum

/-! ## Expiries -/

namespace Expiry

/-- An expiry with a whole number for its duration. -/
def IsTyped (e : Expiry) : Prop := e.duration.IsWhole

/-- The number of an expiry. -/
def amount (e : Expiry) : Int :=
  match e.time with
  | .ok time => time.wholeOr 0
  | .error _ => 0

/-- The deadline that an expiry sets, if it sets one. -/
def deadline? (now : Float) (e : Expiry) : Except Halt (Option Float) :=
  if e.type.keyword.setsDeadline then (deadlineOf now e.type.keyword e.amount).map some
  else .ok none

end Expiry

/-! ## Writes -/

namespace SetOptions

def IsTyped (o : SetOptions) : Prop := ∀ e ∈ o.expiry?, e.IsTyped

/-- The words of the expiry. -/
def expiryArgs (o : SetOptions) : Except Failure ArgList :=
  match o.expiry? with
  | none => .ok []
  | some e => e.toArgs (ExpiryType.timed ++ [.keepExisting])

def groups (o : SetOptions) : Except Failure (List ArgList) := do
  let condition ← o.conditionArgs
  let expiry ← o.expiryArgs
  return [condition, if o.returnOld then [Keyword.get.arg] else [], expiry]

/-- When the write takes place. -/
def guard (o : SetOptions) : Strings.Guard :=
  match o.condition? with
  | none => .always
  | some .onlyIfMissing => .ifMissing
  | some .onlyIfExists => .ifExists
  | some .onlyIfEquals => .ifEquals o.comparison.word

def plan (now : Float) (o : SetOptions) : Except Halt Strings.SetPlan := do
  let deadline? ← o.expiry?.elim (.ok none) (Expiry.deadline? now)
  return { guard := o.guard, returnOld := o.returnOld, deadline?,
           keepDeadline := o.expiry?.any fun e => e.type == .keepExisting }

end SetOptions

namespace GetExOptions

def IsTyped (o : GetExOptions) : Prop := ∀ e ∈ o.expiry?, e.IsTyped

/-- What GETEX does to a key under the options. -/
def step (now : Float) (o : GetExOptions) : KeyStep := fun seen => do
  let value ← expect Value.string? seen
  match o.expiry? with
  | none => keep seen (Strings.shown value)
  | some e => do
    let deadline? ← e.deadline? now
    return (Strings.shown value, seen.map fun entry => { entry with deadline? })

end GetExOptions

/-! ## Searches -/

namespace LPosOptions

structure IsTyped (o : LPosOptions) : Prop where
  rank : o.rank.IsWholeOrNull
  maxLen : o.maxLen.IsWholeOrNull

def groups (o : LPosOptions) : Except Failure (List ArgList) := do
  let rank ← numberOption .rank o.rank
  let maxLen ← numberOption .maxlen o.maxLen
  return [rank, maxLen]

/-- What is looked for; there is no occurrence of rank zero. -/
def plan (o : LPosOptions) : Except Halt Lists.Search :=
  if o.rank = .int 0 then refuse .zeroRank
  else .ok { rank := o.rank.wholeOr 1, maxLen := o.maxLen.wholeOr 0 }

end LPosOptions

namespace ScanOptions

def IsTyped (o : ScanOptions) : Prop := o.count.IsWholeOrNull

/-- The words of the kind of value. -/
def typeArgs (o : ScanOptions) : ArgList :=
  match o.type? with
  | none => []
  | some t => [Keyword.type.arg, .text t.word]

def groups (o : ScanOptions) : Except Failure (List ArgList) := do
  let pattern ← o.patternArgs
  let count ← o.countArgs
  return [pattern, count, o.typeArgs]

def plan (o : ScanOptions) (cursor : Int) : Scan.Plan :=
  { cursor
    pattern? := if o.pattern = .null then none else some o.pattern.word
    count := o.count.wholeOr 10
    kind? := o.type?.map ObjectType.word }

end ScanOptions

/-! ## Restores and transfers -/

namespace RestoreOptions

def IsTyped (o : RestoreOptions) : Prop :=
  ∀ e ∈ o.eviction?, (∃ t, e.word = .type t) ∧ e.count.IsWhole

/-- The words of the eviction hint. -/
def evictionArgs (o : RestoreOptions) : Except Failure ArgList :=
  match o.eviction? with
  | none => .ok []
  | some e => do return [e.word.arg, .text (← numberText e.count)]

def groups (o : RestoreOptions) : Except Failure (List ArgList) := do
  let eviction ← o.evictionArgs
  return [if o.replace then [Keyword.replace.arg] else [],
          if o.absTtl then [Keyword.absttl.arg] else [], eviction]

def plan (o : RestoreOptions) : Backup.RestorePlan :=
  { replace := o.replace, absolute := o.absTtl }

end RestoreOptions

/-- What a copy is told: the database that it goes to, and whether it replaces a key. -/
structure CopyOptions where
  database : Datum := .null
  replace : Bool := false

namespace CopyOptions

def IsTyped (o : CopyOptions) : Prop := o.database.IsWholeOrNull

def groups (o : CopyOptions) : Except Failure (List ArgList) := do
  let database ← numberOption .db o.database
  return [database, if o.replace then [Keyword.replace.arg] else []]

/-- What is copied where in a store. -/
def plan (s : Store) (o : CopyOptions) : Except Halt Keys.CopyPlan := do
  let target ← if o.database = .null then .ok s.selected else s.index? (o.database.wholeOr 0)
  return { target, replace := o.replace }

end CopyOptions

/-! ## Ranges -/

/-- The infinity that an unbounded end of a range of scores stands for. -/
def Unbounded.infinity : Unbounded → Float
  | above => Number.infinity
  | below => -Number.infinity

/-- An end of a range of scores that comes from its constructors. -/
def Bound.IsScore (b : Bound) : Prop :=
  (∃ exclusive v, v.IsNumber ∧ ofScore exclusive v = .ok b) ∨ ∃ u, b = ofAllScores u

/-- An end of a range of members that comes from its constructors. -/
def Bound.IsMember (b : Bound) : Prop :=
  (∃ exclusive v, ofMember exclusive v = .ok b) ∨ ∃ u, b = ofAllMembers u

namespace Limit

structure IsTyped (l : Limit) : Prop where
  offset : l.offset.IsWhole
  count : l.count.IsWhole

/-- The offset and the count. -/
def numbers (l : Limit) : Int × Int := (l.offset.wholeOr 0, l.count.wholeOr 0)

end Limit

namespace RangeQuery

def IsTyped : RangeQuery → Prop
  | byIndex first last _ => first.IsWhole ∧ last.IsWhole
  | byScore first last _ limit? => first.IsScore ∧ last.IsScore ∧ ∀ l ∈ limit?, l.IsTyped
  | byLex first last _ limit? => first.IsMember ∧ last.IsMember ∧ ∀ l ∈ limit?, l.IsTyped

/-- The words of the two ends. -/
def ends : RangeQuery → Except Failure (Arg × Arg)
  | byIndex first last _ => do return (.text (← numberText first), .text (← numberText last))
  | byScore first last _ _ => .ok (first.word, last.word)
  | byLex first last _ _ => .ok (first.word, last.word)

def groups : RangeQuery → Except Failure (List ArgList)
  | byIndex _ _ reverse => .ok [reverseArgs reverse]
  | byScore _ _ reverse limit? => do
    return [[Keyword.byscore.arg], reverseArgs reverse, ← limitArgs limit?]
  | byLex _ _ reverse limit? => do
    return [[Keyword.bylex.arg], reverseArgs reverse, ← limitArgs limit?]

def plan : RangeQuery → SortedSets.RangePlan
  | byIndex _ _ reverse => { reverse }
  | byScore _ _ reverse limit? => { goesBy := .score, reverse, limit? := limit?.map Limit.numbers }
  | byLex _ _ reverse limit? => { goesBy := .lex, reverse, limit? := limit?.map Limit.numbers }

end RangeQuery

/-! ## Places -/

/-- A place with numbers for its coordinates. -/
structure GeoPoint.IsTyped (p : GeoPoint) : Prop where
  longitude : p.longitude.IsNumber
  latitude : p.latitude.IsNumber

namespace GeoAddOptions

/-- The words of the condition. -/
def conditionArgs (o : GeoAddOptions) : Except Failure ArgList :=
  match o.condition? with
  | none => .ok []
  | some .onlyIfEquals => .error (.option (.geoCondition Keyword.ifeq.word))
  | some c => .ok [c.keyword.arg]

def groups (o : GeoAddOptions) : Except Failure (List ArgList) := do
  let condition ← o.conditionArgs
  return [condition, if o.changed then [Keyword.ch.arg] else []]

/-- Which places are written. -/
def guard (o : GeoAddOptions) : Places.Guard :=
  match o.condition? with
  | some .onlyIfMissing => .onlyNew
  | some .onlyIfExists => .onlyOld
  | _ => .any

def flags (o : GeoAddOptions) : Places.Flags := { guard := o.guard, changed := o.changed }

end GeoAddOptions

end BatchStore
