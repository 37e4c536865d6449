import BatchStore.Options.Keyword
import BatchStore.Options.Moment

/-!
# Expiries

How long a value lives: for a span from now on, up to a moment, as long as before, or
for ever. An expiry becomes one or two arguments; a command names the types of expiry
that it takes.
-/

namespace BatchStore

/-- The kinds of expiry. -/
inductive ExpiryType where
  | seconds
  | milliseconds
  | unixSeconds
  | unixMilliseconds
  | keepExisting
  | persist
deriving DecidableEq, Repr

namespace ExpiryType

/-- The keyword of a type. -/
def keyword : ExpiryType → Keyword
  | seconds => .ex
  | milliseconds => .px
  | unixSeconds => .exat
  | unixMilliseconds => .pxat
  | keepExisting => .keepttl
  | persist => .persist

def all : List ExpiryType :=
  [.seconds, .milliseconds, .unixSeconds, .unixMilliseconds, .keepExisting, .persist]

/-- The type of a keyword in capitals. -/
def ofWord? (s : String) : Option ExpiryType := all.find? fun t => t.keyword.word == s

/-- The types that come with a time. -/
def timed : List ExpiryType := [.seconds, .milliseconds, .unixSeconds, .unixMilliseconds]

end ExpiryType

/-- The lifetime of a value. The type says whether the duration or the moment counts. A
duration is any number. -/
structure Expiry where
  type : ExpiryType
  duration : Datum := .int 0
  moment? : Option Moment := none
deriving DecidableEq

namespace Expiry

/-- A lifetime from now on: in seconds if it is a whole number of them, else in
milliseconds, the rest being cut off. -/
def within (span : Span) : Expiry :=
  if span % 1000000 == 0 then { type := .seconds, duration := .int (span / 1000000) }
  else { type := .milliseconds, duration := .int (span / 1000) }

/-- A lifetime up to a time on the calendar: in seconds if the time of day names no
microseconds, else in milliseconds. -/
def upTo? (t : CivilTime) : Except Fault Expiry := do
  let type : ExpiryType := if t.microsecond == 0 then .unixSeconds else .unixMilliseconds
  return { type, moment? := some (← t.moment?) }

/-- Keeps the lifetime that the key has. -/
def keepExisting : Expiry := { type := .keepExisting }

/-- No end of life. -/
def persist : Expiry := { type := .persist }

/-- The seconds up to a moment, as the nearest double. -/
def momentSeconds (m : Moment) : Float := Number.millionth m

/-- A double with its fraction cut off. -/
def cut (x : Float) : Int :=
  match Number.Dyadic.ofFloat? x with
  | some d => d.truncate
  | none => 0

/-- The moment of an expiry that needs one. -/
def moment (e : Expiry) : Except Failure Moment :=
  match e.moment? with
  | some m => .ok m
  | none => .error (.option (.missingTimestamp e.type.keyword.word))

/-- The number that goes with the expiry. -/
def time (e : Expiry) : Except Failure Datum :=
  match e.type with
  | .unixSeconds => e.moment.map fun m => .int (cut (momentSeconds m))
  | .unixMilliseconds => e.moment.map fun m => .int (cut (momentSeconds m * 1000.0))
  | _ => .ok e.duration

/-- The arguments of an expiry for a command that takes the given types. -/
def toArgs (e : Expiry) (allowed : List ExpiryType) : Except Failure ArgList :=
  if !allowed.contains e.type then
    .error (.option (.expiryType e.type.keyword.word))
  else
    match e.type with
    | .keepExisting | .persist => .ok [e.type.keyword.arg]
    | _ => do
      let time ← e.time
      if ← compareNumber .less time (.int 0) then throw (.option .negativeExpiry)
      return [e.type.keyword.arg, .text (← shownNumber time)]

end Expiry

end BatchStore
