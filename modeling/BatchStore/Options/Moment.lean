import BatchStore.Options.Span

/-!
# Moments

A moment is a count of microseconds since the start of 1970 in universal time. It is built
from its parts as people write them: a date with a time of day and perhaps an offset.
-/

namespace BatchStore

/-- Microseconds since 1970-01-01 00:00 in universal time. -/
abbrev Moment := Int

/-- The parts of a date and time of day. -/
structure CivilTime where
  year : Int
  month : Int
  day : Int
  hour : Int
  minute : Int
  second : Int
  microsecond : Int
  /-- Minutes east of universal time; a time without offset is in universal time. -/
  offset? : Option TimeCount

namespace CivilTime

/-- A leap year's number is divisible by 4, and by 400 if it is by 100. -/
def isLeap (year : Int) : Bool :=
  year % 4 == 0 && (year % 100 != 0 || year % 400 == 0)

/-- The days of a month. -/
def monthLength (year month : Int) : Int :=
  if month == 2 then (if isLeap year then 29 else 28)
  else if month == 4 || month == 6 || month == 9 || month == 11 then 30
  else 31

/-- The days before a year, from the start of year 1. -/
def daysBeforeYear (year : Int) : Int :=
  let y := year - 1
  y * 365 + y / 4 - y / 100 + y / 400

/-- The days before a month of a year. -/
def daysBeforeMonth (year : Int) : Nat → Int
  | 0 | 1 => 0
  | month + 2 => daysBeforeMonth year (month + 1) + monthLength year (Int.ofNat (month + 1))

/-- Days from the start of 1970. -/
def epochDays (t : CivilTime) : Int :=
  daysBeforeYear t.year + daysBeforeMonth t.year t.month.toNat + t.day - 1 - 719162

/-- The first part that no calendar or clock shows. -/
def badPart? (t : CivilTime) : Option DatePart :=
  if t.year < 1 || 9999 < t.year then some (.year t.year)
  else if t.month < 1 || 12 < t.month then some .month
  else if t.day < 1 || monthLength t.year t.month < t.day then some .day
  else if t.hour < 0 || 23 < t.hour then some .hour
  else if t.minute < 0 || 59 < t.minute then some .minute
  else if t.second < 0 || 59 < t.second then some .second
  else if t.microsecond < 0 || 999999 < t.microsecond then some .microsecond
  else none

/-- A part of a date is read as a number of 32 bits. -/
def partFlaw? (n : Int) : Option WidthFlaw :=
  if n < -9223372036854775808 || 9223372036854775807 < n then some .partTooWide
  else if 2147483647 < n then some .partTooLarge
  else if n < -2147483648 then some .partTooSmall
  else none

/-- The first part that is no number of 32 bits. -/
def widthFlaw? (t : CivilTime) : Option WidthFlaw :=
  [t.year, t.month, t.day, t.hour, t.minute, t.second, t.microsecond].findSome? partFlaw?

end CivilTime

/-- An offset from universal time, in minutes to the east; it is less than a day either
way. -/
def Span.offset? (minutes : TimeCount) : Except Fault Span := do
  let span ← Span.ofTally? (← Tally.zero.add 60000000 minutes)
  if -86400000000 < span && span < 86400000000 then return span
  else throw (.offsetTooLong span)

/-- The moment that a date and time name. The offset is looked at first, then whether the
parts can be kept, then whether they are on the calendar and the clock. -/
def CivilTime.moment? (t : CivilTime) : Except Fault Moment := do
  let offset ← t.offset?.elim (.ok 0) Span.offset?
  match t.widthFlaw?, t.badPart? with
  | some flaw, _ => throw (.width flaw)
  | none, some part => throw (.badDate part)
  | none, none =>
    let seconds := ((t.epochDays * 24 + t.hour) * 60 + t.minute) * 60 + t.second
    return seconds * 1000000 + t.microsecond - offset

end BatchStore
