import BatchStore.Octets.Utf8
import BatchStore.Text.Quoted

/-!
# Faults

A fault is a failure that nobody answers for: arithmetic that leaves the range of
doubles, octets that are no text, a lost connection, a broken promise between two
parts. Unlike a refusal it ends a whole submission.
-/

namespace BatchStore

/-- A promise that one part made to another and did not keep. -/
inductive Breach where
  | noDatabase
  | batchNotSubmitted
  | clientStarted
  | missingSubmission
  | executorTaken
  | noExecutor
  | emptyCollect
  | resultsPerSubmission
  | resultsPerCommand
  | failureInTransaction
deriving DecidableEq, Repr

/-- The wording of a breach. -/
def Breach.message : Breach → String
  | noDatabase => "at least one database is required"
  | batchNotSubmitted => "only a submitted batch can finish"
  | clientStarted => "client already started"
  | missingSubmission => ""
  | executorTaken => "subsystem is already registered"
  | noExecutor => "invalid aio submission"
  | emptyCollect => "batch size must be greater than 0"
  | resultsPerSubmission => "submissions and results must have equal length"
  | resultsPerCommand => "results and commands must have equal length"
  | failureInTransaction => "atomic submission must not complete with per-command errors"

/-- A part of a date or time of day. -/
inductive DatePart where
  | year (n : Int)
  | month
  | day
  | hour
  | minute
  | second
  | microsecond
deriving DecidableEq, Repr

/-- The wording of a date that no calendar has. -/
def DatePart.message : DatePart → String
  | year n => "year " ++ toString n ++ " is out of range"
  | month => "month must be in 1..12"
  | day => "day is out of range for month"
  | hour => "hour must be in 0..23"
  | minute => "minute must be in 0..59"
  | second => "second must be in 0..59"
  | microsecond => "microsecond must be in 0..999999"

/-- Why a whole number does not fit where it is to be kept. -/
inductive WidthFlaw where
  /-- A count of days beyond 32 bits. -/
  | daysTooMany
  /-- A part of a date beyond 64 bits. -/
  | partTooWide
  /-- A part of a date above all numbers of 32 bits. -/
  | partTooLarge
  /-- A part of a date below all numbers of 32 bits. -/
  | partTooSmall
deriving DecidableEq, Repr

/-- The wording of a number that does not fit. -/
def WidthFlaw.message : WidthFlaw → String
  | daysTooMany => "Python int too large to convert to C int"
  | partTooWide => "Python int too large to convert to C long"
  | partTooLarge => "signed integer is greater than maximum"
  | partTooSmall => "signed integer is less than minimum"

/-- A span of time as a message shows it: days, seconds and microseconds, of which the days
alone may be negative and what is zero is left out. -/
def shownSpan (microseconds : Int) : String :=
  let days := microseconds / 86400000000
  let seconds := microseconds % 86400000000 / 1000000
  let rest := microseconds % 1000000
  let parts := [("days", days), ("seconds", seconds), ("microseconds", rest)]
  let shown := (parts.filter (·.2 != 0)).map fun e => e.1 ++ "=" ++ toString e.2
  "datetime.timedelta(" ++ (if shown.isEmpty then "0" else ", ".intercalate shown) ++ ")"

/-- A failure that nobody answers for. -/
inductive Fault where
  | breach (b : Breach)
  /-- A whole number past the largest double. -/
  | integerTooLarge
  /-- A quotient of whole numbers past the largest double. -/
  | quotientTooLarge
  /-- A whole number with more digits than are written. -/
  | tooManyDigits
  /-- An infinity that is to be rounded. -/
  | infinityToInteger
  /-- A NaN that is to be rounded. -/
  | nanToInteger
  | notUtf8 (e : Octets.Utf8Error)
  | unknownStatus (code : Int)
  /-- A date with a part that is out of range. -/
  | badDate (part : DatePart)
  /-- A span of more days than are kept. -/
  | spanTooLong (days : Int)
  /-- A number that does not fit where it is to be kept. -/
  | width (flaw : WidthFlaw)
  /-- An offset from universal time of a day or more. -/
  | offsetTooLong (microseconds : Int)
  /-- A word that is not on the list of its kind. -/
  | unknownWord (shown kind : String)
  /-- A value that holds no others, by its type. -/
  | notAContainer (found : String)
  /-- A value that is no mapping, by its type. -/
  | notAMapping (found : String)
  /-- A value that is no string of octets, by its type. -/
  | notOctets (found : String)
  /-- A value that stands for options and is none, by its type. -/
  | notOptions (found : String)
  /-- A value that stands for a word of a fixed list and is none, by its type. -/
  | notAChoice (found : String)
  /-- Octets that are looked for in a text. -/
  | needleForText
  /-- Values of two types that no comparison takes, with the sign of the comparison. -/
  | unordered (sign left right : String)
  /-- The transport lost a submission before it was carried out. -/
  | lostBefore
  /-- The transport lost the answer to a submission. -/
  | lostAfter
  | workerStarted
  /-- A fault of another part, with the name of its kind. -/
  | other (label message : String)
deriving DecidableEq, Repr

namespace Fault

/-- The wording for a value that lacks what was asked of it. -/
def lacks (found what : String) : String :=
  "'" ++ found ++ "' object has no attribute '" ++ what ++ "'"

/-- The wording of a fault. -/
def message : Fault → String
  | breach b => b.message
  | integerTooLarge => "int too large to convert to float"
  | quotientTooLarge => "integer division result too large for a float"
  | tooManyDigits =>
    "Exceeds the limit (4300 digits) for integer string conversion; "
      ++ "use sys.set_int_max_str_digits() to increase the limit"
  | infinityToInteger => "cannot convert float infinity to integer"
  | nanToInteger => "cannot convert float NaN to integer"
  | notUtf8 e => e.message
  | unknownStatus code => toString code ++ " is not a valid StatusCode"
  | badDate part => part.message
  | spanTooLong days => "days=" ++ toString days ++ "; must have magnitude <= 999999999"
  | width flaw => flaw.message
  | offsetTooLong microseconds =>
    "offset must be a timedelta strictly between -timedelta(hours=24) and timedelta(hours=24), not "
      ++ shownSpan microseconds ++ "."
  | unknownWord shown kind => shown ++ " is not a valid " ++ kind
  | notAContainer found => "argument of type '" ++ found ++ "' is not iterable"
  | notAMapping found => lacks found "items"
  | notOctets found => lacks found "decode"
  | notOptions found => lacks found "to_args"
  | notAChoice found => lacks found "value"
  | needleForText => "'in <string>' requires string as left operand, not bytes"
  | unordered sign left right =>
    "'" ++ sign ++ "' not supported between instances of '" ++ left ++ "' and '" ++ right ++ "'"
  | lostBefore => "simulated failure before processing"
  | lostAfter => "simulated failure after processing"
  | workerStarted => "threads can only be started once"
  | other _ message => message

/-- The kind of a fault, as the journal names it. -/
def label : Fault → String
  | breach _ => "AssertionError"
  | integerTooLarge | quotientTooLarge | infinityToInteger | spanTooLong _
  | width _ => "OverflowError"
  | tooManyDigits | nanToInteger | unknownStatus _ | badDate _ | offsetTooLong _
  | unknownWord _ _ => "ValueError"
  | notAContainer _ | needleForText | unordered _ _ _ => "TypeError"
  | notAMapping _ | notOctets _ | notOptions _ | notAChoice _ => "AttributeError"
  | notUtf8 _ => "UnicodeDecodeError"
  | lostBefore | lostAfter => "ConnectionError"
  | workerStarted => "RuntimeError"
  | other label _ => label

/-- How the journal shows a fault. -/
def shown : Fault → String
  | notUtf8 e =>
    "UnicodeDecodeError('utf-8', " ++ Text.quotedOctets e.source ++ ", " ++ toString e.position
      ++ ", " ++ toString (e.position + e.width) ++ ", " ++ Text.quoted e.fault.message ++ ")"
  | f => f.label ++ "(" ++ Text.quoted f.message ++ ")"

end Fault

end BatchStore
