import BatchStore.Datum.Order
import BatchStore.Failure
import BatchStore.Number.Numeral
import BatchStore.Number.Shortest

/-!
# Command arguments

A command's arguments are texts and octet strings. This module checks values for
being such, writes numbers as texts, and holds the builder that collects the
arguments of one command: `add` takes a value apart and appends what it finds, up to
the first thing that cannot be an argument.
-/

namespace BatchStore

/-- One argument of a command. -/
inductive Arg where
  | text (s : String)
  | octets (w : Octets)
deriving DecidableEq, Repr

namespace Arg

/-- The form in which the store sees an argument. -/
def toOctets : Arg → Octets
  | text s => Octets.ofText s
  | octets w => w

/-- The argument as a value. -/
def toDatum : Arg → Datum
  | text s => .text s
  | octets w => .octets w

/-- A value that is an argument as it stands. -/
def ofDatum? : Datum → Option Arg
  | .text s => some (.text s)
  | .octets w => some (.octets w)
  | _ => none

@[simp] theorem ofDatum?_toDatum (a : Arg) : ofDatum? a.toDatum = some a := by
  cases a <;> rfl

/-- Only texts and octet strings pass. -/
def check (v : Datum) : Except Failure Arg :=
  match ofDatum? v with
  | some a => .ok a
  | none => .error (.argumentType v.typeName)

@[simp] theorem check_toDatum (a : Arg) : check a.toDatum = .ok a := by
  rw [check, ofDatum?_toDatum]

/-- Checks each of some values. -/
def checkEach : List Datum → Except Failure (List Arg)
  | [] => .ok []
  | v :: vs => do
    let a ← check v
    let as ← checkEach vs
    return a :: as

/-- The arguments in a container; a bare text or octet string stands for itself, and is
not taken apart. -/
def checkAll (v : Datum) : Except Failure (List Arg) :=
  match ofDatum? v with
  | some a => .ok [a]
  | none =>
    match v.elements? with
    | some vs => checkEach vs
    | none => .error (.fault (.notAContainer v.typeName))

end Arg

/-! ## Numbers -/

/-- Doubles are written in full from 0.0001 up to below 10 ^ 16, a whole one with
`.0`, and with an exponent of two digits beyond. -/
def realLayout : Number.Layout :=
  { minPoint := -3, maxPoint := 16, wholeMark := ".0", exponentDigits := 2 }

/-- The text of a whole number, if it is not too long. -/
def wholeText (n : Int) : Except Failure String :=
  match Number.intText? n with
  | some s => .ok s
  | none => .error (.fault .tooManyDigits)

/-- The text of a double as an argument: a whole one is written like a whole number,
an infinity with its sign. -/
def realText (x : Float) : String :=
  match Number.Dyadic.ofFloat? x with
  | some d => if d.isWhole then toString d.truncate else realLayout.real x
  | none => if x.isNaN then "nan" else if 0 < x then "+inf" else "-inf"

/-- The text of a number as an argument. Truth values are not numbers. -/
def numberText : Datum → Except Failure String
  | .int n => wholeText n
  | .real x => .ok (realText x)
  | v => .error (.argumentType v.typeName)

/-- How a message, or an option of any number, shows a number: a double is always written
as one, a truth value by its name. -/
def shownNumber : Datum → Except Failure String
  | .bool b => .ok (Text.shownBool b)
  | .real x => .ok (realLayout.real x)
  | v => numberText v

/-- Whether a comparison holds of two values that ought to be numbers. -/
def compareNumber (c : Comparison) (a b : Datum) : Except Failure Bool :=
  (c.holds a b).mapError .fault

/-! ## The builder -/

/-- The arguments collected so far. -/
abbrev ArgList := List Arg

namespace ArgList

/-- What a step of the builder leaves: the arguments, and what went wrong if it was
broken off. -/
structure Added where
  args : ArgList
  failure? : Option Failure

/-- An argument, or why there is none. -/
def Added.ofLeaf : Except Failure Arg → Added
  | .ok a => ⟨[a], none⟩
  | .error e => ⟨[], some e⟩

/-- Arguments with others behind them, unless they were broken off. -/
def Added.followedBy (a : Added) (others : Unit → Added) : Added :=
  match a.failure? with
  | some _ => a
  | none => let b := others (); ⟨a.args ++ b.args, b.failure?⟩

mutual

/-- The arguments in a value: texts, octet strings and numbers as they are, a container
part by part. -/
def partsOf : Datum → Added
  | .text s => ⟨[.text s], none⟩
  | .octets w => ⟨[.octets w], none⟩
  | .int n => .ofLeaf ((wholeText n).map .text)
  | .real x => ⟨[.text (realText x)], none⟩
  | .list vs => partsOfRow vs
  | .tuple vs => partsOfRow vs
  | .set vs => partsOfRow vs
  | .mapping ps => partsOfKeys ps
  | v => ⟨[], some (.argumentType v.typeName)⟩

/-- The arguments in values, in order. -/
def partsOfRow : List Datum → Added
  | [] => ⟨[], none⟩
  | v :: vs => (partsOf v).followedBy fun _ => partsOfRow vs

/-- The arguments in the keys of a mapping, in order. -/
def partsOfKeys : List (Datum × Datum) → Added
  | [] => ⟨[], none⟩
  | (k, _) :: ps => (partsOf k).followedBy fun _ => partsOfKeys ps

end

/-- Appends the arguments in a value. -/
def add (args : ArgList) (v : Datum) : Added :=
  let parts := partsOf v
  ⟨args ++ parts.args, parts.failure?⟩

/-- Appends a value only if a condition holds. -/
def addIf (args : ArgList) (v : Datum) (condition : Bool) : Added :=
  if condition then args.add v else ⟨args, none⟩

/-- The arguments, or why the last step was broken off. -/
def Added.toExcept (a : Added) : Except Failure ArgList :=
  match a.failure? with
  | none => .ok a.args
  | some e => .error e

end ArgList

end BatchStore
