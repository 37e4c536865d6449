import BatchStore.Datum.Same
import BatchStore.Fault

/-!
# The order of values

Numbers come in the order of their worth, which is compared exactly, whatever their
types; texts and octet strings in that of their units; lists and tuples in that of the
first place where they are not the same. A set comes before the sets that hold more than
it does. NaN has no place among numbers, nor have two sets of which neither holds the
other, and every comparison of such a pair fails to hold.

Values of other types cannot be compared at all, which is a fault.
-/

namespace BatchStore

namespace Number

/-- How two doubles stand to each other; NaN stands nowhere. -/
def compareReals? (x y : Float) : Option Ordering :=
  if x < y then some .lt
  else if x == y then some .eq
  else if y < x then some .gt
  else none

/-- How a whole number stands to a double. -/
def compareWhole? (n : Int) (x : Float) : Option Ordering :=
  match Dyadic.ofFloat? x with
  | some d => some (compare (n * d.den) (d.signed d.num))
  | none => if x.isNaN then none else some (if 0.0 < x then .lt else .gt)

end Number

/-- The types of two values that cannot be compared. -/
structure Unordered where
  left : String
  right : String
deriving DecidableEq, Repr

namespace Datum

/-- The whole number that a value of a whole type is. -/
def integer? : Datum → Option Int
  | bool b => some (if b then 1 else 0)
  | int n => some n
  | _ => none

/-- How two numbers stand to each other; `none` if one of the two is no number. -/
def compareNumbers? : Datum → Datum → Option (Option Ordering)
  | real x, real y => some (Number.compareReals? x y)
  | real x, b => b.integer?.map fun n => (Number.compareWhole? n x).map Ordering.swap
  | a, real y => a.integer?.map fun n => Number.compareWhole? n y
  | a, b =>
    match a.integer?, b.integer? with
    | some m, some n => some (some (compare m n))
    | _, _ => none

/-- How two sets stand to each other. -/
def compareSets? (a b : List Datum) : Option Ordering :=
  match sameAmong b a, sameAmong a b with
  | true, true => some .eq
  | true, false => some .lt
  | false, true => some .gt
  | false, false => none

mutual

/-- How two values stand to each other. -/
def compare? : Datum → Datum → Except Unordered (Option Ordering)
  | text a, text b => .ok (some (compareOfLessAndEq a b))
  | octets a, octets b => .ok (some (compareOfLessAndEq a b))
  | list a, list b => compareRows? a b
  | tuple a, tuple b => compareRows? a b
  | set a, set b => .ok (compareSets? a b)
  | a, b =>
    match compareNumbers? a b with
    | some o => .ok o
    | none => .error ⟨a.typeName, b.typeName⟩

/-- How two rows stand to each other: a row comes before its continuations. -/
def compareRows? : List Datum → List Datum → Except Unordered (Option Ordering)
  | [], [] => .ok (some .eq)
  | [], _ :: _ => .ok (some .lt)
  | _ :: _, [] => .ok (some .gt)
  | a :: as, b :: bs => if same a b then compareRows? as bs else compare? a b

end

end Datum

/-- A question about the order of two values. -/
inductive Comparison where
  | less
  | atMost
  | greater
  | atLeast
deriving DecidableEq, Repr

namespace Comparison

/-- The sign of a comparison. -/
def sign : Comparison → String
  | less => "<"
  | atMost => "<="
  | greater => ">"
  | atLeast => ">="

/-- Whether a comparison holds of values that stand to each other in a certain way. -/
def admits : Comparison → Option Ordering → Bool
  | less, some .lt => true
  | atMost, some .lt | atMost, some .eq => true
  | greater, some .gt => true
  | atLeast, some .gt | atLeast, some .eq => true
  | _, _ => false

/-- Whether a comparison holds of two values. -/
def holds (c : Comparison) (a b : Datum) : Except Fault Bool :=
  match a.compare? b with
  | .ok o => .ok (c.admits o)
  | .error u => .error (.unordered c.sign u.left u.right)

end Comparison

end BatchStore
