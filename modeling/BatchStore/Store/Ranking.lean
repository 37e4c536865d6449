import BatchStore.Datum.Order
import BatchStore.Sorting

/-!
# Ranking the members of a sorted set

Members are ranked by score and, where scores are the same, by the member. `ranked` puts
the members of a sorted set in this order.

Where every member is a string of octets and every score a double other than NaN the
order is total, and any stable sort finds it. A restored set may hold other values: then
the comparison may break down, and NaN, which comes neither before nor after any score,
makes the result hang on the steps of the sort.
-/

namespace BatchStore

/-- A member with its score. -/
abbrev Scored := Datum × Datum

namespace Scored

/-- Whether a member is a string of octets with a double other than NaN for a score. -/
def isPlain : Scored → Bool
  | (.octets _, .real x) => !x.isNaN
  | _ => false

/-- Whether a plain member ranks before another. -/
def isBefore : Scored → Scored → Bool
  | (.octets v, .real x), (.octets w, .real y) => x < y || (x == y && v < w)
  | _, _ => false

/-- Whether a member ranks before another. -/
def before (a b : Scored) : Except Fault Bool :=
  if Datum.same a.2 b.2 then Comparison.less.holds a.1 b.1 else Comparison.less.holds a.2 b.2

end Scored

/-- Members in rising order of score, then of the member. -/
def ranked (members : List Scored) : Except Fault (List Scored) :=
  if members.all Scored.isPlain then .ok (members.mergeSort fun a b => !Scored.isBefore b a)
  else Sorting.sort Scored.before members

end BatchStore
