import BatchStore.Number.Shortest

/-!
# Doubles with a fixed number of places

`fixed places x` writes `x` with that many digits behind the point, rounded from
the exact value, a tie going to the even neighbour.
-/

namespace BatchStore.Number

/-- Writes `units / 10 ^ places`. -/
def pointText (places units : Nat) : String :=
  let digits := padLeft (places + 1) (digitText units)
  String.ofList (digits.toList.take (digits.length - places)) ++ "."
    ++ String.ofList (digits.toList.drop (digits.length - places))

/-- Writes a double with `places` digits behind the point. -/
def fixed (places : Nat) (x : Float) : String :=
  match Dyadic.ofFloat? x with
  | some d =>
    (if d.negative then "-" else "") ++ pointText places (roundDiv (d.num * tenTo places) d.den)
  | none => if x.isNaN then "nan" else if x < 0 then "-inf" else "inf"

end BatchStore.Number
