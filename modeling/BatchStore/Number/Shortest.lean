import BatchStore.Number.Dyadic

/-!
# Shortest decimal text of a double

A double stands for every real that rounds to it. `shortest` finds the decimal
with the fewest digits among these, and of two such the nearer one. It looks at
one decimal grid after another, the coarsest first: if any point of a grid rounds
to the double, so does one of the two grid points next to the double itself.

`Layout` says how the digits are written down: which magnitudes are written out
and which take an exponent.
-/

namespace BatchStore.Number

/-- The decimal `digits · 10 ^ exponent`. -/
structure Decimal where
  digits : Nat
  exponent : Int
deriving DecidableEq, Repr

/-- The reals that round to a positive double, as multiples of a quarter of its
last place: the double is `4 · mantissa`, and the ends belong to the range iff the
mantissa is even. Below a power of two the doubles lie twice as close. -/
structure Basin where
  low : Nat
  centre : Nat
  high : Nat
  closed : Bool
  /-- What one quarter is worth, as a fraction. -/
  num : Nat
  den : Nat

namespace Basin

def ofDyadic (d : Dyadic) : Basin :=
  let lowGap := if d.mantissa == twoTo 52 && -1074 < d.exponent then 1 else 2
  { low := 4 * d.mantissa - lowGap
    centre := 4 * d.mantissa
    high := 4 * d.mantissa + 2
    closed := d.mantissa % 2 == 0
    num := twoTo (d.exponent - 2).toNat
    den := twoTo (2 - d.exponent).toNat }

/-- Whether `c · 10 ^ q` rounds to the double. -/
def holds (b : Basin) (c : Nat) (q : Int) : Bool :=
  let point := c * tenTo q.toNat * b.den
  let unit := tenTo (-q).toNat * b.num
  if b.closed then b.low * unit ≤ point && point ≤ b.high * unit
  else b.low * unit < point && point < b.high * unit

/-- The grid point at or below the double, and twice the distance from it to the
double against one step of the grid. -/
def below (b : Basin) (q : Int) : Nat × Ordering :=
  let num := b.centre * b.num * tenTo (-q).toNat
  let den := b.den * tenTo q.toNat
  (num / den, compare (2 * (num % den)) den)

/-- The point of the grid `10 ^ q` that stands for the double, if one does. -/
def onGrid? (b : Basin) (q : Int) : Option Decimal :=
  let (c, distance) := b.below q
  match b.holds c q && c != 0, b.holds (c + 1) q with
  | false, false => none
  | true, false => some ⟨c, q⟩
  | false, true => some ⟨c + 1, q⟩
  | true, true =>
    match distance with
    | .lt => some ⟨c, q⟩
    | .gt => some ⟨c + 1, q⟩
    | .eq => some ⟨c + c % 2, q⟩

/-- The first hit on the grids `10 ^ q`, `10 ^ (q - 1)`, … -/
def search (b : Basin) : Nat → Int → Option Decimal
  | 0, _ => none
  | fuel + 1, q => b.onGrid? q <|> b.search fuel (q - 1)

end Basin

/-- The count of decimal digits of a number. -/
def digitCount (n : Nat) : Nat := (Nat.toDigits 10 n).length

/-- A power of ten above the magnitude, not more than two too large. -/
def Dyadic.topExponent (d : Dyadic) : Int :=
  if d.den ≤ d.num then digitCount (d.num / d.den)
  else 2 - digitCount (d.den / d.num)

/-- The fewest digits that read back, nearest first. A double needs at most 17
digits, and the search starts up to two places too high. -/
def shortest (d : Dyadic) : Decimal :=
  if d.mantissa == 0 then ⟨0, 0⟩
  else ((Basin.ofDyadic d).search 20 d.topExponent).getD ⟨d.mantissa, d.exponent⟩

/-! ## Writing the digits -/

/-- How decimals are laid out. The point stands behind as many digits as its place
says, counted from the first digit. -/
structure Layout where
  /-- The smallest place of the point that is still written out. -/
  minPoint : Int
  /-- The largest such place. -/
  maxPoint : Int
  /-- What a whole number ends in. -/
  wholeMark : String
  /-- The least count of digits in an exponent. -/
  exponentDigits : Nat

/-- Decimal digits of a number. -/
def digitText (n : Nat) : String := String.ofList (Nat.toDigits 10 n)

/-- Fills up with zeros on the left. -/
def padLeft (width : Nat) (s : String) : String :=
  String.ofList (List.replicate (width - s.length) '0') ++ s

/-- The digits without the zeros at their end. -/
def trimZeros (digits : List Char) : List Char :=
  (digits.reverse.dropWhile (· == '0')).reverse

/-- Writes `0.d₁d₂… · 10 ^ point`. -/
def Layout.place (l : Layout) (digits : List Char) (point : Int) : String :=
  if l.minPoint ≤ point && point ≤ l.maxPoint then
    if point ≤ 0 then
      "0." ++ String.ofList (List.replicate (-point).toNat '0' ++ digits)
    else if digits.length ≤ point.toNat then
      String.ofList (digits ++ List.replicate (point.toNat - digits.length) '0') ++ l.wholeMark
    else
      String.ofList (digits.take point.toNat) ++ "." ++ String.ofList (digits.drop point.toNat)
  else
    let exponent := point - 1
    let fraction :=
      match digits.drop 1 with
      | [] => ""
      | rest => "." ++ String.ofList rest
    String.ofList (digits.take 1) ++ fraction ++ "e" ++ (if exponent < 0 then "-" else "+")
      ++ padLeft l.exponentDigits (digitText exponent.natAbs)

/-- Writes the magnitude of a finite double. -/
def Layout.magnitude (l : Layout) (d : Dyadic) : String :=
  let decimal := shortest d
  if decimal.digits == 0 then "0" ++ l.wholeMark
  else
    let digits := Nat.toDigits 10 decimal.digits
    l.place (trimZeros digits) (digits.length + decimal.exponent)

/-- Writes a double. -/
def Layout.real (l : Layout) (x : Float) : String :=
  match Dyadic.ofFloat? x with
  | some d => (if d.negative then "-" else "") ++ l.magnitude d
  | none => if x.isNaN then "nan" else if x < 0 then "-inf" else "inf"

end BatchStore.Number
