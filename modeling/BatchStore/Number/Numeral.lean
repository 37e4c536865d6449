import BatchStore.Octets
import BatchStore.Number.Dyadic

/-!
# Reading numbers

Octet strings that stand for whole numbers and for doubles. Blanks at the ends
and single underscores between digits are passed over. A whole number may have at
most `maxDigits` digits; a real may also be an infinity or NaN, and one past the
largest double reads as an infinity.
-/

namespace BatchStore.Number

/-- The longest whole number that is read or written. -/
def maxDigits : Nat := 4300

def isDigit (b : UInt8) : Bool := 48 ≤ b && b ≤ 57

/-- The number that a row of digits stands for. -/
def ofDigits (ds : Octets) : Nat :=
  ds.foldl (fun n b => 10 * n + (b.toNat - 48)) 0

theorem foldl_digits (n : Nat) (ds : Octets) :
    ds.foldl (fun n b => 10 * n + (b.toNat - 48)) n = n * tenTo ds.length + ofDigits ds := by
  induction ds generalizing n with
  | nil => simp [ofDigits, tenTo]
  | cons d ds ih =>
    have hFirst : ofDigits (d :: ds) = (d.toNat - 48) * tenTo ds.length + ofDigits ds := by
      have hFold := ih (10 * 0 + (d.toNat - 48))
      rw [Nat.mul_zero, Nat.zero_add] at hFold
      simpa [ofDigits] using hFold
    have hPlaces : tenTo (d :: ds).length = 10 * tenTo ds.length := by
      rw [List.length_cons, Nat.mul_comm]
      rfl
    rw [List.foldl_cons, ih, hFirst, hPlaces, Nat.add_mul, ← Nat.mul_assoc, Nat.mul_comm n 10,
      Nat.add_assoc]

/-- Digits in front count for as many places as there are behind. -/
theorem ofDigits_append (xs ys : Octets) :
    ofDigits (xs ++ ys) = ofDigits xs * tenTo ys.length + ofDigits ys := by
  rw [ofDigits, List.foldl_append, foldl_digits, ← ofDigits]

/-- The same number, read in halves: long rows take far fewer steps that way. -/
def ofLongDigits : Nat → Octets → Nat
  | 0, ds => ofDigits ds
  | depth + 1, ds =>
    if ds.length ≤ 64 then ofDigits ds
    else
      let front := ds.take (ds.length / 2)
      let back := ds.drop (ds.length / 2)
      ofLongDigits depth front * tenTo back.length + ofLongDigits depth back

theorem ofLongDigits_eq (depth : Nat) (ds : Octets) : ofLongDigits depth ds = ofDigits ds := by
  induction depth generalizing ds with
  | zero => rfl
  | succ depth ih =>
    simp only [ofLongDigits, ih]
    split
    · rfl
    · rw [← ofDigits_append, List.take_append_drop]

/-- Takes out the underscores; each must stand between two digits. `afterDigit` says
whether a digit came just before. -/
def dropSeparators (afterDigit : Bool) : Octets → Option Octets
  | [] => some []
  | [b] => if b == 95 then none else some [b]
  | b :: c :: rest =>
    if b == 95 then
      if afterDigit && isDigit c then dropSeparators false (c :: rest) else none
    else (dropSeparators (isDigit b) (c :: rest)).map (b :: ·)

/-- Splits off a sign; `true` is minus. -/
def splitSign : Octets → Bool × Octets
  | 43 :: rest => (false, rest)
  | 45 :: rest => (true, rest)
  | w => (false, w)

/-- The digits of a numeral, trimmed and without separators. -/
def numeral? (w : Octets) : Option Octets := dropSeparators false w.trim

/-- The whole number that a string stands for. -/
def int? (w : Octets) : Option Int := do
  let (negative, ds) := splitSign (← numeral? w)
  if ds.isEmpty || !ds.all isDigit || maxDigits < ds.length then none
  else
    let n : Int := ofDigits ds
    some (if negative then -n else n)

/-- The text of a whole number, which has at most `maxDigits` digits. -/
def intText? (n : Int) : Option String :=
  if n.natAbs < tenTo maxDigits then some (toString n) else none

/-! ## Doubles -/

/-- Splits off the digits at the front. -/
def spanDigits (w : Octets) : Octets × Octets := (w.takeWhile isDigit, w.dropWhile isDigit)

/-- What follows the digits of a decimal: nothing, or an exponent. -/
def exponent? : Octets → Option Int
  | [] => some 0
  | b :: rest =>
    if b == 101 || b == 69 then
      let (negative, ds) := splitSign rest
      if ds.isEmpty || !ds.all isDigit then none
      else
        let n := ofLongDigits (ds.length.log2) ds
        some (if negative then -(n : Int) else n)
    else none

def infinity : Float := 1.0 / 0.0

def notANumber : Float := 0.0 / 0.0

/-- A decimal of at least `10 ^ mostPlaces` is past the largest double, and one of less than
`10 ^ -mostPlaces` is nearer to zero than to the smallest double. -/
def mostPlaces : Int := 330

/-- The double nearest to `digits · 10 ^ exponent`. What is out of the range of doubles is
told by the place of its first digit alone. -/
def ofDecimal (digits : Octets) (exponent : Int) : Float :=
  let significant := digits.dropWhile (· == 48)
  let point : Int := significant.length + exponent
  if significant.isEmpty || point < -mostPlaces then 0.0
  else if mostPlaces < point then infinity
  else
    let n := ofLongDigits significant.length.log2 significant
    Float.ofScientific n (exponent < 0) exponent.natAbs

/-- Reads digits, perhaps with a point among them, and perhaps an exponent. -/
def magnitude? (w : Octets) : Option Float :=
  let (whole, rest) := spanDigits w
  let (fraction, rest) :=
    match rest with
    | 46 :: rest => spanDigits rest
    | rest => ([], rest)
  if whole.isEmpty && fraction.isEmpty then none
  else (exponent? rest).map fun e => ofDecimal (whole ++ fraction) (e - fraction.length)

/-- The double that a string stands for. -/
def real? (w : Octets) : Option Float := do
  let (negative, body) := splitSign (← numeral? w)
  let name := body.lower
  let x ←
    if name == Octets.ofText "inf" || name == Octets.ofText "infinity" then some infinity
    else if name == Octets.ofText "nan" then some notANumber
    else magnitude? body
  some (if negative then -x else x)

end BatchStore.Number
