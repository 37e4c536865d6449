/-!
# Doubles as exact numbers

A finite double is a whole number times a power of two. `Dyadic.ofFloat?` takes a
double apart, and what has to be exact is then computed on whole numbers: cutting
off the fraction, rounding to the nearest whole number, and the quotients that
the printers work with.
-/

namespace BatchStore.Number

/-- A power of two. -/
abbrev twoTo (n : Nat) : Nat := Nat.pow 2 n

/-- A power of ten. -/
abbrev tenTo (n : Nat) : Nat := Nat.pow 10 n

theorem twoTo_pos (n : Nat) : 0 < twoTo n := Nat.two_pow_pos n

theorem tenTo_pos (n : Nat) : 0 < tenTo n := Nat.pow_pos (by decide)

/-- The number `± mantissa · 2 ^ exponent`. -/
structure Dyadic where
  negative : Bool
  mantissa : Nat
  exponent : Int
deriving DecidableEq, Repr

namespace Dyadic

/-- The parts of a finite double; `none` for an infinity and for NaN. -/
def ofFloat? (x : Float) : Option Dyadic :=
  let bits : Nat := x.toBits.toNat
  let negative := bits / twoTo 63 == 1
  let biased : Nat := bits / twoTo 52 % 2048
  let fraction : Nat := bits % twoTo 52
  if biased == 2047 then none
  else if biased == 0 then some ⟨negative, fraction, -1074⟩
  else some ⟨negative, twoTo 52 + fraction, (biased : Int) - 1075⟩

/-- Numerator of the magnitude over `den`. -/
def num (d : Dyadic) : Nat := d.mantissa * twoTo d.exponent.toNat

/-- Denominator of the magnitude. -/
def den (d : Dyadic) : Nat := twoTo (-d.exponent).toNat

theorem den_pos (d : Dyadic) : 0 < d.den := twoTo_pos _

/-- Puts the sign back. -/
def signed (d : Dyadic) (magnitude : Nat) : Int :=
  if d.negative then -magnitude else magnitude

/-- The number with its fraction cut off. -/
def truncate (d : Dyadic) : Int := d.signed (d.num / d.den)

/-- Whether there is no fraction to cut off. -/
def isWhole (d : Dyadic) : Bool := d.num % d.den == 0

end Dyadic

/-- The whole number nearest to `num / den`, a tie going to the even one. -/
def roundDiv (num den : Nat) : Nat :=
  let q := num / den
  let r := num % den
  if 2 * r < den then q
  else if den < 2 * r then q + 1
  else q + q % 2

/-- The rounded quotient is off by at most one half. -/
theorem roundDiv_near (num den : Nat) (h : 0 < den) :
    2 * num ≤ 2 * (roundDiv num den * den) + den ∧
      2 * (roundDiv num den * den) ≤ 2 * num + den := by
  have hSplit := Nat.div_add_mod num den
  have hRem := Nat.mod_lt num h
  rw [Nat.mul_comm] at hSplit
  simp only [roundDiv]
  split
  · omega
  · split
    · rw [Nat.add_mul, Nat.one_mul]; omega
    · rcases Nat.mod_two_eq_zero_or_one (num / den) with hEven | hOdd
      · rw [hEven, Nat.add_zero]; omega
      · rw [hOdd, Nat.add_mul, Nat.one_mul]; omega

/-- The nearest whole number, a tie going to the even one. -/
def Dyadic.round (d : Dyadic) : Int := d.signed (roundDiv d.num d.den)

/-- The double nearest to a whole number; `none` if that is past the largest one. -/
def ofInt? (n : Int) : Option Float :=
  let x := Float.ofInt n
  if x.isInf then none else some x

/-- The double nearest to a thousandth of a whole number; `none` if that is past
the largest one. -/
def thousandth? (n : Int) : Option Float :=
  let x := Float.ofScientific n.natAbs true 3
  if x.isInf then none else some (if n < 0 then -x else x)

/-- The double nearest to a millionth of a whole number. -/
def millionth (n : Int) : Float :=
  let x := Float.ofScientific n.natAbs true 6
  if n < 0 then -x else x

end BatchStore.Number
