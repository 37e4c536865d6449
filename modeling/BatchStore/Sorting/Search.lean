/-!
# Searching in runs

A row in rising order falls into a part in front, whose elements pass a test, and the
rest. `leading` finds how long the part in front is: it leaps over 1, 3, 7, … elements
until one fails the test, and then halves what is left between the last two leaps.

A row may be looked at from either end. Where the middle of an odd stretch lies is
reckoned in the direction in which the row rises, so the far side is rounded to on the
way back. That makes no difference on a row in rising order; on any other row it decides
which of the places between an element that passes and one that fails is found.
-/

namespace BatchStore.Sorting

variable {α ε : Type}

/-- A question about two elements, which may break down: whether the first comes before
the second. -/
abbrev Before (ε α : Type) := α → α → Except ε Bool

/-- The end from which rows are looked at. -/
inductive Side where
  | front
  | back
deriving DecidableEq, Repr

/-- The middle of the places from `low` up to below `high`. -/
def Side.middle (side : Side) (low high : Nat) : Nat :=
  match side with
  | .front => low + (high - low) / 2
  | .back => high - 1 - (high - low) / 2

/-- Finds by halving where the elements from `low` up to below `high` stop passing a
test. -/
def halve (side : Side) (test : α → Except ε Bool) (xs : List α) :
    Nat → Nat → Nat → Except ε Nat
  | 0, low, _ => .ok low
  | fuel + 1, low, high =>
    if high ≤ low then .ok low
    else
      let middle := side.middle low high
      match xs[middle]? with
      | none => .ok low
      | some x => do
        if ← test x then halve side test xs fuel (middle + 1) high
        else halve side test xs fuel low middle

/-- Leaps until an element fails a test: the last place that passed, and the first found
to fail or the end. -/
def leap (test : α → Except ε Bool) (xs : List α) : Nat → Nat → Nat → Except ε (Nat × Nat)
  | 0, passed, _ => .ok (passed, xs.length)
  | fuel + 1, passed, next =>
    match xs[next]? with
    | none => .ok (passed, xs.length)
    | some x => do
      if ← test x then leap test xs fuel next (2 * next + 1) else return (passed, next)

/-- How many elements in front pass a test. -/
def leading (side : Side) (test : α → Except ε Bool) (xs : List α) : Except ε Nat :=
  match xs with
  | [] => .ok 0
  | x :: _ => do
    if ← test x then
      let (passed, failed) ← leap test xs xs.length 0 1
      halve side test xs xs.length (passed + 1) failed
    else return 0

/-- The opposite of a test. -/
def fails (test : Except ε Bool) : Except ε Bool := test.map (!·)

/-- Where an element belongs in a run: behind those that do not come after it. -/
def placeIn (before : Before ε α) (x : α) (run : List α) : Except ε Nat :=
  halve .front (fun y => fails (before x y)) run run.length 0 run.length

end BatchStore.Sorting
