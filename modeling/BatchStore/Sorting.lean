import BatchStore.Sorting.Merge

/-!
# Sorting by merging runs

`sort` puts a row in rising order, elements that are level staying in their order. It
takes the runs that the row already has, fills short ones up by insertion, and merges
neighbours. Between two neighbouring runs lies a boundary, and the power of a boundary
says at which level of an even division of the whole row it falls; runs are merged where
the power is greatest.

The comparison may be any function, also one that orders nothing, such as that of
numbers among which NaN is. Then the result is still a fixed arrangement of the row, the
one that these steps lead to.
-/

namespace BatchStore.Sorting

variable {α ε : Type}

/-! ## Runs -/

/-- Splits off the longest part that goes on falling, or goes on not falling, behind an
element. -/
def spanRun (before : Before ε α) (falling : Bool) (last : α) :
    List α → Except ε (List α × List α)
  | [] => .ok ([], [])
  | x :: xs => do
    let falls ← before x last
    if falls == falling then
      let (run, rest) ← spanRun before falling x xs
      return (x :: run, rest)
    else return ([], x :: xs)

/-- Splits off the run in front: the longest part that does not fall, or one that falls
all the way, which is turned round. -/
def takeRun (before : Before ε α) : List α → Except ε (List α × List α)
  | x :: y :: rest => do
    let falling ← before y x
    let (run, rest) ← spanRun before falling y rest
    let run := x :: y :: run
    return (if falling then run.reverse else run, rest)
  | xs => .ok (xs, [])

/-- Puts elements into a run one by one. -/
def insertEach (before : Before ε α) (run : List α) : List α → Except ε (List α)
  | [] => .ok run
  | x :: xs => do
    let place ← placeIn before x run
    insertEach before (run.take place ++ x :: run.drop place) xs

/-- Splits off a run in front of at least the given length, if there are so many. -/
def takeLongRun (before : Before ε α) (least : Nat) (xs : List α) :
    Except ε (List α × List α) := do
  let (run, rest) ← takeRun before xs
  let missing := least - run.length
  return (← insertEach before run (rest.take missing), rest.drop missing)

/-- The length that runs are filled up to: the whole of a short row, else between 32 and
64, so that the row is cut into a power of two of parts or a little less. -/
def leastRun (n dropped : Nat) : Nat :=
  if n < 64 then n + dropped else leastRun (n / 2) (max dropped (n % 2))
termination_by n
decreasing_by omega

/-! ## Boundaries -/

/-- The place in binary at which two fractions of `n` first differ. -/
def differAt (n : Nat) : Nat → Nat → Nat → Nat
  | 0, _, _ => 0
  | fuel + 1, a, b =>
    if n ≤ a then differAt n fuel (2 * (a - n)) (2 * (b - n)) + 1
    else if n ≤ b then 1
    else differAt n fuel (2 * a) (2 * b) + 1

/-- The power of the boundary between two runs of a row of `n`: the place at which their
midpoints first differ, as fractions of the row. -/
def boundaryPower (n start left right : Nat) : Nat :=
  let middle := 2 * start + left
  differAt n (n + 1) middle (middle + left + right)

/-- A run that waits to be merged, with the place where it begins and the power of the
boundary behind it. -/
structure Pending (α : Type) where
  start : Nat
  items : List α
  power : Nat := 0

/-- Merges the last two pending runs. -/
def Pending.join (before : Before ε α) (threshold : Nat) (left right : Pending α) :
    Except ε (Pending α × Nat) := do
  let (items, threshold) ← mergeRuns before threshold left.items right.items
  return ({ left with items }, threshold)

/-- Merges the last run with those in front of it up to a boundary of at most the given
power. -/
def settleTo (before : Before ε α) (power threshold : Nat) (top : Pending α) :
    List (Pending α) → Except ε (List (Pending α) × Nat)
  | [] => .ok ([{ top with power }], threshold)
  | below :: rest =>
    if power < below.power then do
      let (top, threshold) ← below.join before threshold top
      settleTo before power threshold top rest
    else .ok ({ top with power } :: below :: rest, threshold)

/-- Adds a run behind the pending ones of a row of `n`, the last of which come first. -/
def push (before : Before ε α) (n threshold : Nat) (run : List α) :
    List (Pending α) → Except ε (List (Pending α) × Nat)
  | [] => .ok ([{ start := 0, items := run }], threshold)
  | top :: rest => do
    let start := top.start + top.items.length
    let power := boundaryPower n top.start top.items.length run.length
    let (pending, threshold) ← settleTo before power threshold top rest
    return ({ start, items := run } :: pending, threshold)

/-- Cuts a row into runs and merges where the powers ask for it. -/
def pushAll (before : Before ε α) (n least : Nat) :
    Nat → Nat → List (Pending α) → List α → Except ε (List (Pending α) × Nat)
  | _, threshold, pending, [] => .ok (pending, threshold)
  | 0, threshold, pending, _ => .ok (pending, threshold)
  | fuel + 1, threshold, pending, x :: xs => do
    let (run, rest) ← takeLongRun before least (x :: xs)
    let (pending, threshold) ← push before n threshold run pending
    pushAll before n least fuel threshold pending rest

/-- Merges all that is pending: the last run with the one in front of it, unless the one
before that is the shorter. -/
def joinAll (before : Before ε α) (threshold : Nat) (last middle : Pending α) :
    List (Pending α) → Except ε (List α)
  | [] => do
    let (whole, _) ← middle.join before threshold last
    return whole.items
  | first :: rest =>
    if first.items.length < last.items.length then do
      let (joined, threshold) ← first.join before threshold middle
      joinAll before threshold last joined rest
    else do
      let (joined, threshold) ← middle.join before threshold last
      joinAll before threshold joined first rest

/-- A row in rising order. -/
def sort (before : Before ε α) (xs : List α) : Except ε (List α) := do
  let n := xs.length
  let (pending, threshold) ← pushAll before n (leastRun n 0) n gallopPays [] xs
  match pending with
  | [] => return xs
  | [whole] => return whole.items
  | last :: middle :: rest => joinAll before threshold last middle rest

end BatchStore.Sorting
