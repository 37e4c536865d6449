import BatchStore.Sorting.Search

/-!
# Merging two runs

Two neighbouring runs are merged from the end at which the shorter of them begins, one
element at a time. When one run has won often enough in a row, the merge gallops: it
searches how far that goes on. How many wins it takes is a threshold that falls while
galloping pays and rises when it stops paying; it is handed on from merge to merge.

Elements that are in place at the outer ends of the two runs are left out of the merge.
-/

namespace BatchStore.Sorting

variable {α ε : Type}

/-- Wins in a row that make galloping pay. -/
def gallopPays : Nat := 7

/-- What is left of two runs, and what has been merged, the last first. -/
structure Merge (α : Type) where
  left : List α
  right : List α
  merged : List α := []

namespace Merge

/-- Moves elements of the left run over. -/
def takeLeft (m : Merge α) (n : Nat) : Merge α :=
  { m with left := m.left.drop n, merged := (m.left.take n).reverse ++ m.merged }

/-- Moves elements of the right run over. -/
def takeRight (m : Merge α) (n : Nat) : Merge α :=
  { m with right := m.right.drop n, merged := (m.right.take n).reverse ++ m.merged }

/-- Whether nothing is left to compare: the shorter run is down to one element, which
belongs behind all others, or the longer is used up. -/
def isOver (side : Side) (m : Merge α) : Bool :=
  match side with
  | .front => m.right.isEmpty || (m.left.drop 1).isEmpty
  | .back => m.left.isEmpty || (m.right.drop 1).isEmpty

/-- The merged run, seen from the side from which it was merged. -/
def toList (side : Side) (m : Merge α) : List α :=
  match side with
  | .front => m.merged.reverse ++ m.right ++ m.left
  | .back => m.merged.reverse ++ m.left ++ m.right

/-- Whether of two elements, both next in their runs, the left one is taken. Of two that
are level the left one belongs in front. -/
def takesLeft (before : Before ε α) (side : Side) (a b : α) : Except ε Bool :=
  match side with
  | .front => fails (before b a)
  | .back => before b a

/-- A round of galloping: all that can be taken from the left run and one from the right,
then all from the right and one from the left. Says whether one of the two went far. -/
def gallop (before : Before ε α) (side : Side) (m : Merge α) : Except ε (Merge α × Bool) := do
  let some b := m.right.head? | return (m, false)
  let fromLeft ← leading side (fun a => takesLeft before side a b) m.left
  let m := m.takeLeft fromLeft
  if m.isOver side then return (m, false)
  let m := m.takeRight 1
  if m.isOver side then return (m, false)
  let some a := m.left.head? | return (m, false)
  let fromRight ← leading side (fun b => fails (takesLeft before side a b)) m.right
  let m := m.takeRight fromRight
  if m.isOver side then return (m, false)
  return (m.takeLeft 1, gallopPays ≤ fromLeft || gallopPays ≤ fromRight)

/-- How a merge goes on: element by element, with the wins in a row of either run so far,
or galloping. -/
inductive Pace where
  | steps (leftWins rightWins : Nat)
  | gallops

/-- The pace after another win. -/
def Pace.afterWin (threshold leftWins rightWins : Nat) : Pace :=
  if threshold ≤ leftWins + rightWins then .gallops else .steps leftWins rightWins

/-- Merges until nothing is left to compare. -/
def run (before : Before ε α) (side : Side) :
    Nat → Pace → Nat → Merge α → Except ε (Merge α × Nat)
  | 0, _, threshold, m => .ok (m, threshold)
  | fuel + 1, pace, threshold, m =>
    if m.isOver side then .ok (m, threshold)
    else
      match pace, m.left, m.right with
      | .steps leftWins rightWins, a :: _, b :: _ => do
        if ← takesLeft before side a b then
          run before side fuel (.afterWin threshold (leftWins + 1) 0) threshold (m.takeLeft 1)
        else
          run before side fuel (.afterWin threshold 0 (rightWins + 1)) threshold (m.takeRight 1)
      | _, _, _ => do
        let (m, far) ← gallop before side m
        if m.isOver side then return (m, threshold)
        else if far then run before side fuel .gallops (max 1 (threshold - 1)) m
        else run before side fuel (.steps 0 0) (threshold + 1) m

end Merge

/-- Merges two runs of which the last of the left one comes after the first of the right
one. -/
def mergeInner (before : Before ε α) (threshold : Nat) (left right : List α) :
    Except ε (List α × Nat) := do
  let fuel := left.length + right.length
  if left.length ≤ right.length then
    let start := Merge.takeRight { left, right } 1
    let (m, threshold) ← Merge.run before .front fuel (.steps 0 0) threshold start
    return (m.toList .front, threshold)
  else
    let start := Merge.takeLeft { left := left.reverse, right := right.reverse } 1
    let (m, threshold) ← Merge.run before .back fuel (.steps 0 0) threshold start
    return ((m.toList .back).reverse, threshold)

/-- Merges two neighbouring runs, with the threshold for galloping before and after. -/
def mergeRuns (before : Before ε α) (threshold : Nat) (left right : List α) :
    Except ε (List α × Nat) := do
  let some first := right.head? | return (left, threshold)
  let inPlace ← leading .front (fun a => fails (before first a)) left
  let some last := (left.drop inPlace).getLast? | return (left ++ right, threshold)
  let behind ← leading .back (fun b => fails (before b last)) right.reverse
  let inner := right.length - behind
  if inner = 0 then return (left ++ right, threshold)
  let (merged, threshold) ←
    mergeInner before threshold (left.drop inPlace) (right.take inner)
  return (left.take inPlace ++ merged ++ right.drop inner, threshold)

end BatchStore.Sorting
