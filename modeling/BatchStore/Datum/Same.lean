import BatchStore.Datum
import BatchStore.Number.Dyadic

/-!
# Values that are worth the same

Callers take numbers of one value for one, whatever their types: the whole number one,
the double one and truth are the same key of a mapping and the same element of a set.
Containers are the same if what they hold is, a set or mapping in any order. NaN is the
same as nothing, not even as itself.

`ofElements` and `ofPairs` build the set and the mapping of what a caller lists.
-/

namespace BatchStore

namespace Datum

/-- The whole number that a number equals, if it is whole. -/
def whole? : Datum → Option Int
  | bool b => some (if b then 1 else 0)
  | int n => some n
  | real x =>
    match Number.Dyadic.ofFloat? x with
    | some d => if d.isWhole then some d.truncate else none
    | none => none
  | _ => none

mutual

/-- Whether two values are worth the same. -/
def same : Datum → Datum → Bool
  | list a, list b => sameRow a b
  | tuple a, tuple b => sameRow a b
  | set a, set b => a.length == b.length && sameAmong b a
  | mapping a, mapping b => a.length == b.length && samePairsAmong b a
  | refusal a, refusal b => a.message == b.message
  | real a, real b => a == b
  | a, b =>
    match a.whole?, b.whole? with
    | some m, some n => m == n
    | _, _ => a == b

/-- Whether two rows are worth the same, place by place. -/
def sameRow : List Datum → List Datum → Bool
  | [], [] => true
  | a :: as, b :: bs => same a b && sameRow as bs
  | _, _ => false

/-- Whether each value has its like among others. -/
def sameAmong (others : List Datum) : List Datum → Bool
  | [] => true
  | a :: as => others.any (fun b => same a b) && sameAmong others as

/-- Whether each pair has its like among others. -/
def samePairsAmong (others : List (Datum × Datum)) : List (Datum × Datum) → Bool
  | [] => true
  | (k, v) :: ps =>
    others.any (fun e => same k e.1 && same v e.2) && samePairsAmong others ps

end

/-- Whether a row holds a value. -/
def isAmong (v : Datum) (row : List Datum) : Bool := row.any (same v)

/-- Adds an element unless it is there. -/
def addElement (elements : List Datum) (x : Datum) : List Datum :=
  if x.isAmong elements then elements else elements ++ [x]

/-- The set of the given elements. -/
def ofElements (xs : List Datum) : Datum := .set (xs.foldl addElement [])

/-- Writes a pair in place if its key is there, else at the end. -/
def putPair {ν : Type} (key : Datum) (value : ν) : List (Datum × ν) → List (Datum × ν)
  | [] => [(key, value)]
  | (k, v) :: rest =>
    if same key k then (k, value) :: rest else (k, v) :: putPair key value rest

/-- Writes pairs one after another. -/
def putPairs {ν : Type} (old new : List (Datum × ν)) : List (Datum × ν) :=
  new.foldl (fun ps e => putPair e.1 e.2 ps) old

/-- The mapping of the given pairs; a key keeps its first place and its last value. -/
def ofPairs (xs : List (Datum × Datum)) : Datum := .mapping (putPairs [] xs)

end Datum

end BatchStore
