import BatchStore.Store.Words
import BatchStore.Window

/-!
# Lists

A list is pushed to and popped from at both ends. Ranges take the last place in, and a
negative place counts back from the end. A list that loses its last element is gone.
-/

namespace BatchStore.Lists

/-- An end of a list. -/
inductive End where
  | left
  | right
deriving DecidableEq, Repr

/-- Puts elements at an end one after another. -/
def push (items : List Datum) : End → List Octets → List Datum
  | .left, elements => (elements.map .octets).reverse ++ items
  | .right, elements => items ++ elements.map .octets

/-- Takes an element off an end. -/
def pop? (items : List Datum) : End → Option (Datum × List Datum)
  | .left => items.head?.map (·, items.drop 1)
  | .right => items.getLast?.map (·, items.dropLast)

/-- LPUSH and RPUSH key element …: answers the new length. -/
def pushStep (e : End) (elements : List Octets) : KeyStep := fun seen => do
  let old := (← expect Value.list? seen).getD []
  let new := push old e elements
  return (.int new.length, some (.replace seen (.list new)))

/-- LPOP and RPOP key. -/
def popStep (e : End) : KeyStep := fun seen => do
  let old := (← expect Value.list? seen).getD []
  match pop? old e with
  | none => keep seen .null
  | some (element, new) => return (element, Entry.replaceUnlessEmpty seen (.list new))

/-- LLEN key. -/
def llen : KeyStep := fun seen => do
  keep seen (.int ((← expect Value.list? seen).getD []).length)

/-- The elements between two places, the last one included. The first place is kept
from falling in front of the list; the last place is taken as it comes out. -/
def range {α : Type} (xs : List α) (first last : Int) : List α :=
  let n : Int := xs.length
  let first := if first < 0 then max (n + first) 0 else first
  let last := if last < 0 then n + last else last
  window xs first (min last (n - 1) + 1)

/-- LRANGE key first last: the kind of the value is looked at before the places. -/
def lrange (first last : Octets) : KeyStep := fun seen => do
  let items := (← expect Value.list? seen).getD []
  let first ← readInt first
  let last ← readInt last
  keep seen (.list (range items first last))

/-! ## LPOS -/

/-- What LPOS looks for: the occurrence and how many elements it may compare; zero
stands for all. -/
structure Search where
  rank : Int := 1
  maxLen : Int := 0

/-- Reads the options of LPOS. -/
def Search.read (q : Search) : List Octets → Except Halt Search
  | [] => .ok q
  | [_] => refuse .syntaxError
  | w :: v :: rest =>
    match Keyword.ofOctets? w with
    | some .rank => do
      let rank ← readInt v
      if rank = 0 then refuse .zeroRank else Search.read { q with rank } rest
    | some .maxlen => do
      let maxLen ← readInt v
      Search.read { q with maxLen } rest
    | _ => refuse .syntaxError

/-- The elements with their places, in the order in which they are compared. -/
def Search.candidates (q : Search) (items : List Datum) : List (Datum × Nat) :=
  let all := if 0 < q.rank then items.zipIdx else items.zipIdx.reverse
  if q.maxLen = 0 then all else all.take q.maxLen.toNat

/-- The place of the occurrence that is looked for. -/
def Search.find? (q : Search) (items : List Datum) (element : Datum) : Option Nat :=
  (((q.candidates items).filter fun c => c.1 == element).drop (q.rank.natAbs - 1)).head?.map (·.2)

/-- LPOS key element, with the options read. -/
def lposStep (q : Search) (element : Octets) : KeyStep := fun seen => do
  let items := (← expect Value.list? seen).getD []
  keep seen ((q.find? items (.octets element)).elim .null fun i => .int i)

/-- LPOS key element options. -/
def lpos (now : Float) (key element : Octets) (options : List Octets) : Step :=
  Store.given (Search.read {} options) fun q => Store.onKey now key (lposStep q element)

end BatchStore.Lists
