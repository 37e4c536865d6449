import BatchStore.Options.Place
import BatchStore.Store.SortedSets

/-!
# Places as scores

GEOADD keeps places in a sorted set. The map of the earth is cut into a square of
`2 ^ 26` by `2 ^ 26` cells, and the score of a place is the number of its cell: the bits
of its column and of its row in turn, the column's first.
-/

namespace BatchStore.Places

/-- The bits of a column and of a row in turn, `bits` of each, the column's first. -/
def interleave : Nat → Nat → Nat → Nat
  | 0, _, _ => 0
  | bits + 1, column, row =>
    4 * interleave bits (column / 2) (row / 2) + 2 * (column % 2) + row % 2

/-- The bits of a coordinate of a cell. -/
def cellBits : Nat := 26

/-- The cell of a share of the map's width or height. -/
def cell (share : Float) : Nat :=
  min (Expiry.cut (share * 67108864.0)).toNat (Number.twoTo cellBits - 1)

/-- The score of a place on the map. -/
def score? (longitude latitude : Float) : Except Halt Float :=
  if -maxLongitude ≤ longitude && longitude ≤ maxLongitude
      && -maxLatitude ≤ latitude && latitude ≤ maxLatitude then
    let row := cell ((latitude + maxLatitude) / 170.10225756)
    let column := cell ((longitude + maxLongitude) / 360.0)
    .ok (Float.ofNat (interleave cellBits column row))
  else refuse (.invalidPoint longitude latitude)

/-- Which places GEOADD may write. -/
inductive Guard where
  | any
  | onlyNew
  | onlyOld
deriving DecidableEq, Repr

/-- The flags of GEOADD. -/
structure Flags where
  guard : Guard := .any
  changed : Bool := false
deriving DecidableEq, Repr

/-- Splits the flags off the front of the words. -/
def Flags.read (flags : Flags) : List Octets → Flags × List Octets
  | [] => (flags, [])
  | w :: rest =>
    match Keyword.ofOctets? w with
    | some .nx => Flags.read { flags with guard := .onlyNew } rest
    | some .xx => Flags.read { flags with guard := .onlyOld } rest
    | some .ch => Flags.read { flags with changed := true } rest
    | _ => (flags, w :: rest)

/-- Words taken three at a time; if some are left over it fails. -/
def triples : List Octets → Option (List (Octets × Octets × Octets))
  | [] => some []
  | a :: b :: c :: rest => (triples rest).map ((a, b, c) :: ·)
  | _ => none

/-- The members and scores of places. -/
def readPlaces : List (Octets × Octets × Octets) → Except Halt (List (Datum × Datum))
  | [] => .ok []
  | (longitude, latitude, member) :: rest => do
    let longitude ← readReal longitude
    let latitude ← readReal latitude
    let score ← score? longitude latitude
    return (.octets member, .real score) :: (← readPlaces rest)

/-- Whether the flags let a place be written over what the member had. -/
def Flags.allows (flags : Flags) (old? : Option Datum) : Bool :=
  match flags.guard with
  | .any => true
  | .onlyNew => old?.isNone
  | .onlyOld => old?.isSome

/-- Whether a write counts: that of a new member does, and under the flag that of a new
score. -/
def Flags.counts (flags : Flags) (old? : Option Datum) (score : Datum) : Bool :=
  match old? with
  | none => true
  | some old => flags.changed && !Datum.same old score

/-- Writes places one after another and counts. -/
def Flags.write (flags : Flags) (scores : Table Datum Datum) :
    List (Datum × Datum) → Table Datum Datum × Nat
  | [] => (scores, 0)
  | (member, score) :: rest =>
    let old? := scores.get? member
    if flags.allows old? then
      let (after, n) := flags.write (scores.put member score) rest
      (after, if flags.counts old? score then n + 1 else n)
    else flags.write scores rest

/-- Writes places and answers the count. -/
def geoaddStep (flags : Flags) (places : List (Datum × Datum)) : KeyStep := fun seen => do
  let (new, n) := flags.write (← SortedSets.scoresAt seen) places
  return (.int n, Entry.replaceUnlessEmpty seen (.zset new))

/-- GEOADD key flags longitude latitude member …: the places are read before the key is
looked at. -/
def geoadd (now : Float) (key : Octets) (words : List Octets) : Step :=
  let (flags, rest) := Flags.read {} words
  match triples rest with
  | none | some [] => fun s => (refuse .syntaxError, s)
  | some places =>
    Store.given (readPlaces places) fun places => Store.onKey now key (geoaddStep flags places)

end BatchStore.Places
