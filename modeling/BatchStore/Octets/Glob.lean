import BatchStore.Octets

/-!
# Glob patterns

A pattern describes octet strings: a star stands for any row of octets, a question mark
for any one, and brackets for one of a class. A class lists octets and ranges; an
exclamation mark at its front turns it round. A bracket that is not closed, and every
other octet, stands for itself.

Inside a class a closing bracket right at the front is a member, and so is a hyphen
there or at the end. A range that runs backwards has nothing in it, and its ends are
taken out with it.
-/

namespace BatchStore.Octets

/-- A class of octets: members and ranges, perhaps turned round. -/
structure OctetClass where
  negated : Bool
  members : Octets
  ranges : List (UInt8 × UInt8)
deriving DecidableEq, Repr

/-- Whether an octet is in the class. -/
def OctetClass.holds (k : OctetClass) (b : UInt8) : Bool :=
  let inside := k.members.any (· == b) || k.ranges.any fun r => r.1 ≤ b && b ≤ r.2
  inside != k.negated

/-- A part of a pattern. -/
inductive Piece where
  | star
  | one
  | literal (b : UInt8)
  | oneOf (k : OctetClass)
deriving DecidableEq, Repr

/-- A pattern as its parts. -/
abbrev Glob := List Piece

/-! ## What a pattern stands for -/

/-- Whether one octet fits a part that stands for one. -/
def Piece.fits (p : Piece) (b : UInt8) : Bool :=
  match p with
  | .star => false
  | .one => true
  | .literal c => b == c
  | .oneOf k => k.holds b

/-- Whether some end of the string, the whole string included, satisfies a condition. -/
def anyTail (ok : Octets → Bool) : Octets → Bool
  | [] => ok []
  | b :: rest => ok (b :: rest) || anyTail ok rest

/-- Whether the whole string fits the pattern. -/
def Glob.holds : Glob → Octets → Bool
  | [], w => w.isEmpty
  | .star :: rest, w => anyTail (Glob.holds rest) w
  | _ :: _, [] => false
  | p :: rest, b :: w => p.fits b && Glob.holds rest w

/-! ## Reading a class -/

/-- Cuts the inside of a class at the hyphens that make ranges: a piece in front of such
a hyphen has at least `least` octets, and `piece` is what was read of it, backwards. -/
def classPieces (least : Nat) (piece : Octets) : Octets → List Octets
  | [] => [piece.reverse]
  | b :: rest =>
    if b == 45 && least ≤ piece.length then piece.reverse :: classPieces 2 [] rest
    else classPieces least (b :: piece) rest

/-- A hyphen at the end belongs to the piece in front of it. -/
def mergeEnd : List Octets → List Octets
  | [a, []] => [a ++ [45]]
  | a :: rest => a :: mergeEnd rest
  | [] => []

/-- Joins two pieces whose range runs backwards, without the ends of the range. -/
def joinBackward (a : Octets) : List Octets → List Octets
  | [] => [a]
  | b :: rest =>
    match a.getLast?, b.head? with
    | some low, some high =>
      if high < low then (a.dropLast ++ b.drop 1) :: rest else a :: b :: rest
    | _, _ => a :: b :: rest

/-- Takes out the ranges that run backwards, the last one first. -/
def dropBackward (pieces : List Octets) : List Octets :=
  pieces.foldr joinBackward []

/-- The ranges between neighbouring pieces. -/
def rangesOf : List Octets → List (UInt8 × UInt8)
  | a :: b :: rest =>
    match a.getLast?, b.head? with
    | some low, some high => (low, high) :: rangesOf (b :: rest)
    | _, _ => (45, 45) :: rangesOf (b :: rest)
  | _ => []

/-- A class from its pieces. -/
def classOf (negated : Bool) (pieces : List Octets) : OctetClass :=
  ⟨negated, pieces.flatten, rangesOf pieces⟩

/-- The part that the inside of a pair of brackets stands for. -/
def classPiece (inside : Octets) : Piece :=
  let least := if inside.head? == some 33 then 2 else 1
  let pieces := dropBackward (mergeEnd (classPieces least [] inside))
  match pieces with
  | (33 :: first) :: rest => .oneOf (classOf true (first :: rest))
  | pieces => .oneOf (classOf false pieces)

/-! ## Reading a pattern -/

/-- Splits the inside of a class from what follows its closing bracket. -/
def splitClass? (w : Octets) : Option (Octets × Octets) :=
  let mark := if w.head? == some 33 then 1 else 0
  let front := if (w.drop mark).head? == some 93 then mark + 1 else mark
  let body := (w.drop front).takeWhile (· != 93)
  match (w.drop front).dropWhile (· != 93) with
  | [] => none
  | _ :: rest => some (w.take front ++ body, rest)

theorem splitClass?_shorter {w inside rest : Octets} (h : splitClass? w = some (inside, rest)) :
    rest.length < w.length := by
  simp only [splitClass?] at h
  split at h
  · cases h
  · rename_i b tail hTail
    cases h
    generalize (if (w.drop (if w.head? == some 33 then 1 else 0)).head? == some 93
      then (if w.head? == some 33 then 1 else 0) + 1
      else (if w.head? == some 33 then 1 else 0)) = front at hTail
    have hLen := (List.dropWhile_sublist (· != 93) (l := w.drop front)).length_le
    rw [hTail] at hLen
    simp only [List.length_cons, List.length_drop] at hLen
    omega

/-- The parts of a pattern. -/
def Glob.read : Octets → Glob
  | [] => []
  | b :: rest =>
    if b == 42 then .star :: Glob.read rest
    else if b == 63 then .one :: Glob.read rest
    else if b == 91 then
      match h : splitClass? rest with
      | some (inside, rest') =>
        have : rest'.length < rest.length := splitClass?_shorter h
        classPiece inside :: Glob.read rest'
      | none => .literal b :: Glob.read rest
    else .literal b :: Glob.read rest
termination_by w => w.length
decreasing_by all_goals simp only [List.length_cons]; omega

end BatchStore.Octets
