import BatchStore.Argument

/-!
# Values in messages

A message that complains of a value shows it: a text or a string of octets between quotes,
a number in full, and a container with what stands in it between the brackets of its type.
-/

namespace BatchStore

namespace Datum

/-- Parts between two brackets, with commas among them. -/
def bracketed (left right : String) (parts : List String) : String :=
  left ++ ", ".intercalate parts ++ right

/-- A tuple of one part keeps a comma, which sets it apart from the part in brackets. -/
def shownTuple : List String → String
  | [part] => "(" ++ part ++ ",)"
  | parts => bracketed "(" ")" parts

/-- A set without elements is named, since empty braces stand for a mapping. -/
def shownSet : List String → String
  | [] => "set()"
  | parts => bracketed "\x7b" "\x7d" parts

mutual

/-- How a message shows a value. -/
def shown : Datum → String
  | null => "None"
  | bool b => Text.shownBool b
  | int n => toString n
  | real x => realLayout.real x
  | text s => Text.quoted s
  | octets w => Text.quotedOctets w
  | list vs => bracketed "[" "]" (shownRow vs)
  | tuple vs => shownTuple (shownRow vs)
  | set vs => shownSet (shownRow vs)
  | mapping ps => bracketed "\x7b" "\x7d" (shownPairs ps)
  | refusal r => (Failure.request r).shown
  | other type => type

/-- How the values of a row are shown. -/
def shownRow : List Datum → List String
  | [] => []
  | v :: vs => v.shown :: shownRow vs

/-- How pairs are shown. -/
def shownPairs : List (Datum × Datum) → List String
  | [] => []
  | (k, v) :: ps => (k.shown ++ ": " ++ v.shown) :: shownPairs ps

end

end Datum

end BatchStore
