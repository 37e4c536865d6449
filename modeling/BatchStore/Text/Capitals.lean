/-!
# Capitals

Names of commands are compared in capitals. A name has ASCII letters only, so only
characters whose capital form lies in ASCII can be part of one: the small letters, and
ten others. `capitals` leaves every other character as it is.
-/

namespace BatchStore.Text

/-- The capital form of a character, where that form is ASCII. -/
def capital (c : Char) : List Char :=
  if c.toNat < 128 then [c.toUpper]
  else match c.toNat with
    | 0xDF => ['S', 'S']
    | 0x131 => ['I']
    | 0x17F => ['S']
    | 0xFB00 => ['F', 'F']
    | 0xFB01 => ['F', 'I']
    | 0xFB02 => ['F', 'L']
    | 0xFB03 => ['F', 'F', 'I']
    | 0xFB04 => ['F', 'F', 'L']
    | 0xFB05 => ['S', 'T']
    | 0xFB06 => ['S', 'T']
    | _ => [c]

/-- A text in capitals, as far as these are ASCII. -/
def capitals (s : String) : String := String.ofList (s.toList.flatMap capital)

end BatchStore.Text
