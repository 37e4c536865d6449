import BatchStore.Number.Numeral
import BatchStore.Text.Blank
import BatchStore.Text.Digit

/-!
# Numbers in any script

People type numbers with the digits and the spaces of their script. `ofText?` puts those
in place of which ASCII has a digit or a space, and reads the result like a number in
octets.
-/

namespace BatchStore.Number

/-- The ASCII octet that a character stands for in a number; every character that has no
place in one becomes a question mark. -/
def plainOctet (c : Char) : UInt8 :=
  if c.toNat < 127 then UInt8.ofNat c.toNat
  else if Text.isWideBlank c then 32
  else
    match Text.digitOf? c with
    | some n => UInt8.ofNat (48 + n)
    | none => 63

/-- The double that a text stands for. -/
def ofText? (s : String) : Option Float := real? (s.toList.map plainOctet)

end BatchStore.Number
