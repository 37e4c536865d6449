import BatchStore.Text.Printable

/-!
# Quoted texts

The journal shows a text between quotes: single ones, or double ones if the text
holds a single quote and no double one. The quote in use and the backslash are
escaped by a backslash, line ends and tabs by a letter, and other characters that
are not graphic by their code. A truth value is shown by its name, without quotes.
-/

namespace BatchStore.Text

/-- The name of a truth value. -/
def shownBool (b : Bool) : String := if b then "True" else "False"

/-- The code of a character in `width` hexadecimal digits. -/
def hexCode (width : Nat) (c : Char) : String :=
  let digits := Nat.toDigits 16 c.toNat
  String.ofList (List.replicate (width - digits.length) '0' ++ digits)

/-- The shortest escape that has room for the code. -/
def codeEscape (c : Char) : String :=
  if c.toNat < 0x100 then "\\x" ++ hexCode 2 c
  else if c.toNat < 0x10000 then "\\u" ++ hexCode 4 c
  else "\\U" ++ hexCode 8 c

/-- A character inside quotes of kind `quote`. -/
def escape (quote c : Char) : String :=
  if c == quote || c == '\\' then String.ofList ['\\', c]
  else if c == '\n' then "\\n"
  else if c == '\r' then "\\r"
  else if c == '\t' then "\\t"
  else if isPrintable c then String.ofList [c]
  else codeEscape c

/-- The quote that needs fewer escapes, the single one if in doubt. -/
def quoteFor (s : String) : Char :=
  if s.toList.contains '\'' && !s.toList.contains '"' then '"' else '\''

/-- A text between quotes. -/
def quoted (s : String) : String :=
  let quote := quoteFor s
  String.ofList [quote] ++ String.join (s.toList.map (escape quote)) ++ String.ofList [quote]

/-- An octet inside quotes of kind `quote`: ASCII only is shown as itself. -/
def escapeOctet (quote : Char) (b : UInt8) : String :=
  let c := Char.ofNat b.toNat
  if b < 127 then escape quote c else "\\x" ++ hexCode 2 c

/-- A string of octets between quotes, marked as such by a letter in front. -/
def quotedOctets (w : List UInt8) : String :=
  let quote := if w.contains 39 && !w.contains 34 then '"' else '\''
  "b" ++ String.ofList [quote] ++ String.join (w.map (escapeOctet quote)) ++ String.ofList [quote]

end BatchStore.Text
