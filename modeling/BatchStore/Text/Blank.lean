/-!
# Blanks of all scripts

The characters beyond ASCII that Unicode counts as white space: spaces of various
widths, and the separators of lines and paragraphs.
-/

namespace BatchStore.Text

/-- Whether a character beyond ASCII is white space. -/
def isWideBlank (c : Char) : Bool :=
  let n := c.toNat
  n == 0x85 || n == 0xa0 || n == 0x1680 || (0x2000 ≤ n && n ≤ 0x200a) || n == 0x2028
    || n == 0x2029 || n == 0x202f || n == 0x205f || n == 0x3000

end BatchStore.Text
