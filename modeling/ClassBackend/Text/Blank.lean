/-!
# Blanks
-/

namespace ClassBackend.Text

/-- A character that is white space: blanks of any width, tabs, and the breaks
between lines, paragraphs and pages. -/
def isBlank (c : Char) : Bool :=
  let code := c.toNat
  code == 0x20 || (0x9 ≤ code && code ≤ 0xd) || code == 0x85 || code == 0xa0 ||
    code == 0x1680 || (0x2000 ≤ code && code ≤ 0x200a) || code == 0x2028 || code == 0x2029 ||
    code == 0x202f || code == 0x205f || code == 0x3000

end ClassBackend.Text
