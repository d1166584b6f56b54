import ClassBackend.Text.Category

/-!
# Hidden characters

The characters that have no visible form of their own: controls, formats,
separators other than the blank, private and unassigned code points, letters
that only fill a place, and the marks that extend the character before them.
Quoted text shows them by their code point.
-/

namespace ClassBackend.Text

def visible : CharClass :=
  .read "Visible: L S P N Mc 1g83a37k4x195w106q1223Bccb1c473E78u273Jq17Dc2Ch112R1a53JdIj123kdb22M1s
  0Ek794SzCz11Af236Ji49Pw3T4l620Pd17DxPr234L1fBdBcBhCfJc156a6Ce13Dj14Pe1yd2fe1ce10g1843Rg230Gm
  837A165i - 95yy13uy3yy8ybEcBcJc3zy4pp34Lc56e1e39kfbFc3x2Tc199Ec11w1180w4e845n178l4m10eoj3sjcBdf8qm
  9h10c24jm59f794Kc959NcGg"

def isHidden (c : Char) : Bool := !visible.set.contains c.toNat

end ClassBackend.Text
