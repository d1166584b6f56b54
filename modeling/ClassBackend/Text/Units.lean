/-!
# Sixteen-bit units

The machine measures text in sixteen-bit units: a character beyond the basic
plane is a pair of them. Text itself stays a string of characters; this module
holds the measures taken in units.
-/

namespace ClassBackend.Text

def unitsOf (c : Char) : List Nat :=
  let code := c.toNat
  if code < 0x10000 then [code]
  else [0xd800 + (code - 0x10000) / 0x400, 0xdc00 + (code - 0x10000) % 0x400]

def units (text : String) : List Nat := text.toList.flatMap unitsOf

def unitLength (text : String) : Nat := (units text).length

/-- The hash of a text: its units as digits in base 31, modulo the word. -/
def unitHash (text : String) : Int32 :=
  (units text).foldl (fun hash unit => hash * 31 + Int32.ofNat unit) 0

/-- The character with this unit as its code; half a pair has no character and
shows as the replacement character. -/
def ofUnit (unit : Nat) : String :=
  if 0xd800 ≤ unit && unit < 0xe000 then "\ufffd" else String.singleton (Char.ofNat unit)

end ClassBackend.Text
