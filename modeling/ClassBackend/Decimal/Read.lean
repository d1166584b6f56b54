/-!
# Reading decimal numbers

Integers and floating-point magnitudes from their usual decimal texts. A
floating-point text may leave out the digits on one side of its point and may
have an exponent.
-/

namespace ClassBackend.Decimal

def readDigits? (digits : List Char) : Option Nat :=
  if digits.isEmpty || !digits.all Char.isDigit then none
  else some (digits.foldl (fun n c => 10 * n + (c.toNat - '0'.toNat)) 0)

def splitSign : List Char → Bool × List Char
  | '-' :: rest => (true, rest)
  | '+' :: rest => (false, rest)
  | text => (false, text)

def readInt? (text : List Char) : Option Int :=
  let (negative, digits) := splitSign text
  (readDigits? digits).map fun n => if negative then -(n : Int) else n

def readMagnitude? (text : List Char) : Option Float := do
  let whole := text.takeWhile Char.isDigit
  let afterWhole := text.drop whole.length
  let (fraction, afterFraction) := match afterWhole with
    | '.' :: rest => (rest.takeWhile Char.isDigit, rest.dropWhile Char.isDigit)
    | _ => ([], afterWhole)
  let mantissa ← readDigits? (whole ++ fraction)
  let exponent ← match afterFraction with
    | [] => some 0
    | mark :: rest => if mark == 'e' || mark == 'E' then readInt? rest else none
  let shift : Int := exponent - fraction.length
  return Float.ofScientific mantissa (shift < 0) shift.natAbs

end ClassBackend.Decimal
