import ClassBackend.Decimal.Shortest

/-!
# Number layouts

The digits of a number are one matter, how they are laid out another. A
`Layout` records the choices of one output format; the formats of this project
are the values at the end.
-/

namespace ClassBackend.Decimal

structure Layout where
  tie : Tie
  /-- Decimal exponents written positionally, from the least to the greatest;
  `none` writes every number positionally. -/
  positional : Option (Int × Int)
  keepFraction : Bool
  keepMantissaFraction : Bool
  mark : String
  plus : String
  nan : String
  infinity : String

def zeros (n : Int) : String := String.ofList (List.replicate n.toNat '0')

def positionalText (keepFraction : Bool) (digits : List Char) (point : Int) : String :=
  let count : Int := digits.length
  if point ≤ 0 then "0." ++ zeros (-point) ++ String.ofList digits
  else if count ≤ point then
    String.ofList digits ++ zeros (point - count) ++ (if keepFraction then ".0" else "")
  else
    String.ofList (digits.take point.toNat) ++ "." ++ String.ofList (digits.drop point.toNat)

/-- The digits with the point after the first one, then the exponent. -/
def scientificText (layout : Layout) (digits : List Char) (exponent : Int) : String :=
  let fraction := digits.drop 1
  let mantissa :=
    if fraction.isEmpty then
      String.ofList digits ++ (if layout.keepMantissaFraction then ".0" else "")
    else String.ofList (digits.take 1) ++ "." ++ String.ofList fraction
  let sign := if exponent < 0 then "-" else layout.plus
  mantissa ++ layout.mark ++ sign ++ toString exponent.natAbs

def Layout.magnitude (layout : Layout) (b : Binary) : String :=
  if b.mantissa == 0 then (if layout.keepFraction then "0.0" else "0")
  else
    let d := b.shortest layout.tie
    let digits := (toString d.digits).toList
    let point : Int := digits.length + d.exponent
    let positional := match layout.positional with
      | none => true
      | some (least, greatest) => decide (least ≤ point - 1) && decide (point - 1 ≤ greatest)
    if positional then positionalText layout.keepFraction digits point
    else scientificText layout digits (point - 1)

def Layout.render (layout : Layout) : Parts → String
  | .nan => layout.nan
  | .infinite negative => (if negative then "-" else "") ++ layout.infinity
  | .finite negative b => (if negative then "-" else "") ++ layout.magnitude b

def Layout.listing : Layout where
  tie := .up
  positional := none
  keepFraction := false
  keepMantissaFraction := false
  mark := "e"
  plus := ""
  nan := "NaN"
  infinity := "inf"

/-- Quoted literals keep a fraction and leave positional notation for very
large and very small numbers. -/
def Layout.literal : Layout where
  tie := .up
  positional := some (-4, 15)
  keepFraction := true
  keepMantissaFraction := false
  mark := "e"
  plus := ""
  nan := "NaN"
  infinity := "inf"

/-- The text of a floating-point value inside the machine: between a thousandth
and ten million positionally, otherwise with a fractional mantissa. -/
def Layout.machine : Layout where
  tie := .up
  positional := some (-3, 6)
  keepFraction := true
  keepMantissaFraction := true
  mark := "E"
  plus := ""
  nan := "NaN"
  infinity := "Infinity"

/-- Double-precision numbers in a dump; what is no finite number is `null`. -/
def Layout.dump : Layout where
  tie := .even
  positional := some (-5, 15)
  keepFraction := true
  keepMantissaFraction := false
  mark := "e"
  plus := "+"
  nan := "null"
  infinity := "null"

def Layout.dump32 : Layout :=
  { Layout.dump with positional := some (-6, 12) }

end ClassBackend.Decimal
