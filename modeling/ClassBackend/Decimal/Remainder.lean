import ClassBackend.Decimal.Shortest

/-!
# Floating-point remainder

The remainder of a truncating division, which is always exact: both operands
are whole multiples of one power of two, so the remainder is that of two
natural numbers.
-/

namespace ClassBackend.Decimal

/-- The magnitude of a finite number as `mantissa * 2 ^ exponent`. -/
def magnitudeOf (x : Float) : Nat × Int :=
  let bits := x.toBits.toNat
  let b := Binary.ofFields 52 (-1074) ((bits >>> 52) % 0x800) (bits % 0x10000000000000)
  (b.mantissa, b.exponent)

def remainder (x y : Float) : Float :=
  if x.isNaN || y.isNaN || x.isInf || y == 0.0 then 0.0 / 0.0
  else if y.isInf || x == 0.0 then x
  else
    let (m, e) := magnitudeOf x
    let (n, f) := magnitudeOf y
    let least := min e f
    let rest := (m * powUp 2 (e - least)) % (n * powUp 2 (f - least))
    let magnitude := (Float.ofNat rest).scaleB least
    if x < 0.0 then -magnitude else magnitude

/-- The remainder of single-precision numbers, which double precision holds
exactly. -/
def remainder32 (x y : Float32) : Float32 :=
  (remainder x.toFloat y.toFloat).toFloat32

end ClassBackend.Decimal
