import ClassBackend.Decimal.Read
import ClassBackend.Decimal.Shortest

/-!
# Floating-point numbers

Numbers of single and double precision, each given by its bits. Two numbers are
equal when their bits are: zero has two signs, and so has the value that is no
number (NaN), which no comparison shows but the bits do.

* An operation with a NaN among its operands gives the first of them.
* An operation on numbers that has no result gives the NaN with the sign bit set.
* A negation or a change of precision keeps a NaN, up to the sign it flips.
-/

namespace ClassBackend

structure Double where
  bits : UInt64
  deriving DecidableEq, Repr, Inhabited

structure Single where
  bits : UInt32
  deriving DecidableEq, Repr, Inhabited

/-! ## Double precision -/

namespace Double

/-- The value of the number; all NaN become one. -/
def toFloat (x : Double) : Float := Float.ofBits x.bits

def ofFloat (x : Float) : Double := ⟨x.toBits⟩

def zero : Double := ⟨0⟩

def nan (negative : Bool) : Double :=
  ⟨if negative then 0xfff8000000000000 else 0x7ff8000000000000⟩

def isNaN (x : Double) : Bool := x.toFloat.isNaN

def isFinite (x : Double) : Bool := x.toFloat.isFinite

def isNegative (x : Double) : Bool := x.bits >>> 63 == 1

def neg (x : Double) : Double := ⟨x.bits ^^^ 0x8000000000000000⟩

def apply (f : Float → Float → Float) (x y : Double) : Double :=
  if x.isNaN then x
  else if y.isNaN then y
  else
    let result := f x.toFloat y.toFloat
    if result.isNaN then nan true else ofFloat result

def parts (x : Double) : Decimal.Parts := .ofFields 52 11 (-1074) x.bits.toNat

/-- Read a number: a decimal, or a word for infinity or NaN in any case. -/
def read? (text : String) : Option Double :=
  let (negative, magnitude) := Decimal.splitSign text.toList
  let value := match String.ofList (magnitude.map Char.toLower) with
    | "nan" => some (nan false)
    | "inf" | "infinity" => some (ofFloat (1.0 / 0.0))
    | _ => (Decimal.readMagnitude? magnitude).map ofFloat
  if negative then value.map neg else value

end Double

/-! ## Single precision -/

namespace Single

/-- The value of the number; all NaN become one. -/
def toFloat32 (x : Single) : Float32 := Float32.ofBits x.bits

def ofFloat32 (x : Float32) : Single := ⟨x.toBits⟩

def zero : Single := ⟨0⟩

def nan (negative : Bool) : Single :=
  ⟨if negative then 0xffc00000 else 0x7fc00000⟩

def isNaN (x : Single) : Bool := x.toFloat32.isNaN

def isFinite (x : Single) : Bool := x.toFloat32.isFinite

def isNegative (x : Single) : Bool := x.bits >>> 31 == 1

def neg (x : Single) : Single := ⟨x.bits ^^^ 0x80000000⟩

def apply (f : Float32 → Float32 → Float32) (x y : Single) : Single :=
  if x.isNaN then x
  else if y.isNaN then y
  else
    let result := f x.toFloat32 y.toFloat32
    if result.isNaN then nan true else ofFloat32 result

def parts (x : Single) : Decimal.Parts := .ofFields 23 8 (-149) x.bits.toNat

def toDouble (x : Single) : Double :=
  if x.isNaN then .nan x.isNegative else .ofFloat x.toFloat32.toFloat

end Single

def Double.toSingle (x : Double) : Single :=
  if x.isNaN then .nan x.isNegative else .ofFloat32 x.toFloat.toFloat32

end ClassBackend
