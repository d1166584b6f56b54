import ClassBackend.Code.Instruction
import ClassBackend.Decimal.Remainder
import ClassBackend.Machine.Value

/-!
# Arithmetic

Operators on numbers of one kind, and conversions between kinds. Integers wrap,
shift counts are taken modulo the width, and a floating number becomes the
nearest integer towards zero that fits, with no number at zero.
-/

namespace ClassBackend.Machine

/-- An operator on `int`. Division by zero has no result. -/
def intOp (op : ArithOp) (a b : Int32) : Option Int32 :=
  match op with
  | .add => some (a + b)
  | .sub => some (a - b)
  | .mul => some (a * b)
  | .div => if b == 0 then none else some (a / b)
  | .rem => if b == 0 then none else some (a % b)
  | .and => some (a &&& b)
  | .or => some (a ||| b)
  | .xor => some (a ^^^ b)
  | .shl => some (a <<< b)
  | .shr => some (a >>> b)
  | .ushr => some (a.toUInt32 >>> b.toUInt32).toInt32

def longShift (op : ArithOp) (a : Int64) (count : Int32) : Int64 :=
  match op with
  | .shl => a <<< count.toInt64
  | .shr => a >>> count.toInt64
  | _ => (a.toUInt64 >>> count.toInt64.toUInt64).toInt64

/-- An operator on `long`, shifts apart. Division by zero has no result. -/
def longOp (op : ArithOp) (a b : Int64) : Option Int64 :=
  match op with
  | .add => some (a + b)
  | .sub => some (a - b)
  | .mul => some (a * b)
  | .div => if b == 0 then none else some (a / b)
  | .rem => if b == 0 then none else some (a % b)
  | .and => some (a &&& b)
  | .or => some (a ||| b)
  | _ => some (a ^^^ b)

def floatOp (op : ArithOp) (a b : Single) : Option Single :=
  match op with
  | .add => some (Single.apply (· + ·) a b)
  | .sub => some (Single.apply (· - ·) a b)
  | .mul => some (Single.apply (· * ·) a b)
  | .div => some (Single.apply (· / ·) a b)
  | .rem => some (Single.apply Decimal.remainder32 a b)
  | _ => none

def doubleOp (op : ArithOp) (a b : Double) : Option Double :=
  match op with
  | .add => some (Double.apply (· + ·) a b)
  | .sub => some (Double.apply (· - ·) a b)
  | .mul => some (Double.apply (· * ·) a b)
  | .div => some (Double.apply (· / ·) a b)
  | .rem => some (Double.apply Decimal.remainder a b)
  | _ => none

def badOperator (kind : Kind) (op : ArithOp) : Error :=
  .typeMismatch (String.singleton kind.letter ++ op.mnemonic ++ " is not an instruction")

def negate : Value → Except Error Value
  | .int n => .ok (.int (-n))
  | .long n => .ok (.long (-n))
  | .float x => .ok (.float x.neg)
  | .double x => .ok (.double x.neg)
  | v => .error (.typeMismatch ("cannot negate " ++ v.sort))

/-! ## Conversions -/

def toByte (n : Int32) : Int32 := n.toInt8.toInt32

def toChar (n : Int32) : Int32 := n.toUInt32.toUInt16.toUInt32.toInt32

def toShort (n : Int32) : Int32 := n.toInt16.toInt32

def convertInt (n : Int32) : Primitive → Value
  | .byte => .int (toByte n)
  | .char => .int (toChar n)
  | .short => .int (toShort n)
  | .int | .boolean => .int n
  | .long => .long n.toInt64
  | .float => .float (.ofFloat32 n.toFloat32)
  | .double => .double (.ofFloat n.toFloat)

def convert (v : Value) (target : Primitive) : Except Error Value :=
  match v, target with
  | .int n, _ => .ok (convertInt n target)
  | .long n, .long => .ok (.long n)
  | .long n, .float => .ok (.float (.ofFloat32 n.toFloat32))
  | .long n, .double => .ok (.double (.ofFloat n.toFloat))
  | .long n, _ => .ok (convertInt n.toInt32 target)
  | .float x, .long => .ok (.long x.toFloat32.toInt64)
  | .float x, .float => .ok (.float x)
  | .float x, .double => .ok (.double x.toDouble)
  | .float x, _ => .ok (convertInt x.toFloat32.toInt32 target)
  | .double x, .long => .ok (.long x.toFloat.toInt64)
  | .double x, .float => .ok (.float x.toSingle)
  | .double x, .double => .ok (.double x)
  | .double x, _ => .ok (convertInt x.toFloat.toInt32 target)
  | _, _ => .error (.typeMismatch ("cannot convert " ++ v.sort ++ " to " ++ target.name))

def narrow : ArrayKind → Value → Value
  | .byte, .int n => .int (toByte n)
  | .char, .int n => .int (toChar n)
  | .short, .int n => .int (toShort n)
  | _, v => v

/-- Convert an unboxed value to the primitive of a descriptor; where no rule
applies the value stays as it is. -/
def unboxTo (descriptor : String) (v : Value) : Value :=
  match v, descriptor with
  | .int n, "J" => .long n.toInt64
  | .int n, "F" => .float (.ofFloat32 n.toFloat32)
  | .int n, "D" => .double (.ofFloat n.toFloat)
  | .float x, "D" => .double x.toDouble
  | .long n, "D" => .double (.ofFloat n.toFloat)
  | .long n, "I" | .long n, "S" | .long n, "B" | .long n, "C" | .long n, "Z" => .int n.toInt32
  | .double x, "I" | .double x, "S" | .double x, "B" | .double x, "C" | .double x, "Z" =>
    .int x.toFloat.toInt32
  | .float x, "I" | .float x, "S" | .float x, "B" | .float x, "C" | .float x, "Z" =>
    .int x.toFloat32.toInt32
  | _, _ => v

/-! ## Comparisons -/

def signOf : Ordering → Int32
  | .lt => -1
  | .eq => 0
  | .gt => 1

def compareInt (a b : Int32) : Ordering :=
  if a < b then .lt else if a == b then .eq else .gt

def compareLong (a b : Int64) : Ordering :=
  if a < b then .lt else if a == b then .eq else .gt

def compareFloat (unordered : Int32) (a b : Single) : Int32 :=
  let a := a.toFloat32
  let b := b.toFloat32
  if a < b then -1 else if a == b then 0 else if b < a then 1 else unordered

def compareDouble (unordered : Int32) (a b : Double) : Int32 :=
  let a := a.toFloat
  let b := b.toFloat
  if a < b then -1 else if a == b then 0 else if b < a then 1 else unordered

end ClassBackend.Machine
