/-!
# Primitive types

The eight primitive types of the target machine, with the letters and wrapper
classes that descriptors, mnemonics and boxing use, and the promotion rule of
binary arithmetic.
-/

namespace ClassBackend

inductive Primitive where
  | boolean
  | byte
  | char
  | short
  | int
  | long
  | float
  | double
  deriving DecidableEq, Repr, Inhabited

namespace Primitive

def all : List Primitive :=
  [.boolean, .byte, .char, .short, .int, .long, .float, .double]

def name : Primitive → String
  | .boolean => "boolean"
  | .byte => "byte"
  | .char => "char"
  | .short => "short"
  | .int => "int"
  | .long => "long"
  | .float => "float"
  | .double => "double"

def ofName? (name : String) : Option Primitive :=
  all.find? fun p => p.name == name

def descriptor : Primitive → Char
  | .boolean => 'Z'
  | .byte => 'B'
  | .char => 'C'
  | .short => 'S'
  | .int => 'I'
  | .long => 'J'
  | .float => 'F'
  | .double => 'D'

def letter : Primitive → Char
  | .boolean => 'z'
  | .byte => 'b'
  | .char => 'c'
  | .short => 's'
  | .int => 'i'
  | .long => 'l'
  | .float => 'f'
  | .double => 'd'

/-- Occupies two words of the stack and two local slots. -/
def isWide : Primitive → Bool
  | .long | .double => true
  | _ => false

/-- Takes part in arithmetic; everything but `boolean` does. -/
def isNumeric : Primitive → Bool
  | .boolean => false
  | _ => true

/-- Computed as `int` on the operand stack. -/
def isIntLike : Primitive → Bool
  | .boolean | .byte | .char | .short | .int => true
  | _ => false

/-- The type used on the operand stack: the narrow integers collapse to
`int`. -/
def stackType : Primitive → Primitive
  | .byte | .char | .short => .int
  | p => p

/-- Position in the promotion order `int < long < float < double`. -/
def rank (p : Primitive) : Nat :=
  match p.stackType with
  | .long => 1
  | .float => 2
  | .double => 3
  | _ => 0

/-- The wider of two numeric types after promotion. -/
def promote (p q : Primitive) : Primitive :=
  if q.rank ≤ p.rank then p.stackType else q.stackType

def wrapper : Primitive → String
  | .boolean => "java.lang.Boolean"
  | .byte => "java.lang.Byte"
  | .char => "java.lang.Character"
  | .short => "java.lang.Short"
  | .int => "java.lang.Integer"
  | .long => "java.lang.Long"
  | .float => "java.lang.Float"
  | .double => "java.lang.Double"

/-- Whether a value of `source` becomes one of `target` without an explicit
cast. -/
def widensTo (source target : Primitive) : Bool :=
  source == target ||
  match source with
  | .boolean => false
  | .byte => [Primitive.short, .int, .long, .float, .double].contains target
  | .short | .char => [Primitive.int, .long, .float, .double].contains target
  | .int => [Primitive.long, .float, .double].contains target
  | .long => [Primitive.float, .double].contains target
  | .float => target == .double
  | .double => false

end Primitive

end ClassBackend
