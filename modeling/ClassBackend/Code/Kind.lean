import ClassBackend.Primitive

/-!
# Operand kinds

Typed instructions are selected by the kind of their operand: loads, stores,
arithmetic and returns by `Kind`, array element access by `ArrayKind`.
-/

namespace ClassBackend

/-- The category of an operand on the stack or in a local slot. -/
inductive Kind where
  | int
  | long
  | float
  | double
  | ref
  deriving DecidableEq, Repr, Inhabited

namespace Kind

def all : List Kind := [.int, .long, .float, .double, .ref]

def letter : Kind → Char
  | .int => 'i'
  | .long => 'l'
  | .float => 'f'
  | .double => 'd'
  | .ref => 'a'

def isWide : Kind → Bool
  | .long | .double => true
  | _ => false

def ofPrimitive (p : Primitive) : Kind :=
  match p.stackType with
  | .long => .long
  | .float => .float
  | .double => .double
  | _ => .int

end Kind

/-- The category of an array element. Boolean arrays share the byte forms. -/
inductive ArrayKind where
  | byte
  | char
  | short
  | int
  | long
  | float
  | double
  | ref
  deriving DecidableEq, Repr, Inhabited

namespace ArrayKind

def all : List ArrayKind := [.byte, .char, .short, .int, .long, .float, .double, .ref]

def letter : ArrayKind → Char
  | .byte => 'b'
  | .char => 'c'
  | .short => 's'
  | .int => 'i'
  | .long => 'l'
  | .float => 'f'
  | .double => 'd'
  | .ref => 'a'

def ofPrimitive : Primitive → ArrayKind
  | .boolean | .byte => .byte
  | .char => .char
  | .short => .short
  | .int => .int
  | .long => .long
  | .float => .float
  | .double => .double

end ArrayKind

end ClassBackend
