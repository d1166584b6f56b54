import ClassBackend.Code.Kind
import ClassBackend.Naming

/-!
# Types

A type is a plain value: a class is known by its name, and what its parents are
is recorded in a registry beside it, so a class may be mentioned before its
hierarchy is known.

Two types are the *same* (`Ty.same`) when they have the same name and are both,
or neither, class objects. This is coarser than equality of values: all error
types are one type, and so are two class objects of one name.
-/

namespace ClassBackend

/-- A type of the target machine, or one of the sentinels that type inference
leaves in the tree. -/
inductive Ty where
  | void
  | prim (primitive : Primitive)
  | object (name : String)
  | array (component : Ty)
  /-- The class object of a type: the receiver of static members. -/
  | metaOf (base : Ty)
  | null
  /-- An ill-typed node that an earlier phase has reported. -/
  | error (messages : List String)
  | unreachable
  /-- A closure literal not yet bound to an interface. -/
  | block
  deriving DecidableEq, Repr, Inhabited

namespace Ty

def rootClass : Ty := .object "java.lang.Object"

def text : Ty := .object "java.lang.String"

def int : Ty := .prim .int

def boolean : Ty := .prim .boolean

/-! ## Classification -/

def primitive? : Ty → Option Primitive
  | .prim p => some p
  | _ => none

def isPrimitive (t : Ty) : Bool := t.primitive?.isSome

def isBoolean (t : Ty) : Bool := t.primitive? == some .boolean

def isVoid : Ty → Bool
  | .void => true
  | _ => false

def isArray : Ty → Bool
  | .array _ => true
  | _ => false

def isMeta : Ty → Bool
  | .metaOf _ => true
  | _ => false

def isNull : Ty → Bool
  | .null => true
  | _ => false

def isError : Ty → Bool
  | .error _ => true
  | _ => false

def isUnreachable : Ty → Bool
  | .unreachable => true
  | _ => false

def isBlock : Ty → Bool
  | .block => true
  | _ => false

def isWide (t : Ty) : Bool := t.primitive?.any Primitive.isWide

def component? : Ty → Option Ty
  | .array component => some component
  | _ => none

/-- The type a class object stands for; any other type stands for itself. -/
def unmeta : Ty → Ty
  | .metaOf base => base
  | t => t

def errorMessages : Ty → List String
  | .error messages => messages
  | _ => []

/-- The number of array brackets around the innermost element type. -/
def arrayDepth : Ty → Nat
  | .array component => component.arrayDepth + 1
  | _ => 0

/-- Wrap a type in this many array brackets. -/
def arrayOfDepth (base : Ty) : Nat → Ty
  | 0 => base
  | n + 1 => .array (base.arrayOfDepth n)

/-! ## Names and descriptors -/

def name : Ty → String
  | .void => "void"
  | .prim p => p.name
  | .object name => name
  | .array component => component.name ++ "[]"
  | .metaOf base => base.name
  | .null => "null"
  | .error _ => ":error"
  | .unreachable => ":unreachable"
  | .block => ":block"

/-- Identity of types: one name, and both or neither a class object. -/
def same (t u : Ty) : Bool :=
  t.name == u.name && t.isMeta == u.isMeta

def memberOf (t : Ty) (types : List Ty) : Bool :=
  types.any t.same

/-- The name messages show; a class object is marked. -/
def display (t : Ty) : String :=
  if t.isMeta then t.name ++ ".class" else t.name

/-- The sort of type, as listings of the registry label it. -/
def label : Ty → String
  | .void => "Void"
  | .prim _ => "Primitive"
  | .object _ => "Type"
  | .array _ => "ArrayType"
  | .metaOf _ => "MetaType"
  | .null => "NullType"
  | .error _ => "ErrorType"
  | .unreachable => "UnreachableType"
  | .block => "BlockType"

/-- A labelled form of the name. -/
def inspect (t : Ty) : String :=
  "#<" ++ t.label ++ " " ++ t.name ++ ">"

def plainInternal : Ty → String
  | .metaOf _ => "java/lang/Class"
  | .null | .error _ | .unreachable | .block => "java/lang/Object"
  | t => Naming.toInternal t.name

def descriptor : Ty → String
  | .void => "V"
  | .prim p => String.singleton p.descriptor
  | .array component => "[" ++ component.descriptor
  | t => "L" ++ t.plainInternal ++ ";"

/-- The spelling used in symbolic references: arrays go by their descriptor. -/
def internalName (t : Ty) : String :=
  if t.isArray then t.descriptor else t.plainInternal

/-- The operand kind of a value of this type; `void` has none. -/
def stackKind? : Ty → Option Kind
  | .void => none
  | .prim p => some (Kind.ofPrimitive p)
  | _ => some .ref

def arrayKind (t : Ty) : ArrayKind :=
  match t.primitive? with
  | some p => ArrayKind.ofPrimitive p
  | none => .ref

end Ty

def methodDescriptor (params : List Ty) (result : Ty) : String :=
  "(" ++ String.join (params.map Ty.descriptor) ++ ")" ++ result.descriptor

end ClassBackend
