import ClassBackend.Code.Instruction
import ClassBackend.Ty.Basic

/-!
# Members

What a call may resolve to: operators of primitives, members of arrays, tests
and literals of classes, and the methods, constructors and fields of classes.
Members of the first three sorts expand to instructions in place; the others
become real calls and field accesses.
-/

namespace ClassBackend

inductive ArrayOp where
  | get
  | set
  | length
  | empty
  | first
  | last
  /-- The texts of the elements, with an optional separator between them. -/
  | join
  deriving DecidableEq, Repr

/-- How a method of a class is entered. -/
inductive CallableKind where
  | onInstance
  | static
  | constructor
  | initializer
  deriving DecidableEq, Repr

inductive Member where
  /-- A binary operator on primitives; both operands are converted to
  `operand`, except that shifts take an `int` count. -/
  | arith (op : ArithOp) (receiver argument operand : Ty)
  | negate (receiver operand : Ty)
  /-- A comparison of primitives, converted to `operand` first. -/
  | compare (cond : Cond) (receiver argument operand : Ty)
  | not
  /-- The test whether a value belongs to the class a class object stands
  for. -/
  | instanceOf (receiver classObject : Ty)
  /-- The class object itself, as a value. -/
  | classLiteral (receiver : Ty)
  | array (op : ArrayOp) (name : String) (component : Ty) (params : List Ty) (result : Ty)
  | callable (kind : CallableKind) (owner : Ty) (name : String) (params : List Ty)
    (result : Ty)
  | getter (isStatic : Bool) (owner : Ty) (field : String) (type : Ty)
  | setter (isStatic : Bool) (owner : Ty) (field : String) (type : Ty)
  deriving DecidableEq, Repr

def ArithOp.symbol : ArithOp → String
  | .add => "+"
  | .sub => "-"
  | .mul => "*"
  | .div => "/"
  | .rem => "%"
  | .and => "&"
  | .or => "|"
  | .xor => "^"
  | .shl => "<<"
  | .shr => ">>"
  | .ushr => ">>>"

def Cond.symbol : Cond → String
  | .eq => "=="
  | .ne => "!="
  | .lt => "<"
  | .ge => ">="
  | .gt => ">"
  | .le => "<="

namespace Member

def constructor (owner : Ty) (params : List Ty) : Member :=
  .callable .constructor owner "<init>" params .void

def method (owner : Ty) (name : String) (params : List Ty) (result : Ty) (isStatic : Bool) :
    Member :=
  .callable (if isStatic then .static else .onInstance) owner name params result

def name : Member → String
  | .arith op .. => op.symbol
  | .negate .. => "-@"
  | .compare cond .. => cond.symbol
  | .not => "!"
  | .instanceOf .. => "kind_of?"
  | .classLiteral _ => "class"
  | .array _ name .. => name
  | .callable _ _ name .. => name
  | .getter _ _ field _ => field
  | .setter _ _ field _ => field ++ "="

def declaringType : Member → Ty
  | .arith _ receiver .. | .negate receiver _ | .compare _ receiver .. => receiver
  | .not => Ty.boolean
  | .instanceOf receiver _ | .classLiteral receiver => receiver
  | .array _ _ component .. => .array component
  | .callable _ owner .. | .getter _ owner .. | .setter _ owner .. => owner

def params : Member → List Ty
  | .arith _ _ argument _ | .compare _ _ argument _ => [argument]
  | .instanceOf _ classObject => [classObject]
  | .array _ _ _ params _ | .callable _ _ _ params _ => params
  | .setter _ _ _ type => [type]
  | .negate .. | .not | .classLiteral _ | .getter .. => []

def result : Member → Ty
  | .arith _ _ _ operand | .negate _ operand => operand
  | .compare .. | .not | .instanceOf .. => Ty.boolean
  | .classLiteral _ => .object "java.lang.Class"
  | .array _ _ _ _ result | .callable _ _ _ _ result => result
  | .getter _ _ _ type | .setter _ _ _ type => type

def kindName : Member → String
  | .arith .. | .negate .. => "MATH_OP"
  | .compare .. | .not => "COMPARISON_OP"
  | .instanceOf .. => "INSTANCEOF"
  | .classLiteral _ => "CLASS_LITERAL"
  | .array op .. =>
    match op with
    | .get | .first | .last => "ARRAY_ACCESS"
    | .set => "ARRAY_ASSIGN"
    | .length | .empty => "ARRAY_LENGTH"
    | .join => "METHOD"
  | .callable kind .. =>
    match kind with
    | .onInstance => "METHOD"
    | .static => "STATIC_METHOD"
    | .constructor => "CONSTRUCTOR"
    | .initializer => "STATIC_INITIALIZER"
  | .getter isStatic .. => if isStatic then "STATIC_FIELD_ACCESS" else "FIELD_ACCESS"
  | .setter isStatic .. => if isStatic then "STATIC_FIELD_ASSIGN" else "FIELD_ASSIGN"

def isStatic : Member → Bool
  | .callable kind .. => kind != .onInstance
  | .getter isStatic .. | .setter isStatic .. => isStatic
  | .classLiteral _ => true
  | _ => false

def isConstructor : Member → Bool
  | .callable .constructor .. => true
  | _ => false

def branches : Member → Bool
  | .compare .. | .not | .instanceOf .. => true
  | .array .empty .. => true
  | _ => false

def descriptor (m : Member) : String := methodDescriptor m.params m.result

def ownerName (m : Member) : String := m.declaringType.unmeta.name

end Member

end ClassBackend
