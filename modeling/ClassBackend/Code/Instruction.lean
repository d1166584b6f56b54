import ClassBackend.Code.Kind
import ClassBackend.Floating

/-!
# Instructions

The instruction set of the target machine. Constants carry their value and
leave the choice of the shortest encoding to the listing; branches go to labels
of the method they stand in.
-/

namespace ClassBackend

/-- A branch target inside one method body, numbered in order of creation. -/
structure Label where
  id : Nat
  deriving DecidableEq, Repr, Inhabited

def Label.name (label : Label) : String := "L" ++ toString label.id

inductive ArithOp where
  | add
  | sub
  | mul
  | div
  | rem
  | and
  | or
  | xor
  | shl
  | shr
  | ushr
  deriving DecidableEq, Repr, Inhabited

namespace ArithOp

def all : List ArithOp :=
  [.add, .sub, .mul, .div, .rem, .and, .or, .xor, .shl, .shr, .ushr]

def mnemonic : ArithOp → String
  | .add => "add"
  | .sub => "sub"
  | .mul => "mul"
  | .div => "div"
  | .rem => "rem"
  | .and => "and"
  | .or => "or"
  | .xor => "xor"
  | .shl => "shl"
  | .shr => "shr"
  | .ushr => "ushr"

/-- Shifts take an `int` count whatever they shift. -/
def isShift : ArithOp → Bool
  | .shl | .shr | .ushr => true
  | _ => false

def ofSymbol? : String → Option ArithOp
  | "+" => some .add
  | "-" => some .sub
  | "*" => some .mul
  | "/" => some .div
  | "%" => some .rem
  | "&" => some .and
  | "|" => some .or
  | "^" => some .xor
  | "<<" => some .shl
  | ">>" => some .shr
  | ">>>" => some .ushr
  | _ => none

end ArithOp

inductive Cond where
  | eq
  | ne
  | lt
  | ge
  | gt
  | le
  deriving DecidableEq, Repr, Inhabited

namespace Cond

def all : List Cond := [.eq, .ne, .lt, .ge, .gt, .le]

def negate : Cond → Cond
  | .eq => .ne
  | .ne => .eq
  | .lt => .ge
  | .ge => .lt
  | .gt => .le
  | .le => .gt

def mnemonic : Cond → String
  | .eq => "eq"
  | .ne => "ne"
  | .lt => "lt"
  | .ge => "ge"
  | .gt => "gt"
  | .le => "le"

def test (cond : Cond) (ordering : Ordering) : Bool :=
  match cond with
  | .eq => ordering == .eq
  | .ne => ordering != .eq
  | .lt => ordering == .lt
  | .ge => ordering != .lt
  | .gt => ordering == .gt
  | .le => ordering != .gt

def ofSymbol? : String → Option Cond
  | "==" => some .eq
  | "!=" => some .ne
  | "<" => some .lt
  | ">=" => some .ge
  | ">" => some .gt
  | "<=" => some .le
  | _ => none

end Cond

/-- How a method is selected at a call. -/
inductive InvokeKind where
  | virtual
  | special
  | static
  | interface
  deriving DecidableEq, Repr, Inhabited

def InvokeKind.mnemonic : InvokeKind → String
  | .virtual => "invokevirtual"
  | .special => "invokespecial"
  | .static => "invokestatic"
  | .interface => "invokeinterface"

/-- A symbolic reference to a member: a field with its type's descriptor, or a
method with its own. The owner is an internal name. -/
structure MemberRef where
  owner : String
  name : String
  descriptor : String
  deriving DecidableEq, Repr, Inhabited

inductive Constant where
  | text (value : String)
  | classObject (name : String)
  deriving DecidableEq, Repr, Inhabited

inductive Instruction where
  | aconstNull
  | iconst (value : Int32)
  | lconst (value : Int64)
  | fconst (value : Single)
  | dconst (value : Double)
  | ldc (constant : Constant)
  | load (kind : Kind) (slot : UInt16)
  | store (kind : Kind) (slot : UInt16)
  | iinc (slot : UInt16) (delta : Int16)
  | newArray (component : Primitive)
  | anewArray (component : String)
  | arrayLoad (kind : ArrayKind)
  | arrayStore (kind : ArrayKind)
  | arrayLength
  | pop
  | pop2
  | dup
  | dupX1
  | dupX2
  | dup2
  | dup2X1
  | dup2X2
  | swap
  | arith (kind : Kind) (op : ArithOp)
  | neg (kind : Kind)
  | convert (source target : Primitive)
  | lcmp
  | fcmpl
  | fcmpg
  | dcmpl
  | dcmpg
  | ifZero (cond : Cond) (target : Label)
  | ifInt (cond : Cond) (target : Label)
  | ifRef (cond : Cond) (target : Label)
  | ifNull (target : Label)
  | ifNonNull (target : Label)
  | goto (target : Label)
  | ret (kind : Option Kind)
  | athrow
  | new (className : String)
  | checkcast (className : String)
  | instanceOf (className : String)
  | getField (field : MemberRef)
  | putField (field : MemberRef)
  | getStatic (field : MemberRef)
  | putStatic (field : MemberRef)
  | invoke (kind : InvokeKind) (method : MemberRef)
  deriving Inhabited

namespace Instruction

def call (kind : InvokeKind) (owner name descriptor : String) : Instruction :=
  .invoke kind { owner, name, descriptor }

def jumpTarget? : Instruction → Option Label
  | .ifZero _ target | .ifInt _ target | .ifRef _ target => some target
  | .ifNull target | .ifNonNull target | .goto target => some target
  | _ => none

def isTerminal : Instruction → Bool
  | .goto _ | .ret _ | .athrow => true
  | _ => false

end Instruction

end ClassBackend
