import ClassBackend.Code.Instruction
import ClassBackend.Fault
import ClassBackend.Ty.Basic

/-!
# Instructions by type

The instructions that move, make, discard and box a value of a given type.
-/

namespace ClassBackend

def Primitive.wrapperInternal (p : Primitive) : String := Naming.toInternal p.wrapper

/-- Convert the primitive on top of the stack. Narrow targets are reached
through `int`; a conversion to the same type, or to `boolean`, is free. -/
def Primitive.convertCode (source target : Primitive) : List Instruction :=
  if source == target then []
  else
    let start := match source with
      | .boolean => .int
      | p => p.stackType
    match target with
    | .boolean => []
    | .byte | .short | .char =>
      (if start != .int then [.convert start .int] else []) ++ [.convert .int target]
    | _ => if start != target then [.convert start target] else []

namespace Ty

def valueKind (t : Ty) : Except Fault Kind :=
  match t.stackKind? with
  | some kind => .ok kind
  | none => .error (.internal ("no value of type " ++ t.display))

def loadCode (t : Ty) (slot : UInt16) : Except Fault (List Instruction) :=
  t.valueKind.map fun kind => [.load kind slot]

def storeCode (t : Ty) (slot : UInt16) : Except Fault (List Instruction) :=
  t.valueKind.map fun kind => [.store kind slot]

/-- Push the default value: zero, false or null. -/
def initCode (t : Ty) : List Instruction :=
  match t.stackKind? with
  | none => []
  | some .int => [.iconst 0]
  | some .long => [.lconst 0]
  | some .float => [.fconst .zero]
  | some .double => [.dconst .zero]
  | some .ref => [.aconstNull]

def returnCode (t : Ty) : List Instruction := [.ret t.stackKind?]

def popCode (t : Ty) : List Instruction :=
  if t.isVoid then [] else if t.isWide then [.pop2] else [.pop]

def dupCode (t : Ty) : List Instruction := if t.isWide then [.dup2] else [.dup]

def dupUnderOne (t : Ty) : Instruction := if t.isWide then .dup2X1 else .dupX1

def dupUnderTwo (t : Ty) : Instruction := if t.isWide then .dup2X2 else .dupX2

/-- Box a primitive; anything else stays as it is. -/
def boxCode (t : Ty) : List Instruction :=
  match t.primitive? with
  | some p =>
    let wrapper := p.wrapperInternal
    [.call .static wrapper "valueOf"
      ("(" ++ String.singleton p.descriptor ++ ")L" ++ wrapper ++ ";")]
  | none => []

/-- Make an array with elements of this type; its length is on the stack. -/
def newArrayCode (t : Ty) : List Instruction :=
  match t.primitive? with
  | some p => [.newArray p]
  | none => [.anewArray t.internalName]

def arrayLoadCode (t : Ty) : List Instruction := [.arrayLoad t.arrayKind]

def arrayStoreCode (t : Ty) : List Instruction := [.arrayStore t.arrayKind]

def classLiteralCode (t : Ty) : List Instruction :=
  match t.primitive? with
  | some p =>
    [.getStatic
      { owner := p.wrapperInternal, name := "TYPE", descriptor := "Ljava/lang/Class;" }]
  | none => [.ldc (.classObject t.unmeta.internalName)]

end Ty

end ClassBackend
