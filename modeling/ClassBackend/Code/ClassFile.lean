import ClassBackend.Code.Access
import ClassBackend.Code.Instruction
import ClassBackend.Tree.Node
import ClassBackend.Ty.Basic

/-!
# Class files

The finished output: classes with their fields, methods and annotations. Names
are internal throughout.
-/

namespace ClassBackend

mutual

inductive AnnotationValue where
  | text (value : String)
  | int (value : Int64)
  | boolean (value : Bool)
  | classObject (descriptor : String)
  | array (items : List AnnotationValue)
  | nested (annotated : Annotation)

inductive Annotation where
  /-- The descriptor of the annotation type, whether it is kept at run time,
  and the named values. -/
  | mk (typeName : String) (runtime : Bool) (values : List (String × AnnotationValue))

end

namespace Annotation

def typeName : Annotation → String
  | .mk typeName _ _ => typeName

def runtime : Annotation → Bool
  | .mk _ runtime _ => runtime

def values : Annotation → List (String × AnnotationValue)
  | .mk _ _ values => values

end Annotation

inductive ConstantValue where
  | int (value : Int32)
  | long (value : Int64)
  | float (value : Single)
  | double (value : Double)
  | text (value : String)

structure FieldInfo where
  name : String
  descriptor : String
  access : Access
  constant : Option ConstantValue := none
  annotations : List Annotation := []

namespace FieldInfo

def ofTy (name : String) (t : Ty) (access : Access) : FieldInfo :=
  { name, descriptor := t.descriptor, access }

def isStatic (field : FieldInfo) : Bool := Access.has field.access Access.staticFlag

def withConstant (field : FieldInfo) (value : ConstantValue) : FieldInfo :=
  { field with
    access := field.access ||| Access.staticFlag ||| Access.finalFlag
    constant := some value }

end FieldInfo

/-- An entry of an exception table: instructions from `start` up to, but not
including, `stop` are protected. No class catches everything. -/
structure ExceptionEntry where
  start : Nat
  stop : Nat
  handler : Nat
  catchType : Option String
  deriving DecidableEq, Repr

structure LocalVar where
  name : String
  descriptor : String
  slot : UInt16
  deriving DecidableEq, Repr

structure MethodInfo where
  name : String
  descriptor : String
  access : Access
  code : Array Instruction
  /-- The instruction index of every label, by label number. -/
  labels : Array Nat
  exceptionTable : List ExceptionEntry
  /-- Instruction index and source line, ascending in the index. -/
  lines : List (Nat × Nat)
  locals : List LocalVar
  maxLocals : UInt16
  exceptions : List String
  annotations : List Annotation
  /-- The nodes whose code is in the method, and where the code of each starts. Nothing
  reads this record. -/
  nodes : List (Node × Nat) := []

namespace MethodInfo

def isStatic (method : MethodInfo) : Bool := Access.has method.access Access.staticFlag

def isAbstract (method : MethodInfo) : Bool := Access.has method.access Access.abstractFlag

def answersTo (method : MethodInfo) (name descriptor : String) : Bool :=
  method.name == name && method.descriptor == descriptor

def target? (method : MethodInfo) (label : Label) : Option Nat := method.labels[label.id]?

/-- The source line of an instruction, if lines were recorded. -/
def lineAt? (method : MethodInfo) (index : Nat) : Option Nat :=
  (method.lines.takeWhile fun entry => decide (entry.1 ≤ index)).getLast?.map (·.2)

end MethodInfo

structure ClassFile where
  name : String
  superclass : Option String
  interfaces : List String := []
  access : Access
  version : UInt16 := 50
  sourceFile : Option String := none
  fields : List FieldInfo := []
  methods : List MethodInfo := []
  innerClasses : List String := []

namespace ClassFile

def isInterface (c : ClassFile) : Bool := Access.has c.access Access.interfaceFlag

def field? (c : ClassFile) (name : String) : Option FieldInfo :=
  c.fields.find? (·.name == name)

def hasField (c : ClassFile) (name : String) : Bool :=
  c.fields.any (·.name == name)

def method? (c : ClassFile) (name descriptor : String) : Option MethodInfo :=
  c.methods.find? (·.answersTo name descriptor)

def hasMethod (c : ClassFile) (name descriptor : String) : Bool :=
  c.methods.any (·.answersTo name descriptor)

def methodsNamed (c : ClassFile) (name : String) : List MethodInfo :=
  c.methods.filter (·.name == name)

def addField (c : ClassFile) (field : FieldInfo) : ClassFile :=
  { c with fields := c.fields ++ [field] }

def addMethod (c : ClassFile) (method : MethodInfo) : ClassFile :=
  { c with methods := c.methods ++ [method] }

/-- Refer to a nested class, once. -/
def addInnerClass (c : ClassFile) (name : String) : ClassFile :=
  if c.innerClasses.contains name then c
  else { c with innerClasses := c.innerClasses ++ [name] }

end ClassFile

end ClassBackend
