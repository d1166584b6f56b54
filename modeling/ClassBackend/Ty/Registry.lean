import ClassBackend.Fault
import ClassBackend.Ty.Basic

/-!
# The class registry

A `Registry` lists the known classes in order of declaration. A class is first
*declared*, which makes its name resolvable, and later *defined*, which records
its superclass and interfaces once and for all. Looking a name up never changes
the registry, and a refused declaration or definition yields no registry.
-/

namespace ClassBackend

structure ClassInfo where
  superclass : Option Ty
  interfaces : List Ty
  isInterface : Bool
  deriving DecidableEq, Repr, Inhabited

/-- The known classes, each with its parents once it is defined. -/
structure Registry where
  classes : List (String × Option ClassInfo)
  deriving Repr, Inhabited

/-! ## Library classes -/

structure CoreClass where
  name : String
  superclass : Option String := some "java.lang.Object"
  interfaces : List String := []
  isInterface : Bool := false

def CoreClass.interface (name : String) (interfaces : List String) : CoreClass :=
  { name, superclass := none, interfaces, isInterface := true }

def CoreClass.extending (name superclass : String) (interfaces : List String) : CoreClass :=
  { name, superclass := some superclass, interfaces }

/-- The classes known before any user code. Parents stand before children. -/
def coreClasses : List CoreClass :=
  [ { name := "java.lang.Object", superclass := none },
    .interface "java.io.Serializable" [],
    .interface "java.lang.Comparable" [],
    .interface "java.lang.CharSequence" [],
    .interface "java.lang.Cloneable" [],
    .interface "java.lang.Runnable" [],
    .interface "java.lang.Iterable" [],
    .interface "java.util.Collection" ["java.lang.Iterable"],
    .interface "java.util.List" ["java.util.Collection"],
    .interface "java.util.RandomAccess" [],
    { name := "java.lang.String",
      interfaces := ["java.io.Serializable", "java.lang.Comparable", "java.lang.CharSequence"] },
    { name := "java.lang.StringBuilder",
      interfaces := ["java.io.Serializable", "java.lang.CharSequence"] },
    { name := "java.lang.Number", interfaces := ["java.io.Serializable"] },
    .extending "java.lang.Integer" "java.lang.Number" ["java.lang.Comparable"],
    .extending "java.lang.Long" "java.lang.Number" ["java.lang.Comparable"],
    .extending "java.lang.Short" "java.lang.Number" ["java.lang.Comparable"],
    .extending "java.lang.Byte" "java.lang.Number" ["java.lang.Comparable"],
    .extending "java.lang.Float" "java.lang.Number" ["java.lang.Comparable"],
    .extending "java.lang.Double" "java.lang.Number" ["java.lang.Comparable"],
    { name := "java.lang.Boolean",
      interfaces := ["java.io.Serializable", "java.lang.Comparable"] },
    { name := "java.lang.Character",
      interfaces := ["java.io.Serializable", "java.lang.Comparable"] },
    { name := "java.lang.Class", interfaces := ["java.io.Serializable"] },
    { name := "java.lang.System" },
    { name := "java.io.PrintStream" },
    { name := "java.util.regex.Pattern", interfaces := ["java.io.Serializable"] },
    { name := "java.lang.Throwable", interfaces := ["java.io.Serializable"] },
    .extending "java.lang.Exception" "java.lang.Throwable" [],
    .extending "java.lang.Error" "java.lang.Throwable" [],
    .extending "java.lang.RuntimeException" "java.lang.Exception" [],
    .extending "java.lang.IllegalArgumentException" "java.lang.RuntimeException" [],
    .extending "java.lang.IllegalStateException" "java.lang.RuntimeException" [],
    .extending "java.lang.UnsupportedOperationException" "java.lang.RuntimeException" [],
    .extending "java.lang.ArithmeticException" "java.lang.RuntimeException" [],
    .extending "java.lang.NullPointerException" "java.lang.RuntimeException" [],
    .extending "java.lang.ClassCastException" "java.lang.RuntimeException" [],
    .extending "java.lang.IndexOutOfBoundsException" "java.lang.RuntimeException" [],
    .extending "java.lang.ArrayIndexOutOfBoundsException"
      "java.lang.IndexOutOfBoundsException" [],
    { name := "java.util.AbstractCollection", interfaces := ["java.util.Collection"] },
    .extending "java.util.AbstractList" "java.util.AbstractCollection" ["java.util.List"],
    .extending "java.util.ArrayList" "java.util.AbstractList"
      ["java.util.List", "java.util.RandomAccess", "java.lang.Cloneable",
        "java.io.Serializable"],
    { name := "java.util.Collections" },
    { name := "java.util.Calendar",
      interfaces := ["java.io.Serializable", "java.lang.Cloneable", "java.lang.Comparable"] },
    .extending "java.util.GregorianCalendar" "java.util.Calendar" [] ]

def CoreClass.info (row : CoreClass) : ClassInfo where
  superclass := row.superclass.map Ty.object
  interfaces := row.interfaces.map Ty.object
  isInterface := row.isInterface

namespace Registry

def core : Registry :=
  ⟨coreClasses.map fun row => (row.name, some row.info)⟩

/-! ## Lookup -/

def declares (r : Registry) (name : String) : Bool :=
  (r.classes.lookup name).isSome

def classInfo? (r : Registry) (name : String) : Option ClassInfo :=
  (r.classes.lookup name).join

def getPlain (r : Registry) (name : String) : Except Fault Ty :=
  if name == "void" then .ok .void
  else match Primitive.ofName? name with
    | some p => .ok (.prim p)
    | none => if r.declares name then .ok (.object name) else .error (.unknownType name)

/-- Resolve a source name: `void`, a primitive, a class, or an array of one of
these. -/
def get (r : Registry) (name : String) : Except Fault Ty :=
  match Naming.arraySuffix? name with
  | some (base, depth) => (r.getPlain base).map (·.arrayOfDepth depth)
  | none => r.getPlain name

def getInternal (r : Registry) (name : String) : Except Fault Ty :=
  r.get (Naming.toDotted name)

/-- Resolve a name, turning a failure into the error type that reports it. -/
def getOrError (r : Registry) (name : String) : Ty :=
  match r.get name with
  | .ok t => t
  | .error fault => .error [fault.message]

/-! ## Declaration and definition -/

/-- A name a class may have: qualified, and neither a primitive nor `void`. -/
def validName (name : String) : Bool :=
  Naming.isQualified name && (Primitive.ofName? name).isNone && name != "void"

def declare (r : Registry) (name : String) : Except Fault Registry :=
  if !validName name then .error (.badTypeName name)
  else if r.declares name then .ok r
  else .ok ⟨r.classes ++ [(name, none)]⟩

def setInfo (name : String) (info : ClassInfo) :
    List (String × Option ClassInfo) → List (String × Option ClassInfo)
  | [] => []
  | entry :: rest =>
    if entry.1 == name then (name, some info) :: rest else entry :: setInfo name info rest

/-- The parents a definition names, resolved in the order superclass, then
interfaces. A class without a named superclass extends the root; an interface
extends nothing. -/
def resolveParents (r : Registry) (name : String) (superclass : Option String)
    (interfaces : List String) (isInterface : Bool) : Except Fault ClassInfo := do
  let parent ← match superclass with
    | some s => (r.get s).map some
    | none =>
      .ok (if isInterface || name == "java.lang.Object" then none else some Ty.rootClass)
  let interfaces ← interfaces.mapM r.get
  return { superclass := parent, interfaces, isInterface }

/-- Define a class, declaring it if necessary. A class is defined once. -/
def define (r : Registry) (name : String) (superclass : Option String)
    (interfaces : List String) (isInterface : Bool) : Except Fault (Registry × Ty) := do
  if !validName name then throw (.badTypeName name)
  let info ← r.resolveParents name superclass interfaces isInterface
  let declared ← r.declare name
  if (declared.classInfo? name).isSome then
    throw (.internal ("class " ++ name ++ " defined twice"))
  return (⟨setInfo name info declared.classes⟩, .object name)

/-! ## Recorded parents -/

/-- The parents of a type: those recorded for a class, and the root class for
an array. Other types have none. -/
def info? (r : Registry) : Ty → Option ClassInfo
  | .object name => r.classInfo? name
  | .array _ => some { superclass := some Ty.rootClass, interfaces := [], isInterface := false }
  | _ => none

/-- Only a class can lack its parents. -/
def isComplete (r : Registry) : Ty → Bool
  | .object name => (r.classInfo? name).isSome
  | _ => true

def isInterface (r : Registry) (t : Ty) : Bool :=
  (r.info? t).any (·.isInterface)

/-- Define a class unless it is complete already; a refused definition yields
the error type that reports it. -/
def defineIfNeeded (r : Registry) (name : String) (superclass : Option String)
    (interfaces : List String) (isInterface : Bool) : Registry × Ty :=
  match (r.get name).toOption.filter r.isComplete with
  | some existing => (r, existing)
  | none =>
    match r.define name superclass interfaces isInterface with
    | .ok (defined, t) => (defined, t)
    | .error fault => (r, .error [fault.message])

end Registry

end ClassBackend
