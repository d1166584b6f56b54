import ClassBackend.Code.ClassFile
import ClassBackend.Log
import ClassBackend.Machine.Library
import ClassBackend.Text.Quoted

/-!
# The machine

Its loaded classes, static fields, heap and captured output. Actions on the
machine may be cut short by an exception in flight, which handlers may catch,
by an error, which they may not, or by the bound that keeps actions finite.
Whatever an action did to the machine before it was cut short stays done.
-/

namespace ClassBackend

/-- A static initializer that was entered. -/
structure Machine.Start where
  className : String
  /-- The classes whose initialization had been started by then. -/
  begun : List String

structure Machine where
  classes : List (String × ClassFile) := []
  statics : List ((String × String) × Machine.Value) := []
  initialized : List String := []
  heap : Array Machine.Object := #[]
  output : String := ""
  logger : Logger := .quiet "vm"
  log : Log := #[]
  /-- The static initializers that were entered, the latest first. Nothing reads
  this record. -/
  starts : List Machine.Start := []

namespace Machine

/-- Why an action was cut short. -/
inductive Unwind where
  | thrown (exception : Address)
  | fatal (error : Error)
  /-- The bound on the length of actions was reached. -/
  | exhausted

abbrev Run := EStateM Unwind Machine

/-- Replace the entry of a key, or add one at the end. -/
def putValue {α β : Type} [BEq α] (key : α) (value : β) : List (α × β) → List (α × β)
  | [] => [(key, value)]
  | (known, old) :: rest =>
    if known == key then (known, value) :: rest else (known, old) :: putValue key value rest

/-! ## Classes -/

def class? (m : Machine) (name : String) : Option ClassFile := m.classes.lookup name

def isLoaded (m : Machine) (name : String) : Bool := (m.class? name).isSome

def note (m : Machine) (level : Level) (message : String) : Machine :=
  { m with log := m.logger.record level message m.log }

/-- Load a class; it replaces an earlier one of the same name. -/
def load (m : Machine) (c : ClassFile) : Machine :=
  let m := m.note .debug ("loaded " ++ c.name)
  { m with classes := putValue c.name c m.classes }

/-- The loaded classes from a name upwards within `n` steps, and the first
superclass that is not loaded. -/
def lineageWithin (m : Machine) : Nat → String → List ClassFile × Option String
  | 0, _ => ([], none)
  | n + 1, name =>
    match m.class? name with
    | none => ([], some name)
    | some c =>
      match c.superclass with
      | none => ([c], none)
      | some superclass =>
        let (above, library) := m.lineageWithin n superclass
        (c :: above, library)

/-- The loaded classes from a name upwards, and the first superclass that is
not loaded. A cyclic chain is cut off. -/
def lineage (m : Machine) (name : String) : List ClassFile × Option String :=
  m.lineageWithin (m.classes.length + 1) name

/-- The method a call enters: declared on the class or inherited from a loaded
superclass, and not abstract. -/
def findMethod? (m : Machine) (className name descriptor : String) :
    Option (ClassFile × MethodInfo) :=
  (m.lineage className).1.findSome? fun c =>
    (c.methods.find? fun method =>
      method.answersTo name descriptor && !method.isAbstract).map (c, ·)

/-- The loaded class that declares a static field, searching superclasses. -/
def staticOwner? (m : Machine) (className name : String) : Option String :=
  ((m.lineage className).1.find? fun c => (c.field? name).any (·.isStatic)).map (·.name)

/-- The first class upwards that is not loaded, where library code takes
over. -/
def libraryAncestor (m : Machine) (className : String) : String :=
  (m.lineage className).2.getD rootClass

/-- Record that a method is entered, if it is a static initializer. -/
def entering (m : Machine) (c : ClassFile) (method : MethodInfo) : Machine :=
  if method.name == "<clinit>" then { m with starts := ⟨c.name, m.initialized⟩ :: m.starts }
  else m

/-! ## Static fields -/

def static? (m : Machine) (owner name : String) : Option Value := m.statics.lookup (owner, name)

def setStatic (m : Machine) (owner name : String) (value : Value) : Machine :=
  { m with statics := putValue (owner, name) value m.statics }

/-! ## The heap -/

def allocate (m : Machine) (object : Object) : Address × Machine :=
  (m.heap.size, { m with heap := m.heap.push object })

namespace Run

def ofExcept {α : Type} : Except Error α → Run α
  | .ok a => pure a
  | .error error => throw (.fatal error)

def fail {α : Type} (error : Error) : Run α := throw (.fatal error)

def note (level : Level) (message : String) : Run Unit := modify (·.note level message)

def allocate (object : Object) : Run Value := do
  let address ← modifyGet fun m => m.allocate object
  return .ref address

def text (value : String) : Run Value := allocate (.text value)

def object (address : Address) : Run Object := do
  match (← get).heap[address]? with
  | some object => return object
  | none => fail (.typeMismatch "dangling reference")

def setObject (address : Address) (object : Object) : Run Unit :=
  modify fun m => { m with heap := m.heap.setIfInBounds address object }

def print (text : String) : Run Unit := modify fun m => { m with output := m.output ++ text }

def raise {α : Type} (className : String) (message : Option String) : Run α := do
  let shown := match message with
    | some text => "Some(" ++ Text.quoted text ++ ")"
    | none => "None"
  note .trace ("throwing " ++ className ++ " (" ++ shown ++ ")")
  let value ← match message with
    | some message => text message
    | none => pure .null
  let address ← modifyGet fun m => m.allocate (throwable className value)
  throw (.thrown address)

def raiseNull {α : Type} : Run α := raise "java/lang/NullPointerException" none

def nonNull (reference : Option Address) : Run Address :=
  match reference with
  | some address => pure address
  | none => raiseNull

/-- The contents of a text; null gives `none`. -/
def asText (value : Value) : Run (Option String) := do
  match ← ofExcept value.asRef with
  | none => return none
  | some address =>
    match ← object address with
    | .text text => return some text
    | other => fail (.typeMismatch ("expected String, found " ++ other.className))

end Run

end Machine

end ClassBackend
