import ClassBackend.Machine.LibraryCall
import ClassBackend.Machine.Subtype

/-!
# Calls and initialization

Finding the method that a call enters, starting classes, and making objects.
How a method of a loaded class is run is a parameter, `call`; the depth of
nested calls is bounded where that parameter is supplied.
-/

namespace ClassBackend.Machine

abbrev MethodCall := ClassFile → MethodInfo → List Value → Run (Option Value)

/-! ## Initialization -/

def initialStatic (field : FieldInfo) : Run Value :=
  match field.constant with
  | some (.int n) => return .int n
  | some (.long n) => return .long n
  | some (.float x) => return .float x
  | some (.double x) => return .double x
  | some (.text text) => Run.text text
  | none => return .default field.descriptor

def untilSeen (seen : List String) : List ClassFile → List ClassFile
  | [] => []
  | c :: rest =>
    if seen.contains c.name then [] else c :: untilSeen (c.name :: seen) rest

/-- The loaded classes from a name upwards whose initialization has not been
started. -/
def uninitialized (m : Machine) (name : String) : List ClassFile :=
  untilSeen m.initialized (m.lineage name).1

def startClass (call : MethodCall) (c : ClassFile) : Run Unit := do
  c.fields.forM fun field => do
    if field.isStatic then
      let value ← initialStatic field
      modify (·.setStatic c.name field.name value)
  match c.methods.find? (·.name == "<clinit>") with
  | some method =>
    Run.note .debug ("initializing " ++ c.name)
    let _ ← call c method []
  | none => pure ()

/-- Initialize a loaded class and its superclasses, the topmost first. All of
them count as initialized before the first initializer runs. -/
def ensureInitialized (call : MethodCall) (name : String) : Run Unit := do
  let starting := (← get).uninitialized name
  modify fun m => { m with initialized := m.initialized ++ starting.map (·.name) }
  starting.reverse.forM (startClass call)

/-! ## Objects and static fields -/

/-- The fields of a fresh instance: those of its class and of the superclasses
above it, and the message of a throwable. -/
def initialFields (m : Machine) (name : String) : List (String × Value) :=
  let (loaded, library) := m.lineage name
  let own := loaded.flatMap fun c =>
    (c.fields.filter fun field => !field.isStatic).map fun field =>
      (field.name, Value.default field.descriptor)
  own ++ (if library.any isThrowable then [(messageField, .null)] else [])

/-- Make an object of a class, before its constructor runs. -/
def instantiate (call : MethodCall) (name : String) : Run Value := do
  if (← get).isLoaded name then
    ensureInitialized call name
    Run.allocate (.inst name ((← get).initialFields name))
  else Run.allocate (← Run.ofExcept (newLibraryObject name))

def noField {α : Type} (field : MemberRef) : Run α := .fail (.noSuchField field.owner field.name)

def readStatic (call : MethodCall) (field : MemberRef) : Run Value := do
  if (← get).isLoaded field.owner then
    ensureInitialized call field.owner
    let m ← get
    match m.staticOwner? field.owner field.name with
    | some owner => return (m.static? owner field.name).getD (.default field.descriptor)
    | none => noField field
  else
    match (← get).static? field.owner field.name with
    | some value => return value
    | none =>
      let value ← match libraryStatic? field.owner field.name with
        | some (.number n) => pure (.int n)
        | some (.object object) => Run.allocate object
        | none => noField field
      modify (·.setStatic field.owner field.name value)
      return value

def writeStatic (call : MethodCall) (field : MemberRef) (value : Value) : Run Unit := do
  ensureInitialized call field.owner
  match (← get).staticOwner? field.owner field.name with
  | some owner => modify (·.setStatic owner field.name value)
  | none => noField field

/-! ## Calls -/

def callStatic (call : MethodCall) (method : MemberRef) (args : List Value) :
    Run (Option Value) := do
  if (← get).isLoaded method.owner then
    ensureInitialized call method.owner
    match (← get).findMethod? method.owner method.name method.descriptor with
    | some (c, found) => call c found args
    | none => noMethod method.owner method.name method.descriptor
  else callLibraryStatic method.owner method.name method.descriptor args

/-- Call a method on an object, with library methods calling back at most
`depth` deep. A special call enters the class it names, any other the class of
the receiver. -/
def callInstance (call : MethodCall) : (depth : Nat) → InvokeKind → MemberRef →
    (receiver : Value) → List Value → Run (Option Value)
  | 0, _, _, _, _ => throw .exhausted
  | depth + 1, kind, method, receiver, args => do
    let address ← Run.nonNull (← Run.ofExcept receiver.asRef)
    let className ← match kind with
      | .special => pure method.owner
      | _ => pure (← Run.object address).className
    match (← get).findMethod? className method.name method.descriptor with
    | some (c, found) => call c found (receiver :: args)
    | none =>
      let virtual : VirtualCall := fun receiver name descriptor args =>
        callInstance call depth .virtual { owner := rootClass, name, descriptor } receiver args
      callLibrary virtual depth address ((← get).libraryAncestor className)
        method.name method.descriptor args

end ClassBackend.Machine
