import ClassBackend.Code.Assembler
import ClassBackend.Settings
import ClassBackend.Source.Diagnostic

/-!
# Compilations

What the classes of one file share while they are emitted: the finished
classes, the fields declared so far, the layouts of binding classes, and the
diagnostics. Closing a compilation yields its classes, the script class first,
or the diagnostics if there are any.
-/

namespace ClassBackend

/-- The fields of a binding class, in order of first use. -/
structure BindingLayout where
  type : Ty
  fields : List (String × Ty) := []

structure Compilation where
  file : String
  logger : Logger
  log : Log := #[]
  classes : List ClassFile := []
  diagnostics : List Diagnostic := []
  declaredFields : List ((String × String) × Ty) := []
  bindings : List BindingLayout := []

/-- A class without members, carrying the configured version and source
file. -/
def Settings.newClass (settings : Settings) (name : String) (superclass : Option String)
    (interfaces : List String) (access : Access) : ClassFile :=
  { name, superclass, interfaces, access, version := settings.classVersion,
    sourceFile := settings.sourceFile }

namespace Compilation

def note (c : Compilation) (level : Level) (message : String) : Compilation :=
  { c with log := c.logger.record level message c.log }

/-- Report an error in the source; emission carries on. -/
def report (c : Compilation) (message : String) (span : Span) : Compilation :=
  let diagnostic : Diagnostic := { message, span, file := c.file }
  let c := c.note .warn diagnostic.summary
  { c with diagnostics := c.diagnostics ++ [diagnostic] }

def hadError (c : Compilation) : Bool := !c.diagnostics.isEmpty

def addClass (c : Compilation) (finished : ClassFile) : Compilation :=
  let c := c.note .debug ("finished class " ++ finished.name)
  { c with classes := c.classes ++ [finished] }

def addMainClass (c : Compilation) (finished : ClassFile) : Compilation :=
  let c := c.note .debug ("finished main class " ++ finished.name)
  { c with classes := finished :: c.classes }

/-- Declare a field. The first declaration decides the type; the flag says
whether this is it. -/
def declareField (c : Compilation) (className name : String) (t : Ty) :
    Ty × Bool × Compilation :=
  match c.declaredFields.lookup (className, name) with
  | some declared => (declared, false, c)
  | none =>
    (t, true, { c with declaredFields := c.declaredFields ++ [((className, name), t)] })

def isBinding (c : Compilation) (t : Ty) : Bool := c.bindings.any (·.type.same t)

def declareBinding (c : Compilation) (binding : Ty) : Compilation :=
  if c.isBinding binding then c
  else
    let c := c.note .debug ("binding class " ++ binding.display)
    { c with bindings := c.bindings ++ [{ type := binding }] }

def bindingIndex (c : Compilation) (binding : Ty) : Nat :=
  c.bindings.findIdx (·.type.same binding)

/-- The field of a binding that holds a captured local, added on first use.
Returns the type of the field. -/
def bindingField (c : Compilation) (binding : Ty) (name : String) (t : Ty) :
    Ty × Compilation :=
  let c := c.declareBinding binding
  let known := (c.bindings.find? (·.type.same binding)).bind (·.fields.lookup name)
  match known with
  | some declared => (declared, c)
  | none =>
    let c := c.note .debug
      ("captured " ++ t.display ++ " as " ++ binding.display ++ "." ++ name)
    let bindings := c.bindings.modify (c.bindingIndex binding) fun layout =>
      { layout with fields := layout.fields ++ [(name, t)] }
    (t, { c with bindings })

end Compilation

def BindingLayout.toClass (layout : BindingLayout) (settings : Settings) :
    Except Fault ClassFile := do
  let empty := settings.newClass layout.type.internalName (some "java/lang/Object") []
    (Access.publicFlag ||| Access.superFlag)
  let withFields := layout.fields.foldl (fun (c : ClassFile) (name, t) =>
    c.addField (FieldInfo.ofTy name t Access.publicFlag)) empty
  let body := (Assembler.start "<init>" "()V" Access.publicFlag).emitAll
    [.load .ref 0, .call .special "java/lang/Object" "<init>" "()V", .ret none]
  return withFields.addMethod (← body.finish)

/-- The classes of a file, the script class first. -/
structure CompiledUnit where
  classes : List ClassFile

namespace CompiledUnit

def class? (compiled : CompiledUnit) (name : String) : Option ClassFile :=
  compiled.classes.find? (·.name == Naming.toInternal name)

def mainClass? (compiled : CompiledUnit) : Option ClassFile := compiled.classes.head?

end CompiledUnit

namespace Compilation

def addBindings (c : Compilation) (settings : Settings) :
    List BindingLayout → Except Fault Compilation
  | [] => .ok c
  | layout :: rest => do
    let finished ← layout.toClass settings
    (c.addClass finished).addBindings settings rest

/-- Close the compilation: emit the binding classes, or fail with the
diagnostics. The log is returned in either case. -/
def finish (c : Compilation) (settings : Settings) :
    Except CompileError CompiledUnit × Log :=
  if c.hadError then (.error (.failed c.diagnostics), c.log)
  else
    match c.addBindings settings c.bindings with
    | .ok closed => (.ok ⟨closed.classes⟩, closed.log)
    | .error fault => (.error (.fault fault), c.log)

end Compilation

end ClassBackend
