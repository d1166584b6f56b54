import ClassBackend.Code.TypeCode
import ClassBackend.Emit.Compilation
import ClassBackend.Emit.Jump
import ClassBackend.Member.Resolve
import ClassBackend.Scope.Basic
import ClassBackend.Tree.TypeMap

/-!
# Emission

Actions that emit code. An action reads a fixed `Context`, changes an
`Emission` and may end in a fault. What an action changes for the time of a
part only (the open jump scopes, the method frame, the class) it puts back when
that part ends, whether with a result or with a fault; `Emit.openScope`,
`Emit.detached`, `Emit.inFrame` and `Emit.inClass` are the only places that
change these fields.
-/

namespace ClassBackend

inductive BindingStrategy where
  /-- Make a fresh binding for every activation. -/
  | construct
  /-- Read it from the `binding` field of the closure that is the receiver. A
  closure made where there is no binding carries none. -/
  | fromReceiver (carried : Option Ty)
  deriving DecidableEq, Repr

structure Frame where
  body : Assembler
  scope : Option ScopeId
  binding : Option Ty
  bindingSlot : Option UInt16 := none
  returnType : Ty

structure Context where
  registry : Registry
  types : TypeMap
  members : MemberTable
  settings : Settings
  scopes : ScopeTable

/-- The state of emission: what all classes share, the class being emitted, and
the method being emitted in it. -/
structure Emission where
  unit : Compilation
  current : ClassFile
  classType : Ty
  isStatic : Bool := false
  frame : Option Frame := none
  jumps : JumpScopes := []
  strategy : BindingStrategy := .construct

/-- Actions that emit code. The state outlives a fault. -/
abbrev Emit := EStateM Fault Emission

namespace Emit

def ofExcept {α : Type} : Except Fault α → Emit α
  | .ok a => pure a
  | .error fault => throw fault

def orFault {α : Type} (value : Option α) (fault : Fault) : Emit α :=
  match value with
  | some a => pure a
  | none => throw fault

/-! ## The method being emitted -/

def frame : Emit Frame := do
  orFault (← get).frame (.internal "no method is being emitted")

def setFrame (frame : Frame) : Emit Unit :=
  modify fun state => { state with frame := some frame }

/-- Take the frame out of the state, so that nothing else holds on to it and
its body changes in place. -/
@[noinline] def takeFrame : Emit Frame := do
  let current ← frame
  modify fun state => { state with frame := none }
  return current

def assembling {α : Type} (step : Assembler → α × Assembler) : Emit α := do
  let ⟨body, scope, binding, bindingSlot, returnType⟩ ← takeFrame
  let (result, body) := step body
  setFrame { body, scope, binding, bindingSlot, returnType }
  return result

def assemble (change : Assembler → Assembler) : Emit Unit :=
  assembling fun body => ((), change body)

/-- Change the body that is being emitted, if there is one. -/
def marking (change : Assembler → Assembler) : Emit Unit :=
  modify fun state =>
    { state with
      frame := state.frame.map fun frame => { frame with body := change frame.body } }

def code (instructions : List Instruction) : Emit Unit := assemble (·.emitAll instructions)

def instruction (i : Instruction) : Emit Unit := assemble (·.emit i)

def push (want : Bool) (i : Instruction) : Emit Unit := if want then instruction i else pure ()

/-- Append the code a type has for something, which not every type has. -/
def codeOf (instructions : Except Fault (List Instruction)) : Emit Unit := do
  let _ ← frame
  code (← ofExcept instructions)

def label : Emit Label := assembling Assembler.label

def place (target : Label) : Emit Unit := assemble (·.place target)

def goto (target : Label) : Emit Unit := assemble (·.goto target)

def reachable : Emit Bool := assembling fun body => (body.reachable, body)

def gotoIfReachable (target : Label) : Emit Unit := do
  if ← reachable then goto target

def temporary (t : Ty) : Emit UInt16 := assembling (·.allocate t)

def namedLocal (name : String) (t : Ty) : Emit UInt16 := assembling (·.namedLocal name t)

/-! ## What actions restore -/

/-- Run an action inside a jump scope. Returns the scope as the action left
it. -/
def openScope (scope : JumpScope) (action : Emit Unit) : Emit (Option JumpScope) := fun state =>
  match action { state with jumps := scope :: state.jumps } with
  | .ok _ after => .ok after.jumps.head? { after with jumps := after.jumps.tail }
  | .error fault after => .error fault { after with jumps := after.jumps.tail }

def detached (depth : Nat) (action : Emit Unit) : Emit Unit := fun state =>
  let (inner, outer) := state.jumps.detach depth
  match action { state with jumps := outer } with
  | .ok _ after => .ok () { after with jumps := after.jumps.restore inner }
  | .error fault after => .error fault { after with jumps := after.jumps.restore inner }

/-- Run an action in a method frame of its own. Returns the frame as the action
left it. -/
def inFrame (frame : Frame) (isStatic : Bool) (action : Emit Unit) : Emit (Option Frame) :=
  fun state =>
    let leave (after : Emission) : Emission :=
      { after with frame := state.frame, isStatic := state.isStatic, jumps := state.jumps }
    match action { state with frame := some frame, isStatic, jumps := [.method] } with
    | .ok _ after => .ok after.frame (leave after)
    | .error fault after => .error fault (leave after)

/-- Run an action in a class of its own. Returns the class as the action left
it. -/
def inClass (fresh : ClassFile) (classType : Ty) (strategy : BindingStrategy)
    (action : Emit Unit) : Emit ClassFile := fun state =>
  match action { unit := state.unit, current := fresh, classType, strategy } with
  | .ok _ after => .ok after.current { state with unit := after.unit }
  | .error fault after => .error fault { state with unit := after.unit }

/-! ## The class being emitted -/

def sharing {α : Type} (step : Compilation → α × Compilation) : Emit α :=
  modifyGet fun state =>
    let (result, unit) := step state.unit
    (result, { state with unit })

def addClass (finished : ClassFile) : Emit Unit := sharing fun unit => ((), unit.addClass finished)

def modifyClass (change : ClassFile → ClassFile) : Emit Unit :=
  modify fun state => { state with current := change state.current }

end Emit

namespace Context

variable (ctx : Context)

def note (level : Level) (message : String) : Emit Unit :=
  Emit.sharing fun unit =>
    ((), { unit with log := (ctx.settings.logger "emitter").record level message unit.log })

def typeOf (node : Node) : Except Fault Ty := ctx.types.typeOf node

def nodeType (node : Node) : Emit Ty := Emit.ofExcept (ctx.typeOf node)

/-- Record the source line of the code that follows, inside a method and if
lines are wanted. -/
def markLine (node : Node) : Emit Unit :=
  match ctx.settings.lineNumbers, node.line? with
  | true, some line => Emit.marking (·.line line)
  | _, _ => pure ()

/-- Record the node whose code follows, and its line. -/
def enter (node : Node) : Emit Unit := do
  Emit.marking (·.visit node)
  ctx.markLine node

end Context

structure Recursion where
  emit : Node → (want : Bool) → Emit Unit
  branch : Node → Label → (when : Bool) → Emit Unit

end ClassBackend
