import ClassBackend.Emit.Convert
import ClassBackend.Tree.Annotation

/-!
# Locals and fields

Where variables live. An uncaptured local has a slot of its own in the frame; a
captured one is a field of the binding object. A field of a class is declared
by its first use, which decides its type.
-/

namespace ClassBackend

/-- A local a node refers to: the scope that defines it, its type, and whether
it lives in the binding. -/
structure LocalInfo where
  scope : ScopeId
  type : Ty
  captured : Bool

def fieldAccess (isStatic : Bool) : Access :=
  if isStatic then Access.privateFlag ||| Access.staticFlag else Access.privateFlag

namespace Emit

def pushBinding : Emit Ty := do
  let current ← frame
  match current.binding, current.bindingSlot with
  | some binding, some slot =>
    instruction (.load .ref slot)
    return binding
  | _, _ => throw (.internal "captured local without a binding")

def captureField (binding : Ty) (name : String) (t : Ty) : Emit MemberRef := do
  let declared ← sharing (·.bindingField binding name t)
  return { owner := binding.internalName, name, descriptor := declared.descriptor }

def fieldOf (name : String) (t : Ty) : Emit MemberRef := do
  return { owner := (← get).current.name, name, descriptor := t.descriptor }

end Emit

namespace Context

variable (ctx : Context) (recur : Recursion)

/-! ## Locals -/

def localInfo (node : Node) (name : String) : Except Fault LocalInfo := do
  match ctx.scopes.definingScope? node.id with
  | none => throw (.internal ("local " ++ name ++ " was never scoped"))
  | some scope =>
    let type ← match (ctx.scopes.scope? scope).bind (·.localType? name) with
      | some t => pure t
      | none => ctx.typeOf node
    return { scope, type, captured := ctx.scopes.isCaptured scope name }

/-- The slot of an uncaptured local, allocated on first use. -/
def localSlot (scope : ScopeId) (name : String) (t : Ty) : Emit UInt16 :=
  Emit.namedLocal (ctx.scopes.slotName scope name) t

def emitLocalAccess (node : Node) (name : String) (want : Bool) : Emit Unit := do
  if want then
    let info ← Emit.ofExcept (ctx.localInfo node name)
    if info.captured then
      let binding ← Emit.pushBinding
      Emit.instruction (.getField (← Emit.captureField binding name info.type))
    else
      let slot ← ctx.localSlot info.scope name info.type
      Emit.codeOf (info.type.loadCode slot)

def emitLocalAssign (node : Node) (name : String) (value : Node) (want : Bool) :
    Emit Unit := do
  let info ← Emit.ofExcept (ctx.localInfo node name)
  if info.captured then
    let binding ← Emit.pushBinding
    let field ← Emit.captureField binding name info.type
    ctx.emitAs recur value info.type
    Emit.code ((if want then [info.type.dupUnderOne] else []) ++ [.putField field])
  else
    let slot ← ctx.localSlot info.scope name info.type
    ctx.emitAs recur value info.type
    if want then Emit.code info.type.dupCode
    Emit.codeOf (info.type.storeCode slot)

/-- Store the exception on top of the stack in the variable of a rescue
clause. -/
def bindException (clause : RescueClause) : Emit Unit :=
  match clause.name with
  | none => Emit.instruction .pop
  | some name => do
    let scope ← Emit.orFault (ctx.scopes.scopeFor? clause.id)
      (.internal "rescue clause was never scoped")
    let t ← Emit.orFault ((ctx.scopes.scope? scope).bind (·.localType? name))
      (.internal ("rescue variable " ++ name ++ " has no type"))
    if ctx.scopes.isCaptured scope name then
      let binding ← Emit.pushBinding
      let field ← Emit.captureField binding name t
      Emit.code [.swap, .putField field]
    else
      let slot ← ctx.localSlot scope name t
      Emit.codeOf (t.storeCode slot)

/-! ## Annotations -/

/-- The descriptor of a class named in an annotation; an unknown class is taken
at its word. -/
def classDescriptor (name : String) : String :=
  match ctx.registry.get name with
  | .ok t => t.descriptor
  | .error _ => "L" ++ Naming.toInternal name ++ ";"

def annotationOf (note : Note) : Annotation := note.toAnnotation ctx.classDescriptor

/-! ## Fields -/

/-- Declare a field of the class being emitted. The first declaration decides
the type and adds the field, which `shape` makes of the type; later ones change
nothing. -/
def declareField (name : String) (t : Ty) (shape : Ty → Except Fault FieldInfo) : Emit Ty := do
  let className := (← get).current.name
  let (declared, isNew) ← Emit.sharing fun unit =>
    let (declared, isNew, unit) := unit.declareField className name t
    ((declared, isNew), unit)
  if isNew && !(← get).current.hasField name then
    let field ← Emit.ofExcept (shape declared)
    ctx.note .debug ("field " ++ className ++ "." ++ name ++ " : " ++ declared.display)
    Emit.modifyClass (·.addField field)
  return declared

def declareUsedField (name : String) (t : Ty) (isStatic : Bool) (notes : List Note) : Emit Ty :=
  ctx.declareField name t fun declared =>
    .ok { FieldInfo.ofTy name declared (fieldAccess isStatic) with
      annotations := notes.map ctx.annotationOf }

def emitFieldAccess (node : Node) (name : String) (isStatic : Bool) (want : Bool) :
    Emit Unit := do
  let isStatic := isStatic || (← get).isStatic
  let t ← ctx.nodeType node
  let t ← ctx.declareUsedField name t isStatic []
  if want then
    let field ← Emit.fieldOf name t
    if isStatic then Emit.instruction (.getStatic field)
    else
      Emit.pushSelf
      Emit.instruction (.getField field)

def emitFieldAssign (name : String) (value : Node) (isStatic : Bool) (notes : List Note)
    (want : Bool) : Emit Unit := do
  let isStatic := isStatic || (← get).isStatic
  let t ← ctx.nodeType value
  let t ← ctx.declareUsedField name t isStatic notes
  let field ← Emit.fieldOf name t
  if isStatic then
    ctx.emitAs recur value t
    Emit.code ((if want then t.dupCode else []) ++ [.putStatic field])
  else
    Emit.pushSelf
    ctx.emitAs recur value t
    Emit.code ((if want then [t.dupUnderOne] else []) ++ [.putField field])

end Context

end ClassBackend
