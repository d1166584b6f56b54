import ClassBackend.Emit.Storage

/-!
# Methods

One method from its description: parameters, initial values of locals, the
binding object, what a constructor runs first, the body, and the final return.
-/

namespace ClassBackend

inductive Prologue where
  | none
  | delegate (delegation : Delegation)
  /-- The superclass constructor without arguments. -/
  | superInit

inductive MethodBody where
  /-- The body in the source; its value is the result. -/
  | node (body : Option Node)
  | statements (nodes : List Node)
  /-- An overload without some optional arguments: pass the parameters on, fill
  the next one with its default and call the overload that takes it. -/
  | forward (default : Node) (next : MemberRef) (invocation : InvokeKind) (filled : Ty)

structure MethodSpec where
  name : String
  access : Access
  params : List (String × Ty) := []
  returnType : Ty
  scope : Option ScopeId := none
  body : MethodBody
  prologue : Prologue := .none
  throws : List String := []
  annotations : List Annotation := []

namespace MethodSpec

def descriptor (spec : MethodSpec) : String :=
  methodDescriptor (spec.params.map (·.2)) spec.returnType

def isParam (spec : MethodSpec) (name : String) : Bool := spec.params.any (·.1 == name)

def isStatic (spec : MethodSpec) : Bool := Access.has spec.access Access.staticFlag

def start (spec : MethodSpec) : Assembler :=
  { Assembler.start spec.name spec.descriptor spec.access with
    exceptions := spec.throws, annotations := spec.annotations }

def withParams (spec : MethodSpec) (a : Assembler) : Assembler :=
  spec.params.foldl (fun a (name, t) => (a.namedLocal name t).2) a

end MethodSpec

namespace Context

variable (ctx : Context) (recur : Recursion)

def superclassName (t : Ty) : Except Fault String := do
  let superclass ← ctx.registry.superclass t
  return (superclass.map Ty.internalName).getD "java/lang/Object"

/-- Give every uncaptured local its default value, so that each slot is
assigned before it is read. -/
def initLocals (spec : MethodSpec) : Emit Unit := do
  match (← Emit.frame).scope with
  | none => pure ()
  | some id =>
    match ctx.scopes.scope? id with
    | none => pure ()
    | some scope =>
      scope.locals.forM fun (name, t) => do
        if !spec.isParam name && !scope.isCaptured name && t.stackKind?.isSome then
          let slot ← ctx.localSlot id name t
          Emit.code t.initCode
          Emit.codeOf (t.storeCode slot)

def captureParams (spec : MethodSpec) (binding : Ty) (slot : UInt16) : Emit Unit := do
  match (← Emit.frame).scope with
  | none => pure ()
  | some id =>
    spec.params.forM fun (name, t) => do
      if ctx.scopes.isCaptured id name then
        let field ← Emit.captureField binding name t
        let param ← Emit.namedLocal name t
        Emit.instruction (.load .ref slot)
        Emit.codeOf (t.loadCode param)
        Emit.instruction (.putField field)

/-- Keep the binding object on top of the stack in a slot of the frame. -/
def storeBinding (spec : MethodSpec) (binding : Ty) : Emit Unit := do
  let slot ← Emit.temporary binding
  Emit.instruction (.store .ref slot)
  let frame ← Emit.frame
  Emit.setFrame { frame with bindingSlot := some slot }
  ctx.captureParams spec binding slot

def prepareBinding (spec : MethodSpec) : Emit Unit := do
  let frame ← Emit.frame
  match frame.binding with
  | none => pure ()
  | some binding =>
    let state ← get
    match state.strategy with
    | .construct =>
      Emit.sharing fun unit => ((), unit.declareBinding binding)
      let className := binding.internalName
      Emit.modifyClass (·.addInnerClass className)
      Emit.code [.new className, .dup, .call .special className "<init>" "()V"]
      ctx.storeBinding spec binding
    | .fromReceiver (some carried) =>
      let field : MemberRef := {
        owner := state.classType.internalName
        name := "binding"
        descriptor := carried.descriptor }
      Emit.code [.load .ref 0, .getField field]
      ctx.storeBinding spec binding
    | .fromReceiver none =>
      ctx.note .warn ("closure " ++ state.classType.display ++ " has no binding to read")
      Emit.setFrame { frame with binding := none }

def emitDelegation (delegation : Delegation) : Emit Unit := do
  let classType := (← get).classType
  let target ← if delegation.callsSuper then
      (·.getD .rootClass) <$> Emit.ofExcept (ctx.registry.superclass classType)
    else pure classType
  let types ← Emit.ofExcept (delegation.args.mapM ctx.typeOf)
  let constructor ← Emit.orFault (ctx.registry.constructor? ctx.members target types)
    (.missingMethod target.display "initialize" (types.map Ty.display))
  Emit.instruction (.load .ref 0)
  (delegation.args.zip constructor.params).forM fun (arg, param) => ctx.emitAs recur arg param
  Emit.instruction (.call .special target.internalName "<init>" constructor.descriptor)

def emitPrologue (prologue : Prologue) : Emit Unit := do
  match prologue with
  | .none => pure ()
  | .superInit =>
    let superclass ← Emit.ofExcept (ctx.superclassName (← get).classType)
    Emit.code [.load .ref 0, .call .special superclass "<init>" "()V"]
  | .delegate delegation => ctx.emitDelegation recur delegation

def emitMethodBody (spec : MethodSpec) : Emit Unit := do
  match spec.body with
  | .node (some body) =>
    if spec.returnType.isVoid then recur.emit body false
    else ctx.emitAs recur body spec.returnType
  | .node none => Emit.code spec.returnType.initCode
  | .statements nodes => nodes.forM fun node => recur.emit node false
  | .forward default next invocation filled =>
    if invocation != .static then Emit.instruction (.load .ref 0)
    spec.params.forM fun (name, t) => do
      let slot ← Emit.namedLocal name t
      Emit.codeOf (t.loadCode slot)
    ctx.emitAs recur default filled
    Emit.instruction (.invoke invocation next)

/-- What is emitted inside a frame once it has its locals and its binding. -/
def emitInside (spec : MethodSpec) : Emit Unit := do
  ctx.emitPrologue recur spec.prologue
  ctx.emitMethodBody recur spec
  if ← Emit.reachable then Emit.code spec.returnType.returnCode

def emitFrame (spec : MethodSpec) : Emit Unit := do
  ctx.initLocals spec
  ctx.prepareBinding spec
  ctx.emitInside recur spec

/-- The frame of a method before anything is emitted into it. -/
def freshFrame (spec : MethodSpec) : Frame where
  body := spec.withParams spec.start
  scope := spec.scope
  binding := spec.scope.bind ctx.scopes.bindingType?
  returnType := spec.returnType

def emitMethod (spec : MethodSpec) : Emit Unit := do
  let signature := (← get).current.name ++ "." ++ spec.name ++ spec.descriptor
  if Access.has spec.access Access.abstractFlag then
    ctx.note .debug ("abstract " ++ signature)
    let method ← Emit.ofExcept spec.start.finish
    Emit.modifyClass (·.addMethod method)
  else
    let frame ← Emit.inFrame (ctx.freshFrame spec) spec.isStatic (ctx.emitFrame recur spec)
    let frame ← Emit.orFault frame (.internal "method frame disappeared")
    let method ← Emit.ofExcept frame.body.finish
    ctx.note .debug
      ("method " ++ signature ++ " (" ++ toString method.code.size ++ " instructions)")
    Emit.modifyClass (·.addMethod method)

def emitDefaultConstructor : Emit Unit := do
  if !(← get).current.hasMethod "<init>" "()V" then
    ctx.emitMethod recur {
      name := "<init>"
      access := Access.publicFlag
      returnType := .void
      body := .node none
      prologue := .superInit }

end Context

end ClassBackend
