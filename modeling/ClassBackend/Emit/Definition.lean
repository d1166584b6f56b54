import ClassBackend.Decimal.Layout
import ClassBackend.Emit.Method
import ClassBackend.Text.Quoted

/-!
# Definitions

Classes, methods, constructors and closures. Every optional argument gives a
method one more overload, which fills the argument in and calls the overload
that takes it. A closure is a class of its own; if the frame around it has a
binding, the closure carries it in a field.
-/

namespace ClassBackend

def Literal.inspect : Literal → String
  | .int value => "Int(" ++ toString value.toInt ++ ")"
  | .float value => "Float(" ++ Decimal.Layout.literal.render value.parts ++ ")"
  | .text value => "Str(" ++ Text.quoted value ++ ")"

def Literal.constantAt (literal : Literal) (t : Ty) : Except Fault ConstantValue :=
  let refused : Except Fault ConstantValue :=
    .error (.incompatibleCast
      ("Cannot use " ++ literal.inspect ++ " as a constant of type " ++ t.display))
  match literal, t.primitive? with
  | .text value, none => .ok (.text value)
  | .int value, some .long => .ok (.long value)
  | .int value, some .float => .ok (.float (.ofFloat32 value.toFloat32))
  | .int value, some .double => .ok (.double (.ofFloat value.toFloat))
  | .int value, some _ => .ok (.int value.toInt32)
  | .float value, some .float => .ok (.float value.toSingle)
  | .float value, some .double => .ok (.double value)
  | _, _ => refused

def closureConstructor (closure binding : Ty) : Except Fault MethodInfo :=
  let start := Assembler.start "<init>" (methodDescriptor [binding] .void) Access.publicFlag
  let (slot, start) := start.namedLocal "binding" binding
  let field : MemberRef :=
    { owner := closure.internalName, name := "binding", descriptor := binding.descriptor }
  (start.emitAll [.load .ref 0, .call .special "java/lang/Object" "<init>" "()V",
    .load .ref 0, .load .ref slot, .putField field, .ret none]).finish

/-- Statements of a class body that make up its static initializer. -/
def NodeKind.isInitializer : NodeKind → Bool
  | .fieldDecl _ | .methodDef _ | .constructorDef _ | .classDef _ => false
  | _ => true

def ClassDef.hasConstructor (definition : ClassDef) : Bool :=
  definition.body.any fun member =>
    match member.kind with
    | .constructorDef _ => true
    | _ => false

namespace Context

variable (ctx : Context) (recur : Recursion)

/-! ## Methods and constructors -/

/-- Emit the overloads of a method that leave out optional arguments, starting
with the one that takes `taken`. -/
def emitOverloads (spec : MethodSpec) (invocation : InvokeKind) :
    (taken : List (String × Ty)) → List (Argument × (String × Ty)) → Emit Unit
  | _, [] => pure ()
  | taken, (arg, param) :: rest => do
    let default ← Emit.orFault arg.default (.internal
      ("required argument " ++ arg.name ++ " follows an optional one in " ++ spec.name))
    let extended := taken ++ [param]
    let next : MemberRef := {
      owner := (← get).current.name
      name := spec.name
      descriptor := methodDescriptor (extended.map (·.2)) spec.returnType }
    ctx.emitMethod recur {
      name := spec.name
      access := spec.access
      params := taken
      returnType := spec.returnType
      scope := spec.scope
      body := .forward default next invocation param.2 }
    emitOverloads spec invocation extended rest

def emitAllOverloads (spec : MethodSpec) (invocation : InvokeKind) (args : List Argument) :
    Emit Unit :=
  let required := Argument.required args
  ctx.emitOverloads recur spec invocation (spec.params.take required)
    ((args.zip spec.params).drop required)

def emitMethodDef (node : Node) (definition : MethodDef) (forceStatic : Bool) : Emit Unit := do
  let returnType ← ctx.nodeType node
  let isStatic := definition.isStatic || forceStatic
  let isInterface := (← get).current.isInterface
  let access := if isStatic then Access.publicFlag ||| Access.staticFlag else Access.publicFlag
  let params ← Emit.ofExcept (ctx.types.paramsOf definition.args)
  let throws ← Emit.ofExcept
    (definition.throws.mapM fun name => Ty.internalName <$> ctx.registry.get name)
  let spec : MethodSpec := {
    name := definition.name
    access
    params
    returnType
    scope := ctx.scopes.scopeFor? node.id
    body := .node definition.body
    throws
    annotations := definition.notes.map ctx.annotationOf }
  if !isInterface then
    ctx.emitAllOverloads recur spec (if isStatic then .static else .virtual) definition.args
  ctx.emitMethod recur
    (if isInterface && definition.body.isNone then
      { spec with access := access ||| Access.abstractFlag }
    else spec)

def emitConstructorDef (node : Node) (definition : ConstructorDef) : Emit Unit := do
  let params ← Emit.ofExcept (ctx.types.paramsOf definition.args)
  let spec : MethodSpec := {
    name := "<init>"
    access := Access.publicFlag
    params
    returnType := .void
    scope := ctx.scopes.scopeFor? node.id
    body := .node definition.body
    prologue := match definition.delegate with
      | some delegation => .delegate delegation
      | none => .superInit }
  ctx.emitAllOverloads recur spec .special definition.args
  ctx.emitMethod recur spec

/-! ## Classes -/

def emitFieldDef (node : Node) (definition : FieldDef) : Emit Unit := do
  let t ← ctx.nodeType node
  let access := fieldAccess definition.isStatic |||
    (if definition.isTransient then Access.transientFlag else 0)
  let _ ← ctx.declareField definition.name t fun declared => do
    let plain := FieldInfo.ofTy definition.name declared access
    let field ← match definition.constant with
      | some literal => plain.withConstant <$> literal.constantAt declared
      | none => pure plain
    return { field with annotations := definition.notes.map ctx.annotationOf }

def emitMember (member : Node) : Emit Unit :=
  match member.kind with
  | .methodDef definition => ctx.emitMethodDef recur member definition false
  | .constructorDef definition => ctx.emitConstructorDef recur member definition
  | .classDef _ => recur.emit member false
  | _ => pure ()

/-- Emit the body of a class: fields first, then members, then the static
initializer. -/
def emitClassBody (node : Node) (definition : ClassDef) : Emit Unit := do
  definition.body.forM fun member =>
    match member.kind with
    | .fieldDecl field => ctx.emitFieldDef member field
    | _ => pure ()
  definition.body.forM (ctx.emitMember recur)
  let initializer := definition.body.filter (·.kind.isInitializer)
  if !initializer.isEmpty then
    ctx.emitMethod recur {
      name := "<clinit>"
      access := Access.staticFlag
      returnType := .void
      scope := ctx.scopes.scopeFor? node.id
      body := .statements initializer }
  if !definition.isInterface && !definition.hasConstructor then
    ctx.emitDefaultConstructor recur

def emitClassDef (node : Node) (definition : ClassDef) : Emit Unit := do
  let t ← ctx.nodeType node
  let interfaces ← Emit.ofExcept (ctx.registry.interfaces t)
  let superclass ← if definition.isInterface then pure "java/lang/Object"
    else Emit.ofExcept (ctx.superclassName t)
  let access := if definition.isInterface
    then Access.publicFlag ||| Access.interfaceFlag ||| Access.abstractFlag
    else Access.publicFlag ||| Access.superFlag
  ctx.note .debug ("class " ++ t.display ++ " < " ++ superclass)
  let fresh := ctx.settings.newClass t.internalName (some superclass)
    (interfaces.map Ty.internalName) access
  let finished ← Emit.inClass fresh t .construct (ctx.emitClassBody recur node definition)
  Emit.addClass finished

/-! ## Closures -/

def emitClosureBody (definition : ClosureDef) (carried : Option Ty) : Emit Unit := do
  definition.methods.forM fun method =>
    match method.kind with
    | .methodDef inner => ctx.emitMethodDef recur method inner false
    | _ => throw (.unsupported "closure member other than a method")
  if carried.isNone then ctx.emitDefaultConstructor recur

def closureShell (t : Ty) (interfaces : List String) (carried : Option Ty) :
    Except Fault ClassFile := do
  let shell := ctx.settings.newClass t.internalName (some "java/lang/Object") interfaces
    (Access.publicFlag ||| Access.superFlag)
  match carried with
  | none => return shell
  | some binding =>
    let field := FieldInfo.ofTy "binding" binding Access.privateFlag
    return (shell.addField field).addMethod (← closureConstructor t binding)

def instantiateClosure (t : Ty) (carried : Option Ty) : Emit Unit := do
  let slot := (← Emit.frame).bindingSlot
  let className := t.internalName
  Emit.code [.new className, .dup]
  match carried, slot with
  | some binding, some slot =>
    Emit.code [.load .ref slot,
      .call .special className "<init>" (methodDescriptor [binding] .void)]
  | some _, none => throw (.internal "binding was never stored")
  | none, _ => Emit.instruction (.call .special className "<init>" "()V")

/-- Emit a closure: its class, and an instance of it where one is wanted. -/
def emitClosureDef (node : Node) (definition : ClosureDef) (want : Bool) : Emit Unit := do
  let t ← ctx.nodeType node
  let carried := (← Emit.frame).binding
  let interfaces := (← Emit.ofExcept (ctx.registry.interfaces t)).map Ty.internalName
  ctx.note .debug ("closure " ++ definition.name ++ " implements " ++
    Text.quotedList interfaces ++ " (binding: " ++
    (carried.map Ty.display).getD "none" ++ ")")
  let shell ← Emit.ofExcept (ctx.closureShell t interfaces carried)
  let finished ← Emit.inClass shell t (.fromReceiver carried)
    (ctx.emitClosureBody recur definition carried)
  Emit.addClass finished
  Emit.modifyClass (·.addInnerClass t.internalName)
  if want then instantiateClosure t carried

end Context

end ClassBackend
