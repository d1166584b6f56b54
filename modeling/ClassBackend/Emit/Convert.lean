import ClassBackend.Emit.Basic

/-!
# Conversions

The code that turns a value of one type into a value of another. A *conversion*
happens wherever a value meets a type that something else decides: a numeric
widening, boxing, unboxing or a reference check. A *cast* is asked for in the
source and may narrow, but never boxes.
-/

namespace ClassBackend

/-- A value of the source type serves as one of the target type as it is, or
there is no value. -/
def Ty.standsFor (source target : Ty) : Bool :=
  source.same target || target.isVoid || source.isVoid || source.isUnreachable ||
    source.isError || target.isError

def Primitive.unboxCode (p : Primitive) (source : Ty) : List Instruction :=
  let wrapper := p.wrapperInternal
  (if source.internalName != wrapper then [.checkcast wrapper] else []) ++
    [.call .virtual wrapper (p.name ++ "Value") ("()" ++ String.singleton p.descriptor)]

def Registry.conversionCode (r : Registry) (source target : Ty) :
    Except Fault (List Instruction) :=
  if source.standsFor target then .ok []
  else
    match source.primitive?, target.primitive? with
    | some p, some q => .ok (p.convertCode q)
    | some _, none => .ok source.boxCode
    | none, some p =>
      if source.isNull then
        .error (.incompatibleCast ("Cannot convert null to " ++ target.display))
      else .ok (p.unboxCode source)
    | none, none =>
      if source.isNull || r.assignable target source then .ok []
      else .ok [.checkcast target.internalName]

/-- Casts connect booleans with booleans, other primitives with each other, and
references with references. -/
def Ty.checkCast (source target : Ty) : Except Fault Unit :=
  if source.isError || source.isUnreachable || target.isError then .ok ()
  else if source.isPrimitive != target.isPrimitive ||
      (source.isPrimitive && source.isBoolean != target.isBoolean) then
    .error (.incompatibleCast
      ("Cannot cast " ++ source.display ++ " to " ++ target.display))
  else .ok ()

def Ty.castCode (source target : Ty) : List Instruction :=
  match source.primitive?, target.primitive? with
  | some p, some q => p.convertCode q
  | _, _ =>
    if !source.same target && !source.isNull then [.checkcast target.internalName] else []

namespace Emit

/-- Push the receiver of the method being emitted; static code pushes the
class. -/
def pushSelf : Emit Unit := do
  let state ← get
  if state.isStatic then code state.classType.classLiteralCode else instruction (.load .ref 0)

/-- The type of `self`: the class, or its class object in static code. -/
def selfType : Emit Ty := do
  let state ← get
  return if state.isStatic then .metaOf state.classType else state.classType

end Emit

namespace Context

variable (ctx : Context) (recur : Recursion)

def convert (source target : Ty) : Emit Unit :=
  if source.standsFor target then pure ()
  else Emit.codeOf (ctx.registry.conversionCode source target)

def emitAs (node : Node) (target : Ty) : Emit Unit := do
  let source ← ctx.nodeType node
  recur.emit node true
  if ← Emit.reachable then ctx.convert source target

def emitCast (node value : Node) (want : Bool) : Emit Unit := do
  let target ← ctx.nodeType node
  let source ← ctx.nodeType value
  Emit.ofExcept (source.checkCast target)
  recur.emit value true
  Emit.code (source.castCode target)
  if !want then Emit.code target.popCode

end Context

end ClassBackend
