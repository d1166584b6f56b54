import ClassBackend.Emit.Control
import ClassBackend.Emit.Definition
import ClassBackend.Emit.Value

/-!
# Emitting nodes

`Context.emitNode` emits one node, given the means to emit its parts, and
`Context.branchOn` jumps on the value of one. `Context.recursion` ties the two
together. Inlined ensure clauses are not parts of the jump that runs them, so
the recursion is bounded by a depth: twice the size of a script is enough for
every node of it.
-/

namespace ClassBackend.Context

variable (ctx : Context) (recur : Recursion)

def emitNode (node : Node) (want : Bool) : Emit Unit := do
  ctx.enter node
  match node.kind with
  | .fixnum value => if want then Emit.instruction (fixnumCode value (← ctx.nodeType node))
  | .float value => if want then Emit.instruction (floatCode value (← ctx.nodeType node))
  | .char value => Emit.push want (.iconst (Int32.ofNat value.toNat))
  | .text value => Emit.push want (.ldc (.text value))
  | .boolean value => Emit.push want (.iconst (if value then 1 else 0))
  | .null => Emit.push want .aconstNull
  | .regex pattern => if want then Emit.code (patternCode pattern)
  | .selfRef => if want then Emit.pushSelf
  | .typeRef _ => if want then Emit.code (← ctx.nodeType node).unmeta.classLiteralCode
  | .bindingRef => if want then discard Emit.pushBinding
  | .body nodes => emitBody recur want nodes
  | .ifElse condition main elseBody => ctx.emitIf recur node condition main elseBody want
  | .loop parts => emitLoop recur parts want
  | .break => emitLoopJump recur node .break
  | .next => emitLoopJump recur node .next
  | .redo => emitLoopJump recur node .redo
  | .return value => ctx.emitReturn recur node value
  | .raise value => ctx.emitRaise recur value
  | .rescue main clauses elseClause =>
    ctx.emitRescue recur ctx.bindException node main clauses elseClause want
  | .ensure main clause => ctx.emitEnsure recur node main clause want
  | .call target name args =>
    ctx.withMember node (some target) name args fun m site => ctx.callMember recur m site want
  | .selfCall name args =>
    ctx.withMember node none name args fun m site => ctx.callMember recur m site want
  | .superCall name args => ctx.emitSuperCall recur node name args want
  | .cast value => ctx.emitCast recur node value want
  | .print newline args => ctx.emitPrint recur newline args want
  | .concat parts => ctx.emitConcat recur parts want
  | .eval value => ctx.emitText recur value want
  | .array elements => ctx.emitList recur elements want
  | .emptyArray size => ctx.emitNewArray recur node size want
  | .localDecl name => ctx.emitLocalAccess node name want
  | .localAccess name => ctx.emitLocalAccess node name want
  | .localAssign name value => ctx.emitLocalAssign recur node name value want
  | .fieldDecl _ => pure ()
  | .fieldAccess name isStatic => ctx.emitFieldAccess node name isStatic want
  | .fieldAssign name value isStatic notes =>
    ctx.emitFieldAssign recur name value isStatic notes want
  | .classDef definition =>
    ctx.emitClassDef recur node definition
    Emit.push want .aconstNull
  | .methodDef definition =>
    ctx.emitMethodDef recur node definition (← get).isStatic
    Emit.push want .aconstNull
  | .constructorDef definition =>
    ctx.emitConstructorDef recur node definition
    Emit.push want .aconstNull
  | .closureDef definition => ctx.emitClosureDef recur node definition want
  | .script _ => throw (.unsupported "nested script")

def jumpOnValue (target : Label) (when : Bool) : Emit Unit :=
  Emit.instruction (.ifZero (if when then .ne else .eq) target)

def jumpOnCall (m : Member) (site : CallSite) (target : Label) (when : Bool) : Emit Unit := do
  if m.branches then ctx.jumpOnMember recur m site target when
  else
    ctx.callMember recur m site true
    jumpOnValue target when

def branchOn (node : Node) (target : Label) (when : Bool) : Emit Unit := do
  let t ← ctx.nodeType node
  if !t.isBoolean then throw (.nonBooleanPredicate t.display)
  ctx.markLine node
  match node.kind with
  | .boolean value => if value == when then Emit.goto target
  | .call receiver name args =>
    ctx.withMember node (some receiver) name args fun m site =>
      ctx.jumpOnCall recur m site target when
  | .selfCall name args =>
    ctx.withMember node none name args fun m site => ctx.jumpOnCall recur m site target when
  | _ =>
    recur.emit node true
    jumpOnValue target when

/-- Emission of nodes nested at most `depth` deep. -/
def recursion : (depth : Nat) → Recursion
  | 0 => { emit := fun _ _ => throw .tooDeep, branch := fun _ _ _ => throw .tooDeep }
  | depth + 1 => {
    emit := fun node want => ctx.emitNode (recursion depth) node want
    branch := fun node target when => ctx.branchOn (recursion depth) node target when }

def within (script : Node) : Recursion := ctx.recursion (2 * script.size)

end ClassBackend.Context
