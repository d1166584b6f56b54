import ClassBackend.Emit.Convert

/-!
# Calls

The code of a call, by the member it denotes. Operators, array members and
class tests are expanded in place; those with a boolean result can also branch
on it directly (`Context.jumpOnMember`), which saves making the value.
-/

namespace ClassBackend

/-- A call being emitted. Unqualified and `super` calls have no target. -/
structure CallSite where
  target : Option Node
  args : List Node
  node : Node

namespace CallSite

def receiver (site : CallSite) : Except Fault Node :=
  match site.target with
  | some node => .ok node
  | none =>
    .error (.internal
      ("intrinsic " ++ site.node.describe ++ " needs an explicit receiver"))

def operand (site : CallSite) : Except Fault Node :=
  match site.args with
  | arg :: _ => .ok arg
  | [] => .error (.internal "binary intrinsic called without an operand")

end CallSite

def textBuilder : String := "java/lang/StringBuilder"

def textBuilderCode : List Instruction :=
  [.new textBuilder, .dup, .call .special textBuilder "<init>" "()V"]

def appendTextCode : Instruction :=
  .call .virtual textBuilder "append" "(Ljava/lang/String;)Ljava/lang/StringBuilder;"

def appendAnyCode : Instruction :=
  .call .virtual textBuilder "append" "(Ljava/lang/Object;)Ljava/lang/StringBuilder;"

def builtTextCode : Instruction :=
  .call .virtual textBuilder "toString" "()Ljava/lang/String;"

namespace Member

def reference (m : Member) : MemberRef :=
  match m with
  | .getter _ owner field type | .setter _ owner field type =>
    { owner := owner.internalName, name := field, descriptor := type.descriptor }
  | _ =>
    { owner := m.declaringType.internalName, name := m.name, descriptor := m.descriptor }

/-- The code that compares two operands on the stack and jumps. A comparison
with an unordered pair fails: the bias of the floating instructions follows the
operator of the source, not the test that is made of it. -/
def compareCode (cond : Cond) (operand : Ty) (test : Cond) (target : Label) :
    Except Fault (List Instruction) :=
  let greater := cond == .lt || cond == .le
  match operand.stackKind? with
  | some .int => .ok [.ifInt test target]
  | some .long => .ok [.lcmp, .ifZero test target]
  | some .float => .ok [if greater then .fcmpg else .fcmpl, .ifZero test target]
  | some .double => .ok [if greater then .dcmpg else .dcmpl, .ifZero test target]
  | _ => .error (.internal ("comparison on " ++ operand.display))

end Member

def Emit.finishResult (result : Ty) (want : Bool) : Emit Unit :=
  Emit.code (if want then (if result.isVoid then [.aconstNull] else []) else result.popCode)

/-- Turn a jump taken when something is false into the value of that thing. -/
def Emit.materialize (jumpIfFalse : Label → Emit Unit) : Emit Unit := do
  let falsy ← label
  let done ← label
  jumpIfFalse falsy
  instruction (.iconst 1)
  goto done
  place falsy
  instruction (.iconst 0)
  place done

namespace Context

variable (ctx : Context) (recur : Recursion)

/-- Emit the receiver of a call. Class receivers push nothing. -/
def emitReceiver (site : CallSite) (want : Bool) : Emit Unit :=
  match site.target with
  | some node => do
    let t ← ctx.nodeType node
    recur.emit node (want && !t.isMeta)
  | none => if want then Emit.pushSelf else pure ()

def emitArgs (args : List Node) (params : List Ty) : Emit Unit :=
  (args.zip params).forM fun (arg, param) => ctx.emitAs recur arg param

/-! ## Branching members -/

def compareAndJump (site : CallSite) (cond : Cond) (operand : Ty) (test : Cond)
    (target : Label) : Emit Unit := do
  let left ← Emit.ofExcept site.receiver
  let right ← Emit.ofExcept site.operand
  ctx.emitAs recur left operand
  ctx.emitAs recur right operand
  Emit.codeOf (Member.compareCode cond operand test target)

def jumpOnMember (m : Member) (site : CallSite) (target : Label) (when : Bool) : Emit Unit :=
  match m with
  | .compare cond _ _ operand =>
    ctx.compareAndJump recur site cond operand (if when then cond else cond.negate) target
  | .not => do recur.branch (← Emit.ofExcept site.receiver) target (!when)
  | .instanceOf _ tested => do
    ctx.emitReceiver recur site true
    Emit.instruction (.instanceOf tested.unmeta.internalName)
    Emit.instruction (.ifZero (if when then .ne else .eq) target)
  | .array .empty .. => do
    ctx.emitReceiver recur site true
    Emit.instruction .arrayLength
    Emit.instruction (.ifZero (if when then .eq else .ne) target)
  | _ => throw (.unsupported "branch on a non-branching member")

/-! ## Arrays -/

def emitIndex (site : CallSite) (params : List Ty) : Emit Unit :=
  match site.args, params with
  | index :: _, param :: _ => ctx.emitAs recur index param
  | _, _ => throw (.internal "array index missing")

/-- Emit a loop that appends the elements of an array to a builder, with the
separator between them. -/
def emitJoin (site : CallSite) (component : Ty) : Emit Unit := do
  ctx.emitReceiver recur site true
  let array ← Emit.temporary (.array component)
  Emit.instruction (.store .ref array)
  let separator ← match site.args with
    | [] => pure none
    | given :: _ => do
      ctx.emitAs recur given .text
      let slot ← Emit.temporary .text
      Emit.instruction (.store .ref slot)
      pure (some slot)
  let builder ← Emit.temporary (.object "java.lang.StringBuilder")
  let index ← Emit.temporary .int
  Emit.code (textBuilderCode ++ [.store .ref builder, .iconst 0, .store .int index])
  let top ← Emit.label
  let done ← Emit.label
  Emit.place top
  Emit.code [.load .int index, .load .ref array, .arrayLength, .ifInt .ge done]
  if let some slot := separator then
    let skip ← Emit.label
    Emit.code [.load .int index, .ifZero .eq skip, .load .ref builder, .load .ref slot,
      appendTextCode, .pop]
    Emit.place skip
  Emit.code ([.load .ref builder, .load .ref array, .load .int index] ++
    component.arrayLoadCode ++ component.boxCode ++
    [appendAnyCode, .pop, .iinc index 1])
  Emit.goto top
  Emit.place done
  Emit.code [.load .ref builder, builtTextCode]

def callArray (op : ArrayOp) (component : Ty) (params : List Ty) (result : Ty)
    (site : CallSite) (want : Bool) (jumpIfFalse : Label → Emit Unit) : Emit Unit := do
  let finish : Emit Unit := if want then pure () else Emit.code result.popCode
  match op with
  | .get =>
    ctx.emitReceiver recur site true
    ctx.emitIndex recur site params
    Emit.code component.arrayLoadCode
    finish
  | .first =>
    ctx.emitReceiver recur site true
    Emit.code (.iconst 0 :: component.arrayLoadCode)
    finish
  | .last =>
    ctx.emitReceiver recur site true
    Emit.code ([.dup, .arrayLength, .iconst 1, .arith .int .sub] ++ component.arrayLoadCode)
    finish
  | .set =>
    ctx.emitReceiver recur site true
    ctx.emitIndex recur site params
    match site.args with
    | _ :: value :: _ =>
      ctx.emitAs recur value component
      Emit.code ((if want then [component.dupUnderTwo] else []) ++ component.arrayStoreCode)
    | _ => throw (.internal "array store without a value")
  | .length =>
    ctx.emitReceiver recur site true
    Emit.instruction .arrayLength
    finish
  | .empty =>
    if want then Emit.materialize jumpIfFalse else ctx.emitReceiver recur site false
  | .join =>
    ctx.emitJoin recur site component
    finish

/-! ## Calls -/

def callArith (site : CallSite) (operand : Ty) (want : Bool)
    (apply : Kind → Emit Unit) : Emit Unit := do
  let left ← Emit.ofExcept site.receiver
  let kind ← Emit.orFault operand.stackKind? (.internal ("math on " ++ operand.display))
  ctx.emitAs recur left operand
  apply kind
  if !want then Emit.code operand.popCode

def callMethod (kind : CallableKind) (m : Member) (site : CallSite) (want : Bool) :
    Emit Unit := do
  let owner := m.declaringType
  match kind with
  | .constructor =>
    ctx.emitReceiver recur site false
    Emit.code [.new owner.internalName, .dup]
    ctx.emitArgs recur site.args m.params
    Emit.instruction (.invoke .special m.reference)
    if !want then Emit.instruction .pop
  | .static =>
    ctx.emitReceiver recur site false
    ctx.emitArgs recur site.args m.params
    Emit.instruction (.invoke .static m.reference)
    Emit.finishResult m.result want
  | .initializer => throw (.unsupported "explicit static initializer call")
  | .onInstance =>
    ctx.emitReceiver recur site true
    ctx.emitArgs recur site.args m.params
    let invocation := if ctx.registry.isInterface owner then .interface else .virtual
    Emit.instruction (.invoke invocation m.reference)
    Emit.finishResult m.result want

/-- Emit the call of a member, leaving its result on the stack if it is
wanted. -/
def callMember (m : Member) (site : CallSite) (want : Bool) : Emit Unit :=
  match m with
  | .arith op _ _ operand =>
    ctx.callArith recur site operand want fun kind => do
      let right ← Emit.ofExcept site.operand
      ctx.emitAs recur right (if op.isShift then .int else operand)
      Emit.instruction (.arith kind op)
  | .negate _ operand =>
    ctx.callArith recur site operand want fun kind => Emit.instruction (.neg kind)
  | .compare .. => do
    if want then Emit.materialize fun falsy => ctx.jumpOnMember recur m site falsy false
    else
      recur.emit (← Emit.ofExcept site.receiver) false
      recur.emit (← Emit.ofExcept site.operand) false
  | .not => do
    recur.emit (← Emit.ofExcept site.receiver) want
    if want then Emit.code [.iconst 1, .arith .int .xor]
  | .instanceOf _ tested => do
    ctx.emitReceiver recur site true
    Emit.instruction (.instanceOf tested.unmeta.internalName)
    if !want then Emit.instruction .pop
  | .classLiteral receiver => if want then Emit.code receiver.classLiteralCode else pure ()
  | .array op _ component params result =>
    ctx.callArray recur op component params result site want fun falsy =>
      ctx.jumpOnMember recur m site falsy false
  | .callable kind .. => ctx.callMethod recur kind m site want
  | .getter false _ _ type => do
    ctx.emitReceiver recur site true
    Emit.instruction (.getField m.reference)
    Emit.finishResult type want
  | .getter true .. => do
    ctx.emitReceiver recur site false
    Emit.push want (.getStatic m.reference)
  | .setter false _ _ type => do
    ctx.emitReceiver recur site true
    ctx.emitArgs recur site.args m.params
    Emit.code ((if want then [type.dupUnderOne] else []) ++ [.putField m.reference])
  | .setter true _ _ type => do
    ctx.emitReceiver recur site false
    ctx.emitArgs recur site.args m.params
    Emit.code ((if want then type.dupCode else []) ++ [.putStatic m.reference])

def callSuperMember (m : Member) (site : CallSite) (want : Bool) : Emit Unit :=
  match m with
  | .callable .onInstance .. => do
    Emit.pushSelf
    ctx.emitArgs recur site.args m.params
    Emit.instruction (.invoke .special m.reference)
    Emit.finishResult m.result want
  | .callable kind .. => ctx.callMethod recur kind m site want
  | _ => throw (.unsupported "super call to a non-method member")

/-! ## Resolution -/

def lookup (receiver : Ty) (name : String) (args : List Node) : Except Fault Member := do
  let types ← args.mapM ctx.typeOf
  match ctx.registry.resolve? ctx.members receiver name types with
  | some m => return m
  | none => throw (.missingMethod receiver.display name (types.map Ty.display))

/-- Emit a call on an explicit receiver or on `self`: find the member and hand
it and the call to `use`. -/
def withMember (node : Node) (target : Option Node) (name : String) (args : List Node)
    (use : Member → CallSite → Emit Unit) : Emit Unit := do
  let receiver ← match target with
    | some receiver => ctx.nodeType receiver
    | none => Emit.selfType
  use (← Emit.ofExcept (ctx.lookup receiver name args)) { target, args, node }

def emitSuperCall (node : Node) (name : String) (args : List Node) (want : Bool) :
    Emit Unit := do
  let classType := (← get).classType
  let superclass ← Emit.ofExcept (ctx.registry.superclass classType)
  let superclass ← Emit.orFault superclass
    (.internal (classType.display ++ " has no superclass"))
  let m ← Emit.ofExcept (ctx.lookup superclass name args)
  ctx.callSuperMember recur m { target := none, args, node } want

end Context

end ClassBackend
