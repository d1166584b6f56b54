import ClassBackend.Machine.Call
import ClassBackend.Machine.Stack

/-!
# One instruction

An activation is the operand stack and the locals of a method being run. An
instruction changes the activation and the machine, and says where control goes
next. An instruction that is cut short leaves the locals as they were.
-/

namespace ClassBackend.Machine

structure Activation where
  /-- The method, as messages name it. -/
  method : String
  stack : Stack := []
  locals : Array Value := #[]

inductive Transfer where
  | next
  | jump (target : Label)
  | leave (result : Option Value)

namespace Activation

/-- Write a local; the locals grow as needed. -/
def store (a : Activation) (slot : Nat) (value : Value) : Activation :=
  let missing := slot + value.words - a.locals.size
  { a with locals := (a.locals ++ Array.replicate missing Value.null).setIfInBounds slot value }

def storeArgs (a : Activation) : (slot : Nat) → List Value → Activation
  | _, [] => a
  | slot, value :: rest => (a.store slot value).storeArgs (slot + value.words) rest

def enter (c : ClassFile) (method : MethodInfo) (args : List Value) : Activation :=
  let start : Activation := {
    method := c.name ++ "." ++ method.name ++ method.descriptor
    locals := Array.replicate method.maxLocals.toNat Value.null }
  start.storeArgs 0 args

/-- Change the stack as a whole. One that holds too little stays as it is. -/
def reshape (change : Stack → Option Stack) : EStateM Error Activation Unit := do
  let a ← get
  match change a.stack with
  | some stack => set { a with stack }
  | none => throw (.stackUnderflow a.method)

end Activation

abbrev Act := StateT Activation Run

namespace Act

def attempt {α : Type} (result : Except Error α) : Act α := liftM (Run.ofExcept result)

def fail {α : Type} (error : Error) : Act α := liftM (Run.fail error : Run α)

def underflow {α : Type} : Act α := do fail (.stackUnderflow (← get).method)

def push (value : Value) : Act Unit := modify fun a => { a with stack := value :: a.stack }

def pop : Act Value := do
  let a ← get
  match a.stack with
  | value :: rest =>
    set { a with stack := rest }
    return value
  | [] => underflow

def popInt : Act Int32 := do attempt (← pop).asInt

def popLong : Act Int64 := do attempt (← pop).asLong

def popFloat : Act Single := do attempt (← pop).asFloat

def popDouble : Act Double := do attempt (← pop).asDouble

def popRef : Act (Option Address) := do attempt (← pop).asRef

def popObject : Act Address := do liftM (Run.nonNull (← popRef))

def reshape (change : Stack → Option Stack) : Act Unit := do
  match (Activation.reshape change).run (← get) with
  | .ok _ changed => set changed
  | .error error _ => fail error

def popArgs (count : Nat) : Act (List Value) := do
  let a ← get
  match a.stack.takeEntries count with
  | some (args, stack) =>
    set { a with stack }
    return args
  | none => underflow

def readLocal (slot : UInt16) : Act Value := do
  let a ← get
  match a.locals[slot.toNat]? with
  | some value => return value
  | none =>
    fail (.typeMismatch
      ("local " ++ toString slot.toNat ++ " out of range in " ++ a.method))

def writeLocal (slot : UInt16) (value : Value) : Act Unit := modify (·.store slot.toNat value)

def jumpIf (test : Bool) (target : Label) : Act Transfer :=
  return if test then .jump target else .next

end Act

open Act

/-! ## Arrays -/

def notAnArray {α : Type} (object : Object) : Run α :=
  .fail (.typeMismatch ("expected array, found " ++ object.className))

def arrayItems (address : Address) : Run (String × Array Value) := do
  match ← Run.object address with
  | .array component items => return (component, items)
  | other => notAnArray other

def raiseIndex {α : Type} (items : Array Value) (index : Int32) : Run α :=
  .raise "java/lang/ArrayIndexOutOfBoundsException"
    (some ("Index " ++ toString index.toInt ++ " out of bounds for length " ++
      toString items.size))

def newArray (component : String) : Act Unit := do
  let length ← popInt
  if length < 0 then
    liftM (Run.raise "java/lang/NegativeArraySizeException"
      (some (toString length.toInt)) : Run Unit)
  else
    let items := Array.replicate length.toNatClampNeg (Value.default component)
    push (← liftM (Run.allocate (.array component items)))

def loadElement : Act Unit := do
  let index ← popInt
  let address ← popObject
  let (_, items) ← liftM (arrayItems address)
  match itemAt? items index with
  | some value => push value
  | none => liftM (raiseIndex items index : Run Unit)

def storeElement (kind : ArrayKind) : Act Unit := do
  let value := narrow kind (← pop)
  let index ← popInt
  let address ← popObject
  let (component, items) ← liftM (arrayItems address)
  match itemAt? items index with
  | some _ =>
    let items := items.setIfInBounds index.toNatClampNeg value
    liftM (Run.setObject address (.array component items))
  | none => liftM (raiseIndex items index : Run Unit)

/-! ## Operators -/

def raiseDivision {α : Type} : Run α :=
  .raise "java/lang/ArithmeticException" (some "/ by zero")

def arith (kind : Kind) (op : ArithOp) : Act Unit := do
  match kind with
  | .int =>
    let b ← popInt
    let a ← popInt
    match intOp op a b with
    | some n => push (.int n)
    | none => liftM (raiseDivision : Run Unit)
  | .long =>
    if op.isShift then
      let count ← popInt
      let a ← popLong
      push (.long (longShift op a count))
    else
      let b ← popLong
      let a ← popLong
      match longOp op a b with
      | some n => push (.long n)
      | none => liftM (raiseDivision : Run Unit)
  | .float =>
    let b ← popFloat
    let a ← popFloat
    match floatOp op a b with
    | some x => push (.float x)
    | none => fail (badOperator kind op)
  | .double =>
    let b ← popDouble
    let a ← popDouble
    match doubleOp op a b with
    | some x => push (.double x)
    | none => fail (badOperator kind op)
  | .ref => fail (badOperator kind op)

/-! ## Objects and calls -/

def checkCast (target : String) : Act Unit := do
  let value ← pop
  match ← attempt value.asRef with
  | none => push value
  | some address =>
    let m ← getThe Machine
    if m.instanceOf address target then push value
    else
      let object ← liftM (Run.object address)
      liftM (Run.raise "java/lang/ClassCastException"
        (some ("class " ++ Naming.toDotted object.className ++ " cannot be cast to class " ++
          Naming.toDotted target)) : Run Unit)

def invoke (call : MethodCall) (depth : Nat) (kind : InvokeKind) (method : MemberRef) :
    Act Unit := do
  let params ← attempt (paramDescriptors method.descriptor)
  let args ← popArgs params.length
  let result ← match kind with
    | .static => liftM (callStatic call method args)
    | _ => do
      let receiver ← pop
      liftM (callInstance call depth kind method receiver args)
  if (← attempt (resultDescriptor method.descriptor)) != "V" then
    match result with
    | some value => push value
    | none =>
      fail (.typeMismatch
        (method.owner ++ "." ++ method.name ++ method.descriptor ++ " returned nothing"))

/-- Run an instruction that neither jumps nor returns. -/
def perform (call : MethodCall) (depth : Nat) (instruction : Instruction) : Act Unit := do
  match instruction with
  | .aconstNull => push .null
  | .iconst n => push (.int n)
  | .lconst n => push (.long n)
  | .fconst x => push (.float x)
  | .dconst x => push (.double x)
  | .ldc (.text text) => push (← liftM (Run.text text))
  | .ldc (.classObject name) => push (← liftM (Run.allocate (.classObject name)))
  | .load _ slot => push (← readLocal slot)
  | .store _ slot => writeLocal slot (← pop)
  | .iinc slot delta =>
    let n ← attempt (← readLocal slot).asInt
    writeLocal slot (.int (n + delta.toInt32))
  | .newArray component => newArray (String.singleton component.descriptor)
  | .anewArray name => newArray (if name.startsWith "[" then name else "L" ++ name ++ ";")
  | .arrayLoad _ => loadElement
  | .arrayStore kind => storeElement kind
  | .arrayLength =>
    let (_, items) ← liftM (arrayItems (← popObject))
    push (.int (Int32.ofNat items.size))
  | .pop => discard pop
  | .pop2 => reshape (·.dropWords 2)
  | .dup => reshape (·.dupWords 1 0)
  | .dupX1 => reshape (·.dupWords 1 1)
  | .dupX2 => reshape (·.dupWords 1 2)
  | .dup2 => reshape (·.dupWords 2 0)
  | .dup2X1 => reshape (·.dupWords 2 1)
  | .dup2X2 => reshape (·.dupWords 2 2)
  | .swap =>
    let top ← pop
    let under ← pop
    push top
    push under
  | .arith kind op => arith kind op
  | .neg _ => push (← attempt (negate (← pop)))
  | .convert _ target => push (← attempt (convert (← pop) target))
  | .lcmp =>
    let b ← popLong
    let a ← popLong
    push (.int (signOf (compareLong a b)))
  | .fcmpl => compareFloats (-1)
  | .fcmpg => compareFloats 1
  | .dcmpl => compareDoubles (-1)
  | .dcmpg => compareDoubles 1
  | .new name => push (← liftM (instantiate call name))
  | .checkcast target => checkCast target
  | .instanceOf target =>
    let reference ← popRef
    let m ← getThe Machine
    push (.ofBool (reference.any (m.instanceOf · target)))
  | .getField field =>
    let object ← liftM (Run.object (← popObject))
    push ((object.field? field.name).getD (.default field.descriptor))
  | .putField field =>
    let value ← pop
    let address ← popObject
    let object ← liftM (Run.object address)
    liftM (Run.setObject address (← Run.ofExcept (object.setField field.name value)))
  | .getStatic field => push (← liftM (readStatic call field))
  | .putStatic field => liftM (writeStatic call field (← pop))
  | .invoke kind method => invoke call depth kind method
  | .athrow =>
    let exception ← popObject
    throw (.thrown exception)
  | .ifZero .. | .ifInt .. | .ifRef .. | .ifNull _ | .ifNonNull _ | .goto _ | .ret _ => pure ()
where
  compareFloats (unordered : Int32) : Act Unit := do
    let b ← popFloat
    let a ← popFloat
    push (.int (compareFloat unordered a b))
  compareDoubles (unordered : Int32) : Act Unit := do
    let b ← popDouble
    let a ← popDouble
    push (.int (compareDouble unordered a b))

/-- Run one instruction. Library methods call back at most `depth` deep. -/
def step (call : MethodCall) (depth : Nat) (instruction : Instruction) : Act Transfer := do
  match instruction with
  | .ifZero cond target => jumpIf (cond.test (compareInt (← popInt) 0)) target
  | .ifInt cond target =>
    let b ← popInt
    let a ← popInt
    jumpIf (cond.test (compareInt a b)) target
  | .ifRef cond target =>
    let b ← pop
    let a ← pop
    jumpIf (cond.test (if a.identical b then .eq else .lt)) target
  | .ifNull target => jumpIf (← pop).isNull target
  | .ifNonNull target => jumpIf (!(← pop).isNull) target
  | .goto target => return .jump target
  | .ret none => return .leave none
  | .ret (some _) => return .leave (some (← pop))
  | _ =>
    perform call depth instruction
    return .next

end ClassBackend.Machine
