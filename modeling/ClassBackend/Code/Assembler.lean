import ClassBackend.Code.ClassFile
import ClassBackend.Fault

/-!
# Assembling a method

An `Assembler` is a method body under construction: an append-only list of
instructions, labels that may be used before they are placed, local slots, and
protected regions. `Assembler.finish` resolves the labels and refuses a body
whose jumps go nowhere or whose protected regions are empty.
-/

namespace ClassBackend

structure Region where
  start : Label
  stop : Label
  handler : Label
  catchType : Option String
  deriving DecidableEq, Repr

structure Assembler where
  name : String
  descriptor : String
  access : Access
  code : Array Instruction := #[]
  labels : Array (Option Nat) := #[]
  locals : List LocalVar := []
  nextSlot : UInt16
  maxLocals : UInt16
  regions : List Region := []
  lines : List (Nat × Nat) := []
  exceptions : List String := []
  annotations : List Annotation := []
  nodes : List (Node × Nat) := []

namespace Assembler

/-- An empty body. An instance method keeps slot 0 for its receiver. -/
def start (name descriptor : String) (access : Access) : Assembler :=
  let first : UInt16 := if Access.has access Access.staticFlag then 0 else 1
  { name, descriptor, access, nextSlot := first, maxLocals := first }

def isStatic (a : Assembler) : Bool := Access.has a.access Access.staticFlag

/-! ## Instructions and labels -/

def emit (a : Assembler) (instruction : Instruction) : Assembler :=
  { a with code := a.code.push instruction }

def emitAll (a : Assembler) (instructions : List Instruction) : Assembler :=
  instructions.foldl emit a

def offset (a : Assembler) : Nat := a.code.size

/-- Control can reach the next instruction: the last one falls through, or a
label has been placed here. -/
def reachable (a : Assembler) : Bool :=
  a.code.back?.all (fun last => !last.isTerminal) || a.labels.any (· == some a.code.size)

def label (a : Assembler) : Label × Assembler :=
  (⟨a.labels.size⟩, { a with labels := a.labels.push none })

def position? (a : Assembler) (label : Label) : Option Nat := (a.labels[label.id]?).join

/-- Place a label here. A label that was never created is ignored. -/
def place (a : Assembler) (label : Label) : Assembler :=
  { a with labels := a.labels.setIfInBounds label.id (some a.code.size) }

def goto (a : Assembler) (label : Label) : Assembler := a.emit (.goto label)

/-- Record the source line of the instructions that follow. A line is recorded
when it changes, and a line without instructions gives way to the next. -/
def line (a : Assembler) (line : Nat) : Assembler :=
  match a.lines.getLast? with
  | some (index, last) =>
    if last == line then a
    else if index == a.code.size then
      { a with lines := a.lines.dropLast ++ [(index, line)] }
    else { a with lines := a.lines ++ [(a.code.size, line)] }
  | none => { a with lines := [(a.code.size, line)] }

/-- Record a node whose code follows. -/
def visit (a : Assembler) (node : Node) : Assembler :=
  { a with nodes := (node, a.offset) :: a.nodes }

/-! ## Locals -/

/-- Take the next slot, or the next two for a wide type. -/
def allocate (a : Assembler) (t : Ty) : UInt16 × Assembler :=
  let next := a.nextSlot + (if t.isWide then 2 else 1)
  (a.nextSlot, { a with nextSlot := next, maxLocals := max a.maxLocals next })

def slotOf? (a : Assembler) (name : String) : Option UInt16 :=
  (a.locals.find? (·.name == name)).map (·.slot)

/-- The slot of a named local, allocated on first use. -/
def namedLocal (a : Assembler) (name : String) (t : Ty) : UInt16 × Assembler :=
  match a.slotOf? name with
  | some slot => (slot, a)
  | none =>
    let (slot, allocated) := a.allocate t
    let entry : LocalVar := { name, descriptor := t.descriptor, slot }
    (slot, { allocated with locals := allocated.locals ++ [entry] })

/-! ## Regions and metadata -/

def protect (a : Assembler) (region : Region) : Assembler :=
  { a with regions := a.regions ++ [region] }

def throwing (a : Assembler) (className : String) : Assembler :=
  { a with exceptions := a.exceptions ++ [className] }

def annotate (a : Assembler) (annotated : Annotation) : Assembler :=
  { a with annotations := a.annotations ++ [annotated] }

/-! ## Finishing -/

/-- The index a label stands for; it must have been placed. -/
def resolve (a : Assembler) (label : Label) : Except Fault Nat :=
  match a.position? label with
  | some index => .ok index
  | none => .error (.internal ("label " ++ label.name ++ " never set in " ++ a.name))

/-- The exception-table entry of a region; it must cover an instruction. -/
def resolveRegion (a : Assembler) (region : Region) : Except Fault ExceptionEntry := do
  let start ← a.resolve region.start
  let stop ← a.resolve region.stop
  if start == stop then throw (.internal ("empty protected region in " ++ a.name))
  let handler ← a.resolve region.handler
  return { start, stop, handler, catchType := region.catchType }

def checkJumps (a : Assembler) : Except Fault Unit :=
  a.code.toList.forM fun instruction =>
    match instruction.jumpTarget? with
    | some label => (a.resolve label).map fun _ => ()
    | none => .ok ()

/-- Finish the method. A label that was never placed, and to which nothing
jumps, stands for the end of the body. -/
def finish (a : Assembler) : Except Fault MethodInfo := do
  a.checkJumps
  let exceptionTable ← a.regions.mapM a.resolveRegion
  return {
    name := a.name
    descriptor := a.descriptor
    access := a.access
    code := a.code
    labels := a.labels.map fun position => position.getD a.code.size
    exceptionTable
    lines := a.lines
    locals := a.locals
    maxLocals := a.maxLocals
    exceptions := a.exceptions
    annotations := a.annotations
    nodes := a.nodes }

end Assembler

end ClassBackend
