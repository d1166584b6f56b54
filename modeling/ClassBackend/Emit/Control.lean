import ClassBackend.Emit.Storage

/-!
# Control flow

Branches, loops, jumps, and protected regions.

A jump out of an ensure block runs the clauses it passes, innermost first, as
copies inlined before the jump. While a clause is inlined only the jump scopes
around its own block are open, so that jumps inside it cannot reach it again.
From the start of its copy up to the jump, a block's own handler does not
protect the code: these are the *gaps* of the block.
-/

namespace ClassBackend

inductive LoopJump where
  | «break»
  | next
  | redo
  deriving DecidableEq, Repr

namespace LoopJump

def describe : LoopJump → String
  | .break => "break"
  | .next => "next"
  | .redo => "redo"

def label (labels : LoopLabels) : LoopJump → Label
  | .break => labels.breakLabel
  | .next => labels.nextLabel
  | .redo => labels.redoLabel

end LoopJump

/-- What lies between two labels outside the gaps, piece by piece. -/
def ungapped (start stop : Label) : List (Label × Label) → List (Label × Label)
  | [] => [(start, stop)]
  | (gapStart, gapStop) :: gaps => (start, gapStart) :: ungapped gapStop stop gaps

/-- The pieces outside the gaps that hold an instruction. -/
def Assembler.protectedRanges (a : Assembler) (start stop : Label)
    (gaps : List (Label × Label)) : List (Label × Label) :=
  (ungapped start stop gaps).filter fun (first, last) =>
    match a.position? first, a.position? last with
    | some i, some j => decide (i < j)
    | _, _ => false

/-- The labels of a rescue block, and whether its body has no instructions. -/
structure RescueRegion where
  start : Label
  stop : Label
  done : Label
  empty : Bool

namespace Context

variable (ctx : Context) (recur : Recursion)

/-! ## Branches -/

/-- Emit one arm of a construct: its value at the type of the construct, its
effects only, or the default value of a missing arm. -/
def emitArm (arm : Option Node) (value : Bool) (t : Ty) : Emit Unit :=
  match arm with
  | some node => if value then ctx.emitAs recur node t else recur.emit node false
  | none => if value then Emit.code t.initCode else pure ()

def fillValue (want value : Bool) : Emit Unit := Emit.push (want && !value) .aconstNull

def emitIf (node condition : Node) (body elseBody : Option Node) (want : Bool) :
    Emit Unit := do
  let t ← ctx.nodeType node
  let value := want && !t.isVoid
  let otherwise ← Emit.label
  let done ← Emit.label
  if body.isSome || value then
    recur.branch condition otherwise false
    ctx.emitArm recur body value t
    Emit.gotoIfReachable done
    Emit.place otherwise
    ctx.emitArm recur elseBody value t
  else
    recur.branch condition done true
    ctx.emitArm recur elseBody false t
  Emit.place done
  fillValue want value

/-! ## Loops -/

def emitLoopParts (parts : LoopParts) (labels : LoopLabels) : Emit Unit := do
  parts.init.forM fun node => recur.emit node false
  let testAfter := parts.skipFirstCheck || !parts.post.isEmpty
  if !parts.skipFirstCheck then
    if parts.post.isEmpty then Emit.place labels.nextLabel
    recur.branch parts.condition labels.breakLabel parts.negative
  let again ← Emit.label
  Emit.place again
  parts.pre.forM fun node => recur.emit node false
  Emit.place labels.redoLabel
  parts.body.forM fun node => recur.emit node false
  if testAfter then
    Emit.place labels.nextLabel
    parts.post.forM fun node => recur.emit node false
    recur.branch parts.condition again (!parts.negative)
  else Emit.goto labels.nextLabel
  Emit.place labels.breakLabel

/-- Emit a loop. Its value is null. -/
def emitLoop (parts : LoopParts) (want : Bool) : Emit Unit := do
  let labels : LoopLabels :=
    { breakLabel := ← Emit.label, nextLabel := ← Emit.label, redoLabel := ← Emit.label }
  let _ ← Emit.openScope (.loop labels) (emitLoopParts recur parts labels)
  Emit.push want .aconstNull

/-! ## Jumps -/

/-- A jump without a target is an error in the source if its position is known,
and a fault otherwise. -/
def missingTarget (node : Node) (jump : String) (target : JumpTarget) : Emit Unit :=
  match node.span with
  | some span =>
    Emit.sharing fun unit =>
      ((), unit.report (jump ++ " outside of " ++ target.describe) span)
  | none => throw (.noJumpTarget jump target.describe)

/-- Inline the clauses a jump passes. Returns where each copy starts. -/
def runEnsures : List (Nat × Node) → Emit (List Label)
  | [] => pure []
  | (depth, clause) :: rest => do
    let start ← Emit.label
    Emit.place start
    Emit.detached depth (recur.emit clause false)
    let starts ← runEnsures rest
    return start :: starts

/-- Record the gaps a jump leaves: for each clause, from the start of its copy
up to here. -/
def closeGaps (ensures : List (Nat × Node)) (starts : List Label) : Emit Unit := do
  if !starts.isEmpty then
    let stop ← Emit.label
    Emit.place stop
    (ensures.zip starts).forM fun ((depth, _), start) =>
      modify fun state => { state with jumps := state.jumps.recordGap depth (start, stop) }

def emitLoopJump (node : Node) (jump : LoopJump) : Emit Unit := do
  let jumps := (← get).jumps
  match jumps.findEnsures? .loop with
  | none => missingTarget node jump.describe .loop
  | some pending =>
    let labels ← Emit.orFault (jumps.loopLabels? pending.targetDepth)
      (.internal "loop scope without labels")
    let starts ← runEnsures recur pending.ensures
    Emit.goto (jump.label labels)
    closeGaps pending.ensures starts

/-- Emit a return. Its value is parked while ensure clauses run. -/
def emitReturn (node : Node) (value : Option Node) : Emit Unit := do
  match (← get).jumps.findEnsures? .method with
  | none => missingTarget node "return" .method
  | some pending =>
    let t := (← Emit.frame).returnType
    match value with
    | some node => if t.isVoid then recur.emit node false else ctx.emitAs recur node t
    | none => Emit.code t.initCode
    if pending.ensures.isEmpty then Emit.code t.returnCode
    else
      let parked ← if t.isVoid then pure none else do
        let slot ← Emit.temporary t
        Emit.codeOf (t.storeCode slot)
        pure (some slot)
      let starts ← runEnsures recur pending.ensures
      if let some slot := parked then Emit.codeOf (t.loadCode slot)
      Emit.code t.returnCode
      closeGaps pending.ensures starts

/-! ## Exceptions -/

def emitRaise (value : Node) : Emit Unit := do
  let t ← ctx.nodeType value
  if t.same .text then
    Emit.code [.new "java/lang/RuntimeException", .dup]
    recur.emit value true
    Emit.instruction
      (.call .special "java/lang/RuntimeException" "<init>" "(Ljava/lang/String;)V")
  else if t.isMeta then
    let className := t.unmeta.internalName
    recur.emit value false
    Emit.code [.new className, .dup, .call .special className "<init>" "()V"]
  else recur.emit value true
  Emit.instruction .athrow

/-- Emit the handler of a rescue clause, protecting the code between two
labels. The exception is stored by `bind`. -/
def emitClause (bind : RescueClause → Emit Unit) (start stop done : Label) (value : Bool) (t : Ty)
    (clause : RescueClause) : Emit Unit := do
  let handler ← Emit.label
  Emit.place handler
  let caught := if clause.types.isEmpty then ["java.lang.Exception"] else clause.types
  caught.forM fun name => do
    let className := (← Emit.ofExcept (ctx.registry.get name)).internalName
    Emit.assemble (·.protect { start, stop, handler, catchType := some className })
  bind clause
  ctx.emitArm recur (some clause.body) value t
  Emit.gotoIfReachable done

/-- Emit the body of a rescue block between its labels. -/
def emitRegion (body : Node) (value : Bool) (t : Ty) : Emit RescueRegion := do
  let start ← Emit.label
  let stop ← Emit.label
  let done ← Emit.label
  Emit.place start
  ctx.emitArm recur (some body) value t
  Emit.place stop
  let empty ← Emit.assembling fun a => (a.position? start == some a.offset, a)
  return { start, stop, done, empty }

/-- Emit a body with its rescue clauses. A body without instructions needs no
handlers. -/
def emitRescue (bind : RescueClause → Emit Unit) (node body : Node) (clauses : List RescueClause)
    (elseClause : Option Node) (want : Bool) : Emit Unit := do
  let t ← ctx.nodeType node
  let value := want && !t.isVoid
  let region ← ctx.emitRegion recur body (value && elseClause.isNone) t
  if elseClause.isSome then ctx.emitArm recur elseClause value t
  Emit.gotoIfReachable region.done
  if region.empty then ctx.note .debug "empty rescue region, no handlers"
  else clauses.forM (ctx.emitClause recur bind region.start region.stop region.done value t)
  Emit.place region.done
  fillValue want value

/-- Emit the handler of an ensure block: run the clause and rethrow. -/
def emitEnsureHandler (clause : Node) (ranges : List (Label × Label)) : Emit Unit := do
  let done ← Emit.label
  Emit.gotoIfReachable done
  let handler ← Emit.label
  Emit.place handler
  ranges.forM fun (start, stop) =>
    Emit.assemble (·.protect { start, stop, handler, catchType := none })
  let slot ← Emit.temporary (.object "java.lang.Throwable")
  Emit.instruction (.store .ref slot)
  recur.emit clause false
  Emit.code [.load .ref slot, .athrow]
  Emit.place done

/-- End the body of an ensure block. Returns the ranges to protect, and whether
control gets to the end. -/
def emitEnd (start : Label) (gaps : List (Label × Label)) :
    Emit (List (Label × Label) × Bool) := do
  let stop ← Emit.label
  Emit.place stop
  let ranges ← Emit.assembling fun a => (a.protectedRanges start stop gaps, a)
  return (ranges, ← Emit.reachable)

/-- Emit a body with its ensure clause: once behind the body, and once in a
handler for what the gaps leave of it. -/
def emitEnsure (node body clause : Node) (want : Bool) : Emit Unit := do
  let t ← ctx.nodeType node
  let value := want && !t.isVoid
  let start ← Emit.label
  Emit.place start
  let scope ← Emit.openScope (.ensure clause []) (ctx.emitArm recur (some body) value t)
  let gaps ← match scope with
    | some (.ensure _ gaps) => pure gaps
    | _ => throw (.internal "jump scopes out of order")
  let ended ← emitEnd start gaps
  if ended.2 then recur.emit clause false
  if ended.1.isEmpty then ctx.note .debug "empty ensure region, no handler"
  else emitEnsureHandler recur clause ended.1
  fillValue want value

end Context

end ClassBackend
