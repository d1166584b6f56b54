import ClassBackend.Emit.Call

/-!
# Literals, texts and lists
-/

namespace ClassBackend

def fixnumCode (value : Int64) (t : Ty) : Instruction :=
  match t.primitive? with
  | some .long => .lconst value
  | some .float => .fconst (.ofFloat32 value.toFloat32)
  | some .double => .dconst (.ofFloat value.toFloat)
  | _ => .iconst value.toInt32

def floatCode (value : Double) (t : Ty) : Instruction :=
  match t.primitive? with
  | some .float => .fconst value.toSingle
  | _ => .dconst value

def patternCode (pattern : String) : List Instruction :=
  [.ldc (.text pattern),
    .call .static "java/util/regex/Pattern" "compile"
      "(Ljava/lang/String;)Ljava/util/regex/Pattern;"]

def outputStream : MemberRef :=
  { owner := "java/lang/System", name := "out", descriptor := "Ljava/io/PrintStream;" }

def Ty.printedAs (t : Ty) : Ty :=
  match t.primitive? with
  | some .byte | some .short => .int
  | some p => .prim p
  | none => if t.same .text then .text else .rootClass

namespace Context

variable (ctx : Context) (recur : Recursion)

/-- Emit statements; the last one supplies the value. -/
def emitBody (want : Bool) : List Node → Emit Unit
  | [] => Emit.push want .aconstNull
  | [last] => recur.emit last want
  | statement :: rest => do
    recur.emit statement false
    emitBody want rest

/-- Print values, the last one followed by a line break if `newline`. -/
def emitPrinted (newline : Bool) : List Node → Emit Unit
  | [] => pure ()
  | arg :: rest => do
    let param := (← ctx.nodeType arg).printedAs
    Emit.instruction (.getStatic outputStream)
    ctx.emitAs recur arg param
    let name := if newline && rest.isEmpty then "println" else "print"
    Emit.instruction
      (.call .virtual "java/io/PrintStream" name (methodDescriptor [param] .void))
    emitPrinted newline rest

def emitPrint (newline : Bool) (args : List Node) (want : Bool) : Emit Unit := do
  if args.isEmpty && newline then
    Emit.code [.getStatic outputStream, .call .virtual "java/io/PrintStream" "println" "()V"]
  ctx.emitPrinted recur newline args
  Emit.push want .aconstNull

def emitConcat (parts : List Node) (want : Bool) : Emit Unit := do
  if want then
    Emit.code textBuilderCode
    parts.forM fun part => do
      let t ← ctx.nodeType part
      recur.emit part true
      Emit.code (if t.same .text then [appendTextCode] else t.boxCode ++ [appendAnyCode])
    Emit.instruction builtTextCode
  else parts.forM fun part => recur.emit part false

/-- Emit the text of a value; null gives `null`. -/
def emitText (value : Node) (want : Bool) : Emit Unit := do
  if want then
    let t ← ctx.nodeType value
    recur.emit value true
    Emit.code t.boxCode
    let present ← Emit.label
    let done ← Emit.label
    Emit.code [.dup, .ifNonNull present, .pop, .ldc (.text "null")]
    Emit.goto done
    Emit.place present
    Emit.instruction (.call .virtual "java/lang/Object" "toString" "()Ljava/lang/String;")
    Emit.place done
  else recur.emit value false

/-- Emit a list literal: an unmodifiable list of boxed elements. -/
def emitList (elements : List Node) (want : Bool) : Emit Unit := do
  if want then
    Emit.code [.new "java/util/ArrayList", .dup, .iconst (Int32.ofNat elements.length),
      .call .special "java/util/ArrayList" "<init>" "(I)V"]
    elements.forM fun element => do
      let t ← ctx.nodeType element
      Emit.instruction .dup
      recur.emit element true
      Emit.code (t.boxCode ++
        [.call .interface "java/util/List" "add" "(Ljava/lang/Object;)Z", .pop])
    Emit.instruction (.call .static "java/util/Collections" "unmodifiableList"
      "(Ljava/util/List;)Ljava/util/List;")
  else
    elements.forM fun element => do
      let t ← ctx.nodeType element
      recur.emit element true
      Emit.code (t.boxCode ++ t.popCode)

def emitNewArray (node size : Node) (want : Bool) : Emit Unit := do
  let t ← ctx.nodeType node
  let component ← Emit.orFault t.component?
    (.internal (t.display ++ " is not an array type"))
  ctx.emitAs recur size .int
  Emit.code (component.newArrayCode ++ (if want then [] else [.pop]))

end Context

end ClassBackend
