import ClassBackend.Machine.Arith
import ClassBackend.Machine.Basic
import ClassBackend.Machine.Descriptor
import ClassBackend.Pattern.Valid

/-!
# Library methods

What the methods of library classes do. Some call back into the program: the
text of an instance comes from its `toString`, and lists compare their elements
by `equals`. Such calls go through `virtual`. Lists nest, so the text of a value
is bounded by a nesting depth.
-/

namespace ClassBackend.Machine

abbrev VirtualCall :=
  (receiver : Value) → (name descriptor : String) → List Value → Run (Option Value)

def noMethod {α : Type} (owner name descriptor : String) : Run α :=
  .fail (.noSuchMethod owner name descriptor)

/-! ## Texts -/

/-- The text of an object that no class gives one: the class and the identity
of the object. -/
def identityText (object : Object) (address : Address) : String :=
  Naming.toDotted object.className ++ "@" ++ Text.hexDigits address

def plainText (address : Address) : Run String := do
  let object ← Run.object address
  let className := Naming.toDotted object.className
  match object with
  | .classObject name =>
    return if (Primitive.ofName? name).isSome then name else "class " ++ Naming.toDotted name
  | .text value | .builder value => return value
  | .inst .. =>
    match object.field? messageField with
    | none => return identityText object address
    | some (.ref message) =>
      match ← Run.object message with
      | .text text => return className ++ ": " ++ text
      | _ => return className
    | some _ => return className
  | _ => return identityText object address

/-- The text of a value, with lists nested at most `depth` deep. -/
def valueText (virtual : VirtualCall) : (depth : Nat) → Value → Run String
  | depth, value =>
    match value with
    | .int n => return toString n.toInt
    | .long n => return toString n.toInt
    | .float x => return floatText x
    | .double x => return doubleText x
    | .null => return "null"
    | .ref address => do
      match ← Run.object address with
      | .text text | .builder text => return text
      | .boxed className value => return boxedText className value
      | .pattern source => return source
      | .list items _ =>
        match depth with
        | 0 => throw .exhausted
        | depth + 1 =>
          let parts ← items.toList.mapM (valueText virtual depth)
          return "[" ++ ", ".intercalate parts ++ "]"
      | .inst .. =>
        match ← virtual value "toString" "()Ljava/lang/String;" [] with
        | none => return "null"
        | some text => return (← Run.asText text).getD "null"
      | _ => plainText address

def paramText (virtual : VirtualCall) (depth : Nat) (param : String) (value : Value) :
    Run String :=
  match param, value with
  | "Z", .int n => return booleanText n
  | "C", .int n => return charText n
  | _, _ => valueText virtual depth value

/-! ## Equality and hashes -/

def elementEquals (virtual : VirtualCall) (x y : Value) : Run Bool :=
  match x with
  | .null => return y.isNull
  | .ref _ => do
    match ← virtual x "equals" "(Ljava/lang/Object;)Z" [y] with
    | some (.int n) => return n != 0
    | _ => return false
  | _ => return x.samePrimitive y

def elementsEqual (virtual : VirtualCall) : List (Value × Value) → Run Bool
  | [] => return true
  | (x, y) :: rest => do
    if ← elementEquals virtual x y then elementsEqual virtual rest else return false

/-- Equality of library objects: by value for texts, boxes and lists, by
identity otherwise. -/
def objectEquals (virtual : VirtualCall) (address : Address) (other : Value) : Run Bool := do
  match ← Run.ofExcept other.asRef with
  | none => return false
  | some other =>
    if address == other then return true
    match ← Run.object address, ← Run.object other with
    | .text x, .text y => return x == y
    | .boxed c x, .boxed d y => return c == d && x.samePrimitive y
    | .list xs _, .list ys _ =>
      if xs.size == ys.size then elementsEqual virtual (xs.toList.zip ys.toList)
      else return false
    | _, _ => return false

/-- The hash of an object: by value for texts and boxes, by identity
otherwise. -/
def hashOf (object : Object) (address : Address) : Int32 :=
  match object with
  | .text text => Text.unitHash text
  | .boxed "java/lang/Boolean" (.int n) => if n != 0 then 1231 else 1237
  | .boxed _ (.int n) => n
  | .boxed _ (.long n) => (n.toUInt64 ^^^ (n.toUInt64 >>> 32)).toUInt32.toInt32
  | .boxed _ (.float x) => x.bits.toInt32
  | .boxed _ (.double x) => (x.bits ^^^ (x.bits >>> 32)).toUInt32.toInt32
  | _ => Int32.ofNat address

/-! ## Static methods -/

def parseInt? (text : String) : Option Int32 := do
  let (negative, digits) := match text.toList with
    | '-' :: rest => (true, rest)
    | '+' :: rest => (false, rest)
    | rest => (false, rest)
  if digits.isEmpty || !digits.all Char.isDigit then none
  let magnitude : Nat := digits.foldl (fun n c => 10 * n + (c.toNat - '0'.toNat)) 0
  let n : Int := if negative then -(magnitude : Int) else magnitude
  if -2147483648 ≤ n && n ≤ 2147483647 then some (Int32.ofInt n) else none

def callParseInt (argument : Value) : Run Value := do
  let text ← Run.asText argument
  match text.bind parseInt? with
  | some n => return .int n
  | none =>
    Run.raise "java/lang/NumberFormatException"
      (some ("For input string: \"" ++ text.getD "null" ++ "\""))

/-- `Collections.unmodifiableList`: a copy that cannot be changed. -/
def callUnmodifiable (argument : Value) : Run Value := do
  let address ← Run.nonNull (← Run.ofExcept argument.asRef)
  match ← Run.object address with
  | .list items _ => Run.allocate (.list items false)
  | other => Run.fail (.typeMismatch ("expected List, found " ++ other.className))

def callCompile (argument : Value) : Run Value := do
  match ← Run.asText argument with
  | none => Run.raiseNull
  | some source =>
    if Pattern.isValid source then Run.allocate (.pattern source)
    else
      Run.raise "java/util/regex/PatternSyntaxException"
        (some ("regex parse error: " ++ source))

def callLibraryStatic (owner name descriptor : String) (args : List Value) :
    Run (Option Value) := do
  match args with
  | [argument] =>
    if owner == "java/lang/Integer" && name == "parseInt" then
      return some (← callParseInt argument)
    else if name == "valueOf" && (wrapped? owner).isSome then
      return some (← Run.allocate (.boxed owner argument))
    else if owner == "java/util/Collections" && name == "unmodifiableList" then
      return some (← callUnmodifiable argument)
    else if owner == "java/util/regex/Pattern" && name == "compile" then
      return some (← callCompile argument)
    else noMethod owner name descriptor
  | _ => noMethod owner name descriptor

/-! ## Instance methods

A method answers `none` if the class of the object does not have it. -/

def construct (address : Address) (owner descriptor : String) (args : List Value) :
    Run Unit := do
  match args with
  | [] => return
  | [argument] =>
    match ← Run.object address with
    | .builder _ =>
      match ← Run.asText argument with
      | some text => Run.setObject address (.builder text)
      | none => Run.raiseNull
    | .list .. =>
      let capacity ← Run.ofExcept argument.asInt
      if capacity < 0 then
        Run.raise "java/lang/IllegalArgumentException"
          (some ("Illegal Capacity: " ++ toString capacity.toInt))
    | object@(.inst ..) =>
      if descriptor == "(Ljava/lang/String;)V" then
        Run.setObject address (← Run.ofExcept (object.setField messageField argument))
      else noMethod owner "<init>" descriptor
    | _ => noMethod owner "<init>" descriptor
  | _ => noMethod owner "<init>" descriptor

def callText (address : Address) (text name : String) (args : List Value) :
    Run (Option (Option Value)) := do
  match name, args with
  | "length", [] => return some (some (.int (Int32.ofNat (Text.unitLength text))))
  | "toString", [] => return some (some (.ref address))
  | "toUpperCase", [] => return some (some (← Run.text (Text.upperCase text)))
  | "isEmpty", [] => return some (some (.ofBool text.isEmpty))
  | "concat", [other] =>
    match ← Run.asText other with
    | some other => return some (some (← Run.text (text ++ other)))
    | none => Run.raiseNull
  | _, _ => return none

def callBuilder (virtual : VirtualCall) (depth : Nat) (address : Address)
    (name descriptor : String) (args : List Value) : Run (Option (Option Value)) := do
  let contents : Run String := do
    match ← Run.object address with
    | .builder text => return text
    | _ => return ""
  match name, args with
  | "append", [value] =>
    let params ← Run.ofExcept (paramDescriptors descriptor)
    let text ← paramText virtual depth (params.headD "Ljava/lang/Object;") value
    Run.setObject address (.builder ((← contents) ++ text))
    return some (some (.ref address))
  | "toString", [] => return some (some (← Run.text (← contents)))
  | "length", [] => return some (some (.int (Int32.ofNat (Text.unitLength (← contents)))))
  | _, _ => return none

def itemAt? (items : Array Value) (index : Int32) : Option Value :=
  if index < 0 then none else items[index.toNatClampNeg]?

def callList (address : Address) (items : Array Value) (isMutable : Bool) (name : String)
    (args : List Value) : Run (Option (Option Value)) := do
  match name, args with
  | "add", [value] =>
    if isMutable then
      Run.setObject address (.list (items.push value) true)
      return some (some (.int 1))
    else Run.raise "java/lang/UnsupportedOperationException" none
  | "get", [index] =>
    let index ← Run.ofExcept index.asInt
    match itemAt? items index with
    | some value => return some (some value)
    | none =>
      Run.raise "java/lang/IndexOutOfBoundsException"
        (some ("Index " ++ toString index.toInt ++ " out of bounds for length " ++
          toString items.size))
  | "size", [] => return some (some (.int (Int32.ofNat items.size)))
  | _, _ => return none

def callPrint (virtual : VirtualCall) (depth : Nat) (name descriptor : String)
    (args : List Value) : Run Unit := do
  let params ← Run.ofExcept (paramDescriptors descriptor)
  let text ← match params, args with
    | param :: _, value :: _ => paramText virtual depth param value
    | _, _ => pure ""
  Run.print (if name == "println" then text ++ "\n" else text)

def callOwn (virtual : VirtualCall) (depth : Nat) (address : Address) (object : Object)
    (name descriptor : String) (args : List Value) : Run (Option (Option Value)) := do
  match object with
  | .text text => callText address text name args
  | .builder _ => callBuilder virtual depth address name descriptor args
  | .list items isMutable => callList address items isMutable name args
  | .boxed _ value =>
    if name.endsWith "Value" && args.isEmpty then
      let result ← Run.ofExcept (resultDescriptor descriptor)
      return some (some (unboxTo result value))
    else return none
  | .pattern source =>
    if name == "pattern" then return some (some (← Run.text source)) else return none
  | .printStream =>
    if name == "print" || name == "println" then
      callPrint virtual depth name descriptor args
      return some none
    else return none
  | .inst .. =>
    if name == "getMessage" then
      return some (some ((object.field? messageField).getD .null))
    else return none
  | .array .. | .classObject _ => return none

def callLibrary (virtual : VirtualCall) (depth : Nat) (address : Address)
    (owner name descriptor : String) (args : List Value) : Run (Option Value) := do
  if name == "<init>" then
    construct address owner descriptor args
    return none
  let object ← Run.object address
  match ← callOwn virtual depth address object name descriptor args with
  | some result => return result
  | none =>
    match name, args with
    | "toString", [] => return some (← Run.text (← plainText address))
    | "hashCode", [] => return some (.int (hashOf object address))
    | "equals", [other] => return some (.ofBool (← objectEquals virtual address other))
    | _, _ => noMethod owner name descriptor

end ClassBackend.Machine
