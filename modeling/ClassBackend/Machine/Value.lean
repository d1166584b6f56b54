import ClassBackend.Decimal.Layout
import ClassBackend.Floating
import ClassBackend.Machine.Error
import ClassBackend.Naming
import ClassBackend.Text.Units

/-!
# Values and objects

An operand is a number, null or the address of an object on the heap. A `long`
or `double` is a single operand, but takes two local slots.
-/

namespace ClassBackend.Machine

/-- The address of an object: its index on the heap. -/
abbrev Address := Nat

inductive Value where
  | int (value : Int32)
  | long (value : Int64)
  | float (value : Single)
  | double (value : Double)
  | null
  | ref (address : Address)
  deriving Inhabited

namespace Value

def ofBool (b : Bool) : Value := .int (if b then 1 else 0)

def default (descriptor : String) : Value :=
  match descriptor.toList with
  | 'J' :: _ => .long 0
  | 'F' :: _ => .float .zero
  | 'D' :: _ => .double .zero
  | 'L' :: _ | '[' :: _ | [] => .null
  | _ => .int 0

def isWide : Value → Bool
  | .long _ | .double _ => true
  | _ => false

def words (v : Value) : Nat := if v.isWide then 2 else 1

def sort : Value → String
  | .int _ => "int"
  | .long _ => "long"
  | .float _ => "float"
  | .double _ => "double"
  | .null => "null"
  | .ref _ => "reference"

def mismatch (v : Value) (expected : String) : Error :=
  .typeMismatch ("expected " ++ expected ++ ", found " ++ v.sort)

def asInt : Value → Except Error Int32
  | .int n => .ok n
  | v => .error (v.mismatch "int")

def asLong : Value → Except Error Int64
  | .long n => .ok n
  | v => .error (v.mismatch "long")

def asFloat : Value → Except Error Single
  | .float x => .ok x
  | v => .error (v.mismatch "float")

def asDouble : Value → Except Error Double
  | .double x => .ok x
  | v => .error (v.mismatch "double")

/-- The value as a reference; null gives `none`. -/
def asRef : Value → Except Error (Option Address)
  | .ref address => .ok (some address)
  | .null => .ok none
  | v => .error (v.mismatch "reference")

def isNull : Value → Bool
  | .null => true
  | _ => false

/-- Both are the same object, or both are null. -/
def identical : Value → Value → Bool
  | .ref a, .ref b => a == b
  | .null, .null => true
  | _, _ => false

/-- Both are numbers of one sort with the same bits. -/
def samePrimitive : Value → Value → Bool
  | .int x, .int y => x == y
  | .long x, .long y => x == y
  | .float x, .float y => x == y
  | .double x, .double y => x == y
  | _, _ => false

end Value

def doubleText (x : Double) : String := Decimal.Layout.machine.render x.parts

def floatText (x : Single) : String := Decimal.Layout.machine.render x.parts

def charText (n : Int32) : String := Text.ofUnit (n.toUInt32.toNat % 0x10000)

def booleanText (n : Int32) : String := if n != 0 then "true" else "false"

/-- An object on the heap. Instances of loaded classes and all throwables are
`inst`. -/
inductive Object where
  | inst (className : String) (fields : List (String × Value))
  | text (value : String)
  | builder (value : String)
  | array (component : String) (items : Array Value)
  | list (items : Array Value) (isMutable : Bool)
  | boxed (className : String) (value : Value)
  | pattern (source : String)
  | printStream
  | classObject (name : String)

def messageField : String := "$message"

namespace Object

def className : Object → String
  | .inst className _ => className
  | .text _ => "java/lang/String"
  | .builder _ => "java/lang/StringBuilder"
  | .array component _ => "[" ++ component
  | .list _ true => "java/util/ArrayList"
  | .list _ false => "java/util/Collections$UnmodifiableList"
  | .boxed className _ => className
  | .pattern _ => "java/util/regex/Pattern"
  | .printStream => "java/io/PrintStream"
  | .classObject _ => "java/lang/Class"

def field? (object : Object) (name : String) : Option Value :=
  match object with
  | .inst _ fields => fields.lookup name
  | _ => none

/-- Replace the first entry of a name, or add one at the end. -/
def putEntry (name : String) (value : Value) : List (String × Value) → List (String × Value)
  | [] => [(name, value)]
  | (known, old) :: rest =>
    if known == name then (known, value) :: rest
    else (known, old) :: putEntry name value rest

def setField (object : Object) (name : String) (value : Value) : Except Error Object :=
  match object with
  | .inst className fields => .ok (.inst className (putEntry name value fields))
  | other =>
    .error (.typeMismatch ("cannot set field " ++ name ++ " on " ++ other.className))

end Object

def boxedText (className : String) (value : Value) : String :=
  match value with
  | .int n =>
    match className with
    | "java/lang/Boolean" => booleanText n
    | "java/lang/Character" => charText n
    | _ => toString n.toInt
  | .long n => toString n.toInt
  | .float x => floatText x
  | .double x => doubleText x
  | .null | .ref _ => "null"

end ClassBackend.Machine
