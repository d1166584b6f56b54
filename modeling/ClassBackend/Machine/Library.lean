import ClassBackend.Machine.Value
import ClassBackend.Primitive

/-!
# Library classes

The classes the machine knows without loading them: their place in the
hierarchy, which of them can be made, and their static fields.
-/

namespace ClassBackend.Machine

def rootClass : String := "java/lang/Object"

def throwableClass : String := "java/lang/Throwable"

def librarySuperclasses : List (String × String) :=
  [("java/lang/Exception", throwableClass),
   ("java/lang/Error", throwableClass),
   ("java/lang/RuntimeException", "java/lang/Exception"),
   ("java/lang/IllegalArgumentException", "java/lang/RuntimeException"),
   ("java/lang/IllegalStateException", "java/lang/RuntimeException"),
   ("java/lang/UnsupportedOperationException", "java/lang/RuntimeException"),
   ("java/lang/ArithmeticException", "java/lang/RuntimeException"),
   ("java/lang/NullPointerException", "java/lang/RuntimeException"),
   ("java/lang/ClassCastException", "java/lang/RuntimeException"),
   ("java/lang/IndexOutOfBoundsException", "java/lang/RuntimeException"),
   ("java/lang/ArrayIndexOutOfBoundsException", "java/lang/IndexOutOfBoundsException"),
   ("java/lang/NegativeArraySizeException", "java/lang/RuntimeException"),
   ("java/lang/NumberFormatException", "java/lang/IllegalArgumentException"),
   ("java/util/regex/PatternSyntaxException", "java/lang/IllegalArgumentException"),
   ("java/lang/Byte", "java/lang/Number"),
   ("java/lang/Short", "java/lang/Number"),
   ("java/lang/Integer", "java/lang/Number"),
   ("java/lang/Long", "java/lang/Number"),
   ("java/lang/Float", "java/lang/Number"),
   ("java/lang/Double", "java/lang/Number"),
   ("java/util/GregorianCalendar", "java/util/Calendar")]

def listInterfaces : List String :=
  ["java/util/List", "java/util/Collection", "java/lang/Iterable"]

def libraryInterfaces : List (String × List String) :=
  [("java/util/ArrayList", listInterfaces),
   ("java/util/Collections$UnmodifiableList", listInterfaces),
   ("java/util/List", ["java/util/Collection", "java/lang/Iterable"]),
   ("java/util/Collection", ["java/lang/Iterable"]),
   ("java/lang/String", ["java/lang/CharSequence", "java/lang/Comparable"]),
   ("java/lang/StringBuilder", ["java/lang/CharSequence"]),
   (throwableClass, ["java/io/Serializable"])]

def librarySuperclass? (name : String) : Option String :=
  if name == rootClass then none
  else some ((librarySuperclasses.lookup name).getD rootClass)

def libraryLinks (name : String) : List String :=
  (librarySuperclass? name).toList ++ (libraryInterfaces.lookup name).getD []

/-- A library class and its superclasses within `n` steps. -/
def libraryChain : Nat → String → List String
  | 0, name => [name]
  | n + 1, name =>
    match librarySuperclass? name with
    | some superclass => name :: libraryChain n superclass
    | none => [name]

def isThrowable (name : String) : Bool :=
  (libraryChain (librarySuperclasses.length + 1) name).contains throwableClass

def wrapped? (className : String) : Option Primitive :=
  Primitive.all.find? (·.wrapper == Naming.toDotted className)

/-- A throwable with a message, which is null or the address of a text. -/
def throwable (className : String) (message : Value) : Object :=
  .inst className [(messageField, message)]

def newLibraryObject (className : String) : Except Error Object :=
  match className with
  | "java/lang/StringBuilder" => .ok (.builder "")
  | "java/util/ArrayList" => .ok (.list #[] true)
  | "java/lang/Object" | "java/util/GregorianCalendar" => .ok (.inst className [])
  | _ =>
    if isThrowable className then .ok (throwable className .null)
    else .error (.classNotFound (Naming.toDotted className))

inductive LibraryStatic where
  | number (value : Int32)
  | object (value : Object)

def libraryStatic? (owner name : String) : Option LibraryStatic :=
  match owner, name with
  | "java/lang/System", "out" => some (.object .printStream)
  | "java/util/Calendar", "AM" => some (.number 0)
  | "java/util/Calendar", "PM" => some (.number 1)
  | _, "TYPE" => (wrapped? owner).map fun p => .object (.classObject p.name)
  | _, _ => none

end ClassBackend.Machine
