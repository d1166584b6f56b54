import ClassBackend.Member.Table

/-!
# Library members

The members of library classes that every script sees.
-/

namespace ClassBackend.Library

def classTy (name : String) : Ty := .object name

def builder : Ty := .object "java.lang.StringBuilder"

def list : Ty := .object "java.util.List"

def pattern : Ty := .object "java.util.regex.Pattern"

def singles : List Member :=
  [ .constructor .rootClass [],
    .method .rootClass "toString" [] .text false,
    .method .rootClass "equals" [.rootClass] .boolean false,
    .method .rootClass "hashCode" [] .int false,
    .method .text "length" [] .int false,
    .method .text "toString" [] .text false,
    .method .text "concat" [.text] .text false,
    .method .text "equals" [.rootClass] .boolean false,
    .method .text "toUpperCase" [] .text false,
    .constructor builder [],
    .constructor builder [.text],
    .method builder "append" [.text] builder false,
    .method builder "append" [.rootClass] builder false,
    .method builder "toString" [] .text false,
    .getter true (classTy "java.lang.System") "out" (classTy "java.io.PrintStream"),
    .method (classTy "java.lang.Integer") "parseInt" [.text] .int true,
    .constructor (classTy "java.util.ArrayList") [],
    .constructor (classTy "java.util.ArrayList") [.int],
    .method list "add" [.rootClass] .boolean false,
    .method list "get" [.int] .rootClass false,
    .method list "size" [] .int false,
    .method (classTy "java.util.Collections") "unmodifiableList" [list] list true,
    .method pattern "compile" [.text] pattern true,
    .method pattern "pattern" [] .text false,
    .method (classTy "java.lang.Throwable") "getMessage" [] .text false,
    .method (classTy "java.lang.Runnable") "run" [] .void false,
    .getter true (classTy "java.util.Calendar") "AM" .int,
    .getter true (classTy "java.util.Calendar") "PM" .int,
    .constructor (classTy "java.util.GregorianCalendar") [] ]

def printable : List Ty :=
  [ .boolean, .prim .char, .int, .prim .long, .prim .float, .prim .double, .text, .rootClass ]

def printing : List Member :=
  let stream := classTy "java.io.PrintStream"
  .method stream "println" [] .void false ::
    printable.flatMap fun t =>
      ["print", "println"].map fun name => .method stream name [t] .void false

def boxing : List Member :=
  Primitive.all.flatMap fun p =>
    let wrapper := classTy p.wrapper
    [ .method wrapper "valueOf" [.prim p] wrapper true,
      .method wrapper (p.name ++ "Value") [] (.prim p) false ]

def throwables : List String :=
  [ "java.lang.Throwable", "java.lang.Exception", "java.lang.Error",
    "java.lang.RuntimeException", "java.lang.IllegalArgumentException",
    "java.lang.IllegalStateException", "java.lang.UnsupportedOperationException",
    "java.lang.ArithmeticException", "java.lang.NullPointerException",
    "java.lang.ClassCastException", "java.lang.IndexOutOfBoundsException",
    "java.lang.ArrayIndexOutOfBoundsException" ]

def throwing : List Member :=
  throwables.flatMap fun name =>
    [ .constructor (classTy name) [], .constructor (classTy name) [.text] ]

def table : MemberTable :=
  MemberTable.declareAll {} (singles ++ printing ++ boxing ++ throwing)

end ClassBackend.Library
