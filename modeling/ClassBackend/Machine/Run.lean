import ClassBackend.Machine.Step

/-!
# Running methods

A method runs instruction by instruction; an exception goes to the first entry
of the exception table that covers the instruction and catches its class. Calls
nest at most `callDepth` deep, and `limit` bounds both the instructions of one
activation and the nesting of library methods that call back.
-/

namespace ClassBackend.Machine

def callDepth : Nat := 256

def handler? (m : Machine) (method : MethodInfo) (index : Nat) (exception : Address) :
    Option Nat :=
  (method.exceptionTable.find? fun entry =>
    decide (entry.start ≤ index) && decide (index < entry.stop) &&
      entry.catchType.all (m.instanceOf exception)).map (·.handler)

/-- Run a method from an instruction on, for at most `n` instructions. -/
def runFrom (call : MethodCall) (limit : Nat) (method : MethodInfo) :
    (n : Nat) → (index : Nat) → Activation → Run (Option Value)
  | 0, _, _, m => .error .exhausted m
  | n + 1, index, a, m =>
    match method.code[index]? with
    | none => .error (.fatal (.fellOffEnd a.method)) m
    | some instruction =>
      match step call limit instruction a m with
      | .ok (.next, a) m => runFrom call limit method n (index + 1) a m
      | .ok (.jump label, a) m =>
        match method.target? label with
        | some target => runFrom call limit method n target a m
        | none =>
          .error (.fatal (.typeMismatch
            ("unknown label " ++ label.name ++ " in " ++ a.method))) m
      | .ok (.leave result, _) m => .ok result m
      | .error (.thrown exception) m =>
        match m.handler? method index exception with
        | some target =>
          runFrom call limit method n target { a with stack := [.ref exception] } m
        | none => .error (.thrown exception) m
      | .error unwind m => .error unwind m

def callMethod (limit : Nat) : (depth : Nat) → MethodCall
  | 0, _, _, _ => Run.fail .stackOverflow
  | depth + 1, c, method, args => do
    let a := Activation.enter c method args
    Run.note .trace ("enter " ++ a.method)
    modify (·.entering c method)
    runFrom (callMethod limit depth) limit method limit 0 a

/-! ## From outside -/

inductive Outcome where
  | value (result : Option Value)
  | error (error : Error)
  | unfinished

def uncaught (m : Machine) (exception : Address) : String × String :=
  match m.heap[exception]? with
  | none => ("", "")
  | some object =>
    let message := match object.field? messageField with
      | some (.ref address) =>
        match m.heap[address]? with
        | some (.text text) => text
        | _ => ""
      | _ => ""
    (Naming.toDotted object.className, message)

def invokeStatic (m : Machine) (limit : Nat) (className name descriptor : String)
    (args : List Value) : Outcome × Machine :=
  let method : MemberRef := { owner := Naming.toInternal className, name, descriptor }
  match callStatic (callMethod limit callDepth) method args m with
  | .ok result m => (.value result, m)
  | .error (.fatal error) m => (.error error, m)
  | .error .exhausted m => (.unfinished, m)
  | .error (.thrown exception) m =>
    let (className, message) := m.uncaught exception
    (.error (.uncaught className message),
      m.note .debug ("uncaught " ++ className ++ ": " ++ message))

def allocateTexts (m : Machine) : List String → List Value × Machine
  | [] => ([], m)
  | text :: rest =>
    let (address, m) := m.allocate (.text text)
    let (values, m) := m.allocateTexts rest
    (.ref address :: values, m)

def runMain (m : Machine) (limit : Nat) (className : String) (args : List String) :
    Outcome × Machine :=
  let (texts, m) := m.allocateTexts args
  let (argv, m) := m.allocate (.array "Ljava/lang/String;" texts.toArray)
  m.invokeStatic limit className "main" "([Ljava/lang/String;)V" [.ref argv]

def staticField? (m : Machine) (className name : String) : Option Value :=
  m.static? (Naming.toInternal className) name

def inspect (m : Machine) : Value → String
  | .int n => toString n.toInt
  | .long n => toString n.toInt ++ "L"
  | .float x => floatText x ++ "f"
  | .double x => doubleText x ++ "d"
  | .null => "null"
  | .ref address => "<" ++ ((m.heap[address]?).map (·.className)).getD "" ++ ">"

end ClassBackend.Machine
