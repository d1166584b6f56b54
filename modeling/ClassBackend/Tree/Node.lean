import ClassBackend.Floating
import ClassBackend.Source.Span

/-!
# The typed tree

The tree of a script as it reaches the compiler. Every node has an identity;
the type inferred for it is kept beside the tree, under that identity.
-/

namespace ClassBackend

abbrev NodeId := Nat

mutual

inductive AnnotationArg where
  | text (value : String)
  | int (value : Int64)
  | boolean (value : Bool)
  | classObject (name : String)
  | array (items : List AnnotationArg)
  | nested (note : Note)

/-- An annotation as written in source: the dotted name of its class, whether
it is kept at run time, and the named values. -/
inductive Note where
  | mk (typeName : String) (runtime : Bool) (values : List (String × AnnotationArg))

end

inductive Literal where
  | int (value : Int64)
  | float (value : Double)
  | text (value : String)

structure FieldDef where
  name : String
  isStatic : Bool
  isTransient : Bool
  constant : Option Literal
  notes : List Note

mutual

inductive NodeKind where
  /-- An integer literal, typed `int` or `long`. -/
  | fixnum (value : Int64)
  | float (value : Double)
  | char (value : Char)
  | text (value : String)
  | boolean (value : Bool)
  | null
  | regex (pattern : String)
  | selfRef
  /-- A class used as a receiver. -/
  | typeRef (name : String)
  | bindingRef
  /-- Statements; the last one supplies the value. -/
  | body (nodes : List Node)
  | ifElse (condition : Node) (body elseBody : Option Node)
  | loop (parts : LoopParts)
  | «break»
  | next
  | redo
  | «return» (value : Option Node)
  | raise (value : Node)
  | rescue (body : Node) (clauses : List RescueClause) (elseClause : Option Node)
  | ensure (body clause : Node)
  | call (target : Node) (name : String) (args : List Node)
  | selfCall (name : String) (args : List Node)
  | superCall (name : String) (args : List Node)
  | cast (value : Node)
  | print (newline : Bool) (args : List Node)
  | concat (parts : List Node)
  | eval (value : Node)
  | array (elements : List Node)
  /-- A new array; its element type comes from the node's type. -/
  | emptyArray (size : Node)
  | localDecl (name : String)
  | localAccess (name : String)
  | localAssign (name : String) (value : Node)
  | fieldDecl (field : FieldDef)
  | fieldAccess (name : String) (isStatic : Bool)
  | fieldAssign (name : String) (value : Node) (isStatic : Bool) (notes : List Note)
  | classDef (definition : ClassDef)
  | closureDef (definition : ClosureDef)
  | methodDef (definition : MethodDef)
  | constructorDef (definition : ConstructorDef)
  | script (statements : List Node)

structure Node where
  id : NodeId
  span : Option Span
  kind : NodeKind

/-- A loop. `pre` runs before the body of every round, `post` after it. -/
structure LoopParts where
  init : List Node
  condition : Node
  pre : List Node
  body : Option Node
  post : List Node
  skipFirstCheck : Bool
  /-- Run until the condition holds instead of while it does. -/
  negative : Bool

/-- A clause that catches exceptions. No listed class catches
`java.lang.Exception`. -/
structure RescueClause where
  id : NodeId
  name : Option String
  types : List String
  body : Node

/-- A parameter. An optional one has a default value. -/
structure Argument where
  id : NodeId
  name : String
  default : Option Node

/-- A method; the type of its node is the result type. -/
structure MethodDef where
  name : String
  args : List Argument
  body : Option Node
  isStatic : Bool
  throws : List String
  notes : List Note

/-- An explicit call of another constructor at the start of one. -/
structure Delegation where
  callsSuper : Bool
  args : List Node

structure ConstructorDef where
  args : List Argument
  body : Option Node
  delegate : Option Delegation

/-- A class or interface. Statements of its body that define no member form
the static initializer. -/
structure ClassDef where
  name : String
  superclass : Option String
  interfaces : List String
  isInterface : Bool
  body : List Node

/-- A closure literal: an anonymous class, instantiated where it stands. -/
structure ClosureDef where
  name : String
  interfaces : List String
  methods : List Node

end

instance : Inhabited NodeKind := ⟨.null⟩

instance : Inhabited Node := ⟨{ id := 0, span := none, kind := .null }⟩

namespace NodeKind

def describe : NodeKind → String
  | .fixnum _ => "Fixnum"
  | .float _ => "Float"
  | .char _ => "Char"
  | .text _ => "String"
  | .boolean _ => "Boolean"
  | .null => "Null"
  | .regex _ => "Regex"
  | .selfRef => "Self"
  | .typeRef _ => "TypeRef"
  | .bindingRef => "BindingReference"
  | .body _ => "Body"
  | .ifElse .. => "If"
  | .loop _ => "Loop"
  | .break => "Break"
  | .next => "Next"
  | .redo => "Redo"
  | .return _ => "Return"
  | .raise _ => "Raise"
  | .rescue .. => "Rescue"
  | .ensure .. => "Ensure"
  | .call .. => "Call"
  | .selfCall .. => "FunctionalCall"
  | .superCall .. => "Super"
  | .cast _ => "Cast"
  | .print .. => "Print"
  | .concat _ => "StringConcat"
  | .eval _ => "StringEval"
  | .array _ => "Array"
  | .emptyArray _ => "EmptyArray"
  | .localDecl _ => "LocalDeclaration"
  | .localAccess _ => "LocalAccess"
  | .localAssign .. => "LocalAssignment"
  | .fieldDecl _ => "FieldDeclaration"
  | .fieldAccess .. => "FieldAccess"
  | .fieldAssign .. => "FieldAssign"
  | .classDef _ => "ClassDefinition"
  | .closureDef _ => "ClosureDefinition"
  | .methodDef _ => "MethodDefinition"
  | .constructorDef _ => "ConstructorDefinition"
  | .script _ => "Script"

/-- Definitions are compiled as members, not as statements. -/
def isDefinition : NodeKind → Bool
  | .classDef _ | .methodDef _ | .constructorDef _ | .fieldDecl _ => true
  | _ => false

end NodeKind

def Argument.defaults (args : List Argument) : List Node :=
  args.filterMap (·.default)

/-- Parameters before the first optional one. -/
def Argument.required (args : List Argument) : Nat :=
  (args.takeWhile fun arg => arg.default.isNone).length

namespace Node

def describe (node : Node) : String := node.kind.describe

def line? (node : Node) : Option Nat := node.span.map (·.start.line)

/-- The direct children in order of evaluation. Clause bodies and default
values are children too. -/
def children (node : Node) : List Node :=
  match node.kind with
  | .body nodes | .concat nodes | .array nodes | .script nodes => nodes
  | .ifElse condition body elseBody => condition :: body.toList ++ elseBody.toList
  | .loop parts => parts.init ++ parts.condition :: parts.pre ++ parts.body.toList ++ parts.post
  | .return value => value.toList
  | .raise value | .cast value | .eval value | .emptyArray value => [value]
  | .rescue body clauses elseClause =>
    body :: clauses.map (·.body) ++ elseClause.toList
  | .ensure body clause => [body, clause]
  | .call target _ args => target :: args
  | .selfCall _ args | .superCall _ args | .print _ args => args
  | .localAssign _ value | .fieldAssign _ value _ _ => [value]
  | .classDef definition => definition.body
  | .closureDef definition => definition.methods
  | .methodDef definition => Argument.defaults definition.args ++ definition.body.toList
  | .constructorDef definition =>
    Argument.defaults definition.args ++
      (definition.delegate.map (·.args)).getD [] ++ definition.body.toList
  | _ => []

end Node

/-! ## Size -/

mutual

def Node.size : Node → Nat
  | ⟨_, _, kind⟩ => kind.size + 1

def NodeKind.size : NodeKind → Nat
  | .body nodes | .concat nodes | .array nodes | .script nodes => listSize nodes
  | .ifElse condition body elseBody => condition.size + optionSize body + optionSize elseBody
  | .loop ⟨init, condition, pre, body, post, _, _⟩ =>
    listSize init + condition.size + listSize pre + optionSize body + listSize post
  | .return value => optionSize value
  | .raise value | .cast value | .eval value | .emptyArray value => value.size
  | .rescue body clauses elseClause =>
    body.size + clausesSize clauses + optionSize elseClause
  | .ensure body clause => body.size + clause.size
  | .call target _ args => target.size + listSize args
  | .selfCall _ args | .superCall _ args | .print _ args => listSize args
  | .localAssign _ value | .fieldAssign _ value _ _ => value.size
  | .classDef ⟨_, _, _, _, body⟩ => listSize body
  | .closureDef ⟨_, _, methods⟩ => listSize methods
  | .methodDef ⟨_, args, body, _, _, _⟩ => argumentsSize args + optionSize body
  | .constructorDef ⟨args, body, delegate⟩ =>
    argumentsSize args + optionSize body + delegationSize delegate
  | .fixnum _ | .float _ | .char _ | .text _ | .boolean _ | .null | .regex _ => 0
  | .selfRef | .typeRef _ | .bindingRef | .break | .next | .redo => 0
  | .localDecl _ | .localAccess _ | .fieldDecl _ | .fieldAccess .. => 0

def listSize : List Node → Nat
  | [] => 0
  | node :: rest => node.size + listSize rest

def optionSize : Option Node → Nat
  | none => 0
  | some node => node.size

def clausesSize : List RescueClause → Nat
  | [] => 0
  | ⟨_, _, _, body⟩ :: rest => body.size + clausesSize rest

def argumentsSize : List Argument → Nat
  | [] => 0
  | ⟨_, _, default⟩ :: rest => optionSize default + argumentsSize rest

def delegationSize : Option Delegation → Nat
  | none => 0
  | some ⟨_, args⟩ => listSize args

end

end ClassBackend
