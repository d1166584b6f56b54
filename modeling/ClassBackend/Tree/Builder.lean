import ClassBackend.Tree.TypeMap

/-!
# Building trees

A tree is built bottom-up: each new node takes the next identity and gets a
type. `NodeKind.derivedType?` states the type that follows from the node and
the types of its children; kinds without such a rule are given theirs. Class
and closure definitions define their class in the registry as they are built.
-/

namespace ClassBackend

structure Builder where
  registry : Registry := .core
  types : TypeMap := {}

abbrev Build := StateM Builder

namespace Builder

def typeOf (b : Builder) (node : Node) : Ty := (b.types.find? node.id).getD .void

def typeOf? (b : Builder) (node : Option Node) : Ty := (node.map b.typeOf).getD .void

def nextId (b : Builder) : NodeId := b.types.entries.size

end Builder

def NodeKind.derivedType? (b : Builder) : NodeKind → Option Ty
  | .char _ => some (.prim .char)
  | .text _ | .concat _ | .eval _ => some Ty.text
  | .boolean _ => some Ty.boolean
  | .null | .loop _ => some .null
  | .regex _ => some (.object "java.util.regex.Pattern")
  | .typeRef name => some (.metaOf (b.registry.getOrError name))
  | .bindingRef => some Ty.rootClass
  | .body nodes => some (b.typeOf? nodes.getLast?)
  | .break | .next | .redo | .raise _ => some .unreachable
  | .return value => some (b.typeOf? value)
  | .ensure main _ => some (b.typeOf main)
  | .array _ => some (.object "java.util.List")
  | .localAssign _ value | .fieldAssign _ value _ _ => some (b.typeOf value)
  | .print .. | .ifElse .. | .rescue .. | .constructorDef _ | .script _ => some .void
  | _ => none

namespace Build

def fresh (t : Ty) : Build NodeId := do
  let b ← get
  set { b with types := b.types.push t }
  return b.nextId

/-- Resolve a type name; an unknown name yields the error type. -/
def ty (name : String) : Build Ty := return (← get).registry.getOrError name

def defineClass (name : String) (superclass : Option String) (interfaces : List String)
    (isInterface : Bool) : Build Ty := do
  let b ← get
  let (registry, t) := b.registry.defineIfNeeded name superclass interfaces isInterface
  set { b with registry }
  return t

/-- Add a node. A given type takes precedence over the derived one. -/
def node (kind : NodeKind) (given : Option Ty) (span : Option Span) : Build Node := do
  let derived ← match kind with
    | .classDef definition =>
      some <$> defineClass definition.name definition.superclass definition.interfaces
        definition.isInterface
    | .closureDef definition =>
      some <$> defineClass definition.name none definition.interfaces false
    | _ => pure (kind.derivedType? (← get))
  let id ← fresh ((given <|> derived).getD .void)
  return { id, span, kind }

/-- Add an instance creation: a class reference and the call of `new` on it, each
with its own span. -/
def newObject (className : String) (args : List Node) (targetSpan span : Option Span) :
    Build Node := do
  let target ← node (.typeRef className) none targetSpan
  node (.call target "new" args) (some (← ty className)) span

def argument (name : String) (t : Ty) (default : Option Node) : Build Argument := do
  return { id := ← fresh t, name, default }

/-- Add a clause, typed by the first class it catches. -/
def rescueClause (name : Option String) (types : List String) (body : Node) :
    Build RescueClause := do
  let caught ← ty (types.head?.getD "java.lang.Exception")
  return { id := ← fresh caught, name, types, body }

end Build

end ClassBackend
