import ClassBackend.Tree.Node
import ClassBackend.Ty.Basic

/-!
# Lexical scopes

A script is divided into scopes. A method scope ends the search for a name; a
closure scope sees the locals around it; a block scope holds the variable of a
rescue clause. A local that some closure reaches from outside its own scope is
*captured*: it lives in a binding object shared by the whole activation.
-/

namespace ClassBackend

abbrev ScopeId := Nat

inductive ScopeKind where
  | method
  | closure
  /-- A rescue clause. -/
  | block
  deriving DecidableEq, Repr

def ScopeKind.name : ScopeKind → String
  | .method => "Method"
  | .closure => "Closure"
  | .block => "Block"

structure Scope where
  kind : ScopeKind
  parent : Option ScopeId
  owner : NodeId
  className : String
  locals : List (String × Ty) := []
  captured : List String := []
  /-- The binding class, on the outermost scope of an activation. -/
  binding : Option Ty := none
  deriving Repr

namespace Scope

def localType? (scope : Scope) (name : String) : Option Ty := scope.locals.lookup name

def hasLocal (scope : Scope) (name : String) : Bool := (scope.localType? name).isSome

def isCaptured (scope : Scope) (name : String) : Bool := scope.captured.contains name

def hasCaptures (scope : Scope) : Bool := !scope.captured.isEmpty

/-- Define a local; the first definition decides its type. -/
def define (scope : Scope) (name : String) (t : Ty) : Scope :=
  if scope.hasLocal name then scope else { scope with locals := scope.locals ++ [(name, t)] }

def capture (scope : Scope) (name : String) : Scope :=
  if scope.isCaptured name then scope else { scope with captured := scope.captured ++ [name] }

end Scope

structure ScopeTable where
  scopes : Array Scope := #[]
  introduced : List (NodeId × ScopeId) := []
  /-- Defining scopes by the node that refers to a local, latest first. -/
  resolved : List (NodeId × ScopeId) := []

namespace ScopeTable

def scope? (table : ScopeTable) (id : ScopeId) : Option Scope := table.scopes[id]?

def scopeFor? (table : ScopeTable) (node : NodeId) : Option ScopeId :=
  table.introduced.lookup node

def definingScope? (table : ScopeTable) (node : NodeId) : Option ScopeId :=
  table.resolved.lookup node

def modify (table : ScopeTable) (id : ScopeId) (change : Scope → Scope) : ScopeTable :=
  { table with scopes := table.scopes.modify id change }

/-- A scope and the scopes around it within `n` steps, innermost first. -/
def chainWithin (table : ScopeTable) : Nat → ScopeId → List ScopeId
  | 0, _ => []
  | n + 1, id =>
    match (table.scope? id).bind (·.parent) with
    | some parent => id :: table.chainWithin n parent
    | none => [id]

def chain (table : ScopeTable) (id : ScopeId) : List ScopeId :=
  table.chainWithin (table.scopes.size + 1) id

def kindOf (table : ScopeTable) (id : ScopeId) : ScopeKind :=
  ((table.scope? id).map (·.kind)).getD .method

def firstOf (table : ScopeTable) (wanted : ScopeKind → Bool) : List ScopeId → Option ScopeId
  | [] => none
  | [id] => some id
  | id :: outer => if wanted (table.kindOf id) then some id else table.firstOf wanted outer

def rootOf (table : ScopeTable) (id : ScopeId) : ScopeId :=
  (table.firstOf (· == .method) (table.chain id)).getD id

/-- The scope new locals are defined in: the nearest one that is no block. -/
def definitionScope (table : ScopeTable) (id : ScopeId) : ScopeId :=
  (table.firstOf (· != .block) (table.chain id)).getD id

/-- Search a chain for a local. Returns its scope and whether the search left a
closure. A method scope ends the search. -/
def search (table : ScopeTable) (name : String) :
    (leftClosure : Bool) → List ScopeId → Option (ScopeId × Bool)
  | _, [] => none
  | leftClosure, id :: outer =>
    match table.scope? id with
    | none => none
    | some scope =>
      if scope.hasLocal name then some (id, leftClosure)
      else
        match scope.kind with
        | .method => none
        | .closure => table.search name true outer
        | .block => table.search name leftClosure outer

def isCaptured (table : ScopeTable) (id : ScopeId) (name : String) : Bool :=
  (table.scope? id).any (·.isCaptured name)

def bindingType? (table : ScopeTable) (id : ScopeId) : Option Ty :=
  (table.scope? (table.rootOf id)).bind (·.binding)

/-- The name a local's slot goes by. Block scopes add their index, so that
equal names of sibling clauses do not share a slot. -/
def slotName (table : ScopeTable) (id : ScopeId) (name : String) : String :=
  match table.kindOf id with
  | .block => name ++ "$" ++ toString id
  | _ => name

end ScopeTable

end ClassBackend
