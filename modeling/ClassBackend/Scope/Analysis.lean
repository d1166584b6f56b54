import ClassBackend.Scope.Basic
import ClassBackend.Tree.TypeMap

/-!
# Scope analysis

One walk over the tree opens the scopes, resolves every reference to a local
and marks the captured ones; afterwards each activation with captured locals is
given a binding class.
-/

namespace ClassBackend.ScopeTable

structure Walk where
  table : ScopeTable := {}
  current : Option ScopeId := none
  className : String

abbrev WalkM := StateT Walk (Except Fault)

def openScope (kind : ScopeKind) (owner : NodeId) (parent : Option ScopeId) :
    WalkM ScopeId := do
  let walk ← get
  let id := walk.table.scopes.size
  let scope : Scope := { kind, parent, owner, className := walk.className }
  set { walk with
    table := { walk.table with
      scopes := walk.table.scopes.push scope
      introduced := (owner, id) :: walk.table.introduced } }
  return id

def update (change : ScopeTable → ScopeTable) : WalkM Unit :=
  modifyThe Walk fun walk => { walk with table := change walk.table }

def inside (scope : ScopeId) (walk : WalkM Unit) : WalkM Unit := do
  let saved := (← get).current
  modifyThe Walk ({ · with current := some scope })
  walk
  modifyThe Walk ({ · with current := saved })

def typeOf (types : TypeMap) (id : NodeId) : WalkM Ty :=
  match types.find? id with
  | some t => return t
  | none => throw (.internal ("no inferred type for node " ++ toString id))

/-- Resolve a reference to a local. A name that is not found is defined in the
nearest scope that is no block. -/
def refer (types : TypeMap) (node : NodeId) (name : String) : WalkM Unit := do
  let walk ← get
  match walk.current with
  | none => throw (.internal ("local " ++ name ++ " outside of any scope"))
  | some current =>
    let scope ← match walk.table.search name false (walk.table.chain current) with
      | some (scope, leftClosure) => do
        if leftClosure then update (·.modify scope (·.capture name))
        pure scope
      | none => do
        let scope := walk.table.definitionScope current
        let t ← typeOf types node
        update (·.modify scope (·.define name t))
        pure scope
    update fun table => { table with resolved := (node, scope) :: table.resolved }

def defineArgs (types : TypeMap) (scope : ScopeId) (args : List Argument) : WalkM Unit :=
  args.forM fun arg => do
    let t ← typeOf types arg.id
    update (·.modify scope (·.define arg.name t))

mutual

def visit (types : TypeMap) : Node → WalkM Unit
  | ⟨id, _, kind⟩ => visitKind types id kind

def visitKind (types : TypeMap) (id : NodeId) : NodeKind → WalkM Unit
  | .script statements => do
    let main ← openScope .method id none
    update (·.modify main (·.define "argv" (.array Ty.text)))
    visitMembers types main statements
  | .classDef ⟨name, _, _, _, members⟩ => do
    let saved := (← get).className
    modifyThe Walk ({ · with className := name })
    let initializer ← openScope .method id none
    visitMembers types initializer members
    modifyThe Walk ({ · with className := saved })
  | .methodDef ⟨_, args, code, _, _, _⟩ => do
    let scope ← openScope .method id none
    defineArgs types scope args
    inside scope do
      visitDefaults types args
      visitOption types code
  | .constructorDef ⟨args, code, delegate⟩ => do
    let scope ← openScope .method id none
    defineArgs types scope args
    inside scope do
      visitDefaults types args
      visitDelegation types delegate
      visitOption types code
  | .closureDef ⟨_, _, methods⟩ => do
    let parent := (← get).current
    visitClosure types parent methods
  | .rescue main clauses elseClause => do
    visit types main
    visitClauses types clauses
    visitOption types elseClause
  | .localDecl name | .localAccess name => refer types id name
  | .localAssign name value => do
    visit types value
    refer types id name
  | .body nodes | .concat nodes | .array nodes => visitAll types nodes
  | .ifElse condition main elseBody => do
    visit types condition
    visitOption types main
    visitOption types elseBody
  | .loop ⟨init, condition, pre, main, post, _, _⟩ => do
    visitAll types init
    visit types condition
    visitAll types pre
    visitOption types main
    visitAll types post
  | .return value => visitOption types value
  | .raise value | .cast value | .eval value | .emptyArray value => visit types value
  | .ensure main clause => do
    visit types main
    visit types clause
  | .call target _ args => do
    visit types target
    visitAll types args
  | .selfCall _ args | .superCall _ args | .print _ args => visitAll types args
  | .fieldAssign _ value _ _ => visit types value
  | .fixnum _ | .float _ | .char _ | .text _ | .boolean _ | .null | .regex _ => return
  | .selfRef | .typeRef _ | .bindingRef | .break | .next | .redo => return
  | .fieldDecl _ | .fieldAccess .. => return

def visitAll (types : TypeMap) : List Node → WalkM Unit
  | [] => return
  | node :: rest => do
    visit types node
    visitAll types rest

def visitOption (types : TypeMap) : Option Node → WalkM Unit
  | none => return
  | some node => visit types node

/-- Walk over members and statements: definitions open scopes of their own,
everything else runs in the given scope. -/
def visitMembers (types : TypeMap) (scope : ScopeId) : List Node → WalkM Unit
  | [] => return
  | node :: rest => do
    if node.kind.isDefinition then visit types node else inside scope (visit types node)
    visitMembers types scope rest

def visitClosure (types : TypeMap) (parent : Option ScopeId) : List Node → WalkM Unit
  | [] => return
  | ⟨id, _, .methodDef ⟨_, args, code, _, _, _⟩⟩ :: rest => do
    let scope ← openScope .closure id parent
    defineArgs types scope args
    inside scope do
      visitDefaults types args
      visitOption types code
    visitClosure types parent rest
  | node :: rest => do
    visit types node
    visitClosure types parent rest

def visitClauses (types : TypeMap) : List RescueClause → WalkM Unit
  | [] => return
  | ⟨id, name, _, main⟩ :: rest => do
    let block ← openScope .block id (← get).current
    match name with
    | some name => do
      let t ← typeOf types id
      update (·.modify block (·.define name t))
    | none => pure ()
    inside block (visit types main)
    visitClauses types rest

def visitDefaults (types : TypeMap) : List Argument → WalkM Unit
  | [] => return
  | ⟨_, _, default⟩ :: rest => do
    visitOption types default
    visitDefaults types rest

def visitDelegation (types : TypeMap) : Option Delegation → WalkM Unit
  | none => return
  | some ⟨_, args⟩ => visitAll types args

end

/-- The outermost scopes of activations with captured locals, in order of
their first captured local. -/
def capturingRoots (table : ScopeTable) : List ScopeId :=
  (List.range table.scopes.size).foldl (fun roots id =>
    if (table.scope? id).any (·.hasCaptures) then
      let root := table.rootOf id
      if roots.contains root then roots else roots ++ [root]
    else roots) []

/-- Give each capturing activation a binding class, numbered from one. -/
def assignBindings (registry : Registry) (table : ScopeTable) :
    Except Fault (Registry × ScopeTable) :=
  table.capturingRoots.zipIdx.foldlM (fun (registry, table) (root, index) => do
    let className := ((table.scope? root).map (·.className)).getD ""
    let name := className ++ "$Binding" ++ toString (index + 1)
    let (registry, binding) ← match (registry.get name).toOption.filter registry.isComplete with
      | some existing => pure (registry, existing)
      | none => registry.define name none [] false
    return (registry, table.modify root ({ · with binding := some binding })))
    (registry, table)

/-- Analyze a script whose own code belongs to `mainClass`. The binding classes
are added to the registry. -/
def analyze (mainClass : String) (script : Node) (types : TypeMap) (registry : Registry) :
    Except Fault (Registry × ScopeTable) := do
  let (_, walk) ← (visit types script).run { className := mainClass }
  walk.table.assignBindings registry

end ClassBackend.ScopeTable
