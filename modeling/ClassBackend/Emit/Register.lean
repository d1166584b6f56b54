import ClassBackend.Member.Table
import ClassBackend.Tree.TypeMap

/-!
# Members of a script

The methods and constructors that a script defines, with one entry for every
number of arguments an optional argument allows. They are declared before any
body is emitted, so that calls may precede definitions.
-/

namespace ClassBackend.TypeMap

variable (types : TypeMap)

/-- Parameter lists of a method: all arguments, and each shorter list that
leaves out optional ones, shortest first. -/
def arities (args : List Argument) : Except Fault (List (List Ty)) := do
  let params := (← types.paramsOf args).map (·.2)
  let required := Argument.required args
  return (List.range (args.length + 1 - required)).map fun extra => params.take (required + extra)

mutual

/-- The members a node defines. `owner` is the class around it. -/
def membersOf (owner : Ty) (isStatic : Bool) : Node → Except Fault (List Member)
  | ⟨id, span, kind⟩ => membersOfKind owner isStatic id span kind

def membersOfKind (owner : Ty) (isStatic : Bool) (id : NodeId) (span : Option Span) :
    NodeKind → Except Fault (List Member)
  | .classDef ⟨name, superclass, interfaces, isInterface, members⟩ => do
    let definition := ⟨name, superclass, interfaces, isInterface, members⟩
    let t ← types.typeOf ⟨id, span, .classDef definition⟩
    let own ← membersOfAll t false members
    let hasConstructor := members.any fun member =>
      match member.kind with
      | .constructorDef _ => true
      | _ => false
    return own ++ (if isInterface || hasConstructor then [] else [.constructor t []])
  | .methodDef ⟨name, args, code, declaredStatic, throws, notes⟩ => do
    let definition := ⟨name, args, code, declaredStatic, throws, notes⟩
    let result ← types.typeOf ⟨id, span, .methodDef definition⟩
    let own := (← types.arities args).map fun params =>
      Member.method owner name params result (declaredStatic || isStatic)
    let inDefaults ← membersOfDefaults owner args
    let inBody ← membersOfOption owner false code
    return own ++ inDefaults ++ inBody
  | .constructorDef ⟨args, code, delegate⟩ => do
    let own := (← types.arities args).map (Member.constructor owner)
    let inDefaults ← membersOfDefaults owner args
    let inDelegation ← membersOfDelegation owner delegate
    let inBody ← membersOfOption owner false code
    return own ++ inDefaults ++ inDelegation ++ inBody
  | .closureDef ⟨name, interfaces, methods⟩ => do
    let t ← types.typeOf ⟨id, span, .closureDef ⟨name, interfaces, methods⟩⟩
    membersOfAll t false methods
  | .script nodes | .body nodes | .concat nodes | .array nodes =>
    membersOfAll owner isStatic nodes
  | .ifElse condition main elseBody => do
    let inCondition ← membersOf owner isStatic condition
    let inBody ← membersOfOption owner isStatic main
    let inElse ← membersOfOption owner isStatic elseBody
    return inCondition ++ inBody ++ inElse
  | .loop ⟨init, condition, pre, main, post, _, _⟩ => do
    let inInit ← membersOfAll owner isStatic init
    let inCondition ← membersOf owner isStatic condition
    let inPre ← membersOfAll owner isStatic pre
    let inBody ← membersOfOption owner isStatic main
    let inPost ← membersOfAll owner isStatic post
    return inInit ++ inCondition ++ inPre ++ inBody ++ inPost
  | .return value => membersOfOption owner isStatic value
  | .raise value | .cast value | .eval value | .emptyArray value =>
    membersOf owner isStatic value
  | .rescue main clauses elseClause => do
    let inBody ← membersOf owner isStatic main
    let inClauses ← membersOfClauses owner isStatic clauses
    let inElse ← membersOfOption owner isStatic elseClause
    return inBody ++ inClauses ++ inElse
  | .ensure main clause => do
    let inBody ← membersOf owner isStatic main
    let inClause ← membersOf owner isStatic clause
    return inBody ++ inClause
  | .call target _ args => do
    let inTarget ← membersOf owner isStatic target
    let inArgs ← membersOfAll owner isStatic args
    return inTarget ++ inArgs
  | .selfCall _ args | .superCall _ args | .print _ args => membersOfAll owner isStatic args
  | .localAssign _ value | .fieldAssign _ value _ _ => membersOf owner isStatic value
  | .fixnum _ | .float _ | .char _ | .text _ | .boolean _ | .null | .regex _ => return []
  | .selfRef | .typeRef _ | .bindingRef | .break | .next | .redo => return []
  | .localDecl _ | .localAccess _ | .fieldDecl _ | .fieldAccess .. => return []

def membersOfAll (owner : Ty) (isStatic : Bool) : List Node → Except Fault (List Member)
  | [] => return []
  | node :: rest => do
    let first ← membersOf owner isStatic node
    let others ← membersOfAll owner isStatic rest
    return first ++ others

def membersOfOption (owner : Ty) (isStatic : Bool) : Option Node → Except Fault (List Member)
  | none => return []
  | some node => membersOf owner isStatic node

def membersOfClauses (owner : Ty) (isStatic : Bool) :
    List RescueClause → Except Fault (List Member)
  | [] => return []
  | ⟨_, _, _, main⟩ :: rest => do
    let first ← membersOf owner isStatic main
    let others ← membersOfClauses owner isStatic rest
    return first ++ others

def membersOfDefaults (owner : Ty) : List Argument → Except Fault (List Member)
  | [] => return []
  | ⟨_, _, default⟩ :: rest => do
    let first ← membersOfOption owner false default
    let others ← membersOfDefaults owner rest
    return first ++ others

def membersOfDelegation (owner : Ty) : Option Delegation → Except Fault (List Member)
  | none => return []
  | some ⟨_, args⟩ => membersOfAll owner false args

end

end ClassBackend.TypeMap
