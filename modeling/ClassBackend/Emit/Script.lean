import ClassBackend.Emit.Node
import ClassBackend.Emit.Register
import ClassBackend.Scope.Analysis

/-!
# Compiling a script

A script becomes a class: its top-level methods are static methods of the
class, its remaining statements the `main` method.
-/

namespace ClassBackend

def Context.emitScript (ctx : Context) (recur : Recursion) (script : Node)
    (statements : List Node) : Emit Unit := do
  statements.forM fun statement =>
    match statement.kind with
    | .methodDef definition => ctx.emitMethodDef recur statement definition true
    | .constructorDef definition => ctx.emitConstructorDef recur statement definition
    | .classDef definition => ctx.emitClassDef recur statement definition
    | _ => pure ()
  let main := statements.filter fun statement =>
    match statement.kind with
    | .methodDef _ | .constructorDef _ | .classDef _ => false
    | _ => true
  ctx.emitMethod recur {
    name := "main"
    access := Access.publicFlag ||| Access.staticFlag
    params := [("argv", .array .text)]
    returnType := .void
    scope := ctx.scopes.scopeFor? script.id
    body := .statements main }
  ctx.emitDefaultConstructor recur

/-- What a compilation starts from. -/
structure Program where
  registry : Registry
  types : TypeMap
  members : MemberTable
  settings : Settings
  file : String
  script : Node

namespace Program

def defineMain (program : Program) (className : String) : Except Fault (Registry × Ty) :=
  match (program.registry.get className).toOption.filter program.registry.isComplete with
  | some t => .ok (program.registry, t)
  | none => program.registry.define className none [] false

/-- Analyze the scopes and declare the members of the script. Returns the
context of emission and the type of the script class, and logs under
`logger`. -/
def prepare (program : Program) (className : String) (logger : Logger) (log : Log) :
    Except Fault (Context × Ty) × Log :=
  match program.defineMain className with
  | .error fault => (.error fault, log)
  | .ok (registry, mainType) =>
    match ScopeTable.analyze className program.script program.types registry with
    | .error fault => (.error fault, log)
    | .ok (registry, scopes) =>
      let log := logger.record .debug (toString scopes.scopes.size ++ " scopes") log
      match program.types.membersOf mainType true program.script with
      | .error fault => (.error fault, log)
      | .ok declared =>
        let members := program.members.declareAll (declared ++ [.constructor mainType []])
        let ctx : Context :=
          { registry, types := program.types, members, settings := program.settings, scopes }
        (.ok (ctx, mainType), log)

/-- Compile the script, given how its nodes are emitted. Returns its classes or
the error, and what was logged. -/
def compileBy (program : Program) (recursion : Context → Recursion) :
    Except CompileError CompiledUnit × Log :=
  let logger := program.settings.logger "compiler"
  match program.script.kind with
  | .script statements =>
    let className := Naming.scriptClass program.file
    let log := logger.record .debug ("compiling " ++ program.file ++ " as " ++ className) #[]
    match program.prepare className logger log with
    | (.error fault, log) => (.error (.fault fault), log)
    | (.ok (ctx, mainType), log) =>
      let start : Emission := {
        unit := { file := program.file, logger := program.settings.logger "unit", log }
        current := program.settings.newClass mainType.internalName (some "java/lang/Object") []
          (Access.publicFlag ||| Access.superFlag)
        classType := mainType }
      match ctx.emitScript (recursion ctx) program.script statements start with
      | .ok _ done => (done.unit.addMainClass done.current).finish program.settings
      | .error fault done => (.error (.fault fault), done.unit.log)
  | _ => (.error (.fault (.unsupported "compile unit other than a script")), #[])

def compile (program : Program) : Except CompileError CompiledUnit × Log :=
  program.compileBy fun ctx => ctx.within program.script

end Program

end ClassBackend
