import ClassBackend.Proofs.Ledger.Definitions
import ClassBackend.Proofs.Scope.Names

/-!
# What a unit holds

A compiled unit holds what is planned for the script, as far as a tally tells,
and one class for each binding that is in use (`Program.made_of_compile`).
-/

namespace ClassBackend

variable {table : MemberTable} {K : Tally}

/-! ## More members -/

theorem Node.leavesCode_mono {larger : MemberTable}
    (h : ∀ name, table.callLeavesCode name = true → larger.callLeavesCode name = true)
    {node : Node} (hnode : node.leavesCode table = true) : node.leavesCode larger = true := by
  induction hsize : node.size using Nat.strong_induction_on generalizing node with
  | _ size ih =>
    obtain ⟨id, span, kind⟩ := node
    rw [Node.leavesCode] at hnode ⊢
    cases kind with
    | call _ name _ | selfCall name _ =>
      rw [NodeKind.leavesCode] at hnode ⊢
      exact h name hnode
    | body nodes =>
      rw [NodeKind.leavesCode, anyLeavesCode_eq_true] at hnode ⊢
      obtain ⟨part, hpart, hcode⟩ := hnode
      refine ⟨part, hpart, ih _ ?_ hcode rfl⟩
      rw [← hsize]
      exact Node.size_lt_of_mem_children hpart
    | print newline args =>
      rw [NodeKind.leavesCode] at hnode ⊢
      exact hnode
    | raise | localAssign | fieldAssign => rw [NodeKind.leavesCode]
    | _ => simp only [NodeKind.leavesCode, Bool.false_eq_true] at hnode

/-- Methods and constructors in the table do not keep a call from leaving
code. -/
theorem MemberTable.callLeavesCode_declareAll {members : List Member}
    (hmembers : ∀ m ∈ members, ∃ kind t name params result, m = .callable kind t name params result)
    (name : String) (h : table.callLeavesCode name = true) :
    (table.declareAll members).callLeavesCode name = true := by
  obtain ⟨hname, hall⟩ := Bool.and_eq_true_iff.1 h
  refine Bool.and_eq_true_iff.2 ⟨hname, List.all_eq_true.2 fun m hm => ?_⟩
  rcases mem_declareAll hm with hm | hm
  · exact List.all_eq_true.1 hall m hm
  · obtain ⟨_, _, _, _, _, rfl⟩ := hmembers m hm
    exact Bool.or_eq_true_iff.2 (.inr rfl)

theorem Tally.Sound.mono {types : TypeMap} {larger : MemberTable}
    (h : ∀ name, table.callLeavesCode name = true → larger.callLeavesCode name = true)
    {o : Occurrence} (ho : K.Sound types table o) : K.Sound types larger o := by
  cases hkind : o.node.kind with
  | rescue main clauses elseClause =>
    simp only [Tally.Sound, hkind] at ho ⊢
    exact ho.imp_left (Node.leavesCode_mono h)
  | _ =>
    rw [Tally.Sound, hkind] at ho ⊢
    exact ho

theorem Library.isOfClass_of_mem : ∀ m ∈ Library.table.members, m.isOfClass = true := by
  decide +kernel

/-! ## Binding classes -/

theorem BindingLayout.entries_toClass {layout : BindingLayout} {settings : Settings}
    {c : ClassFile} (h : layout.toClass settings = .ok c) :
    c.entries = {.method c.name "<init>" "()V" false} := by
  obtain ⟨-, constructor, hfinish, hmethods⟩ := toClass_eq_ok h
  obtain ⟨-, -, -, -, hname, hdescriptor, haccess, -⟩ := Assembler.finish_eq_ok hfinish
  have hstatic : constructor.isStatic = false := by
    rw [MethodInfo.isStatic, show constructor.access = Access.publicFlag from haccess]
    decide
  rw [ClassFile.entries, hmethods, List.map_singleton, MethodInfo.entry, hstatic,
    show constructor.name = "<init>" from hname,
    show constructor.descriptor = "()V" from hdescriptor, Multiset.coe_singleton]

theorem Compilation.addBindings_eq_ok {settings : Settings} {layouts : List BindingLayout}
    {c closed : Compilation} (h : c.addBindings settings layouts = .ok closed) :
    ∃ made, closed.classes = c.classes ++ made ∧
      made.map (·.name) = layouts.map (·.type.internalName) ∧
      ∀ k ∈ made, k.entries = {.method k.name "<init>" "()V" false} := by
  induction layouts generalizing c with
  | nil =>
    cases h
    exact ⟨[], by simp⟩
  | cons layout rest ih =>
    cases hclass : layout.toClass settings with
    | error fault => simp [addBindings, hclass, bind, Except.bind] at h
    | ok finished =>
      simp only [addBindings, hclass, bind, Except.bind] at h
      obtain ⟨made, hclasses, hnames, hentries⟩ := ih h
      refine ⟨finished :: made, ?_, ?_,
        List.forall_mem_cons.2 ⟨BindingLayout.entries_toClass hclass, hentries⟩⟩
      · simp [hclasses, addClass, note]
      · rw [List.map_cons, List.map_cons, (BindingLayout.toClass_eq_ok hclass).1, hnames]

/-! ## The script -/

namespace Program

variable {program : Program} {compiled : CompiledUnit}

def root (program : Program) : Occurrence where
  site := .ofScript (Naming.scriptClass program.file)
  node := program.script

/-- All that the script makes in the classes that it names and in its own. -/
def plan (program : Program) : Multiset Entry := program.root.plan program.types

/-- The internal names of the binding classes of the script. -/
def bindingNames (program : Program) : Except Fault (List String) := do
  let className := Naming.scriptClass program.file
  let (registry, _) ← program.defineMain className
  let (_, table) ← ScopeTable.analyze className program.script program.types registry
  return table.bindingTypes.map Ty.internalName

/-- How a script came to be compiled. -/
structure Trace (program : Program) (compiled : CompiledUnit) where
  ctx : Context
  registry : Registry
  mainType : Ty
  statements : List Node
  members : List Member
  start : Emission
  done : Emission
  closed : Compilation
  isScript : program.script.kind = .script statements
  types : ctx.types = program.types
  registered : program.registered = .ok members
  table : ctx.members = program.members.declareAll members
  main : program.defineMain (Naming.scriptClass program.file) = .ok (registry, mainType)
  analyzed : ScopeTable.analyze (Naming.scriptClass program.file) program.script program.types
    registry = .ok (ctx.registry, ctx.scopes)
  starts : ∃ log, start = {
    unit := { file := program.file, logger := program.settings.logger "unit", log }
    current := program.settings.newClass mainType.internalName (some "java/lang/Object") []
      (Access.publicFlag ||| Access.superFlag)
    classType := mainType }
  emits : ctx.emitScript (ctx.within program.script) program.script statements start = .ok () done
  clean : done.unit.diagnostics = []
  closes : (done.unit.addMainClass done.current).addBindings program.settings done.unit.bindings =
    .ok closed
  classes : compiled.classes = closed.classes

theorem exists_trace (h : program.compile.1 = .ok compiled) :
    Nonempty (program.Trace compiled) := by
  unfold compile compileBy at h
  extract_lets logger className log at h
  split at h
  · rename_i statements hkind
    split at h
    · cases h
    · rename_i ctx mainType log' hprepare
      obtain ⟨registry, hmain, htypes, hanalyze, declared, hdeclared, htable⟩ :=
        exists_of_prepare (congrArg Prod.fst hprepare)
      extract_lets start at h
      split at h
      · rename_i done hdone
        unfold Compilation.finish at h
        split at h
        · cases h
        · rename_i hclean
          split at h
          · rename_i closed hclosed
            cases h
            refine ⟨{
              ctx, registry, mainType, statements, start, done, closed
              members := declared ++ [.constructor mainType []]
              isScript := hkind
              types := htypes
              registered := ?_
              table := htable
              main := hmain
              analyzed := hanalyze
              starts := ⟨log', rfl⟩
              emits := hdone
              clean := ?_
              closes := hclosed
              classes := rfl }⟩
            · rw [registered, hmain]
              show (program.types.membersOf mainType true program.script >>= _) = _
              rw [hdeclared]
              rfl
            · simpa [Compilation.hadError, Compilation.addMainClass, Compilation.note] using hclean
          · cases h
      · cases h
  · cases h

namespace Trace

variable (trace : program.Trace compiled)

/-- What holds of the script with the members it started from holds with those it
adds as well. -/
theorem fair (h : program.root.Everywhere program.types (K.Sound program.types program.members)) :
    K.Fair trace.ctx program.root.site program.root.node := by
  rw [Tally.Fair, trace.types, trace.table]
  exact h.imp fun _ ho => ho.mono
    (MemberTable.callLeavesCode_declareAll (exists_callable trace.registered))

theorem isOfClass (hlisted : ∀ m ∈ program.members.members, m.isOfClass = true) :
    ∀ m ∈ trace.ctx.members.members, m.isOfClass = true := by
  intro m hm
  rw [trace.table] at hm
  rcases MemberTable.mem_declareAll hm with hm | hm
  · exact hlisted m hm
  · obtain ⟨_, _, _, _, _, rfl⟩ := exists_callable trace.registered m hm
    rfl

/-- In the end, all that is planned has been made, and the bindings in use are
known. -/
theorem done_made (hlisted : ∀ m ∈ program.members.members, m.isOfClass = true)
    (h : program.root.Everywhere program.types (K.Sound program.types program.members)) :
    trace.done.current.name = Naming.scriptClass program.file ∧
      K.rel program.plan trace.done.entries ∧
      trace.done.unit.Binds trace.ctx.scopes.bindingTypes := by
  obtain ⟨log, hstart⟩ := trace.starts
  let site : Site := { Site.ofScript (Naming.scriptClass program.file) with isStatic := false }
  have hat : trace.start.At trace.ctx K site := by
    rw [hstart]
    refine ⟨internalName_of_defineMain trace.main, ?_, rfl, nofun, nofun, nofun, .nil⟩
    show Access.has (Access.publicFlag ||| Access.superFlag) Access.interfaceFlag = false
    decide
  have hscript : Emit.Gains trace.ctx K site
      (trace.ctx.planned program.root.site program.script) (trace.ctx.emitScript
        (trace.ctx.within program.script) program.script trace.statements) :=
    Context.gains_emitScript (Context.counts_recursion (trace.isOfClass hlisted) _) rfl rfl
      trace.isScript (trace.fair h)
  obtain ⟨hdone, hmade⟩ := hscript trace.emits hat
  have hrel := (hmade trace.clean).rel
  have hempty : trace.start.entries = 0 := by
    rw [hstart]
    rfl
  rw [hempty, zero_add, Context.planned, trace.types] at hrel
  exact ⟨hdone.name, hrel, hdone.binds⟩

theorem bindingNames_eq : program.bindingNames =
    .ok (trace.ctx.scopes.bindingTypes.map Ty.internalName) := by
  rw [bindingNames, trace.main]
  show (ScopeTable.analyze (Naming.scriptClass program.file) program.script program.types
    trace.registry >>= _) = _
  rw [trace.analyzed]
  rfl

theorem nodup_of_binds {c : Compilation} (h : c.Binds trace.ctx.scopes.bindingTypes) :
    (c.bindings.map (·.type.internalName)).Nodup := by
  have hname : c.bindings.map (·.type.internalName) =
      (c.bindings.map (·.type)).map Ty.internalName := by
    rw [List.map_map]
    rfl
  rw [hname, List.Nodup, List.pairwise_map]
  refine h.apart.imp_of_mem fun {t u} ht hu hapart heq => ?_
  obtain rfl := ScopeTable.eq_of_internalName_eq trace.isScript trace.analyzed
    (h.known t ht) (h.known u hu) heq
  simp [Ty.same] at hapart

end Trace

/-- A unit holds the classes that are planned for its script and, after them, one
class for each binding in use. -/
theorem made_of_compile (hlisted : ∀ m ∈ program.members.members, m.isOfClass = true)
    (hsound : program.root.Everywhere program.types (K.Sound program.types program.members))
    (h : program.compile.1 = .ok compiled) :
    ∃ names emitted made, program.bindingNames = .ok names ∧
      compiled.classes = emitted ++ made ∧
      K.rel ({.classFile (Naming.scriptClass program.file)} + program.plan)
        (classEntries emitted) ∧
      (made.map (·.name)).Nodup ∧
      ∀ c ∈ made, c.name ∈ names ∧ c.name ≠ Naming.scriptClass program.file ∧
        c.entries = {.method c.name "<init>" "()V" false} := by
  obtain ⟨trace⟩ := exists_trace h
  obtain ⟨hname, hrel, hbinds⟩ := trace.done_made hlisted hsound
  obtain ⟨made, hclasses, hnames, hentries⟩ := Compilation.addBindings_eq_ok trace.closes
  refine ⟨_, trace.done.current :: trace.done.unit.classes, made, trace.bindingNames_eq,
    trace.classes.trans hclasses, ?_, hnames ▸ trace.nodup_of_binds hbinds, fun c hc => ?_⟩
  · rw [classEntries_cons, hname, ← Multiset.singleton_add, add_assoc]
    exact K.add_left _ hrel
  · have hmem : c.name ∈ trace.done.unit.bindings.map (·.type.internalName) :=
      hnames ▸ List.mem_map_of_mem hc
    obtain ⟨layout, hlayout, hlname⟩ := List.mem_map.1 hmem
    have hknown := hbinds.known _ (List.mem_map_of_mem hlayout)
    refine ⟨hlname ▸ List.mem_map_of_mem hknown, hlname ▸ ?_, hentries c hc⟩
    exact ScopeTable.internalName_ne_scriptClass trace.isScript trace.analyzed hknown program.file

end Program

end ClassBackend
