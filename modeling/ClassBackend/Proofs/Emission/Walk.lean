import ClassBackend.Proofs.Emission.Action
import ClassBackend.Proofs.Emission.Breach
import ClassBackend.Proofs.Emission.Scopes
import ClassBackend.Proofs.Scope.Outline

/-!
# Walking through emission

Emission puts a few kinds of actions together in many ways, and hands the parts
of a node to its recursion. A property of whole emissions is shown for those
kinds only: a `Congruence` is a relation between actions that they respect, and
`Context.related_emitNode` and `Context.related_emitScript` walk through all the
ways once and for all. It relates the actions of two emissions, so that it also
says when two recursions give the same emission; a property of a single
emission is a relation that looks at one side.

A congruence is indexed by the *places* emission gets to: the jump scopes, the
frame and the class it is working on. Which nodes may be worked on at a place,
and which may be handed to the recursion there, is a part of the congruence, and
has to fit the ways in which emission gets from a node to its parts.

A congruence also says which faults it allows. It has to allow complaints. A
breach has to be allowed only at a place where it can happen: a place that is
`framed` is inside the frame of a method, and a `Context.Lapse` is any other way
in which things may have gone wrong.
-/

namespace ClassBackend

variable {fault : Fault}

/-! ## How a method body changes -/

/-- The second body comes from the first by the steps of assembling. -/
inductive Assembler.Evolves : Assembler → Assembler → Prop
  | refl (a : Assembler) : Evolves a a
  | emit {a b : Assembler} (i : Instruction) : Evolves a b → Evolves a (b.emit i)
  | label {a b : Assembler} : Evolves a b → Evolves a b.label.2
  | place {a b : Assembler} (l : Label) : Evolves a b → Evolves a (b.place l)
  | line {a b : Assembler} (n : Nat) : Evolves a b → Evolves a (b.line n)
  | visit {a b : Assembler} (node : Node) : Evolves a b → Evolves a (b.visit node)
  | allocate {a b : Assembler} (t : Ty) : Evolves a b → Evolves a (b.allocate t).2
  | named {a b : Assembler} (name : String) (t : Ty) :
    Evolves a b → Evolves a (b.namedLocal name t).2
  | protect {a b : Assembler} (region : Region) : Evolves a b → Evolves a (b.protect region)

theorem Assembler.Evolves.emitAll (is : List Instruction) (a : Assembler) :
    a.Evolves (a.emitAll is) := by
  have hmore : ∀ b, a.Evolves b → a.Evolves (b.emitAll is) := by
    induction is with
    | nil => exact fun _ h => h
    | cons i is ih => exact fun b h => ih (b.emit i) (h.emit i)
  exact hmore a (.refl a)

/-! ## Methods and rescue blocks in pieces -/

namespace Context

variable (ctx : Context)

inductive Shell : ClassFile → Prop
  | plain (name : String) (superclass : Option String) (interfaces : List String)
    (access : Access) : Shell (ctx.settings.newClass name superclass interfaces access)
  | closure {t : Ty} {interfaces : List String} {carried : Option Ty} {shell : ClassFile} :
    ctx.closureShell t interfaces carried = .ok shell → Shell shell

end Context

/-- How a jump is reported that has no target: what it looks for, the message, and
where it stands. -/
def Node.report? (node : Node) : Option (JumpTarget × String × Span) :=
  let report (jump : String) (target : JumpTarget) :=
    node.span.map fun span => (target, jump ++ " outside of " ++ target.describe, span)
  match node.kind with
  | .break => report "break" .loop
  | .next => report "next" .loop
  | .redo => report "redo" .loop
  | .return _ => report "return" .method
  | _ => none

def NodeKind.opensScope : NodeKind → Bool
  | .loop _ | .ensure _ _ => true
  | _ => false

/-- The ways in which emission of a node may meet with a broken invariant, given
which nodes it works on and which states it is in. -/
inductive Context.Lapse (ctx : Context) (works : Node → Prop) (sees : Emission → Prop) :
    Fault → Prop
  | unscopedLocal {node : Node} {name : String} : works node → node.localName? = some name →
    ctx.scopes.definingScope? node.id = none →
    Lapse ctx works sees (.internal ("local " ++ name ++ " was never scoped"))
  | unscopedClause {node main : Node} {clauses : List RescueClause} {elseClause : Option Node}
    {clause : RescueClause} {name : String} : works node →
    node.kind = .rescue main clauses elseClause → clause ∈ clauses → clause.name = some name →
    ctx.scopes.scopeFor? clause.id = none →
    Lapse ctx works sees (.internal "rescue clause was never scoped")
  | untypedVariable {node main : Node} {clauses : List RescueClause} {elseClause : Option Node}
    {clause : RescueClause} {name : String} {scope : ScopeId} : works node →
    node.kind = .rescue main clauses elseClause → clause ∈ clauses → clause.name = some name →
    ctx.scopes.scopeFor? clause.id = some scope →
    (ctx.scopes.scope? scope).bind (·.localType? name) = none →
    Lapse ctx works sees (.internal ("rescue variable " ++ name ++ " has no type"))
  | unstoredBinding {σ τ : Emission} {current later : Frame} {binding : Ty} : sees σ →
    σ.frame = some current → current.binding = some binding → sees τ → τ.frame = some later →
    later.bindingSlot = none → Lapse ctx works sees (.internal "binding was never stored")
  | badShell {t : Ty} {interfaces : List String} {carried : Option Ty} {fault : Fault} :
    ctx.closureShell t interfaces carried = .error fault → Lapse ctx works sees fault
  /-- These two are complaints unless the name of the type is an odd one. -/
  | notArray {node : Node} {t : Ty} : ctx.typeOf node = .ok t →
    Lapse ctx works sees (.internal (t.display ++ " is not an array type"))
  | noSuperclass {σ : Emission} : sees σ →
    Lapse ctx works sees (.internal (σ.classType.display ++ " has no superclass"))

/-- The classes that have been finished are the same, and so are the layouts of
bindings and what has been reported. -/
structure Compilation.SameClasses (c d : Compilation) : Prop where
  classes : d.classes = c.classes
  bindings : d.bindings = c.bindings
  diagnostics : d.diagnostics = c.diagnostics

/-- The class has the same methods, whatever else was added to it. -/
structure ClassFile.SameMethods (c d : ClassFile) : Prop where
  name : d.name = c.name
  access : d.access = c.access
  methods : d.methods = c.methods

/-! ## Relations between actions -/

/-- A relation between the actions of two emissions, at each place, that
sequences and single steps respect. Unless it says otherwise, anything may be seen and
all faults are allowed. -/
structure Stepwise (ctx : Context) (η : Type) where
  rel : η → ∀ {α : Type}, Emit α → Emit α → Prop
  sees : η → Emission → Prop := fun _ _ => True
  allows : Fault → Prop := fun _ => True
  framed : η → Prop := fun _ => True
  /-- The bindings whose fields may be used at a place. -/
  captures : η → Ty → Prop := fun _ _ => True
  allows_complaint : ∀ {fault : Fault}, fault.IsComplaint → allows fault := by
    intros; trivial
  allows_noMethod : ∀ {home σ}, framed home → sees home σ → σ.frame = none →
    allows (.internal "no method is being emitted") := by intros; trivial
  captures_frame : ∀ {home σ current binding}, sees home σ → σ.frame = some current →
    current.binding = some binding → captures home binding := by intros; trivial
  pure : ∀ {home α} (a : α), rel home (Pure.pure a) (Pure.pure a)
  throw : ∀ {home} {α : Type} {fault : Fault}, allows fault →
    rel home (MonadExcept.throw fault : Emit α) (MonadExcept.throw fault)
  bind : ∀ {home} {α β : Type} {x y : Emit α} {f g : α → Emit β}, rel home x y →
    (∀ a, rel home (f a) (g a)) → rel home (x >>= f) (y >>= g)
  get_bind : ∀ {home} {β : Type} {f g : Emission → Emit β},
    (∀ σ, sees home σ → rel home (f σ) (g σ)) →
    rel home (MonadState.get >>= f) (MonadState.get >>= g)
  assembling : ∀ {home} {α : Type} {step : Assembler → α × Assembler}, framed home →
    (∀ a : Assembler, a.Evolves (step a).2) →
    rel home (Emit.assembling step) (Emit.assembling step)
  sharing : ∀ {home} {α : Type} {step : Compilation → α × Compilation},
    (∀ unit : Compilation, unit.SameClasses (step unit).2) →
    rel home (Emit.sharing step) (Emit.sharing step)
  bindingField : ∀ {home binding} (name : String) (t : Ty), captures home binding →
    rel home (Emit.sharing (·.bindingField binding name t))
      (Emit.sharing (·.bindingField binding name t))
  modifyClass : ∀ {home} {change : ClassFile → ClassFile},
    (∀ c : ClassFile, c.SameMethods (change c)) →
    rel home (Emit.modifyClass change) (Emit.modifyClass change)

/-- The place is inside the frame of a method. -/
class Stepwise.Framed {ctx : Context} {η : Type} (S : Stepwise ctx η) (home : η) : Prop where
  framed : S.framed home

/-- A relation that all the ways of putting actions together respect. -/
structure Congruence (ctx : Context) (η : Type) extends Stepwise ctx η where
  /-- The nodes that may be handed to the recursion at a place. -/
  fits : η → Node → Prop := fun _ _ => True
  /-- The nodes that may be worked on at a place. -/
  works : η → Node → Prop := fun _ _ => True
  /-- The jumps that may be reported at a place. -/
  reports : η → Node → Prop := fun _ _ => True
  inside : η → JumpScope → η
  /-- The place with only the jump scopes outside a depth open. -/
  outside : η → Nat → η
  /-- The place inside the frame of a method with a scope. -/
  frameOf : η → Option ScopeId → η
  classOf : BindingStrategy → η
  admits : Recursion → Prop := fun _ => True
  closes : JumpScope → Option JumpScope → Prop := fun _ _ => True
  allows_lapse : ∀ home {fault}, ctx.Lapse (works home) (sees home) fault → allows fault := by
    intros; trivial
  allows_scopeOrder : ∀ {clause left}, closes (.ensure clause []) left →
    (∀ gaps, left ≠ some (.ensure clause gaps)) →
    allows (.internal "jump scopes out of order") := by intros; trivial
  framed_inside : ∀ {home scope}, framed home → framed (inside home scope) := by intros; trivial
  framed_outside : ∀ {home depth}, framed home → framed (outside home depth) := by intros; trivial
  framed_frameOf : ∀ {home scope}, framed (frameOf home scope) := by intros; trivial
  marking : ∀ {home} {change : Assembler → Assembler}, (∀ a : Assembler, a.Evolves (change a)) →
    rel home (Emit.marking change) (Emit.marking change)
  report : ∀ {home node target message span}, reports home node →
    node.report? = some (target, message, span) →
    rel home (Emit.sharing fun unit => ((), unit.report message span))
      (Emit.sharing fun unit => ((), unit.report message span))
  recordGap : ∀ {home} (depth : Nat) (gap : Label × Label),
    rel home
      (modify fun state => { state with jumps := state.jumps.recordGap depth gap } : Emit Unit)
      (modify fun state => { state with jumps := state.jumps.recordGap depth gap })
  openScope : ∀ {home} {scope : JumpScope} {x y : Emit Unit} {f g : Option JumpScope → Emit Unit},
    (∀ clause gaps, scope = .ensure clause gaps → fits home clause) →
    rel (inside home scope) x y → (∀ left, closes scope left → rel home (f left) (g left)) →
    rel home (Emit.openScope scope x >>= f) (Emit.openScope scope y >>= g)
  detached : ∀ {home} {depth : Nat} {x y : Emit Unit}, rel (outside home depth) x y →
    rel home (Emit.detached depth x) (Emit.detached depth y)
  method : ∀ {home} {recur other : Recursion} {spec : MethodSpec}, admits recur →
    rel (frameOf home spec.scope) (ctx.emitInside recur spec) (ctx.emitInside other spec) →
    rel home (ctx.emitMethod recur spec) (ctx.emitMethod other spec)
  nested : ∀ {home} {fresh : ClassFile} {classType : Ty} {strategy : BindingStrategy}
    {x y : Emit Unit}, ctx.Shell fresh → (∃ node, ctx.typeOf node = .ok classType) →
    rel (classOf strategy) x y →
    rel home (Emit.inClass fresh classType strategy x >>= Emit.addClass)
      (Emit.inClass fresh classType strategy y >>= Emit.addClass)
  -- from nodes to their parts
  works_of_fits : ∀ {home node}, fits home node → works home node := by intros; trivial
  fits_clause : ∀ {home node σ target pending depth clause}, works home node → sees home σ →
    σ.jumps.findEnsures? target = some pending → (depth, clause) ∈ pending.ensures →
    fits (outside home depth) clause := by intros; trivial
  fits_part : ∀ {home node part}, works home node → node.kind.isPlain = true →
    node.kind.opensScope = false → part ∈ node.children → fits home part := by intros; trivial
  fits_loop : ∀ {home node parts labels part}, works home node → node.kind = .loop parts →
    part ∈ node.children → fits (inside home (.loop labels)) part := by intros; trivial
  fits_ensure : ∀ {home node main clause}, works home node → node.kind = .ensure main clause →
    fits (inside home (.ensure clause [])) main ∧ fits home clause := by
    intros; exact ⟨trivial, trivial⟩
  fits_method : ∀ {home node definition part}, works home node →
    node.kind = .methodDef definition → part ∈ node.children →
    fits (frameOf home (ctx.scopes.scopeFor? node.id)) part := by intros; trivial
  fits_constructor : ∀ {home node definition part}, works home node →
    node.kind = .constructorDef definition → part ∈ node.children →
    fits (frameOf home (ctx.scopes.scopeFor? node.id)) part := by intros; trivial
  fits_member : ∀ {home node definition member}, works home node →
    node.kind = .classDef definition → member ∈ definition.body →
    member.kind.isInitializer = false → fits (classOf .construct) member := by intros; trivial
  fits_initializer : ∀ {home node definition member}, works home node →
    node.kind = .classDef definition → member ∈ definition.body →
    member.kind.isInitializer = true →
    fits (frameOf (classOf .construct) (ctx.scopes.scopeFor? node.id)) member := by intros; trivial
  fits_closure : ∀ {home node definition σ current method inner part}, works home node →
    node.kind = .closureDef definition → sees home σ → σ.frame = some current →
    method ∈ definition.methods → method.kind = .methodDef inner →
    part ∈ Argument.defaults inner.args ++ inner.body.toList →
    fits (frameOf (classOf (.fromReceiver current.binding))
      (ctx.scopes.scopeFor? method.id)) part := by
    intros; trivial

section

variable {ctx : Context} {η : Type} {α β : Type}

def Emit.Related (S : Stepwise ctx η) (home : η) (x y : Emit α) : Prop := S.rel home x y

abbrev Stepwise.Holds (S : Stepwise ctx η) (home : η) (x : Emit α) : Prop :=
  Emit.Related S home x x

namespace Emit.Related

variable {S : Stepwise ctx η} {home : η} {x y : Emit α}

theorem pure (a : α) : S.Holds home (Pure.pure a) := S.pure a

theorem throw_of_allows (h : S.allows fault) :
    S.Holds home (MonadExcept.throw fault : Emit α) := S.throw h

theorem throw (fault : Fault) [h : fault.IsComplaint] :
    S.Holds home (MonadExcept.throw fault : Emit α) :=
  throw_of_allows (S.allows_complaint h)

variable {f g : α → Emit β}

theorem bind (hx : Related S home x y) (hf : ∀ a, Related S home (f a) (g a)) :
    Related S home (x >>= f) (y >>= g) := S.bind hx hf

theorem map (f : α → β) (hx : Related S home x y) : Related S home (f <$> x) (f <$> y) := by
  rw [map_eq_pure_bind, map_eq_pure_bind]
  exact bind hx fun _ => pure _

theorem ite {c : Prop} [Decidable c] {x' y' : Emit α} (hx : Related S home x y)
    (hy : Related S home x' y') : Related S home (if c then x else x') (if c then y else y') := by
  split
  · exact hx
  · exact hy

theorem forM {f g : β → Emit PUnit} {bs : List β} (h : ∀ b ∈ bs, Related S home (f b) (g b)) :
    Related S home (bs.forM f) (bs.forM g) := by
  induction bs with
  | nil => exact pure _
  | cons b bs ih =>
    obtain ⟨hb, hbs⟩ := List.forall_mem_cons.1 h
    exact bind hb fun _ => ih hbs

theorem optionForM {f g : β → Emit PUnit} {b : Option β}
    (h : ∀ value ∈ b, Related S home (f value) (g value)) :
    Related S home (b.forM f) (b.forM g) := by
  cases b with
  | none => exact pure _
  | some b => exact h b rfl

/-! ## Reading -/

theorem get_bind {f g : Emission → Emit β} (h : ∀ σ, S.sees home σ → Related S home (f σ) (g σ)) :
    Related S home (MonadState.get >>= f) (MonadState.get >>= g) := S.get_bind h

theorem get : Related S home (MonadState.get : Emit Emission) MonadState.get := by
  have h : S.Holds home (MonadState.get >>= Pure.pure) :=
    get_bind fun _ _ => pure _
  rwa [bind_pure] at h

theorem ofExcept_bind_of_allows {x : Except Fault α}
    (hfault : ∀ fault, x = .error fault → S.allows fault)
    (h : ∀ a, x = .ok a → Related S home (f a) (g a)) :
    Related S home (Emit.ofExcept x >>= f) (Emit.ofExcept x >>= g) := by
  cases x with
  | ok a => exact h a rfl
  | error fault => exact throw_of_allows (hfault fault rfl)

theorem ofExcept_bind {x : Except Fault α} [Complains x]
    (h : ∀ a, x = .ok a → Related S home (f a) (g a)) :
    Related S home (Emit.ofExcept x >>= f) (Emit.ofExcept x >>= g) :=
  ofExcept_bind_of_allows (fun _ hfault => S.allows_complaint (Complains.isComplaint hfault)) h

theorem ofExcept (x : Except Fault α) [Complains x] : S.Holds home (Emit.ofExcept x) := by
  have h : S.Holds home (Emit.ofExcept x >>= Pure.pure) :=
    ofExcept_bind fun _ _ => pure _
  rwa [bind_pure] at h

theorem orFault_bind_of_allows {x : Option α} (hfault : x = none → S.allows fault)
    (h : ∀ a, x = some a → Related S home (f a) (g a)) :
    Related S home (Emit.orFault x fault >>= f) (Emit.orFault x fault >>= g) := by
  cases x with
  | some a => exact h a rfl
  | none => exact throw_of_allows (hfault rfl)

theorem orFault_bind {x : Option α} [hfault : fault.IsComplaint]
    (h : ∀ a, x = some a → Related S home (f a) (g a)) :
    Related S home (Emit.orFault x fault >>= f) (Emit.orFault x fault >>= g) :=
  orFault_bind_of_allows (fun _ => S.allows_complaint hfault) h

theorem orFault (x : Option α) (fault : Fault) [fault.IsComplaint] :
    S.Holds home (Emit.orFault x fault) := by
  have h : S.Holds home (Emit.orFault x fault >>= Pure.pure) := orFault_bind fun _ _ => pure _
  rwa [bind_pure] at h

/-! ## Changes of the state -/

theorem sharing {step : Compilation → α × Compilation}
    (h : ∀ unit : Compilation, unit.SameClasses (step unit).2) :
    S.Holds home (Emit.sharing step) := S.sharing h

theorem note (level : Level) (message : String) : S.Holds home (ctx.note level message) :=
  sharing fun _ => ⟨rfl, rfl, rfl⟩

theorem nodeType (node : Node) : S.Holds home (ctx.nodeType node) :=
  ofExcept _

theorem modifyClass {change : ClassFile → ClassFile}
    (h : ∀ c : ClassFile, c.SameMethods (change c)) :
    S.Holds home (Emit.modifyClass change) := S.modifyClass h

theorem addInnerClass (name : String) : S.Holds home (Emit.modifyClass (·.addInnerClass name)) := by
  refine modifyClass fun c => ?_
  unfold ClassFile.addInnerClass
  split <;> exact ⟨rfl, rfl, rfl⟩

/-! ## The frame -/

section

variable [hframed : S.Framed home]

theorem frame_bind {f g : Frame → Emit β}
    (h : ∀ σ current, S.sees home σ → σ.frame = some current →
      Related S home (f current) (g current)) :
    Related S home (Emit.frame >>= f) (Emit.frame >>= g) :=
  get_bind fun σ hσ => orFault_bind_of_allows (S.allows_noMethod hframed.framed hσ)
    fun current hcurrent => h σ current hσ hcurrent

theorem frame : S.Holds home Emit.frame := by
  have h : S.Holds home (Emit.frame >>= Pure.pure) :=
    frame_bind fun _ _ _ _ => pure _
  rwa [bind_pure] at h

/-! ## Instructions, labels and slots -/

theorem assembling {step : Assembler → α × Assembler} (h : ∀ a : Assembler, a.Evolves (step a).2) :
    S.Holds home (Emit.assembling step) :=
  S.assembling hframed.framed h

theorem assemble {change : Assembler → Assembler} (h : ∀ a : Assembler, a.Evolves (change a)) :
    S.Holds home (Emit.assemble change) := assembling h

theorem instruction (i : Instruction) :
    S.Holds home (Emit.instruction i) := assemble fun a => .emit i (.refl a)

theorem code (is : List Instruction) : S.Holds home (Emit.code is) :=
  assemble fun a => .emitAll is a

theorem codeOf (x : Except Fault (List Instruction)) [Complains x] : S.Holds home (Emit.codeOf x) :=
  bind frame fun _ => bind (ofExcept _) fun _ => code _

theorem push (want : Bool) (i : Instruction) :
    S.Holds home (Emit.push want i) := ite (instruction i) (pure _)

theorem label : S.Holds home Emit.label := assembling fun a => .label (.refl a)

variable (l : Label)

theorem place : S.Holds home (Emit.place l) :=
  assemble fun a => .place l (.refl a)

theorem goto : S.Holds home (Emit.goto l) := instruction _

theorem looking (look : Assembler → α) :
    S.Holds home (Emit.assembling fun body => (look body, body)) := assembling fun a => .refl a

theorem reachable : S.Holds home Emit.reachable := looking _

theorem gotoIfReachable : S.Holds home (Emit.gotoIfReachable l) :=
  bind reachable fun _ => ite (goto l) (pure _)

theorem temporary (t : Ty) : S.Holds home (Emit.temporary t) :=
  assembling fun a => .allocate t (.refl a)

theorem namedLocal (name : String) (t : Ty) : S.Holds home (Emit.namedLocal name t) :=
  assembling fun a => .named name t (.refl a)

theorem protect (region : Region) : S.Holds home (Emit.assemble (·.protect region)) :=
  assemble fun a => .protect region (.refl a)

end

end Emit.Related

end

abbrev Congruence.Related {ctx : Context} {η : Type} (C : Congruence ctx η) (home : η) {α : Type}
    (x y : Emit α) : Prop := Emit.Related C.toStepwise home x y

/-- The congruence relates what is done with the one recursion to what is done with
the other. -/
abbrev Congruence.Lifts {ctx : Context} {η : Type} (C : Congruence ctx η) (home : η)
    (recur other : Recursion) {α : Type} (action : Recursion → Emit α) : Prop :=
  C.Related home (action recur) (action other)

section

variable {ctx : Context} {η : Type} {C : Congruence ctx η} {home : η}

instance (scope : JumpScope) [h : C.Framed home] : C.Framed (C.inside home scope) :=
  ⟨C.framed_inside h.framed⟩

instance (depth : Nat) [h : C.Framed home] : C.Framed (C.outside home depth) :=
  ⟨C.framed_outside h.framed⟩

instance (scope : Option ScopeId) : C.Framed (C.frameOf home scope) := ⟨C.framed_frameOf⟩

theorem Congruence.fits_parts {node : Node} {kind : NodeKind} (hnode : C.works home node)
    (hkind : node.kind = kind) (hplain : kind.isPlain = true) (hscope : kind.opensScope = false) :
    ∀ part ∈ Node.children { node with kind }, C.fits home part := by
  subst hkind
  exact fun part hpart => C.fits_part hnode hplain hscope hpart

theorem Congruence.related_markLine (C : Congruence ctx η) (node : Node) :
    C.Related home (ctx.markLine node) (ctx.markLine node) := by
  unfold Context.markLine
  split
  · exact C.marking fun a => .line _ (.refl a)
  · exact .pure _

theorem Congruence.related_enter (C : Congruence ctx η) (node : Node) :
    C.Related home (ctx.enter node) (ctx.enter node) :=
  .bind (C.marking fun a => .visit node (.refl a)) fun _ => C.related_markLine node

theorem Congruence.related_openScope {scope : JumpScope} {x y : Emit Unit}
    {f g : Option JumpScope → Emit Unit}
    (hscope : ∀ clause gaps, scope = .ensure clause gaps → C.fits home clause)
    (h : C.Related (C.inside home scope) x y)
    (hf : ∀ left, C.closes scope left → C.Related home (f left) (g left)) :
    C.Related home (Emit.openScope scope x >>= f) (Emit.openScope scope y >>= g) :=
  C.openScope hscope h hf

end

namespace Compilation

variable (c : Compilation) (binding : Ty)

@[simp] theorem classes_declareBinding : (c.declareBinding binding).classes = c.classes := by
  unfold declareBinding
  split <;> rfl

@[simp] theorem classes_bindingField (name : String) (t : Ty) :
    (c.bindingField binding name t).2.classes = c.classes := by
  simp only [bindingField]
  split
  · exact c.classes_declareBinding binding
  · exact c.classes_declareBinding binding

@[simp] theorem diagnostics_declareBinding :
    (c.declareBinding binding).diagnostics = c.diagnostics := by
  unfold declareBinding
  split <;> rfl

@[simp] theorem diagnostics_bindingField (name : String) (t : Ty) :
    (c.bindingField binding name t).2.diagnostics = c.diagnostics := by
  simp only [bindingField]
  split
  · exact c.diagnostics_declareBinding binding
  · exact c.diagnostics_declareBinding binding

theorem sameClasses_declareField (className name : String) (t : Ty) :
    c.SameClasses (c.declareField className name t).2.2 := by
  unfold declareField
  split <;> exact ⟨rfl, rfl, rfl⟩

end Compilation

/-- The congruence relates what the two recursions do to the nodes that fit. Where
there is no frame, only classes are emitted. -/
structure Recursion.Related {ctx : Context} {η : Type} (C : Congruence ctx η)
    (recur other : Recursion) : Prop where
  admits : C.admits recur
  emit : ∀ {home node} [C.Framed home] want, C.fits home node →
    C.Lifts home recur other (·.emit node want)
  branch : ∀ {home node} [C.Framed home] target when, C.fits home node →
    C.Lifts home recur other (·.branch node target when)
  nested : ∀ {home node definition}, C.fits home node → node.kind = .classDef definition →
    C.Lifts home recur other (·.emit node false)

def CallSite.parts (site : CallSite) : List Node := site.target.toList ++ site.args

def MethodSpec.parts (spec : MethodSpec) : List Node :=
  (match spec.prologue with
    | .delegate delegation => delegation.args
    | _ => []) ++
  match spec.body with
  | .node body => body.toList
  | .statements nodes => nodes
  | .forward default _ _ _ => [default]

namespace Context

open Emit

variable {node : Node} {spec : MethodSpec} {definition : ClassDef}

variable {ctx : Context} {η : Type} {S : Stepwise ctx η} {C : Congruence ctx η} {home : η}
  {recur other : Recursion}

theorem related_captureField {binding : Ty} (hbinding : S.captures home binding) (name : String)
    (t : Ty) : S.Holds home (Emit.captureField binding name t) := by
  have hfield : S.Holds home (Emit.sharing (·.bindingField binding name t)) :=
    S.bindingField name t hbinding
  exact .bind hfield fun _ => .pure _

variable (name : String)

theorem related_fieldOf (t : Ty) : S.Holds home (Emit.fieldOf name t) := .bind .get fun _ => .pure _

theorem related_selfType : S.Holds home Emit.selfType := .bind .get fun _ => .pure _

theorem related_declareField (t : Ty) (shape : Ty → Except Fault FieldInfo)
    [∀ declared, Complains (shape declared)] : S.Holds home (ctx.declareField name t shape) :=
  .bind .get fun state =>
    .bind (.sharing fun unit => unit.sameClasses_declareField state.current.name name t)
    fun _ => .bind .get fun _ => .ite (.bind (.ofExcept _) fun _ => .bind (.note ..) fun _ =>
      .bind (.modifyClass fun _ => ⟨rfl, rfl, rfl⟩) fun _ => .pure _) (.pure _)

theorem related_declareUsedField (t : Ty) (isStatic : Bool) (notes : List Note) :
    S.Holds home (ctx.declareUsedField name t isStatic notes) := related_declareField ..

theorem related_emitFieldDef (node : Node) (definition : FieldDef) :
    S.Holds home (ctx.emitFieldDef node definition) := by
  refine .bind (.nodeType _) fun _ => .bind ?_ fun _ => .pure _
  cases hconstant : definition.constant with
  | none | some =>
    simp only
    exact related_declareField ..

/-! ## Values, locals and fields -/

section Framed

variable {name : String} {clauses : List RescueClause} {elseClause : Option Node} {value : Node}
  {args : List Node}

variable [S.Framed home] [C.Framed home]

theorem related_pushSelf : S.Holds home Emit.pushSelf :=
  .bind .get fun _ => .ite (.code _) (.instruction _)

theorem related_convert (source target : Ty) : S.Holds home (ctx.convert source target) :=
  .ite (.pure _) (.codeOf _)

/-- The binding that is pushed is the one of a frame that may be seen at the
place. -/
theorem related_pushBinding_bind {β : Type} {f g : Ty → Emit β}
    (h : ∀ binding, S.captures home binding → Related S home (f binding) (g binding)) :
    Related S home (Emit.pushBinding >>= f) (Emit.pushBinding >>= g) := by
  unfold Emit.pushBinding
  simp only [bind_assoc]
  refine .frame_bind fun σ current hσ hcurrent => ?_
  split
  · rename_i binding slot hbinding hslot
    simp only [bind_assoc, pure_bind]
    exact .bind (.instruction _) fun _ => h binding (S.captures_frame hσ hcurrent hbinding)
  · show S.Holds home (MonadExcept.throw _ : Emit β)
    exact .throw _

theorem related_pushBinding : S.Holds home Emit.pushBinding := by
  have h : S.Holds home (Emit.pushBinding >>= Pure.pure) :=
    related_pushBinding_bind fun _ _ => .pure _
  rwa [bind_pure] at h

omit [C.Framed home] in
/-- What is known about a local is found unless it was never scoped. -/
theorem allows_of_localInfo (hnode : C.works home node) (hname : node.localName? = some name)
    (h : ctx.localInfo node name = .error fault) : C.allows fault := by
  unfold localInfo at h
  split at h
  · rename_i hscope
    cases h
    exact C.allows_lapse home (.unscopedLocal hnode hname hscope)
  · split at h
    · exact C.allows_complaint (Complains.isComplaint h)
    · exact C.allows_complaint (Complains.isComplaint h)

theorem related_emitLocalAccess (hnode : C.works home node) (hname : node.localName? = some name)
    (want : Bool) : C.Holds home (ctx.emitLocalAccess node name want) :=
  .ite (.ofExcept_bind_of_allows (fun _ => allows_of_localInfo hnode hname) fun _ _ => .ite
    (related_pushBinding_bind fun _ hbinding => .bind (related_captureField hbinding ..) fun _ =>
      .instruction _)
    (.bind (.namedLocal ..) fun _ => .codeOf _)) (.pure _)

/-- What `bindException` does first for a clause with a variable. -/
abbrev findVariable (ctx : Context) (clause : RescueClause) (name : String)
    (f : ScopeId → Ty → Emit Unit) : Emit Unit := do
  let scope ← Emit.orFault (ctx.scopes.scopeFor? clause.id)
    (.internal "rescue clause was never scoped")
  let t ← Emit.orFault ((ctx.scopes.scope? scope).bind (·.localType? name))
    (.internal ("rescue variable " ++ name ++ " has no type"))
  f scope t

omit [C.Framed home] in
/-- The variable of a clause has a scope and a type unless something went
wrong. -/
theorem related_findVariable {main : Node} {clause : RescueClause} (hnode : C.works home node)
    (hkind : node.kind = .rescue main clauses elseClause) (hclause : clause ∈ clauses)
    (hname : clause.name = some name) {f g : ScopeId → Ty → Emit Unit}
    (h : ∀ scope t, ctx.scopes.scopeFor? clause.id = some scope →
      (ctx.scopes.scope? scope).bind (·.localType? name) = some t →
        C.Related home (f scope t) (g scope t)) :
    C.Related home (ctx.findVariable clause name f) (ctx.findVariable clause name g) :=
  .orFault_bind_of_allows
    (fun hscope => C.allows_lapse home (.unscopedClause hnode hkind hclause hname hscope))
    fun scope hscope => .orFault_bind_of_allows
      (fun htype => C.allows_lapse home (.untypedVariable hnode hkind hclause hname hscope htype))
      fun t htype => h scope t hscope htype

theorem related_bindException {main : Node} {clause : RescueClause} (hnode : C.works home node)
    (hkind : node.kind = .rescue main clauses elseClause) (hclause : clause ∈ clauses) :
    C.Holds home (ctx.bindException clause) := by
  unfold bindException
  split
  · exact .instruction _
  · rename_i name hname
    exact related_findVariable hnode hkind hclause hname fun scope t _ _ => .ite
      (related_pushBinding_bind fun _ hbinding => .bind (related_captureField hbinding ..)
        fun _ => .code _)
      (.bind (.namedLocal ..) fun _ => .codeOf _)

theorem related_emitFieldAccess (node : Node) (name : String) (isStatic want : Bool) :
    S.Holds home (ctx.emitFieldAccess node name isStatic want) :=
  .bind .get fun _ => .bind (.nodeType _) fun _ => .bind (related_declareUsedField ..) fun _ =>
    .ite (.bind (related_fieldOf ..) fun _ => .ite (.instruction _)
      (.bind related_pushSelf fun _ => .instruction _)) (.pure _)

theorem related_initLocals (spec : MethodSpec) : S.Holds home (ctx.initLocals spec) := by
  refine .bind .frame fun current => ?_
  split
  · exact .pure _
  · split
    · exact .pure _
    · exact .forM fun _ _ => .ite (.bind (.namedLocal ..) fun _ => .bind (.code _) fun _ =>
        .codeOf _) (.pure _)

theorem related_captureParams (spec : MethodSpec) {binding : Ty}
    (hbinding : S.captures home binding) (slot : UInt16) :
    S.Holds home (ctx.captureParams spec binding slot) := by
  refine .bind .frame fun current => ?_
  split
  · exact .pure _
  · exact .forM fun _ _ => .ite (.bind (related_captureField hbinding ..) fun _ =>
      .bind (.namedLocal ..) fun _ => .bind (.instruction _) fun _ => .bind (.codeOf _) fun _ =>
      .instruction _) (.pure _)

omit [C.Framed home] in
/-- The locals and the binding of a frame are prepared by single steps, by
declaring the binding, and by replacing the frame by one with the same binding or
with none. -/
theorem related_prepare (spec : MethodSpec)
    (hset : ∀ {σ current frame}, S.sees home σ → σ.frame = some current →
      frame.binding = current.binding ∨ frame.binding = none → S.Holds home (Emit.setFrame frame))
    (hdeclare : ∀ {binding}, S.captures home binding →
      S.Holds home (Emit.sharing fun unit => ((), unit.declareBinding binding))) :
    S.Holds home (do ctx.initLocals spec; ctx.prepareBinding spec) := by
  refine .bind (related_initLocals spec) fun _ => .frame_bind fun σ current hσ hcurrent => ?_
  split
  · exact .pure _
  · rename_i binding hsome
    have hbinding : S.captures home binding := S.captures_frame hσ hcurrent hsome
    have hstore : S.Holds home (ctx.storeBinding spec binding) :=
      .bind (.temporary _) fun slot => .bind (.instruction _) fun _ =>
        .frame_bind fun _ _ hσ hcurrent => .bind (hset hσ hcurrent (.inl rfl)) fun _ =>
        related_captureParams spec hbinding slot
    refine .bind .get fun _ => ?_
    split
    · exact .bind (hdeclare hbinding) fun _ => .bind (.addInnerClass _) fun _ =>
        .bind (.code _) fun _ => hstore
    · exact .bind (.code _) fun _ => hstore
    · exact .bind (.note ..) fun _ => hset hσ hcurrent (.inr rfl)

variable (hrecur : recur.Related C other)
include hrecur

theorem related_emitAs (hnode : C.fits home node) (target : Ty) :
    C.Lifts home recur other (ctx.emitAs · node target) :=
  .bind (.nodeType _) fun _ => .bind (hrecur.emit _ hnode) fun _ => .bind .reachable fun _ =>
    .ite (related_convert ..) (.pure _)

theorem related_emitCast (node : Node) (hvalue : C.fits home value) (want : Bool) :
    C.Lifts home recur other (ctx.emitCast · node value want) :=
  .bind (.nodeType _) fun _ => .bind (.nodeType _) fun _ => .bind (.ofExcept _) fun _ =>
    .bind (hrecur.emit _ hvalue) fun _ => .bind (.code _) fun _ => .ite (.code _) (.pure _)

theorem related_emitLocalAssign (hnode : C.works home node) (hname : node.localName? = some name)
    (hvalue : C.fits home value) (want : Bool) :
    C.Lifts home recur other (ctx.emitLocalAssign · node name value want) :=
  .ofExcept_bind_of_allows (fun _ => allows_of_localInfo hnode hname) fun _ _ => .ite
    (related_pushBinding_bind fun _ hbinding => .bind (related_captureField hbinding ..)
      fun _ => .bind (related_emitAs hrecur hvalue _) fun _ => .code _)
    (.bind (.namedLocal ..) fun _ => .bind (related_emitAs hrecur hvalue _) fun _ =>
      .ite (.bind (.code _) fun _ => .codeOf _) (.codeOf _))

theorem related_emitFieldAssign (name : String) (hvalue : C.fits home value) (isStatic : Bool)
    (notes : List Note) (want : Bool) :
    C.Lifts home recur other (ctx.emitFieldAssign · name value isStatic notes want) :=
  .bind .get fun _ => .bind (.nodeType _) fun _ => .bind (related_declareUsedField ..) fun _ =>
    .bind (related_fieldOf ..) fun _ => .ite
      (.bind (related_emitAs hrecur hvalue _) fun _ => .code _)
      (.bind related_pushSelf fun _ => .bind (related_emitAs hrecur hvalue _) fun _ => .code _)

/-! ## Calls -/

omit hrecur in
theorem related_materialize {jump jump' : Label → Emit Unit}
    (h : ∀ l, C.Related home (jump l) (jump' l)) :
    C.Related home (Emit.materialize jump) (Emit.materialize jump') :=
  .bind .label fun falsy => .bind .label fun _ => .bind (h falsy) fun _ =>
    .bind (.instruction _) fun _ => .bind (.goto _) fun _ => .bind (.place _) fun _ =>
    .bind (.instruction _) fun _ => .place _

omit hrecur [C.Framed home] in
theorem CallSite.fits_receiver {site : CallSite} (hsite : ∀ part ∈ site.parts, C.fits home part)
    (h : site.receiver = .ok node) : C.fits home node := by
  unfold CallSite.receiver at h
  cases htarget : site.target with
  | none => simp [htarget] at h
  | some target =>
    simp only [htarget, Except.ok.injEq] at h
    exact hsite node (by simp [CallSite.parts, htarget, h])

omit hrecur [C.Framed home] in
theorem CallSite.fits_operand {site : CallSite} (hsite : ∀ part ∈ site.parts, C.fits home part)
    (h : site.operand = .ok node) : C.fits home node := by
  unfold CallSite.operand at h
  cases hargs : site.args with
  | nil => simp [hargs] at h
  | cons arg args =>
    simp only [hargs, Except.ok.injEq] at h
    exact hsite node (by simp [CallSite.parts, hargs, h])

variable {site : CallSite} (hsite : ∀ part ∈ site.parts, C.fits home part)
include hsite

theorem related_emitReceiver (want : Bool) :
    C.Lifts home recur other (ctx.emitReceiver · site want) := by
  unfold emitReceiver
  split
  · rename_i node htarget
    exact .bind (.nodeType _) fun _ =>
      hrecur.emit _ (hsite node (by simp [CallSite.parts, htarget]))
  · exact .ite related_pushSelf (.pure _)

theorem related_emitArgs (params : List Ty) :
    C.Lifts home recur other (ctx.emitArgs · site.args params) :=
  .forM fun _ hentry =>
    related_emitAs hrecur (hsite _ (List.mem_append_right _ (List.of_mem_zip hentry).1)) _

theorem related_jumpOnMember (m : Member) (target : Label) (when : Bool) :
    C.Lifts home recur other (ctx.jumpOnMember · m site target when) := by
  have htest : ∀ i j, C.Related home (do
      ctx.emitReceiver recur site true
      Emit.instruction i
      Emit.instruction j) (do
      ctx.emitReceiver other site true
      Emit.instruction i
      Emit.instruction j) := fun _ _ =>
    .bind (related_emitReceiver hrecur hsite _) fun _ => .bind (.instruction _) fun _ =>
      .instruction _
  unfold jumpOnMember
  split
  · exact .ofExcept_bind fun _ hleft => .ofExcept_bind fun _ hright =>
      .bind (related_emitAs hrecur (CallSite.fits_receiver hsite hleft) _) fun _ =>
      .bind (related_emitAs hrecur (CallSite.fits_operand hsite hright) _) fun _ => .codeOf _
  · exact .ofExcept_bind fun _ hleft => hrecur.branch _ _ (CallSite.fits_receiver hsite hleft)
  · exact htest _ _
  · exact htest _ _
  · exact .throw _

theorem related_emitIndex (params : List Ty) :
    C.Lifts home recur other (ctx.emitIndex · site params) := by
  unfold emitIndex
  split
  · rename_i index _ _ _ hargs
    exact related_emitAs hrecur (hsite index (by simp [CallSite.parts, hargs])) _
  · exact .throw _

theorem related_emitJoin (component : Ty) :
    C.Lifts home recur other (ctx.emitJoin · site component) := by
  refine .bind (related_emitReceiver hrecur hsite _) fun _ => .bind (.temporary _) fun _ =>
    .bind (.instruction _) fun _ => ?_
  extract_lets loop
  have hloop : ∀ separator, C.Holds home (loop separator) := by
    intro separator
    refine .bind (.temporary _) fun _ => .bind (.temporary _) fun _ => .bind (.code _) fun _ =>
      .bind .label fun _ => .bind .label fun _ => .bind (.place _) fun _ =>
      .bind (.code _) fun _ => ?_
    extract_lets append
    have happend : C.Holds home (append ()) :=
      .bind (.code _) fun _ => .bind (.goto _) fun _ => .bind (.place _) fun _ => .code _
    split
    · exact .bind .label fun _ => .bind (.code _) fun _ => .bind (.place _) fun _ => happend
    · exact happend
  split
  · exact .bind (.pure _) fun _ => hloop _
  · rename_i given _ hargs
    exact .bind (related_emitAs hrecur (hsite given (by simp [CallSite.parts, hargs])) _) fun _ =>
      .bind (.temporary _) fun _ => .bind (.instruction _) fun _ => .bind (.pure _) fun _ =>
      hloop _

theorem related_callArray (op : ArrayOp) (component : Ty) (params : List Ty) (result : Ty)
    (want : Bool) {jump jump' : Label → Emit Unit}
    (hjump : ∀ l, C.Related home (jump l) (jump' l)) :
    C.Related home (ctx.callArray recur op component params result site want jump)
      (ctx.callArray other op component params result site want jump') := by
  have hfinish : C.Holds home (if want then pure () else Emit.code result.popCode) :=
    .ite (.pure _) (.code _)
  have hreceiver : C.Lifts home recur other (ctx.emitReceiver · site true) :=
    related_emitReceiver hrecur hsite true
  cases op with
  | get =>
    exact .bind hreceiver fun _ => .bind (related_emitIndex hrecur hsite _) fun _ =>
      .bind (.code _) fun _ => hfinish
  | first | last => exact .bind hreceiver fun _ => .bind (.code _) fun _ => hfinish
  | set =>
    refine .bind hreceiver fun _ => .bind (related_emitIndex hrecur hsite _) fun _ => ?_
    split
    · rename_i value _ hargs
      exact .bind (related_emitAs hrecur (hsite value (by simp [CallSite.parts, hargs])) _)
        fun _ => .code _
    · exact .throw _
  | length => exact .bind hreceiver fun _ => .bind (.instruction _) fun _ => hfinish
  | empty => exact .ite (related_materialize hjump) (related_emitReceiver hrecur hsite _)
  | join => exact .bind (related_emitJoin hrecur hsite _) fun _ => hfinish

theorem related_callArith (operand : Ty) (want : Bool) {apply apply' : Kind → Emit Unit}
    (happly : ∀ kind, C.Related home (apply kind) (apply' kind)) :
    C.Related home (ctx.callArith recur site operand want apply)
      (ctx.callArith other site operand want apply') :=
  .ofExcept_bind fun _ hleft => .bind (.orFault ..) fun kind =>
    .bind (related_emitAs hrecur (CallSite.fits_receiver hsite hleft) _) fun _ =>
    .bind (happly kind) fun _ => .ite (.code _) (.pure _)

theorem related_callMethod (kind : CallableKind) (m : Member) (want : Bool) :
    C.Lifts home recur other (ctx.callMethod · kind m site want) := by
  cases kind with
  | constructor =>
    exact .bind (related_emitReceiver hrecur hsite _) fun _ => .bind (.code _) fun _ =>
      .bind (related_emitArgs hrecur hsite _) fun _ => .bind (.instruction _) fun _ =>
      .ite (.instruction _) (.pure _)
  | initializer => exact .throw _
  | static | onInstance =>
    exact .bind (related_emitReceiver hrecur hsite _) fun _ =>
      .bind (related_emitArgs hrecur hsite _) fun _ => .bind (.instruction _) fun _ => .code _

theorem related_callMember (m : Member) (want : Bool) :
    C.Lifts home recur other (ctx.callMember · m site want) := by
  have hreceiver : ∀ want, C.Lifts home recur other (ctx.emitReceiver · site want) :=
    related_emitReceiver hrecur hsite
  have hset : ∀ want is, C.Related home (do
      ctx.emitReceiver recur site want
      ctx.emitArgs recur site.args m.params
      Emit.code is) (do
      ctx.emitReceiver other site want
      ctx.emitArgs other site.args m.params
      Emit.code is) := fun _ _ =>
    .bind (hreceiver _) fun _ => .bind (related_emitArgs hrecur hsite _) fun _ => .code _
  have hleft : ∀ node, site.receiver = .ok node → C.fits home node :=
    fun _ => CallSite.fits_receiver hsite
  have hright : ∀ node, site.operand = .ok node → C.fits home node :=
    fun _ => CallSite.fits_operand hsite
  unfold callMember
  split
  · exact related_callArith hrecur hsite _ _ fun _ => .ofExcept_bind fun _ h =>
      .bind (related_emitAs hrecur (hright _ h) _) fun _ => .instruction _
  · exact related_callArith hrecur hsite _ _ fun _ => .instruction _
  · exact .ite (related_materialize fun _ => related_jumpOnMember hrecur hsite ..)
      (.ofExcept_bind fun _ h => .bind (hrecur.emit _ (hleft _ h)) fun _ =>
        .ofExcept_bind fun _ h => hrecur.emit _ (hright _ h))
  · exact .ofExcept_bind fun _ h => .bind (hrecur.emit _ (hleft _ h)) fun _ =>
      .ite (.code _) (.pure _)
  · exact .bind (hreceiver _) fun _ => .bind (.instruction _) fun _ =>
      .ite (.instruction _) (.pure _)
  · exact .ite (.code _) (.pure _)
  · exact related_callArray hrecur hsite _ _ _ _ _ fun _ => related_jumpOnMember hrecur hsite ..
  · exact related_callMethod hrecur hsite ..
  · exact .bind (hreceiver _) fun _ => .bind (.instruction _) fun _ => .code _
  · exact .bind (hreceiver _) fun _ => .push ..
  · exact hset _ _
  · exact hset _ _

omit hsite

theorem related_emitSuperCall (node : Node) (name : String)
    (hargs : ∀ part ∈ args, C.fits home part) (want : Bool) :
    C.Lifts home recur other (ctx.emitSuperCall · node name args want) := by
  refine .get_bind fun σ hσ => .bind (.ofExcept _) fun _ => .orFault_bind_of_allows
    (fun _ => C.allows_lapse home (.noSuperclass hσ)) fun _ _ => .bind (.ofExcept _) fun m => ?_
  have hsite : ∀ part ∈ CallSite.parts ⟨none, args, node⟩, C.fits home part := hargs
  unfold callSuperMember
  split
  · exact .bind related_pushSelf fun _ => .bind (related_emitArgs hrecur hsite _) fun _ =>
      .bind (.instruction _) fun _ => .code _
  · exact related_callMethod hrecur hsite ..
  · exact .throw _

omit hrecur [C.Framed home] in
theorem related_withMember {target : Option Node} {use use' : Member → CallSite → Emit Unit}
    (huse : ∀ m, C.Related home (use m ⟨target, args, node⟩) (use' m ⟨target, args, node⟩)) :
    C.Related home (ctx.withMember node target name args use)
      (ctx.withMember node target name args use') := by
  unfold withMember
  split
  · exact .bind (.nodeType _) fun _ => .bind (.ofExcept _) huse
  · exact .bind related_selfType fun _ => .bind (.ofExcept _) huse

/-! ## Literals, texts and lists -/

theorem related_emitBody (want : Bool) {nodes : List Node}
    (hnodes : ∀ part ∈ nodes, C.fits home part) :
    C.Lifts home recur other (emitBody · want nodes) := by
  induction nodes with
  | nil => exact .push ..
  | cons node nodes ih =>
    obtain ⟨hnode, hrest⟩ := List.forall_mem_cons.1 hnodes
    cases nodes with
    | nil => exact hrecur.emit _ hnode
    | cons next rest => exact .bind (hrecur.emit _ hnode) fun _ => ih hrest

theorem related_emitPrint (newline : Bool) (hargs : ∀ part ∈ args, C.fits home part) (want : Bool) :
    C.Lifts home recur other (ctx.emitPrint · newline args want) := by
  have hprinted : C.Lifts home recur other (ctx.emitPrinted · newline args) := by
    induction args with
    | nil => exact .pure _
    | cons arg rest ih =>
      obtain ⟨harg, hrest⟩ := List.forall_mem_cons.1 hargs
      exact .bind (.nodeType _) fun _ => .bind (.instruction _) fun _ =>
        .bind (related_emitAs hrecur harg _) fun _ => .bind (.instruction _) fun _ => ih hrest
  exact .ite (.bind (.code _) fun _ => .bind hprinted fun _ => .push ..)
    (.bind hprinted fun _ => .push ..)

theorem related_emitConcat {parts : List Node} (hparts : ∀ part ∈ parts, C.fits home part)
    (want : Bool) : C.Lifts home recur other (ctx.emitConcat · parts want) :=
  .ite (.bind (.code _) fun _ => .bind (.forM fun part hpart => .bind (.nodeType _) fun _ =>
      .bind (hrecur.emit _ (hparts part hpart)) fun _ => .code _) fun _ => .instruction _)
    (.forM fun part hpart => hrecur.emit _ (hparts part hpart))

theorem related_emitText (hvalue : C.fits home value) (want : Bool) :
    C.Lifts home recur other (ctx.emitText · value want) :=
  .ite (.bind (.nodeType _) fun _ => .bind (hrecur.emit _ hvalue) fun _ => .bind (.code _) fun _ =>
    .bind .label fun _ => .bind .label fun _ => .bind (.code _) fun _ => .bind (.goto _) fun _ =>
    .bind (.place _) fun _ => .bind (.instruction _) fun _ => .place _) (hrecur.emit _ hvalue)

theorem related_emitList {elements : List Node} (helements : ∀ part ∈ elements, C.fits home part)
    (want : Bool) : C.Lifts home recur other (ctx.emitList · elements want) :=
  .ite (.bind (.code _) fun _ => .bind (.forM fun part hpart => .bind (.nodeType _) fun _ =>
      .bind (.instruction _) fun _ => .bind (hrecur.emit _ (helements part hpart)) fun _ =>
      .code _) fun _ => .instruction _)
    (.forM fun part hpart => .bind (.nodeType _) fun _ =>
      .bind (hrecur.emit _ (helements part hpart)) fun _ => .code _)

theorem related_emitNewArray (node : Node) {size : Node} (hsize : C.fits home size) (want : Bool) :
    C.Lifts home recur other (ctx.emitNewArray · node size want) :=
  .ofExcept_bind fun _ ht => .orFault_bind_of_allows (fun _ => C.allows_lapse home (.notArray ht))
    fun _ _ => .bind (related_emitAs hrecur hsize _) fun _ => .code _

/-! ## Control flow -/

theorem related_emitArm {arm : Option Node} (harm : ∀ part ∈ arm, C.fits home part) (value : Bool)
    (t : Ty) : C.Lifts home recur other (ctx.emitArm · arm value t) := by
  cases arm with
  | some node =>
    exact .ite (related_emitAs hrecur (harm node rfl) _) (hrecur.emit _ (harm node rfl))
  | none => exact .ite (.code _) (.pure _)

theorem related_emitIf (node : Node) {condition : Node} {body elseBody : Option Node}
    (hcondition : C.fits home condition) (hbody : ∀ part ∈ body, C.fits home part)
    (helse : ∀ part ∈ elseBody, C.fits home part) (want : Bool) :
    C.Lifts home recur other (ctx.emitIf · node condition body elseBody want) := by
  refine .bind (.nodeType _) fun _ => .bind .label fun _ => .bind .label fun _ => .ite ?_ ?_
  · exact .bind (hrecur.branch _ _ hcondition) fun _ =>
      .bind (related_emitArm hrecur hbody ..) fun _ =>
      .bind (.gotoIfReachable _) fun _ => .bind (.place _) fun _ =>
      .bind (related_emitArm hrecur helse ..) fun _ => .bind (.place _) fun _ => .push ..
  · exact .bind (hrecur.branch _ _ hcondition) fun _ =>
      .bind (related_emitArm hrecur helse ..) fun _ =>
      .bind (.place _) fun _ => .push ..

theorem related_emitLoopParts {parts : LoopParts} (hcondition : C.fits home parts.condition)
    (hbody : ∀ part ∈ parts.body, C.fits home part)
    (hparts : ∀ part ∈ parts.init ++ parts.pre ++ parts.post, C.fits home part)
    (labels : LoopLabels) : C.Lifts home recur other (emitLoopParts · parts labels) := by
  have hnodes : ∀ {nodes : List Node}, (∀ part ∈ nodes, C.fits home part) →
      C.Lifts home recur other fun r => nodes.forM (r.emit · false) :=
    fun h => .forM fun part hpart => hrecur.emit _ (h part hpart)
  have hinit : ∀ part ∈ parts.init, C.fits home part := fun part hpart =>
    hparts part (List.mem_append_left _ (List.mem_append_left _ hpart))
  have hpre : ∀ part ∈ parts.pre, C.fits home part := fun part hpart =>
    hparts part (List.mem_append_left _ (List.mem_append_right _ hpart))
  have hpost : ∀ part ∈ parts.post, C.fits home part := fun part hpart =>
    hparts part (List.mem_append_right _ hpart)
  refine .bind (hnodes hinit) fun _ => ?_
  extract_lets testAfter finish body test body' test'
  have hbody : C.Related home (body ()) (body' ()) := by
    refine .bind .label fun _ => .bind (.place _) fun _ => .bind (hnodes hpre) fun _ =>
      .bind (.place _) fun _ =>
      .bind (.optionForM fun part hpart => hrecur.emit _ (hbody part hpart)) fun _ => .ite ?_ ?_
    · exact .bind (.place _) fun _ => .bind (hnodes hpost) fun _ =>
        .bind (hrecur.branch _ _ hcondition) fun _ => .place _
    · exact .bind (.goto _) fun _ => .place _
  exact .ite (.ite (.bind (.place _) fun _ => .bind (hrecur.branch _ _ hcondition) fun _ => hbody)
    (.bind (hrecur.branch _ _ hcondition) fun _ => hbody)) hbody

theorem related_emitLoop {parts : LoopParts} (hnode : C.works home node)
    (hkind : node.kind = .loop parts) (want : Bool) :
    C.Lifts home recur other (emitLoop · parts want) := by
  have hfits : ∀ labels, ∀ part ∈ node.children, C.fits (C.inside home (.loop labels)) part :=
    fun _ _ hpart => C.fits_loop hnode hkind hpart
  unfold Node.children at hfits
  rw [hkind] at hfits
  refine .bind .label fun _ => .bind .label fun _ => .bind .label fun _ =>
    C.related_openScope nofun ?_ fun _ _ => .push ..
  obtain ⟨hfront, hpost⟩ := List.forall_mem_append.1 (hfits _)
  obtain ⟨hfront, hmain⟩ := List.forall_mem_append.1 hfront
  obtain ⟨hinit, hfront⟩ := List.forall_mem_append.1 hfront
  obtain ⟨hcondition, hpre⟩ := List.forall_mem_cons.1 hfront
  exact related_emitLoopParts hrecur hcondition
    (fun part hpart => hmain part (Option.mem_toList.2 hpart))
    (List.forall_mem_append.2 ⟨List.forall_mem_append.2 ⟨hinit, hpre⟩, hpost⟩) _

omit hrecur [C.Framed home] in
theorem related_missingTarget (hreports : C.reports home node) {jump : String}
    {target : JumpTarget} (h : node.report? = node.span.map fun span =>
      (target, jump ++ " outside of " ++ target.describe, span)) :
    C.Holds home (missingTarget node jump target) := by
  unfold missingTarget
  split
  · rename_i span hspan
    exact C.report hreports (by rw [h, hspan]; rfl)
  · exact .throw _

theorem related_runEnsures {ensures : List (Nat × Node)}
    (hensures : ∀ entry ∈ ensures, C.fits (C.outside home entry.1) entry.2) :
    C.Lifts home recur other (runEnsures · ensures) := by
  induction ensures with
  | nil => exact .pure _
  | cons first rest ih =>
    obtain ⟨hfirst, hrest⟩ := List.forall_mem_cons.1 hensures
    exact .bind .label fun _ => .bind (.place _) fun _ =>
      .bind (C.detached (hrecur.emit _ hfirst)) fun _ => .bind (ih hrest) fun _ => .pure _

omit hrecur in
/-- The clauses that a jump passes are those of open scopes, at their depths. -/
theorem exists_append_of_findEnsures? {target : JumpTarget} {jumps : JumpScopes}
    {pending : PendingEnsures} (h : jumps.findEnsures? target = some pending) {entry : Nat × Node}
    (hentry : entry ∈ pending.ensures) :
    ∃ inner gaps outer, jumps = inner ++ .ensure entry.2 gaps :: outer ∧
      outer.length = entry.1 := by
  induction jumps generalizing pending with
  | nil => cases h
  | cons scope outer ih =>
    have hmore : ∀ {known : PendingEnsures}, JumpScopes.findEnsures? target outer = some known →
        entry ∈ known.ensures → ∃ inner gaps rest,
          scope :: outer = inner ++ .ensure entry.2 gaps :: rest ∧ rest.length = entry.1 := by
      intro known hknown hmem
      obtain ⟨inner, gaps, rest, rfl, hdepth⟩ := ih hknown hmem
      exact ⟨scope :: inner, gaps, rest, rfl, hdepth⟩
    unfold JumpScopes.findEnsures? at h
    split at h
    · cases h
      cases hentry
    · split at h
      · rename_i clause gaps _
        obtain ⟨known, hknown, rfl⟩ := Option.map_eq_some_iff.1 h
        rcases List.mem_cons.1 hentry with rfl | hentry
        · exact ⟨[], gaps, outer, rfl, rfl⟩
        · exact hmore hknown hentry
      · exact hmore h hentry

omit hrecur in
theorem exists_loopLabels_of_findEnsures? {jumps : JumpScopes} {pending : PendingEnsures}
    (h : jumps.findEnsures? .loop = some pending) :
    ∃ labels, jumps.loopLabels? pending.targetDepth = some labels := by
  obtain ⟨scope, hscope, haccepts⟩ := JumpScopes.findEnsures?_target h
  cases scope with
  | loop labels => exact ⟨labels, by rw [JumpScopes.loopLabels?, hscope]⟩
  | method | ensure => cases haccepts

omit hrecur in
theorem related_closeGaps (ensures : List (Nat × Node)) (starts : List Label) :
    C.Holds home (closeGaps ensures starts) :=
  .ite (.bind .label fun _ => .bind (.place _) fun _ => .forM fun _ _ => C.recordGap _ _)
    (.pure _)

theorem related_emitLoopJump (hnode : C.works home node) (hreports : C.reports home node)
    {jump : LoopJump} (h : node.report? = node.span.map fun span =>
      (.loop, jump.describe ++ " outside of " ++ JumpTarget.describe .loop, span)) :
    C.Lifts home recur other (emitLoopJump · node jump) := by
  refine .get_bind fun σ hσ => ?_
  extract_lets jumps
  split
  · exact related_missingTarget hreports h
  · rename_i pending hfind
    refine .orFault_bind_of_allows (fun hnone => ?_) fun _ _ =>
      .bind (related_runEnsures hrecur fun _ => C.fits_clause hnode hσ hfind) fun _ =>
      .bind (.goto _) fun _ => related_closeGaps ..
    obtain ⟨labels, hlabels⟩ := exists_loopLabels_of_findEnsures? hfind
    rw [hlabels] at hnone
    cases hnone

theorem related_emitReturn {value : Option Node} (hnode : C.works home node)
    (hreports : C.reports home node) (hkind : node.kind = .return value)
    (hvalue : ∀ part ∈ value, C.fits home part) :
    C.Lifts home recur other (ctx.emitReturn · node value) := by
  refine .get_bind fun σ hσ => ?_
  split
  · exact related_missingTarget hreports (by rw [Node.report?, hkind])
  · rename_i pending hfind
    refine .bind .frame fun current => ?_
    extract_lets t run leave run' leave'
    have hrun : ∀ parked, C.Related home (run parked) (run' parked) := by
      intro parked
      refine .bind (related_runEnsures hrecur fun _ => C.fits_clause hnode hσ hfind)
        fun starts => ?_
      extract_lets finish
      have hfinish : C.Holds home (finish ()) :=
        .bind (.code _) fun _ => related_closeGaps ..
      split
      · exact .bind (.codeOf _) fun _ => hfinish
      · exact hfinish
    have hleave : C.Related home (leave ()) (leave' ()) :=
      .ite (.code _) (.ite (.bind (.pure _) fun _ => hrun _)
        (.bind (.temporary _) fun _ => .bind (.codeOf _) fun _ => .bind (.pure _) fun _ => hrun _))
    cases value with
    | some node =>
      exact .ite (.bind (hrecur.emit _ (hvalue node rfl)) fun _ => hleave)
        (.bind (related_emitAs hrecur (hvalue node rfl) _) fun _ => hleave)
    | none => exact .bind (.code _) fun _ => hleave

theorem related_emitRaise (hvalue : C.fits home value) :
    C.Lifts home recur other (ctx.emitRaise · value) := by
  refine .bind (.nodeType _) fun _ => .ite ?_ (.ite ?_ ?_)
  · exact .bind (.code _) fun _ => .bind (hrecur.emit _ hvalue) fun _ =>
      .bind (.instruction _) fun _ => .instruction _
  · exact .bind (hrecur.emit _ hvalue) fun _ => .bind (.code _) fun _ => .instruction _
  · exact .bind (hrecur.emit _ hvalue) fun _ => .instruction _

theorem related_emitRescue (node : Node) {body : Node} {bind bind' : RescueClause → Emit Unit}
    (hbody : C.fits home body) (hclauses : ∀ clause ∈ clauses, C.fits home clause.body)
    (helse : ∀ part ∈ elseClause, C.fits home part)
    (hbind : ∀ clause ∈ clauses, C.Related home (bind clause) (bind' clause)) (want : Bool) :
    C.Related home (ctx.emitRescue recur bind node body clauses elseClause want)
      (ctx.emitRescue other bind' node body clauses elseClause want) := by
  have hone : ∀ {node}, C.fits home node → ∀ part ∈ some node, C.fits home part :=
    fun hnode part hpart => Option.some.inj hpart ▸ hnode
  have hclause : ∀ start stop done value t, ∀ clause ∈ clauses,
      C.Related home (ctx.emitClause recur bind start stop done value t clause)
        (ctx.emitClause other bind' start stop done value t clause) :=
    fun _ _ _ _ _ clause hmem =>
    .bind .label fun _ => .bind (.place _) fun _ =>
      .bind (.forM fun _ _ => .bind (.ofExcept _) fun _ => .protect _) fun _ =>
      .bind (hbind clause hmem) fun _ =>
      .bind (related_emitArm hrecur (hone (hclauses clause hmem)) ..) fun _ => .gotoIfReachable _
  have hregion : ∀ value t, C.Lifts home recur other (ctx.emitRegion · body value t) :=
    fun _ _ =>
    .bind .label fun _ => .bind .label fun _ => .bind .label fun _ => .bind (.place _) fun _ =>
      .bind (related_emitArm hrecur (hone hbody) ..) fun _ => .bind (.place _) fun _ =>
      .bind (.looking _) fun _ => .pure _
  refine .bind (.nodeType _) fun _ => .bind (hregion _ _) fun _ => ?_
  extract_lets finish handlers handlers'
  have hhandlers : C.Related home (handlers ()) (handlers' ()) :=
    .bind (.gotoIfReachable _) fun _ => .ite
      (.bind (.note ..) fun _ => .bind (.place _) fun _ => .push ..)
      (.bind (.forM (hclause _ _ _ _ _)) fun _ => .bind (.place _) fun _ => .push ..)
  exact .ite (.bind (related_emitArm hrecur helse ..) fun _ => hhandlers) hhandlers

theorem related_emitEnsure (node : Node) {body clause : Node}
    (hbody : C.fits (C.inside home (.ensure clause [])) body) (hclause : C.fits home clause)
    (want : Bool) : C.Lifts home recur other (ctx.emitEnsure · node body clause want) := by
  have hhandler : ∀ ranges, C.Lifts home recur other (emitEnsureHandler · clause ranges) :=
    fun _ =>
    .bind .label fun _ => .bind (.gotoIfReachable _) fun _ => .bind .label fun _ =>
      .bind (.place _) fun _ => .bind (.forM fun _ _ => .protect _) fun _ =>
      .bind (.temporary _) fun _ => .bind (.instruction _) fun _ =>
      .bind (hrecur.emit _ hclause) fun _ => .bind (.code _) fun _ => .place _
  have harm : ∀ part ∈ some body, C.fits (C.inside home (.ensure clause [])) part :=
    fun part hpart => Option.some.inj hpart ▸ hbody
  have hscope : ∀ known gaps, JumpScope.ensure clause [] = .ensure known gaps →
    C.fits home known := by
    rintro known gaps heq
    cases heq
    exact hclause
  refine .bind (.nodeType _) fun _ => .bind .label fun _ => .bind (.place _) fun _ =>
    C.related_openScope hscope (related_emitArm hrecur harm ..) fun left hleft => ?_
  extract_lets fill rest rest'
  have hrest : ∀ gaps, C.Related home (rest gaps) (rest' gaps) := by
    intro gaps
    refine .bind (.bind .label fun _ => .bind (.place _) fun _ => .bind (.looking _) fun _ =>
      .bind .reachable fun _ => .pure _) fun _ => ?_
    extract_lets handler handler'
    have htail : C.Related home (handler ()) (handler' ()) :=
      .ite (.bind (.note ..) fun _ => .push ..) (.bind (hhandler _) fun _ => .push ..)
    exact .ite (.bind (hrecur.emit _ hclause) fun _ => htail) htail
  split
  · exact .bind (.pure _) fun _ => hrest _
  · rename_i hother
    exact .bind (.throw_of_allows (C.allows_scopeOrder hleft fun gaps heq =>
      hother clause gaps heq)) fun _ => hrest _

/-! ## Methods -/

theorem related_emitDelegation {delegation : Delegation}
    (hargs : ∀ part ∈ delegation.args, C.fits home part) :
    C.Lifts home recur other (ctx.emitDelegation · delegation) := by
  refine .bind .get fun state => ?_
  extract_lets classType finish finish'
  have hfinish : ∀ target, C.Related home (finish target) (finish' target) := fun _ =>
    .bind (.ofExcept _) fun _ => .bind (.orFault ..) fun _ => .bind (.instruction _) fun _ =>
      .bind (.forM fun _ hentry =>
        related_emitAs hrecur (hargs _ (List.of_mem_zip hentry).1) _) fun _ => .instruction _
  exact .ite (.bind (.map _ (.ofExcept _)) hfinish) (.bind (.pure _) hfinish)

theorem related_emitPrologue {prologue : Prologue} (hparts : ∀ delegation,
    prologue = .delegate delegation → ∀ part ∈ delegation.args, C.fits home part) :
    C.Lifts home recur other (ctx.emitPrologue · prologue) := by
  cases prologue with
  | none => exact .pure _
  | superInit => exact .bind .get fun _ => .bind (.ofExcept _) fun _ => .code _
  | delegate delegation => exact related_emitDelegation hrecur (hparts delegation rfl)

theorem related_emitMethodBody (hparts : ∀ part ∈ spec.parts, C.fits home part) :
    C.Lifts home recur other (ctx.emitMethodBody · spec) := by
  obtain ⟨-, hmem⟩ := List.forall_mem_append.1 hparts
  unfold emitMethodBody
  cases hspec : spec.body with
  | node body =>
    rw [hspec] at hmem
    cases body with
    | some body =>
      have hfits : C.fits home body := hmem body (List.mem_singleton_self body)
      exact .ite (hrecur.emit _ hfits) (related_emitAs hrecur hfits _)
    | none => exact .code _
  | statements nodes =>
    rw [hspec] at hmem
    exact .forM fun part hpart => hrecur.emit _ (hmem part hpart)
  | forward default next invocation filled =>
    rw [hspec] at hmem
    have hrest : C.Lifts home recur other (fun r => do
        spec.params.forM fun param => do
          let slot ← Emit.namedLocal param.1 param.2
          Emit.codeOf (param.2.loadCode slot)
        ctx.emitAs r default filled
        Emit.instruction (.invoke invocation next)) :=
      .bind (.forM fun _ _ => .bind (.namedLocal ..) fun _ => .codeOf _) fun _ =>
        .bind (related_emitAs hrecur (hmem _ (List.mem_singleton_self default)) _) fun _ =>
        .instruction _
    exact .ite (.bind (.instruction _) fun _ => hrest) hrest

end Framed

section

variable (hrecur : recur.Related C other)
include hrecur

theorem related_emitMethod (hparts : ∀ part ∈ spec.parts, C.fits (C.frameOf home spec.scope) part) :
    C.Lifts home recur other (ctx.emitMethod · spec) := by
  have hprologue : ∀ delegation, spec.prologue = .delegate delegation →
      ∀ part ∈ delegation.args, C.fits (C.frameOf home spec.scope) part := fun delegation hspec
      part hpart => hparts part (by simp [MethodSpec.parts, hspec, hpart])
  have hinside : C.Lifts (C.frameOf home spec.scope) recur other (ctx.emitInside · spec) :=
    .bind (related_emitPrologue hrecur hprologue) fun _ =>
      .bind (related_emitMethodBody hrecur hparts) fun _ => .bind .reachable fun _ =>
      .ite (.code _) (.pure _)
  exact C.method hrecur.admits hinside

theorem related_emitDefaultConstructor : C.Lifts home recur other (ctx.emitDefaultConstructor ·) :=
  .bind .get fun _ => .ite (related_emitMethod hrecur nofun) (.pure _)

/-! ## Definitions -/

theorem related_emitOverloads (invocation : InvokeKind) {args : List (Argument × (String × Ty))}
    (taken : List (String × Ty))
    (hdefaults : ∀ entry ∈ args, ∀ default ∈ entry.1.default,
      C.fits (C.frameOf home spec.scope) default) :
    C.Lifts home recur other (ctx.emitOverloads · spec invocation taken args) := by
  induction args generalizing taken with
  | nil => exact .pure _
  | cons entry rest ih =>
    obtain ⟨hentry, hrest⟩ := List.forall_mem_cons.1 hdefaults
    refine .orFault_bind fun default hdefault => .bind .get fun _ =>
      .bind (related_emitMethod hrecur fun part hpart => ?_) fun _ => ih _ hrest
    obtain rfl := List.mem_singleton.1 hpart
    exact hentry part hdefault

/-- The defaults of a list of parameters are those that overloads fill in. -/
theorem related_emitAllOverloads (invocation : InvokeKind) {args : List Argument}
    (hdefaults : ∀ part ∈ Argument.defaults args, C.fits (C.frameOf home spec.scope) part) :
    C.Lifts home recur other (ctx.emitAllOverloads · spec invocation args) := by
  refine related_emitOverloads hrecur invocation _ fun entry hentry default hdefault => ?_
  have harg := (List.of_mem_zip (List.mem_of_mem_drop hentry)).1
  exact hdefaults default (List.mem_filterMap.2 ⟨entry.1, harg, hdefault⟩)

theorem related_emitMethodDef (node : Node) {definition : MethodDef} (forceStatic : Bool)
    (hparts : ∀ part ∈ Argument.defaults definition.args ++ definition.body.toList,
      C.fits (C.frameOf home (ctx.scopes.scopeFor? node.id)) part) :
    C.Lifts home recur other (ctx.emitMethodDef · node definition forceStatic) := by
  obtain ⟨hdefaults, hbody⟩ := List.forall_mem_append.1 hparts
  refine .bind (.nodeType _) fun returnType => .bind .get fun state =>
    .bind (.ofExcept _) fun params => .bind (.ofExcept _) fun throws => ?_
  extract_lets spec finish finish'
  have hfinish : C.Related home (finish ()) (finish' ()) := by
    refine related_emitMethod hrecur ?_
    split <;> exact hbody
  exact .ite (.bind (related_emitAllOverloads hrecur _ hdefaults) fun _ => hfinish) hfinish

theorem related_emitConstructorDef (node : Node) {definition : ConstructorDef}
    (hparts : ∀ part ∈ Argument.defaults definition.args ++
      (definition.delegate.map (·.args)).getD [] ++ definition.body.toList,
      C.fits (C.frameOf home (ctx.scopes.scopeFor? node.id)) part) :
    C.Lifts home recur other (ctx.emitConstructorDef · node definition) := by
  obtain ⟨hfront, hbody⟩ := List.forall_mem_append.1 hparts
  obtain ⟨hdefaults, hdelegate⟩ := List.forall_mem_append.1 hfront
  refine .bind (.ofExcept _) fun params => .bind (related_emitAllOverloads hrecur _ hdefaults)
    fun _ => related_emitMethod hrecur fun part hpart => ?_
  rcases List.mem_append.1 hpart with hpart | hpart
  · refine hdelegate part ?_
    cases hcase : definition.delegate with
    | none => simp [hcase] at hpart
    | some delegation => simpa [hcase] using hpart
  · exact hbody part hpart

/-! ## Nodes -/

theorem related_emitMethodDef_of_works {definition : MethodDef} (hnode : C.works home node)
    (hkind : node.kind = .methodDef definition) (forceStatic : Bool) :
    C.Lifts home recur other (ctx.emitMethodDef · node definition forceStatic) := by
  refine related_emitMethodDef hrecur node forceStatic fun part hpart =>
    C.fits_method hnode hkind ?_
  rw [Node.children, hkind]
  exact hpart

theorem related_emitConstructorDef_of_works {definition : ConstructorDef}
    (hnode : C.works home node) (hkind : node.kind = .constructorDef definition) :
    C.Lifts home recur other (ctx.emitConstructorDef · node definition) := by
  refine related_emitConstructorDef hrecur node fun part hpart =>
    C.fits_constructor hnode hkind ?_
  rw [Node.children, hkind]
  exact hpart

theorem related_emitClassBody (hnode : C.works home node)
    (hkind : node.kind = .classDef definition) :
    C.Lifts (C.classOf .construct) recur other (ctx.emitClassBody · node definition) := by
  have hmember : ∀ member ∈ definition.body,
      C.Lifts (C.classOf .construct) recur other (ctx.emitMember · member) := by
    intro member hmem
    have hfits : member.kind.isInitializer = false → C.fits (C.classOf .construct) member :=
      C.fits_member hnode hkind hmem
    unfold emitMember
    split
    · rename_i inner hinner
      exact related_emitMethodDef_of_works hrecur (C.works_of_fits (hfits (by rw [hinner]; rfl)))
        hinner _
    · rename_i inner hinner
      exact related_emitConstructorDef_of_works hrecur
        (C.works_of_fits (hfits (by rw [hinner]; rfl))) hinner
    · rename_i inner hinner
      exact hrecur.nested (hfits (by rw [hinner]; rfl)) hinner
    · exact .pure _
  refine .bind (.forM fun member _ => ?field) fun _ => .bind (.forM hmember) fun _ => ?_
  case field =>
    split
    · exact related_emitFieldDef ..
    · exact .pure _
  extract_lets initializer rest rest'
  have hrest : C.Related (C.classOf .construct) (rest ()) (rest' ()) :=
    .ite (related_emitDefaultConstructor hrecur) (.pure _)
  refine .ite (.bind (related_emitMethod hrecur fun part hpart => ?_) fun _ => hrest) hrest
  obtain ⟨hmem, hinitializer⟩ := List.mem_filter.1 hpart
  exact C.fits_initializer hnode hkind hmem hinitializer

theorem related_emitClassDef (hnode : C.works home node)
    (hkind : node.kind = .classDef definition) :
    C.Lifts home recur other (ctx.emitClassDef · node definition) := by
  refine .ofExcept_bind fun t ht => .bind (.ofExcept _) fun interfaces => ?_
  extract_lets access rest rest'
  have hrest : ∀ superclass, C.Related home (rest superclass) (rest' superclass) := fun _ =>
    .bind (.note ..) fun _ =>
      C.nested (.plain ..) ⟨node, ht⟩ (related_emitClassBody hrecur hnode hkind)
  exact .ite (.bind (.pure _) hrest) (.bind (.ofExcept _) hrest)

end

section

variable [C.Framed home]

theorem related_instantiateClosure {σ : Emission} {current : Frame} (hσ : C.sees home σ)
    (hcurrent : σ.frame = some current) (t : Ty) :
    C.Holds home (instantiateClosure t current.binding) := by
  refine .frame_bind fun τ later hτ hlater => .bind (.code _) fun _ => ?_
  split
  · exact .code _
  · rename_i hbinding hslot
    exact .throw_of_allows (C.allows_lapse home
      (.unstoredBinding hσ hcurrent hbinding hτ hlater hslot))
  · exact .instruction _

variable (hrecur : recur.Related C other)
include hrecur

theorem related_emitClosureDef {definition : ClosureDef} (hnode : C.works home node)
    (hkind : node.kind = .closureDef definition) (want : Bool) :
    C.Lifts home recur other (ctx.emitClosureDef · node definition want) := by
  refine .ofExcept_bind fun t ht => .frame_bind fun σ current hσ hcurrent =>
    .bind (.ofExcept _) fun _ => .bind (.note ..) fun _ => .ofExcept_bind_of_allows
    (fun _ hfault => C.allows_lapse home (.badShell hfault)) fun shell hshell => ?_
  have hbody : C.Lifts (C.classOf (.fromReceiver current.binding)) recur other
      (ctx.emitClosureBody · definition current.binding) := by
    refine .bind (.forM fun method hmethod => ?_) fun _ =>
      .ite (related_emitDefaultConstructor hrecur) (.pure _)
    split
    · rename_i inner hinner
      exact related_emitMethodDef hrecur method false fun part hpart =>
        C.fits_closure hnode hkind hσ hcurrent hmethod hinner hpart
    · exact .throw _
  have hnested : C.Lifts home recur other (fun r => do
      Emit.addClass (← Emit.inClass shell t (.fromReceiver current.binding)
        (ctx.emitClosureBody r definition current.binding))) :=
    C.nested (.closure hshell) ⟨node, ht⟩ hbody
  have hrest : C.Holds home (do
      Emit.modifyClass (·.addInnerClass t.internalName)
      if want then instantiateClosure t current.binding) :=
    .bind (.addInnerClass _) fun _ => .ite (related_instantiateClosure hσ hcurrent _) (.pure _)
  have h := hnested.bind fun _ => hrest
  simp only [bind_assoc] at h
  exact h

/-! ## Nodes -/

theorem related_branchOn (hnode : C.works home node)
    (hself : C.Lifts home recur other (·.emit node true)) (target : Label) (when : Bool) :
    C.Lifts home recur other (ctx.branchOn · node target when) := by
  have hcall : ∀ {site : CallSite}, (∀ part ∈ site.parts, C.fits home part) → ∀ m,
      C.Lifts home recur other (ctx.jumpOnCall · m site target when) := fun hsite _ =>
    .ite (related_jumpOnMember hrecur hsite ..)
      (.bind (related_callMember hrecur hsite ..) fun _ => .instruction _)
  refine .bind (.nodeType _) fun _ => ?_
  extract_lets jump jump'
  have hjump : C.Related home (jump ()) (jump' ()) := by
    refine .bind (C.related_markLine node) fun _ => ?_
    split
    · exact .ite (.goto _) (.pure _)
    · rename_i hkind
      exact related_withMember (hcall (C.fits_parts hnode hkind rfl rfl))
    · rename_i hkind
      exact related_withMember (hcall (C.fits_parts hnode hkind rfl rfl))
    · exact .bind hself fun _ => .instruction _
  exact .ite (.bind (.throw _) fun _ => hjump) hjump

/-- What a node does with the recursion concerns its parts, and ensure clauses
that are open. -/
theorem related_emitNode (hnode : C.works home node) (hreports : C.reports home node)
    (want : Bool) :
    C.Lifts home recur other (ctx.emitNode · node want) := by
  have hparts {kind} (hkind : node.kind = kind) := C.fits_parts hnode hkind
  refine .bind (C.related_enter node) fun _ => ?_
  cases hkind : node.kind with
  | fixnum | float => exact .ite (.bind (.nodeType _) fun _ => .instruction _) (.pure _)
  | char | text | boolean | null => exact .push ..
  | regex => exact .ite (.code _) (.pure _)
  | selfRef => exact .ite related_pushSelf (.pure _)
  | typeRef => exact .ite (.bind (.nodeType _) fun _ => .code _) (.pure _)
  | bindingRef => exact .ite (.bind related_pushBinding fun _ => .pure _) (.pure _)
  | «break» | next | redo =>
    exact related_emitLoopJump hrecur hnode hreports (by rw [Node.report?, hkind]; rfl)
  | localDecl | localAccess =>
    exact related_emitLocalAccess hnode (by rw [Node.localName?, hkind]) _
  | fieldDecl => exact .pure _
  | fieldAccess => exact related_emitFieldAccess ..
  | body nodes =>
    exact related_emitBody hrecur _ (hparts hkind rfl rfl)
  | print newline args =>
    exact related_emitPrint hrecur _ (hparts hkind rfl rfl) _
  | concat parts =>
    exact related_emitConcat hrecur (hparts hkind rfl rfl) _
  | array elements =>
    exact related_emitList hrecur (hparts hkind rfl rfl) _
  | superCall name args =>
    exact related_emitSuperCall hrecur _ _ (hparts hkind rfl rfl) _
  | call target name args =>
    have hsite : ∀ part ∈ CallSite.parts ⟨target, args, node⟩, C.fits home part :=
      hparts hkind rfl rfl
    exact related_withMember fun m => related_callMember hrecur hsite m want
  | selfCall name args =>
    have hsite : ∀ part ∈ CallSite.parts ⟨none, args, node⟩, C.fits home part :=
      hparts hkind rfl rfl
    exact related_withMember fun m => related_callMember hrecur hsite m want
  | raise value =>
    exact related_emitRaise hrecur (hparts hkind rfl rfl value (List.mem_singleton_self value))
  | cast value =>
    exact related_emitCast hrecur _ (hparts hkind rfl rfl value (List.mem_singleton_self value)) _
  | eval value =>
    exact related_emitText hrecur (hparts hkind rfl rfl value (List.mem_singleton_self value)) _
  | emptyArray size =>
    exact related_emitNewArray hrecur _ (hparts hkind rfl rfl size (List.mem_singleton_self size)) _
  | localAssign name value =>
    exact related_emitLocalAssign hrecur hnode (by rw [Node.localName?, hkind])
      (hparts hkind rfl rfl value (List.mem_singleton_self value)) _
  | fieldAssign name value isStatic notes =>
    exact related_emitFieldAssign hrecur _
      (hparts hkind rfl rfl value (List.mem_singleton_self value)) ..
  | «return» value =>
    exact related_emitReturn hrecur hnode hreports hkind fun part hpart =>
      hparts hkind rfl rfl part (Option.mem_toList.2 hpart)
  | ensure main clause =>
    obtain ⟨hmain, hclause⟩ := C.fits_ensure hnode hkind
    exact related_emitEnsure hrecur _ hmain hclause _
  | ifElse condition main elseBody =>
    obtain ⟨hfront, helse⟩ := List.forall_mem_append.1 (hparts hkind rfl rfl)
    obtain ⟨hcondition, hmain⟩ := List.forall_mem_cons.1 hfront
    exact related_emitIf hrecur _ hcondition
      (fun part hpart => hmain part (Option.mem_toList.2 hpart))
      (fun part hpart => helse part (Option.mem_toList.2 hpart)) _
  | rescue main clauses elseClause =>
    obtain ⟨hfront, helse⟩ := List.forall_mem_append.1 (hparts hkind rfl rfl)
    obtain ⟨hmain, hclauses⟩ := List.forall_mem_cons.1 hfront
    exact related_emitRescue hrecur _ hmain
      (fun clause hclause => hclauses _ (List.mem_map_of_mem hclause))
      (fun part hpart => helse part (Option.mem_toList.2 hpart))
      (fun clause hclause => related_bindException hnode hkind hclause) _
  | loop parts => exact related_emitLoop hrecur hnode hkind _
  | classDef definition => exact .bind (related_emitClassDef hrecur hnode hkind) fun _ => .push ..
  | methodDef definition =>
    exact .bind .get fun _ =>
      .bind (related_emitMethodDef_of_works hrecur hnode hkind _) fun _ => .push ..
  | constructorDef definition =>
    exact .bind (related_emitConstructorDef_of_works hrecur hnode hkind) fun _ => .push ..
  | closureDef definition => exact related_emitClosureDef hrecur hnode hkind _
  | script => exact .throw _

omit [C.Framed home] in
theorem related_emitNode_of_classDef (hnode : C.works home node)
    (hkind : node.kind = .classDef definition) :
    C.Lifts home recur other (ctx.emitNode · node false) := by
  refine .bind (C.related_enter node) fun _ => ?_
  rw [hkind]
  exact .bind (related_emitClassDef hrecur hnode hkind) fun _ => .pure _

omit hrecur [C.Framed home] in
theorem related_recursion (hadmits : ∀ depth, C.admits (ctx.recursion depth))
    (hreports : ∀ home node, C.reports home node) (depth : Nat) :
    (ctx.recursion depth).Related C (ctx.recursion depth) := by
  induction depth with
  | zero => exact ⟨hadmits 0, fun _ _ => .throw _, fun _ _ _ => .throw _, fun _ _ => .throw _⟩
  | succ depth ih =>
    exact ⟨hadmits _,
      fun want hnode => related_emitNode ih (C.works_of_fits hnode) (hreports _ _) want,
      fun target when hnode =>
        related_branchOn ih (C.works_of_fits hnode) (ih.emit true hnode) target when,
      fun hnode => related_emitNode_of_classDef ih (C.works_of_fits hnode)⟩

omit [C.Framed home] in
/-- The definitions of a script are emitted where the script stands, its other
statements in the frame of `main`. -/
theorem related_emitScript {script : Node} {statements : List Node}
    (hdefinitions : ∀ part ∈ statements, part.kind.isDefinition = true → C.works home part)
    (hmain : ∀ part ∈ statements,
      C.fits (C.frameOf home (ctx.scopes.scopeFor? script.id)) part) :
    C.Lifts home recur other (ctx.emitScript · script statements) := by
  refine .bind (.forM fun statement hstatement => ?_) fun _ =>
    .bind (related_emitMethod hrecur fun part hpart => hmain part (List.mem_filter.1 hpart).1)
    fun _ => related_emitDefaultConstructor hrecur
  have hworks := hdefinitions statement hstatement
  split
  · rename_i definition hkind
    exact related_emitMethodDef_of_works hrecur (hworks (by rw [hkind]; rfl)) hkind _
  · rename_i definition hkind
    exact related_emitConstructorDef_of_works hrecur (hworks (by rw [hkind]; rfl)) hkind
  · rename_i definition hkind
    exact related_emitClassDef hrecur (hworks (by rw [hkind]; rfl)) hkind
  · exact .pure _

end

end Context

end ClassBackend
