import ClassBackend.Proofs.Emission.Safety
import ClassBackend.Proofs.Member.Registered
import ClassBackend.Proofs.Naming
import ClassBackend.Proofs.Scope.Place
import ClassBackend.Proofs.Ty.Acyclic
import ClassBackend.Proofs.Ty.Names

/-!
# A script meets with no breach

Scope analysis and emission go through the same nodes, and each knows what the
other left behind. So no fault of a compilation reports a broken invariant: it
is always a complaint about the script.
-/

namespace ClassBackend

variable {script : Node} {statements : List Node} {fault : Fault}

/-! ## Analysis -/

namespace ScopeTable

variable {α β : Type}

def Unassigned (table : ScopeTable) : Prop := ∀ scope ∈ table.scopes, scope.binding = none

theorem Unassigned.modify {table : ScopeTable} (h : table.Unassigned) (id : ScopeId)
    {change : Scope → Scope} (hchange : ∀ scope, (change scope).binding = scope.binding) :
    (table.modify id change).Unassigned := by
  intro scope hscope
  obtain ⟨i, hi⟩ := Array.mem_iff_getElem?.1 hscope
  rw [ScopeTable.modify, Array.getElem?_modify] at hi
  split at hi
  · obtain ⟨old, hold, rfl⟩ := Option.map_eq_some_iff.1 hi
    rw [hchange]
    exact h old (Array.mem_of_getElem? hold)
  · exact h scope (Array.mem_of_getElem? hi)

theorem binding_define (name : String) (t : Ty) (scope : Scope) :
    (scope.define name t).binding = scope.binding := by
  unfold Scope.define
  split <;> rfl

theorem binding_capture (name : String) (scope : Scope) :
    (scope.capture name).binding = scope.binding := by
  unfold Scope.capture
  split <;> rfl

/-- The walk fails with complaints only, ends in the scope it started in and gives
no scope a binding class. It may need to start in a scope. -/
def Complaining (needsScope : Bool) (x : WalkM α) : Prop :=
  ∀ w : Walk, (needsScope = true → w.current.isSome) →
    (∀ fault, x w = .error fault → fault.IsComplaint) ∧
      ∀ a w', x w = .ok (a, w') →
        w'.current = w.current ∧ (w.table.Unassigned → w'.table.Unassigned)

namespace Complaining

variable {x : WalkM α}

variable {needsScope : Bool}

theorem mono (h : Complaining false x) : Complaining needsScope x :=
  fun w _ => h w nofun

theorem of_ok
    (h : ∀ w : Walk, ∃ a w', x w = .ok (a, w') ∧ w'.current = w.current ∧
      (w.table.Unassigned → w'.table.Unassigned)) :
    Complaining needsScope x := by
  intro w _
  obtain ⟨a, w', hrun, hends⟩ := h w
  rw [hrun]
  refine ⟨nofun, fun b v heq => ?_⟩
  cases heq
  exact hends

theorem pure (a : α) : Complaining needsScope (Pure.pure a : WalkM α) :=
  of_ok fun w => ⟨a, w, rfl, rfl, id⟩

theorem update {change : ScopeTable → ScopeTable}
    (h : ∀ table : ScopeTable, table.Unassigned → (change table).Unassigned) :
    Complaining needsScope (ScopeTable.update change) :=
  of_ok fun w => ⟨_, _, rfl, rfl, h w.table⟩

variable (types : TypeMap) (scope : ScopeId)

theorem define (name : String) (t : Ty) :
    Complaining needsScope (ScopeTable.update (·.modify scope (·.define name t))) :=
  update fun _ h => h.modify scope (binding_define name t)

theorem relabel (name : String) : Complaining needsScope
    (modifyThe Walk ({ · with className := name }) : WalkM Unit) :=
  of_ok fun _ => ⟨_, _, rfl, rfl, id⟩

theorem openScope {kind : ScopeKind} {owner : NodeId} {parent : Option ScopeId} :
    Complaining needsScope (ScopeTable.openScope kind owner parent) := by
  refine of_ok fun _ => ⟨_, _, rfl, rfl, fun h scope hscope => ?_⟩
  rcases Array.mem_push.1 hscope with hscope | rfl
  · exact h scope hscope
  · rfl

theorem bind {f : α → WalkM β} (hx : Complaining needsScope x)
    (hf : ∀ a, Complaining needsScope (f a)) : Complaining needsScope (x >>= f) := by
  intro w hw
  obtain ⟨hfault, hends⟩ := hx w hw
  show (∀ fault, (x w >>= fun result => f result.1 result.2) = .error fault → _) ∧
    ∀ b w', (x w >>= fun result => f result.1 result.2) = .ok (b, w') → _
  cases hrun : x w with
  | error fault =>
    refine ⟨fun fault' heq => ?_, nofun⟩
    cases heq
    exact hfault fault hrun
  | ok result =>
    obtain ⟨a, v⟩ := result
    obtain ⟨hv, htable⟩ := hends a v hrun
    obtain ⟨hfault', hends'⟩ := hf a v (hv ▸ hw)
    refine ⟨hfault', fun b w' heq => ?_⟩
    obtain ⟨hw', htable'⟩ := hends' b w' heq
    exact ⟨hw'.trans hv, fun h => htable' (htable h)⟩

theorem get_bind {f : Walk → WalkM β}
    (h : ∀ w : Walk, (needsScope = true → w.current.isSome) → Complaining needsScope (f w)) :
    Complaining needsScope (get >>= f) := fun w hw => h w hw w hw

theorem inside {x : WalkM Unit} (h : Complaining true x) :
    Complaining needsScope (ScopeTable.inside scope x) := by
  intro w _
  obtain ⟨hfault, hends⟩ := h { w with current := some scope } fun _ => rfl
  show (∀ fault, (x { w with current := some scope } >>= fun result =>
      .ok ((), { result.2 with current := w.current })) = .error fault → _) ∧
    ∀ b w', (x { w with current := some scope } >>= fun result =>
      .ok ((), { result.2 with current := w.current })) = .ok (b, w') → _
  cases hrun : x { w with current := some scope } with
  | error fault =>
    refine ⟨fun fault' heq => ?_, nofun⟩
    cases heq
    exact hfault fault hrun
  | ok result =>
    refine ⟨nofun, fun b w' heq => ?_⟩
    cases heq
    exact ⟨rfl, (hends _ _ hrun).2⟩

theorem typeOf (id : NodeId) : Complaining needsScope (ScopeTable.typeOf types id) := by
  unfold ScopeTable.typeOf
  split
  · exact pure _
  · refine fun w _ => ⟨fun fault heq => ?_, fun b w' heq => by cases heq⟩
    cases heq
    exact Fault.isComplaint_of_start _ _ (by decide)

theorem refer (node : NodeId) (name : String) :
    Complaining true (ScopeTable.refer types node name) := by
  unfold ScopeTable.refer
  refine .get_bind fun w hw => ?_
  split
  · rename_i hcurrent
    rw [hcurrent] at hw
    cases hw rfl
  · have hrecord : ∀ scope : ScopeId, Complaining true (Pure.pure scope >>= fun scope =>
        ScopeTable.update fun table =>
          { table with resolved := (node, scope) :: table.resolved }) :=
      fun scope => .bind (.pure scope) fun _ => .update fun _ h => h
    split
    · split
      · exact .bind (.update fun _ h => h.modify _ (binding_capture name)) fun _ => hrecord _
      · exact hrecord _
    · exact .bind (.typeOf types node) fun _ => .bind (.define _ _ _) fun _ => hrecord _

theorem defineArgs (args : List Argument) :
    Complaining needsScope (ScopeTable.defineArgs types scope args) := by
  unfold ScopeTable.defineArgs
  induction args with
  | nil => exact pure _
  | cons arg args ih =>
    exact .bind (.bind (.typeOf types arg.id) fun _ => .define _ _ _) fun _ => ih

end Complaining

theorem Defining.complaining {types : TypeMap} {names : List String}
    {define : ScopeId → WalkM Unit} (h : Defining types names define) (needsScope : Bool)
    (scope : ScopeId) : Complaining needsScope (define scope) := by
  cases h with
  | args args => exact .defineArgs types scope args
  | argv => exact .define _ _ _

def Position.needsScope : Position → Bool
  | within _ | knowing .. => true
  | anywhere | owning .. => false

theorem complaining_rules (types : TypeMap) :
    WalkRules types fun p _ x => Complaining p.needsScope x where
  pure _ := .pure _
  bind hx hy := .bind hx fun _ => hy
  anywhere h := .mono h
  knowing h := h
  reading {p _ _} h := .get_bind fun w _ => by
    have hw := h w
    cases p with
    | _ => exact hw
  relabel := .relabel
  inside scope h := .inside scope h
  opening _ hdefine hinner hrest := .bind .openScope fun scope =>
    .bind (hdefine.complaining _ scope) fun _ => .bind (.mono (hinner scope)) fun _ => hrest
  refer node name _ := .refer types node name

instance (registry : Registry) (table : ScopeTable) :
    Complains (table.assignBindings registry) := by
  unfold assignBindings
  have hstep : ∀ (state : Registry × ScopeTable) (root : ScopeId × Nat), Complains (do
      let className := ((state.2.scope? root.1).map (·.className)).getD ""
      let name := className ++ "$Binding" ++ toString (root.2 + 1)
      let (registry, binding) ←
        match (state.1.get name).toOption.filter state.1.isComplete with
        | some existing => pure (state.1, existing)
        | none => state.1.define name none [] false
      return (registry, state.2.modify root.1 ({ · with binding := some binding })) :
      Except Fault (Registry × ScopeTable)) := by
    intro state root
    extract_lets className name
    split <;> infer_instance
  infer_instance

theorem analyze_complains {mainClass : String} {types : TypeMap}
    (hkind : script.kind = .script statements) :
    Complains (analyze mainClass script types registry) := by
  unfold analyze
  have hvisit : Complains ((visit types script).run { className := mainClass }) :=
    ⟨fun {fault} h => ((complaining_rules types).visitScript hkind 0 _ nofun).1 fault h⟩
  infer_instance

end ScopeTable

/-! ## Members -/

namespace TypeMap

variable (types : TypeMap)

instance (args : List Argument) : Complains (types.arities args) := by
  unfold arities
  infer_instance

instance (owner : Ty) (isStatic : Bool) (node : Node) :
    Complains (types.ownMembers owner isStatic node) := by
  unfold ownMembers
  split <;> infer_instance

instance (owner : Ty) (isStatic : Bool) (node : Node) :
    Complains (types.partSite owner isStatic node) := by
  unfold partSite
  split <;> infer_instance

theorem membersOf_complains (owner : Ty) (isStatic : Bool) (node : Node) :
    Complains (types.membersOf owner isStatic node) := by
  induction hsize : node.size using Nat.strongRecOn generalizing node owner isStatic with
  | _ n ih =>
  have hall : ∀ owner isStatic nodes, (∀ part ∈ nodes, part.size < n) →
      Complains (types.membersOfAll owner isStatic nodes) := by
    intro owner isStatic nodes hn
    induction nodes with
    | nil =>
      rw [membersOfAll]
      infer_instance
    | cons node rest hrest =>
      obtain ⟨hnode, hn⟩ := List.forall_mem_cons.1 hn
      have hfirst := ih node.size hnode owner isStatic node rfl
      have hrest := hrest hn
      rw [membersOfAll]
      infer_instance
  have hparts := fun t flag => hall t flag node.children fun part hpart =>
    hsize ▸ Node.size_lt_of_mem_children hpart
  obtain ⟨join, -, heq⟩ := types.membersOf_eq owner isStatic node
  rw [heq]
  infer_instance

end TypeMap

/-! ## Emission -/

/-- The state is one of the place, and the name of the class has no blank. -/
structure Emission.Stands {ctx : Context} {η : Type} (S : Setting ctx η) (home : η)
    (σ : Emission) : Prop extends σ.AtHome S home where
  named : ' ' ∉ σ.classType.display.toList

theorem Emission.keeping_stands {ctx : Context} {η : Type} (S : Setting ctx η) (home : η) :
    Emit.Keeping (·.Stands S home) Emission.Restored where
  restored _ h := h
  trans := .trans
  keeps hσ h := ⟨hσ.toAtHome.restored h, h.classType ▸ hσ.named⟩

theorem exists_closureConstructor (closure binding : Ty) :
    ∃ constructor, closureConstructor closure binding = .ok constructor := by
  unfold closureConstructor
  exact Assembler.exists_finish_of_straight rfl rfl rfl

theorem Context.exists_closureShell (ctx : Context) (t : Ty) (interfaces : List String)
    (carried : Option Ty) : ∃ shell, ctx.closureShell t interfaces carried = .ok shell := by
  unfold closureShell
  cases carried with
  | none => exact ⟨_, rfl⟩
  | some binding =>
    obtain ⟨constructor, hconstructor⟩ := exists_closureConstructor t binding
    simp only [hconstructor]
    exact ⟨_, rfl⟩

theorem Context.Prepared.exists_slot {ctx : Context} {strategy : BindingStrategy}
    {scope : Option ScopeId} {header other : Frame.Header} {binding : Ty}
    (h : ctx.Prepared strategy scope header) (hbinding : header.binding = some binding)
    (hother : ctx.Prepared strategy scope other) : ∃ slot, other.bindingSlot = some slot := by
  obtain ⟨-, h⟩ := h
  obtain ⟨-, hother⟩ := hother
  split at h
  · rw [h] at hbinding
    cases hbinding
  · rw [h] at hbinding
    cases hbinding
  · rename_i hclass hstrategy
    rw [hclass] at hother
    split at hother
    · contradiction
    · exact absurd rfl hstrategy
    · exact hother.2

namespace ScopeTable.Records

variable {ctx : Context} {items : List Item} (hrecords : ctx.scopes.Records items)
include hrecords

/-- What analysis and emission know of a script rules out all lapses. -/
theorem not_breach_of_lapse (hnames : ∀ node t, ctx.typeOf node = .ok t → ' ' ∉ t.display.toList)
    (home : BindingStrategy × Option (Option ScopeId))
    (h : ctx.Lapse (hrecords.prepared.fits home) (·.Stands hrecords.prepared home) fault) :
    ¬ fault.IsBreach := by
  cases h with
  | unscopedLocal hnode hname hnone =>
    obtain ⟨around, hsub, -⟩ := hnode
    obtain ⟨scope, hscope⟩ := hrecords.exists_definingScope?
      (hsub (reference_mem_outline hname around).2)
    rw [hnone] at hscope
    cases hscope
  | @unscopedClause node main clauses elseClause clause name hnode hkind hclause hname hnone =>
    obtain ⟨around, hopening, -⟩ := Node.Fits.exists_opening hnode hkind hclause
    obtain ⟨scope, hscope⟩ := hrecords.exists_scopeFor? hopening
    rw [hnone] at hscope
    cases hscope
  | @untypedVariable node main clauses elseClause clause name scope hnode hkind hclause hname
    hscope hnone =>
    obtain ⟨around, hopening, -⟩ := Node.Fits.exists_opening hnode hkind hclause
    obtain ⟨found, hfound, hlocal⟩ : ctx.scopes.Defines scope name :=
      hrecords.holds.2 (.inl ⟨_, hopening, hscope, by simp [hname]⟩)
    rw [hfound, Option.bind_some] at hnone
    rw [Scope.hasLocal, hnone] at hlocal
    cases hlocal
  | @unstoredBinding σ τ current later binding hσ hcurrent hbinding hτ hlater hnone =>
    obtain ⟨hstrategy, hscope, hprepared⟩ := hσ.holds
    obtain ⟨hstrategy', hscope', hprepared'⟩ := hτ.holds
    rw [hcurrent] at hscope hprepared
    rw [hlater] at hscope' hprepared'
    have hsame : later.header.scope = current.header.scope :=
      Option.some.inj (hscope'.trans hscope.symm)
    have hfirst := hprepared current.header rfl
    have hsecond := hprepared' later.header rfl
    rw [hstrategy', hsame, ← hstrategy] at hsecond
    obtain ⟨slot, hslot⟩ := hfirst.exists_slot hbinding hsecond
    cases hnone.symm.trans hslot
  | @badShell t interfaces carried fault hfault =>
    obtain ⟨shell, hshell⟩ := ctx.exists_closureShell t interfaces carried
    cases hshell.symm.trans hfault
  | notArray ht => exact (Fault.isComplaint_notArray (hnames _ _ ht)).not_breach
  | noSuperclass hσ => exact (Fault.isComplaint_noSuperclass hσ.named).not_breach

def safety (hnames : ∀ node t, ctx.typeOf node = .ok t → ' ' ∉ t.display.toList) :
    Congruence ctx (BindingStrategy × Option (Option ScopeId)) where
  toStepwise := Emit.Keeping.steps ctx (Emission.keeping_stands hrecords.prepared)
    (fun home => home.2.isSome) fun {home σ} hframed hσ => by
      rw [← hσ.holds.2.1, Option.isSome_map, Option.isSome_map] at hframed
      exact hframed
  fits := hrecords.prepared.fits
  works := hrecords.prepared.fits
  inside home _ := home
  outside home _ := home
  frameOf := hrecords.prepared.frameOf
  classOf := hrecords.prepared.classOf
  admits recur := ∃ depth, recur = ctx.recursion depth
  closes scope left := ∃ later, left = some later ∧ scope.Extends later
  allows_lapse home _ h := hrecords.not_breach_of_lapse hnames home h
  allows_scopeOrder := by
    rintro clause _ ⟨later, rfl, hlater⟩ hne
    cases hlater with
    | ensure _ _ more => exact absurd rfl (hne _)
  framed_inside h := h
  framed_outside h := h
  framed_frameOf := rfl
  report _ _ := .of_restores (Emission.keeping_stands _ _) (.sharing _) fun _ _ => ⟨_, _, rfl⟩
  marking h := .of_restores (Emission.keeping_stands _ _) (.marking h) fun _ _ => ⟨_, _, rfl⟩
  recordGap depth gap := .of_restores (Emission.keeping_stands _ _) (.recordGap depth gap)
    fun _ _ => ⟨_, _, rfl⟩
  openScope {home scope x _ f _} hscope hx hf := by
    have hinner : ∀ {σ : Emission}, σ.Stands hrecords.prepared home →
        Emission.Stands hrecords.prepared home { σ with jumps := scope :: σ.jumps } :=
      fun hσ => ⟨hσ.toAtHome.openScope hscope, hσ.named⟩
    refine .bind_of_ok (Emission.keeping_stands _ _) (.openScope hinner hx) ?_
    rintro left ⟨σ, τ, hσ, hrun⟩
    exact hf left (Emit.Safe.extends_of_openScope hinner hx hσ hrun)
  detached h := .detached (fun hσ => ⟨hσ.toAtHome.detached, hσ.named⟩) h
  method := by
    rintro home _ _ spec ⟨depth, rfl⟩ h
    exact Context.safe_emitMethod (fun hσ hrun =>
      ⟨hσ.toAtHome.inFrame hrun, hrun.sameScopes.classType ▸ hσ.named⟩) h
  nested := by
    rintro home fresh classType strategy x _ - ⟨node, hnode⟩ h
    refine .bind (Emission.keeping_stands _ _)
      (.inClass (fun unit => ⟨.inClass unit _ _ _, hnames node classType hnode⟩) h) fun _ => ?_
    exact .of_restores (Emission.keeping_stands _ _) (.sharing _) fun _ _ => ⟨_, _, rfl⟩
  works_of_fits := id
  fits_clause hfits hσ := hrecords.prepared.agreement.fits_clause hfits hσ.toAtHome
  fits_part hfits hplain _ := hrecords.prepared.fits_part hfits hplain
  fits_loop hfits hkind := hrecords.prepared.fits_part hfits (by rw [hkind]; rfl)
  fits_ensure := hrecords.prepared.agreement.fits_ensure
  fits_method := hrecords.prepared.fits_method
  fits_constructor := hrecords.prepared.fits_constructor
  fits_member := hrecords.prepared.fits_member
  fits_initializer := hrecords.prepared.fits_initializer
  fits_closure hfits hkind hσ hcurrent := hrecords.prepared.fits_closure hfits hkind (by
    have h := hσ.holds
    rwa [hcurrent, Option.map_some] at h)

end ScopeTable.Records

namespace Context

variable {ctx : Context} {items : List Item}

theorem safety_recursion (hrecords : ctx.scopes.Records items)
    (hnames : ∀ node t, ctx.typeOf node = .ok t → ' ' ∉ t.display.toList) (depth : Nat) :
    (ctx.recursion depth).Related (hrecords.safety hnames) (ctx.recursion depth) :=
  related_recursion (C := hrecords.safety hnames) (fun depth => ⟨depth, rfl⟩)
    (fun _ _ => trivial) depth

/-- Emission of a script that has been analyzed meets with no breach. -/
theorem not_breach_of_emitScript (hkind : script.kind = .script statements)
    (hrecords : ctx.scopes.Records (script.outline script.id))
    (hnames : ∀ node t, ctx.typeOf node = .ok t → ' ' ∉ t.display.toList) {depth : Nat}
    {σ τ : Emission} (hjumps : σ.jumps = []) (hframe : σ.frame = none)
    (hstrategy : σ.strategy = .construct) (hnamed : ' ' ∉ σ.classType.display.toList)
    (h : ctx.emitScript (ctx.recursion depth) script statements σ = .error fault τ) :
    ¬ fault.IsBreach := by
  have hfits := Node.Fits.of_script hkind hrecords
  have hσ : σ.Stands hrecords.prepared (.construct, none) :=
    ⟨⟨by rw [hframe]; exact ⟨hstrategy, rfl, nofun⟩, fun hclause => by simp [hjumps] at hclause⟩,
      hnamed⟩
  have hscript : (hrecords.safety hnames).Related (.construct, none)
      (ctx.emitScript (ctx.recursion depth) script statements)
      (ctx.emitScript (ctx.recursion depth) script statements) :=
    related_emitScript (safety_recursion hrecords hnames depth)
      (fun part hpart hdefinition => (hfits part hpart).of_isDefinition hdefinition _) hfits
  exact (hscript hσ).2 fault τ h

end Context

/-! ## The class of a script -/

variable {registry : Registry}

theorem ScopeTable.goesBy_of_lookedUp {registry' : Registry} {name : String} {t : Ty}
    (hlast : name.toList.getLast? ≠ some ']') (h : lookedUp registry name = .ok (registry', t)) :
    t.GoesBy name := by
  unfold lookedUp at h
  split at h
  · rename_i existing hexisting
    cases h
    have hget := (Option.filter_eq_some_iff.1 hexisting).1
    cases hfound : registry.get name with
    | error fault =>
      rw [hfound] at hget
      cases hget
    | ok found =>
      rw [hfound] at hget
      cases hget
      exact Registry.goesBy_of_get hlast hfound
  · obtain rfl := (Registry.define_eq_ok h).1
    exact ⟨rfl, rfl, rfl⟩

theorem Program.defineMain_eq_lookedUp (program : Program) (className : String) :
    program.defineMain className = ScopeTable.lookedUp program.registry className := by
  unfold defineMain ScopeTable.lookedUp
  cases (program.registry.get className).toOption.filter program.registry.isComplete <;> rfl

theorem Program.goesBy_of_defineMain {program : Program} {file : String} {mainType : Ty}
    (h : program.defineMain (Naming.scriptClass file) = .ok (registry, mainType)) :
    mainType.GoesBy (Naming.scriptClass file) := by
  rw [defineMain_eq_lookedUp] at h
  refine ScopeTable.goesBy_of_lookedUp (fun hlast => ?_) h
  cases Naming.isAlphanum_of_mem_scriptClass (List.mem_of_getLast? hlast)

theorem Program.blank_notMem_of_defineMain {program : Program} {file : String} {mainType : Ty}
    (h : program.defineMain (Naming.scriptClass file) = .ok (registry, mainType)) :
    ' ' ∉ mainType.display.toList := by
  have hgoes := goesBy_of_defineMain h
  rw [Ty.display, hgoes.isMeta, hgoes.name]
  intro hmem
  cases Naming.isAlphanum_of_mem_scriptClass hmem

/-! ## Binding classes -/

theorem BindingLayout.exists_toClass (layout : BindingLayout) (settings : Settings) :
    ∃ c, layout.toClass settings = .ok c := by
  unfold toClass
  extract_lets empty withFields body
  obtain ⟨constructor, hfinish⟩ : ∃ method, body.finish = .ok method :=
    Assembler.exists_finish_of_straight rfl rfl rfl
  rw [hfinish]
  exact ⟨_, rfl⟩

theorem Compilation.exists_addBindings (c : Compilation) (settings : Settings)
    (layouts : List BindingLayout) : ∃ closed, c.addBindings settings layouts = .ok closed := by
  induction layouts generalizing c with
  | nil => exact ⟨c, rfl⟩
  | cons layout rest ih =>
    obtain ⟨finished, hfinished⟩ := layout.exists_toClass settings
    obtain ⟨closed, hclosed⟩ := ih (c.addClass finished)
    refine ⟨closed, ?_⟩
    unfold addBindings
    rw [hfinished]
    exact hclosed

/-- Once a script is emitted, closing the compilation brings no fault. -/
theorem Compilation.finish_ne_fault (c : Compilation) (settings : Settings) (fault : Fault) :
    (c.finish settings).1 ≠ .error (.fault fault) := by
  unfold finish
  split
  · nofun
  · obtain ⟨closed, hclosed⟩ := c.exists_addBindings settings c.bindings
    rw [hclosed]
    nofun

/-! ## Scripts -/

/-- A definition of a method without parameters that returns nothing. -/
def Build.procedure (name : String) (body : Node) : Build Node :=
  node (.methodDef {
    name, args := [], body := some body, isStatic := false, throws := [], notes := [] })
    (some .void) none

/-- A closure whose method defines a method `g`, and calls it. In `g` a closure
reads a local of `g`. -/
def nestedDemo : Program := .ofBuild do
  let one ← Build.node (.fixnum 1) (some Ty.int) none
  let y ← Build.node (.localAssign "y" one) none none
  let read ← Build.node (.localAccess "y") (some Ty.int) none
  let print ← Build.node (.print true [read]) none none
  let reader ← Build.procedure "run" print
  let inner ← Build.node (.closureDef {
    name := "Demo$C2", interfaces := ["java.lang.Runnable"], methods := [reader] }) none none
  let body ← Build.node (.body [y, inner]) none none
  let g ← Build.procedure "g" body
  let call ← Build.node (.selfCall "g" []) (some .void) none
  let calling ← Build.node (.body [g, call]) none none
  let method ← Build.procedure "run" calling
  let outer ← Build.node (.closureDef {
    name := "Demo$C1", interfaces := ["java.lang.Runnable"], methods := [method] }) none none
  Build.node (.script [outer]) none none

/-- The method in the closure looks for its binding in vain. -/
theorem nestedDemo_lacks_binding : nestedDemo.compile.1 =
    .error (.fault (.internal "captured local without a binding")) := by
  have heval : (match nestedDemo.compile.1 with
      | .error (.fault fault) => fault == .internal "captured local without a binding"
      | _ => false) = true := by decide +kernel
  cases hcompile : nestedDemo.compile.1 with
  | ok _ => rw [hcompile] at heval; cases heval
  | error error =>
    rw [hcompile] at heval
    cases error with
    | failed _ => cases heval
    | fault fault => rw [beq_iff_eq.1 heval]

namespace Program

variable {program : Program} {className : String} {logger : Logger} {log : Log}

theorem isComplaint_of_prepare (hkind : program.script.kind = .script statements)
    (h : (program.prepare className logger log).1 = .error fault) : fault.IsComplaint := by
  have hdefine : Complains (program.defineMain className) := by
    unfold defineMain
    split <;> infer_instance
  unfold prepare at h
  split at h
  · rename_i hfault
    cases h
    exact Complains.isComplaint hfault
  · rename_i registry mainType _
    split at h
    · rename_i hfault
      cases h
      exact (ScopeTable.analyze_complains hkind).isComplaint hfault
    · split at h
      · rename_i hfault
        cases h
        exact (program.types.membersOf_complains mainType true _).isComplaint hfault
      · cases h

theorem exists_of_prepare {ctx : Context} {mainType : Ty}
    (h : (program.prepare className logger log).1 = .ok (ctx, mainType)) :
    ∃ registry, program.defineMain className = .ok (registry, mainType) ∧
      ctx.types = program.types ∧
      ScopeTable.analyze className program.script program.types registry =
        .ok (ctx.registry, ctx.scopes) ∧
      ∃ declared, program.types.membersOf mainType true program.script = .ok declared ∧
        ctx.members = program.members.declareAll (declared ++ [.constructor mainType []]) := by
  unfold prepare at h
  split at h
  · cases h
  · rename_i registry _ hmain
    split at h
    · cases h
    · rename_i hanalyze
      split at h
      · cases h
      · rename_i declared hdeclared
        cases h
        exact ⟨registry, hmain, rfl, hanalyze, declared, hdeclared, rfl⟩

/-- A fault of a compilation is never a breach, if no two nodes of the script are
the same one and the names of types have no blanks. So the labels of a method
are all placed and its regions protect something, jump scopes are closed in the
order in which they were opened, code is emitted into a frame that is there
until the method is finished, scope analysis has seen every local and every
rescue clause, and a binding that is needed is in its slot. -/
theorem compile_not_breach
    (hdistinct : ScopeTable.Distinct (program.script.outline program.script.id))
    (hnames : ∀ id t, program.types.find? id = some t → ' ' ∉ t.display.toList) {fault : Fault}
    (h : program.compile.1 = .error (.fault fault)) : ¬ fault.IsBreach := by
  unfold compile compileBy at h
  extract_lets logger className log at h
  split at h
  · rename_i statements hkind
    split at h
    · rename_i failure _ hprepare
      cases h
      exact (isComplaint_of_prepare hkind (congrArg Prod.fst hprepare)).not_breach
    · rename_i ctx mainType _ hprepare
      obtain ⟨registry, hmain, htypes, hanalyze, -⟩ :=
        exists_of_prepare (congrArg Prod.fst hprepare)
      have hrecords := ScopeTable.analyze_records hkind hdistinct hanalyze
      have hnames' : ∀ node t, ctx.typeOf node = .ok t → ' ' ∉ t.display.toList := by
        intro node t ht
        rw [Context.typeOf, htypes, TypeMap.typeOf] at ht
        split at ht
        · rename_i found hfound
          cases ht
          exact hnames _ _ hfound
        · cases ht
      extract_lets start at h
      split at h
      · exact absurd h (Compilation.finish_ne_fault _ _ fault)
      · rename_i failure done hdone
        cases h
        exact Context.not_breach_of_emitScript hkind hrecords hnames' rfl rfl rfl
          (blank_notMem_of_defineMain hmain) hdone
  · cases h
    exact (inferInstance : (Fault.unsupported _).IsComplaint).not_breach

/-- The method in the closure looks for its binding in vain, and that is a
complaint. -/
theorem nestedDemo_not_breach : ∃ fault,
    nestedDemo.compile.1 = .error (.fault fault) ∧ ¬ fault.IsBreach := by
  have heval : (match nestedDemo.compile.1 with
      | .error (.fault _) => true
      | _ => false) = true := by decide +kernel
  have hdistinct : ScopeTable.Distinct (nestedDemo.script.outline nestedDemo.script.id) :=
    ⟨by decide +kernel, by decide +kernel⟩
  have hentries : (nestedDemo.types.entries.all fun entry =>
      entry.all fun t => t.display.toList.all (· != ' ')) = true := by decide +kernel
  have hnames : ∀ id t, nestedDemo.types.find? id = some t → ' ' ∉ t.display.toList := by
    intro id t ht hblank
    rw [TypeMap.find?, Option.join_eq_some_iff, Array.getElem?_eq_some_iff] at ht
    obtain ⟨hid, hentry⟩ := ht
    have hall := Array.all_eq_true.1 hentries id hid
    rw [hentry] at hall
    cases List.all_eq_true.1 hall ' ' hblank
  cases hcompile : nestedDemo.compile.1 with
  | ok _ => rw [hcompile] at heval; cases heval
  | error error =>
    cases error with
    | failed _ => rw [hcompile] at heval; cases heval
    | fault fault => exact ⟨fault, rfl, compile_not_breach hdistinct hnames hcompile⟩

end Program

end ClassBackend
