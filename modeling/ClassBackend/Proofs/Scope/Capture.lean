import ClassBackend.Proofs.Emission.Agreement
import ClassBackend.Proofs.Machine.Unit
import ClassBackend.Proofs.Scope.Home

/-!
# Captured and uncaptured locals

Capture analysis is exact: a local is marked captured if and only if some
reference reaches it through a closure. So an uncaptured local is only referred
to in the frame that holds its slot.

The second half is a statement about what emission does on the way. It is put
as the equality of emission with `Context.owning`, which refuses an uncaptured
local in any other frame and knows no other place for it than its slot.
-/

namespace ClassBackend

variable {node : Node}

/-! ## Emission that insists on the owner -/

namespace Context

variable {name : String} {info : LocalInfo}

variable (ctx : Context)

/-- The uncaptured local a node refers to, by its name. -/
def slotLocal? (node : Node) : Option (String × LocalInfo) :=
  match node.localName? with
  | none => none
  | some name =>
    match ctx.localInfo node name with
    | .ok info => if info.captured then none else some (name, info)
    | .error _ => none

def emitInSlot (recur : Recursion) (node : Node) (name : String) (info : LocalInfo) (want : Bool) :
    Emit Unit := do
  ctx.enter node
  match node.kind with
  | .localAssign _ value =>
    let slot ← ctx.localSlot info.scope name info.type
    ctx.emitAs recur value info.type
    if want then Emit.code info.type.dupCode
    Emit.codeOf (info.type.storeCode slot)
  | _ =>
    if want then
      let slot ← ctx.localSlot info.scope name info.type
      Emit.codeOf (info.type.loadCode slot)

/-- Emit a node; an uncaptured local only in its slot, and only in the frame of
the scope that defines it. -/
def emitOwned (recur : Recursion) (node : Node) (want : Bool) : Emit Unit :=
  match ctx.slotLocal? node with
  | none => ctx.emitNode recur node want
  | some (name, info) => do
    if (← Emit.frame).scope = some (ctx.scopes.definitionScope info.scope) then
      ctx.emitInSlot recur node name info want
    else throw (.internal ("local " ++ name ++ " outside of its frame"))

/-- Emission of nodes nested at most `depth` deep that insists on the owners of
locals. -/
def owning : (depth : Nat) → Recursion
  | 0 => { emit := fun _ _ => throw .tooDeep, branch := fun _ _ _ => throw .tooDeep }
  | depth + 1 => {
    emit := fun node want => ctx.emitOwned (owning depth) node want
    branch := fun node target when => ctx.branchOn (owning depth) node target when }

variable {ctx}

theorem slotLocal?_eq_some :
    ctx.slotLocal? node = some (name, info) ↔ node.localName? = some name ∧
      ctx.localInfo node name = .ok info ∧ info.captured = false := by
  unfold slotLocal?
  cases node.localName? with
  | none => simp
  | some known =>
    dsimp only
    cases hinfo : ctx.localInfo node known with
    | error fault =>
      refine ⟨nofun, fun ⟨hname, h, _⟩ => ?_⟩
      cases hname
      rw [hinfo] at h
      cases h
    | ok found =>
      dsimp only
      split
      · rename_i hcaptured
        refine ⟨nofun, fun ⟨hname, h, huncaptured⟩ => ?_⟩
        cases hname
        cases hinfo.symm.trans h
        rw [hcaptured] at huncaptured
        cases huncaptured
      · rename_i hcaptured
        rw [Option.some.injEq, Prod.mk.injEq, Option.some.injEq]
        constructor
        · rintro ⟨rfl, rfl⟩
          exact ⟨rfl, hinfo, Bool.eq_false_iff.2 hcaptured⟩
        · rintro ⟨rfl, h, -⟩
          exact ⟨rfl, Except.ok.inj (hinfo.symm.trans h)⟩

/-- What is known about a local comes from the scope that defines it. -/
theorem localInfo_eq_ok (h : ctx.localInfo node name = .ok info) :
    ctx.scopes.definingScope? node.id = some info.scope ∧
      info.captured = ctx.scopes.isCaptured info.scope name := by
  unfold localInfo at h
  cases hscope : ctx.scopes.definingScope? node.id with
  | none => simp [hscope] at h
  | some scope =>
    simp only [hscope] at h
    cases hlocal : (ctx.scopes.scope? scope).bind (·.localType? name) with
    | some t =>
      simp only [hlocal, pure_bind] at h
      cases h
      exact ⟨rfl, rfl⟩
    | none =>
      simp only [hlocal] at h
      obtain ⟨t, -, h⟩ := ScopeTable.WalkM.orFault_bind_eq_ok.1 h
      cases h
      exact ⟨rfl, rfl⟩

theorem emitNode_eq_emitInSlot (h : ctx.slotLocal? node = some (name, info)) (recur : Recursion)
    (want : Bool) : ctx.emitNode recur node want = ctx.emitInSlot recur node name info want := by
  obtain ⟨hname, hinfo, hcaptured⟩ := slotLocal?_eq_some.1 h
  unfold emitNode emitInSlot
  refine congrArg _ (funext fun _ => ?_)
  unfold Node.localName? at hname
  cases hkind : node.kind <;> simp only [hkind, reduceCtorEq, Option.some.injEq] at hname
  all_goals
    subst hname
    simp only [emitLocalAccess, emitLocalAssign, hinfo, Emit.ofExcept, pure_bind, hcaptured,
      Bool.false_eq_true, if_false]

end Context

/-! ## Only in the frame of the owner -/

/-- The places of emission are the frames, by their scopes, and nodes are
emitted in the frames of the scopes they stand in. -/
def ScopeTable.Records.frames {ctx : Context} {items : List Item}
    (hrecords : ctx.scopes.Records items) : Setting ctx (Option (Option ScopeId)) where
  fits home node := node.Fits ctx.scopes items home
  holds home _ header := header.map (·.scope) = home
  frameOf _ scope := some scope
  classOf _ := none
  holds_frame _ hprepared := congrArg some hprepared.1
  holds_class := rfl
  fits_part hfits := hfits.of_mem_children hrecords
  fits_method hfits hkind :=
    hfits.of_definition hrecords (by rw [hkind]; rfl) (by rw [hkind]; nofun)
  fits_constructor hfits hkind :=
    hfits.of_definition hrecords (by rw [hkind]; rfl) (by rw [hkind]; nofun)
  fits_member {_ _ _ member} hfits hkind hmem hmember := by
    refine (hfits.of_definition hrecords (by rw [hkind]; rfl) (by rw [hkind]; nofun)
      (by rwa [Node.children, hkind])).of_isDefinition ?_ none
    unfold NodeKind.isInitializer at hmember
    cases hmk : member.kind <;> simp [hmk, NodeKind.isDefinition] at hmember ⊢
  fits_initializer hfits hkind hmem _ :=
    hfits.of_definition hrecords (by rw [hkind]; rfl) (by rw [hkind]; nofun)
      (by rwa [Node.children, hkind])
  fits_closure hfits hkind _ := hfits.of_closure hrecords hkind

/-- The same places, with the strategy of the class and what preparing its
binding makes of a frame. -/
def ScopeTable.Records.prepared {ctx : Context} {items : List Item}
    (hrecords : ctx.scopes.Records items) :
    Setting ctx (BindingStrategy × Option (Option ScopeId)) where
  fits home node := node.Fits ctx.scopes items home.2
  holds home strategy header := strategy = home.1 ∧ header.map (·.scope) = home.2 ∧
    ∀ h ∈ header, ctx.Prepared strategy h.scope h
  frameOf home scope := (home.1, some scope)
  classOf strategy := (strategy, none)
  holds_frame {home strategy outer scope header} hholds hprepared := by
    refine ⟨hholds.1, congrArg some hprepared.1, fun h hh => ?_⟩
    cases hh
    exact hprepared.1 ▸ hprepared
  holds_class := ⟨rfl, rfl, nofun⟩
  fits_part := hrecords.frames.fits_part
  fits_method := hrecords.frames.fits_method
  fits_constructor := hrecords.frames.fits_constructor
  fits_member := hrecords.frames.fits_member
  fits_initializer := hrecords.frames.fits_initializer
  fits_closure hfits hkind _ := hfits.of_closure hrecords hkind

namespace Context

open Emit

variable {ctx : Context} {items : List Item}

/-- Where a node is at home, insisting on the owners of locals changes
nothing. -/
theorem agree_emitOwned (hrecords : ctx.scopes.Records items) {recur other : Recursion}
    (hrecur : recur.Related hrecords.frames.agreement other) {home : Option (Option ScopeId)}
    (hnode : node.Fits ctx.scopes items home) (want : Bool) :
    Agree (·.AtHome hrecords.frames home) (ctx.emitNode recur node want)
      (ctx.emitOwned other node want) := by
  have hagree : Agree (·.AtHome hrecords.frames home) (ctx.emitNode recur node want)
    (ctx.emitNode other node want) := related_emitNode hrecur hnode trivial want
  unfold emitOwned
  split
  · exact hagree
  · rename_i name info hslot
    obtain ⟨hname, hinfo, huncaptured⟩ := slotLocal?_eq_some.1 hslot
    obtain ⟨hscope, hcaptured⟩ := localInfo_eq_ok hinfo
    have hhome := hnode.home_eq hrecords hname hscope (hcaptured.symm.trans huncaptured)
    intro σ hσ
    obtain ⟨heq, hrestored⟩ := hagree hσ
    refine ⟨heq.trans ?_, hrestored⟩
    -- there is a frame, and it is the one of the scope
    have hframe : (σ.frame.map Frame.header).map (·.scope) = home := hσ.holds
    rw [hhome, Option.map_map] at hframe
    obtain ⟨current, hcurrent, howner⟩ := Option.map_eq_some_iff.1 hframe
    replace howner : current.scope = some (ctx.scopes.definitionScope info.scope) := howner
    have hread : Emit.frame σ = .ok current σ := frame_eq_ok.2 ⟨hcurrent, rfl⟩
    rw [emitNode_eq_emitInSlot hslot]
    show _ = EStateM.bind Emit.frame _ σ
    rw [EStateM.bind, hread]
    simp only [howner, if_true]

theorem related_owning (hrecords : ctx.scopes.Records items) (depth : Nat) :
    (ctx.recursion depth).Related hrecords.frames.agreement (ctx.owning depth) := by
  induction depth with
  | zero => exact ⟨trivial, fun _ _ => .throw _, fun _ _ _ => .throw _, fun _ _ => .throw _⟩
  | succ depth ih =>
    exact ⟨trivial, fun want hnode => agree_emitOwned hrecords ih hnode want,
      fun target when hnode => related_branchOn ih hnode (ih.emit true hnode) target when,
      fun hnode _ => agree_emitOwned hrecords ih hnode false⟩

end Context

/-- Capture analysis is exact. Every reference to a local is resolved to the
nearest scope that already holds its name, up to the first method, and
otherwise to the nearest scope that is no block. A local is captured if and
only if some reference to it leaves a closure on its way to the scope of the
local. And so the references to an uncaptured local are emitted in the frame of
its scope, where they read and write its slot. -/
theorem ScopeTable.analyze_captures_exactly {mainClass : String} {script : Node}
    {statements : List Node} {types : TypeMap} {registry registry' : Registry}
    {table : ScopeTable} (hkind : script.kind = .script statements)
    (hdistinct : Distinct (script.outline script.id))
    (hanalyze : analyze mainClass script types registry = .ok (registry', table)) :
    (∀ node name, script.Below node → node.localName? = some name →
      ∃ before r after, script.outline script.id = before ++ .reference r :: after ∧
        r.node = node.id ∧ r.name = name ∧ table.Resolves before r) ∧
    (∀ scope name, table.isCaptured scope name = true ↔
      table.Reaches (script.outline script.id) scope name) ∧
    ∀ (ctx : Context) (depth : Nat) (σ : Emission), ctx.scopes = table → σ.jumps = [] →
      ctx.emitScript (ctx.recursion depth) script statements σ =
        ctx.emitScript (ctx.owning depth) script statements σ := by
  have hrecords := analyze_records hkind hdistinct hanalyze
  refine ⟨fun node name hbelow hname => ?_, fun _ _ => hrecords.captures, ?_⟩
  · obtain ⟨around, hmem⟩ : ∃ scope,
        .reference { node := node.id, name, around := scope } ∈ script.outline script.id :=
      exists_reference_of_below hbelow hname
    obtain ⟨before, after, heq⟩ := List.append_of_mem hmem
    exact ⟨before, _, after, heq, rfl, rfl, hrecords.resolves heq⟩
  · rintro ctx depth σ rfl hjumps
    have hstatements := Node.Fits.of_script hkind hrecords
    exact hrecords.frames.emitScript_eq ((σ.frame.map Frame.header).map Frame.Header.scope)
      hjumps rfl (Context.related_owning hrecords depth)
      (fun part hpart hdefinition => (hstatements part hpart).of_isDefinition hdefinition _)
      hstatements

/-- A script with two locals, of which a closure reads one. The closure also
has a local `y` of its own, since the one of the script comes later. -/
def captureDemo : Program := .ofBuild do
  let one ← Build.node (.fixnum 1) (some Ty.int) none
  let x ← Build.node (.localAssign "x" one) none none
  let read ← Build.node (.localAccess "x") (some Ty.int) none
  let inner ← Build.node (.localAssign "y" read) none none
  let method ← Build.node (.methodDef {
    name := "run", args := [], body := some inner, isStatic := false, throws := [], notes := [] })
    (some .void) none
  let closure ← Build.node (.closureDef {
    name := "Demo$Closure1", interfaces := ["java.lang.Runnable"], methods := [method] }) none none
  let two ← Build.node (.fixnum 2) (some Ty.int) none
  let y ← Build.node (.localAssign "y" two) none none
  Build.node (.script [x, closure, y]) none none

theorem captureDemo_distinct :
    ScopeTable.Distinct (captureDemo.script.outline captureDemo.script.id) :=
  ⟨by decide +kernel, by decide +kernel⟩

theorem captureDemo_captures : ∃ registry table statements,
    ScopeTable.analyze "Demo" captureDemo.script captureDemo.types captureDemo.registry =
      .ok (registry, table) ∧
    captureDemo.script.kind = .script statements ∧
    table.Reaches (captureDemo.script.outline captureDemo.script.id) 0 "x" ∧
    ¬ table.Reaches (captureDemo.script.outline captureDemo.script.id) 0 "y" ∧
    ∀ (ctx : Context) (depth : Nat) (σ : Emission), ctx.scopes = table → σ.jumps = [] →
      ctx.emitScript (ctx.recursion depth) captureDemo.script statements σ =
        ctx.emitScript (ctx.owning depth) captureDemo.script statements σ := by
  obtain ⟨⟨registry, table⟩, hanalyze, heval⟩ := exists_ok_of_any
    (x := ScopeTable.analyze "Demo" captureDemo.script captureDemo.types captureDemo.registry)
    (p := fun result => result.2.isCaptured 0 "x" && !result.2.isCaptured 0 "y")
    (by decide +kernel)
  simp only [Bool.and_eq_true, Bool.not_eq_true'] at heval
  obtain ⟨-, hcaptures, howning⟩ :=
    ScopeTable.analyze_captures_exactly rfl captureDemo_distinct hanalyze
  refine ⟨registry, table, _, hanalyze, rfl, (hcaptures 0 "x").1 heval.1, ?_, howning⟩
  rw [← hcaptures 0 "y", heval.2]
  exact Bool.false_ne_true

end ClassBackend
