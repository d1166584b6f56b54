import ClassBackend.Proofs.Emission.Restoration

/-!
# When two emissions agree

Two actions agree in some states if they do the same there and put back what
they change (`Emit.Agree`); then what follows them starts from such a state
again.

Two recursions that do the same to the nodes which may be emitted at a place,
in the states that emission is in at that place, give the same emission. What
the places are is left open: a `Setting` says which nodes fit a place and which
frames are met there, and has to follow emission from place to place
(`Setting.agreement`).

At every place emission is in a frame whose binding has been prepared, or in no
frame at all; `Context.Prepared` says what there is to know about such a frame.
-/

namespace ClassBackend

/-! ## Frames with a binding -/

/-- The header of a frame is one that preparing the binding leaves, for a method
with a scope in a class with a strategy. -/
def Context.Prepared (ctx : Context) (strategy : BindingStrategy) (scope : Option ScopeId)
    (header : Frame.Header) : Prop :=
  header.scope = scope ∧
    match scope.bind ctx.scopes.bindingType?, strategy with
    | none, _ => header.binding = none
    | some _, .fromReceiver none => header.binding = none
    | some binding, _ => header.binding = some binding ∧ ∃ slot, header.bindingSlot = some slot

namespace Context

open Emit

variable {ctx : Context} {spec : MethodSpec} {σ τ : Emission} {u : Unit}

theorem Prepared.binding_eq {strategy : BindingStrategy} {scope : Option ScopeId}
    {header : Frame.Header} (h : ctx.Prepared strategy scope header) :
    header.binding = none ∨ header.binding = header.scope.bind ctx.scopes.bindingType? := by
  obtain ⟨rfl, h⟩ := h
  split at h
  · exact .inl h
  · exact .inl h
  · rename_i hbinding _
    exact .inr (h.1.trans hbinding.symm)

theorem storeBinding_header {binding : Ty} {header : Frame.Header}
    (hσ : σ.frame.map Frame.header = some header)
    (h : ctx.storeBinding spec binding σ = .ok u τ) :
    ∃ slot, τ.frame.map Frame.header = some { header with bindingSlot := some slot } := by
  obtain ⟨slot, τ1, hslot, h⟩ := bind_eq_ok.1 h
  obtain ⟨_, τ2, hstore, h⟩ := bind_eq_ok.1 h
  obtain ⟨current, hcurrent, h⟩ := frame_bind_eq_ok.1 h
  obtain ⟨_, τ3, hset, h⟩ := bind_eq_ok.1 h
  have hheader : current.header = header := by
    have hframe := ((restored_of_ok ctx (.temporary _) hslot).trans
      (restored_of_ok ctx (.instruction _) hstore)).frame
    rw [hcurrent, hσ] at hframe
    exact Option.some.inj hframe
  refine ⟨slot, ?_⟩
  rw [(restored_of_ok ctx (related_captureParams spec trivial slot) h).frame, modify_eq_ok.1 hset,
    ← hheader]
  rfl

theorem prepared_of_prepareBinding {frame : Frame} (hframe : σ.frame = some frame)
    (hscope : frame.scope = spec.scope)
    (hbinding : frame.binding = spec.scope.bind ctx.scopes.bindingType?)
    (h : (do ctx.initLocals spec; ctx.prepareBinding spec) σ = .ok u τ) :
    ∃ header, τ.frame.map Frame.header = some header ∧
      ctx.Prepared σ.strategy spec.scope header := by
  obtain ⟨_, τ1, hinit, h⟩ := bind_eq_ok.1 h
  have hstart : σ.Restored τ1 := restored_of_ok ctx (related_initLocals spec) hinit
  obtain ⟨current, hcurrent, h⟩ := frame_bind_eq_ok.1 h
  have hheader : τ1.frame.map Frame.header = some frame.header := by
    rw [hstart.frame, hframe, Option.map_some]
  have hcurrent' : current.header = frame.header := by
    rw [hcurrent, Option.map_some] at hheader
    exact Option.some.inj hheader
  have hknown : current.binding = spec.scope.bind ctx.scopes.bindingType? :=
    (congrArg Frame.Header.binding hcurrent').trans hbinding
  unfold Prepared
  rw [← hknown]
  cases hcase : current.binding with
  | none =>
    simp only [hcase] at h
    obtain ⟨-, rfl⟩ := pure_eq_ok.1 h
    exact ⟨_, hheader, hscope, (congrArg Frame.Header.binding hcurrent').symm.trans hcase⟩
  | some binding =>
    simp only [hcase] at h
    replace h := get_bind_eq_ok.1 h
    have hfields : frame.header.binding = some binding :=
      (congrArg Frame.Header.binding hcurrent').symm.trans hcase
    rw [← hstart.strategy]
    cases hstrategy : τ1.strategy with
    | construct =>
      simp only [hstrategy] at h
      obtain ⟨_, τ2, hshare, h⟩ := bind_eq_ok.1 h
      obtain ⟨_, τ3, hclass, h⟩ := bind_eq_ok.1 h
      obtain ⟨_, τ4, hcode, h⟩ := bind_eq_ok.1 h
      have hframe4 : τ4.frame.map Frame.header = some frame.header := by
        rw [(restored_of_ok ctx (.code _) hcode).frame, modify_eq_ok.1 hclass,
          (sharing_eq_ok.1 hshare).2, hheader]
      obtain ⟨slot, hslot⟩ := storeBinding_header hframe4 h
      exact ⟨_, hslot, hscope, hfields, slot, rfl⟩
    | fromReceiver carried =>
      cases carried with
      | some carried =>
        simp only [hstrategy] at h
        obtain ⟨_, τ2, hcode, h⟩ := bind_eq_ok.1 h
        have hframe2 : τ2.frame.map Frame.header = some frame.header := by
          rw [(restored_of_ok ctx (.code _) hcode).frame, hheader]
        obtain ⟨slot, hslot⟩ := storeBinding_header hframe2 h
        exact ⟨_, hslot, hscope, hfields, slot, rfl⟩
      | none =>
        simp only [hstrategy] at h
        obtain ⟨_, τ2, -, h⟩ := bind_eq_ok.1 h
        rw [modify_eq_ok.1 h]
        exact ⟨_, rfl, (congrArg Frame.Header.scope hcurrent').trans hscope, rfl⟩

end Context

/-! ## Actions that agree -/

namespace Emit

variable {ctx : Context} {σ τ : Emission} {α β : Type} {P Q : Emission → Prop}

/-- Sequences do the same if their parts do in the states they get to. -/
theorem bind_congr_of_ok {x y : Emit α} {f g : α → Emit β} (heq : x σ = y σ)
    (h : ∀ a τ, x σ = .ok a τ → f a τ = g a τ) : (x >>= f) σ = (y >>= g) σ := by
  show EStateM.bind x f σ = EStateM.bind y g σ
  unfold EStateM.bind
  rw [← heq]
  cases hrun : x σ with
  | ok a τ => exact h a τ hrun
  | error fault τ => rfl

/-- The two actions do the same in such states, and put back what they
change. -/
def Agree (P : Emission → Prop) (x y : Emit α) : Prop :=
  ∀ ⦃σ : Emission⦄, P σ → x σ = y σ ∧ σ.Restored (x.after σ)

namespace Agree

theorem same {x : Emit α} (h : x.Restores) : Agree P x x := fun σ _ => ⟨rfl, h σ⟩

/-- An action may be replaced by one that does the same in these states. -/
theorem congr_right {x y z : Emit α} (h : Agree P x y) (heq : ∀ σ : Emission, P σ → y σ = z σ) :
    Agree P x z := fun σ hσ => ⟨(h hσ).1.trans (heq σ hσ), (h hσ).2⟩

theorem bind {x y : Emit α} {f g : α → Emit β} (hP : ∀ {σ τ}, P σ → σ.Restored τ → P τ)
    (hx : Agree P x y) (hf : ∀ a, Agree P (f a) (g a)) : Agree P (x >>= f) (y >>= g) := by
  intro σ hσ
  obtain ⟨heq, hrestored⟩ := hx hσ
  have hnext : ∀ a τ, x σ = .ok a τ → P τ := fun a τ hrun =>
    hP hσ (after_of_ok hrun ▸ hrestored)
  exact ⟨bind_congr_of_ok heq fun a τ hrun => (hf a (hnext a τ hrun)).1,
    after_bind .trans hrestored fun a τ hrun => (hf a (hnext a τ hrun)).2⟩

theorem openScope {scope : JumpScope} {x y : Emit Unit}
    (hinner : ∀ {σ}, P σ → Q { σ with jumps := scope :: σ.jumps }) (h : Agree Q x y) :
    Agree P (Emit.openScope scope x) (Emit.openScope scope y) := by
  intro σ hσ
  obtain ⟨heq, hrestored⟩ := h (hinner hσ)
  refine ⟨?_, restored_openScope hrestored⟩
  unfold Emit.openScope
  rw [heq]

theorem detached {depth : Nat} {x y : Emit Unit}
    (hinner : ∀ {σ}, P σ → Q { σ with jumps := (σ.jumps.detach depth).2 }) (h : Agree Q x y) :
    Agree P (Emit.detached depth x) (Emit.detached depth y) := by
  intro σ hσ
  obtain ⟨heq, hrestored⟩ := h (hinner hσ)
  refine ⟨?_, restored_detached hrestored⟩
  simp only [Emit.detached]
  rw [heq]

theorem inClass {fresh : ClassFile} {classType : Ty} {strategy : BindingStrategy}
    {x y : Emit Unit} (hinner : ∀ unit, Q { unit, current := fresh, classType, strategy })
    (h : Agree Q x y) : Agree P (Emit.inClass fresh classType strategy x)
      (Emit.inClass fresh classType strategy y) := by
  intro σ _
  refine ⟨?_, Restores.inClass _ _ _ _ σ⟩
  unfold Emit.inClass
  rw [(h (hinner σ.unit)).1]

/-- What matters about a method is the states in which emission gets to its
parts. -/
theorem method {recur other : Recursion} {spec : MethodSpec}
    (hinner : ∀ {σ τ}, P σ → ctx.Enters spec σ τ → Q τ)
    (h : Agree Q (ctx.emitInside recur spec) (ctx.emitInside other spec)) :
    Agree P (ctx.emitMethod recur spec) (ctx.emitMethod other spec) := by
  intro σ hσ
  refine ⟨?_, ctx.restored_emitMethod fun τ hrun => (h (hinner hσ hrun)).2.toSameScopes⟩
  rw [Context.emitMethod, Context.emitMethod]
  refine bind_congr_of_ok rfl fun _ τ hget => ?_
  obtain ⟨rfl, rfl⟩ := get_eq_ok.1 hget
  split
  · rfl
  · show EStateM.bind _ _ _ = EStateM.bind _ _ _
    unfold EStateM.bind Emit.inFrame
    rw [Context.emitFrame, Context.emitFrame, ← bind_assoc, ← bind_assoc,
      bind_congr_of_ok rfl fun _ τ hrun => (h (hinner hσ hrun)).1]

end Agree

end Emit

/-! ## Places -/

/-- The places of emission: which nodes may be emitted at a place, and what the
strategy and the frame there are like. -/
structure Setting (ctx : Context) (η : Type) where
  fits : η → Node → Prop
  holds : η → BindingStrategy → Option Frame.Header → Prop
  /-- The place inside the frame of a method with a scope. -/
  frameOf : η → Option ScopeId → η
  classOf : BindingStrategy → η
  holds_frame : ∀ {home strategy outer scope header}, holds home strategy outer →
    ctx.Prepared strategy scope header → holds (frameOf home scope) strategy (some header)
  holds_class : ∀ {strategy}, holds (classOf strategy) strategy none
  fits_part : ∀ {home node part}, fits home node → node.kind.isPlain = true →
    part ∈ node.children → fits home part
  fits_method : ∀ {home node definition part}, fits home node →
    node.kind = .methodDef definition → part ∈ node.children →
    fits (frameOf home (ctx.scopes.scopeFor? node.id)) part
  fits_constructor : ∀ {home node definition part}, fits home node →
    node.kind = .constructorDef definition → part ∈ node.children →
    fits (frameOf home (ctx.scopes.scopeFor? node.id)) part
  fits_member : ∀ {home node definition member}, fits home node →
    node.kind = .classDef definition → member ∈ definition.body →
    member.kind.isInitializer = false → fits (classOf .construct) member
  fits_initializer : ∀ {home node definition member}, fits home node →
    node.kind = .classDef definition → member ∈ definition.body →
    member.kind.isInitializer = true →
    fits (frameOf (classOf .construct) (ctx.scopes.scopeFor? node.id)) member
  fits_closure : ∀ {home node definition strategy header method inner part}, fits home node →
    node.kind = .closureDef definition → holds home strategy (some header) →
    method ∈ definition.methods → method.kind = .methodDef inner →
    part ∈ Argument.defaults inner.args ++ inner.body.toList →
    fits (frameOf (classOf (.fromReceiver header.binding)) (ctx.scopes.scopeFor? method.id)) part

variable {ctx : Context} {η : Type} {S : Setting ctx η} {home : η} {σ τ : Emission}

/-- The state is one of the place, and the clauses that jumps may inline fit
it. -/
structure Emission.AtHome (S : Setting ctx η) (home : η) (σ : Emission) : Prop where
  holds : S.holds home σ.strategy (σ.frame.map Frame.header)
  clauses : ∀ {clause gaps}, .ensure clause gaps ∈ σ.jumps → S.fits home clause

theorem JumpScopes.exists_ensure_of_extends {before after : JumpScopes}
    (h : List.Forall₂ JumpScope.Extends before after) {clause : Node}
    {gaps : List (Label × Label)} (hmem : .ensure clause gaps ∈ after) :
    ∃ known, .ensure clause known ∈ before := by
  induction h with
  | nil => cases hmem
  | cons hscope _ ih =>
    rcases List.mem_cons.1 hmem with heq | hmem
    · cases hscope with
      | method | loop => cases heq
      | ensure _ known _ =>
        cases heq
        exact ⟨known, List.mem_cons_self⟩
    · obtain ⟨known, hknown⟩ := ih hmem
      exact ⟨known, List.mem_cons_of_mem _ hknown⟩

theorem Emission.AtHome.restored (hσ : σ.AtHome S home) (h : σ.Restored τ) : τ.AtHome S home := by
  refine ⟨h.strategy ▸ h.frame ▸ hσ.holds, fun hclause => ?_⟩
  obtain ⟨known, hknown⟩ := JumpScopes.exists_ensure_of_extends h.jumps hclause
  exact hσ.clauses hknown

namespace Emission.AtHome

theorem openScope {scope : JumpScope}
    (hscope : ∀ clause gaps, scope = .ensure clause gaps → S.fits home clause)
    (hσ : σ.AtHome S home) : Emission.AtHome S home { σ with jumps := scope :: σ.jumps } := by
  refine ⟨hσ.holds, fun hclause => ?_⟩
  rcases List.mem_cons.1 hclause with heq | hclause
  · exact hscope _ _ heq.symm
  · exact hσ.clauses hclause

theorem detached {depth : Nat} (hσ : σ.AtHome S home) :
    Emission.AtHome S home { σ with jumps := (σ.jumps.detach depth).2 } := by
  have hsplit := JumpScopes.detach_fst_append_snd σ.jumps depth
  exact ⟨hσ.holds, fun hclause => hσ.clauses (hsplit ▸ List.mem_append_right _ hclause)⟩

theorem inClass (unit : Compilation) (fresh : ClassFile) (classType : Ty)
    (strategy : BindingStrategy) : Emission.AtHome S (S.classOf strategy)
      { unit, current := fresh, classType, strategy } :=
  ⟨S.holds_class, fun hclause => by simp at hclause⟩

/-- The frame of a method is one of the place inside it when emission gets to
the parts of the method. -/
theorem inFrame {spec : MethodSpec} (hσ : σ.AtHome S home) (hrun : ctx.Enters spec σ τ) :
    τ.AtHome S (S.frameOf home spec.scope) := by
  obtain ⟨header, hheader, hprepared⟩ := Context.prepared_of_prepareBinding rfl rfl rfl hrun
  refine ⟨?_, fun hclause => ?_⟩
  · rw [hheader, hrun.sameScopes.strategy]
    exact S.holds_frame hσ.holds hprepared
  · obtain ⟨_, hmem⟩ := JumpScopes.exists_ensure_of_extends hrun.sameScopes.jumps hclause
    simp at hmem

end Emission.AtHome

def Setting.agreement (S : Setting ctx η) : Congruence ctx η where
  rel home _ x y := Emit.Agree (·.AtHome S home) x y
  sees home σ := σ.AtHome S home
  pure _ := .same (.pure _)
  throw _ := .same (.throw _)
  bind := .bind .restored
  get_bind h σ hσ := h σ hσ hσ
  assembling _ h := .same (.assembling h)
  sharing _ := .same (.sharing _)
  bindingField _ _ _ := .same (.sharing _)
  modifyClass _ := .same (.modifyClass _)
  fits := S.fits
  works := S.fits
  inside home _ := home
  outside home _ := home
  frameOf := S.frameOf
  classOf := S.classOf
  marking h := .same (.marking h)
  report _ _ := .same (.sharing _)
  recordGap depth gap := .same (.recordGap depth gap)
  openScope hscope h hf := .bind .restored (.openScope (.openScope hscope) h) fun left =>
    hf left trivial
  detached := .detached .detached
  method _ := .method .inFrame
  nested _ _ h := .bind .restored (.inClass (fun unit => .inClass unit _ _ _) h)
    fun _ => .same (.sharing _)
  works_of_fits := id
  fits_clause := by
    intro home node σ target pending depth clause _ hσ hfind hentry
    obtain ⟨inner, gaps, outer, hjumps, -⟩ := Context.exists_append_of_findEnsures? hfind hentry
    have hopen : .ensure clause gaps ∈ σ.jumps := by simp [hjumps]
    exact hσ.clauses hopen
  fits_part hfits hplain _ := S.fits_part hfits hplain
  fits_loop hfits hkind := S.fits_part hfits (by rw [hkind]; rfl)
  fits_ensure := by
    intro home node main clause hfits hkind
    have hparts : ∀ part ∈ [main, clause], S.fits home part := fun part hpart =>
      S.fits_part hfits (by rw [hkind]; rfl) (by rw [Node.children, hkind]; exact hpart)
    exact ⟨hparts main (by simp), hparts clause (by simp)⟩
  fits_method := S.fits_method
  fits_constructor := S.fits_constructor
  fits_member := S.fits_member
  fits_initializer := S.fits_initializer
  fits_closure hfits hkind hσ hcurrent := S.fits_closure hfits hkind (by
    have h := hσ.holds
    rwa [hcurrent, Option.map_some] at h)

instance (S : Setting ctx η) (home : η) : S.agreement.Framed home := ⟨trivial⟩

/-- A script does the same with recursions that do the same at its places. -/
theorem Setting.emitScript_eq (S : Setting ctx η) (home : η) {recur other : Recursion}
    {script : Node} {statements : List Node} (hjumps : σ.jumps = [])
    (hholds : S.holds home σ.strategy (σ.frame.map Frame.header))
    (hrecur : recur.Related S.agreement other)
    (hdefinitions : ∀ part ∈ statements, part.kind.isDefinition = true → S.fits home part)
    (hmain : ∀ part ∈ statements, S.fits (S.frameOf home (ctx.scopes.scopeFor? script.id)) part) :
    ctx.emitScript recur script statements σ = ctx.emitScript other script statements σ := by
  have hσ : σ.AtHome S home := ⟨hholds, fun hclause => by simp [hjumps] at hclause⟩
  exact (Context.related_emitScript hrecur hdefinitions hmain hσ).1

end ClassBackend
