import ClassBackend.Proofs.Emission.Walk
import Mathlib.Data.List.Forall2

/-!
# What emission puts back

Emission changes the open jump scopes, the frame and the class for the time of
a part, and the state of emission outlives a fault. So whether an action ends
with a result or with a fault, it has to leave these as it found them. All that
may be different is that the ensure blocks that are open have more gaps
(`Context.emit_restores`).

Inside the frame of a method there is one exception: it gets its binding slot
only once the method is being emitted. The frame is thrown away afterwards, so
there it is enough that everything else stays (`Emission.SameScopes`).
-/

namespace ClassBackend

/-! ## What stays -/

/-- What a frame is apart from the code in its body. -/
structure Frame.Header where
  name : String
  descriptor : String
  scope : Option ScopeId
  binding : Option Ty
  bindingSlot : Option UInt16
  returnType : Ty

def Frame.header (frame : Frame) : Frame.Header where
  name := frame.body.name
  descriptor := frame.body.descriptor
  scope := frame.scope
  binding := frame.binding
  bindingSlot := frame.bindingSlot
  returnType := frame.returnType

/-- The jump scope is the same, but for gaps that were added. -/
inductive JumpScope.Extends : JumpScope → JumpScope → Prop
  | method : Extends .method .method
  | loop (labels : LoopLabels) : Extends (.loop labels) (.loop labels)
  | ensure (clause : Node) (gaps more : List (Label × Label)) :
    Extends (.ensure clause gaps) (.ensure clause (gaps ++ more))

/-- The second state has the same scopes open as the first, in the same
class. -/
structure Emission.SameScopes (σ τ : Emission) : Prop where
  classType : τ.classType = σ.classType
  strategy : τ.strategy = σ.strategy
  isStatic : τ.isStatic = σ.isStatic
  jumps : List.Forall₂ JumpScope.Extends σ.jumps τ.jumps

/-- The second state has the same scopes open as the first, in the same frame
of the same class. -/
structure Emission.Restored (σ τ : Emission) : Prop extends σ.SameScopes τ where
  frame : τ.frame.map Frame.header = σ.frame.map Frame.header

theorem JumpScope.Extends.refl (scope : JumpScope) : scope.Extends scope := by
  cases scope with
  | method => exact .method
  | loop labels => exact .loop labels
  | ensure clause gaps =>
    have h := Extends.ensure clause gaps []
    rwa [List.append_nil] at h

theorem JumpScope.Extends.trans {a b c : JumpScope} (hab : a.Extends b) (hbc : b.Extends c) :
    a.Extends c := by
  cases hab with
  | method | loop => exact hbc
  | ensure clause gaps more =>
    cases hbc with
    | ensure _ _ rest =>
      rw [List.append_assoc]
      exact .ensure ..

theorem JumpScopes.extends_refl (scopes : JumpScopes) :
    List.Forall₂ JumpScope.Extends scopes scopes :=
  List.forall₂_same.2 fun scope _ => .refl scope

theorem JumpScopes.extends_trans {as bs cs : JumpScopes}
    (hab : List.Forall₂ JumpScope.Extends as bs) (hbc : List.Forall₂ JumpScope.Extends bs cs) :
    List.Forall₂ JumpScope.Extends as cs := by
  induction hab generalizing cs with
  | nil => exact hbc
  | cons hhead _ ih =>
    obtain ⟨c, cs, hc, hcs, rfl⟩ := List.forall₂_cons_left_iff.1 hbc
    exact .cons (hhead.trans hc) (ih hcs)

theorem JumpScopes.extends_recordGap (depth : Nat) (gap : Label × Label) (scopes : JumpScopes) :
    List.Forall₂ JumpScope.Extends scopes (scopes.recordGap depth gap) := by
  induction scopes with
  | nil => exact .nil
  | cons scope outer ih =>
    unfold recordGap
    split
    · split
      · exact .cons (.ensure ..) (extends_refl outer)
      · exact extends_refl _
    · exact .cons (.refl scope) ih

namespace Emission

variable {σ τ υ : Emission}

theorem SameScopes.trans (h : σ.SameScopes τ) (h' : τ.SameScopes υ) : σ.SameScopes υ :=
  ⟨h'.classType.trans h.classType, h'.strategy.trans h.strategy, h'.isStatic.trans h.isStatic,
    JumpScopes.extends_trans h.jumps h'.jumps⟩

theorem SameScopes.of_eq (hclass : τ.classType = σ.classType) (hstrategy : τ.strategy = σ.strategy)
    (hstatic : τ.isStatic = σ.isStatic) (hjumps : τ.jumps = σ.jumps) : σ.SameScopes τ :=
  ⟨hclass, hstrategy, hstatic, hjumps ▸ JumpScopes.extends_refl _⟩

theorem Restored.refl (σ : Emission) : σ.Restored σ := ⟨.of_eq rfl rfl rfl rfl, rfl⟩

theorem Restored.trans (h : σ.Restored τ) (h' : τ.Restored υ) : σ.Restored υ :=
  ⟨h.toSameScopes.trans h'.toSameScopes, h'.frame.trans h.frame⟩

end Emission

theorem Assembler.Evolves.header {a b : Assembler} (h : a.Evolves b) :
    b.name = a.name ∧ b.descriptor = a.descriptor := by
  induction h with
  | refl => exact ⟨rfl, rfl⟩
  | emit _ _ ih | label _ ih | place _ _ ih | visit _ _ ih | allocate _ _ ih | protect _ _ ih =>
    exact ih
  | line n _ ih =>
    unfold Assembler.line
    split
    · split
      · exact ih
      · split <;> exact ih
    · exact ih
  | named name t _ ih =>
    unfold Assembler.namedLocal
    split <;> exact ih

theorem Frame.header_of_evolves {frame : Frame} {body : Assembler} (h : frame.body.Evolves body) :
    Frame.header { frame with body } = frame.header := by
  simp only [Frame.header, h.header]

/-! ## Actions that put back what they change -/

namespace Emit

variable {x : Emit Unit}

variable {α β : Type}

/-- The state an action leaves, with a result or with a fault. -/
def after (x : Emit α) (σ : Emission) : Emission :=
  match x σ with
  | .ok _ τ => τ
  | .error _ τ => τ

variable {σ τ : Emission} {f : α → Emit β}

theorem after_of_ok {x : Emit α} {a : α} (h : x σ = .ok a τ) : x.after σ = τ := by
  rw [after, h]

theorem after_of_error {x : Emit α} {fault : Fault} (h : x σ = .error fault τ) : x.after σ = τ := by
  rw [after, h]

theorem after_bind {R : Emission → Emission → Prop} {x : Emit α}
    (htrans : ∀ {σ τ υ}, R σ τ → R τ υ → R σ υ) (hx : R σ (x.after σ))
    (hf : ∀ a τ, x σ = .ok a τ → R τ ((f a).after τ)) : R σ ((x >>= f).after σ) := by
  have hbind : (x >>= f) σ = EStateM.bind x f σ := rfl
  unfold after at hx ⊢
  rw [hbind, EStateM.bind]
  cases hrun : x σ with
  | ok a τ =>
    rw [hrun] at hx
    exact htrans hx (hf a τ hrun)
  | error fault τ =>
    rw [hrun] at hx
    exact hx

/-- However an action ends, it leaves the scopes and the frame as they were. -/
def Restores (x : Emit α) : Prop := ∀ σ : Emission, σ.Restored (x.after σ)

/-- However an action ends, it leaves the scopes as they were. -/
def KeepsScopes (x : Emit α) : Prop := ∀ σ : Emission, σ.SameScopes (x.after σ)

theorem Restores.keepsScopes {x : Emit α} (h : x.Restores) : x.KeepsScopes :=
  fun σ => (h σ).toSameScopes

theorem Restores.bind {x : Emit α} (hx : x.Restores) (hf : ∀ a, (f a).Restores) :
    (x >>= f).Restores :=
  fun σ => after_bind .trans (hx σ) fun a τ _ => hf a τ

theorem KeepsScopes.bind {x : Emit α} (hx : x.KeepsScopes) (hf : ∀ a, (f a).KeepsScopes) :
    (x >>= f).KeepsScopes :=
  fun σ => after_bind .trans (hx σ) fun a τ _ => hf a τ

/-- What is made of the state in which a part ended, with a result or with a
fault. -/
private theorem after_restoring {result : EStateM.Result Fault Emission Unit} {value : Emission → α}
    {leave : Emission → Emission} {R : Emission → Prop}
    (h : ∀ τ, (result = .ok () τ ∨ ∃ fault, result = .error fault τ) → R (leave τ)) :
    R (match (match result with
      | .ok _ τ => EStateM.Result.ok (value τ) (leave τ)
      | .error fault τ => .error fault (leave τ)) with
      | .ok _ τ => τ
      | .error _ τ => τ) := by
  cases result with
  | ok u τ => exact h τ (.inl rfl)
  | error fault τ => exact h τ (.inr ⟨fault, rfl⟩)

private theorem after_of_result (h : x σ = .ok () τ ∨ ∃ fault, x σ = .error fault τ) :
    x.after σ = τ := by
  rcases h with h | ⟨fault, h⟩
  · exact after_of_ok h
  · exact after_of_error h

theorem Restores.assembling {step : Assembler → α × Assembler}
    (h : ∀ a : Assembler, a.Evolves (step a).2) : (Emit.assembling step).Restores := by
  rintro ⟨unit, class_, classType, isStatic, frame, jumps, strategy⟩
  cases frame with
  | none => exact .refl _
  | some current =>
    refine ⟨.of_eq rfl rfl rfl rfl, ?_⟩
    exact congrArg some (Frame.header_of_evolves (h current.body))

theorem Restores.marking {change : Assembler → Assembler}
    (h : ∀ a : Assembler, a.Evolves (change a)) : (Emit.marking change).Restores := by
  intro σ
  unfold Emit.marking
  rw [after_of_ok ((modify_eq_ok (u := ())).2 rfl)]
  refine ⟨.of_eq rfl rfl rfl rfl, ?_⟩
  cases σ.frame with
  | none => rfl
  | some current => exact congrArg some (Frame.header_of_evolves (h current.body))

theorem restored_openScope {scope : JumpScope}
    (h : Emission.Restored { σ with jumps := scope :: σ.jumps }
      (x.after { σ with jumps := scope :: σ.jumps })) :
    σ.Restored ((Emit.openScope scope x).after σ) := by
  refine after_restoring fun τ hτ => ?_
  rw [after_of_result hτ] at h
  obtain ⟨_, _, -, hjumps, heq⟩ := List.forall₂_cons_left_iff.1 h.jumps
  refine ⟨⟨h.classType, h.strategy, h.isStatic, ?_⟩, h.frame⟩
  rw [heq]
  exact hjumps

theorem restored_detached {depth : Nat}
    (h : Emission.Restored { σ with jumps := (σ.jumps.detach depth).2 }
      (x.after { σ with jumps := (σ.jumps.detach depth).2 })) :
    σ.Restored ((Emit.detached depth x).after σ) := by
  refine after_restoring fun τ hτ => ?_
  have hτ : x.after { σ with jumps := (σ.jumps.detach depth).2 } = τ := after_of_result hτ
  rw [hτ] at h
  refine ⟨⟨h.classType, h.strategy, h.isStatic, ?_⟩, h.frame⟩
  have hsplit : List.Forall₂ JumpScope.Extends
      ((σ.jumps.detach depth).1 ++ (σ.jumps.detach depth).2)
      ((σ.jumps.detach depth).1 ++ τ.jumps) :=
    List.rel_append (JumpScopes.extends_refl _) h.jumps
  rwa [JumpScopes.detach_fst_append_snd] at hsplit

/-- A frame of its own leaves nothing behind, whatever happens inside it. -/
theorem restored_inFrame {current : Frame} {isStatic : Bool}
    (h : Emission.SameScopes { σ with frame := some current, isStatic, jumps := [.method] }
      (x.after { σ with frame := some current, isStatic, jumps := [.method] })) :
    σ.Restored ((Emit.inFrame current isStatic x).after σ) := by
  refine after_restoring fun τ hτ => ?_
  rw [after_of_result hτ] at h
  exact ⟨.of_eq h.classType h.strategy rfl rfl, rfl⟩

theorem Restores.inClass (fresh : ClassFile) (classType : Ty) (strategy : BindingStrategy)
    (x : Emit Unit) : (Emit.inClass fresh classType strategy x).Restores := by
  intro σ
  refine after_restoring fun τ _ => ?_
  exact ⟨.of_eq rfl rfl rfl rfl, rfl⟩

theorem Restores.pure (a : α) : (Pure.pure a : Emit α).Restores := fun σ => .refl σ

theorem Restores.throw (fault : Fault) : (MonadExcept.throw fault : Emit α).Restores :=
  fun σ => .refl σ

theorem Restores.sharing (step : Compilation → α × Compilation) : (Emit.sharing step).Restores :=
  fun _ => ⟨.of_eq rfl rfl rfl rfl, rfl⟩

theorem Restores.modifyClass (change : ClassFile → ClassFile) :
    (Emit.modifyClass change).Restores :=
  fun _ => ⟨.of_eq rfl rfl rfl rfl, rfl⟩

theorem Restores.recordGap (depth : Nat) (gap : Label × Label) :
    (modify fun state => { state with jumps := state.jumps.recordGap depth gap } :
      Emit Unit).Restores :=
  fun _ => ⟨⟨rfl, rfl, rfl, JumpScopes.extends_recordGap ..⟩, rfl⟩

theorem Restores.orFault (x : Option α) (fault : Fault) : (Emit.orFault x fault).Restores := by
  cases x with
  | some a => exact .pure a
  | none => exact .throw fault

theorem Restores.ofExcept (x : Except Fault α) : (Emit.ofExcept x).Restores := by
  cases x with
  | ok a => exact .pure a
  | error fault => exact .throw fault

theorem Restores.get_bind {f : Emission → Emit β} (h : ∀ σ, (f σ).Restores) :
    (MonadState.get >>= f).Restores := fun σ => h σ σ

theorem KeepsScopes.setFrame (current : Frame) : (Emit.setFrame current).KeepsScopes :=
  fun _ => .of_eq rfl rfl rfl rfl

end Emit

/-! ## All of emission -/

def restoringSteps (ctx : Context) : Stepwise ctx Unit where
  rel _ _ x _ := x.Restores
  pure := .pure
  throw _ := .throw _
  bind := .bind
  get_bind h := .get_bind fun σ => h σ trivial
  assembling _ := .assembling
  sharing _ := .sharing _
  bindingField _ _ _ := .sharing _
  modifyClass _ := .modifyClass _

instance (ctx : Context) : (restoringSteps ctx).Framed () := ⟨trivial⟩

def scopeSteps (ctx : Context) : Stepwise ctx Unit where
  rel _ _ x _ := x.KeepsScopes
  pure a := (Emit.Restores.pure a).keepsScopes
  throw _ := (Emit.Restores.throw _).keepsScopes
  bind := .bind
  get_bind h σ := h σ trivial σ
  assembling _ h := (Emit.Restores.assembling h).keepsScopes
  sharing _ := (Emit.Restores.sharing _).keepsScopes
  bindingField _ _ _ := (Emit.Restores.sharing _).keepsScopes
  modifyClass _ := (Emit.Restores.modifyClass _).keepsScopes

instance (ctx : Context) : (scopeSteps ctx).Framed () := ⟨trivial⟩

theorem Emit.restored_of_ok (ctx : Context) {α : Type} {x y : Emit α} {σ τ : Emission} {a : α}
    (hx : Related (restoringSteps ctx) () x y) (h : x σ = .ok a τ) : σ.Restored τ :=
  after_of_ok h ▸ hx σ

namespace Context

open Emit

variable (ctx : Context)

/-- While the binding is prepared, the frame changes and nothing else does. So the
state in which emission gets to the parts of a method has no scope open but that
of the method. -/
theorem prepare_keepsScopes (spec : MethodSpec) :
    (do ctx.initLocals spec; ctx.prepareBinding spec).KeepsScopes := by
  have hprepare : (scopeSteps ctx).Holds () (do ctx.initLocals spec; ctx.prepareBinding spec) :=
    related_prepare spec (fun _ _ _ => KeepsScopes.setFrame _) fun _ =>
      (Restores.sharing _).keepsScopes
  exact hprepare

/-- From the first state around a method, emission gets to the parts of the method
in the second. -/
def Enters (spec : MethodSpec) (σ τ : Emission) : Prop :=
  (do ctx.initLocals spec; ctx.prepareBinding spec)
    { σ with frame := some (ctx.freshFrame spec), isStatic := spec.isStatic, jumps := [.method] } =
      .ok () τ

variable {ctx} in
theorem Enters.sameScopes {spec : MethodSpec} {σ τ : Emission} (h : ctx.Enters spec σ τ) :
    Emission.SameScopes { σ with
      frame := some (ctx.freshFrame spec), isStatic := spec.isStatic, jumps := [.method] } τ :=
  after_of_ok h ▸ ctx.prepare_keepsScopes spec _

theorem restored_emitMethod {recur : Recursion} {spec : MethodSpec} {σ : Emission}
    (hinside : ∀ τ, ctx.Enters spec σ τ → τ.SameScopes ((ctx.emitInside recur spec).after τ)) :
    σ.Restored ((ctx.emitMethod recur spec).after σ) := by
  rw [emitMethod]
  refine after_bind .trans (.refl σ) fun _ τ hget => ?_
  obtain ⟨rfl, rfl⟩ := get_eq_ok.1 hget
  extract_lets signature
  split
  · exact (Restores.sharing _).bind (fun _ => .bind (.ofExcept _) fun _ => .modifyClass _) _
  · refine after_bind .trans (restored_inFrame ?_) fun left τ _ => ?_
    · have hframe := after_bind .trans (ctx.prepare_keepsScopes spec _) fun _ τ hrun =>
        hinside τ hrun
      rwa [bind_assoc] at hframe
    · exact Restores.bind (.orFault _ _) (fun _ => .bind (.ofExcept _) fun _ =>
        .bind (.sharing _) fun _ => .modifyClass _) τ

end Context

def restoration (ctx : Context) : Congruence ctx Unit where
  toStepwise := restoringSteps ctx
  inside _ _ := ()
  outside _ _ := ()
  frameOf _ _ := ()
  classOf _ := ()
  marking := .marking
  report _ _ := .sharing _
  recordGap := .recordGap
  openScope _ h hf := .bind (fun _ => Emit.restored_openScope (h _)) fun left => hf left trivial
  detached h _ := Emit.restored_detached (h _)
  method _ h _ := ctx.restored_emitMethod fun τ _ => (h τ).toSameScopes
  nested _ _ _ := .bind (.inClass _ _ _ _) fun _ => .sharing _

instance (ctx : Context) : (restoration ctx).Framed () := ⟨trivial⟩

namespace Context

theorem restoration_recursion (ctx : Context) (depth : Nat) :
    (ctx.recursion depth).Related (restoration ctx) (ctx.recursion depth) :=
  related_recursion (fun _ => trivial) (fun _ _ => trivial) depth

/-- Emission is safe in the face of faults: whether emitting a node ends with a
result or with a fault from any depth, the same jump scopes are open as before,
but for gaps that were added to ensure blocks, and emission is in the same
frame of the same class. -/
theorem emit_restores (ctx : Context) (depth : Nat) (node : Node) (want : Bool) (σ : Emission) :
    σ.Restored (((ctx.recursion depth).emit node want).after σ) := by
  have hemit : (restoration ctx).Related () ((ctx.recursion depth).emit node want)
      ((ctx.recursion depth).emit node want) :=
    (ctx.restoration_recursion depth).emit want trivial
  exact hemit σ

end Context

end ClassBackend
