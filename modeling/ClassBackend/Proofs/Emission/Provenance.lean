import ClassBackend.Proofs.Emission.Method

/-!
# Where the methods of a unit come from

Every method of every class that a program is compiled to was emitted from a
description (`Context.Compiles`), or is one of the two constructors that are
written out by hand: that of a closure, which keeps its binding, and that of a
binding class (`Program.exists_builds`).

Emission changes the classes of a unit only where it adds a finished method or
a finished class, so each action *keeps* what all methods have in common.
-/

namespace ClassBackend

/-- The constructor of a binding class, before it is finished. -/
def bindingConstructor : Assembler :=
  (Assembler.start "<init>" "()V" Access.publicFlag).emitAll
    [.load .ref 0, .call .special "java/lang/Object" "<init>" "()V", .ret none]

/-- The method is one that a compilation puts into a class. -/
inductive Context.Builds (ctx : Context) (method : MethodInfo) : Prop
  | compiled (spec : MethodSpec) : ctx.Compiles spec method → Builds ctx method
  | closure (closure binding : Ty) :
    closureConstructor closure binding = .ok method → Builds ctx method
  | binding : bindingConstructor.finish = .ok method → Builds ctx method

structure Emission.Built (ctx : Context) (σ : Emission) : Prop where
  current : ∀ method ∈ σ.current.methods, ctx.Builds method
  finished : ∀ c ∈ σ.unit.classes, ∀ method ∈ c.methods, ctx.Builds method

namespace Emit

/-- The action keeps all methods built in the context. -/
def Keeps {α : Type} (ctx : Context) (x : Emit α) : Prop :=
  ∀ ⦃σ a σ'⦄, x σ = .ok a σ' → σ.Built ctx → σ'.Built ctx

namespace Keeps

variable {action : Emit Unit}

variable {α β : Type} {ctx : Context}

theorem pure (a : α) : Keeps ctx (Pure.pure a : Emit α) := by
  intro σ b σ' h hσ
  rwa [(pure_eq_ok.1 h).2]

theorem bind {x : Emit α} {f : α → Emit β} (hx : Keeps ctx x) (hf : ∀ a, Keeps ctx (f a)) :
    Keeps ctx (x >>= f) := by
  intro σ b σ' h hσ
  obtain ⟨a, τ, hfirst, hrest⟩ := bind_eq_ok.1 h
  exact hf a hrest (hx hfirst hσ)

theorem throw (fault : Fault) : Keeps ctx (MonadExcept.throw fault : Emit α) :=
  fun _ _ _ h => absurd h throw_ne_ok

theorem get_bind {f : Emission → Emit β} (h : ∀ σ, Keeps ctx (f σ)) :
    Keeps ctx (MonadState.get >>= f) := fun σ _ _ hrun hσ => h σ hrun hσ

/-! ## Changes of the state -/

theorem modifying {change : Emission → Emission}
    (h : ∀ σ, (change σ).unit = σ.unit ∧ (change σ).current = σ.current) :
    Keeps ctx (modify change : Emit Unit) := by
  intro σ a σ' hrun hσ
  rw [modify_eq_ok.1 hrun]
  exact ⟨(h σ).2 ▸ hσ.current, (h σ).1 ▸ hσ.finished⟩

theorem assembling (step : Assembler → α × Assembler) : Keeps ctx (Emit.assembling step) := by
  intro σ a σ' h hσ
  obtain ⟨current, -, -, rfl⟩ := assembling_eq_ok.1 h
  exact ⟨hσ.current, hσ.finished⟩

theorem sharing {step : Compilation → α × Compilation}
    (h : ∀ unit, (step unit).2.classes = unit.classes) : Keeps ctx (Emit.sharing step) := by
  intro σ a σ' hrun hσ
  obtain ⟨-, rfl⟩ := sharing_eq_ok.1 hrun
  exact ⟨hσ.current, (h σ.unit).symm ▸ hσ.finished⟩

theorem modifyClass {change : ClassFile → ClassFile}
    (h : ∀ c, (∀ method ∈ c.methods, ctx.Builds method) →
      ∀ method ∈ (change c).methods, ctx.Builds method) :
    Keeps ctx (Emit.modifyClass change) := by
  intro σ a σ' hrun hσ
  rw [modify_eq_ok.1 hrun]
  exact ⟨h σ.current hσ.current, hσ.finished⟩

theorem openScope {scope : JumpScope} (h : Keeps ctx action) :
    Keeps ctx (Emit.openScope scope action) := by
  intro σ a σ' hrun hσ
  obtain ⟨τ, haction, -, rfl⟩ := openScope_eq_ok.1 hrun
  obtain ⟨hcurrent, hfinished⟩ := h haction ⟨hσ.current, hσ.finished⟩
  exact ⟨hcurrent, hfinished⟩

theorem detached {depth : Nat} (h : Keeps ctx action) : Keeps ctx (Emit.detached depth action) := by
  intro σ a σ' hrun hσ
  obtain ⟨τ, haction, -, rfl⟩ := detached_eq_ok.1 hrun
  obtain ⟨hcurrent, hfinished⟩ := h haction ⟨hσ.current, hσ.finished⟩
  exact ⟨hcurrent, hfinished⟩

theorem inFrame {frame : Frame} {isStatic : Bool} (h : Keeps ctx action) :
    Keeps ctx (Emit.inFrame frame isStatic action) := by
  intro σ a σ' hrun hσ
  obtain ⟨τ, haction, -, rfl⟩ := inFrame_eq_ok.1 hrun
  obtain ⟨hcurrent, hfinished⟩ := h haction ⟨hσ.current, hσ.finished⟩
  exact ⟨hcurrent, hfinished⟩

theorem addClass {finished : ClassFile} (h : ∀ method ∈ finished.methods, ctx.Builds method) :
    Keeps ctx (Emit.addClass finished) := by
  intro σ a σ' hrun hσ
  obtain ⟨-, rfl⟩ := sharing_eq_ok.1 hrun
  refine ⟨hσ.current, fun c hc => ?_⟩
  rcases List.mem_append.1 hc with hc | hc
  · exact hσ.finished c hc
  · obtain rfl := List.mem_singleton.1 hc
    exact h

/-- What is done with a class after it was emitted may rely on its methods. -/
theorem inClass {fresh : ClassFile} {classType : Ty} {strategy : BindingStrategy}
    {f : ClassFile → Emit β} (hfresh : ∀ method ∈ fresh.methods, ctx.Builds method)
    (h : Keeps ctx action)
    (hf : ∀ finished, (∀ method ∈ finished.methods, ctx.Builds method) → Keeps ctx (f finished)) :
    Keeps ctx (Emit.inClass fresh classType strategy action >>= f) := by
  intro σ b σ' hrun hσ
  obtain ⟨finished, τ, hclass, hrest⟩ := bind_eq_ok.1 hrun
  obtain ⟨τ', haction, rfl, rfl⟩ := inClass_eq_ok.1 hclass
  obtain ⟨hcurrent, hfinished⟩ := h haction ⟨hfresh, hσ.finished⟩
  exact hf _ hcurrent hrest ⟨hσ.current, hfinished⟩

end Keeps

end Emit

def keepingSteps (ctx : Context) : Stepwise ctx Unit where
  rel _ _ x _ := x.Keeps ctx
  pure := .pure
  throw _ := .throw _
  bind := .bind
  get_bind h := .get_bind fun σ => h σ trivial
  assembling _ _ := .assembling _
  sharing h := .sharing fun unit => (h unit).classes
  bindingField name t _ := .sharing fun unit => unit.classes_bindingField _ name t
  modifyClass h := .modifyClass fun c hc => (h c).methods.symm ▸ hc

instance (ctx : Context) : (keepingSteps ctx).Framed () := ⟨trivial⟩

namespace Context

open Emit

variable {ctx : Context}

/-- A method is added to the class being emitted, and it is one that emission
adds. -/
theorem keeps_emitMethod {depth : Nat} {spec : MethodSpec}
    (hinside : Keeps ctx (ctx.emitInside (ctx.recursion depth) spec)) :
    Keeps ctx (ctx.emitMethod (ctx.recursion depth) spec) := by
  intro σ u σ' h hσ
  have hnote : ∀ level message, Related (keepingSteps ctx) () (ctx.note level message)
    (ctx.note level message) := fun _ _ => .note ..
  have hprepare : (keepingSteps ctx).Holds () (do ctx.initLocals spec; ctx.prepareBinding spec) :=
    related_prepare spec (fun _ _ _ => Keeps.modifying fun _ => ⟨rfl, rfl⟩)
      fun _ => Keeps.sharing fun unit => unit.classes_declareBinding _
  have hframe : Keeps ctx (ctx.emitFrame (ctx.recursion depth) spec) := by
    rw [emitFrame, ← bind_assoc]
    exact .bind hprepare fun _ => hinside
  have hadd : ∀ {τ : Emission} {method : MethodInfo}, τ.Built ctx →
      Emit.modifyClass (·.addMethod method) τ = .ok u σ' → σ'.Built ctx := by
    intro τ method hτ hrun
    have hσ' := modify_eq_ok.1 hrun
    have hnew : ctx.Builds method := .compiled spec ⟨depth, σ, σ', h, by
      rw [hσ']
      simp [ClassFile.addMethod]⟩
    rw [hσ']
    exact ⟨fun m hm => (List.mem_append.1 hm).elim (hτ.current m) fun hm =>
      List.mem_singleton.1 hm ▸ hnew, hτ.finished⟩
  have hrun := get_bind_eq_ok.1 h
  split at hrun
  · obtain ⟨_, τ1, hnote1, hrun1⟩ := bind_eq_ok.1 hrun
    obtain ⟨method, -, hrun2⟩ := ofExcept_bind_eq_ok.1 hrun1
    exact hadd (hnote _ _ hnote1 hσ) hrun2
  · obtain ⟨left, τ1, hleft, hrun1⟩ := bind_eq_ok.1 hrun
    obtain ⟨current, -, hrun2⟩ := orFault_bind_eq_ok.1 hrun1
    obtain ⟨method, -, hrun3⟩ := ofExcept_bind_eq_ok.1 hrun2
    obtain ⟨_, τ2, hnote2, hrun4⟩ := bind_eq_ok.1 hrun3
    exact hadd (hnote _ _ hnote2 (Keeps.inFrame hframe hleft hσ)) hrun4

/-- A class starts out without methods, and a closure with the constructor that
keeps its binding. -/
theorem Shell.builds {shell : ClassFile} (h : ctx.Shell shell) :
    ∀ method ∈ shell.methods, ctx.Builds method := by
  cases h with
  | plain name superclass interfaces access => simp [Settings.newClass]
  | @closure t interfaces carried _ h =>
    unfold closureShell at h
    cases carried with
    | none =>
      cases h
      simp [Settings.newClass]
    | some binding =>
      cases hmethod : closureConstructor t binding with
      | error fault => simp [hmethod, bind, Except.bind] at h
      | ok constructor =>
        simp only [hmethod, bind, Except.bind, pure, Except.pure, Except.ok.injEq] at h
        subst h
        intro method hmem
        obtain rfl : method = constructor := by
          simpa [ClassFile.addMethod, ClassFile.addField, Settings.newClass] using hmem
        exact .closure t binding hmethod

end Context

def provenance (ctx : Context) : Congruence ctx Unit where
  toStepwise := keepingSteps ctx
  inside _ _ := ()
  outside _ _ := ()
  frameOf _ _ := ()
  classOf _ := ()
  admits recur := ∃ depth, recur = ctx.recursion depth
  marking _ := .modifying fun _ => ⟨rfl, rfl⟩
  report _ _ := .sharing fun _ => rfl
  recordGap _ _ := .modifying fun _ => ⟨rfl, rfl⟩
  openScope _ h hf := .bind h.openScope fun left => hf left trivial
  detached h := h.detached
  method := by
    rintro _ _ _ spec ⟨depth, rfl⟩ h
    exact Context.keeps_emitMethod h
  nested hshell _ h := .inClass hshell.builds h fun _ => .addClass

namespace Context

variable {ctx : Context}

theorem provenance_recursion (ctx : Context) (depth : Nat) :
    (ctx.recursion depth).Related (provenance ctx) (ctx.recursion depth) :=
  related_recursion (C := provenance ctx) (fun depth => ⟨depth, rfl⟩)
    (fun _ _ => trivial) depth

theorem keeps_emitScript (depth : Nat) (script : Node) (statements : List Node) :
    Emit.Keeps ctx (ctx.emitScript (ctx.recursion depth) script statements) := by
  have hscript : (provenance ctx).Related ()
      (ctx.emitScript (ctx.recursion depth) script statements)
      (ctx.emitScript (ctx.recursion depth) script statements) :=
    related_emitScript (ctx.provenance_recursion depth) (fun _ _ _ => trivial) fun _ _ => trivial
  exact hscript

end Context

/-! ## The classes of a unit -/

section

variable {ctx : Context} {settings : Settings}

theorem BindingLayout.toClass_eq_ok {layout : BindingLayout} {c : ClassFile}
    (h : layout.toClass settings = .ok c) : c.name = layout.type.internalName ∧
      ∃ constructor, bindingConstructor.finish = .ok constructor ∧ c.methods = [constructor] := by
  have hfields : ∀ (fields : List (String × Ty)) (c : ClassFile),
      (fields.foldl (fun (c : ClassFile) field =>
        c.addField (FieldInfo.ofTy field.1 field.2 Access.publicFlag)) c).methods = c.methods ∧
      (fields.foldl (fun (c : ClassFile) field =>
        c.addField (FieldInfo.ofTy field.1 field.2 Access.publicFlag)) c).name = c.name := by
    intro fields
    induction fields with
    | nil => simp
    | cons field fields ih => exact fun c => ih _
  have hclass : (do
      let constructor ← bindingConstructor.finish
      pure (ClassFile.addMethod (layout.fields.foldl (fun (c : ClassFile) (field : String × Ty) =>
        c.addField (FieldInfo.ofTy field.1 field.2 Access.publicFlag))
        (settings.newClass layout.type.internalName (some "java/lang/Object") []
          (Access.publicFlag ||| Access.superFlag))) constructor)) = .ok c := h
  cases hfinish : bindingConstructor.finish with
  | error fault => simp [hfinish, bind, Except.bind] at hclass
  | ok constructor =>
    simp only [hfinish, bind, Except.bind, pure, Except.pure, Except.ok.injEq] at hclass
    subst hclass
    exact ⟨(hfields _ _).2, constructor, rfl, by
      simp [ClassFile.addMethod, hfields, Settings.newClass]⟩

theorem BindingLayout.toClass_builds {layout : BindingLayout} {c : ClassFile}
    (h : layout.toClass settings = .ok c) : ∀ method ∈ c.methods, ctx.Builds method := by
  obtain ⟨-, constructor, hfinish, hmethods⟩ := toClass_eq_ok h
  intro method hmem
  rw [hmethods, List.mem_singleton] at hmem
  exact hmem ▸ .binding hfinish

theorem Compilation.addBindings_builds {layouts : List BindingLayout} {c closed : Compilation}
    (h : c.addBindings settings layouts = .ok closed)
    (hc : ∀ k ∈ c.classes, ∀ method ∈ k.methods, ctx.Builds method) :
    ∀ k ∈ closed.classes, ∀ method ∈ k.methods, ctx.Builds method := by
  induction layouts generalizing c with
  | nil =>
    cases h
    exact hc
  | cons layout rest ih =>
    cases hclass : layout.toClass settings with
    | error fault => simp [addBindings, hclass, bind, Except.bind] at h
    | ok finished =>
      simp only [addBindings, hclass, bind, Except.bind] at h
      refine ih h fun k hk => ?_
      rcases List.mem_append.1 hk with hk | hk
      · exact hc k hk
      · obtain rfl := List.mem_singleton.1 hk
        exact BindingLayout.toClass_builds hclass

/-- Every method of a compiled unit is one that a compilation puts into a
class. -/
theorem Program.exists_builds {program : Program} {compiled : CompiledUnit}
    (h : program.compile.1 = .ok compiled) :
    ∃ ctx : Context, ∀ c ∈ compiled.classes, ∀ method ∈ c.methods, ctx.Builds method := by
  unfold compile compileBy at h
  extract_lets logger className log at h
  split at h
  · split at h
    · cases h
    · rename_i ctx mainType _ _
      extract_lets start at h
      split at h
      · rename_i done hdone
        have hstart : start.Built ctx := ⟨by simp [start, Settings.newClass], by simp [start]⟩
        have hbuilt := Context.keeps_emitScript _ _ _ hdone hstart
        unfold Compilation.finish at h
        split at h
        · cases h
        · split at h
          · rename_i closed hclosed
            cases h
            refine ⟨ctx, Compilation.addBindings_builds hclosed fun k hk => ?_⟩
            rcases List.mem_cons.1 hk with rfl | hk
            · exact hbuilt.current
            · exact hbuilt.finished k hk
          · cases h
      · cases h
  · cases h

end

end ClassBackend
