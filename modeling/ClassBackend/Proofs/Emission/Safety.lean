import ClassBackend.Proofs.Emission.Agreement
import ClassBackend.Proofs.Emission.Method
import ClassBackend.Proofs.Layout.Finish

/-!
# Emission without breaches

An action is safe in some states if it meets with no breach there, and leaves a
state from which what follows is safe in turn (`Emit.Safe`). Single steps are
safe in a frame. A method is safe if what is emitted inside its frame is: the
frame outlives it, and its code can be finished (`Context.safe_emitMethod`).
-/

namespace ClassBackend

namespace Emit

variable {fault : Fault}

variable {α β : Type} {σ τ υ : Emission} {P Q : Emission → Prop}
  {R : Emission → Emission → Prop}

/-! ## How actions fail -/

theorem bind_eq_error {x : Emit α} {f : α → Emit β} : (x >>= f) σ = .error fault τ ↔
      x σ = .error fault τ ∨ ∃ a υ, x σ = .ok a υ ∧ f a υ = .error fault τ := by
  show EStateM.bind x f σ = .error fault τ ↔ _
  unfold EStateM.bind
  cases x σ with
  | ok | error => simp

theorem pure_ne_error {a : α} : (pure a : Emit α) σ ≠ .error fault τ := by
  show EStateM.Result.ok a σ ≠ _
  exact nofun

theorem get_bind_eq_error {f : Emission → Emit β} :
    (get >>= f) σ = .error fault τ ↔ f σ σ = .error fault τ := Iff.rfl

theorem sharing_bind_eq_error {step : Compilation → α × Compilation} {f : α → Emit β} :
    (sharing step >>= f) σ = .error fault τ ↔
      f (step σ.unit).1 { σ with unit := (step σ.unit).2 } = .error fault τ := Iff.rfl

theorem modify_ne_error {change : Emission → Emission} :
    (modify change : Emit Unit) σ ≠ .error fault τ := by
  show EStateM.Result.ok () (change σ) ≠ _
  exact nofun

theorem exists_assembling (hframe : σ.frame.isSome) (step : Assembler → α × Assembler) :
    ∃ a τ, Emit.assembling step σ = .ok a τ := by
  obtain ⟨current, hcurrent⟩ := Option.isSome_iff_exists.1 hframe
  exact ⟨_, _, assembling_eq_ok.2 ⟨current, hcurrent, rfl, rfl⟩⟩

/-- A fault that leaves something restored comes from what was done in
between. -/
theorem exists_of_restoring_eq_error {result : EStateM.Result Fault Emission Unit}
    {value : Emission → α} {leave : Emission → Emission}
    (h : (match result with
      | .ok _ τ => EStateM.Result.ok (value τ) (leave τ)
      | .error fault τ => .error fault (leave τ)) = .error fault τ) :
    ∃ υ, result = .error fault υ := by
  cases result with
  | ok u υ => cases h
  | error fault' υ =>
    cases h
    exact ⟨υ, rfl⟩

/-! ## Safe actions -/

/-- In such states the action meets with no breach. However it ends, `R` relates
the state it leaves to the first. -/
def Safe (P : Emission → Prop) (R : Emission → Emission → Prop) (x : Emit α) : Prop :=
  ∀ ⦃σ : Emission⦄, P σ →
    R σ (x.after σ) ∧ ∀ fault τ, x σ = .error fault τ → ¬ fault.IsBreach

/-- The relation leads from such states to such states, and allows for what
actions usually leave behind. -/
structure Keeping (P : Emission → Prop) (R : Emission → Emission → Prop) : Prop where
  restored : ∀ {σ τ}, P σ → σ.Restored τ → R σ τ
  trans : ∀ {σ τ υ}, R σ τ → R τ υ → R σ υ
  keeps : ∀ {σ τ}, P σ → R σ τ → P τ

namespace Safe

variable {x : Emit Unit}

variable (hP : Keeping P R)
include hP

theorem pure (a : α) : Safe P R (Pure.pure a : Emit α) :=
  fun σ hσ => ⟨hP.restored hσ (.refl σ), fun _ _ heq => absurd heq pure_ne_error⟩

theorem throw (h : ¬ fault.IsBreach) : Safe P R (MonadExcept.throw fault : Emit α) := by
  refine fun σ hσ => ⟨hP.restored hσ (.refl σ), fun fault' τ heq => ?_⟩
  cases heq
  exact h

theorem bind_of_ok {x : Emit α} {f : α → Emit β} (hx : Safe P R x)
    (hf : ∀ a, (∃ σ τ, P σ ∧ x σ = .ok a τ) → Safe P R (f a)) : Safe P R (x >>= f) := by
  intro σ hσ
  obtain ⟨hleft, hbreach⟩ := hx hσ
  have hnext : ∀ {a τ}, x σ = .ok a τ → P τ ∧ Safe P R (f a) := fun {a τ} hrun =>
    ⟨hP.keeps hσ (after_of_ok hrun ▸ hleft), hf a ⟨σ, τ, hσ, hrun⟩⟩
  refine ⟨after_bind hP.trans hleft fun a τ hrun => ((hnext hrun).2 (hnext hrun).1).1,
    fun fault τ heq => ?_⟩
  rcases bind_eq_error.1 heq with hfault | ⟨a, υ, hrun, hfault⟩
  · exact hbreach fault τ hfault
  · exact ((hnext hrun).2 (hnext hrun).1).2 fault τ hfault

theorem bind {x : Emit α} {f : α → Emit β} (hx : Safe P R x) (hf : ∀ a, Safe P R (f a)) :
    Safe P R (x >>= f) := .bind_of_ok hP hx fun a _ => hf a

theorem of_restores {x : Emit α} (hx : x.Restores) (hok : ∀ σ, P σ → ∃ a τ, x σ = .ok a τ) :
    Safe P R x := by
  refine fun σ hσ => ⟨hP.restored hσ (hx σ), fun fault τ heq => ?_⟩
  obtain ⟨a, υ, hrun⟩ := hok σ hσ
  cases hrun.symm.trans heq

omit hP

theorem openScope {scope : JumpScope} (hinner : ∀ {σ}, P σ → Q { σ with jumps := scope :: σ.jumps })
    (h : Safe Q Emission.Restored x) : Safe P Emission.Restored (Emit.openScope scope x) := by
  intro σ hσ
  obtain ⟨hrestored, hbreach⟩ := h (hinner hσ)
  refine ⟨restored_openScope hrestored, fun fault τ hfault => ?_⟩
  obtain ⟨υ, hrun⟩ := exists_of_restoring_eq_error hfault
  exact hbreach fault υ hrun

theorem extends_of_openScope {scope : JumpScope} {left : Option JumpScope}
    (hinner : ∀ {σ}, P σ → Q { σ with jumps := scope :: σ.jumps }) (h : Safe Q Emission.Restored x)
    (hσ : P σ) (hrun : Emit.openScope scope x σ = .ok left τ) :
    ∃ later, left = some later ∧ scope.Extends later := by
  obtain ⟨υ, haction, rfl, -⟩ := openScope_eq_ok.1 hrun
  have hjumps := (h (hinner hσ)).1.jumps
  rw [after_of_ok haction] at hjumps
  obtain ⟨later, _, hlater, -, heq⟩ := List.forall₂_cons_left_iff.1 hjumps
  exact ⟨later, by rw [heq]; rfl, hlater⟩

theorem detached {depth : Nat}
    (hinner : ∀ {σ}, P σ → Q { σ with jumps := (σ.jumps.detach depth).2 })
    (h : Safe Q Emission.Restored x) : Safe P Emission.Restored (Emit.detached depth x) := by
  intro σ hσ
  obtain ⟨hrestored, hbreach⟩ := h (hinner hσ)
  refine ⟨restored_detached hrestored, fun fault τ hfault => ?_⟩
  obtain ⟨υ, hrun⟩ := exists_of_restoring_eq_error hfault
  exact hbreach fault υ hrun

theorem inClass {fresh : ClassFile} {classType : Ty} {strategy : BindingStrategy}
    (hinner : ∀ unit, Q { unit, current := fresh, classType, strategy })
    (h : Safe Q Emission.Restored x) :
    Safe P Emission.Restored (Emit.inClass fresh classType strategy x) := by
  refine fun σ _ => ⟨Restores.inClass _ _ _ _ σ, fun fault τ hfault => ?_⟩
  obtain ⟨υ, hrun⟩ := exists_of_restoring_eq_error hfault
  exact (h (hinner σ.unit)).2 fault υ hrun

end Safe

/-! ## Single steps -/

def Keeping.steps (ctx : Context) {η : Type} {P : η → Emission → Prop}
    (hP : ∀ home, Keeping (P home) R) (framed : η → Prop)
    (hframe : ∀ {home σ}, framed home → P home σ → σ.frame.isSome) : Stepwise ctx η where
  rel home _ x _ := Safe (P home) R x
  sees := P
  allows fault := ¬ fault.IsBreach
  framed := framed
  allows_complaint h := h.not_breach
  allows_noMethod hframed hσ hnone := by
    have hsome := hframe hframed hσ
    rw [hnone] at hsome
    cases hsome
  pure := .pure (hP _)
  throw := .throw (hP _)
  bind := .bind (hP _)
  get_bind h σ hσ := h σ hσ hσ
  assembling hframed h := .of_restores (hP _) (.assembling h) fun _ hσ =>
    exists_assembling (hframe hframed hσ) _
  sharing _ := .of_restores (hP _) (.sharing _) fun _ _ => ⟨_, _, rfl⟩
  bindingField _ _ _ := .of_restores (hP _) (.sharing _) fun _ _ => ⟨_, _, rfl⟩
  modifyClass _ := .of_restores (hP _) (.modifyClass _) fun _ _ => ⟨_, _, rfl⟩

end Emit

def Emission.InFrame (σ : Emission) : Prop := σ.frame.isSome

theorem Emission.Restored.inFrame {σ τ : Emission} (h : σ.Restored τ) (hσ : σ.InFrame) :
    τ.InFrame := by
  unfold InFrame at hσ ⊢
  rw [← Option.isSome_map (f := Frame.header)] at hσ ⊢
  rwa [h.frame]

namespace Context

open Emit

variable (ctx : Context)

theorem keeping_inFrame : Keeping Emission.InFrame fun _ τ => τ.InFrame :=
  ⟨fun hσ h => h.inFrame hσ, fun _ h => h, fun _ h => h⟩

def framedSteps : Stepwise ctx Unit :=
  Keeping.steps ctx (fun _ => keeping_inFrame) (fun _ => True) fun _ hσ => hσ

instance : (ctx.framedSteps).Framed () := ⟨trivial⟩

/-- The locals and the binding of a frame are prepared without a breach. -/
theorem safe_prepare (spec : MethodSpec) : Safe Emission.InFrame (fun _ τ => τ.InFrame)
      (do ctx.initLocals spec; ctx.prepareBinding spec) := by
  have hprepare : ctx.framedSteps.Holds () (do ctx.initLocals spec; ctx.prepareBinding spec) :=
    related_prepare spec (fun _ _ _ _ _ => ⟨rfl, fun _ _ heq => absurd heq modify_ne_error⟩)
      fun _ => Safe.of_restores keeping_inFrame (.sharing _) fun _ _ => ⟨_, _, rfl⟩
  exact hprepare

variable {ctx} {P Q : Emission → Prop} {depth : Nat} {spec : MethodSpec}

theorem exists_finish_start (spec : MethodSpec) : ∃ method, spec.start.finish = .ok method :=
  Assembler.exists_finish_of_straight rfl rfl (rfl : ([] : List Instruction).all _ = true)

/-- A frame that was emitted up to its end is there, and its code can be
finished. -/
theorem exists_finish_of_emitFrame {σ τ : Emission} {current : Frame}
    (hcurrent : current.body = spec.withParams spec.start)
    (h : ctx.emitFrame (ctx.recursion depth) spec
      { σ with frame := some current, isStatic := spec.isStatic, jumps := [.method] } =
        .ok () τ) :
    ∃ left method, τ.frame = some left ∧ left.body.finish = .ok method := by
  have hstarts : Starts spec (spec.withParams spec.start) := .inr rfl
  have hdraft : Emission.draft? { σ with
      frame := some current, isStatic := spec.isStatic, jumps := [.method] } =
        some ⟨spec.withParams spec.start, [.method]⟩ := by
    rw [← hcurrent]
    rfl
  obtain ⟨t, blocks, ht, -, hlaid⟩ :=
    emitFrame_laid (lays_recursion ctx depth) hstarts.placed hdraft h
  obtain ⟨left, hleft, hbody, -⟩ := Emission.draft?_eq_some.1 ht
  obtain ⟨hcode, -, hregions, -⟩ := hstarts.eq
  obtain ⟨method, hfinish⟩ := hlaid.exists_finish hcode hregions
  exact ⟨left, method, hleft, hbody ▸ hfinish⟩

theorem safe_emitMethod
    (hinner : ∀ {σ τ}, P σ → ctx.Enters spec σ τ → Q τ)
    (h : Safe Q Emission.Restored (ctx.emitInside (ctx.recursion depth) spec)) :
    Safe P Emission.Restored (ctx.emitMethod (ctx.recursion depth) spec) := by
  intro σ hσ
  refine ⟨ctx.restored_emitMethod fun τ hrun => (h (hinner hσ hrun)).1.toSameScopes, ?_⟩
  intro fault τ hfault
  rw [emitMethod] at hfault
  replace hfault := get_bind_eq_error.1 hfault
  split at hfault
  · obtain ⟨method, hfinish⟩ := exists_finish_start spec
    rw [hfinish] at hfault
    exact absurd (sharing_bind_eq_error.1 hfault) modify_ne_error
  · obtain hframe | ⟨left, υ, hframe, hfault⟩ := bind_eq_error.1 hfault
    · -- the fault comes from inside the frame
      obtain ⟨υ, hrun⟩ := exists_of_restoring_eq_error hframe
      rw [emitFrame, ← bind_assoc] at hrun
      rcases bind_eq_error.1 hrun with hrun | ⟨_, υ', hprepare, hrun⟩
      · refine (ctx.safe_prepare spec ?_).2 _ _ hrun
        exact rfl
      · exact (h (hinner hσ hprepare)).2 _ _ hrun
    · -- the frame is there, and its code can be finished
      obtain ⟨υ', hrun, rfl, rfl⟩ := inFrame_eq_ok.1 hframe
      obtain ⟨current, method, hcurrent, hfinish⟩ := exists_finish_of_emitFrame rfl hrun
      rw [hcurrent] at hfault
      simp only [Emit.orFault, pure_bind, hfinish, Emit.ofExcept] at hfault
      exact absurd (sharing_bind_eq_error.1 hfault) modify_ne_error

end Context

end ClassBackend
