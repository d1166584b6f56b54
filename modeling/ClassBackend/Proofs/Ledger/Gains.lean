import Mathlib.Tactic.Abel
import ClassBackend.Proofs.Layout.Closed
import ClassBackend.Proofs.Ledger.Plan
import ClassBackend.Proofs.Scope.Walk

/-!
# What an action makes

`Emit.Gains ctx K site d x` says that whenever the action `x` ends with a
result at a site, and no error in the source has been reported, the classes and
methods made since then answer to `d`. There is one rule for each way of putting
actions together; what they make adds up. Single steps make nothing, so that the
rules of `Emit.Related` apply to them.
-/

namespace ClassBackend

variable {binding : Ty} {depth : Nat} {inner : Site}

/-- All nodes of a tree may be passed over or gone through again where emission
does so. -/
def Tally.Fair (K : Tally) (ctx : Context) (site : Site) (node : Node) : Prop :=
  Occurrence.Everywhere ctx.types (K.Sound ctx.types ctx.members) ⟨site, node⟩

def Context.planned (ctx : Context) (site : Site) (node : Node) : Multiset Entry :=
  Occurrence.plan ctx.types ⟨site, node⟩

def Context.plannedAll (ctx : Context) (site : Site) (nodes : List Node) : Multiset Entry :=
  (nodes.map (ctx.planned site)).sum

/-- The code of a method stands at the second site, if the method is made at the first. -/
structure Site.Holds (site : Site) (isStatic : Bool) (inner : Site) : Prop where
  owner : inner.owner = site.owner
  isInterface : inner.isInterface = site.isInterface
  isStatic : inner.isStatic = isStatic

/-- The binding classes to be made are different ones out of a list. -/
structure Compilation.Binds (types : List Ty) (c : Compilation) : Prop where
  known : ∀ t ∈ c.bindings.map (·.type), t ∈ types
  apart : (c.bindings.map (·.type)).Pairwise fun t u => t.same u = false

/-- Emission is at a site. The ensure clauses that are open may be emitted any
number of times. All bindings in use are those that analysis has found. -/
structure Emission.At (ctx : Context) (K : Tally) (site : Site) (σ : Emission) : Prop where
  name : σ.current.name = site.owner
  isInterface : σ.current.isInterface = site.isInterface
  isStatic : σ.isStatic = site.isStatic
  clauses : ∀ {clause gaps}, .ensure clause gaps ∈ σ.jumps →
    K.Fair ctx site clause ∧ K.rel 0 (ctx.planned site clause)
  binding : ∀ {t}, σ.frame.bind (·.binding) = some t → t ∈ ctx.scopes.bindingTypes
  binds : σ.unit.Binds ctx.scopes.bindingTypes

/-- No error in the source had been reported in the first state, and what has
been made since then answers to what was planned. -/
structure Emission.Made (K : Tally) (d : Multiset Entry) (σ τ : Emission) : Prop where
  clean : σ.unit.diagnostics = []
  rel : K.rel (σ.entries + d) τ.entries

/-- What the action makes at a site answers to what was planned. -/
def Emit.Gains {α : Type} (ctx : Context) (K : Tally) (site : Site) (d : Multiset Entry)
    (x : Emit α) : Prop :=
  ∀ ⦃σ a τ⦄, x σ = .ok a τ → σ.At ctx K site →
    τ.At ctx K site ∧ (τ.unit.diagnostics = [] → σ.Made K d τ)

namespace Context

variable (ctx : Context) (site : Site)

@[simp] theorem plannedAll_nil : ctx.plannedAll site [] = 0 := rfl

@[simp] theorem plannedAll_cons (node : Node) (nodes : List Node) :
    ctx.plannedAll site (node :: nodes) = ctx.planned site node + ctx.plannedAll site nodes := by
  simp [plannedAll]

@[simp] theorem plannedAll_append (nodes more : List Node) :
    ctx.plannedAll site (nodes ++ more) = ctx.plannedAll site nodes + ctx.plannedAll site more := by
  simp [plannedAll]

end Context

namespace Tally

variable {K : Tally} {a b : Multiset Entry}

theorem add_left (more : Multiset Entry) (h : K.rel a b) : K.rel (more + a) (more + b) := by
  rw [add_comm more a, add_comm more b]
  exact K.add more h

theorem sum_zero {β : Type} {made : β → Multiset Entry} {bs : List β}
    (h : ∀ b ∈ bs, K.rel (made b) 0) : K.rel (bs.map made).sum 0 := by
  induction bs with
  | nil => exact K.refl _
  | cons b bs ih =>
    obtain ⟨hb, hbs⟩ := List.forall_mem_cons.1 h
    have hrest := K.trans (K.add_left (made b) (ih hbs)) (by rwa [add_zero])
    rwa [List.map_cons, List.sum_cons]

end Tally

namespace Compilation

variable {types : List Ty} {c : Compilation}

theorem Binds.declareBinding (h : c.Binds types) (hbinding : binding ∈ types) :
    (c.declareBinding binding).Binds types := by
  unfold Compilation.declareBinding
  split
  · exact h
  · rename_i hnew
    have hapart : ∀ t ∈ c.bindings.map (·.type), t.same binding = false := by
      intro t ht
      obtain ⟨layout, hlayout, rfl⟩ := List.mem_map.1 ht
      exact Bool.eq_false_iff.2 fun hsame => hnew (List.any_eq_true.2 ⟨layout, hlayout, hsame⟩)
    simp only [note]
    refine ⟨fun t ht => ?_, ?_⟩
    · rw [List.map_append, List.mem_append] at ht
      rcases ht with ht | ht
      · exact h.known t ht
      · rwa [List.mem_singleton.1 ht]
    · rw [List.map_append, List.pairwise_append]
      refine ⟨h.apart, List.pairwise_singleton _ _, fun t ht u hu => ?_⟩
      rw [List.mem_singleton.1 hu]
      exact hapart t ht

theorem Binds.bindingField (h : c.Binds types) (hbinding : binding ∈ types)
    (name : String) (t : Ty) :
    (c.bindingField binding name t).2.Binds types := by
  have hdeclared := h.declareBinding hbinding
  simp only [Compilation.bindingField]
  split
  · exact hdeclared
  · have htypes : ∀ (layouts : List BindingLayout) (index : Nat),
        (layouts.modify index fun layout =>
          { layout with fields := layout.fields ++ [(name, t)] }).map
          (·.type) = layouts.map (·.type) := by
      intro layouts index
      refine List.ext_getElem? fun i => ?_
      rw [List.getElem?_map, List.getElem?_map, List.getElem?_modify]
      cases layouts[i]? with
      | none => rfl
      | some layout => split <;> rfl
    exact ⟨by simpa only [note, htypes] using hdeclared.known,
      by simpa only [note, htypes] using hdeclared.apart⟩

end Compilation

theorem JumpScopes.exists_of_mem_recordGap {gap : Label × Label} {scopes : JumpScopes}
    {clause : Node} {gaps : List (Label × Label)}
    (h : .ensure clause gaps ∈ scopes.recordGap depth gap) :
    ∃ known, .ensure clause known ∈ scopes := by
  induction scopes with
  | nil => cases h
  | cons scope outer ih =>
    unfold recordGap at h
    split at h
    · split at h
      · rcases List.mem_cons.1 h with heq | hmem
        · cases heq
          exact ⟨_, List.mem_cons_self⟩
        · exact ⟨gaps, List.mem_cons_of_mem _ hmem⟩
      · exact ⟨gaps, h⟩
    · rcases List.mem_cons.1 h with rfl | hmem
      · exact ⟨gaps, List.mem_cons_self⟩
      · obtain ⟨known, hknown⟩ := ih hmem
        exact ⟨known, List.mem_cons_of_mem _ hknown⟩

namespace Emit

variable {α β : Type} {ctx : Context} {K : Tally} {site : Site} {d e : Multiset Entry}

namespace Gains

variable {x : Emit Unit}

theorem pure (a : α) : Gains ctx K site 0 (Pure.pure a : Emit α) := by
  intro σ b τ h hσ
  rw [(pure_eq_ok.1 h).2]
  exact ⟨hσ, fun hclean => ⟨hclean, by rw [add_zero]; exact K.refl _⟩⟩

theorem throw (fault : Fault) : Gains ctx K site d (MonadExcept.throw fault : Emit α) :=
  fun _ _ _ h => absurd h throw_ne_ok

theorem weaken {x : Emit α} (h : Gains ctx K site e x) (hle : K.rel d e) :
    Gains ctx K site d x := by
  intro σ a τ hrun hσ
  obtain ⟨hτ, hmade⟩ := h hrun hσ
  exact ⟨hτ, fun hclean => ⟨(hmade hclean).clean,
    K.trans (K.add_left _ hle) (hmade hclean).rel⟩⟩

theorem congr {x : Emit α} (h : Gains ctx K site e x) (heq : d = e) : Gains ctx K site d x :=
  heq ▸ h

variable {f : α → Emit β}

theorem bind_of_ok {x : Emit α} (hx : Gains ctx K site d x)
    (hf : ∀ {σ a τ}, x σ = .ok a τ → Gains ctx K site e (f a)) :
    Gains ctx K site (d + e) (x >>= f) := by
  intro σ b υ hrun hσ
  obtain ⟨a, τ, hfirst, hrest⟩ := bind_eq_ok.1 hrun
  obtain ⟨hτ, hmade⟩ := hx hfirst hσ
  obtain ⟨hυ, hmore⟩ := hf hfirst hrest hτ
  refine ⟨hυ, fun hclean => ?_⟩
  have hrest := hmore hclean
  have hfirst := hmade hrest.clean
  refine ⟨hfirst.clean, K.trans ?_ hrest.rel⟩
  rw [← add_assoc]
  exact K.add e hfirst.rel

theorem bind {x : Emit α} (hx : Gains ctx K site d x) (hf : ∀ a, Gains ctx K site e (f a)) :
    Gains ctx K site (d + e) (x >>= f) :=
  hx.bind_of_ok fun _ => hf _

theorem before {x : Emit α} (hx : Gains ctx K site d x) (hf : ∀ a, Gains ctx K site 0 (f a)) :
    Gains ctx K site d (x >>= f) :=
  (hx.bind hf).congr (add_zero d).symm

theorem after {x : Emit α} (hx : Gains ctx K site 0 x) (hf : ∀ a, Gains ctx K site d (f a)) :
    Gains ctx K site d (x >>= f) :=
  (hx.bind hf).congr (zero_add d).symm

theorem ofExcept_bind {x : Except Fault α} (h : ∀ a, x = .ok a → Gains ctx K site d (f a)) :
    Gains ctx K site d (Emit.ofExcept x >>= f) := by
  cases x with
  | ok a => exact h a rfl
  | error fault => exact throw fault

theorem orFault_bind {x : Option α} {fault : Fault}
    (h : ∀ a, x = some a → Gains ctx K site d (f a)) :
    Gains ctx K site d (Emit.orFault x fault >>= f) := by
  cases x with
  | some a => exact h a rfl
  | none => exact throw fault

theorem get_bind {f : Emission → Emit β}
    (h : ∀ σ : Emission, σ.At ctx K site → Gains ctx K site d (f σ)) :
    Gains ctx K site d (MonadState.get >>= f) := fun σ _ _ hrun hσ => h σ hσ hrun hσ

theorem frame_bind {f : Frame → Emit β} (h : ∀ (σ : Emission) (current : Frame),
      σ.At ctx K site → σ.frame = some current → Gains ctx K site d (f current)) :
    Gains ctx K site d (Emit.frame >>= f) :=
  get_bind fun σ hσ => orFault_bind fun current hcurrent => h σ current hσ hcurrent

theorem ite {c : Prop} [Decidable c] {x y : Emit α} (hx : Gains ctx K site d x)
    (hy : Gains ctx K site d y) : Gains ctx K site d (if c then x else y) := by
  split
  · exact hx
  · exact hy

theorem forM {f : β → Emit PUnit} {made : β → Multiset Entry} {bs : List β}
    (h : ∀ b ∈ bs, Gains ctx K site (made b) (f b)) :
    Gains ctx K site (bs.map made).sum (bs.forM f) := by
  induction bs with
  | nil => exact pure _
  | cons b bs ih =>
    obtain ⟨hb, hbs⟩ := List.forall_mem_cons.1 h
    rw [List.map_cons, List.sum_cons]
    exact hb.bind fun _ => ih hbs

theorem forM_zero {f : β → Emit PUnit} {bs : List β} (h : ∀ b ∈ bs, Gains ctx K site 0 (f b)) :
    Gains ctx K site 0 (bs.forM f) := by
  induction bs with
  | nil => exact pure _
  | cons b bs ih =>
    obtain ⟨hb, hbs⟩ := List.forall_mem_cons.1 h
    exact hb.after fun _ => ih hbs

/-! ## Changes of the state -/

theorem of_same {x : Emit α} (h : ∀ ⦃σ a τ⦄, x σ = .ok a τ → σ.At ctx K site → τ.At ctx K site ∧
      (τ.unit.diagnostics = [] → σ.unit.diagnostics = []) ∧ τ.entries = σ.entries) :
    Gains ctx K site 0 x := by
  intro σ a τ hrun hσ
  obtain ⟨hτ, hreported, hentries⟩ := h hrun hσ
  refine ⟨hτ, fun hclean => ⟨hreported hclean, ?_⟩⟩
  rw [add_zero, hentries]
  exact K.refl _

theorem modifying {change : Emission → Emission}
    (h : ∀ σ, (change σ).unit = σ.unit ∧ σ.current.SameMethods (change σ).current ∧
      (change σ).isStatic = σ.isStatic ∧ (change σ).jumps = σ.jumps ∧
      (change σ).frame.bind (·.binding) = σ.frame.bind (·.binding)) :
    Gains ctx K site 0 (modify change : Emit Unit) := by
  refine of_same fun σ u τ hrun hσ => ?_
  rw [modify_eq_ok.1 hrun]
  obtain ⟨hunit, hmethods, hstatic, hjumps, hbinding⟩ := h σ
  refine ⟨⟨hmethods.name.trans hσ.name, ?_, hstatic.trans hσ.isStatic, fun hmem => ?_,
    fun ht => hσ.binding (hbinding ▸ ht), hunit ▸ hσ.binds⟩, fun hclean => hunit ▸ hclean, ?_⟩
  · rw [ClassFile.isInterface, hmethods.access]
    exact hσ.isInterface
  · exact hσ.clauses (hjumps ▸ hmem)
  · rw [Emission.entries, Emission.entries, hunit, ClassFile.entries, ClassFile.entries,
      hmethods.methods, hmethods.name]

theorem assembling (step : Assembler → α × Assembler) :
    Gains ctx K site 0 (Emit.assembling step) := by
  refine of_same fun σ a τ hrun hσ => ?_
  obtain ⟨current, hcurrent, -, rfl⟩ := assembling_eq_ok.1 hrun
  refine ⟨{ hσ with binding := fun ht => hσ.binding ?_ }, id, rfl⟩
  rw [hcurrent]
  exact ht

theorem setFrame {current : Frame}
    (hbinding : ∀ {t}, current.binding = some t → t ∈ ctx.scopes.bindingTypes) :
    Gains ctx K site 0 (Emit.setFrame current) := by
  refine of_same fun σ u τ hrun hσ => ?_
  rw [modify_eq_ok.1 hrun]
  exact ⟨{ hσ with binding := hbinding }, id, rfl⟩

theorem sharing {step : Compilation → α × Compilation}
    (hclasses : ∀ unit, (step unit).2.classes = unit.classes)
    (hreported : ∀ unit, (step unit).2.diagnostics = [] → unit.diagnostics = [])
    (hbinds : ∀ unit, unit.Binds ctx.scopes.bindingTypes →
      (step unit).2.Binds ctx.scopes.bindingTypes) :
    Gains ctx K site 0 (Emit.sharing step) := by
  refine of_same fun σ a τ hrun hσ => ?_
  obtain ⟨-, rfl⟩ := sharing_eq_ok.1 hrun
  refine ⟨{ hσ with binds := hbinds _ hσ.binds }, hreported _, ?_⟩
  rw [Emission.entries, Emission.entries, hclasses]

theorem report (message : String) (span : Span) :
    Gains ctx K site d (Emit.sharing fun unit => ((), unit.report message span)) := by
  intro σ a τ hrun hσ
  obtain ⟨-, rfl⟩ := sharing_eq_ok.1 hrun
  refine ⟨{ hσ with binds := ⟨hσ.binds.known, hσ.binds.apart⟩ }, fun hclean => ?_⟩
  exact absurd (List.append_eq_nil_iff.1 hclean).2 (List.cons_ne_nil _ _)

theorem recordGap (depth : Nat) (gap : Label × Label) : Gains ctx K site 0
    (modify fun state => { state with jumps := state.jumps.recordGap depth gap } : Emit Unit) := by
  refine of_same fun σ u τ hrun hσ => ?_
  rw [modify_eq_ok.1 hrun]
  refine ⟨{ hσ with clauses := fun hmem => ?_ }, id, rfl⟩
  obtain ⟨known, hknown⟩ := JumpScopes.exists_of_mem_recordGap hmem
  exact hσ.clauses hknown

/-! ## Scopes, frames and classes -/

theorem openScope {scope : JumpScope} (hx : Gains ctx K site d x)
    (hscope : ∀ {clause gaps}, scope = .ensure clause gaps → K.Fair ctx site clause ∧
      K.rel 0 (ctx.planned site clause)) :
    Gains ctx K site d (Emit.openScope scope x) := by
  intro σ left τ hrun hσ
  obtain ⟨υ, haction, -, rfl⟩ := openScope_eq_ok.1 hrun
  obtain ⟨hυ, hmade⟩ := hx haction { hσ with
    clauses := fun hmem => (List.mem_cons.1 hmem).elim (fun heq => hscope heq.symm) hσ.clauses }
  exact ⟨{ hυ with clauses := fun hmem => hυ.clauses (List.mem_of_mem_tail hmem) },
    fun hclean => ⟨(hmade hclean).clean, (hmade hclean).rel⟩⟩

theorem detached (hx : Gains ctx K site d x) : Gains ctx K site d (Emit.detached depth x) := by
  intro σ u τ hrun hσ
  obtain ⟨υ, haction, -, rfl⟩ := detached_eq_ok.1 hrun
  have hsplit := σ.jumps.detach_fst_append_snd depth
  obtain ⟨hυ, hmade⟩ := hx haction { hσ with
    clauses := fun hmem => hσ.clauses (hsplit ▸ List.mem_append_right _ hmem) }
  refine ⟨{ hυ with clauses := fun hmem => ?_ }, fun hclean =>
    ⟨(hmade hclean).clean, (hmade hclean).rel⟩⟩
  rcases List.mem_append.1 hmem with hmem | hmem
  · exact hσ.clauses (hsplit ▸ List.mem_append_left _ hmem)
  · exact hυ.clauses hmem

theorem inFrame {current : Frame} {isStatic : Bool} (hinner : site.Holds isStatic inner)
    (hbinding : ∀ {t}, current.binding = some t → t ∈ ctx.scopes.bindingTypes)
    (hx : Gains ctx K inner d x) : Gains ctx K site d (Emit.inFrame current isStatic x) := by
  intro σ left τ hrun hσ
  obtain ⟨υ, haction, -, rfl⟩ := inFrame_eq_ok.1 hrun
  obtain ⟨hυ, hmade⟩ := hx haction ⟨hσ.name.trans hinner.owner.symm,
    hσ.isInterface.trans hinner.isInterface.symm, hinner.isStatic.symm, by simp, hbinding, hσ.binds⟩
  exact ⟨{ hσ with
      name := hυ.name.trans hinner.owner
      isInterface := hυ.isInterface.trans hinner.isInterface
      binds := hυ.binds },
    fun hclean => ⟨(hmade hclean).clean, (hmade hclean).rel⟩⟩

theorem inClass {fresh : ClassFile} {classType : Ty} {strategy : BindingStrategy}
    (hname : fresh.name = inner.owner) (hkind : fresh.isInterface = inner.isInterface)
    (hstatic : inner.isStatic = false) (hx : Gains ctx K inner d x) :
    Gains ctx K site ({.classFile inner.owner} + fresh.entries + d)
      (Emit.inClass fresh classType strategy x >>= Emit.addClass) := by
  intro σ u τ hrun hσ
  obtain ⟨finished, υ, hclass, hadd⟩ := bind_eq_ok.1 hrun
  obtain ⟨ω, haction, rfl, rfl⟩ := inClass_eq_ok.1 hclass
  obtain ⟨-, rfl⟩ := sharing_eq_ok.1 hadd
  obtain ⟨hω, hmade⟩ := hx haction ⟨hname, hkind, hstatic.symm, by simp, nofun, hσ.binds⟩
  refine ⟨{ hσ with binds := ⟨hω.binds.known, hω.binds.apart⟩ },
    fun hclean => ⟨(hmade hclean).clean, ?_⟩⟩
  have hmore := K.add_left (σ.current.entries + {.classFile inner.owner}) (hmade hclean).rel
  simp only [Emission.entries, Compilation.addClass, Compilation.note, classEntries_append,
    classEntries_cons, classEntries_nil, ← Multiset.singleton_add, hω.name, add_zero] at hmore ⊢
  convert hmore using 1 <;> abel

end Gains

end Emit

/-! ## Single steps -/

def countingSteps (ctx : Context) (K : Tally) : Stepwise ctx Site where
  rel site _ x _ := x.Gains ctx K site 0
  sees site σ := σ.At ctx K site
  captures _ binding := binding ∈ ctx.scopes.bindingTypes
  captures_frame hσ hcurrent hbinding := hσ.binding (by rw [hcurrent]; exact hbinding)
  pure := .pure
  throw _ := .throw _
  bind := .before
  get_bind := .get_bind
  assembling _ _ := .assembling _
  sharing h := .sharing (fun unit => (h unit).classes) (fun unit => (h unit).diagnostics ▸ id)
    fun unit hunit => ⟨(h unit).bindings ▸ hunit.known, (h unit).bindings ▸ hunit.apart⟩
  bindingField name t hbinding := .sharing (fun unit => unit.classes_bindingField _ name t)
    (by simp) fun _ hunit => hunit.bindingField hbinding name t
  modifyClass h := .modifying fun σ => ⟨rfl, h σ.current, rfl, rfl, rfl⟩

instance (ctx : Context) (K : Tally) (site : Site) : (countingSteps ctx K).Framed site := ⟨trivial⟩

theorem Emit.Gains.steps {ctx : Context} {K : Tally} {site : Site} {α : Type} {x : Emit α}
    (h : Related (countingSteps ctx K) site x x) : Gains ctx K site 0 x := h

theorem Emit.Gains.step {ctx : Context} {K : Tally} {site : Site} {α β : Type} {x : Emit α}
    {f : α → Emit β} {d : Multiset Entry} (h : Related (countingSteps ctx K) site x x)
    (hf : ∀ a, Gains ctx K site d (f a)) : Gains ctx K site d (x >>= f) := .after (.steps h) hf

namespace Context

open Emit

variable {ctx : Context} {K : Tally} {site : Site}

theorem gains_marking (change : Assembler → Assembler) :
    Gains ctx K site 0 (Emit.marking change) :=
  .modifying fun σ => ⟨rfl, ⟨rfl, rfl, rfl⟩, rfl, rfl, by cases σ.frame <;> rfl⟩

theorem gains_markLine (node : Node) : Gains ctx K site 0 (ctx.markLine node) := by
  unfold markLine
  split
  · exact gains_marking _
  · exact .pure _

theorem gains_pushBinding_bind {β : Type} {d : Multiset Entry} {f : Ty → Emit β}
    (h : ∀ binding ∈ ctx.scopes.bindingTypes, Gains ctx K site d (f binding)) :
    Gains ctx K site d (Emit.pushBinding >>= f) := by
  unfold Emit.pushBinding
  simp only [bind_assoc]
  refine .frame_bind fun σ current hσ hcurrent => ?_
  split
  · rename_i binding slot hbinding hslot
    simp only [bind_assoc, pure_bind]
    exact .step (.instruction _) fun _ =>
      h binding (hσ.binding (by rw [hcurrent]; exact hbinding))
  · show Gains ctx K site d (MonadExcept.throw _ : Emit β)
    exact .throw _

/-! ## Methods -/

theorem gains_prepare (spec : MethodSpec) :
    Gains ctx K site 0 (do ctx.initLocals spec; ctx.prepareBinding spec) :=
  .steps <| related_prepare spec
    (fun hσ hcurrent hbinding => Gains.setFrame fun ht => by
      rcases hbinding with heq | hnone
      · exact hσ.binding (by rw [hcurrent]; exact heq.symm.trans ht)
      · rw [hnone] at ht
        cases ht)
    fun hbinding => Gains.sharing (fun unit => unit.classes_declareBinding _) (by simp)
      fun _ hunit => hunit.declareBinding hbinding

theorem gains_emitMethod {spec : MethodSpec} {d : Multiset Entry}
    (hinner : site.Holds spec.isStatic inner)
    (hinside : Gains ctx K inner d (ctx.emitInside (ctx.recursion depth) spec))
    (habstract : Access.has spec.access Access.abstractFlag = true → d = 0) :
    Gains ctx K site ({.method site.owner spec.name spec.descriptor spec.isStatic} + d)
      (ctx.emitMethod (ctx.recursion depth) spec) := by
  intro σ u τ h hσ
  have hnote : ∀ level message, Gains ctx K site 0 (ctx.note level message) :=
    fun _ _ => .steps (.note ..)
  have hframe : Gains ctx K inner d (ctx.emitFrame (ctx.recursion depth) spec) := by
    rw [emitFrame, ← bind_assoc]
    exact .after (gains_prepare spec) fun _ => hinside
  have hbinding : ∀ {t}, spec.scope.bind ctx.scopes.bindingType? = some t →
      t ∈ ctx.scopes.bindingTypes := by
    intro t ht
    obtain ⟨id, -, hid⟩ := Option.bind_eq_some_iff.1 ht
    exact ScopeTable.mem_bindingTypes_of_bindingType? hid
  -- the method that is added has the name, descriptor and flag of the description
  have hadd : ∀ {υ : Emission} {method : MethodInfo}, υ.At ctx K site →
      (υ.unit.diagnostics = [] → σ.Made K d υ) →
      Emit.modifyClass (·.addMethod method) υ = .ok u τ → τ.At ctx K site ∧
      (τ.unit.diagnostics = [] → σ.Made K ({.method site.owner spec.name spec.descriptor
        spec.isStatic} + d) τ) := by
    intro υ method hυ hmade hrun
    have hτ := modify_eq_ok.1 hrun
    have hcompiles : ctx.Compiles spec method := ⟨depth, σ, τ, h, by
      rw [hτ]
      simp [ClassFile.addMethod]⟩
    obtain ⟨hdescriptor, haccess, hname⟩ := hcompiles.signature
    have hentry : method.entry υ.current.name =
        .method site.owner spec.name spec.descriptor spec.isStatic := by
      rw [MethodInfo.entry, hυ.name, hdescriptor, hname, MethodInfo.isStatic, haccess]
      rfl
    rw [hτ]
    refine ⟨{ hυ with }, fun hclean => ⟨(hmade hclean).clean, ?_⟩⟩
    have hmore := K.add_left {.method site.owner spec.name spec.descriptor spec.isStatic}
      (hmade hclean).rel
    simp only [Emission.entries, ClassFile.entries_addMethod, hentry] at hmore ⊢
    convert hmore using 1 <;> abel
  have hrun := get_bind_eq_ok.1 h
  split at hrun
  · rename_i hspec
    obtain ⟨_, τ1, hnote1, hrun1⟩ := bind_eq_ok.1 hrun
    obtain ⟨method, -, hrun2⟩ := ofExcept_bind_eq_ok.1 hrun1
    obtain ⟨hτ1, hmade⟩ := hnote _ _ hnote1 hσ
    exact hadd hτ1 (habstract hspec ▸ hmade) hrun2
  · obtain ⟨left, τ1, hleft, hrun1⟩ := bind_eq_ok.1 hrun
    obtain ⟨current, -, hrun2⟩ := orFault_bind_eq_ok.1 hrun1
    obtain ⟨method, -, hrun3⟩ := ofExcept_bind_eq_ok.1 hrun2
    obtain ⟨_, τ2, hnote2, hrun4⟩ := bind_eq_ok.1 hrun3
    obtain ⟨hτ1, hmade1⟩ := Gains.inFrame hinner hbinding hframe hleft hσ
    obtain ⟨hτ2, hmade2⟩ := hnote _ _ hnote2 hτ1
    refine hadd hτ2 (fun hclean => ?_) hrun4
    have hlater := hmade2 hclean
    have hearlier := hmade1 hlater.clean
    have hrel := hlater.rel
    rw [add_zero] at hrel
    exact ⟨hearlier.clean, K.trans hearlier.rel hrel⟩

end Context

end ClassBackend
