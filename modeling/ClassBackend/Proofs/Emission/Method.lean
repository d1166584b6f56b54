import ClassBackend.Proofs.Emission.Control
import ClassBackend.Proofs.Emission.Walk

/-!
# Emission of a method lays down its code

Every kind of node lays code down if its parts do, so the recursion does by
induction on its depth, and so does everything inside the frame of a method.
`Context.emitMethod_laid` finds the finished method again as the result of
laying code down from the frame with the parameters.
-/

namespace ClassBackend.Context

open Emit

variable {s : Draft} {u : Unit}

variable {ctx : Context} {recur : Recursion} {own goals : List Label} {slots : List UInt16}
  {σ σ' : Emission}

/-! ## Nodes -/

theorem markLine_cases (ctx : Context) (node : Node) :
    (∃ n, ctx.markLine node = marking (·.line n)) ∨ ctx.markLine node = pure () := by
  unfold markLine
  split
  · exact .inl ⟨_, rfl⟩
  · exact .inr rfl

theorem markLine_draft {node : Node} (h : ctx.markLine node σ = .ok u σ') (hs : σ.draft? = some s) :
    ∃ t, σ'.draft? = some t ∧ (t = s ∨ ∃ n, t = s.edit (·.line n)) := by
  rcases ctx.markLine_cases node with ⟨n, hmark⟩ | hmark
  · exact ⟨_, marking_draft (hmark ▸ h) hs, .inr ⟨n, rfl⟩⟩
  · obtain ⟨-, rfl⟩ := pure_eq_ok.1 (hmark ▸ h)
    exact ⟨s, hs, .inl rfl⟩

/-- The second draft comes from the first by entering the node. -/
def Entered (node : Node) (s t : Draft) : Prop :=
  t = s.edit (·.visit node) ∨ ∃ n, t = (s.edit (·.visit node)).edit (·.line n)

theorem enter_draft {node : Node} (h : ctx.enter node σ = .ok u σ') (hs : σ.draft? = some s) :
    ∃ t, σ'.draft? = some t ∧ Entered node s t := by
  obtain ⟨_, τ, hvisit, hline⟩ := bind_eq_ok.1 h
  exact markLine_draft hline (marking_draft hvisit hs)

theorem lays_markLine (node : Node) : Lays ctx own goals slots (ctx.markLine node) := by
  intro σ u σ' s h hs
  obtain ⟨t, ht, rfl | ⟨n, rfl⟩⟩ := markLine_draft h hs
  · exact ⟨t, [], [], ht, .refl t⟩
  · exact ⟨_, [], [], ht, .line s n⟩

theorem laid_of_enter {node : Node} {f : Unit → Emit Unit} (hf : ∀ u, Lays ctx [] [] [] (f u))
    (h : (ctx.enter node >>= f) σ = .ok u σ') (hs : σ.draft? = some s) :
    ∃ t gaps blocks, σ'.draft? = some t ∧
      Laid ctx (.code [] [] []) (s.edit (·.visit node)) t gaps blocks := by
  obtain ⟨_, τ, henter, hrest⟩ := bind_eq_ok.1 h
  obtain ⟨_, τ₀, hvisit, hline⟩ := bind_eq_ok.1 henter
  exact Lays.bind (lays_markLine node) hf (bind_eq_ok.2 ⟨_, τ, hline, hrest⟩)
    (marking_draft hvisit hs)

theorem fixnumCode_isPlain (value : Int64) (t : Ty) : (fixnumCode value t).isPlain := by
  unfold fixnumCode
  split <;> rfl

theorem floatCode_isPlain (value : Double) (t : Ty) : (floatCode value t).isPlain := by
  unfold floatCode
  split <;> rfl

theorem lays_jumpOnValue (target : Label) (when : Bool) :
    Lays ctx [] [target] [] (jumpOnValue target when) :=
  .instruction ⟨rfl, fun l hl => by simp [← Option.some.inj hl], nofun⟩

section

variable (hrecur : recur.Lays ctx)
include hrecur

theorem lays_jumpOnCall (m : Member) (site : CallSite) (target : Label) (when : Bool) :
    Lays ctx [] [target] [] (ctx.jumpOnCall recur m site target when) :=
  .ite (lays_jumpOnMember hrecur ..)
    (.bind (lays_callMember hrecur ..) fun _ => lays_jumpOnValue ..)

theorem lays_branchOn (node : Node) (target : Label) (when : Bool) :
    Lays ctx [] [target] [] (ctx.branchOn recur node target when) := by
  refine .after (.nodeType _) fun _ => ?_
  extract_lets jump
  have hjump : Lays ctx [] [target] [] (jump ()) := by
    refine .bind (lays_markLine node) fun _ => ?_
    split
    · exact .ite (.goto (by simp)) (.pure _)
    · exact lays_withMember _ _ _ _ fun _ _ => lays_jumpOnCall hrecur ..
    · exact lays_withMember _ _ _ _ fun _ _ => lays_jumpOnCall hrecur ..
    · exact .bind (hrecur.emit ..).closed fun _ => lays_jumpOnValue ..
  exact .ite (.bind (.throw _) fun _ => hjump) hjump

/-- What is laid down for a node once it is recorded. -/
theorem laid_emitNode {node : Node} {want : Bool}
    (h : ctx.emitNode recur node want σ = .ok u σ') (hs : σ.draft? = some s) :
    ∃ t gaps blocks, σ'.draft? = some t ∧
      Laid ctx (.code [] [] []) (s.edit (·.visit node)) t gaps blocks := by
  refine laid_of_enter ?_ h hs
  intro _
  have hpush : ∀ {i : Instruction}, i.isPlain → Lays ctx [] [] [] (Emit.push want i) :=
    fun hi => .push (.of_isPlain hi) want
  split
  · exact .ite (.after (.nodeType _) fun _ => .instruction (.of_isPlain (fixnumCode_isPlain ..)))
      (.pure _)
  · exact .ite (.after (.nodeType _) fun _ => .instruction (.of_isPlain (floatCode_isPlain ..)))
      (.pure _)
  · exact hpush rfl
  · exact hpush rfl
  · exact hpush rfl
  · exact hpush rfl
  · exact .ite (.plain rfl) (.pure _)
  · exact .ite lays_pushSelf (.pure _)
  · exact .ite (.after (.nodeType _) fun _ => .plain (Ty.classLiteralCode_plain _)) (.pure _)
  · exact .ite (.bind lays_pushBinding fun _ => .pure _) (.pure _)
  · exact lays_emitBody hrecur ..
  · exact lays_emitIf hrecur ..
  · exact lays_emitLoop hrecur ..
  · exact lays_emitLoopJump hrecur ..
  · exact lays_emitLoopJump hrecur ..
  · exact lays_emitLoopJump hrecur ..
  · exact lays_emitReturn hrecur ..
  · exact lays_emitRaise hrecur ..
  · exact lays_emitRescue hrecur ..
  · exact lays_emitEnsure hrecur ..
  · exact lays_withMember _ _ _ _ fun _ _ => lays_callMember hrecur ..
  · exact lays_withMember _ _ _ _ fun _ _ => lays_callMember hrecur ..
  · exact lays_emitSuperCall hrecur ..
  · exact lays_emitCast hrecur ..
  · exact lays_emitPrint hrecur ..
  · exact lays_emitConcat hrecur ..
  · exact lays_emitText hrecur ..
  · exact lays_emitList hrecur ..
  · exact lays_emitNewArray hrecur ..
  · exact lays_emitLocalAccess ..
  · exact lays_emitLocalAccess ..
  · exact lays_emitLocalAssign hrecur ..
  · exact .pure _
  · exact lays_emitFieldAccess ..
  · exact lays_emitFieldAssign hrecur ..
  · exact .after (quiet_emitClassDef ..) fun _ => hpush rfl
  · exact .after .get fun _ => .after (quiet_emitMethodDef ..) fun _ => hpush rfl
  · exact .after (quiet_emitConstructorDef ..) fun _ => hpush rfl
  · exact lays_emitClosureDef ..
  · exact .throw _

theorem lays_emitNode (node : Node) (want : Bool) :
    Lays ctx own goals slots (ctx.emitNode recur node want) := by
  intro σ u σ' s h hs
  obtain ⟨t, gaps, blocks, ht, hlaid⟩ := laid_emitNode hrecur h hs
  obtain ⟨depth, rfl⟩ := hrecur.bounded
  exact ⟨t, gaps, blocks, ht, .part node want ⟨depth + 1, σ, σ', h, hs, ht⟩ hlaid⟩

end

theorem lays_recursion (ctx : Context) (depth : Nat) : (ctx.recursion depth).Lays ctx := by
  induction depth with
  | zero => exact ⟨⟨0, rfl⟩, fun _ _ => .throw _, fun _ _ _ => .throw _⟩
  | succ depth ih =>
    exact ⟨⟨depth + 1, rfl⟩, fun _ _ => lays_emitNode ih .., fun _ _ _ => lays_branchOn ih ..⟩

/-! ## The parts of a method -/

theorem lays_reframe {f : Frame → Frame} (hbody : ∀ current, (f current).body = current.body)
    {x : Emit Unit} (hx : Lays ctx own goals slots x) : Lays ctx own goals slots (do
      let current ← Emit.frame
      Emit.setFrame (f current)
      x) := by
  intro σ u σ' s h hs
  obtain ⟨current, hframe, hrest⟩ := frame_bind_eq_ok.1 h
  obtain ⟨_, τ, hset, hx'⟩ := bind_eq_ok.1 hrest
  obtain ⟨current', hframe', hbody', hjumps⟩ := Emission.draft?_eq_some.1 hs
  cases hframe.symm.trans hframe'
  refine hx hx' ?_
  rw [modify_eq_ok.1 hset]
  exact Emission.draft?_eq_some.2 ⟨_, rfl, (hbody current).trans hbody', hjumps⟩

theorem lays_initLocals (spec : MethodSpec) : Lays ctx own goals slots (ctx.initLocals spec) := by
  refine .after .frame fun current => ?_
  split
  · exact .pure _
  · split
    · exact .pure _
    · exact .forM (fun _ => .ite (.namedLocal _ _ fun _ => .bind (.plain (Ty.initCode_plain _))
        fun _ => .storeCode _ List.mem_cons_self) (.pure _)) _

theorem lays_captureParams (spec : MethodSpec) (binding : Ty) (slot : UInt16) :
    Lays ctx own goals slots (ctx.captureParams spec binding slot) := by
  refine .after .frame fun current => ?_
  split
  · exact .pure _
  · exact .forM (fun _ => .ite (.after (quiet_captureField ..) fun _ => .namedLocal _ _ fun _ =>
      .bind (.instruction (.of_isPlain rfl)) fun _ => .bind (.loadCode ..) fun _ =>
      .instruction (.of_isPlain rfl)) (.pure _)) _

theorem lays_storeBinding (spec : MethodSpec) (binding : Ty) :
    Lays ctx own goals slots (ctx.storeBinding spec binding) :=
  .temporary _ fun slot => .bind (.instruction (.store _ List.mem_cons_self)) fun _ =>
    lays_reframe (f := fun current => { current with bindingSlot := some slot }) (fun _ => rfl)
      (lays_captureParams ..)

theorem lays_prepareBinding (spec : MethodSpec) :
    Lays ctx own goals slots (ctx.prepareBinding spec) := by
  intro σ u σ' s h hs
  obtain ⟨current, hframe, hrun⟩ := frame_bind_eq_ok.1 h
  cases hbinding : current.binding with
  | none =>
    simp only [hbinding] at hrun
    exact Lays.pure () hrun hs
  | some binding =>
    simp only [hbinding] at hrun
    replace hrun := get_bind_eq_ok.1 hrun
    cases hstrategy : σ.strategy with
    | construct =>
      have hconstruct : Lays ctx own goals slots (do
          Emit.sharing fun unit => ((), unit.declareBinding binding)
          Emit.modifyClass (·.addInnerClass binding.internalName)
          Emit.code [.new binding.internalName, .dup,
            .call .special binding.internalName "<init>" "()V"]
          ctx.storeBinding spec binding) :=
        .after (.sharing _) fun _ => .after (.modifyClass _) fun _ => .bind (.plain rfl) fun _ =>
          lays_storeBinding ..
      simp only [hstrategy] at hrun
      exact hconstruct hrun hs
    | fromReceiver carried =>
      cases carried with
      | some carried =>
        simp only [hstrategy] at hrun
        exact Lays.bind (.plain rfl) (fun _ => lays_storeBinding ..) hrun hs
      | none =>
        -- Only the binding is forgotten; the body is the one just read.
        simp only [hstrategy] at hrun
        obtain ⟨_, τ, hnote, hset⟩ := bind_eq_ok.1 hrun
        have hτ := (Quiet.note _ _ hnote).trans hs
        obtain ⟨current', hframe', hbody, hjumps⟩ := Emission.draft?_eq_some.1 hs
        cases hframe.symm.trans hframe'
        refine ⟨s, [], [], ?_, .refl s⟩
        rw [modify_eq_ok.1 hset]
        have hkept : τ.jumps = s.jumps := Emission.jumps_of_draft? hτ
        exact Emission.draft?_eq_some.2 ⟨_, rfl, hbody, hkept⟩

section

variable (hrecur : recur.Lays ctx)
include hrecur

theorem lays_emitDelegation (delegation : Delegation) :
    Lays ctx own goals slots (ctx.emitDelegation recur delegation) := by
  refine .after .get fun state => ?_
  extract_lets classType finish
  have hfinish : ∀ target, Lays ctx own goals slots (finish target) := fun target =>
    .after (.ofExcept _) fun _ => .after (.orFault ..) fun _ =>
      .bind (.instruction (.of_isPlain rfl)) fun _ =>
      .bind (.forM (fun _ => lays_emitAs hrecur ..) _) fun _ => .instruction (.of_isPlain rfl)
  refine .ite ?_ ?_
  · refine .after ?_ hfinish
    intro σ a σ' h
    obtain ⟨_, h, -⟩ := map_eq_ok.1 h
    exact Quiet.ofExcept _ h
  · exact .bind (.pure _) fun _ => hfinish _

theorem lays_emitPrologue (prologue : Prologue) :
    Lays ctx own goals slots (ctx.emitPrologue recur prologue) := by
  unfold emitPrologue
  split
  · exact .pure _
  · exact .after .get fun _ => .after (.ofExcept _) fun _ => .plain rfl
  · exact lays_emitDelegation hrecur ..

theorem lays_emitMethodBody (spec : MethodSpec) :
    Lays ctx own goals slots (ctx.emitMethodBody recur spec) := by
  unfold emitMethodBody
  split
  · exact .ite (hrecur.emit ..).closed (lays_emitAs hrecur ..)
  · exact .plain (Ty.initCode_plain _)
  · exact .forM (fun _ => (hrecur.emit ..).closed) _
  · have hforward : ∀ (invocation : InvokeKind) (next : MemberRef) (default : Node)
        (filled : Ty), Lays ctx own goals slots (do
          spec.params.forM fun param => do
            let slot ← Emit.namedLocal param.1 param.2
            Emit.codeOf (param.2.loadCode slot)
          ctx.emitAs recur default filled
          Emit.instruction (.invoke invocation next)) := fun _ _ _ _ =>
      .bind (.forM (fun _ => .namedLocal _ _ fun _ => .loadCode ..) _) fun _ =>
        .bind (lays_emitAs hrecur ..) fun _ => .instruction (.of_isPlain rfl)
    exact .ite (.bind (.instruction (.of_isPlain rfl)) fun _ => hforward ..) (hforward ..)

/-! ## Whole methods -/

private theorem returnCode_laid {depth : Nat} (t : Ty)
    (hfind : s.jumps.findEnsures? .method = some ⟨depth, []⟩) (hs : σ.draft? = some s)
    (h : Emit.code t.returnCode σ = .ok u σ') :
    ∃ t gaps blocks, σ'.draft? = some t ∧ Laid ctx (.code own goals slots) s t gaps blocks :=
  leave_laid hrecur (t := t) hfind hs h

omit hrecur in
/-- There is no ensure block open around a method, so nothing leaves a gap. -/
theorem gaps_eq_nil {t : Draft} {gaps : List Gap} {blocks : List Block}
    (h : Laid ctx (.code [] [] []) s t gaps blocks) (hs : s.jumps = [.method]) : gaps = [] := by
  refine List.eq_nil_iff_forall_not_mem.2 fun g hg => ?_
  obtain ⟨clause, hclause, -⟩ := (h.records trivial).2 g hg
  simp [hs, JumpScopes.clauseAt?] at hclause

/-- Once a frame has its locals and its binding, the method is emitted up to its
end, where a return follows if control can get there. -/
theorem emitInside_laid (hplaced : s.body.Placed)
    (hfind : s.jumps.findEnsures? .method = some ⟨0, []⟩) (hs : σ.draft? = some s)
    (h : ctx.emitInside recur spec σ = .ok u σ') :
    ∃ t gaps blocks, σ'.draft? = some t ∧ t.body.reachable = false ∧
      Laid ctx (.code [] [] []) s t gaps blocks := by
  obtain ⟨_, τ1, hprologue, hrun1⟩ := bind_eq_ok.1 h
  obtain ⟨_, τ2, hbody, hrun2⟩ := bind_eq_ok.1 hrun1
  obtain ⟨_, _, _, hτ1, hlaid1⟩ := lays_emitPrologue hrecur _ hprologue hs
  obtain ⟨t, _, _, hτ2, hlaid2⟩ := lays_emitMethodBody hrecur spec hbody hτ1
  have hlaid : Laid ctx (.code [] [] []) s t _ _ := hlaid1.trans hlaid2
  obtain ⟨reach, τ3, hreach, hrun3⟩ := bind_eq_ok.1 hrun2
  obtain ⟨rfl, hτ3⟩ := reading_draft hreach hτ2
  split at hrun3
  · have hfind : t.jumps.findEnsures? .method = some ⟨0, []⟩ := by
      rw [(hlaid.records trivial).1, JumpScopes.findEnsures?_recordAll]
      exact hfind
    obtain ⟨u, _, _, hu, hlast⟩ := returnCode_laid hrecur _ hfind hτ3 hrun3
    refine ⟨u, _, _, hu, ?_, hlaid.trans hlast⟩
    cases hu.symm.trans (assemble_draft hrun3 hτ3)
    exact (hlaid.grows.placed hplaced).reachable_emit rfl
  · rename_i hend
    exact ⟨t, _, _, (pure_eq_ok.1 hrun3).2 ▸ hτ3, by simpa using hend, hlaid⟩

theorem emitFrame_laid {a : Assembler} (ha : a.Placed) (hs : σ.draft? = some ⟨a, [.method]⟩)
    (h : ctx.emitFrame recur spec σ = .ok u σ') :
    ∃ t blocks, σ'.draft? = some t ∧ t.body.reachable = false ∧
      Laid ctx (.code [] [] []) ⟨a, [.method]⟩ t [] blocks := by
  rw [emitFrame] at h
  obtain ⟨_, τ1, hinit, hrun1⟩ := bind_eq_ok.1 h
  obtain ⟨_, τ2, hbinding, hrun2⟩ := bind_eq_ok.1 hrun1
  obtain ⟨_, _, _, hτ1, hlaid1⟩ := lays_initLocals spec hinit hs
  obtain ⟨s, _, _, hτ2, hlaid2⟩ := lays_prepareBinding spec hbinding hτ1
  have hstart : Laid ctx (.code [] [] []) ⟨a, [.method]⟩ s _ _ := hlaid1.trans hlaid2
  have hfind : s.jumps.findEnsures? .method = some ⟨0, []⟩ := by
    rw [(hstart.records trivial).1, JumpScopes.findEnsures?_recordAll]
    rfl
  obtain ⟨t, _, blocks, ht, hend, hinside⟩ :=
    emitInside_laid hrecur (hstart.grows.placed ha) hfind hτ2 hrun2
  have hlaid := hstart.trans hinside
  exact ⟨t, _, ht, hend, gaps_eq_nil hlaid rfl ▸ hlaid⟩

end

def Compiles (ctx : Context) (spec : MethodSpec) (method : MethodInfo) : Prop :=
  ∃ depth σ σ', ctx.emitMethod (ctx.recursion depth) spec σ = .ok () σ' ∧
    σ'.current.methods.getLast? = some method

/-- The method without instructions, with or without slots for its
parameters. -/
def Starts (spec : MethodSpec) (a : Assembler) : Prop :=
  a = spec.start ∨ a = spec.withParams spec.start

variable {spec : MethodSpec}

theorem Starts.eq {a : Assembler} (h : Starts spec a) :
    a.code = #[] ∧ a.labels = #[] ∧ a.regions = [] ∧ a.descriptor = spec.descriptor ∧
      a.access = spec.access ∧ a.name = spec.name := by
  have hparams : ∀ (params : List (String × Ty)) (a : Assembler),
      let b := params.foldl (fun a param => (a.namedLocal param.1 param.2).2) a
      b.code = a.code ∧ b.labels = a.labels ∧ b.regions = a.regions ∧
        b.descriptor = a.descriptor ∧ b.access = a.access ∧ b.name = a.name := by
    intro params
    induction params with
    | nil => simp
    | cons param params ih =>
      intro a
      have hnamed : (a.namedLocal param.1 param.2).2.regions = a.regions ∧
          (a.namedLocal param.1 param.2).2.descriptor = a.descriptor ∧
          (a.namedLocal param.1 param.2).2.access = a.access ∧
          (a.namedLocal param.1 param.2).2.name = a.name := by
        unfold Assembler.namedLocal
        split <;> exact ⟨rfl, rfl, rfl, rfl⟩
      simpa [hnamed] using ih (a.namedLocal param.1 param.2).2
  rcases h with rfl | rfl
  · exact ⟨rfl, rfl, rfl, rfl, rfl, rfl⟩
  · exact hparams spec.params spec.start

theorem Starts.placed {a : Assembler} (h : Starts spec a) : a.Placed := by
  intro l q hq
  simp [Assembler.position?, h.eq.2.1] at hq

/-- The code of every method is laid down from its start. If the method has a
body, control does not get to the end of the code. -/
theorem laid_of_compiles {method : MethodInfo} (h : ctx.Compiles spec method) :
    ∃ a t blocks, Starts spec a ∧ Laid ctx (.code [] [] []) ⟨a, [.method]⟩ t [] blocks ∧
      t.body.finish = .ok method ∧
      (Access.has spec.access Access.abstractFlag ∨ t.body.reachable = false) := by
  obtain ⟨depth, σ, σ', hrun, hlast⟩ := h
  replace hrun := get_bind_eq_ok.1 hrun
  split at hrun
  · rename_i habstract
    obtain ⟨_, τ1, -, hrun1⟩ := bind_eq_ok.1 hrun
    obtain ⟨M, hfinish, hrun2⟩ := ofExcept_bind_eq_ok.1 hrun1
    rw [modify_eq_ok.1 hrun2] at hlast
    obtain rfl : M = method := by simpa [ClassFile.addMethod] using hlast
    exact ⟨_, _, [], .inl rfl, .refl _, hfinish, .inl habstract⟩
  · obtain ⟨left, τ1, hframe, hrun1⟩ := bind_eq_ok.1 hrun
    obtain ⟨τ, haction, rfl, rfl⟩ := inFrame_eq_ok.1 hframe
    obtain ⟨current, hcurrent, hrun2⟩ := orFault_bind_eq_ok.1 hrun1
    obtain ⟨M, hfinish, hrun3⟩ := ofExcept_bind_eq_ok.1 hrun2
    obtain ⟨_, τ2, -, hrun4⟩ := bind_eq_ok.1 hrun3
    rw [modify_eq_ok.1 hrun4] at hlast
    obtain rfl : M = method := by simpa [ClassFile.addMethod] using hlast
    have hstarts : Starts spec (spec.withParams spec.start) := .inr rfl
    obtain ⟨t, blocks, ht, hend, hlaid⟩ :=
      emitFrame_laid (lays_recursion ctx depth) hstarts.placed rfl haction
    obtain ⟨current', hcurrent', hbody, -⟩ := Emission.draft?_eq_some.1 ht
    cases hcurrent.symm.trans hcurrent'
    exact ⟨_, t, blocks, hstarts, hlaid, hbody ▸ hfinish, .inr hend⟩

end ClassBackend.Context
