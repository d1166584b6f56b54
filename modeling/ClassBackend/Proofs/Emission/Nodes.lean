import ClassBackend.Proofs.Emission.Lays

/-!
# Emission of nodes lays code down

Every kind of node is emitted as code that needs no labels or slots of its
surroundings; a branch on a node needs the label it jumps to. The parts of a
node are emitted by the recursion, about which the same is assumed until
`Context.lays_recursion` ties the knot.
-/

namespace ClassBackend

variable {is js : List Instruction} {i : Instruction}

/-! ## Instructions without control flow -/

/-- The instruction neither jumps nor returns nor writes a local. -/
def Instruction.isPlain (i : Instruction) : Bool :=
  !i.isReturn && i.jumpTarget?.isNone && i.written?.isNone

namespace Instruction

theorem all_isPlain_append (hi : is.all (·.isPlain)) (hj : js.all (·.isPlain)) :
    (is ++ js).all (·.isPlain) := by
  rw [List.all_append, hi, hj]
  rfl

theorem all_isPlain_ite (want : Bool) (hi : is.all (·.isPlain)) (hj : js.all (·.isPlain)) :
    (if want then is else js).all (·.isPlain) := by
  cases want
  · exact hj
  · exact hi

theorem all_isPlain_singleton (h : i.isPlain) : [i].all (·.isPlain) := by
  simpa using h

end Instruction

open Instruction

variable {own goals : List Label} {slots : List UInt16}

theorem Admits.of_isPlain (h : i.isPlain = true) : Admits own goals slots i := by
  simp only [Instruction.isPlain, Bool.and_eq_true, Bool.not_eq_true',
    Option.isNone_iff_eq_none] at h
  obtain ⟨⟨hreturn, hjump⟩, hwrite⟩ := h
  exact ⟨hreturn, by simp [hjump], by simp [hwrite]⟩

theorem Admits.cons (hi : Admits own goals slots i) (his : ∀ j ∈ is, Admits own goals slots j) :
    ∀ j ∈ i :: is, Admits own goals slots j :=
  List.forall_mem_cons.2 ⟨hi, his⟩

theorem Admits.all_plain (h : is.all (·.isPlain)) : ∀ i ∈ is, Admits own goals slots i :=
  fun i hi => .of_isPlain (List.all_eq_true.1 h i hi)

theorem Admits.plain_append (hi : is.all (·.isPlain)) (hj : ∀ j ∈ js, Admits own goals slots j) :
    ∀ j ∈ is ++ js, Admits own goals slots j :=
  List.forall_mem_append.2 ⟨.all_plain hi, hj⟩

theorem Admits.store {slot : UInt16} (kind : Kind) (h : slot ∈ slots) :
    Admits own goals slots (.store kind slot) :=
  ⟨rfl, nofun, fun _ hw => by cases hw; exact h⟩

theorem Primitive.convertCode_plain (source target : Primitive) :
    (source.convertCode target).all (·.isPlain) := by
  unfold convertCode
  grind [Instruction.isPlain, Instruction.isReturn, Instruction.jumpTarget?,
    Instruction.written?]

namespace Ty

variable (t : Ty)

theorem initCode_plain : t.initCode.all (·.isPlain) := by
  unfold initCode
  split <;> rfl

theorem popCode_plain : t.popCode.all (·.isPlain) := by
  unfold popCode
  split
  · rfl
  · split <;> rfl

theorem dupCode_plain : t.dupCode.all (·.isPlain) := by
  unfold dupCode
  split <;> rfl

theorem dupUnderOne_plain : t.dupUnderOne.isPlain := by
  unfold dupUnderOne
  split <;> rfl

theorem dupUnderTwo_plain : t.dupUnderTwo.isPlain := by
  unfold dupUnderTwo
  split <;> rfl

theorem boxCode_plain : t.boxCode.all (·.isPlain) := by
  unfold boxCode
  split <;> rfl

theorem newArrayCode_plain : t.newArrayCode.all (·.isPlain) := by
  unfold newArrayCode
  split <;> rfl

theorem classLiteralCode_plain : t.classLiteralCode.all (·.isPlain) := by
  unfold classLiteralCode
  split <;> rfl

theorem castCode_plain (source target : Ty) : (source.castCode target).all (·.isPlain) := by
  unfold castCode
  split
  · exact Primitive.convertCode_plain ..
  · split <;> rfl

end Ty

theorem Primitive.unboxCode_plain (p : Primitive) (source : Ty) :
    (p.unboxCode source).all (·.isPlain) := by
  simp only [unboxCode]
  split <;> rfl

theorem Registry.conversionCode_plain {r : Registry} {source target : Ty}
    (h : r.conversionCode source target = .ok is) : is.all (·.isPlain) := by
  unfold conversionCode at h
  split at h
  · cases h
    rfl
  · split at h
    · cases h
      exact Primitive.convertCode_plain ..
    · cases h
      exact Ty.boxCode_plain _
    · split at h
      · cases h
      · cases h
        exact Primitive.unboxCode_plain ..
    · split at h <;> cases h <;> rfl

/-- How the recursion emits the parts of a node. -/
structure Recursion.Lays (ctx : Context) (recur : Recursion) : Prop where
  bounded : ∃ depth, recur = ctx.recursion depth
  emit : ∀ node want, Emit.Lays ctx [] [] [] (recur.emit node want)
  branch : ∀ node l when, Emit.Lays ctx [] [l] [] (recur.branch node l when)

namespace Emit.Lays

variable {ctx : Context} {own goals : List Label} {slots : List UInt16}

theorem plain (h : is.all (·.isPlain)) : Lays ctx own goals slots (Emit.code is) :=
  code (.all_plain h)

theorem plainOf {x : Except Fault (List Instruction)} (h : ∀ is, x = .ok is → is.all (·.isPlain)) :
    Lays ctx own goals slots (Emit.codeOf x) :=
  codeOf fun is his => .all_plain (h is his)

theorem loadCode (t : Ty) (slot : UInt16) :
    Lays ctx own goals slots (Emit.codeOf (t.loadCode slot)) := by
  refine plainOf fun is h => ?_
  unfold Ty.loadCode at h
  cases hkind : t.valueKind with
  | ok kind =>
    rw [hkind] at h
    cases h
    rfl
  | error fault =>
    rw [hkind] at h
    cases h

theorem storeCode (t : Ty) {slot : UInt16} (hslot : slot ∈ slots) :
    Lays ctx own goals slots (Emit.codeOf (t.storeCode slot)) := by
  refine codeOf fun is h i hi => ?_
  unfold Ty.storeCode at h
  cases hkind : t.valueKind with
  | ok kind =>
    rw [hkind] at h
    cases h
    obtain rfl := List.mem_singleton.1 hi
    exact .store kind hslot
  | error fault =>
    rw [hkind] at h
    cases h

end Emit.Lays

namespace Context

open Emit

variable {target : Label}

variable {ctx : Context} {recur : Recursion} {own goals : List Label} {slots : List UInt16}

/-! ## Values -/

theorem lays_pushSelf : Lays ctx own goals slots Emit.pushSelf :=
  .after .get fun _ => .ite (.plain (Ty.classLiteralCode_plain _)) (.instruction (.of_isPlain rfl))

theorem quiet_selfType : Quiet Emit.selfType := .bind .get fun _ => .pure _

theorem lays_convert (source target : Ty) : Lays ctx own goals slots (ctx.convert source target) :=
  .ite (.pure _) (.plainOf fun _ => Registry.conversionCode_plain)

variable (hrecur : recur.Lays ctx)
include hrecur

variable (node : Node) (name : String) (site : CallSite) (value : Node) (want : Bool)

theorem lays_emitAs (target : Ty) : Lays ctx own goals slots (ctx.emitAs recur node target) :=
  .after (.nodeType node) fun _ => .bind (hrecur.emit node true).closed fun _ =>
    .after .reachable fun _ => .ite (lays_convert _ _) (.pure _)

theorem lays_emitCast : Lays ctx own goals slots (ctx.emitCast recur node value want) :=
  .after (.nodeType node) fun _ => .after (.nodeType value) fun _ =>
    .after (.ofExcept _) fun _ => .bind (hrecur.emit value true).closed fun _ =>
      .bind (.plain (Ty.castCode_plain ..)) fun _ =>
        .ite (.plain (Ty.popCode_plain _)) (.pure _)

omit hrecur

/-! ## Locals and fields -/

theorem lays_pushBinding : Lays ctx own goals slots Emit.pushBinding := by
  refine .after .frame fun current => ?_
  split
  · exact .bind (.instruction (.of_isPlain rfl)) fun _ => .pure _
  · exact .throw _

theorem quiet_captureField (binding : Ty) (name : String) (t : Ty) :
    Quiet (Emit.captureField binding name t) :=
  .bind (.sharing _) fun _ => .pure _

theorem quiet_fieldOf (t : Ty) : Quiet (Emit.fieldOf name t) :=
  .bind .get fun _ => .pure _

theorem lays_emitLocalAccess : Lays ctx own goals slots (ctx.emitLocalAccess node name want) := by
  refine .ite (.after (.ofExcept _) fun info => .ite ?_ ?_) (.pure _)
  · exact .bind lays_pushBinding fun _ => .after (quiet_captureField ..) fun _ =>
      .instruction (.of_isPlain rfl)
  · exact .namedLocal _ _ fun _ => .loadCode ..

theorem lays_bindException (clause : RescueClause) :
    Lays ctx own goals slots (ctx.bindException clause) := by
  unfold bindException
  split
  · exact .instruction (.of_isPlain rfl)
  · refine .after (.orFault ..) fun scope => .after (.orFault ..) fun t => .ite ?_ ?_
    · exact .bind lays_pushBinding fun _ => .after (quiet_captureField ..) fun _ => .plain rfl
    · exact .namedLocal _ _ fun _ => .storeCode _ List.mem_cons_self

theorem quiet_declareField (t : Ty) (shape : Ty → Except Fault FieldInfo) :
    Quiet (ctx.declareField name t shape) :=
  .bind .get fun _ => .bind (.sharing _) fun _ => .bind .get fun _ =>
    .ite (.bind (.ofExcept _) fun _ => .bind (.note ..) fun _ =>
      .bind (.modifyClass _) fun _ => .pure _) (.pure _)

theorem lays_emitFieldAccess (isStatic want : Bool) :
    Lays ctx own goals slots (ctx.emitFieldAccess node name isStatic want) :=
  .after .get fun _ => .after (.nodeType node) fun _ =>
    .after (quiet_declareField ..) fun _ =>
      .ite (.after (quiet_fieldOf ..) fun _ => .ite (.instruction (.of_isPlain rfl))
        (.bind lays_pushSelf fun _ => .instruction (.of_isPlain rfl))) (.pure _)

include hrecur

theorem lays_emitLocalAssign :
    Lays ctx own goals slots (ctx.emitLocalAssign recur node name value want) := by
  refine .after (.ofExcept _) fun info => .ite ?_ ?_
  · refine .bind lays_pushBinding fun _ => .after (quiet_captureField ..) fun _ =>
      .bind (lays_emitAs hrecur ..) fun _ => .plain ?_
    exact all_isPlain_append
      (all_isPlain_ite _ (all_isPlain_singleton (Ty.dupUnderOne_plain _)) rfl) rfl
  · refine .namedLocal _ _ fun slot => .bind (lays_emitAs hrecur ..) fun _ => .ite ?_ ?_
    · exact .bind (.plain (Ty.dupCode_plain _)) fun _ => .storeCode _ List.mem_cons_self
    · exact .storeCode _ List.mem_cons_self

theorem lays_emitFieldAssign (isStatic : Bool) (notes : List Note) (want : Bool) :
    Lays ctx own goals slots (ctx.emitFieldAssign recur name value isStatic notes want) := by
  refine .after .get fun _ => .after (.nodeType value) fun _ =>
    .after (quiet_declareField ..) fun _ => .after (quiet_fieldOf ..) fun _ => .ite ?_ ?_
  · refine .bind (lays_emitAs hrecur ..) fun _ => .plain ?_
    exact all_isPlain_append (all_isPlain_ite _ (Ty.dupCode_plain _) rfl) rfl
  · refine .bind lays_pushSelf fun _ => .bind (lays_emitAs hrecur ..) fun _ => .plain ?_
    exact all_isPlain_append
      (all_isPlain_ite _ (all_isPlain_singleton (Ty.dupUnderOne_plain _)) rfl) rfl

/-! ## Calls -/

omit hrecur in
theorem lays_finishResult (result : Ty) (want : Bool) :
    Lays ctx own goals slots (Emit.finishResult result want) :=
  .plain (all_isPlain_ite _ (all_isPlain_ite _ rfl rfl) (Ty.popCode_plain _))

omit hrecur in
theorem lays_materialize {jumpIfFalse : Label → Emit Unit}
    (h : ∀ l, Lays ctx [] [l] [] (jumpIfFalse l)) :
    Lays ctx own goals slots (Emit.materialize jumpIfFalse) :=
  .label fun falsy => .label fun done =>
    .after ((h falsy).weaken (by simp) (by simp) (by simp)) fun _ =>
    .after (.instruction (.of_isPlain rfl)) fun _ => .after (.goto (by simp)) fun _ =>
    .placing _ (by simp) (fun _ => .after (.instruction (.of_isPlain rfl)) fun _ =>
      .place (l := done) (by simp)) (by simp) (by simp)

theorem lays_emitReceiver : Lays ctx own goals slots (ctx.emitReceiver recur site want) := by
  unfold emitReceiver
  split
  · exact .after (.nodeType _) fun _ => (hrecur.emit _ _).closed
  · exact .ite lays_pushSelf (.pure _)

theorem lays_emitArgs (args : List Node) (params : List Ty) :
    Lays ctx own goals slots (ctx.emitArgs recur args params) :=
  .forM (fun _ => lays_emitAs hrecur ..) _

omit hrecur in
private theorem lays_ifZero {cond : Cond} (h : target ∈ own ∨ target ∈ goals) :
    Lays ctx own goals slots (Emit.instruction (.ifZero cond target)) :=
  .instruction ⟨rfl, fun k hk => by cases hk; exact h, nofun⟩

omit hrecur in
private theorem admits_jump (hreturn : i.isReturn = false) (hwrite : i.written? = none)
    (hjump : i.jumpTarget? = some target) : Admits [] [target] [] i :=
  ⟨hreturn, fun l hl => by simp [Option.some.inj (hjump.symm.trans hl)], by simp [hwrite]⟩

omit hrecur in
private theorem admits_compareCode {cond test : Cond} {operand : Ty}
    (h : Member.compareCode cond operand test target = .ok is) :
    ∀ i ∈ is, Admits [] [target] [] i := by
  unfold Member.compareCode at h
  intro i hi
  split at h <;> cases h <;> simp only [List.mem_cons, List.not_mem_nil, or_false] at hi
  · subst hi
    exact admits_jump rfl rfl rfl
  · rcases hi with rfl | rfl
    · exact .of_isPlain rfl
    · exact admits_jump rfl rfl rfl
  · rcases hi with rfl | rfl
    · exact .of_isPlain (by split <;> rfl)
    · exact admits_jump rfl rfl rfl
  · rcases hi with rfl | rfl
    · exact .of_isPlain (by split <;> rfl)
    · exact admits_jump rfl rfl rfl

theorem lays_compareAndJump (cond : Cond) (operand : Ty) (test : Cond) (target : Label) :
    Lays ctx [] [target] [] (ctx.compareAndJump recur site cond operand test target) :=
  .after (.ofExcept _) fun _ => .after (.ofExcept _) fun _ =>
    .bind (lays_emitAs hrecur ..) fun _ => .bind (lays_emitAs hrecur ..) fun _ =>
    .codeOf fun _ => admits_compareCode

theorem lays_jumpOnMember (m : Member) (site : CallSite) (target : Label) (when : Bool) :
    Lays ctx [] [target] [] (ctx.jumpOnMember recur m site target when) := by
  unfold jumpOnMember
  split
  · exact lays_compareAndJump hrecur ..
  · exact .after (.ofExcept _) fun _ => hrecur.branch ..
  · exact .bind (lays_emitReceiver hrecur ..) fun _ =>
      .bind (.instruction (.of_isPlain rfl)) fun _ => lays_ifZero (by simp)
  · exact .bind (lays_emitReceiver hrecur ..) fun _ =>
      .bind (.instruction (.of_isPlain rfl)) fun _ => lays_ifZero (by simp)
  · exact .throw _

theorem lays_emitIndex (params : List Ty) :
    Lays ctx own goals slots (ctx.emitIndex recur site params) := by
  unfold emitIndex
  split
  · exact lays_emitAs hrecur ..
  · exact .throw _

theorem lays_emitJoin (component : Ty) :
    Lays ctx own goals slots (ctx.emitJoin recur site component) := by
  refine .bind (lays_emitReceiver hrecur ..) fun _ => .temporary _ fun array =>
    .bind (.instruction (.store _ List.mem_cons_self)) fun _ => ?_
  extract_lets loop
  have hloop : ∀ separator slots, Lays ctx own goals slots (loop separator) := by
    intro separator slots
    refine .temporary _ fun builder => .temporary _ fun index => .bind (.code ?_) fun _ =>
      .label fun top => .label fun done => .placing [done] (by simp)
      (fun _ => .after (.code ?_) fun _ => ?_) (by simp) (by simp)
    · exact .plain_append rfl (.cons (.store _ (by simp)) (.cons (.of_isPlain rfl)
        (.cons (.store _ (by simp)) (by simp))))
    · exact .cons (.of_isPlain rfl) (.cons (.of_isPlain rfl) (.cons (.of_isPlain rfl)
        (.cons ⟨rfl, fun l hl => by simp [← Option.some.inj hl], nofun⟩ (by simp))))
    extract_lets append
    have happend : ∀ own', done ∈ own' → top ∈ own' →
        Settles ctx own' goals (index :: builder :: slots) [done] (append ()) := by
      intro own' hdone htop
      refine .after (.code ?_) fun _ => .after (.goto (.inl htop)) fun _ =>
        .placing _ hdone (fun _ => .of_lays (.plain rfl)) (by simp) (by simp)
      refine .plain_append (all_isPlain_append (all_isPlain_append rfl rfl)
        (Ty.boxCode_plain _)) (.cons (.of_isPlain rfl) (.cons (.of_isPlain rfl) ?_))
      exact .cons ⟨rfl, nofun, fun w hw => by simp [← Option.some.inj hw]⟩ (by simp)
    split
    · refine .label fun skip => .after (.code ?_) fun _ => .placing _ (by simp) (fun _ =>
        happend _ (by simp) (by simp)) (by simp) (by simp)
      exact .cons (.of_isPlain rfl) (.cons
        ⟨rfl, fun l hl => by simp [← Option.some.inj hl], nofun⟩ (.all_plain rfl))
    · exact happend _ (by simp) (by simp)
  split
  · exact .after (.pure _) fun _ => hloop _ _
  · exact .bind (lays_emitAs hrecur ..) fun _ => .temporary _ fun slot =>
      .bind (.instruction (.store _ List.mem_cons_self)) fun _ =>
      .after (.pure _) fun _ => hloop _ _

theorem lays_callArray (op : ArrayOp) (component : Ty) (params : List Ty) (result : Ty)
    (site : CallSite) (want : Bool) {jumpIfFalse : Label → Emit Unit}
    (hjump : ∀ l, Lays ctx [] [l] [] (jumpIfFalse l)) : Lays ctx own goals slots
      (ctx.callArray recur op component params result site want jumpIfFalse) := by
  have hfinish : Lays ctx own goals slots
      (if want then pure () else Emit.code result.popCode) :=
    .ite (.pure _) (.plain (Ty.popCode_plain _))
  have hreceiver : Lays ctx own goals slots (ctx.emitReceiver recur site true) :=
    lays_emitReceiver hrecur ..
  cases op with
  | get =>
    exact .bind hreceiver fun _ => .bind (lays_emitIndex hrecur ..) fun _ =>
      .bind (.plain rfl) fun _ => hfinish
  | first | last => exact .bind hreceiver fun _ => .bind (.plain rfl) fun _ => hfinish
  | set =>
    refine .bind hreceiver fun _ => .bind (lays_emitIndex hrecur ..) fun _ => ?_
    split
    · exact .bind (lays_emitAs hrecur ..) fun _ => .plain (all_isPlain_append
        (all_isPlain_ite _ (all_isPlain_singleton (Ty.dupUnderTwo_plain _)) rfl) rfl)
    · exact .throw _
  | length => exact .bind hreceiver fun _ => .bind (.instruction (.of_isPlain rfl)) fun _ => hfinish
  | empty => exact .ite (lays_materialize hjump) (lays_emitReceiver hrecur ..)
  | join => exact .bind (lays_emitJoin hrecur ..) fun _ => hfinish

theorem lays_callArith (operand : Ty) (want : Bool) {apply : Kind → Emit Unit}
    (happly : ∀ kind, Lays ctx own goals slots (apply kind)) :
    Lays ctx own goals slots (ctx.callArith recur site operand want apply) :=
  .after (.ofExcept _) fun _ => .after (.orFault ..) fun kind =>
    .bind (lays_emitAs hrecur ..) fun _ => .bind (happly kind) fun _ =>
    .ite (.plain (Ty.popCode_plain _)) (.pure _)

theorem lays_callMethod (kind : CallableKind) (m : Member) (site : CallSite) (want : Bool) :
    Lays ctx own goals slots (ctx.callMethod recur kind m site want) := by
  cases kind with
  | constructor =>
    exact .bind (lays_emitReceiver hrecur ..) fun _ => .bind (.plain rfl) fun _ =>
      .bind (lays_emitArgs hrecur ..) fun _ => .bind (.instruction (.of_isPlain rfl)) fun _ =>
      .ite (.instruction (.of_isPlain rfl)) (.pure _)
  | initializer => exact .throw _
  | static | onInstance =>
    exact .bind (lays_emitReceiver hrecur ..) fun _ => .bind (lays_emitArgs hrecur ..) fun _ =>
      .bind (.instruction (.of_isPlain rfl)) fun _ => lays_finishResult ..

theorem lays_callMember (m : Member) (site : CallSite) (want : Bool) :
    Lays ctx own goals slots (ctx.callMember recur m site want) := by
  have hreceiver : ∀ want, Lays ctx own goals slots (ctx.emitReceiver recur site want) :=
    fun _ => lays_emitReceiver hrecur ..
  unfold callMember
  split
  · exact lays_callArith hrecur _ _ _ fun _ => .after (.ofExcept _) fun _ =>
      .bind (lays_emitAs hrecur ..) fun _ => .instruction (.of_isPlain rfl)
  · exact lays_callArith hrecur _ _ _ fun _ => .instruction (.of_isPlain rfl)
  · exact .ite (lays_materialize fun _ => lays_jumpOnMember hrecur ..)
      (.after (.ofExcept _) fun _ => .bind (hrecur.emit ..).closed fun _ =>
        .after (.ofExcept _) fun _ => (hrecur.emit ..).closed)
  · exact .after (.ofExcept _) fun _ => .bind (hrecur.emit ..).closed fun _ =>
      .ite (.plain rfl) (.pure _)
  · exact .bind (hreceiver _) fun _ => .bind (.instruction (.of_isPlain rfl)) fun _ =>
      .ite (.instruction (.of_isPlain rfl)) (.pure _)
  · exact .ite (.plain (Ty.classLiteralCode_plain _)) (.pure _)
  · exact lays_callArray hrecur _ _ _ _ _ _ fun _ => lays_jumpOnMember hrecur ..
  · exact lays_callMethod hrecur ..
  · exact .bind (hreceiver _) fun _ => .bind (.instruction (.of_isPlain rfl)) fun _ =>
      lays_finishResult ..
  · exact .bind (hreceiver _) fun _ => .push (.of_isPlain rfl) _
  · exact .bind (hreceiver _) fun _ => .bind (lays_emitArgs hrecur ..) fun _ =>
      .plain (all_isPlain_append
        (all_isPlain_ite _ (all_isPlain_singleton (Ty.dupUnderOne_plain _)) rfl) rfl)
  · exact .bind (hreceiver _) fun _ => .bind (lays_emitArgs hrecur ..) fun _ =>
      .plain (all_isPlain_append (all_isPlain_ite _ (Ty.dupCode_plain _) rfl) rfl)

theorem lays_emitSuperCall (args : List Node) (want : Bool) :
    Lays ctx own goals slots (ctx.emitSuperCall recur node name args want) := by
  refine .after .get fun _ => .after (.ofExcept _) fun _ => .after (.orFault ..) fun _ =>
    .after (.ofExcept _) fun m => ?_
  unfold callSuperMember
  split
  · exact .bind lays_pushSelf fun _ => .bind (lays_emitArgs hrecur ..) fun _ =>
      .bind (.instruction (.of_isPlain rfl)) fun _ => lays_finishResult ..
  · exact lays_callMethod hrecur ..
  · exact .throw _

omit hrecur in
theorem lays_withMember (target : Option Node) (name : String) (args : List Node)
    {use : Member → CallSite → Emit Unit} (huse : ∀ m site, Lays ctx own goals slots (use m site)) :
    Lays ctx own goals slots (ctx.withMember node target name args use) := by
  unfold withMember
  split
  · exact .after (.nodeType _) fun _ => .after (.ofExcept _) fun _ => huse _ _
  · exact .after quiet_selfType fun _ => .after (.ofExcept _) fun _ => huse _ _

/-! ## Literals, texts and lists -/

theorem lays_emitBody (nodes : List Node) :
    Lays ctx own goals slots (emitBody recur want nodes) := by
  induction nodes with
  | nil => exact .push (.of_isPlain rfl) _
  | cons node nodes ih =>
    cases nodes with
    | nil => exact (hrecur.emit ..).closed
    | cons next rest => exact .bind (hrecur.emit ..).closed fun _ => ih

theorem lays_emitPrint (newline : Bool) (args : List Node) (want : Bool) :
    Lays ctx own goals slots (ctx.emitPrint recur newline args want) := by
  have hprinted : Lays ctx own goals slots (ctx.emitPrinted recur newline args) := by
    induction args with
    | nil => exact .pure _
    | cons arg rest ih =>
      exact .after (.nodeType _) fun _ => .bind (.instruction (.of_isPlain rfl)) fun _ =>
        .bind (lays_emitAs hrecur ..) fun _ => .bind (.instruction (.of_isPlain rfl)) fun _ => ih
  exact .ite (.bind (.plain rfl) fun _ => .bind hprinted fun _ => .push (.of_isPlain rfl) _)
    (.bind hprinted fun _ => .push (.of_isPlain rfl) _)

theorem lays_emitConcat (parts : List Node) (want : Bool) :
    Lays ctx own goals slots (ctx.emitConcat recur parts want) := by
  refine .ite (.bind (.plain rfl) fun _ => .bind (.forM (fun part => ?_) _) fun _ =>
    .instruction (.of_isPlain rfl)) (.forM (fun _ => (hrecur.emit ..).closed) _)
  exact .after (.nodeType _) fun t => .bind (hrecur.emit ..).closed fun _ =>
    .plain (all_isPlain_ite _ rfl (all_isPlain_append (Ty.boxCode_plain _) rfl))

theorem lays_emitText : Lays ctx own goals slots (ctx.emitText recur value want) := by
  refine .ite (.after (.nodeType _) fun _ => .bind (hrecur.emit ..).closed fun _ =>
    .bind (.plain (Ty.boxCode_plain _)) fun _ => .label fun present => .label fun done =>
    .after (.code ?_) fun _ => .after (.goto (by simp)) fun _ => .placing _ (by simp) (fun _ =>
      .after (.instruction (.of_isPlain rfl)) fun _ => .place (l := done) (by simp)) (by simp)
      (by simp)) (hrecur.emit ..).closed
  exact .cons (.of_isPlain rfl) (.cons
    ⟨rfl, fun l hl => by simp [← Option.some.inj hl], nofun⟩ (.all_plain rfl))

theorem lays_emitList (elements : List Node) (want : Bool) :
    Lays ctx own goals slots (ctx.emitList recur elements want) := by
  refine .ite (.bind (.plain rfl) fun _ => .bind (.forM (fun element => ?_) _) fun _ =>
    .instruction (.of_isPlain rfl)) (.forM (fun element => ?_) _)
  · exact .after (.nodeType _) fun _ => .bind (.instruction (.of_isPlain rfl)) fun _ =>
      .bind (hrecur.emit ..).closed fun _ =>
      .plain (all_isPlain_append (Ty.boxCode_plain _) rfl)
  · exact .after (.nodeType _) fun _ => .bind (hrecur.emit ..).closed fun _ =>
      .plain (all_isPlain_append (Ty.boxCode_plain _) (Ty.popCode_plain _))

theorem lays_emitNewArray (size : Node) (want : Bool) :
    Lays ctx own goals slots (ctx.emitNewArray recur node size want) :=
  .after (.nodeType _) fun _ => .after (.orFault ..) fun _ => .bind (lays_emitAs hrecur ..) fun _ =>
    .plain (all_isPlain_append (Ty.newArrayCode_plain _) (all_isPlain_ite _ rfl rfl))

/-! ## Definitions

Methods and classes have frames and jump scopes of their own. -/

omit hrecur

theorem quiet_emitMethod (spec : MethodSpec) : Quiet (ctx.emitMethod recur spec) :=
  .bind .get fun _ => .ite
    (.bind (.note ..) fun _ => .bind (.ofExcept _) fun _ => .modifyClass _)
    (.bind (.inFrame ..) fun _ => .bind (.orFault ..) fun _ => .bind (.ofExcept _) fun _ =>
      .bind (.note ..) fun _ => .modifyClass _)

theorem quiet_emitOverloads (spec : MethodSpec) (invocation : InvokeKind)
    (args : List (Argument × (String × Ty))) (taken : List (String × Ty)) :
    Quiet (ctx.emitOverloads recur spec invocation taken args) := by
  induction args generalizing taken with
  | nil => exact .pure _
  | cons arg rest ih =>
    exact .bind (.orFault ..) fun _ => .bind .get fun _ => .bind (quiet_emitMethod _) fun _ => ih _

theorem quiet_emitMethodDef (definition : MethodDef) (forceStatic : Bool) :
    Quiet (ctx.emitMethodDef recur node definition forceStatic) :=
  .bind (.nodeType _) fun _ => .bind .get fun _ => .bind (.ofExcept _) fun _ =>
    .bind (.ofExcept _) fun _ => .ite
      (.bind (quiet_emitOverloads ..) fun _ => quiet_emitMethod _) (quiet_emitMethod _)

theorem quiet_emitConstructorDef (definition : ConstructorDef) :
    Quiet (ctx.emitConstructorDef recur node definition) :=
  .bind (.ofExcept _) fun _ => .bind (quiet_emitOverloads ..) fun _ => quiet_emitMethod _

theorem quiet_emitClassDef (definition : ClassDef) :
    Quiet (ctx.emitClassDef recur node definition) := by
  refine .bind (.nodeType _) fun _ => .bind (.ofExcept _) fun _ => .ite ?_ ?_
  · exact .bind (.pure _) fun _ => .bind (.note ..) fun _ => .bind (.inClass ..) fun _ => .sharing _
  · exact .bind (.ofExcept _) fun _ => .bind (.note ..) fun _ => .bind (.inClass ..) fun _ =>
      .sharing _

theorem lays_emitClosureDef (definition : ClosureDef) (want : Bool) :
    Lays ctx own goals slots (ctx.emitClosureDef recur node definition want) := by
  refine .after (.nodeType _) fun t => .after .frame fun current => .after (.ofExcept _) fun _ =>
    .after (.note ..) fun _ => .after (.ofExcept _) fun _ => .after (.inClass ..) fun _ =>
    .after (.sharing _) fun _ => .after (.modifyClass _) fun _ => .ite ?_ (.pure _)
  refine .after .frame fun _ => .bind (.plain rfl) fun _ => ?_
  split
  · exact .plain rfl
  · exact .throw _
  · exact .instruction (.of_isPlain rfl)

end Context

end ClassBackend
