import ClassBackend.Proofs.Ledger.Gains

/-!
# What the parts of a node make

A node makes what its parts make, whatever code it is emitted as: emission goes
through every part of a plain node once, or passes over it or goes through it
again where a tally allows that. The recursion, about which the same is assumed,
emits the parts.
-/

namespace ClassBackend

variable {σ : Emission}

/-- The recursion makes what is planned for the nodes it is given. -/
structure Recursion.Counts (ctx : Context) (K : Tally) (recur : Recursion) : Prop where
  bounded : ∃ depth, recur = ctx.recursion depth
  listed : ∀ m ∈ ctx.members.members, m.isOfClass = true
  emit : ∀ {site node} want, K.Fair ctx site node →
    Emit.Gains ctx K site (ctx.planned site node) (recur.emit node want)
  branch : ∀ {site node} target when, K.Fair ctx site node →
    Emit.Gains ctx K site (ctx.planned site node) (recur.branch node target when)

theorem Context.planned_of_isPlain (ctx : Context) (site : Site) {node : Node}
    (h : node.kind.isPlain = true) : ctx.planned site node = ctx.plannedAll site node.children := by
  rw [planned, Occurrence.plan_eq, Occurrence.own_of_isPlain _ h, Occurrence.parts_of_isPlain _ h,
    Multiset.coe_nil, zero_add, List.map_map]
  rfl

theorem Tally.Fair.of_mem_children {K : Tally} {ctx : Context} {site : Site} {node part : Node}
    (h : K.Fair ctx site node) (hplain : node.kind.isPlain = true) (hpart : part ∈ node.children) :
    K.Fair ctx site part := by
  refine h.part ?_
  rw [Occurrence.parts_of_isPlain _ hplain]
  exact List.mem_map_of_mem hpart

theorem Emission.At.pending {ctx : Context} {K : Tally} {site : Site} (hσ : σ.At ctx K site)
    {target : JumpTarget} {pending : PendingEnsures}
    (hfind : σ.jumps.findEnsures? target = some pending) :
    ∀ entry ∈ pending.ensures, K.Fair ctx site entry.2 ∧ K.rel 0 (ctx.planned site entry.2) := by
  intro entry hentry
  obtain ⟨inner, gaps, outer, hjumps, -⟩ := Context.exists_append_of_findEnsures? hfind hentry
  have hopen : .ensure entry.2 gaps ∈ σ.jumps := by
    rw [hjumps]
    exact List.mem_append_right _ List.mem_cons_self
  exact hσ.clauses hopen

/-- The parts of a call may be gone through, or passed over where the member does
not need them. -/
structure CallSite.Fair (K : Tally) (ctx : Context) (site : Site) (name : String)
    (call : CallSite) : Prop where
  parts : ∀ part ∈ call.parts, K.Fair ctx site part
  literal : name = "class" → K.rel (ctx.plannedAll site call.target.toList) 0
  tested : name = "kind_of?" → K.rel (ctx.plannedAll site call.args) 0

namespace CallSite

theorem target_of_receiver {call : CallSite} {node : Node} (h : call.receiver = .ok node) :
    call.target = some node := by
  unfold receiver at h
  split at h
  · rename_i target htarget
    rw [htarget, Except.ok.inj h]
  · cases h

theorem args_of_operand {call : CallSite} {node : Node} (h : call.operand = .ok node)
    (hcount : call.args.length = 1) : call.args = [node] := by
  obtain ⟨arg, hargs⟩ := List.length_eq_one_iff.1 hcount
  simp only [operand, hargs, Except.ok.injEq] at h
  rw [hargs, h]

variable {K : Tally} {ctx : Context} {site : Site} {name : String} {call : CallSite} {node : Node}

theorem Fair.target (h : call.Fair K ctx site name) (htarget : call.target = some node) :
    K.Fair ctx site node := h.parts node (by simp [CallSite.parts, htarget])

theorem Fair.receiver (h : call.Fair K ctx site name) (hreceiver : call.receiver = .ok node) :
    K.Fair ctx site node := h.target (target_of_receiver hreceiver)

theorem planned_parts (h : call.receiver = .ok node) : ctx.plannedAll site call.parts =
    ctx.planned site node + ctx.plannedAll site call.args := by
  simp [CallSite.parts, target_of_receiver h]

theorem Fair.arg (h : call.Fair K ctx site name) (harg : node ∈ call.args) :
    K.Fair ctx site node := h.parts node (by simp [CallSite.parts, harg])

end CallSite

namespace Context

open Emit

variable {body value : Node} {args : List Node} {m : Member}

variable {ctx : Context} {K : Tally} {site : Site} {recur : Recursion} {d : Multiset Entry}

/-! ## Locals and fields -/

theorem gains_emitLocalAccess (node : Node) (name : String) (want : Bool) :
    Gains ctx K site 0 (ctx.emitLocalAccess node name want) :=
  .ite (.ofExcept_bind fun _ _ => .ite
    (.steps (related_pushBinding_bind fun _ hbinding =>
      .bind (related_captureField hbinding ..) fun _ => .instruction _))
    (.steps (.bind (.namedLocal ..) fun _ => .codeOf _))) (.pure _)

theorem gains_bindException (clause : RescueClause) :
    Gains ctx K site 0 (ctx.bindException clause) := by
  unfold bindException
  split
  · exact .steps (.instruction _)
  · exact .orFault_bind fun _ _ => .orFault_bind fun _ _ => .ite
      (.steps (related_pushBinding_bind fun _ hbinding =>
        .bind (related_captureField hbinding ..) fun _ => .code _))
      (.steps (.bind (.namedLocal ..) fun _ => .codeOf _))

variable (hrecur : recur.Counts ctx K)
include hrecur

variable {node : Node}

theorem gains_emitAs (hnode : K.Fair ctx site node) (target : Ty) :
    Gains ctx K site (ctx.planned site node) (ctx.emitAs recur node target) :=
  .step (.nodeType _) fun _ => .before (hrecur.emit _ hnode) fun _ =>
    .steps (.bind .reachable fun _ => .ite (related_convert ..) (.pure _))

theorem gains_emitCast (node : Node) (hvalue : K.Fair ctx site value) (want : Bool) :
    Gains ctx K site (ctx.planned site value) (ctx.emitCast recur node value want) :=
  .step (.nodeType _) fun _ => .step (.nodeType _) fun _ =>
    .step (.ofExcept _) fun _ => .before (hrecur.emit _ hvalue) fun _ =>
    .steps (.bind (.code _) fun _ => .ite (.code _) (.pure _))

theorem gains_emitLocalAssign (node : Node) (name : String) (hvalue : K.Fair ctx site value)
    (want : Bool) :
    Gains ctx K site (ctx.planned site value) (ctx.emitLocalAssign recur node name value want) :=
  .ofExcept_bind fun _ _ => .ite
    (gains_pushBinding_bind fun _ hbinding =>
      .step (related_captureField hbinding ..) fun _ =>
      .before (gains_emitAs hrecur hvalue _) fun _ => .steps (.code _))
    (.step (.namedLocal ..) fun _ =>
      .before (gains_emitAs hrecur hvalue _) fun _ =>
      .steps (.ite (.bind (.code _) fun _ => .codeOf _) (.codeOf _)))

theorem gains_emitFieldAssign (name : String) (hvalue : K.Fair ctx site value) (isStatic : Bool)
    (notes : List Note) (want : Bool) : Gains ctx K site (ctx.planned site value)
      (ctx.emitFieldAssign recur name value isStatic notes want) :=
  .step .get fun _ => .step (.nodeType _) fun _ =>
    .step (related_declareUsedField ..) fun _ =>
    .step (related_fieldOf ..) fun _ => .ite
      (.before (gains_emitAs hrecur hvalue _) fun _ => .steps (.code _))
      (.step related_pushSelf fun _ =>
        .before (gains_emitAs hrecur hvalue _) fun _ => .steps (.code _))

/-! ## Calls -/

omit hrecur in
theorem gains_materialize {jump : Label → Emit Unit} (h : ∀ l, Gains ctx K site d (jump l)) :
    Gains ctx K site d (Emit.materialize jump) :=
  .step .label fun falsy => .step .label fun _ =>
    .before (h falsy) fun _ => .steps (.bind (.instruction _) fun _ =>
      .bind (.goto _) fun _ => .bind (.place _) fun _ => .bind (.instruction _) fun _ => .place _)

variable {name : String} {call : CallSite} (hcall : call.Fair K ctx site name)
include hcall

theorem gains_emitReceiver (want : Bool) : Gains ctx K site (ctx.plannedAll site call.target.toList)
      (ctx.emitReceiver recur call want) := by
  unfold emitReceiver
  split
  · rename_i node htarget
    rw [htarget, Option.toList_some, plannedAll_cons, plannedAll_nil, add_zero]
    exact .step (.nodeType _) fun _ =>
      hrecur.emit _ (hcall.target htarget)
  · rename_i htarget
    rw [htarget, Option.toList_none, plannedAll_nil]
    exact .steps (.ite related_pushSelf (.pure _))

omit hcall in
theorem gains_emitArgs (hargs : ∀ arg ∈ args, K.Fair ctx site arg) {params : List Ty}
    (hparams : params.length = args.length) :
    Gains ctx K site (ctx.plannedAll site args) (ctx.emitArgs recur args params) := by
  have hmade : ctx.plannedAll site args =
      ((args.zip params).map fun entry => ctx.planned site entry.1).sum := by
    rw [plannedAll, ← List.map_fst_zip hparams.ge, List.map_map]
    simp [Function.comp_def, List.map_fst_zip hparams.ge]
  rw [hmade]
  exact .forM fun entry hentry =>
    gains_emitAs hrecur (hargs entry.1 (List.of_mem_zip hentry).1) entry.2

theorem gains_compareAndJump (hcount : call.args.length = 1) (cond : Cond) (operand : Ty)
    (test : Cond) (target : Label) : Gains ctx K site (ctx.plannedAll site call.parts)
      (ctx.compareAndJump recur call cond operand test target) := by
  refine .ofExcept_bind fun left hleft => .ofExcept_bind fun right hright => ?_
  have hargs := CallSite.args_of_operand hright hcount
  rw [CallSite.planned_parts hleft, hargs, plannedAll_cons, plannedAll_nil, add_zero]
  exact .bind (gains_emitAs hrecur (hcall.receiver hleft) _) fun _ =>
    .before (gains_emitAs hrecur (hcall.arg (by simp [hargs])) _) fun _ =>
    .steps (.codeOf _)

theorem gains_receiver (hcount : call.args.length = 0) (want : Bool) :
    Gains ctx K site (ctx.plannedAll site call.parts) (ctx.emitReceiver recur call want) := by
  rw [CallSite.parts, List.eq_nil_of_length_eq_zero hcount, List.append_nil]
  exact gains_emitReceiver hrecur hcall want

theorem gains_tested (hname : name = "kind_of?") (want : Bool) :
    Gains ctx K site (ctx.plannedAll site call.parts) (ctx.emitReceiver recur call want) := by
  refine (gains_emitReceiver hrecur hcall want).weaken ?_
  have hskip := K.add_left (ctx.plannedAll site call.target.toList) (hcall.tested hname)
  rwa [add_zero, ← plannedAll_append] at hskip

theorem gains_callArith (operand : Ty) (want : Bool) {apply : Kind → Emit Unit}
    (happly : ∀ kind, Gains ctx K site (ctx.plannedAll site call.args) (apply kind)) :
    Gains ctx K site (ctx.plannedAll site call.parts)
      (ctx.callArith recur call operand want apply) := by
  refine .ofExcept_bind fun left hleft => .orFault_bind fun kind _ => ?_
  rw [CallSite.planned_parts hleft]
  exact .bind (gains_emitAs hrecur (hcall.receiver hleft) _) fun _ =>
    .before (happly kind) fun _ => .steps (.ite (.code _) (.pure _))

theorem gains_emitJoin (hcount : call.args.length ≤ 1) (component : Ty) :
    Gains ctx K site (ctx.plannedAll site call.parts) (ctx.emitJoin recur call component) := by
  rw [CallSite.parts, plannedAll_append]
  refine .bind (gains_emitReceiver hrecur hcall _) fun _ =>
    .step (.temporary _) fun _ =>
    .step (.instruction _) fun _ => ?_
  extract_lets loop
  have hloop : ∀ separator, Gains ctx K site 0 (loop separator) := by
    intro separator
    refine .steps (.bind (.temporary _) fun _ => .bind (.temporary _) fun _ =>
      .bind (.code _) fun _ => .bind .label fun _ => .bind .label fun _ =>
      .bind (.place _) fun _ => .bind (.code _) fun _ => ?_)
    extract_lets append
    have happend : Related (countingSteps ctx K) site (append ()) (append ()) :=
      .bind (.code _) fun _ => .bind (.goto _) fun _ => .bind (.place _) fun _ => .code _
    split
    · exact .bind .label fun _ => .bind (.code _) fun _ => .bind (.place _) fun _ => happend
    · exact happend
  split
  · rename_i hargs
    rw [hargs, plannedAll_nil]
    exact .after (.pure _) fun _ => hloop _
  · rename_i given rest hargs
    have hrest : rest = [] := by
      rw [hargs, List.length_cons] at hcount
      exact List.eq_nil_of_length_eq_zero (by omega)
    rw [hargs, hrest, plannedAll_cons, plannedAll_nil, add_zero]
    exact .before (gains_emitAs hrecur (hcall.arg (by simp [hargs])) _) fun _ =>
      .step (.temporary _) fun _ =>
      .step (.instruction _) fun _ => .after (.pure _) fun _ => hloop _

theorem gains_callArray {op : ArrayOp} (hcount : op.takes call.args.length = true) (component : Ty)
    (params : List Ty) (result : Ty) (want : Bool) {jump : Label → Emit Unit}
    (hjump : op = .empty → ∀ l, Gains ctx K site (ctx.plannedAll site call.parts) (jump l)) :
    Gains ctx K site (ctx.plannedAll site call.parts)
      (ctx.callArray recur op component params result call want jump) := by
  have hfinish : Gains ctx K site 0 (if want then pure () else Emit.code result.popCode) :=
    .steps (.ite (.pure _) (.code _))
  have hreceiver : Gains ctx K site (ctx.plannedAll site call.target.toList)
      (ctx.emitReceiver recur call true) := gains_emitReceiver hrecur hcall true
  -- what follows the receiver of a member without arguments makes nothing
  have halone : ∀ {rest : Unit → Emit Unit}, call.args.length = 0 →
      (∀ u, Gains ctx K site 0 (rest u)) → Gains ctx K site (ctx.plannedAll site call.parts)
        (ctx.emitReceiver recur call true >>= rest) :=
    fun hnone hrest => .before (gains_receiver hrecur hcall hnone true) hrest
  have hindex : ∀ {index : Node} {rest : List Node}, call.args = index :: rest →
      Gains ctx K site (ctx.planned site index) (ctx.emitIndex recur call params) := by
    intro index rest hargs
    unfold emitIndex
    rw [hargs]
    split
    · rename_i heq
      cases heq
      exact gains_emitAs hrecur (hcall.arg (by simp [hargs])) _
    · exact .throw _
  cases op with
  | get =>
    obtain ⟨index, hargs⟩ := List.length_eq_one_iff.1 (beq_iff_eq.1 hcount)
    rw [CallSite.parts, hargs, plannedAll_append, plannedAll_cons, plannedAll_nil, add_zero]
    exact .bind hreceiver fun _ => .before (hindex hargs) fun _ =>
      .step (.code _) fun _ => hfinish
  | set =>
    obtain ⟨index, value, hargs⟩ := List.length_eq_two.1 (beq_iff_eq.1 hcount)
    rw [CallSite.parts, hargs, plannedAll_append, plannedAll_cons, plannedAll_cons,
      plannedAll_nil, add_zero]
    refine .bind hreceiver fun _ => .bind (hindex hargs) fun _ => ?_
    rw [hargs]
    exact .before (gains_emitAs hrecur (hcall.arg (by simp [hargs])) _) fun _ =>
      .steps (.code _)
  | first | last =>
    exact halone (beq_iff_eq.1 hcount) fun _ =>
      .step (.code _) fun _ => hfinish
  | length =>
    exact halone (beq_iff_eq.1 hcount) fun _ =>
      .step (.instruction _) fun _ => hfinish
  | empty =>
    exact .ite (gains_materialize (hjump rfl)) (gains_receiver hrecur hcall (beq_iff_eq.1 hcount) _)
  | join =>
    exact .before (gains_emitJoin hrecur hcall (of_decide_eq_true hcount) _) fun _ => hfinish

theorem gains_callMethod (kind : CallableKind) (hparams : m.params.length = call.args.length)
    (want : Bool) : Gains ctx K site (ctx.plannedAll site call.parts)
      (ctx.callMethod recur kind m call want) := by
  rw [CallSite.parts, plannedAll_append]
  have hargs : Gains ctx K site (ctx.plannedAll site call.args)
      (ctx.emitArgs recur call.args m.params) :=
    gains_emitArgs hrecur (fun _ harg => hcall.arg harg) hparams
  cases kind with
  | constructor =>
    exact .bind (gains_emitReceiver hrecur hcall _) fun _ =>
      .step (.code _) fun _ => .before hargs fun _ =>
      .steps (.bind (.instruction _) fun _ => .ite (.instruction _) (.pure _))
  | initializer => exact .throw _
  | static | onInstance =>
    exact .bind (gains_emitReceiver hrecur hcall _) fun _ => .before hargs fun _ =>
      .steps (.bind (.instruction _) fun _ => .code _)

theorem gains_jumpOnMember (hm : ctx.members.Serves name call.args.length m) (target : Label)
    (when : Bool) : Gains ctx K site (ctx.plannedAll site call.parts)
      (ctx.jumpOnMember recur m call target when) := by
  have hother : ∀ fault, Gains ctx K site (ctx.plannedAll site call.parts)
      (throw fault : Emit Unit) := fun _ => .throw _
  cases hm with
  | listed hmem =>
    -- members of classes do not branch
    have hclass := hrecur.listed m hmem
    cases m with
    | callable | getter | setter => exact hother _
    | _ => cases hclass
  | not _ hcount =>
    refine .ofExcept_bind fun left hleft => ?_
    rw [CallSite.planned_parts hleft, List.eq_nil_of_length_eq_zero hcount,
      plannedAll_nil, add_zero]
    exact hrecur.branch _ _ (hcall.receiver hleft)
  | negate | arith | classLiteral => exact hother _
  | compare _ _ _ _ hcount => exact gains_compareAndJump hrecur hcall hcount ..
  | instanceOf _ _ hname =>
    exact .before (gains_tested hrecur hcall hname true) fun _ =>
      .steps (.bind (.instruction _) fun _ => .instruction _)
  | @array op component params result hcount =>
    cases op with
    | empty =>
      exact .before (gains_receiver hrecur hcall (beq_iff_eq.1 hcount) true) fun _ =>
        .steps (.bind (.instruction _) fun _ => .instruction _)
    | _ => exact hother _

theorem gains_callMember (hm : ctx.members.Serves name call.args.length m) (want : Bool) :
    Gains ctx K site (ctx.plannedAll site call.parts) (ctx.callMember recur m call want) := by
  have hjump : ∀ l, Gains ctx K site (ctx.plannedAll site call.parts)
      (ctx.jumpOnMember recur m call l false) :=
    fun l => gains_jumpOnMember hrecur hcall hm l false
  cases hm with
  | listed hmem _ hparams =>
    have hset : ∀ want is, Gains ctx K site (ctx.plannedAll site call.parts) (do
        ctx.emitReceiver recur call want
        ctx.emitArgs recur call.args m.params
        Emit.code is) := by
      intro want is
      rw [CallSite.parts, plannedAll_append]
      exact .bind (gains_emitReceiver hrecur hcall want) fun _ =>
        .before (gains_emitArgs hrecur (fun _ harg => hcall.arg harg) hparams) fun _ =>
        .steps (.code _)
    have hclass := hrecur.listed m hmem
    cases m with
    | callable kind => exact gains_callMethod hrecur hcall kind hparams want
    | getter isStatic =>
      cases isStatic with
      | false =>
        exact .before (gains_receiver hrecur hcall hparams.symm true) fun _ =>
          .steps (.bind (.instruction _) fun _ => .code _)
      | true =>
        exact .before (gains_receiver hrecur hcall hparams.symm false) fun _ =>
          .steps (.push ..)
    | setter isStatic =>
      cases isStatic with
      | false | true => exact hset _ _
    | _ => cases hclass
  | not _ hcount =>
    refine .ofExcept_bind fun left hleft => ?_
    rw [CallSite.planned_parts hleft, List.eq_nil_of_length_eq_zero hcount,
      plannedAll_nil, add_zero]
    exact .before (hrecur.emit _ (hcall.receiver hleft)) fun _ =>
      .steps (.ite (.code _) (.pure _))
  | negate _ _ hcount =>
    refine gains_callArith hrecur hcall _ _ fun _ => ?_
    rw [List.eq_nil_of_length_eq_zero hcount]
    exact .steps (.instruction _)
  | arith _ _ _ _ hcount =>
    refine gains_callArith hrecur hcall _ _ fun _ => .ofExcept_bind fun right hright => ?_
    have hargs := CallSite.args_of_operand hright hcount
    rw [hargs, plannedAll_cons, plannedAll_nil, add_zero]
    exact .before (gains_emitAs hrecur (hcall.arg (by simp [hargs])) _) fun _ =>
      .steps (.instruction _)
  | compare _ _ _ _ hcount =>
    refine .ite (gains_materialize hjump) (.ofExcept_bind fun left hleft => ?_)
    obtain ⟨right, hargs⟩ := List.length_eq_one_iff.1 hcount
    rw [CallSite.planned_parts hleft, hargs, plannedAll_cons, plannedAll_nil, add_zero]
    refine .bind (hrecur.emit _ (hcall.receiver hleft)) fun _ =>
      .ofExcept_bind fun operand hoperand => ?_
    obtain rfl : operand = right := by
      simpa [CallSite.operand, hargs] using hoperand.symm
    exact hrecur.emit _ (hcall.arg (by simp [hargs]))
  | classLiteral _ hname hcount =>
    have hskip := hcall.literal hname
    rw [CallSite.parts, List.eq_nil_of_length_eq_zero hcount, List.append_nil]
    exact (Gains.steps (.ite (.code _) (.pure _))).weaken hskip
  | instanceOf _ _ hname =>
    exact .before (gains_tested hrecur hcall hname true) fun _ =>
      .steps (.bind (.instruction _) fun _ => .ite (.instruction _) (.pure _))
  | array _ _ _ hcount => exact gains_callArray hrecur hcall hcount _ _ _ _ fun _ => hjump

omit hcall

omit hrecur in
theorem gains_withMember {target : Option Node}
    {use : Member → CallSite → Emit Unit}
    (huse : ∀ m, ctx.members.Serves name args.length m →
      Gains ctx K site d (use m ⟨target, args, node⟩)) :
    Gains ctx K site d (ctx.withMember node target name args use) := by
  unfold withMember
  split
  · exact .step (.nodeType _) fun _ =>
      .ofExcept_bind fun m hm => huse m (serves_of_lookup hm)
  · exact .step related_selfType fun _ =>
      .ofExcept_bind fun m hm => huse m (serves_of_lookup hm)

theorem gains_emitSuperCall (node : Node) (name : String)
    (hargs : ∀ arg ∈ args, K.Fair ctx site arg) (want : Bool) :
    Gains ctx K site (ctx.plannedAll site args) (ctx.emitSuperCall recur node name args want) := by
  refine .step .get fun _ => .ofExcept_bind fun _ _ =>
    .orFault_bind fun _ _ => .ofExcept_bind fun m hm => ?_
  have hm := serves_of_lookup hm
  have hcall : CallSite.Fair K ctx site "" ⟨none, args, node⟩ := ⟨hargs, nofun, nofun⟩
  cases hm with
  | listed hmem _ hparams =>
    have hclass := hrecur.listed m hmem
    cases m with
    | callable kind =>
      cases kind with
      | onInstance =>
        exact .step related_pushSelf fun _ =>
          .before (gains_emitArgs hrecur hargs hparams) fun _ =>
          .steps (.bind (.instruction _) fun _ => .code _)
      | static => exact gains_callMethod hrecur hcall .static hparams want
      | constructor => exact gains_callMethod hrecur hcall .constructor hparams want
      | initializer => exact gains_callMethod hrecur hcall .initializer hparams want
    | getter | setter => exact .throw _
    | _ => cases hclass
  | _ => exact .throw _

/-! ## Literals, texts and lists -/

theorem gains_emitBody (want : Bool) {nodes : List Node}
    (hnodes : ∀ node ∈ nodes, K.Fair ctx site node) :
    Gains ctx K site (ctx.plannedAll site nodes) (emitBody recur want nodes) := by
  induction nodes with
  | nil => exact .steps (.push ..)
  | cons node nodes ih =>
    obtain ⟨hnode, hrest⟩ := List.forall_mem_cons.1 hnodes
    rw [plannedAll_cons]
    cases nodes with
    | nil =>
      rw [plannedAll_nil, add_zero]
      exact hrecur.emit _ hnode
    | cons next rest => exact .bind (hrecur.emit _ hnode) fun _ => ih hrest

theorem gains_emitPrint (newline : Bool) (hargs : ∀ arg ∈ args, K.Fair ctx site arg) (want : Bool) :
    Gains ctx K site (ctx.plannedAll site args) (ctx.emitPrint recur newline args want) := by
  have hprinted : Gains ctx K site (ctx.plannedAll site args)
      (ctx.emitPrinted recur newline args) := by
    induction args with
    | nil => exact .pure _
    | cons arg rest ih =>
      obtain ⟨harg, hrest⟩ := List.forall_mem_cons.1 hargs
      rw [plannedAll_cons]
      exact .step (.nodeType _) fun _ =>
        .step (.instruction _) fun _ =>
        .bind (gains_emitAs hrecur harg _) fun _ =>
        .step (.instruction _) fun _ => ih hrest
  exact .ite (.step (.code _) fun _ => .before hprinted fun _ =>
    .steps (.push ..)) (.before hprinted fun _ => .steps (.push ..))

theorem gains_emitConcat {parts : List Node} (hparts : ∀ part ∈ parts, K.Fair ctx site part)
    (want : Bool) :
    Gains ctx K site (ctx.plannedAll site parts) (ctx.emitConcat recur parts want) :=
  .ite (.step (.code _) fun _ =>
    .before (.forM fun part hpart => .step (.nodeType _) fun _ =>
      .before (hrecur.emit _ (hparts part hpart)) fun _ => .steps (.code _)) fun _ =>
    .steps (.instruction _))
    (.forM fun part hpart => hrecur.emit _ (hparts part hpart))

theorem gains_emitText (hvalue : K.Fair ctx site value) (want : Bool) :
    Gains ctx K site (ctx.planned site value) (ctx.emitText recur value want) :=
  .ite (.step (.nodeType _) fun _ => .before (hrecur.emit _ hvalue) fun _ =>
    .steps (.bind (.code _) fun _ => .bind .label fun _ => .bind .label fun _ =>
      .bind (.code _) fun _ => .bind (.goto _) fun _ => .bind (.place _) fun _ =>
      .bind (.instruction _) fun _ => .place _)) (hrecur.emit _ hvalue)

theorem gains_emitList {elements : List Node} (helements : ∀ part ∈ elements, K.Fair ctx site part)
    (want : Bool) :
    Gains ctx K site (ctx.plannedAll site elements) (ctx.emitList recur elements want) :=
  .ite (.step (.code _) fun _ =>
    .before (.forM fun part hpart => .step (.nodeType _) fun _ =>
      .step (.instruction _) fun _ =>
      .before (hrecur.emit _ (helements part hpart)) fun _ => .steps (.code _)) fun _ =>
    .steps (.instruction _))
    (.forM fun part hpart => .step (.nodeType _) fun _ =>
      .before (hrecur.emit _ (helements part hpart)) fun _ => .steps (.code _))

theorem gains_emitNewArray (node : Node) {size : Node} (hsize : K.Fair ctx site size)
    (want : Bool) :
    Gains ctx K site (ctx.planned site size) (ctx.emitNewArray recur node size want) :=
  .ofExcept_bind fun _ _ => .orFault_bind fun _ _ => .before (gains_emitAs hrecur hsize _) fun _ =>
    .steps (.code _)

/-! ## Branches and loops -/

omit hrecur in
theorem gains_plain {α : Type} {kind : NodeKind} {x : Emit α} (hnode : K.Fair ctx site node)
    (hkind : node.kind = kind) (hplain : kind.isPlain = true)
    (h : (∀ part ∈ Node.children { node with kind }, K.Fair ctx site part) →
      Gains ctx K site (ctx.plannedAll site (Node.children { node with kind })) x) :
    Gains ctx K site (ctx.planned site node) x := by
  subst hkind
  rw [planned_of_isPlain ctx site hplain]
  exact h fun _ hpart => hnode.of_mem_children hplain hpart

theorem gains_someArm (hnode : K.Fair ctx site node) (value : Bool) (t : Ty) :
    Gains ctx K site (ctx.planned site node) (ctx.emitArm recur (some node) value t) :=
  .ite (gains_emitAs hrecur hnode _) (hrecur.emit _ hnode)

theorem gains_emitArm {arm : Option Node} (harm : ∀ part ∈ arm, K.Fair ctx site part) (value : Bool)
    (t : Ty) :
    Gains ctx K site (ctx.plannedAll site arm.toList) (ctx.emitArm recur arm value t) := by
  cases arm with
  | some node =>
    rw [Option.toList_some, plannedAll_cons, plannedAll_nil, add_zero]
    exact gains_someArm hrecur (harm node rfl) value t
  | none => exact .steps (.ite (.code _) (.pure _))

theorem gains_emitIf (node : Node) {condition : Node} {body elseBody : Option Node}
    (hcondition : K.Fair ctx site condition) (hbody : ∀ part ∈ body, K.Fair ctx site part)
    (helse : ∀ part ∈ elseBody, K.Fair ctx site part) (want : Bool) :
    Gains ctx K site (ctx.planned site condition + (ctx.plannedAll site body.toList +
      ctx.plannedAll site elseBody.toList))
        (ctx.emitIf recur node condition body elseBody want) := by
  refine .step (.nodeType _) fun _ => .step .label fun _ =>
    .step .label fun _ => ?_
  split
  · exact .bind (hrecur.branch _ _ hcondition) fun _ => .bind (gains_emitArm hrecur hbody ..)
      fun _ => .step (.gotoIfReachable _) fun _ =>
      .step (.place _) fun _ => .before (gains_emitArm hrecur helse ..) fun _ =>
      .steps (.bind (.place _) fun _ => .push ..)
  · rename_i hnone
    have hbody : body = none := by
      cases body with
      | none => rfl
      | some _ => simp at hnone
    rw [hbody, Option.toList_none, plannedAll_nil, zero_add]
    exact .bind (hrecur.branch _ _ hcondition) fun _ =>
      .before (gains_emitArm hrecur helse ..) fun _ =>
      .steps (.bind (.place _) fun _ => .push ..)

theorem gains_statements {nodes : List Node} (hnodes : ∀ node ∈ nodes, K.Fair ctx site node) :
    Gains ctx K site (ctx.plannedAll site nodes)
      (nodes.forM fun node => recur.emit node false) :=
  .forM fun node hnode => hrecur.emit _ (hnodes node hnode)

theorem gains_emitLoopParts {parts : LoopParts} (hinit : ∀ part ∈ parts.init, K.Fair ctx site part)
    (hcondition : K.Fair ctx site parts.condition) (hpre : ∀ part ∈ parts.pre, K.Fair ctx site part)
    (hbody : ∀ part ∈ parts.body, K.Fair ctx site part)
    (hpost : ∀ part ∈ parts.post, K.Fair ctx site part)
    (hagain : parts.skipFirstCheck = false → parts.post ≠ [] →
      K.rel 0 (ctx.planned site parts.condition)) (labels : LoopLabels) :
    Gains ctx K site (ctx.plannedAll site parts.init + (ctx.planned site parts.condition +
      (ctx.plannedAll site parts.pre + (ctx.plannedAll site parts.body.toList +
        ctx.plannedAll site parts.post)))) (emitLoopParts recur parts labels) := by
  refine .bind (gains_statements hrecur hinit) fun _ => ?_
  extract_lets testAfter finish rest test
  have hmain : Gains ctx K site (ctx.plannedAll site parts.body.toList)
      (parts.body.forM fun node => recur.emit node false) := by
    cases hcase : parts.body with
    | none => exact .pure _
    | some node =>
      rw [Option.toList_some, plannedAll_cons, plannedAll_nil, add_zero]
      exact hrecur.emit _ (hbody node hcase)
  have hrest : Gains ctx K site (ctx.plannedAll site parts.pre +
      (ctx.plannedAll site parts.body.toList + if testAfter = true then
        ctx.plannedAll site parts.post + ctx.planned site parts.condition else 0)) (rest ()) := by
    refine .step .label fun _ => .step (.place _) fun _ =>
      .bind (gains_statements hrecur hpre) fun _ => .step (.place _) fun _ =>
      .bind hmain fun _ => ?_
    split
    · exact .step (.place _) fun _ =>
        .bind (gains_statements hrecur hpost) fun _ =>
        .before (hrecur.branch _ _ hcondition) fun _ => .steps (.place _)
    · exact .steps (.bind (.goto _) fun _ => .place _)
  have htested : Gains ctx K site (ctx.planned site parts.condition +
      (ctx.plannedAll site parts.pre + (ctx.plannedAll site parts.body.toList +
        if testAfter = true then ctx.plannedAll site parts.post + ctx.planned site parts.condition
        else 0))) (if parts.post.isEmpty = true then do Emit.place labels.nextLabel; test ()
        else test ()) :=
    .ite (.step (.place _) fun _ =>
      .bind (hrecur.branch _ _ hcondition) fun _ => hrest)
      (.bind (hrecur.branch _ _ hcondition) fun _ => hrest)
  split
  · rename_i hfirst
    have hskip : parts.skipFirstCheck = false := by simpa using hfirst
    by_cases hnone : parts.post = []
    · have htest : testAfter = false := by simp [testAfter, hskip, hnone]
      refine htested.congr ?_
      simp [htest, hnone]
    · -- the condition is emitted twice
      have htest : testAfter = true := by simp [testAfter, hskip, hnone]
      refine htested.weaken ?_
      rw [if_pos htest]
      have hmore := K.add_left (ctx.planned site parts.condition + (ctx.plannedAll site parts.pre +
        (ctx.plannedAll site parts.body.toList + ctx.plannedAll site parts.post)))
        (hagain hskip hnone)
      rw [add_zero] at hmore
      simpa only [add_assoc] using hmore
  · rename_i hfirst
    have htest : testAfter = true := by
      have hskip : parts.skipFirstCheck = true := by simpa using hfirst
      simp [testAfter, hskip]
    refine hrest.congr ?_
    rw [if_pos htest]
    abel

theorem gains_emitLoop {parts : LoopParts} (hnode : K.Fair ctx site node)
    (hkind : node.kind = .loop parts) (want : Bool) :
    Gains ctx K site (ctx.planned site node) (emitLoop recur parts want) := by
  have hsound := hnode.self
  rw [Tally.Sound, hkind] at hsound
  refine gains_plain hnode hkind rfl fun hchildren => ?_
  obtain ⟨hfront, hpost⟩ := List.forall_mem_append.1 hchildren
  obtain ⟨hfront, hmain⟩ := List.forall_mem_append.1 hfront
  obtain ⟨hinit, hfront⟩ := List.forall_mem_append.1 hfront
  obtain ⟨hcondition, hpre⟩ := List.forall_mem_cons.1 hfront
  refine .step .label fun _ => .step .label fun _ =>
    .step .label fun _ => .before (.openScope ?_ nofun) fun _ =>
    .steps (.push ..)
  refine (gains_emitLoopParts hrecur hinit hcondition hpre
    (fun part hpart => hmain part (Option.mem_toList.2 hpart)) hpost hsound _).congr ?_
  simp only [Node.children, plannedAll_append, plannedAll_cons]
  abel

/-! ## Jumps -/

omit hrecur in
theorem gains_missingTarget (node : Node) (jump : String) (target : JumpTarget) :
    Gains ctx K site d (missingTarget node jump target) := by
  unfold missingTarget
  split
  · exact .report ..
  · exact .throw _

theorem gains_runEnsures {ensures : List (Nat × Node)} (hensures : ∀ entry ∈ ensures,
      K.Fair ctx site entry.2 ∧ K.rel 0 (ctx.planned site entry.2)) :
    Gains ctx K site 0 (runEnsures recur ensures) := by
  induction ensures with
  | nil => exact .pure _
  | cons first rest ih =>
    obtain ⟨⟨hfair, hagain⟩, hrest⟩ := List.forall_mem_cons.1 hensures
    exact .step .label fun _ => .step (.place _) fun _ =>
      .after ((hrecur.emit _ hfair).detached.weaken hagain) fun _ =>
      .after (ih hrest) fun _ => .pure _

omit hrecur in
theorem gains_closeGaps (ensures : List (Nat × Node)) (starts : List Label) :
    Gains ctx K site 0 (closeGaps ensures starts) := by
  exact .ite (.step .label fun _ =>
    .step (.place _) fun _ => .forM_zero fun _ _ => .recordGap _ _) (.pure _)

theorem gains_emitLoopJump (node : Node) (jump : LoopJump) :
    Gains ctx K site 0 (emitLoopJump recur node jump) := by
  refine .get_bind fun σ hσ => ?_
  extract_lets jumps
  split
  · exact gains_missingTarget ..
  · rename_i pending hfind
    exact .orFault_bind fun _ _ => .after (gains_runEnsures hrecur (hσ.pending hfind)) fun _ =>
      .step (.goto _) fun _ => gains_closeGaps ..

theorem gains_emitReturn (node : Node) {value : Option Node}
    (hvalue : ∀ part ∈ value, K.Fair ctx site part) :
    Gains ctx K site (ctx.plannedAll site value.toList) (ctx.emitReturn recur node value) := by
  refine .get_bind fun σ hσ => ?_
  split
  · exact gains_missingTarget ..
  · rename_i pending hfind
    refine .step .frame fun current => ?_
    extract_lets t run leave
    have hrun : ∀ parked, Gains ctx K site 0 (run parked) := by
      intro parked
      refine .after (gains_runEnsures hrecur (hσ.pending hfind)) fun starts => ?_
      extract_lets finish
      have hfinish : Gains ctx K site 0 (finish ()) :=
        .step (.code _) fun _ => gains_closeGaps ..
      split
      · exact .step (.codeOf _) fun _ => hfinish
      · exact hfinish
    have hleave : Gains ctx K site 0 (leave ()) :=
      .ite (.steps (.code _)) (.ite (.after (.pure _) fun _ => hrun _)
        (.step (.temporary _) fun _ =>
          .step (.codeOf _) fun _ => .after (.pure _) fun _ => hrun _))
    cases value with
    | some node =>
      rw [Option.toList_some, plannedAll_cons, plannedAll_nil, add_zero]
      exact .ite (.before (hrecur.emit _ (hvalue node rfl)) fun _ => hleave)
        (.before (gains_emitAs hrecur (hvalue node rfl) _) fun _ => hleave)
    | none => exact .step (.code _) fun _ => hleave

theorem gains_emitRaise (hvalue : K.Fair ctx site value) :
    Gains ctx K site (ctx.planned site value) (ctx.emitRaise recur value) := by
  refine .step (.nodeType _) fun _ => .ite ?_ (.ite ?_ ?_)
  · exact .step (.code _) fun _ => .before (hrecur.emit _ hvalue) fun _ =>
      .steps (.bind (.instruction _) fun _ => .instruction _)
  · exact .before (hrecur.emit _ hvalue) fun _ =>
      .steps (.bind (.code _) fun _ => .instruction _)
  · exact .before (hrecur.emit _ hvalue) fun _ => .steps (.instruction _)

omit hrecur

/-! ## Rescue and ensure -/

theorem emitRegion_nonempty {depth : Nat} (hbody : body.leavesCode ctx.members = true)
    {value : Bool} {t : Ty} {τ : Emission} {region : RescueRegion}
    (h : ctx.emitRegion (ctx.recursion depth) body value t σ = .ok region τ) :
    region.empty = false := by
  obtain ⟨s, hs⟩ := exists_draft_of_assembling_bind h
  obtain ⟨b, _, _, -, ⟨depth', υ, υ', harm, hυ, hυ'⟩, -, rfl⟩ :=
    emitRegion_parts (lays_recursion ctx depth) h hs
  obtain ⟨b', hb', hmore⟩ := adds_emitArm depth' hbody value t harm hυ
  cases hυ'.symm.trans hb'
  have hoffset : s.offset + 1 ≤ b.offset := hmore
  exact decide_eq_false (by omega)

theorem emitEnd_reachable {start : Label} {gaps : List (Label × Label)} {τ : Emission}
    {ended : List (Label × Label) × Bool} (h : emitEnd start gaps σ = .ok ended τ) :
    ended.2 = true := by
  obtain ⟨s, hs⟩ := exists_draft_of_assembling_bind h
  rw [(emitEnd_draft h hs).2]

include hrecur

theorem gains_emitRegion (hbody : K.Fair ctx site body) (value : Bool) (t : Ty) :
    Gains ctx K site (ctx.planned site body) (ctx.emitRegion recur body value t) := by
  exact .step .label fun _ => .step .label fun _ =>
    .step .label fun _ => .step (.place _) fun _ =>
    .before (gains_someArm hrecur hbody ..) fun _ => .step (.place _) fun _ =>
    .step (.looking _) fun _ => .pure _

theorem gains_emitClause (start stop done : Label) (value : Bool) (t : Ty) {clause : RescueClause}
    (hclause : K.Fair ctx site clause.body) : Gains ctx K site (ctx.planned site clause.body)
      (ctx.emitClause recur ctx.bindException start stop done value t clause) := by
  exact .step .label fun _ => .step (.place _) fun _ =>
    .step (.forM fun _ _ => .bind (.ofExcept _) fun _ => .protect _) fun _ =>
    .after (gains_bindException clause) fun _ => .before (gains_someArm hrecur hclause ..) fun _ =>
    .steps (.gotoIfReachable _)

theorem gains_emitRescue {clauses : List RescueClause} {elseClause : Option Node}
    (hnode : K.Fair ctx site node) (hkind : node.kind = .rescue body clauses elseClause)
    (want : Bool) : Gains ctx K site (ctx.planned site node)
      (ctx.emitRescue recur ctx.bindException node body clauses elseClause want) := by
  have hsound := hnode.self
  rw [Tally.Sound, hkind] at hsound
  refine gains_plain hnode hkind rfl fun hchildren => ?_
  obtain ⟨hfront, helse⟩ := List.forall_mem_append.1 hchildren
  obtain ⟨hbody, hclauses⟩ := List.forall_mem_cons.1 hfront
  have hmade : ctx.plannedAll site (Node.children
        { node with kind := .rescue body clauses elseClause }) =
      ctx.planned site body + (ctx.plannedAll site elseClause.toList +
        (clauses.map fun clause => ctx.planned site clause.body).sum) := by
    have hbodies : ctx.plannedAll site (clauses.map (·.body)) =
        (clauses.map fun clause => ctx.planned site clause.body).sum := by
      rw [plannedAll, List.map_map]
      rfl
    rw [Node.children, plannedAll_append, plannedAll_cons, hbodies]
    abel
  rw [hmade]
  refine .step (.nodeType _) fun t =>
    .bind_of_ok (gains_emitRegion hrecur hbody ..) @fun σ region τ hrun => ?_
  extract_lets finish handlers
  have hfinish : Gains ctx K site 0 (finish ()) :=
    .steps (.bind (.place _) fun _ => .push ..)
  have hhandlers : Gains ctx K site (clauses.map fun clause => ctx.planned site clause.body).sum
      (handlers ()) := by
    refine .step (.gotoIfReachable _) fun _ => ?_
    split
    · rename_i hempty
      have hskip : ∀ clause ∈ clauses, K.rel (ctx.planned site clause.body) 0 := by
        refine hsound.resolve_left fun hleaves => ?_
        obtain ⟨depth, rfl⟩ := hrecur.bounded
        rw [emitRegion_nonempty hleaves hrun] at hempty
        cases hempty
      exact (Gains.step (.note ..) fun _ => hfinish).weaken
        (K.sum_zero hskip)
    · exact .before (.forM fun clause hclause => gains_emitClause hrecur _ _ _ _ _
        (hclauses _ (List.mem_map_of_mem hclause))) fun _ => hfinish
  split
  · exact .bind (gains_emitArm hrecur
      (fun part hpart => helse part (Option.mem_toList.2 hpart)) ..) fun _ => hhandlers
  · rename_i hnone
    rw [Option.not_isSome_iff_eq_none.1 hnone, Option.toList_none, plannedAll_nil, zero_add]
    exact hhandlers

theorem gains_emitEnsure {clause : Node} (hnode : K.Fair ctx site node)
    (hkind : node.kind = .ensure body clause) (want : Bool) :
    Gains ctx K site (ctx.planned site node) (ctx.emitEnsure recur node body clause want) := by
  have hagain := hnode.self
  rw [Tally.Sound, hkind] at hagain
  refine gains_plain hnode hkind rfl fun hchildren => ?_
  obtain ⟨hbody, hrest⟩ := List.forall_mem_cons.1 hchildren
  have hclause := List.forall_mem_singleton.1 hrest
  have hhandler : ∀ ranges, Gains ctx K site 0 (emitEnsureHandler recur clause ranges) := fun _ =>
    .step .label fun _ => .step (.gotoIfReachable _) fun _ =>
      .step .label fun _ => .step (.place _) fun _ =>
      .step (.forM fun _ _ => .protect _) fun _ =>
      .step (.temporary _) fun _ =>
      .step (.instruction _) fun _ =>
      .after ((hrecur.emit _ hclause).weaken hagain) fun _ =>
      .steps (.bind (.code _) fun _ => .place _)
  rw [Node.children, plannedAll_cons, plannedAll_cons, plannedAll_nil, add_zero]
  refine .step (.nodeType _) fun t => .step .label fun _ =>
    .step (.place _) fun _ => .bind (.openScope (gains_someArm hrecur hbody ..) ?_) fun left => ?_
  · rintro known gaps heq
    cases heq
    exact ⟨hclause, hagain⟩
  · extract_lets value rest
    have hrest : ∀ gaps, Gains ctx K site (ctx.planned site clause) (rest gaps) := by
      intro gaps
      refine .congr (.bind_of_ok ?_ @fun σ left τ hrun => ?_) (zero_add _).symm
      · exact .step .label fun _ => .step (.place _) fun _ =>
          .step (.looking _) fun _ =>
          .step .reachable fun _ => .pure _
      · rw [if_pos (emitEnd_reachable hrun)]
        exact .before (hrecur.emit _ hclause) fun _ => .ite
          (.step (.note ..) fun _ => .steps (.push ..))
          (.after (hhandler _) fun _ => .steps (.push ..))
    split
    · exact .after (.pure _) fun _ => hrest _
    · exact .after (.throw _) fun _ => hrest _

end Context

end ClassBackend
