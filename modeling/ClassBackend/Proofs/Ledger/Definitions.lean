import ClassBackend.Proofs.Ledger.Counts

/-!
# What definitions make

Every definition makes the methods and classes that its plan says, and what is
defined in it. With that, emission of a whole script makes what is planned
(`Context.gains_emitScript`), as far as a tally tells.
-/

namespace ClassBackend

variable {node : Node}

/-- Statements of a script that make up its main method. -/
def NodeKind.isStatement : NodeKind → Bool
  | .methodDef _ | .constructorDef _ | .classDef _ => false
  | _ => true

/-- Where the statements of a script stand: in the code of its class, with the
top-level methods as static ones. -/
def Site.ofScript (owner : String) : Site where
  owner := owner
  isInterface := false
  isStatic := true
  declaresStatic := true

def MethodSpec.taking (spec : MethodSpec) (owner : String) (params : List (String × Ty)) : Entry :=
  .method owner spec.name (methodDescriptor (params.map (·.2)) spec.returnType) spec.isStatic

namespace Argument

theorem required_le (args : List Argument) : required args ≤ args.length :=
  (List.takeWhile_prefix _).length_le

/-- The arguments before the first optional one have no default values. -/
theorem defaults_drop_required (args : List Argument) :
    defaults (args.drop (required args)) = defaults args := by
  induction args with
  | nil => rfl
  | cons arg args ih =>
    rw [required, List.takeWhile_cons]
    split
    · rename_i hnone
      rw [List.length_cons, List.drop_succ_cons]
      exact ih.trans (List.filterMap_cons_none (Option.isNone_iff_eq_none.1 hnone)).symm
    · rfl

end Argument

theorem TypeMap.find?_of_typeOf {types : TypeMap} {t : Ty} (h : types.typeOf node = .ok t) :
    types.find? node.id = some t := by
  rw [typeOf] at h
  split at h
  · rename_i found hfound
    rw [hfound, Except.ok.inj h]
  · cases h

/-- Outside interfaces there is an overload for every number of arguments. -/
theorem TypeMap.emittedArities_of_params {types : TypeMap} {args : List Argument}
    {params : List (String × Ty)} (h : types.paramsOf args = .ok params) :
    types.emittedArities false args = (List.range (args.length + 1 - Argument.required args)).map
      fun extra => (params.take (Argument.required args + extra)).map (·.2) := by
  simp only [emittedArities, h, Bool.false_eq_true, if_false, List.map_take]

theorem entry_of_closureConstructor {closure binding : Ty} {method : MethodInfo}
    (h : closureConstructor closure binding = .ok method) (owner : String) :
    method.entry owner = .method owner "<init>" (methodDescriptor [binding] .void) false := by
  obtain ⟨-, -, -, -, hname, hdescriptor, haccess, -⟩ := Assembler.finish_eq_ok h
  have hstatic : method.isStatic = false := by
    rw [MethodInfo.isStatic, show method.access = Access.publicFlag from haccess]
    decide
  rw [MethodInfo.entry, hstatic, show method.name = "<init>" from hname,
    show method.descriptor = methodDescriptor [binding] .void from hdescriptor]

namespace Context

open Emit

variable {spec : MethodSpec} {place : Site}

variable {ctx : Context} {K : Tally} {site inner : Site} {recur : Recursion} {d : Multiset Entry}

theorem sum_map_split {β : Type} (last : β → Bool) (made : β → Multiset Entry) (bs : List β) :
    (bs.map made).sum = (bs.map fun b => if last b then 0 else made b).sum +
      ((bs.filter last).map made).sum := by
  induction bs with
  | nil => rfl
  | cons b bs ih =>
    rw [List.map_cons, List.sum_cons, ih, List.map_cons, List.sum_cons, List.filter_cons]
    split
    · rw [List.map_cons, List.sum_cons]
      abel
    · abel

/-- A node whose parts all stand at one site makes its own entries and what is planned for
the parts. -/
theorem fair_and_planned {nodes : List Node} (hnode : K.Fair ctx site node)
    (h : Occurrence.parts ctx.types ⟨site, node⟩ = nodes.map (Occurrence.mk inner)) :
    (∀ part ∈ nodes, K.Fair ctx inner part) ∧ ctx.planned site node =
      (Occurrence.own ctx.types ⟨site, node⟩ : Multiset Entry) + ctx.plannedAll inner nodes := by
  refine ⟨fun part hpart => hnode.part (h ▸ List.mem_map_of_mem hpart), ?_⟩
  rw [planned, Occurrence.plan_eq, h, List.map_map]
  rfl

variable {α : Type}

theorem gains_nodeType_bind {f : Ty → Emit α}
    (h : ∀ t, ctx.types.find? node.id = some t → Gains ctx K site d (f t)) :
    Gains ctx K site d (ctx.nodeType node >>= f) := by
  exact .ofExcept_bind fun t ht => h t (TypeMap.find?_of_typeOf ht)

variable (hrecur : recur.Counts ctx K)
include hrecur

/-! ## Methods -/

theorem gains_emitDelegation {delegation : Delegation}
    (hargs : ∀ arg ∈ delegation.args, K.Fair ctx site arg) :
    Gains ctx K site (ctx.plannedAll site delegation.args)
      (ctx.emitDelegation recur delegation) := by
  refine .step .get fun state => ?_
  extract_lets classType finish
  have hfinish : ∀ target, Gains ctx K site (ctx.plannedAll site delegation.args)
      (finish target) := by
    intro target
    refine .ofExcept_bind fun types htypes => .orFault_bind fun constructor hconstructor =>
      .step (.instruction _) fun _ => .before ?_ fun _ =>
      .steps (.instruction _)
    have hlength : constructor.params.length = delegation.args.length := by
      rw [(Registry.of_cheapest? hconstructor).2, length_of_mapM htypes]
    exact gains_emitArgs hrecur hargs hlength
  exact .ite (.step (.map _ (.ofExcept _)) hfinish) (.after (.pure _) hfinish)

theorem gains_emitInside (hparts : ∀ part ∈ spec.parts, K.Fair ctx site part) :
    Gains ctx K site (ctx.plannedAll site spec.parts) (ctx.emitInside recur spec) := by
  obtain ⟨hprologue, hbody⟩ := List.forall_mem_append.1 hparts
  rw [MethodSpec.parts, plannedAll_append]
  refine .bind ?_ fun _ => .before ?_ fun _ =>
    .steps (.bind .reachable fun _ => .ite (.code _) (.pure _))
  · cases hcase : spec.prologue with
    | none => exact .pure _
    | superInit =>
      exact .steps (.bind .get fun _ => .bind (.ofExcept _) fun _ => .code _)
    | delegate delegation =>
      rw [hcase] at hprologue
      exact gains_emitDelegation hrecur hprologue
  · unfold emitMethodBody
    cases hcase : spec.body with
    | node body =>
      rw [hcase] at hbody
      cases body with
      | none => exact .steps (.code _)
      | some body =>
        have hfair : K.Fair ctx site body := hbody body (List.mem_singleton_self body)
        simp only [Option.toList_some, plannedAll_cons, plannedAll_nil, add_zero]
        exact .ite (hrecur.emit _ hfair) (gains_emitAs hrecur hfair _)
    | statements nodes =>
      rw [hcase] at hbody
      exact gains_statements hrecur hbody
    | forward default next invocation filled =>
      rw [hcase] at hbody
      have hfair : K.Fair ctx site default := hbody default (List.mem_singleton_self default)
      have hrest : Gains ctx K site (ctx.planned site default) (do
          spec.params.forM fun param => do
            let slot ← Emit.namedLocal param.1 param.2
            Emit.codeOf (param.2.loadCode slot)
          ctx.emitAs recur default filled
          Emit.instruction (.invoke invocation next)) :=
        .step (.forM fun _ _ => .bind (.namedLocal ..) fun _ => .codeOf _)
          fun _ => .before (gains_emitAs hrecur hfair _) fun _ =>
          .steps (.instruction _)
      simp only [plannedAll_cons, plannedAll_nil, add_zero]
      exact .ite (.step (.instruction _) fun _ => hrest) hrest

theorem gains_emitMethod_of_parts (spec : MethodSpec) (hinner : site.Holds spec.isStatic inner)
    (hparts : ∀ part ∈ spec.parts, K.Fair ctx inner part)
    (habstract : Access.has spec.access Access.abstractFlag = false ∨ spec.parts = []) :
    Gains ctx K site ({.method site.owner spec.name spec.descriptor spec.isStatic} +
      ctx.plannedAll inner spec.parts) (ctx.emitMethod recur spec) := by
  have hinside := gains_emitInside hrecur hparts
  obtain ⟨depth, rfl⟩ := hrecur.bounded
  refine gains_emitMethod hinner hinside fun h => ?_
  rw [habstract.resolve_left (by simp [h])]
  rfl

/-- A class that has a constructor without arguments does not get another one. -/
theorem gains_emitDefaultConstructor : Gains ctx K site {.method site.owner "<init>" "()V" false}
      (ctx.emitDefaultConstructor recur) := by
  intro σ u τ hrun hσ
  have hrun' := get_bind_eq_ok.1 hrun
  split at hrun'
  · have hmethod : Gains ctx K site ({.method site.owner "<init>" "()V" false} +
        ctx.plannedAll (site.inMethod false) []) (ctx.emitMethod recur {
          name := "<init>"
          access := Access.publicFlag
          returnType := .void
          body := .node none
          prologue := .superInit }) :=
      gains_emitMethod_of_parts hrecur _ ⟨rfl, rfl, rfl⟩ nofun (.inr rfl)
    exact hmethod.congr (add_zero _).symm hrun' hσ
  · rename_i hknown
    obtain ⟨-, rfl⟩ := pure_eq_ok.1 hrun'
    rw [Bool.not_eq_true', Bool.not_eq_false, ClassFile.hasMethod, List.any_eq_true] at hknown
    obtain ⟨method, hmethod, hanswers⟩ := hknown
    rw [MethodInfo.answersTo, Bool.and_eq_true, beq_iff_eq, beq_iff_eq] at hanswers
    have hentry : .method site.owner "<init>" "()V" method.isStatic ∈ τ.entries := by
      rw [← hσ.name, ← hanswers.1, ← hanswers.2]
      exact Multiset.mem_add.2 (.inl (ClassFile.mem_entries.2 ⟨method, hmethod, rfl⟩))
    exact ⟨hσ, fun hclean => ⟨hclean, K.known hentry⟩⟩

/-! ## Overloads -/

theorem gains_emitOverloads (invocation : InvokeKind) (hinner : site.Holds spec.isStatic inner)
    (hconcrete : Access.has spec.access Access.abstractFlag = false)
    {rest : List (Argument × (String × Ty))} (taken : List (String × Ty))
    (hdefaults : ∀ default ∈ Argument.defaults (rest.map (·.1)), K.Fair ctx inner default) :
    Gains ctx K site
      (((List.range rest.length).map fun extra =>
        spec.taking site.owner (taken ++ (rest.map (·.2)).take extra) : List Entry) +
        ctx.plannedAll inner (Argument.defaults (rest.map (·.1))))
      (ctx.emitOverloads recur spec invocation taken rest) := by
  induction rest generalizing taken with
  | nil => exact .pure _
  | cons entry rest ih =>
    obtain ⟨arg, param⟩ := entry
    refine .orFault_bind fun default hdefault => ?_
    have hall : Argument.defaults ((arg, param) :: rest |>.map (·.1)) =
        default :: Argument.defaults (rest.map (·.1)) := by
      simp [Argument.defaults, hdefault]
    rw [hall] at hdefaults ⊢
    obtain ⟨hfair, hrest⟩ := List.forall_mem_cons.1 hdefaults
    have hmethod : ∀ next, Gains ctx K site
        ({spec.taking site.owner taken} + ctx.plannedAll inner [default])
        (ctx.emitMethod recur {
          name := spec.name
          access := spec.access
          params := taken
          returnType := spec.returnType
          scope := spec.scope
          body := .forward default next invocation param.2 }) := fun _ =>
      gains_emitMethod_of_parts hrecur _ hinner (List.forall_mem_singleton.2 hfair)
        (.inl hconcrete)
    refine .step .get fun state =>
      .congr ((hmethod _).bind fun _ => ih (taken ++ [param]) hrest) ?_
    simp only [List.length_cons, List.range_succ_eq_map, List.map_cons, List.map_map,
      List.take_zero, List.append_nil, plannedAll_cons, plannedAll_nil, ← Multiset.cons_coe,
      ← Multiset.singleton_add, Function.comp_def, List.take_succ_cons, List.append_assoc,
      List.singleton_append, add_zero]
    abel

/-- A method and its overloads are made, one for each number of arguments. -/
theorem gains_withOverloads {args : List Argument} (invocation : InvokeKind)
    (hinner : site.Holds spec.isStatic inner)
    (hconcrete : Access.has spec.access Access.abstractFlag = false)
    (hparams : spec.params.length = args.length)
    (hdefaults : ∀ default ∈ Argument.defaults args, K.Fair ctx inner default)
    (hparts : ∀ part ∈ spec.parts, K.Fair ctx inner part) : Gains ctx K site
      (((List.range (args.length + 1 - Argument.required args)).map fun extra =>
        spec.taking site.owner (spec.params.take (Argument.required args + extra)) : List Entry) +
        ctx.plannedAll inner (Argument.defaults args ++ spec.parts))
      (do
        ctx.emitAllOverloads recur spec invocation args
        ctx.emitMethod recur spec) := by
  have hrequired := Argument.required_le args
  have hfirst : ((args.zip spec.params).drop (Argument.required args)).map (·.1) =
      args.drop (Argument.required args) := by
    rw [List.map_drop, List.map_fst_zip (by omega)]
  have hsecond : ((args.zip spec.params).drop (Argument.required args)).map (·.2) =
      spec.params.drop (Argument.required args) := by
    rw [List.map_drop, List.map_snd_zip (by omega)]
  have hoverloads := gains_emitOverloads hrecur invocation hinner hconcrete
    (spec.params.take (Argument.required args)) (by rwa [hfirst, Argument.defaults_drop_required])
  refine (hoverloads.bind fun _ =>
    gains_emitMethod_of_parts hrecur _ hinner hparts (.inl hconcrete)).congr ?_
  have hcount : ((args.zip spec.params).drop (Argument.required args)).length =
      args.length - Argument.required args := by simp [hparams]
  have hlast : spec.taking site.owner (spec.params.take
      (Argument.required args + (args.length - Argument.required args))) =
      .method site.owner spec.name spec.descriptor spec.isStatic := by
    rw [Nat.add_sub_cancel' hrequired, ← hparams, List.take_length]
    rfl
  rw [hfirst, hsecond, Argument.defaults_drop_required, hcount, Nat.sub_add_comm hrequired,
    List.range_succ, List.map_append, plannedAll_append, ← Multiset.coe_add, List.map_singleton,
    hlast, Multiset.coe_singleton]
  simp only [List.take_add]
  abel

/-! ## Methods and constructors -/

/-- A method makes itself and its overloads, whether it stands among the members
of a class or in the code of one. -/
theorem gains_emitMethodDef {definition : MethodDef} (hkind : node.kind = .methodDef definition)
    (howner : place.owner = site.owner) (hinterface : place.isInterface = site.isInterface)
    (hnode : K.Fair ctx place node) : Gains ctx K site (ctx.planned place node)
      (ctx.emitMethodDef recur node definition place.isStatic) := by
  obtain ⟨hparts, hplanned⟩ := fair_and_planned hnode (by
    simp only [Occurrence.parts, hkind]
    rfl)
  refine gains_nodeType_bind fun returnType htype => .get_bind fun σ hσ =>
    .ofExcept_bind fun params hparams => .ofExcept_bind fun throws _ => ?_
  extract_lets spec finish
  have hstatic : spec.isStatic = (definition.isStatic || place.isStatic) := by
    simp only [spec, MethodSpec.isStatic]
    cases definition.isStatic || place.isStatic <;> decide
  have hconcrete : Access.has spec.access Access.abstractFlag = false := by
    simp only [spec]
    cases definition.isStatic || place.isStatic <;> decide
  have hinner : site.Holds spec.isStatic
      (place.inMethod (definition.isStatic || place.isStatic)) :=
    ⟨howner, hinterface, hstatic.symm⟩
  have hfile : σ.current.isInterface = place.isInterface := hσ.isInterface.trans hinterface.symm
  have howns : Occurrence.own ctx.types ⟨place, node⟩ =
      (ctx.types.emittedArities place.isInterface definition.args).map fun params =>
        .method site.owner spec.name (methodDescriptor params spec.returnType) spec.isStatic := by
    simp only [Occurrence.own, hkind, htype, howner, hstatic]
    rfl
  rw [hplanned, howns]
  cases hcase : place.isInterface with
  | true =>
    simp only [hcase, if_true] at hparts
    simp only [hfile, hcase, TypeMap.emittedArities, hparams, finish, Bool.not_true,
      Bool.false_eq_true, Bool.true_and, if_true, if_false, List.map_singleton,
      Multiset.coe_singleton]
    split
    · rename_i habstract
      have hnone : definition.body.toList = [] := by
        rw [Option.isNone_iff_eq_none.1 habstract, Option.toList_none]
      have hflags : Access.has (spec.access ||| Access.abstractFlag) Access.staticFlag =
          spec.isStatic := by
        simp only [spec, MethodSpec.isStatic]
        cases definition.isStatic || place.isStatic <;> decide
      rw [← hflags] at hinner ⊢
      exact gains_emitMethod_of_parts hrecur _ hinner hparts (.inr hnone)
    · exact gains_emitMethod_of_parts hrecur _ hinner hparts (.inl hconcrete)
  | false =>
    have hfinish : ∀ r, finish r = ctx.emitMethod recur spec := fun _ => by
      simp only [finish, hfile, hcase, Bool.false_and, Bool.false_eq_true, if_false]
    have hchildren : node.children = Argument.defaults definition.args ++ spec.parts := by
      rw [Node.children, hkind]
      rfl
    simp only [hcase, Bool.false_eq_true, if_false, hchildren] at hparts
    simp only [hfile, hcase, TypeMap.emittedArities_of_params hparams, hfinish, Bool.not_false,
      Bool.false_eq_true, if_true, if_false, List.map_map, hchildren]
    obtain ⟨hdefaults, hbody⟩ := List.forall_mem_append.1 hparts
    exact gains_withOverloads hrecur _ hinner hconcrete (length_of_mapM hparams) hdefaults hbody

theorem gains_emitConstructorDef {definition : ConstructorDef}
    (hkind : node.kind = .constructorDef definition) (howner : place.owner = site.owner)
    (hinterface : place.isInterface = site.isInterface) (hnode : K.Fair ctx place node) :
    Gains ctx K site (ctx.planned place node) (ctx.emitConstructorDef recur node definition) := by
  refine .ofExcept_bind fun params hparams => ?_
  extract_lets spec
  have hstatic : spec.isStatic = false := by
    simp only [spec, MethodSpec.isStatic]
    decide
  have hconcrete : Access.has spec.access Access.abstractFlag = false := by
    simp only [spec]
    decide
  obtain ⟨hparts, hplanned⟩ := fair_and_planned hnode (by
    simp only [Occurrence.parts, hkind]
    rfl)
  have hchildren : node.children = Argument.defaults definition.args ++ spec.parts := by
    rw [Node.children, hkind]
    simp only [spec, MethodSpec.parts, List.append_assoc]
    cases definition.delegate <;> rfl
  have howns : Occurrence.own ctx.types ⟨place, node⟩ =
      (List.range (definition.args.length + 1 - Argument.required definition.args)).map
        fun extra => spec.taking site.owner (spec.params.take
          (Argument.required definition.args + extra)) := by
    simp only [Occurrence.own, hkind, TypeMap.emittedArities_of_params hparams, List.map_map,
      MethodSpec.taking, hstatic, howner]
    rfl
  rw [hplanned, howns]
  rw [hchildren] at hparts ⊢
  obtain ⟨hdefaults, hbody⟩ := List.forall_mem_append.1 hparts
  exact gains_withOverloads hrecur _ ⟨howner, hinterface, hstatic.symm⟩ hconcrete
    (length_of_mapM hparams) hdefaults hbody

/-! ## Classes -/

omit hrecur in
/-- The members of a class are emitted first, the code of its initializer
after them. -/
theorem sum_planned_members (here : Site) (members : List Node) (hstatic : here.isStatic = false) :
    (members.map fun member =>
        ctx.planned { here with isStatic := member.kind.isInitializer } member).sum =
      (members.map fun member =>
        if member.kind.isInitializer then 0 else ctx.planned here member).sum +
      ctx.plannedAll { here with isStatic := true } (members.filter (·.kind.isInitializer)) := by
  have hhere : { here with isStatic := false } = here := by rw [← hstatic]
  rw [sum_map_split (·.kind.isInitializer)]
  congr 2
  · refine List.map_congr_left fun member _ => ?_
    cases hcase : member.kind.isInitializer
    · rw [hhere]
    · rfl
  · refine List.map_congr_left fun member hmember => ?_
    rw [(List.mem_filter.1 hmember).2]

theorem gains_emitMember {member : Node} (hstatic : site.isStatic = false)
    (hmember : K.Fair ctx { site with isStatic := member.kind.isInitializer } member) :
    Gains ctx K site (if member.kind.isInitializer then 0 else ctx.planned site member)
      (ctx.emitMember recur member) := by
  have hsite : { site with isStatic := false } = site := by rw [← hstatic]
  unfold emitMember
  cases hkind : member.kind with
  | methodDef definition =>
    rw [hkind, NodeKind.isInitializer, hsite] at hmember
    have hmethod := gains_emitMethodDef hrecur hkind rfl rfl hmember
    rwa [hstatic] at hmethod
  | constructorDef definition =>
    rw [hkind, NodeKind.isInitializer, hsite] at hmember
    exact gains_emitConstructorDef hrecur hkind rfl rfl hmember
  | classDef definition =>
    rw [hkind, NodeKind.isInitializer, hsite] at hmember
    exact hrecur.emit false hmember
  | fieldDecl field =>
    have hnothing : ctx.planned site member = 0 := by
      rw [planned_of_isPlain ctx site (by rw [hkind]; rfl), Node.children, hkind]
      rfl
    simp only [hnothing, ite_self]
    exact .pure _
  | _ => exact .pure _

theorem gains_emitClassBody (node : Node) {definition : ClassDef}
    (hmembers : ∀ member ∈ definition.body,
      K.Fair ctx { site with isStatic := member.kind.isInitializer } member)
    (hstatic : site.isStatic = false) :
    Gains ctx K site
      ((if definition.body.any (·.kind.isInitializer) then
          {.method site.owner "<clinit>" "()V" true} else 0) +
        (if !definition.isInterface && !definition.hasConstructor then
          {.method site.owner "<init>" "()V" false} else 0) +
        (definition.body.map fun member =>
          ctx.planned { site with isStatic := member.kind.isInitializer } member).sum)
      (ctx.emitClassBody recur node definition) := by
  have hinitializer : ∀ member ∈ definition.body.filter (·.kind.isInitializer),
      K.Fair ctx { site with isStatic := true } member := by
    intro member hmember
    obtain ⟨hmem, hinit⟩ := List.mem_filter.1 hmember
    exact hinit ▸ hmembers member hmem
  have htotal : ∀ a b c d : Multiset Entry, a + b + (c + d) = c + (a + d + b) :=
    fun _ _ _ _ => by abel
  rw [sum_planned_members site definition.body hstatic, htotal]
  refine .after (.forM_zero fun member _ => ?field) fun _ => .bind (.forM fun member hmember =>
    gains_emitMember hrecur hstatic (hmembers member hmember)) fun _ => ?_
  case field =>
    split
    · exact .steps (related_emitFieldDef ..)
    · exact .pure _
  extract_lets initializer finish
  have hfinish : ∀ r, Gains ctx K site (if !definition.isInterface && !definition.hasConstructor
      then {.method site.owner "<init>" "()V" false} else 0) (finish r) := by
    intro r
    simp only [finish]
    split
    · exact gains_emitDefaultConstructor hrecur
    · exact .pure _
  have hany : definition.body.any (·.kind.isInitializer) = !initializer.isEmpty := by
    rw [Bool.eq_iff_iff]
    simp [initializer]
  let spec : MethodSpec := {
    name := "<clinit>"
    access := Access.staticFlag
    returnType := .void
    scope := ctx.scopes.scopeFor? node.id
    body := .statements initializer }
  have hflags : spec.isStatic = true ∧ Access.has spec.access Access.abstractFlag = false := by
    simp only [spec, MethodSpec.isStatic]
    decide
  have hmethod : Gains ctx K site ({.method site.owner "<clinit>" "()V" true} +
      ctx.plannedAll { site with isStatic := true } initializer) (ctx.emitMethod recur spec) := by
    rw [← hflags.1]
    refine gains_emitMethod_of_parts hrecur spec ⟨rfl, rfl, rfl⟩ ?_ (.inl hflags.2)
    rw [hflags.1]
    exact hinitializer
  rw [hany]
  split
  · exact hmethod.bind hfinish
  · rename_i hempty
    have hnil : initializer = [] := by simpa using hempty
    rw [show definition.body.filter (·.kind.isInitializer) = [] from hnil, plannedAll_nil,
      add_zero, zero_add]
    exact hfinish ()

theorem gains_emitClassDef {definition : ClassDef} (hkind : node.kind = .classDef definition)
    (hnode : K.Fair ctx place node) :
    Gains ctx K site (ctx.planned place node) (ctx.emitClassDef recur node definition) := by
  have hmembers : ∀ member ∈ definition.body, K.Fair ctx
      { ctx.types.classSite node definition.isInterface with
        isStatic := member.kind.isInitializer } member := by
    intro member hmember
    refine hnode.part ?_
    simp only [Occurrence.parts, hkind]
    exact List.mem_map.2 ⟨member, hmember, rfl⟩
  have howns : (Occurrence.own ctx.types ⟨place, node⟩ : Multiset Entry) =
      {.classFile (ctx.types.className node)} + 0 +
      ((if definition.body.any (·.kind.isInitializer) then
          {.method (ctx.types.className node) "<clinit>" "()V" true} else 0) +
        if !definition.isInterface && !definition.hasConstructor then
          {.method (ctx.types.className node) "<init>" "()V" false} else 0) := by
    simp only [Occurrence.own, hkind]
    cases definition.body.any (·.kind.isInitializer) <;>
      cases !definition.isInterface && !definition.hasConstructor <;> rfl
  have hplanned := Occurrence.plan_eq ctx.types ⟨place, node⟩
  rw [howns, add_assoc] at hplanned
  simp only [Occurrence.parts, hkind, List.map_map] at hplanned
  refine gains_nodeType_bind fun t ht => .step (.ofExcept _)
    fun interfaces => ?_
  extract_lets access finish
  have hname : t.internalName = ctx.types.className node := by
    rw [TypeMap.className, ht]
    rfl
  have hinterface : Access.has access Access.interfaceFlag = definition.isInterface := by
    simp only [access]
    cases definition.isInterface <;> decide
  have hfinish : ∀ superclass, Gains ctx K site (ctx.planned place node) (finish superclass) := by
    intro superclass
    refine .congr (.step (.note ..) fun _ =>
      .inClass ?_ ?_ rfl (gains_emitClassBody hrecur node hmembers rfl)) hplanned
    · exact hname
    · exact hinterface
  exact .ite (.after (.pure _) hfinish) (.step (.ofExcept _) hfinish)

/-! ## Closures -/

omit hrecur in
/-- The class of a closure has a constructor from the start, or gets one at the
end. -/
theorem closureShell_eq_ok {t : Ty} {interfaces : List String} {carried : Option Ty}
    {shell : ClassFile} (h : ctx.closureShell t interfaces carried = .ok shell) :
    shell.name = t.internalName ∧ shell.isInterface = false ∧
      K.rel {.maker t.internalName} (shell.entries +
        if carried.isNone then {.method t.internalName "<init>" "()V" false} else 0) := by
  have hplain : Access.has (Access.publicFlag ||| Access.superFlag) Access.interfaceFlag = false :=
    by decide
  cases carried with
  | none =>
    cases h
    exact ⟨rfl, hplain, K.made _ _⟩
  | some binding =>
    cases hmethod : closureConstructor t binding with
    | error fault =>
      simp only [closureShell, hmethod] at h
      cases h
    | ok method =>
      simp only [closureShell, hmethod] at h
      cases h
      refine ⟨rfl, hplain, ?_⟩
      have hentries : ∀ c : ClassFile, c.methods = [] → c.name = t.internalName →
          (c.addMethod method).entries =
            {.method t.internalName "<init>" (methodDescriptor [binding] .void) false} := by
        intro c hmethods hname
        rw [ClassFile.entries_addMethod, ClassFile.entries, hmethods, hname,
          entry_of_closureConstructor hmethod, List.map_nil, Multiset.coe_nil, zero_add]
      rw [hentries _ rfl rfl]
      exact K.made _ _

theorem gains_emitClosureBody {definition : ClosureDef} {carried : Option Ty}
    (hmethods : ∀ method ∈ definition.methods, K.Fair ctx site method)
    (hstatic : site.isStatic = false) : Gains ctx K site (ctx.plannedAll site definition.methods +
        if carried.isNone then {.method site.owner "<init>" "()V" false} else 0)
      (ctx.emitClosureBody recur definition carried) := by
  refine .bind (.forM fun method hmethod => ?_) fun _ => ?_
  · split
    · rename_i inner hkind
      have hgains := gains_emitMethodDef hrecur hkind rfl rfl (hmethods method hmethod)
      rwa [hstatic] at hgains
    · exact .throw _
  · split
    · exact gains_emitDefaultConstructor hrecur
    · exact .pure _

theorem gains_emitClosureDef {definition : ClosureDef} (hkind : node.kind = .closureDef definition)
    (hnode : K.Fair ctx site node) (want : Bool) :
    Gains ctx K site (ctx.planned site node) (ctx.emitClosureDef recur node definition want) := by
  obtain ⟨hmethods, hplanned⟩ := fair_and_planned hnode (by
    simp only [Occurrence.parts, hkind]
    rfl)
  have howns : (Occurrence.own ctx.types ⟨site, node⟩ : Multiset Entry) =
      {.classFile (ctx.types.className node)} + {.maker (ctx.types.className node)} := by
    simp only [Occurrence.own, hkind]
    rfl
  refine gains_nodeType_bind fun t ht => .step .frame fun current =>
    .step (.ofExcept _) fun interfaces =>
    .step (.note ..) fun _ => .ofExcept_bind fun shell hshell => ?_
  have hname : t.internalName = ctx.types.className node := by
    rw [TypeMap.className, ht]
    rfl
  obtain ⟨hown, hinterface, hmaker⟩ := closureShell_eq_ok hshell (K := K)
  rw [hname] at hown hmaker
  have hclass : Gains ctx K site (ctx.planned site node) (do
      Emit.addClass (← Emit.inClass shell t (.fromReceiver current.binding)
        (ctx.emitClosureBody recur definition current.binding))) := by
    refine .weaken (.inClass hown hinterface rfl (gains_emitClosureBody hrecur hmethods rfl)) ?_
    have hmore := K.add_left ({.classFile (ctx.types.className node)} +
      ctx.plannedAll (ctx.types.classSite node false) definition.methods) hmaker
    rw [hplanned, howns]
    convert hmore using 1
    · abel
    · simp only [TypeMap.classSite]
      abel
  have hrest : Gains ctx K site 0 (do
      Emit.modifyClass (·.addInnerClass t.internalName)
      if want then instantiateClosure t current.binding) := by
    refine .step (.addInnerClass _) fun _ => .ite ?_ (.pure _)
    refine .step .frame fun later =>
      .step (.code _) fun _ => ?_
    split
    · exact .steps (.code _)
    · exact .throw _
    · exact .steps (.instruction _)
  have h := hclass.before fun _ => hrest
  simp only [bind_assoc] at h
  exact h

/-! ## Nodes -/

omit hrecur in
theorem callFair_of_call {target : Node} {name : String} {args : List Node}
    (hnode : K.Fair ctx site node) (hkind : node.kind = .call target name args) :
    CallSite.Fair K ctx site name ⟨target, args, node⟩ := by
  have hsound := hnode.self
  simp only [Tally.Sound, hkind] at hsound
  refine ⟨fun part hpart => hnode.of_mem_children (by rw [hkind]; rfl) ?_, fun hname => ?_,
    fun hname => Tally.sum_zero (hsound.2 hname)⟩
  · rw [Node.children, hkind]
    exact hpart
  · simp only [Option.toList_some, plannedAll_cons, plannedAll_nil, add_zero]
    exact hsound.1 hname

omit hrecur in
theorem callFair_of_selfCall {name : String} {args : List Node} (hnode : K.Fair ctx site node)
    (hkind : node.kind = .selfCall name args) :
    CallSite.Fair K ctx site name ⟨none, args, node⟩ := by
  have hsound := hnode.self
  simp only [Tally.Sound, hkind] at hsound
  refine ⟨fun part hpart => hnode.of_mem_children (by rw [hkind]; rfl) ?_, fun _ => K.refl 0,
    fun hname => Tally.sum_zero (hsound hname)⟩
  rw [Node.children, hkind]
  exact hpart

theorem gains_branchOn (hnode : K.Fair ctx site node) (target : Label) (when : Bool) :
    Gains ctx K site (ctx.planned site node) (ctx.branchOn recur node target when) := by
  have hjumpOn : Gains ctx K site 0 (jumpOnValue target when) := .steps (.instruction _)
  have hcall : ∀ {name : String} {call : CallSite}, call.Fair K ctx site name → ∀ m,
      ctx.members.Serves name call.args.length m → Gains ctx K site
        (ctx.plannedAll site call.parts) (ctx.jumpOnCall recur m call target when) :=
    fun hcall _ hm => .ite (gains_jumpOnMember hrecur hcall hm ..)
      (.before (gains_callMember hrecur hcall hm _) fun _ => hjumpOn)
  refine .step (.nodeType _) fun _ => ?_
  extract_lets jump
  have hjump : Gains ctx K site (ctx.planned site node) (jump ()) := by
    refine .after (gains_markLine node) fun _ => ?_
    have hplanned := @planned_of_isPlain ctx site node
    unfold Node.children at hplanned
    split
    · rename_i value hkind
      rw [hkind] at hplanned
      rw [hplanned rfl]
      exact .ite (.steps (.goto _)) (.pure _)
    · rename_i receiver name args hkind
      rw [hkind] at hplanned
      rw [hplanned rfl]
      exact gains_withMember fun m hm => hcall (callFair_of_call hnode hkind) m hm
    · rename_i name args hkind
      rw [hkind] at hplanned
      rw [hplanned rfl]
      exact gains_withMember fun m hm => hcall (callFair_of_selfCall hnode hkind) m hm
    · exact .before (hrecur.emit _ hnode) fun _ => hjumpOn
  exact .ite (.after (.throw _) fun _ => hjump) hjump

omit hrecur in
theorem gains_only {kind : NodeKind} {x : Emit α} (hnode : K.Fair ctx site node)
    (hkind : node.kind = kind) (hplain : kind.isPlain = true)
    (hchildren : Node.children { node with kind } = [value])
    (h : K.Fair ctx site value → Gains ctx K site (ctx.planned site value) x) :
    Gains ctx K site (ctx.planned site node) x := by
  refine gains_plain hnode hkind hplain fun hparts => ?_
  rw [hchildren, plannedAll_cons, plannedAll_nil, add_zero]
  exact h (hparts value (by rw [hchildren]; exact List.mem_singleton_self value))

theorem gains_emitNode (hnode : K.Fair ctx site node) (want : Bool) :
    Gains ctx K site (ctx.planned site node) (ctx.emitNode recur node want) := by
  have hpush : ∀ i, Gains ctx K site 0 (Emit.push want i) := fun _ => .steps (.push ..)
  refine .after (.after (gains_marking _) fun _ => gains_markLine node) fun _ => ?_
  cases hkind : node.kind with
  | methodDef definition =>
    exact .get_bind fun σ hσ => by
      rw [hσ.isStatic]
      exact .before (gains_emitMethodDef hrecur hkind rfl rfl hnode) fun _ => hpush _
  | constructorDef definition =>
    exact .before (gains_emitConstructorDef hrecur hkind rfl rfl hnode) fun _ => hpush _
  | classDef definition => exact .before (gains_emitClassDef hrecur hkind hnode) fun _ => hpush _
  | closureDef definition => exact gains_emitClosureDef hrecur hkind hnode want
  | script => exact .throw _
  | loop parts => exact gains_emitLoop hrecur hnode hkind want
  | rescue main clauses elseClause => exact gains_emitRescue hrecur hnode hkind want
  | ensure main clause => exact gains_emitEnsure hrecur hnode hkind want
  | fixnum | float =>
    exact gains_plain hnode hkind rfl fun _ =>
      .steps (.ite (.bind (.nodeType _) fun _ => .instruction _) (.pure _))
  | char | text | boolean | null => exact gains_plain hnode hkind rfl fun _ => hpush _
  | regex => exact gains_plain hnode hkind rfl fun _ => .steps (.ite (.code _) (.pure _))
  | selfRef => exact gains_plain hnode hkind rfl fun _ => .steps (.ite related_pushSelf (.pure _))
  | typeRef =>
    exact gains_plain hnode hkind rfl fun _ =>
      .steps (.ite (.bind (.nodeType _) fun _ => .code _) (.pure _))
  | bindingRef =>
    exact gains_plain hnode hkind rfl fun _ =>
      .steps (.ite (.bind related_pushBinding fun _ => .pure _) (.pure _))
  | «break» | next | redo =>
    exact gains_plain hnode hkind rfl fun _ => gains_emitLoopJump hrecur node _
  | localDecl | localAccess =>
    exact gains_plain hnode hkind rfl fun _ => gains_emitLocalAccess node _ want
  | fieldDecl => exact gains_plain hnode hkind rfl fun _ => .pure _
  | fieldAccess => exact gains_plain hnode hkind rfl fun _ => .steps (related_emitFieldAccess ..)
  | body nodes =>
    exact gains_plain hnode hkind rfl fun hparts => gains_emitBody hrecur want hparts
  | print newline args =>
    exact gains_plain hnode hkind rfl fun hparts => gains_emitPrint hrecur newline hparts want
  | concat parts =>
    exact gains_plain hnode hkind rfl fun hparts => gains_emitConcat hrecur hparts want
  | array elements =>
    exact gains_plain hnode hkind rfl fun hparts => gains_emitList hrecur hparts want
  | superCall name args =>
    exact gains_plain hnode hkind rfl fun hparts =>
      gains_emitSuperCall hrecur node name hparts want
  | call target name args =>
    exact gains_plain hnode hkind rfl fun _ => gains_withMember fun m hm =>
      gains_callMember hrecur (callFair_of_call hnode hkind) hm want
  | selfCall name args =>
    exact gains_plain hnode hkind rfl fun _ => gains_withMember fun m hm =>
      gains_callMember hrecur (callFair_of_selfCall hnode hkind) hm want
  | raise value =>
    exact gains_only hnode hkind rfl rfl fun hvalue => gains_emitRaise hrecur hvalue
  | cast value =>
    exact gains_only hnode hkind rfl rfl fun hvalue => gains_emitCast hrecur node hvalue want
  | eval value =>
    exact gains_only hnode hkind rfl rfl fun hvalue => gains_emitText hrecur hvalue want
  | emptyArray size =>
    exact gains_only hnode hkind rfl rfl fun hsize => gains_emitNewArray hrecur node hsize want
  | localAssign name value =>
    exact gains_only hnode hkind rfl rfl fun hvalue =>
      gains_emitLocalAssign hrecur node name hvalue want
  | fieldAssign name value isStatic notes =>
    exact gains_only hnode hkind rfl rfl fun hvalue =>
      gains_emitFieldAssign hrecur name hvalue isStatic notes want
  | «return» value =>
    exact gains_plain hnode hkind rfl fun hparts => gains_emitReturn hrecur node fun part hpart =>
      hparts part (Option.mem_toList.2 hpart)
  | ifElse condition main elseBody =>
    refine gains_plain hnode hkind rfl fun hparts => ?_
    obtain ⟨hcondition, harms⟩ := List.forall_mem_cons.1 hparts
    obtain ⟨hmain, helse⟩ := List.forall_mem_append.1 harms
    refine (gains_emitIf hrecur node hcondition
      (fun part hpart => hmain part (Option.mem_toList.2 hpart))
      (fun part hpart => helse part (Option.mem_toList.2 hpart)) want).congr ?_
    simp only [Node.children, List.cons_append, plannedAll_cons, plannedAll_append]

omit hrecur in
theorem counts_recursion (hlisted : ∀ m ∈ ctx.members.members, m.isOfClass = true) (depth : Nat) :
    (ctx.recursion depth).Counts ctx K := by
  induction depth with
  | zero => exact ⟨⟨0, rfl⟩, hlisted, fun _ _ => .throw _, fun _ _ _ => .throw _⟩
  | succ depth ih =>
    exact ⟨⟨depth + 1, rfl⟩, hlisted, fun want hnode => gains_emitNode ih hnode want,
      fun target when hnode => gains_branchOn ih hnode target when⟩

/-! ## The script -/

/-- A script makes what is planned for it: first what its definitions make, then
the method for the other statements and the constructor. -/
theorem gains_emitScript {owner : String} {script : Node} {statements : List Node}
    (howner : owner = site.owner) (hinterface : false = site.isInterface)
    (hkind : script.kind = .script statements) (hscript : K.Fair ctx (Site.ofScript owner) script) :
    Gains ctx K site (ctx.planned (Site.ofScript owner) script)
      (ctx.emitScript recur script statements) := by
  have hchildren : script.children = statements := by rw [Node.children, hkind]
  obtain ⟨hstatements, hplanned⟩ := fair_and_planned hscript (by
    simp only [Occurrence.parts, hkind, hchildren]
    rfl)
  have howns : (Occurrence.own ctx.types ⟨Site.ofScript owner, script⟩ : Multiset Entry) =
      {.method owner "main" "([Ljava/lang/String;)V" true} +
        {.method owner "<init>" "()V" false} := by
    simp only [Occurrence.own, hkind]
    rfl
  have hdefinitions : Gains ctx K site (statements.map fun statement =>
        if statement.kind.isStatement then 0 else ctx.planned (Site.ofScript owner) statement).sum
      (statements.forM fun statement =>
        match statement.kind with
        | .methodDef definition => ctx.emitMethodDef recur statement definition true
        | .constructorDef definition => ctx.emitConstructorDef recur statement definition
        | .classDef definition => ctx.emitClassDef recur statement definition
        | _ => pure ()) := by
    refine .forM fun statement hstatement => ?_
    have hfair := hstatements statement hstatement
    cases hcase : statement.kind with
    | methodDef definition => exact gains_emitMethodDef hrecur hcase howner hinterface hfair
    | constructorDef definition =>
      exact gains_emitConstructorDef hrecur hcase howner hinterface hfair
    | classDef definition => exact gains_emitClassDef hrecur hcase hfair
    | _ => exact .pure _
  let spec : MethodSpec := {
    name := "main"
    access := Access.publicFlag ||| Access.staticFlag
    params := [("argv", .array .text)]
    returnType := .void
    scope := ctx.scopes.scopeFor? script.id
    body := .statements (statements.filter (·.kind.isStatement)) }
  have hflags : spec.isStatic = true ∧ Access.has spec.access Access.abstractFlag = false := by
    simp only [spec, MethodSpec.isStatic]
    decide
  have hmain : Gains ctx K site ({.method site.owner spec.name spec.descriptor spec.isStatic} +
      ctx.plannedAll (Site.ofScript owner) spec.parts) (ctx.emitMethod recur spec) :=
    gains_emitMethod_of_parts hrecur spec ⟨howner, hinterface, hflags.1.symm⟩
      (fun statement hstatement => hstatements statement (List.mem_filter.1 hstatement).1)
      (.inl hflags.2)
  refine (hdefinitions.bind fun _ => hmain.bind fun _ =>
    gains_emitDefaultConstructor hrecur).congr ?_
  have hdescriptor : spec.descriptor = "([Ljava/lang/String;)V" := rfl
  have hparts : spec.parts = statements.filter (·.kind.isStatement) := rfl
  rw [hplanned, howns, plannedAll, sum_map_split (·.kind.isStatement), hflags.1,
    hdescriptor, hparts,
    plannedAll, howner]
  abel

end Context

end ClassBackend
