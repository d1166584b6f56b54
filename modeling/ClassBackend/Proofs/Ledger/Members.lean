import Mathlib.Data.List.TakeWhile
import ClassBackend.Proofs.Ledger.Unit

/-!
# Registered members are emitted

The members of a script are registered before its code is emitted, by a walk of
their own. Where the two go through the same definitions and agree on what is
static, every registered method and constructor is in the class file of its
owner (`Program.registered_emitted`).
-/

namespace ClassBackend

variable {isStatic : Bool}

/-! ## Nothing planned is missing -/

namespace Entry

/-- A static method that is named like a constructor. The class of such a method
may be left without a constructor. -/
def isStaticInit : Entry → Bool
  | .method _ name _ isStatic => isStatic && name == "<init>"
  | _ => false

/-- Methods that are planned are found, unless some are mistaken for
constructors. -/
def Kept (planned found : Multiset Entry) : Prop :=
  (∀ entry ∈ planned, entry.isStaticInit = false) →
    (∀ entry ∈ found, entry.isStaticInit = false) ∧
      ∀ owner name descriptor isStatic,
        .method owner name descriptor isStatic ∈ planned →
          .method owner name descriptor isStatic ∈ found

namespace Kept

variable {planned found final : Multiset Entry}

theorem refl (entries : Multiset Entry) : Kept entries entries :=
  fun h => ⟨h, fun _ _ _ _ hmem => hmem⟩

theorem trans (h : Kept planned found) (k : Kept found final) : Kept planned final := by
  intro hplanned
  obtain ⟨hfound, hkept⟩ := h hplanned
  obtain ⟨hfinal, hstill⟩ := k hfound
  exact ⟨hfinal, fun _ _ _ _ hmem => hstill _ _ _ _ (hkept _ _ _ _ hmem)⟩

theorem add (more : Multiset Entry) (h : Kept planned found) :
    Kept (planned + more) (found + more) := by
  intro hplanned
  simp only [Multiset.mem_add] at hplanned ⊢
  obtain ⟨hfound, hkept⟩ := h fun entry hentry => hplanned entry (.inl hentry)
  refine ⟨?_, fun _ _ _ _ => Or.imp_left (hkept _ _ _ _)⟩
  rintro entry (hentry | hentry)
  · exact hfound entry hentry
  · exact hplanned entry (.inr hentry)

theorem known {owner : String} (h : .method owner "<init>" "()V" isStatic ∈ found) :
    Kept (found + {.method owner "<init>" "()V" false}) found := by
  intro hplanned
  simp only [Multiset.mem_add, Multiset.mem_singleton] at hplanned ⊢
  have hstatic : isStatic = false := by simpa [isStaticInit] using hplanned _ (.inl h)
  refine ⟨fun entry hentry => hplanned entry (.inl hentry), ?_⟩
  rintro _ _ _ _ (hmem | heq)
  · exact hmem
  · rw [heq, ← hstatic]
    exact h

theorem made (owner descriptor : String) :
    Kept {.maker owner} {.method owner "<init>" descriptor false} := by
  intro _
  refine ⟨fun entry hentry => ?_, fun _ _ _ _ hmem => ?_⟩
  · rw [Multiset.mem_singleton.1 hentry]
    rfl
  · cases Multiset.mem_singleton.1 hmem

end Kept

end Entry

def Tally.kept : Tally where
  rel := Entry.Kept
  refl := .refl
  trans := .trans
  add := .add
  known := .known
  made := .made

theorem mem_sum_map {β : Type} {bs : List β} {made : β → Multiset Entry} {entry : Entry} :
    entry ∈ (bs.map made).sum ↔ ∃ b ∈ bs, entry ∈ made b := by
  induction bs with
  | nil => simp
  | cons b bs ih => simp [ih]

theorem mem_classEntries_method {classes : List ClassFile} {owner name descriptor : String}
    (h : .method owner name descriptor isStatic ∈ classEntries classes) :
    ∃ c ∈ classes, c.name = owner ∧ ∃ method ∈ c.methods,
      method.name = name ∧ method.descriptor = descriptor ∧ method.isStatic = isStatic := by
  obtain ⟨c, hc, hmem⟩ := mem_sum_map.1 h
  rcases Multiset.mem_cons.1 hmem with heq | hmem
  · cases heq
  · obtain ⟨method, hmethod, heq⟩ := ClassFile.mem_entries.1 hmem
    cases heq
    exact ⟨c, hc, rfl, method, hmethod, rfl, rfl, rfl⟩

namespace Occurrence

variable {o : Occurrence}

variable {types : TypeMap} {members : MemberTable}

theorem mem_plan {entry : Entry} :
    entry ∈ o.plan types ↔
      entry ∈ o.own types ∨ ∃ part ∈ o.parts types, entry ∈ part.plan types := by
  rw [plan_eq, Multiset.mem_add, Multiset.mem_coe, mem_sum_map]

theorem Everywhere.of_reflTransGen {P : Occurrence → Prop} {other : Occurrence}
    (h : o.Everywhere types P)
    (hother : Relation.ReflTransGen (fun a b => b ∈ a.parts types) o other) :
    other.Everywhere types P := fun part hpart => h part (hother.trans hpart)

/-- Registration and emission agree on a node: on what is static, on which
overloads an interface has, and on whether definitions in the node count. -/
def Agrees (types : TypeMap) (members : MemberTable) (o : Occurrence) : Prop :=
  match o.node.kind with
  | .methodDef definition =>
    -- what is defined in a static method is registered as an instance method
    (definition.isStatic = true ∨ o.site.isStatic = o.site.declaresStatic) ∧
    (definition.name = "<init>" → (definition.isStatic || o.site.isStatic) = false) ∧
    -- an interface has no methods that fill in default values
    (o.site.isInterface = true → Argument.defaults definition.args = [])
  -- the clauses of a body without instructions are not emitted
  | .rescue main clauses _ => main.leavesCode members = true ∨
    ∀ clause ∈ clauses, plan types ⟨o.site, clause.body⟩ = 0
  -- nor are the receiver of `class` and the class of a test
  | .call target name args => (name = "class" → plan types ⟨o.site, target⟩ = 0) ∧
    (name = "kind_of?" → ∀ arg ∈ args, plan types ⟨o.site, arg⟩ = 0)
  | .selfCall name args => name = "kind_of?" → ∀ arg ∈ args, plan types ⟨o.site, arg⟩ = 0
  | _ => True

instance (o : Occurrence) : Decidable (o.Agrees types members) := by
  unfold Agrees
  split <;> infer_instance

theorem Agrees.isStaticInit_own (h : o.Agrees types members) :
    ∀ entry ∈ o.own types, entry.isStaticInit = false := by
  intro entry hentry
  cases hkind : o.node.kind with
  | methodDef definition =>
    simp only [own, hkind, List.mem_map] at hentry
    obtain ⟨params, -, rfl⟩ := hentry
    simp only [Agrees, hkind] at h
    by_cases hname : definition.name = "<init>"
    · simp [Entry.isStaticInit, h.2.1 hname]
    · simp [Entry.isStaticInit, hname]
  | constructorDef definition =>
    simp only [own, hkind, List.mem_map] at hentry
    obtain ⟨params, -, rfl⟩ := hentry
    rfl
  | classDef definition =>
    simp only [own, hkind, List.mem_cons, List.mem_append] at hentry
    rcases hentry with (rfl | hentry) | hentry
    · rfl
    all_goals
      split at hentry
      · obtain rfl := List.mem_singleton.1 hentry
        rfl
      · cases hentry
  | closureDef | script =>
    simp only [own, hkind, List.mem_cons, List.not_mem_nil, or_false] at hentry
    rcases hentry with rfl | rfl <;> rfl
  | _ => simp [own, hkind] at hentry

theorem isStaticInit_plan (h : o.Everywhere types (·.Agrees types members)) :
    ∀ entry ∈ o.plan types, entry.isStaticInit = false := by
  induction hsize : o.node.size using Nat.strong_induction_on generalizing o with
  | _ size ih =>
    intro entry hentry
    rcases mem_plan.1 hentry with hentry | ⟨part, hpart, hentry⟩
    · exact h.self.isStaticInit_own entry hentry
    · exact ih _ (hsize ▸ size_lt_of_mem_parts types hpart) (h.part hpart) rfl entry hentry

theorem kept_zero (h : o.Everywhere types (·.Agrees types members)) :
    Tally.kept.rel 0 (o.plan types) :=
  fun _ => ⟨isStaticInit_plan h, fun _ _ _ _ hmem => absurd hmem (Multiset.notMem_zero _)⟩

theorem sound_of_agrees (h : o.Everywhere types (·.Agrees types members)) :
    o.Everywhere types (Tally.kept.Sound types members) := by
  intro part hpart
  have heverywhere := h.of_reflTransGen hpart
  have hagrees := heverywhere.self
  have hpass : ∀ other : Occurrence, other.plan types = 0 →
      Tally.kept.rel (other.plan types) 0 := fun other hnone => hnone ▸ .refl 0
  have hchild : part.node.kind.isPlain = true → ∀ node ∈ part.node.children,
      Tally.kept.rel 0 (plan types ⟨part.site, node⟩) := fun hplain node hnode =>
    kept_zero (heverywhere.part (by
      rw [parts_of_isPlain types hplain]
      exact List.mem_map_of_mem hnode))
  cases hkind : part.node.kind with
  | ensure main clause =>
    rw [Tally.Sound, hkind]
    exact hchild (by rw [hkind]; rfl) clause (by simp [Node.children, hkind])
  | loop parts =>
    rw [Tally.Sound, hkind]
    exact fun _ _ => hchild (by rw [hkind]; rfl) parts.condition (by simp [Node.children, hkind])
  | rescue main clauses elseClause =>
    simp only [Tally.Sound, Agrees, hkind] at hagrees ⊢
    exact hagrees.imp_right fun hnone clause hclause => hpass _ (hnone clause hclause)
  | call target name args =>
    simp only [Tally.Sound, Agrees, hkind] at hagrees ⊢
    exact ⟨fun hname => hpass _ (hagrees.1 hname),
      fun hname arg harg => hpass _ (hagrees.2 hname arg harg)⟩
  | selfCall name args =>
    simp only [Tally.Sound, Agrees, hkind] at hagrees ⊢
    exact fun hname arg harg => hpass _ (hagrees hname arg harg)
  | _ =>
    rw [Tally.Sound, hkind]
    trivial

end Occurrence

/-! ## What is registered is planned -/

/-- What a registered member comes to in a class file. -/
def Member.entry (m : Member) : Entry :=
  .method m.declaringType.internalName m.name m.descriptor (m.isStatic && !m.isConstructor)

theorem Argument.required_of_defaults {args : List Argument} (h : defaults args = []) :
    required args = args.length := by
  rw [required, List.takeWhile_eq_self_iff.2 fun arg harg => ?_]
  exact Option.isNone_iff_eq_none.2 (List.filterMap_eq_nil_iff.1 h arg harg)

/-- Every number of arguments for which a method is registered has its method,
also in an interface if no argument is optional. -/
theorem TypeMap.mem_emittedArities {types : TypeMap} {isInterface : Bool} {args : List Argument}
    {arities : List (List Ty)} {params : List Ty} (h : types.arities args = .ok arities)
    (hparams : params ∈ arities) (hdefaults : isInterface = true → Argument.defaults args = []) :
    params ∈ types.emittedArities isInterface args := by
  rw [TypeMap.arities] at h
  cases htyped : types.paramsOf args with
  | error fault => simp [htyped, bind, Except.bind] at h
  | ok typed =>
    rw [htyped] at h
    cases h
    obtain ⟨extra, hextra, rfl⟩ := List.mem_map.1 hparams
    simp only [emittedArities, htyped]
    cases isInterface with
    | false => exact hparams
    | true =>
      have hall := Argument.required_of_defaults (hdefaults rfl)
      rw [hall, if_pos rfl, List.mem_singleton, List.take_of_length_le]
      rw [List.length_map, length_of_mapM htyped]
      exact Nat.le_add_right _ _

/-- The parts of a node are emitted where they are registered. -/
theorem TypeMap.exists_mem_parts {types : TypeMap} {members : MemberTable} {owner t : Ty}
    {flag : Bool} {node part : Node} {site : Site}
    (hsite : types.partSite owner isStatic node = .ok (t, flag)) (hpart : part ∈ node.children)
    (howner : owner.internalName = site.owner) (hstatic : isStatic = site.declaresStatic)
    (hagrees : Occurrence.Agrees types members ⟨site, node⟩) :
    ∃ inner : Site, ⟨inner, part⟩ ∈ Occurrence.parts types ⟨site, node⟩ ∧
      t.internalName = inner.owner ∧ flag = inner.declaresStatic := by
  have hname : types.typeOf node = .ok t → t.internalName = types.className node := by
    intro ht
    rw [className, find?_of_typeOf ht]
    rfl
  obtain ⟨id, span, kind⟩ := node
  cases kind with
  | methodDef definition =>
    cases hsite
    refine ⟨site.inMethod (definition.isStatic || site.isStatic),
      List.mem_map_of_mem ?_, howner, rfl⟩
    split
    · rename_i hinterface
      simpa [Node.children, hagrees.2.2 hinterface] using hpart
    · exact hpart
  | constructorDef definition =>
    cases hsite
    exact ⟨site.inMethod false, List.mem_map_of_mem hpart, howner, rfl⟩
  | classDef definition =>
    obtain ⟨found, ht, hsite⟩ := ScopeTable.WalkM.orFault_bind_eq_ok.1 hsite
    cases hsite
    exact ⟨_, List.mem_map_of_mem hpart, hname ht, rfl⟩
  | closureDef definition =>
    obtain ⟨found, ht, hsite⟩ := ScopeTable.WalkM.orFault_bind_eq_ok.1 hsite
    cases hsite
    exact ⟨types.classSite _ false, List.mem_map_of_mem hpart, hname ht, rfl⟩
  | _ =>
    cases hsite
    exact ⟨site, List.mem_map_of_mem hpart, howner, hstatic⟩

theorem TypeMap.Registers.mem_plan {types : TypeMap} {members : MemberTable} {owner : Ty}
    {node : Node} {m : Member} (h : types.Registers owner isStatic node m) {site : Site}
    (howner : owner.internalName = site.owner) (hstatic : isStatic = site.declaresStatic)
    (hagrees : Occurrence.Everywhere types (·.Agrees types members) ⟨site, node⟩) :
    m.entry ∈ Occurrence.plan types ⟨site, node⟩ := by
  induction h generalizing site with
  | @method owner isStatic node definition result arities params hkind hresult harities hparams =>
    have hself := hagrees.self
    simp only [Occurrence.Agrees, hkind] at hself
    have hsame : (definition.isStatic || site.isStatic) = (definition.isStatic || isStatic) := by
      rcases hself.1 with hdeclared | hsite
      · rw [hdeclared, Bool.true_or, Bool.true_or]
      · rw [hstatic, hsite]
    refine Occurrence.mem_plan.2 (.inl ?_)
    simp only [Occurrence.own, hkind, List.mem_map]
    refine ⟨params, mem_emittedArities harities hparams hself.2.2, ?_⟩
    rw [find?_of_typeOf hresult, hsame, ← howner]
    cases (definition.isStatic || isStatic) <;> rfl
  | @constructor owner isStatic node definition arities params hkind harities hparams =>
    refine Occurrence.mem_plan.2 (.inl ?_)
    simp only [Occurrence.own, hkind, List.mem_map]
    exact ⟨params, mem_emittedArities harities hparams (fun h => by cases h), by rw [← howner]; rfl⟩
  | @default owner isStatic node definition t hkind ht hinterface hnone =>
    refine Occurrence.mem_plan.2 (.inl ?_)
    have hname : types.className node = t.internalName := by
      rw [className, find?_of_typeOf ht]
      rfl
    simp only [Occurrence.own, hkind, hinterface, hnone, hname]
    exact List.mem_append_right _ List.mem_cons_self
  | part hsite hpart h ih =>
    obtain ⟨inner, hmem, howner, hstatic⟩ :=
      exists_mem_parts hsite hpart howner hstatic hagrees.self
    exact Occurrence.mem_plan.2 (.inr ⟨_, hmem, ih howner hstatic (hagrees.part hmem)⟩)

namespace Program

variable {program : Program} {compiled : CompiledUnit}

/-- Every registered member is planned, the constructor of the script's class
too. -/
theorem mem_plan_of_registered {statements : List Node} {members : List Member} {m : Member}
    (hscript : program.script.kind = .script statements) (h : program.registered = .ok members)
    (hm : m ∈ members)
    (hagrees : program.root.Everywhere program.types (·.Agrees program.types program.members)) :
    m.entry ∈ program.plan := by
  obtain ⟨registry, mainType, declared, hmain, hdeclared, rfl⟩ := registered_eq_ok h
  have howner := internalName_of_defineMain hmain
  rcases List.mem_append.1 hm with hm | hm
  · exact (TypeMap.registers_of_membersOf hdeclared hm).mem_plan howner rfl hagrees
  · obtain rfl := List.mem_singleton.1 hm
    refine Occurrence.mem_plan.2 (.inl ?_)
    have hentry : (Member.constructor mainType []).entry =
        .method (Naming.scriptClass program.file) "<init>" "()V" false := by
      rw [← howner]
      rfl
    simp only [Occurrence.own, root, hscript, hentry]
    exact List.mem_cons_of_mem _ List.mem_cons_self

/-- Every method, constructor and overload that a script registers is in the
class file of its owner if registration and emission agree on all of its nodes. -/
theorem registered_emitted (h : program.compile.1 = .ok compiled)
    (hlisted : ∀ m ∈ program.members.members, m.isOfClass = true)
    (hagrees : program.root.Everywhere program.types (·.Agrees program.types program.members)) :
    ∃ members, program.registered = .ok members ∧
      ∀ m ∈ members, ∃ c ∈ compiled.classes, c.name = m.declaringType.internalName ∧
        ∃ method ∈ c.methods, method.name = m.name ∧ method.descriptor = m.descriptor ∧
          method.isStatic = (m.isStatic && !m.isConstructor) := by
  obtain ⟨trace⟩ := exists_trace h
  obtain ⟨_, emitted, made, -, hclasses, hkept, -, -⟩ :=
    made_of_compile (K := .kept) hlisted (Occurrence.sound_of_agrees hagrees) h
  refine ⟨trace.members, trace.registered, fun m hm => ?_⟩
  have hplanned := mem_plan_of_registered trace.isScript trace.registered hm hagrees
  have hproper : ∀ entry ∈ {.classFile (Naming.scriptClass program.file)} + program.plan,
      entry.isStaticInit = false := by
    intro entry hentry
    rcases Multiset.mem_add.1 hentry with hentry | hentry
    · rw [Multiset.mem_singleton.1 hentry]
      rfl
    · exact Occurrence.isStaticInit_plan hagrees entry hentry
  obtain ⟨c, hc, hfound⟩ := mem_classEntries_method
    ((hkept hproper).2 _ _ _ _ (Multiset.mem_add.2 (.inr hplanned)))
  exact ⟨c, hclasses ▸ List.mem_append_left _ hc, hfound⟩

end Program

/-- A script that prints what its method `g` returns. The method takes an
optional argument and is defined in the clause of a rescue, whose body prints
something or is empty. -/
def rescueDemo (prints : Bool) : Program := .ofBuild do
  let text ← Build.node (.text "body") none none
  let body ← Build.node (if prints then .print true [text] else .body []) none none
  let one ← Build.node (.fixnum 1) (some Ty.int) none
  let a ← Build.argument "a" Ty.int (some one)
  let five ← Build.node (.fixnum 5) (some Ty.int) none
  let g ← Build.node (.methodDef {
    name := "g", args := [a], body := some five, isStatic := false, throws := [], notes := [] })
    (some Ty.int) none
  let clause ← Build.rescueClause none [] g
  let rescue ← Build.node (.rescue body [clause] none) none none
  let call ← Build.node (.selfCall "g" []) (some Ty.int) none
  let print ← Build.node (.print true [call]) none none
  Build.node (.script [rescue, print]) none none

theorem rescueDemo_emits : ∃ compiled members, (rescueDemo true).compile.1 = .ok compiled ∧
    (rescueDemo true).registered = .ok members ∧
    members.map (fun m => (m.name, m.descriptor)) =
      [("g", "()I"), ("g", "(I)I"), ("<init>", "()V")] ∧
    ∀ m ∈ members, ∃ c ∈ compiled.classes, c.name = m.declaringType.internalName ∧
      ∃ method ∈ c.methods, method.name = m.name ∧ method.descriptor = m.descriptor ∧
        method.isStatic = (m.isStatic && !m.isConstructor) := by
  obtain ⟨compiled, hcompile, -⟩ := exists_ok_of_any (x := (rescueDemo true).compile.1)
    (p := fun _ => true) (by decide +kernel)
  obtain ⟨known, hknown, heval⟩ := exists_ok_of_any (x := (rescueDemo true).registered)
    (p := fun members => members.map (fun m => (m.name, m.descriptor)) ==
      [("g", "()I"), ("g", "(I)I"), ("<init>", "()V")]) (by decide +kernel)
  have hagrees : (rescueDemo true).root.Everywhere (rescueDemo true).types
      (·.Agrees (rescueDemo true).types (rescueDemo true).members) :=
    (Occurrence.everywhere_of_passesTo (n := 6) (by decide +kernel)).imp
      fun _ h => of_decide_eq_true h
  obtain ⟨members, hmembers, hemitted⟩ :=
    Program.registered_emitted hcompile Library.isOfClass_of_mem hagrees
  cases hknown.symm.trans hmembers
  exact ⟨compiled, known, hcompile, hknown, beq_iff_eq.1 heval, hemitted⟩

/-- No handlers are emitted for a body without instructions, nor what is defined
in them, and the call of the method fails. -/
theorem rescueDemo_omits : ∃ compiled members, (rescueDemo false).compile.1 = .ok compiled ∧
    (rescueDemo false).registered = .ok members ∧
    (∃ m ∈ members, m.name = "g" ∧ ∀ c ∈ compiled.classes, ∀ method ∈ c.methods,
      method.name ≠ "g") ∧
    (compiled.machine.runMain 200 "Demo" []).1 = .error (.noSuchMethod "Demo" "g" "()I") := by
  obtain ⟨compiled, hcompile, heval⟩ := exists_ok_of_any (x := (rescueDemo false).compile.1)
    (p := fun compiled => (compiled.classes.all fun c => c.methods.all (·.name != "g")) &&
      (compiled.machine.runMain 200 "Demo" []).1.error? ==
        some (.noSuchMethod "Demo" "g" "()I")) (by decide +kernel)
  obtain ⟨members, hmembers, hnamed⟩ := exists_ok_of_any (x := (rescueDemo false).registered)
    (p := (·.any (·.name == "g"))) (by decide +kernel)
  simp only [Bool.and_eq_true, List.any_eq_true, List.all_eq_true, beq_iff_eq, bne_iff_ne]
    at heval hnamed
  obtain ⟨m, hm, hname⟩ := hnamed
  exact ⟨compiled, members, hcompile, hmembers, ⟨m, hm, hname, heval.1⟩,
    Machine.Outcome.eq_error heval.2⟩

end ClassBackend
