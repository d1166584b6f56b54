import ClassBackend.Proofs.Ledger.Unit

/-!
# Nothing is made twice

If nothing is defined where emission passes more than once, a unit has every
class once, and a class has no more methods of a name and descriptor than the
script makes (`Program.classes_once`).
-/

namespace ClassBackend

namespace Entry

def className? : Entry → Option String
  | .classFile name => some name
  | _ => none

/-- The entry stands for a method of this name and descriptor. The constructor of
a closure may have any descriptor. -/
def gives (owner name descriptor : String) : Entry → Bool
  | .classFile _ => false
  | .method other n d _ => other == owner && (n == name && d == descriptor)
  | .maker other => other == owner && name == "<init>"

/-- There is no more of anything than was planned. -/
structure AtMost (planned found : Multiset Entry) : Prop where
  classes : found.filterMap className? ≤ planned.filterMap className?
  methods : ∀ owner name descriptor,
    found.countP (gives owner name descriptor ·) ≤ planned.countP (gives owner name descriptor ·)

namespace AtMost

variable {planned found final : Multiset Entry}

theorem of_le (h : found ≤ planned) : AtMost planned found where
  classes := Multiset.filterMap_le_filterMap _ h
  methods _ _ _ := Multiset.countP_le_of_le _ h

theorem trans (h : AtMost planned found) (k : AtMost found final) : AtMost planned final where
  classes := k.classes.trans h.classes
  methods owner name descriptor :=
    (k.methods owner name descriptor).trans (h.methods owner name descriptor)

theorem add (more : Multiset Entry) (h : AtMost planned found) :
    AtMost (planned + more) (found + more) where
  classes := by
    rw [Multiset.filterMap_add, Multiset.filterMap_add]
    exact add_le_add_left h.classes _
  methods owner name descriptor := by
    rw [Multiset.countP_add, Multiset.countP_add]
    exact Nat.add_le_add_right (h.methods owner name descriptor) _

theorem maker (owner descriptor : String) :
    AtMost {.maker owner} {.method owner "<init>" descriptor false} where
  classes := le_rfl
  methods other name d := by
    by_cases hgives : gives other name d (.method owner "<init>" descriptor false) = true
    · have hmaker : gives other name d (.maker owner) = true := by
        simp only [gives, Bool.and_eq_true, beq_iff_eq] at hgives ⊢
        exact ⟨hgives.1, hgives.2.1.symm⟩
      exact (Multiset.countP_le_card _ _).trans
        (Multiset.countP_pos_of_mem (Multiset.mem_singleton_self _) hmaker)
    · rw [Multiset.countP_eq_zero.2 (by simpa using hgives)]
      exact Nat.zero_le _

end AtMost

end Entry

/-- Nothing is made that was not planned, nor more often. -/
def Tally.atMost : Tally where
  rel := Entry.AtMost
  refl _ := .of_le le_rfl
  trans := .trans
  add := .add
  known _ := .of_le (Multiset.le_add_right _ _)
  made := .maker

/-- Nothing is defined in what is emitted more than once: in the clause of an
ensure, and in the condition of a loop that tests it in two places. -/
def Occurrence.DefinesOnce (types : TypeMap) (o : Occurrence) : Prop :=
  match o.node.kind with
  | .ensure _ clause => plan types ⟨o.site, clause⟩ = 0
  | .loop parts => parts.skipFirstCheck = false → parts.post ≠ [] →
    plan types ⟨o.site, parts.condition⟩ = 0
  | _ => True

def Occurrence.definesOnce (types : TypeMap) (o : Occurrence) : Bool :=
  match o.node.kind with
  | .ensure _ clause => decide (plan types ⟨o.site, clause⟩ = 0)
  | .loop parts => parts.skipFirstCheck || parts.post.isEmpty ||
    decide (plan types ⟨o.site, parts.condition⟩ = 0)
  | _ => true

theorem Occurrence.definesOnce_iff {types : TypeMap} {o : Occurrence} :
    o.definesOnce types = true ↔ o.DefinesOnce types := by
  unfold definesOnce DefinesOnce
  split
  · simp
  · rename_i loop _
    cases loop.skipFirstCheck <;> simp [or_iff_not_imp_left]
  · simp

instance (types : TypeMap) (o : Occurrence) : Decidable (o.DefinesOnce types) :=
  decidable_of_iff _ Occurrence.definesOnce_iff

theorem Occurrence.DefinesOnce.sound {types : TypeMap} {members : MemberTable} {o : Occurrence}
    (h : o.DefinesOnce types) : Tally.atMost.Sound types members o := by
  have hnone : ∀ part : Occurrence, Tally.atMost.rel (part.plan types) 0 :=
    fun _ => .of_le (Multiset.zero_le _)
  cases hkind : o.node.kind with
  | ensure body clause =>
    simp only [DefinesOnce, Tally.Sound, hkind] at h ⊢
    rw [h]
    exact Tally.atMost.refl 0
  | loop parts =>
    simp only [DefinesOnce, Tally.Sound, hkind] at h ⊢
    intro hskip hpost
    rw [h hskip hpost]
    exact Tally.atMost.refl 0
  | rescue main clauses elseClause =>
    rw [Tally.Sound, hkind]
    exact .inr fun clause _ => hnone _
  | call target name args =>
    rw [Tally.Sound, hkind]
    exact ⟨fun _ => hnone _, fun _ arg _ => hnone _⟩
  | selfCall name args =>
    rw [Tally.Sound, hkind]
    exact fun _ arg _ => hnone _
  | _ =>
    rw [Tally.Sound, hkind]
    trivial

/-! ## Counting -/

theorem ClassFile.filterMap_className?_entries (c : ClassFile) :
    c.entries.filterMap Entry.className? = 0 := by
  refine Multiset.eq_zero_of_forall_notMem fun name hname => ?_
  obtain ⟨entry, hentry, hclass⟩ := (Multiset.mem_filterMap _ _).1 hname
  obtain ⟨method, -, rfl⟩ := mem_entries.1 hentry
  cases hclass

theorem filterMap_className?_classEntries (classes : List ClassFile) :
    (classEntries classes).filterMap Entry.className? = (classes.map (·.name) : List String) := by
  induction classes with
  | nil => rfl
  | cons c rest ih =>
    have hname : Entry.className? (.classFile c.name) = some c.name := rfl
    rw [classEntries_cons, Multiset.filterMap_add, Multiset.filterMap_cons_some _ _ _ hname,
      c.filterMap_className?_entries, ih, List.map_cons, Multiset.cons_add, zero_add,
      Multiset.cons_coe]

theorem ClassFile.countP_gives_entries (c : ClassFile) (name descriptor : String) :
    c.entries.countP (Entry.gives c.name name descriptor ·) =
      c.methods.countP (·.answersTo name descriptor) := by
  rw [ClassFile.entries, Multiset.coe_countP, List.countP_map]
  refine List.countP_congr fun method _ => ?_
  simp [Entry.gives, MethodInfo.entry, MethodInfo.answersTo]

theorem entries_le_classEntries {classes : List ClassFile} {c : ClassFile} (h : c ∈ classes) :
    c.entries ≤ classEntries classes := by
  obtain ⟨before, after, rfl⟩ := List.append_of_mem h
  rw [classEntries_append, classEntries_cons]
  exact ((Multiset.le_cons_self _ _).trans (Multiset.le_add_right _ _)).trans
    (Multiset.le_add_left _ _)

namespace Program

/-- The names of the classes and closures that a script defines. -/
def classNames (program : Program) : Multiset String :=
  program.plan.filterMap Entry.className?

variable {program : Program} {compiled : CompiledUnit}

/-- Every class is emitted once if the classes have different names and nothing
is defined where emission passes more than once. There are two methods of a name
and descriptor in a class only where the script makes two. -/
theorem classes_once {names : List String} (h : program.compile.1 = .ok compiled)
    (hlisted : ∀ m ∈ program.members.members, m.isOfClass = true)
    (hbindings : program.bindingNames = .ok names) (hnames : program.classNames.Nodup)
    (hscript : Naming.scriptClass program.file ∉ program.classNames)
    (hapart : ∀ name ∈ names, name ∉ program.classNames)
    (honce : program.root.Everywhere program.types (·.DefinesOnce program.types)) :
    (compiled.classes.map (·.name)).Nodup ∧
      ∀ c ∈ compiled.classes, ∀ name descriptor,
        c.methods.countP (·.answersTo name descriptor) ≤
          max 1 (program.plan.countP (Entry.gives c.name name descriptor ·)) := by
  obtain ⟨names', emitted, made, hnames', hclasses, hrel, hdistinct, hmade⟩ :=
    made_of_compile (K := .atMost) hlisted (honce.imp fun _ ho => ho.sound) h
  obtain rfl : names = names' := Except.ok.inj (hbindings.symm.trans hnames')
  -- the emitted classes are the script's own and those that it defines
  have hemitted : ((emitted.map (·.name) : List String) : Multiset String) ≤
      Naming.scriptClass program.file ::ₘ program.classNames := by
    have hown : Entry.className? (.classFile (Naming.scriptClass program.file)) =
      some (Naming.scriptClass program.file) := rfl
    rw [← filterMap_className?_classEntries, classNames,
      ← Multiset.filterMap_cons_some _ _ _ hown, ← Multiset.singleton_add]
    exact hrel.classes
  refine ⟨?_, fun c hc name descriptor => ?_⟩
  · rw [hclasses, List.map_append, List.nodup_append']
    refine ⟨Multiset.coe_nodup.1
      (Multiset.nodup_of_le hemitted (Multiset.nodup_cons.2 ⟨hscript, hnames⟩)), hdistinct, ?_⟩
    intro name hmem hbound
    obtain ⟨c, hc, rfl⟩ := List.mem_map.1 hbound
    obtain ⟨hknown, hother, -⟩ := hmade c hc
    rcases Multiset.mem_cons.1 (Multiset.mem_of_le hemitted (Multiset.mem_coe.2 hmem)) with
      heq | hdefined
    · exact hother heq
    · exact hapart _ hknown hdefined
  · rw [← c.countP_gives_entries]
    rw [hclasses, List.mem_append] at hc
    rcases hc with hc | hc
    · refine (Multiset.countP_le_of_le _ (entries_le_classEntries hc)).trans
        ((hrel.methods c.name name descriptor).trans ?_)
      rw [Multiset.countP_add, Multiset.countP_eq_zero.2 (by simp [Entry.gives]), zero_add]
      exact le_max_right _ _
    · rw [(hmade c hc).2.2]
      exact (Multiset.countP_le_card _ _).trans (le_max_left _ _)

end Program

/-- A class whose method `m` takes an optional argument, and a closure over a
local of the script. It stands in the body of an ensure, or in its clause. -/
def ensureDemo (inClause : Bool) : Program := .ofBuild do
  let one ← Build.node (.fixnum 1) (some Ty.int) none
  let a ← Build.argument "a" Ty.int (some one)
  let readA ← Build.node (.localAccess "a") (some Ty.int) none
  let m ← Build.node (.methodDef {
    name := "m", args := [a], body := some readA, isStatic := false, throws := [], notes := [] })
    (some Ty.int) none
  let k ← Build.node (.classDef {
    name := "K", superclass := none, interfaces := [], isInterface := false, body := [m] })
    none none
  let two ← Build.node (.fixnum 2) (some Ty.int) none
  let x ← Build.node (.localAssign "x" two) none none
  let readX ← Build.node (.localAccess "x") (some Ty.int) none
  let print ← Build.node (.print true [readX]) none none
  let run ← Build.procedure "run" print
  let closure ← Build.node (.closureDef {
    name := "Demo$C1", interfaces := ["java.lang.Runnable"], methods := [run] }) none none
  let text ← Build.node (.text "done") none none
  let note ← Build.node (.print true [text]) none none
  let ensure ← Build.node
    (if inClause then .ensure note closure else .ensure closure note) none none
  Build.node (.script [k, x, ensure]) none none

theorem ensureDemo_once : ∃ compiled names, (ensureDemo false).compile.1 = .ok compiled ∧
    (ensureDemo false).bindingNames = .ok names ∧ names.length = 1 ∧
    (ensureDemo false).classNames = {"K", "Demo$C1"} ∧
    (compiled.classes.map (·.name)).Nodup ∧
    ∀ c ∈ compiled.classes, ∀ name descriptor,
      c.methods.countP (·.answersTo name descriptor) ≤
        max 1 ((ensureDemo false).plan.countP (Entry.gives c.name name descriptor ·)) := by
  obtain ⟨compiled, hcompile, -⟩ := exists_ok_of_any (x := (ensureDemo false).compile.1)
    (p := fun _ => true) (by decide +kernel)
  obtain ⟨names, hbindings, heval⟩ := exists_ok_of_any (x := (ensureDemo false).bindingNames)
    (p := fun names => names.length == 1 &&
      names.all fun name => !decide (name ∈ (ensureDemo false).classNames)) (by decide +kernel)
  have honce : (ensureDemo false).root.Everywhere (ensureDemo false).types
      (·.DefinesOnce (ensureDemo false).types) :=
    (Occurrence.everywhere_of_passesTo (n := 9) (by decide +kernel)).imp
      fun _ h => of_decide_eq_true h
  have hclasses : (ensureDemo false).classNames = {"K", "Demo$C1"} := by decide +kernel
  simp only [Bool.and_eq_true, beq_iff_eq, List.all_eq_true, Bool.not_eq_true',
    decide_eq_false_iff_not] at heval
  exact ⟨compiled, names, hcompile, hbindings, heval.1, hclasses,
    Program.classes_once hcompile Library.isOfClass_of_mem hbindings
      (by rw [hclasses]; decide) (by rw [hclasses]; decide) heval.2 honce⟩

/-- The clause is emitted for the way out of the body and for exceptions, and the
closure in it each time. -/
theorem ensureDemo_twice : ∃ compiled names, (ensureDemo true).compile.1 = .ok compiled ∧
    (ensureDemo true).bindingNames = .ok names ∧
    (ensureDemo true).classNames = {"K", "Demo$C1"} ∧
    (∀ name ∈ names, name ∉ (ensureDemo true).classNames) ∧
    (compiled.classes.map (·.name)).count "Demo$C1" = 2 := by
  obtain ⟨compiled, hcompile, hcount⟩ := exists_ok_of_any (x := (ensureDemo true).compile.1)
    (p := fun compiled => (compiled.classes.map (·.name)).count "Demo$C1" == 2) (by decide +kernel)
  obtain ⟨names, hbindings, heval⟩ := exists_ok_of_any (x := (ensureDemo true).bindingNames)
    (p := (·.all fun name => !decide (name ∈ (ensureDemo true).classNames))) (by decide +kernel)
  have hclasses : (ensureDemo true).classNames = {"K", "Demo$C1"} := by decide +kernel
  simp only [List.all_eq_true, Bool.not_eq_true', decide_eq_false_iff_not] at heval
  exact ⟨compiled, names, hcompile, hbindings, hclasses, heval, beq_iff_eq.1 hcount⟩

end ClassBackend
