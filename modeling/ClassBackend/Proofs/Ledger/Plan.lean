import Mathlib.Algebra.Order.Group.Multiset
import Mathlib.Logic.Relation
import ClassBackend.Proofs.Emission.Advance

/-!
# What a script defines

A tree tells which classes and methods there will be: every definition makes
some (`Occurrence.own`), and all the definitions of a tree together are its
*plan* (`Occurrence.plan`). What a definition makes depends on where it stands:
in which class, whether that is an interface, and whether the code around it is
static.

What emission has made so far can be read off its state (`Emission.entries`). A
`Tally` compares the two: emission makes all that is planned, or makes nothing
else. Either may be wrong where emission passes over a part of the tree or goes
through it more than once, and a tally says where this does no harm
(`Tally.Sound`).
-/

namespace ClassBackend

/-! ## Entries -/

inductive Entry where
  | classFile (name : String)
  | method (owner name descriptor : String) (isStatic : Bool)
  /-- The constructor of a closure. What it takes cannot be told from the
  tree. -/
  | maker (owner : String)
  deriving DecidableEq, Repr

def MethodInfo.entry (owner : String) (method : MethodInfo) : Entry :=
  .method owner method.name method.descriptor method.isStatic

def ClassFile.entries (c : ClassFile) : Multiset Entry :=
  (c.methods.map (·.entry c.name) : List Entry)

def classEntries (classes : List ClassFile) : Multiset Entry :=
  (classes.map fun c => .classFile c.name ::ₘ c.entries).sum

/-- What has been made so far: the methods of the class being emitted, and the
classes that are finished. -/
def Emission.entries (σ : Emission) : Multiset Entry :=
  σ.current.entries + classEntries σ.unit.classes

@[simp] theorem classEntries_nil : classEntries [] = 0 := rfl

@[simp] theorem classEntries_cons (c : ClassFile) (classes : List ClassFile) :
    classEntries (c :: classes) = (.classFile c.name ::ₘ c.entries) + classEntries classes := by
  simp [classEntries]

@[simp] theorem classEntries_append (xs ys : List ClassFile) :
    classEntries (xs ++ ys) = classEntries xs + classEntries ys := by
  simp [classEntries]

@[simp] theorem ClassFile.entries_addMethod (c : ClassFile) (method : MethodInfo) :
    (c.addMethod method).entries = c.entries + {method.entry c.name} := by
  simp only [ClassFile.entries, ClassFile.addMethod, List.map_append]
  exact (Multiset.coe_add _ _).symm

theorem ClassFile.mem_entries {c : ClassFile} {entry : Entry} :
    entry ∈ c.entries ↔ ∃ method ∈ c.methods, method.entry c.name = entry := by
  rw [ClassFile.entries, Multiset.mem_coe, List.mem_map]

/-! ## Where definitions stand -/

structure Site where
  owner : String
  isInterface : Bool
  isStatic : Bool
  declaresStatic : Bool
  deriving DecidableEq

structure Occurrence where
  site : Site
  node : Node

def Site.inMethod (site : Site) (isStatic : Bool) : Site :=
  { site with isStatic, declaresStatic := false }

def TypeMap.className (types : TypeMap) (node : Node) : String :=
  ((types.find? node.id).map Ty.internalName).getD ""

def TypeMap.classSite (types : TypeMap) (node : Node) (isInterface : Bool) : Site where
  owner := types.className node
  isInterface := isInterface
  isStatic := false
  declaresStatic := false

/-- The parameter lists of the methods that a definition makes. An interface has
no overloads that leave out optional arguments. -/
def TypeMap.emittedArities (types : TypeMap) (isInterface : Bool) (args : List Argument) :
    List (List Ty) :=
  match types.paramsOf args with
  | .error _ => []
  | .ok params =>
    let required := Argument.required args
    if isInterface then [params.map (·.2)]
    else (List.range (args.length + 1 - required)).map fun extra =>
      (params.map (·.2)).take (required + extra)

namespace Occurrence

variable (types : TypeMap)

/-- The parts of a node that are emitted with it, where they stand. The default
values of an interface's methods are not. -/
def parts (o : Occurrence) : List Occurrence :=
  match o.node.kind with
  | .methodDef definition =>
    (if o.site.isInterface then definition.body.toList else o.node.children).map
      (⟨o.site.inMethod (definition.isStatic || o.site.isStatic), ·⟩)
  | .constructorDef _ => o.node.children.map (⟨o.site.inMethod false, ·⟩)
  | .classDef definition => definition.body.map fun member =>
    ⟨{ types.classSite o.node definition.isInterface with
      isStatic := member.kind.isInitializer }, member⟩
  | .closureDef definition => definition.methods.map (⟨types.classSite o.node false, ·⟩)
  | _ => o.node.children.map (⟨o.site, ·⟩)

def own (o : Occurrence) : List Entry :=
  let owner := o.site.owner
  match o.node.kind with
  | .methodDef definition =>
    (types.emittedArities o.site.isInterface definition.args).map fun params =>
      .method owner definition.name
        (methodDescriptor params ((types.find? o.node.id).getD .void))
        (definition.isStatic || o.site.isStatic)
  | .constructorDef definition =>
    (types.emittedArities false definition.args).map fun params =>
      .method owner "<init>" (methodDescriptor params .void) false
  | .classDef definition =>
    let name := types.className o.node
    .classFile name ::
      (if definition.body.any (·.kind.isInitializer) then
        [.method name "<clinit>" "()V" true] else []) ++
      if !definition.isInterface && !definition.hasConstructor then
        [.method name "<init>" "()V" false] else []
  | .closureDef _ => [.classFile (types.className o.node), .maker (types.className o.node)]
  | .script _ =>
    [.method owner "main" "([Ljava/lang/String;)V" true, .method owner "<init>" "()V" false]
  | _ => []

theorem own_of_isPlain {o : Occurrence} (h : o.node.kind.isPlain = true) : o.own types = [] := by
  unfold own
  split <;> simp_all [NodeKind.isPlain]

theorem parts_of_isPlain {o : Occurrence} (h : o.node.kind.isPlain = true) :
    o.parts types = o.node.children.map (⟨o.site, ·⟩) := by
  unfold parts
  split <;> simp_all [NodeKind.isPlain]

/-- All that a tree makes, down to some depth. -/
def planWithin : Nat → Occurrence → Multiset Entry
  | 0, _ => 0
  | n + 1, o => (o.own types : Multiset Entry) + ((o.parts types).map (planWithin n)).sum

def plan (o : Occurrence) : Multiset Entry := o.planWithin types o.node.size

theorem size_lt_of_mem_parts {o part : Occurrence} (h : part ∈ o.parts types) :
    part.node.size < o.node.size := by
  have hchild : part.node ∈ o.node.children := by
    unfold parts at h
    split at h <;> obtain ⟨node, hnode, rfl⟩ := List.mem_map.1 h
    · rename_i definition hkind
      split at hnode
      · rw [Node.children, hkind]
        exact List.mem_append_right _ hnode
      · exact hnode
    · exact hnode
    · rename_i definition hkind
      rw [Node.children, hkind]
      exact hnode
    · rename_i definition hkind
      rw [Node.children, hkind]
      exact hnode
    · exact hnode
  exact Node.size_lt_of_mem_children hchild

theorem planWithin_congr {n m : Nat} {o : Occurrence} (hn : o.node.size ≤ n)
    (hm : o.node.size ≤ m) : o.planWithin types n = o.planWithin types m := by
  have hpos := o.node.size_pos
  induction n generalizing m o with
  | zero => omega
  | succ n ih =>
    obtain ⟨m, rfl⟩ : ∃ k, m = k + 1 := ⟨m - 1, by omega⟩
    rw [planWithin, planWithin]
    congr 2
    refine List.map_congr_left fun part hpart => ?_
    have hlt := size_lt_of_mem_parts types hpart
    exact ih (by omega) (by omega) part.node.size_pos

theorem plan_eq (o : Occurrence) :
    o.plan types = (o.own types : Multiset Entry) + ((o.parts types).map (plan types)).sum := by
  obtain ⟨n, hn⟩ : ∃ n, o.node.size = n + 1 := ⟨o.node.size - 1, by have := o.node.size_pos; omega⟩
  rw [plan, hn, planWithin]
  congr 2
  refine List.map_congr_left fun part hpart => ?_
  have hlt := size_lt_of_mem_parts types hpart
  exact planWithin_congr types (by omega) le_rfl

/-- A property of all that stands in a tree. -/
def Everywhere (P : Occurrence → Prop) (o : Occurrence) : Prop :=
  ∀ part, Relation.ReflTransGen (fun a b => b ∈ a.parts types) o part → P part

/-- A test of all that stands in a tree, down to some depth. -/
def passesTo (test : Occurrence → Bool) : Nat → Occurrence → Bool
  | 0, _ => false
  | n + 1, o => test o && (o.parts types).all (passesTo test n)

variable {types} {P : Occurrence → Prop} {o other : Occurrence}

theorem Everywhere.self (h : o.Everywhere types P) : P o := h o .refl

theorem Everywhere.part (h : o.Everywhere types P) (hother : other ∈ o.parts types) :
    other.Everywhere types P := fun _ hbelow => h _ (.head hother hbelow)

theorem Everywhere.imp {Q : Occurrence → Prop} (h : o.Everywhere types P)
    (hPQ : ∀ part, P part → Q part) : o.Everywhere types Q :=
  fun part hbelow => hPQ part (h part hbelow)

theorem everywhere_of_passesTo {test : Occurrence → Bool} {n : Nat}
    (h : o.passesTo types test n = true) : o.Everywhere types (test · = true) := by
  intro part hbelow
  induction hbelow using Relation.ReflTransGen.head_induction_on generalizing n with
  | refl =>
    cases n with
    | zero => cases h
    | succ n => exact (Bool.and_eq_true_iff.1 h).1
  | head hpart _ ih =>
    cases n with
    | zero => cases h
    | succ n => exact ih (List.all_eq_true.1 (Bool.and_eq_true_iff.1 h).2 _ hpart)

end Occurrence

/-! ## Comparing -/

/-- A way to compare what is planned with what is found. -/
structure Tally where
  /-- What is found answers to what is planned. -/
  rel : Multiset Entry → Multiset Entry → Prop
  refl : ∀ es, rel es es
  trans : ∀ {planned found final}, rel planned found → rel found final → rel planned final
  add : ∀ {planned found} (more : Multiset Entry), rel planned found →
    rel (planned + more) (found + more)
  /-- A class with a constructor without arguments needs no second one. -/
  known : ∀ {found owner} {isStatic : Bool}, .method owner "<init>" "()V" isStatic ∈ found →
    rel (found + {.method owner "<init>" "()V" false}) found
  made : ∀ owner descriptor, rel {.maker owner} {.method owner "<init>" descriptor false}

namespace Tally

variable (K : Tally) (types : TypeMap)

/-- It does no harm that emission passes over some nodes of a tree and goes
through others more than once. -/
def Sound (members : MemberTable) (o : Occurrence) : Prop :=
  match o.node.kind with
  -- a body without instructions needs no handlers
  | .rescue main clauses _ => main.leavesCode members = true ∨
    ∀ clause ∈ clauses, K.rel (Occurrence.plan types ⟨o.site, clause.body⟩) 0
  -- a clause is emitted for each way out of the block
  | .ensure _ clause => K.rel 0 (Occurrence.plan types ⟨o.site, clause⟩)
  -- a loop may test its condition before and after the body
  | .loop parts => parts.skipFirstCheck = false → parts.post ≠ [] →
    K.rel 0 (Occurrence.plan types ⟨o.site, parts.condition⟩)
  -- the receiver of `class` is not evaluated, nor the class of a test
  | .call target name args =>
    (name = "class" → K.rel (Occurrence.plan types ⟨o.site, target⟩) 0) ∧
    (name = "kind_of?" → ∀ arg ∈ args, K.rel (Occurrence.plan types ⟨o.site, arg⟩) 0)
  | .selfCall name args =>
    name = "kind_of?" → ∀ arg ∈ args, K.rel (Occurrence.plan types ⟨o.site, arg⟩) 0
  | _ => True

end Tally

end ClassBackend
