import ClassBackend.Emit.Script

/-!
# Broken invariants

The faults that report a broken invariant of scope analysis or of emission
itself are *breaches*. All other faults are *complaints* about what the compiler
was given: a construct that has no lowering, a type that is not known, a call
that no member answers. A computation `Complains` if it fails with complaints
only; most computations that emission relies on are found to do so by instance
search.

Breaches and complaints can only be told apart by their wording, so the names of
types matter here: a name without blanks makes no complaint read like a breach.
-/

namespace ClassBackend

variable {us vs xs ys : List Char} {name : String}

/-- The fault reports an invariant that does not hold. -/
inductive Fault.IsBreach : Fault → Prop
  | unplacedLabel (label : Label) (method : String) :
    IsBreach (.internal ("label " ++ label.name ++ " never set in " ++ method))
  | emptyRegion (method : String) : IsBreach (.internal ("empty protected region in " ++ method))
  | scopeOrder : IsBreach (.internal "jump scopes out of order")
  | noLoopLabels : IsBreach (.internal "loop scope without labels")
  | lostFrame : IsBreach (.internal "method frame disappeared")
  | noMethod : IsBreach (.internal "no method is being emitted")
  | unscopedLocal (name : String) : IsBreach (.internal ("local " ++ name ++ " was never scoped"))
  | strayLocal (name : String) : IsBreach (.internal ("local " ++ name ++ " outside of any scope"))
  | unscopedClause : IsBreach (.internal "rescue clause was never scoped")
  | untypedVariable (name : String) :
    IsBreach (.internal ("rescue variable " ++ name ++ " has no type"))
  | unstoredBinding : IsBreach (.internal "binding was never stored")

/-! ## Telling texts apart -/

def differ (xs ys : List Char) : Bool := (xs.zip ys).any fun (x, y) => x != y

theorem append_ne_append (h : differ xs ys = true) : xs ++ us ≠ ys ++ vs := by
  induction xs generalizing ys with
  | nil => cases h
  | cons x xs ih =>
    cases ys with
    | nil => cases h
    | cons y ys =>
      intro heq
      obtain ⟨rfl, hrest⟩ := List.cons.inj heq
      simp only [differ, List.zip_cons_cons, List.any_cons, bne_self_eq_false,
        Bool.false_or] at h
      exact ih h hrest

theorem append_ne_append_of_reverse (h : differ xs.reverse ys.reverse = true) :
    us ++ xs ≠ vs ++ ys := by
  intro heq
  have hreverse := congrArg List.reverse heq
  rw [List.reverse_append, List.reverse_append] at hreverse
  exact append_ne_append h hreverse

theorem eq_of_append_blank (hx : ' ' ∉ xs) (hy : ' ' ∉ ys) (h : xs ++ ' ' :: us = ys ++ ' ' :: vs) :
    us = vs := by
  induction xs generalizing ys with
  | nil =>
    cases ys with
    | nil => exact (List.cons.inj h).2
    | cons y ys =>
      cases h
      exact absurd List.mem_cons_self hy
  | cons x xs ih =>
    cases ys with
    | nil =>
      cases h
      exact absurd List.mem_cons_self hx
    | cons y ys =>
      exact ih (fun hmem => hx (List.mem_cons_of_mem _ hmem))
        (fun hmem => hy (List.mem_cons_of_mem _ hmem)) (List.cons.inj h).2

def breachStarts : List String :=
  ["label ", "empty protected region in ", "jump scopes out of order",
    "loop scope without labels", "method frame disappeared", "no method is being emitted",
    "local ", "rescue clause was never scoped", "rescue variable ", "binding was never stored"]

theorem Fault.IsBreach.exists_start {fault : Fault} (h : fault.IsBreach) :
    ∃ start ∈ breachStarts, ∃ rest, fault = .internal (start ++ rest) := by
  have hwhole : ∀ start ∈ breachStarts, ∃ known ∈ breachStarts, ∃ rest,
      Fault.internal start = .internal (known ++ rest) :=
    fun start hmem => ⟨start, hmem, "", by rw [String.append_empty]⟩
  cases h with
  | unplacedLabel label method =>
    exact ⟨"label ", by decide, label.name ++ " never set in " ++ method, by
      simp only [String.append_assoc]⟩
  | emptyRegion method => exact ⟨"empty protected region in ", by decide, method, rfl⟩
  | unscopedLocal name =>
    exact ⟨"local ", by decide, name ++ " was never scoped", by rw [String.append_assoc]⟩
  | strayLocal name =>
    exact ⟨"local ", by decide, name ++ " outside of any scope", by rw [String.append_assoc]⟩
  | untypedVariable name =>
    exact ⟨"rescue variable ", by decide, name ++ " has no type", by rw [String.append_assoc]⟩
  | scopeOrder | noLoopLabels | lostFrame | noMethod | unscopedClause | unstoredBinding =>
    exact hwhole _ (by decide)

/-! ## Complaints -/

/-- The fault reports no broken invariant. -/
class Fault.IsComplaint (fault : Fault) : Prop where
  not_breach : ¬ fault.IsBreach

theorem Fault.isComplaint_of_start (start rest : String)
    (h : (breachStarts.all fun known => differ start.toList known.toList) = true) :
    (Fault.internal (start ++ rest)).IsComplaint := by
  refine ⟨fun hbreach => ?_⟩
  obtain ⟨known, hknown, more, heq⟩ := hbreach.exists_start
  have htext := congrArg String.toList (Fault.internal.inj heq)
  rw [String.toList_append, String.toList_append] at htext
  exact append_ne_append (List.all_eq_true.1 h known hknown) htext

theorem Fault.isComplaint_of_text (text : String)
    (h : (breachStarts.all fun known => differ text.toList known.toList) = true) :
    (Fault.internal text).IsComplaint := by
  have hstart := isComplaint_of_start text "" h
  rwa [String.append_empty] at hstart

namespace Fault.IsComplaint

instance (receiver name : String) (arguments : List String) :
    (Fault.missingMethod receiver name arguments).IsComplaint := ⟨nofun⟩

instance (found : String) : (Fault.nonBooleanPredicate found).IsComplaint := ⟨nofun⟩

instance (reason : String) : (Fault.incompatibleCast reason).IsComplaint := ⟨nofun⟩

instance (jump target : String) : (Fault.noJumpTarget jump target).IsComplaint := ⟨nofun⟩

instance (construct : String) : (Fault.unsupported construct).IsComplaint := ⟨nofun⟩

instance (name : String) : (Fault.incompleteType name).IsComplaint := ⟨nofun⟩

instance (name : String) : (Fault.unknownType name).IsComplaint := ⟨nofun⟩

instance (name : String) : (Fault.badTypeName name).IsComplaint := ⟨nofun⟩

instance : Fault.tooDeep.IsComplaint := ⟨nofun⟩

instance (rest : String) : (Fault.internal ("math on " ++ rest)).IsComplaint :=
  isComplaint_of_start _ _ (by decide)

instance (arg name : String) : (Fault.internal
    ("required argument " ++ arg ++ " follows an optional one in " ++ name)).IsComplaint := by
  simp only [String.append_assoc]
  exact isComplaint_of_start _ _ (by decide)

instance : (Fault.internal "captured local without a binding").IsComplaint :=
  isComplaint_of_text _ (by decide)

instance : (Fault.internal "array index missing").IsComplaint :=
  isComplaint_of_text _ (by decide)

instance : (Fault.internal "array store without a value").IsComplaint :=
  isComplaint_of_text _ (by decide)

end Fault.IsComplaint

/-- How breaches go on behind their first word. -/
def breachSeconds : List String :=
  ["L", "protected ", "scope", "frame ", "method ", "clause ", "variable ", "was "]

def breachEnds : List String := ["was never scoped", "outside of any scope"]

theorem Fault.IsBreach.exists_second {text : String} (h : (Fault.internal text).IsBreach) :
    ∃ word rest, ' ' ∉ word ∧ text.toList = word ++ ' ' :: rest ∧
      ((∃ start ∈ breachSeconds, ∃ more, rest = start.toList ++ more) ∨
        ∃ ending ∈ breachEnds, ∃ more, rest = more ++ ending.toList) := by
  have hword : ∀ (word start : String) (more : List Char), ' ' ∉ word.toList →
      text.toList = word.toList ++ ' ' :: (start.toList ++ more) → start ∈ breachSeconds →
      ∃ word rest, ' ' ∉ word ∧ text.toList = word ++ ' ' :: rest ∧
        ((∃ start ∈ breachSeconds, ∃ more, rest = start.toList ++ more) ∨
          ∃ ending ∈ breachEnds, ∃ more, rest = more ++ ending.toList) :=
    fun word start more hword htext hstart =>
      ⟨word.toList, _, hword, htext, .inl ⟨start, hstart, more, rfl⟩⟩
  generalize hfault : Fault.internal text = fault at h
  cases h <;> cases hfault
  case unplacedLabel label method =>
    refine hword "label" "L"
      ((toString label.id).toList ++ " never set in ".toList ++ method.toList)
      (by decide) ?_ (by decide)
    simp [Label.name, String.toList_append]
  case emptyRegion method =>
    refine hword "empty" "protected " ("region in ".toList ++ method.toList)
      (by decide) ?_ (by decide)
    simp [String.toList_append]
  case scopeOrder => exact hword "jump" "scope" "s out of order".toList (by decide) rfl (by decide)
  case noLoopLabels =>
    exact hword "loop" "scope" " without labels".toList (by decide) rfl (by decide)
  case lostFrame => exact hword "method" "frame " "disappeared".toList (by decide) rfl (by decide)
  case noMethod =>
    exact hword "no" "method " "is being emitted".toList (by decide) rfl (by decide)
  case unscopedLocal name =>
    refine ⟨"local".toList, name.toList ++ " was never scoped".toList, by decide, ?_,
      .inr ⟨"was never scoped", by decide, name.toList ++ [' '], ?_⟩⟩
    · simp [String.toList_append]
    · simp
  case strayLocal name =>
    refine ⟨"local".toList, name.toList ++ " outside of any scope".toList, by decide, ?_,
      .inr ⟨"outside of any scope", by decide, name.toList ++ [' '], ?_⟩⟩
    · simp [String.toList_append]
    · simp
  case unscopedClause =>
    exact hword "rescue" "clause " "was never scoped".toList (by decide) rfl (by decide)
  case untypedVariable name =>
    refine hword "rescue" "variable " (name.toList ++ " has no type".toList) (by decide) ?_
      (by decide)
    simp [String.toList_append]
  case unstoredBinding =>
    exact hword "binding" "was " "never stored".toList (by decide) rfl (by decide)

/-- A text that starts with a name is no breach if the name has no blank, and
what follows it does not read like one. -/
theorem Fault.isComplaint_of_name {text : String} {rest : List Char} (hname : ' ' ∉ name.toList)
    (htext : text.toList = ' ' :: rest)
    (hstart : (breachSeconds.all fun known => differ rest known.toList) = true)
    (hend : (breachEnds.all fun known => differ rest.reverse known.toList.reverse) = true) :
    (Fault.internal (name ++ text)).IsComplaint := by
  refine ⟨fun hbreach => ?_⟩
  obtain ⟨word, second, hword, heq, hsecond⟩ := hbreach.exists_second
  rw [String.toList_append, htext] at heq
  obtain rfl := eq_of_append_blank hname hword heq
  rcases hsecond with ⟨start, hmem, more, hmore⟩ | ⟨ending, hmem, more, hmore⟩
  · have hne : rest ++ [] ≠ start.toList ++ more :=
      append_ne_append (List.all_eq_true.1 hstart start hmem)
    exact hne (by rw [List.append_nil, hmore])
  · have hne : [] ++ rest ≠ more ++ ending.toList :=
      append_ne_append_of_reverse (List.all_eq_true.1 hend ending hmem)
    exact hne (by rw [List.nil_append, hmore])

theorem Fault.isComplaint_notArray (hname : ' ' ∉ name.toList) :
    (Fault.internal (name ++ " is not an array type")).IsComplaint :=
  isComplaint_of_name hname rfl (by decide) (by decide)

theorem Fault.isComplaint_noSuperclass (hname : ' ' ∉ name.toList) :
    (Fault.internal (name ++ " has no superclass")).IsComplaint :=
  isComplaint_of_name hname rfl (by decide) (by decide)

/-! ## Computations that complain -/

class Complains {α : Type} (x : Except Fault α) : Prop where
  isComplaint : ∀ {fault}, x = .error fault → fault.IsComplaint

namespace Complains

variable {α β : Type}

instance (a : α) : Complains (.ok a : Except Fault α) := ⟨nofun⟩

instance (a : α) : Complains (pure a : Except Fault α) := ⟨nofun⟩

instance (fault : Fault) [fault.IsComplaint] : Complains (.error fault : Except Fault α) :=
  ⟨fun h => by cases h; infer_instance⟩

instance (fault : Fault) [fault.IsComplaint] : Complains (throw fault : Except Fault α) :=
  ⟨fun h => by cases h; infer_instance⟩

instance (x : Except Fault α) (f : α → Except Fault β) [Complains x] [∀ a, Complains (f a)] :
    Complains (x >>= f) := by
  cases x with
  | ok a => exact inferInstanceAs (Complains (f a))
  | error fault =>
    have hfault : fault.IsComplaint := isComplaint (x := (.error fault : Except Fault α)) rfl
    exact inferInstanceAs (Complains (.error fault))

instance (x : Except Fault α) (f : α → β) [Complains x] : Complains (f <$> x) := by
  rw [map_eq_pure_bind]
  infer_instance

instance (x : Except Fault α) (f : α → β) [Complains x] : Complains (x.map f) :=
  inferInstanceAs (Complains (f <$> x))

instance (c : Prop) [Decidable c] (x y : Except Fault α) [Complains x] [Complains y] :
    Complains (if c then x else y) := by
  split
  · infer_instance
  · infer_instance

instance (f : α → Except Fault β) (xs : List α) [∀ a, Complains (f a)] :
    Complains (xs.mapM f) := by
  induction xs with
  | nil =>
    rw [List.mapM_nil]
    infer_instance
  | cons x xs ih =>
    rw [List.mapM_cons]
    infer_instance

instance (f : β → α → Except Fault β) (xs : List α) (b : β) [∀ b a, Complains (f b a)] :
    Complains (xs.foldlM f b) := by
  induction xs generalizing b with
  | nil =>
    rw [List.foldlM_nil]
    infer_instance
  | cons x xs ih =>
    rw [List.foldlM_cons]
    infer_instance

/-! ## Types and members -/

instance (types : TypeMap) (node : Node) : Complains (types.typeOf node) := by
  unfold TypeMap.typeOf
  split
  · infer_instance
  · have hfault : (Fault.internal ("no inferred type for " ++ node.describe ++ " node " ++
        toString node.id)).IsComplaint := by
      simp only [String.append_assoc]
      exact Fault.isComplaint_of_start _ _ (by decide)
    infer_instance

instance (types : TypeMap) (args : List Argument) : Complains (types.paramsOf args) := by
  unfold TypeMap.paramsOf
  have harg : ∀ arg : Argument, Complains (match types.find? arg.id with
      | some t => .ok (arg.name, t)
      | none => .error (.internal ("argument " ++ arg.name ++ " has no type")) :
      Except Fault (String × Ty)) := by
    intro arg
    split
    · infer_instance
    · have hfault : (Fault.internal ("argument " ++ arg.name ++ " has no type")).IsComplaint := by
        rw [String.append_assoc]
        exact Fault.isComplaint_of_start _ _ (by decide)
      infer_instance
  infer_instance

instance (t : Ty) : Complains t.valueKind := by
  unfold Ty.valueKind
  split
  · infer_instance
  · have hfault := Fault.isComplaint_of_start "no value of type " t.display (by decide)
    infer_instance

instance (t : Ty) (slot : UInt16) : Complains (t.loadCode slot) :=
  inferInstanceAs (Complains (t.valueKind.map _))

instance (t : Ty) (slot : UInt16) : Complains (t.storeCode slot) :=
  inferInstanceAs (Complains (t.valueKind.map _))

instance (source target : Ty) : Complains (source.checkCast target) := by
  unfold Ty.checkCast
  infer_instance

instance (cond : Cond) (operand : Ty) (test : Cond) (target : Label) :
    Complains (Member.compareCode cond operand test target) := by
  unfold Member.compareCode
  have hfault := Fault.isComplaint_of_start "comparison on " operand.display (by decide)
  split <;> infer_instance

instance (literal : Literal) (t : Ty) : Complains (literal.constantAt t) := by
  unfold Literal.constantAt
  split <;> infer_instance

namespace Registry

variable (r : Registry)

instance (name : String) : Complains (r.getPlain name) := by
  unfold Registry.getPlain
  split
  · infer_instance
  · split <;> infer_instance

instance (name : String) : Complains (r.get name) := by
  unfold Registry.get
  split <;> infer_instance

instance (t : Ty) : Complains (r.superclass t) := by
  unfold Registry.superclass
  split
  · split <;> infer_instance
  · infer_instance
  · infer_instance

instance (t : Ty) : Complains (r.interfaces t) := by
  unfold Registry.interfaces
  split
  · split <;> infer_instance
  · infer_instance

instance (source target : Ty) : Complains (r.conversionCode source target) := by
  unfold Registry.conversionCode
  split
  · infer_instance
  · split <;> infer_instance

instance (name : String) : Complains (r.declare name) := by
  unfold Registry.declare
  infer_instance

instance (name : String) (superclass : Option String) (interfaces : List String)
    (isInterface : Bool) : Complains (r.resolveParents name superclass interfaces isInterface) := by
  unfold Registry.resolveParents
  cases superclass <;> infer_instance

instance (name : String) (superclass : Option String) (interfaces : List String)
    (isInterface : Bool) : Complains (r.define name superclass interfaces isInterface) := by
  unfold Registry.define
  have hfault : (Fault.internal ("class " ++ name ++ " defined twice")).IsComplaint := by
    rw [String.append_assoc]
    exact Fault.isComplaint_of_start _ _ (by decide)
  infer_instance

end Registry

instance (site : CallSite) : Complains site.receiver := by
  unfold CallSite.receiver
  have hfault : (Fault.internal ("intrinsic " ++ site.node.describe ++
      " needs an explicit receiver")).IsComplaint := by
    rw [String.append_assoc]
    exact Fault.isComplaint_of_start _ _ (by decide)
  split <;> infer_instance

instance (site : CallSite) : Complains site.operand := by
  unfold CallSite.operand
  have hfault := Fault.isComplaint_of_text "binary intrinsic called without an operand" (by decide)
  split <;> infer_instance

namespace Context

variable (ctx : Context)

instance (node : Node) : Complains (ctx.typeOf node) :=
  inferInstanceAs (Complains (ctx.types.typeOf node))

instance (t : Ty) : Complains (ctx.superclassName t) := by
  unfold Context.superclassName
  infer_instance

instance (receiver : Ty) (name : String) (args : List Node) :
    Complains (ctx.lookup receiver name args) := by
  unfold Context.lookup
  have hfound : ∀ types : List Ty, Complains (match
      ctx.registry.resolve? ctx.members receiver name types with
      | some m => (pure m : Except Fault Member)
      | none => throw (.missingMethod receiver.display name (types.map Ty.display))) := by
    intro types
    split <;> infer_instance
  infer_instance

end Context

end Complains

end ClassBackend
