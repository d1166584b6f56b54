import ClassBackend.Proofs.Layout.Elements

/-!
# Arguments can be converted

The cost of passing an argument and the code that converts it are found by two
case distinctions. Where there is a cost, there is code, and it always runs: it
widens a number, boxes it, or does nothing (`Registry.convertible_of_cost`). A
box is made by the library, unless a loaded class bears the name of the wrapper.
-/

namespace ClassBackend

open Machine

/-- A type that values have: not `void`, no sentinel of an error or of dead code,
and no class under the name of a primitive. -/
def Ty.hasValues : Ty → Bool
  | .void | .error _ | .unreachable => false
  | .object name => Registry.validName name
  | _ => true

def Kind.Holds : Kind → Value → Prop
  | .int, .int _ | .long, .long _ | .float, .float _ | .double, .double _ => True
  | .ref, .null | .ref, .ref _ => True
  | _, _ => False

/-- The second number is the first one at a type that is at least as wide. -/
inductive Machine.Value.Widens : Value → Value → Prop
  | refl (v : Value) : Widens v v
  | intLong (n : Int32) : Widens (.int n) (.long n.toInt64)
  | intFloat (n : Int32) : Widens (.int n) (.float (.ofFloat32 n.toFloat32))
  | intDouble (n : Int32) : Widens (.int n) (.double (.ofFloat n.toFloat))
  | longFloat (n : Int64) : Widens (.long n) (.float (.ofFloat32 n.toFloat32))
  | longDouble (n : Int64) : Widens (.long n) (.double (.ofFloat n.toFloat))
  | floatDouble (x : Single) : Widens (.float x) (.double x.toDouble)

/-- The value belongs to the primitive type, so far as a conversion may depend on
it. -/
def Primitive.Contains (p : Primitive) (value : Value) : Prop :=
  p = .byte → ∃ n : Int8, value = .int n.toInt32

/-- What a conversion makes of a value on a machine. -/
def Ty.Converts (source target : Ty) (value : Value) (m : Machine) (value' : Value)
    (m' : Machine) : Prop :=
  match source.primitive?, target.primitive? with
  | some p, some _ => m' = m ∧ (p.Contains value → value.Widens value')
  | some _, none => value' = .ref m.heap.size ∧ m' = m.box source value
  | none, _ => value' = value ∧ m' = m

/-- The code turns any value of the source type into one of the target type, and
leaves the operands below alone. -/
def Ty.RunsTo (source target : Ty) (code : List Instruction) : Prop :=
  ∀ call limit a m value stack, (∀ kind ∈ source.stackKind?, kind.Holds value) →
    a.stack = value :: stack → (target.primitive? = none → m.Boxes source) →
    ∃ value' m', Runs call limit code a m { a with stack := value' :: stack } m' ∧
      (∀ kind ∈ target.stackKind?, kind.Holds value') ∧ source.Converts target value m value' m'

theorem Ty.eq_ref_of_stackKind? {t : Ty} {kind : Kind} (ht : t.primitive? = none)
    (h : kind ∈ t.stackKind?) : kind = .ref := by
  cases t <;> cases h <;> first | rfl | cases ht

theorem Ty.stackKind?_of_primitive? {t : Ty} (ht : t.primitive? = none)
    (hvoid : t.isVoid = false) : t.stackKind? = some .ref := by
  cases t with
  | void => cases hvoid
  | prim => cases ht
  | _ => rfl

theorem Ty.eq_prim_of_primitive? {t : Ty} {p : Primitive} (h : t.primitive? = some p) :
    t = .prim p := by
  cases t <;> cases h
  rfl

namespace Primitive

variable {p q : Primitive}

theorem ofName?_name (p : Primitive) : ofName? p.name = some p := by cases p <;> decide

theorem eq_of_same {t : Ty} (ht : t.hasValues = true) (h : (Ty.prim p).same t = true) :
    t = .prim p := by
  simp only [Ty.same, Bool.and_eq_true, beq_iff_eq] at h
  have hname : ofName? t.name = some p := h.1 ▸ p.ofName?_name
  cases t with
  | prim q => rw [Option.some.inj ((ofName?_name q).symm.trans hname)]
  | object name =>
    simp only [Ty.hasValues, Registry.validName, Bool.and_eq_true, Option.isNone_iff_eq_none] at ht
    exact absurd (hname.symm.trans ht.1.2) (Option.some_ne_none p)
  | array component =>
    have hlast : p.name.toList.getLast? = (component.name ++ "[]").toList.getLast? :=
      congrArg (·.toList.getLast?) h.1
    rw [String.toList_append, List.getLast?_append] at hlast
    cases p <;> cases hlast
  | metaOf base => cases h.2
  | null | block => cases hname
  | _ => cases ht

/-- A conversion to a wider type is a single instruction, or none where the kind
stays the same. -/
theorem convertCode_of_widensTo (h : p.widensTo q = true) :
    (p.convertCode q = [] ∧ Kind.ofPrimitive p = Kind.ofPrimitive q) ∨
      (p ≠ q ∧ ∃ start, p.convertCode q = [.convert start q]) := by
  revert h
  cases p <;> cases q <;> simp [widensTo, convertCode, stackType, Kind.ofPrimitive]

theorem checkcast_notMem_convertCode (p q : Primitive) (name : String) :
    .checkcast name ∉ p.convertCode q := by
  cases p <;> cases q <;> simp [convertCode, stackType]

theorem toShort_toInt32 (b : Int8) : toShort b.toInt32 = b.toInt32 := by
  simp [toShort]

theorem convert_of_widensTo {value : Value} (h : p.widensTo q = true) (hne : p ≠ q)
    (hvalue : (Kind.ofPrimitive p).Holds value) :
    ∃ value', Machine.convert value q = .ok value' ∧ (Kind.ofPrimitive q).Holds value' ∧
      (p.Contains value → value.Widens value') := by
  have hother : Kind.Holds (.ofPrimitive p) value → p.widensTo q = true → p ≠ q → q ∉ [short, int,
      long, float, double] → False := by cases p <;> cases q <;> simp [widensTo]
  cases value with
  | int n =>
    cases q with
    | int => exact ⟨_, rfl, trivial, fun _ => .refl _⟩
    | long => exact ⟨_, rfl, trivial, fun _ => .intLong n⟩
    | float => exact ⟨_, rfl, trivial, fun _ => .intFloat n⟩
    | double => exact ⟨_, rfl, trivial, fun _ => .intDouble n⟩
    | short =>
      obtain rfl : p = .byte := by cases p <;> simp_all [widensTo]
      refine ⟨_, rfl, trivial, fun hrange => ?_⟩
      obtain ⟨b, hb⟩ := hrange rfl
      cases hb
      rw [convertInt, toShort_toInt32]
      exact .refl _
    | _ => exact absurd (hother hvalue h hne (by decide)) id
  | long n =>
    cases q with
    | float => exact ⟨_, rfl, trivial, fun _ => .longFloat n⟩
    | double => exact ⟨_, rfl, trivial, fun _ => .longDouble n⟩
    | _ => cases p <;> simp_all [widensTo, Kind.ofPrimitive, stackType, Kind.Holds]
  | float x =>
    cases q with
    | double => exact ⟨_, rfl, trivial, fun _ => .floatDouble x⟩
    | _ => cases p <;> simp_all [widensTo, Kind.ofPrimitive, stackType, Kind.Holds]
  | _ => cases p <;> cases q <;> simp_all [widensTo, Kind.ofPrimitive, stackType, Kind.Holds]

theorem runsTo_convertCode (h : p.widensTo q = true) :
    Ty.RunsTo (.prim p) (.prim q) (p.convertCode q) := by
  intro call limit a m value stack hvalue hstack _
  have hkind : (Kind.ofPrimitive p).Holds value := hvalue _ rfl
  rcases convertCode_of_widensTo h with ⟨hcode, hsame⟩ | ⟨hne, start, hcode⟩
  · rw [hcode]
    refine ⟨value, m, hstack ▸ .nil a m, ?_, rfl, fun _ => .refl value⟩
    rintro _ ⟨⟩
    rwa [← hsame]
  · obtain ⟨value', hconvert, hkind', hwidens⟩ := convert_of_widensTo h hne hkind
    rw [hcode]
    refine ⟨value', m, .perform ?_ rfl rfl (.nil _ _), ?_, rfl, hwidens⟩
    · exact Act.then_ok (Act.pop_ok hstack) (Act.then_ok (Act.attempt_ok hconvert) rfl)
    · rintro _ ⟨⟩
      exact hkind'

end Primitive

namespace Registry

variable {r : Registry} {param arg : Ty}

theorem runsTo_boxCode (p : Primitive) (h : param.primitive? = none) :
    Ty.RunsTo (.prim p) param (Ty.prim p).boxCode := by
  intro call limit a m value stack _ hstack hboxes
  refine ⟨.ref m.heap.size, _, .perform (perform_box (hboxes h p rfl) hstack) rfl rfl (.nil _ _),
    ?_, ?_⟩
  · rintro kind hkind
    rw [Ty.eq_ref_of_stackKind? h hkind]
    trivial
  · rw [Ty.Converts, h]
    exact ⟨rfl, rfl⟩

theorem runsTo_nil (hparam : param.primitive? = none) (harg : arg.primitive? = none)
    (hvoid : arg.isVoid = false) : Ty.RunsTo arg param [] := by
  intro call limit a m value stack hvalue hstack _
  have hkind : Kind.ref.Holds value := hvalue _ (Ty.stackKind?_of_primitive? harg hvoid)
  refine ⟨value, m, hstack ▸ .nil a m, fun kind h => ?_, ?_⟩
  · rwa [Ty.eq_ref_of_stackKind? hparam h]
  · rw [Ty.Converts, harg]
    exact ⟨rfl, rfl⟩

theorem not_assignable (harg : arg.hasValues = true) (hne : arg.same param = false)
    (hprim : (param.isPrimitive || arg.isPrimitive) = true) : r.assignable param arg = false := by
  have hvalues : (arg.isError || arg.isUnreachable) = false :=
    by cases arg <;> first | rfl | cases harg
  have hnull : (!param.isPrimitive && arg.isNull) = false := by
    cases arg <;> cases param <;> first | rfl | cases hprim
  have hblock : arg.isBlock = true → r.isInterface param = false := by
    intro h
    cases arg with
    | block => cases param <;> first | rfl | cases hprim
    | _ => cases h
  unfold assignable
  cases r.heightBound * (param.arrayDepth + 1) with
  | zero => rfl
  | succ n =>
    unfold assignableWithin
    rw [if_neg (by simp [hnull]), if_neg (by simp [hne]), if_neg (by simp [hvalues]), if_pos hprim]
    split
    · exact hblock ‹_›
    · rfl

theorem same_comm (t u : Ty) : t.same u = u.same t := by
  rw [Ty.same, Ty.same, Bool.beq_comm, Bool.beq_comm (a := t.isMeta)]

theorem convertible_of_cost (hparam : param.hasValues = true) (harg : arg.hasValues = true)
    (h : (r.conversionCost? param arg).isSome) :
    ∃ code, r.conversionCode arg param = .ok code ∧ (∀ name, .checkcast name ∉ code) ∧
      arg.RunsTo param code := by
  have hvoid : arg.isVoid = false := by cases arg <;> first | rfl | cases harg
  cases hsame : param.same arg with
  | true =>
    have hcode : r.conversionCode arg param = .ok [] := by
      rw [conversionCode, if_pos (by simp [Ty.standsFor, same_comm arg, hsame])]
    refine ⟨[], hcode, by simp, ?_⟩
    cases param with
    | prim p =>
      rw [Primitive.eq_of_same harg hsame]
      have hnone : p.convertCode p = [] := by cases p <;> rfl
      have hruns := Primitive.runsTo_convertCode (p := p) (q := p) (by simp [Primitive.widensTo])
      rwa [hnone] at hruns
    | _ =>
      refine runsTo_nil rfl ?_ hvoid
      cases arg with
      | prim p => cases Primitive.eq_of_same hparam (same_comm _ _ ▸ hsame)
      | _ => rfl
  | false =>
    have hstands : arg.standsFor param = false := by
      cases arg <;> cases param <;>
        simp_all [Ty.standsFor, same_comm, Ty.hasValues, Ty.isVoid, Ty.isUnreachable, Ty.isError]
    have hassign : _ → r.assignable param arg = false :=
      not_assignable harg (same_comm _ _ ▸ hsame)
    simp only [conversionCost?, hsame, Bool.false_eq_true, if_false] at h
    simp only [conversionCode, hstands, Bool.false_eq_true, if_false]
    cases hp : param.primitive? with
    | some q =>
      obtain rfl : param = .prim q := Ty.eq_prim_of_primitive? hp
      rw [hassign rfl] at h
      cases ha : arg.primitive? with
      | some p =>
        obtain rfl : arg = .prim p := Ty.eq_prim_of_primitive? ha
        have hwidens : p.widensTo q = true := by simpa [hp, ha] using h
        exact ⟨_, rfl, p.checkcast_notMem_convertCode q, Primitive.runsTo_convertCode hwidens⟩
      | none => simp [hp, ha] at h
    | none =>
      cases ha : arg.primitive? with
      | some p =>
        obtain rfl : arg = .prim p := Ty.eq_prim_of_primitive? ha
        exact ⟨_, rfl, by simp [Ty.boxCode, ha, Instruction.call], runsTo_boxCode p hp⟩
      | none =>
        have hassignable : r.assignable param arg = true := by
          simpa [hp, ha] using h
        refine ⟨[], by simp [hassignable], by simp, runsTo_nil hp ha hvoid⟩

end Registry

/-- An argument that a parameter accepts at some cost is converted by code that
casts nothing and always runs. -/
theorem Context.cost_convertible (ctx : Context) {param arg : Ty} (hparam : param.hasValues = true)
    (harg : arg.hasValues = true) (h : (ctx.registry.conversionCost? param arg).isSome) :
    ∃ code, (∀ σ frame, σ.frame = some frame → ctx.convert arg param σ =
        .ok () { σ with frame := some { frame with body := frame.body.emitAll code } }) ∧
      (∀ name, .checkcast name ∉ code) ∧ arg.RunsTo param code := by
  obtain ⟨code, hcode, hcast, hruns⟩ := Registry.convertible_of_cost hparam harg h
  refine ⟨code, fun σ frame hframe => ?_, hcast, hruns⟩
  unfold convert
  split
  · rename_i hstands
    rw [Registry.conversionCode, if_pos hstands] at hcode
    cases hcode
    show EStateM.Result.ok () σ = _
    simp only [Assembler.emitAll, List.foldl_nil]
    rw [← hframe]
  · rw [hcode]
    refine Emit.frame_bind_eq_ok.2 ⟨frame, hframe, Emit.ofExcept_bind_eq_ok.2 ⟨code, rfl, ?_⟩⟩
    show Emit.assembling (fun body => ((), body.emitAll code)) σ = _
    exact Emit.assembling_eq_ok.2 ⟨frame, hframe, rfl, rfl⟩

theorem Context.boxed_convertible :
    (mixedList.bareContext.registry.conversionCost? .rootClass .int).isSome = true ∧
    ∃ code, (∀ σ frame, σ.frame = some frame → mixedList.bareContext.convert .int .rootClass σ =
        .ok () { σ with frame := some { frame with body := frame.body.emitAll code } }) ∧
      (∀ name, .checkcast name ∉ code) ∧ Ty.int.RunsTo .rootClass code := by
  have hcost : (mixedList.bareContext.registry.conversionCost? .rootClass .int).isSome = true := by
    decide +kernel
  exact ⟨hcost, mixedList.bareContext.cost_convertible (by decide) rfl hcost⟩

/-- A class of the script bears the name of a wrapper, and a number is passed where
an object is expected. -/
def shadowDemo : Program := .ofBuild do
  let wrapper ← Build.node (.classDef {
    name := "java.lang.Integer", superclass := none, interfaces := [], isInterface := false,
    body := [] }) none none
  let shown ← Build.node (.localAccess "x") (some .rootClass) none
  let print ← Build.node (.print true [shown]) none none
  let x ← Build.argument "x" .rootClass none
  let f ← Build.node (.methodDef {
    name := "f", args := [x], body := some print, isStatic := true, throws := [], notes := [] })
    (some .void) none
  let five ← Build.node (.fixnum 5) (some Ty.int) none
  let call ← Build.node (.selfCall "f" [five]) (some .void) none
  Build.node (.script [wrapper, f, call]) none none

/-- The conversion fails, although it has a cost. -/
theorem shadowDemo_unboxed : shadowDemo.registry.conversionCost? .rootClass .int = some 2 ∧
    ∃ compiled, shadowDemo.compile.1 = .ok compiled ∧
      (compiled.machine.runMain 100 "Demo" []).1 = .error (.noSuchMethod "java/lang/Integer"
        "valueOf" "(I)Ljava/lang/Integer;") ∧
      (compiled.machine.runMain 100 "Demo" []).2.output = "" :=
  ⟨by decide +kernel, Program.ends_of_eval (by decide +kernel)⟩

end ClassBackend
