import ClassBackend.Proofs.Layout.Part

/-!
# List literals as statements

A list literal whose value is not wanted still boxes each element, and then
discards it as a value of the element's type. A boxed value is one word, so this
is right for types of one word only (`Ty.discard?_eq_self_iff`): a wide element
takes another operand from the stack with it, or fails if there is none, and an
element without a value leaves the null that stands for it.
-/

namespace ClassBackend

open Emit Machine

/-- What is left of the stack below a value that has been boxed and discarded. -/
def Ty.discard? (t : Ty) (value : Value) (stack : Stack) : Option Stack :=
  if t.isVoid then some (value :: stack) else if t.isWide then stack.tail? else some stack

theorem Ty.discard?_eq_self_iff {t : Ty} {value : Value} {stack : Stack} :
    t.discard? value stack = some stack ↔ t.isVoid = false ∧ t.isWide = false := by
  unfold discard?
  cases t.isVoid with
  | true => simp
  | false =>
    cases t.isWide with
    | true => cases stack <;> simp
    | false => simp

/-- No loaded class stands for the one that boxes values of a type. -/
def Machine.Boxes (m : Machine) (t : Ty) : Prop :=
  ∀ p, t.primitive? = some p → m.isLoaded p.wrapperInternal = false

def Machine.box (m : Machine) (t : Ty) (value : Value) : Machine :=
  match t.primitive? with
  | some p => { m with heap := m.heap.push (.boxed p.wrapperInternal value) }
  | none => m

section

variable {call : MethodCall} {limit : Nat} {a : Activation} {m : Machine} {value : Value}
  {stack left : Stack}

/-- Two words on top of which there is a reference are this and one more operand. -/
theorem Machine.Stack.dropWords_two (address : Address) (stack : Stack) :
    Stack.dropWords 2 (.ref address :: stack) = stack.tail? := by
  cases stack with
  | nil => rfl
  | cons under rest => cases under <;> simp [dropWords, takeWords, Value.words, Value.isWide]

theorem Machine.callStatic_valueOf {p : Primitive} (h : m.isLoaded p.wrapperInternal = false)
    (descriptor : String) :
    callStatic call ⟨p.wrapperInternal, "valueOf", descriptor⟩ [value] m =
      .ok (some (.ref m.heap.size))
        { m with heap := m.heap.push (.boxed p.wrapperInternal value) } := by
  refine Run.then_ok (rfl : (get : Run Machine) m = .ok m m) ?_
  rw [if_neg (by simp [h])]
  have hwrapped : (wrapped? p.wrapperInternal).isSome = true := by cases p <;> decide
  have hlibrary : callLibraryStatic p.wrapperInternal "valueOf" descriptor [value] =
      some <$> Run.allocate (.boxed p.wrapperInternal value) := by
    simp [callLibraryStatic, hwrapped]
  rw [hlibrary]
  rfl

theorem Machine.perform_box {p : Primitive} (h : m.isLoaded p.wrapperInternal = false)
    (hstack : a.stack = value :: stack) :
    perform call limit (.call .static p.wrapperInternal "valueOf"
      ("(" ++ String.singleton p.descriptor ++ ")L" ++ p.wrapperInternal ++ ";")) a m =
      .ok ((), { a with stack := .ref m.heap.size :: stack }) (m.box (.prim p) value) := by
  have hparams : ∃ param, paramDescriptors ("(" ++ String.singleton p.descriptor ++ ")L" ++
      p.wrapperInternal ++ ";") = .ok [param] := by
    cases p <;> exact ⟨_, rfl⟩
  obtain ⟨param, hparams⟩ := hparams
  have hargs : a.stack.takeEntries 1 = some ([value], stack) := by
    rw [hstack]
    simp [Stack.takeEntries]
  refine Act.then_ok (Act.attempt_ok hparams) (Act.then_ok (Act.popArgs_ok hargs)
    (Act.then_ok (Act.lift_eq_ok.2 ⟨callStatic_valueOf h _, rfl⟩) ?_))
  cases p <;> rfl

theorem Machine.perform_pop (hstack : a.stack = value :: stack) :
    perform call limit .pop a m = .ok ((), { a with stack }) m :=
  Run.then_ok (Act.pop_ok hstack) rfl

theorem Machine.runs_discard {t : Ty} (hboxes : m.Boxes t) (hstack : a.stack = value :: stack)
    (hleft : t.discard? value stack = some left) :
    Runs call limit (t.boxCode ++ t.popCode) a m { a with stack := left } (m.box t value) := by
  cases t with
  | void =>
    cases hleft
    rw [← hstack]
    exact .nil _ _
  | prim p =>
    refine .perform (perform_box (hboxes p rfl) hstack) rfl rfl ?_
    have hcode : (Ty.prim p).popCode = if p.isWide then [.pop2] else [.pop] := rfl
    have hdiscard : (Ty.prim p).discard? value stack =
      if p.isWide then stack.tail? else some stack := rfl
    rw [hdiscard] at hleft
    rw [hcode]
    cases hwide : p.isWide with
    | true =>
      rw [hwide, if_pos rfl] at hleft
      exact .perform (Act.reshape_ok ((Stack.dropWords_two _ _).trans hleft)) rfl rfl (.nil _ _)
    | false =>
      rw [hwide, if_neg Bool.false_ne_true] at hleft
      cases hleft
      exact .perform (perform_pop rfl) rfl rfl (.nil _ _)
  | _ =>
    cases hleft
    exact .perform (perform_pop hstack) rfl rfl (.nil _ _)

/-- A wide value on an empty stack cannot be discarded once it has been boxed. -/
theorem Machine.fails_discard (call : MethodCall) (limit : Nat) {t : Ty} (hboxes : m.Boxes t)
    (hstack : a.stack = value :: stack) (hleft : t.discard? value stack = none) :
    ∃ i a' m', t.boxCode ++ t.popCode = [i, .pop2] ∧ Runs call limit [i] a m a' m' ∧
      step call limit .pop2 a' m' = .error (.fatal (.stackUnderflow a.method)) m' := by
  cases t with
  | prim p =>
    have hdiscard : (Ty.prim p).discard? value stack =
      if p.isWide then stack.tail? else some stack := rfl
    have hcode : (Ty.prim p).popCode = if p.isWide then [.pop2] else [.pop] := rfl
    rw [hdiscard] at hleft
    cases hwide : p.isWide with
    | true =>
      rw [hwide, if_pos rfl] at hleft
      obtain rfl : stack = [] := by cases stack <;> simp at hleft ⊢
      rw [hcode, hwide]
      exact ⟨_, _, _, rfl, .perform (perform_box (hboxes p rfl) hstack) rfl rfl (.nil _ _), rfl⟩
    | false => simp [hwide] at hleft
  | _ => cases hleft

end

namespace Context

/-- An element of a list literal, its type, and the drafts around the code that
puts its value on the stack. -/
structure ElementPart where
  element : Node
  ty : Ty
  start : Draft
  finish : Draft

section

variable (before : List Instruction) (after : Ty → List Instruction)

/-- Where the code of the element itself starts. -/
def ElementPart.enter (part : ElementPart) : Draft := part.start.edit (·.emitAll before)

/-- Where the value of the element has been boxed and used. -/
def ElementPart.next (part : ElementPart) : Draft :=
  part.finish.edit (·.emitAll (part.ty.boxCode ++ after part.ty))

/-- The elements were emitted one after the other, each with some code before it, and
with code behind it that uses its boxed value. -/
inductive EmitsElements (ctx : Context) : List ElementPart → Draft → Draft → Prop
  | nil (s : Draft) : EmitsElements ctx [] s s
  | cons {part : ElementPart} {parts : List ElementPart} {t : Draft} :
    ctx.typeOf part.element = .ok part.ty →
    ctx.Emits part.element true (part.enter before) part.finish →
    EmitsElements ctx parts (part.next after) t → EmitsElements ctx (part :: parts) part.start t

end

variable {ctx : Context} {method : MethodInfo} {parts : List ElementPart} {part : ElementPart}
  {s t : Draft} {call : MethodCall} {limit : Nat} {before : List Instruction}
  {after : Ty → List Instruction}

theorem elements_parts {depth : Nat} {elements : List Node} {enter : Emit Unit}
    (henter : ∀ {σ u σ' s}, enter σ = .ok u σ' → σ.draft? = some s →
      σ'.draft? = some (s.edit (·.emitAll before)))
    {σ σ' : Emission} {u : PUnit} (hs : σ.draft? = some s)
    (h : (elements.forM fun element => do
      let ty ← ctx.nodeType element
      enter
      (ctx.recursion depth).emit element true
      Emit.code (ty.boxCode ++ after ty)) σ = .ok u σ') :
    ∃ parts t, σ'.draft? = some t ∧ parts.map ElementPart.element = elements ∧
      EmitsElements before after ctx parts s t := by
  induction elements generalizing σ s with
  | nil =>
    obtain rfl := (pure_eq_ok.1 h).2
    exact ⟨[], s, hs, rfl, .nil _⟩
  | cons element elements ih =>
    obtain ⟨_, τ, hone, hrest⟩ := bind_eq_ok.1 h
    obtain ⟨ty, hty, hone⟩ := ofExcept_bind_eq_ok.1 hone
    obtain ⟨_, τ₁, hbefore, hone⟩ := bind_eq_ok.1 hone
    obtain ⟨_, τ', hvalue, hafter⟩ := bind_eq_ok.1 hone
    have hτ₁ := henter hbefore hs
    obtain ⟨finish, _, _, hτ', -⟩ := (lays_recursion ctx depth).emit element true hvalue hτ₁
    obtain ⟨parts, t, ht, rfl, hparts⟩ := ih (assemble_draft hafter hτ') hrest
    exact ⟨⟨element, ty, s, finish⟩ :: parts, t, ht, rfl,
      .cons hty ⟨depth, τ₁, τ', hvalue, hτ₁, hτ'⟩ hparts⟩

theorem Emits.elements {node : Node} {elements : List Node} (h : ctx.Emits node false s t)
    (hkind : node.kind = .array elements) :
    ∃ first parts, SameCode s first ∧ parts.map ElementPart.element = elements ∧
      EmitsElements [] Ty.popCode ctx parts first t := by
  obtain ⟨depth, σ, σ', hemit, hs, ht⟩ := h
  cases depth with
  | zero => exact absurd hemit throw_ne_ok
  | succ depth =>
    obtain ⟨_, τ, hmark, hrun⟩ := bind_eq_ok.1 hemit
    obtain ⟨first, hτ, hfirst⟩ := enter_draft hmark hs
    simp only [hkind] at hrun
    replace hrun : (elements.forM fun element => do
      let ty ← ctx.nodeType element
      pure PUnit.unit
      (ctx.recursion depth).emit element true
      Emit.code (ty.boxCode ++ ty.popCode)) τ = .ok () σ' := hrun
    have hnothing : ∀ {σ u σ' s}, (pure PUnit.unit : Emit Unit) σ = .ok u σ' →
        σ.draft? = some s → σ'.draft? = some (s.edit (·.emitAll [])) :=
      fun h hs => (pure_eq_ok.1 h).2 ▸ hs
    obtain ⟨parts, t', ht', hparts⟩ := elements_parts hnothing hτ hrun
    cases ht.symm.trans ht'
    exact ⟨first, parts, sameCode_of_entered hfirst, hparts⟩

namespace EmitsElements

theorem grows_next (hvalue : ctx.Emits part.element true (part.enter before) part.finish) :
    Grows [] part.start.body (part.next after).body := by
  obtain ⟨_, _, hlaid⟩ := hvalue.laid
  exact ((Grows.emitAll _ part.start.body _).trans hlaid.grows).trans
    (Grows.emitAll _ part.finish.body _)

theorem grows (h : EmitsElements before after ctx parts s t) : Grows [] s.body t.body := by
  induction h with
  | nil => exact .refl _ _
  | cons _ hvalue _ ih => exact (grows_next hvalue).trans ih

theorem grows_behind (h : EmitsElements before after ctx parts s t) (hpart : part ∈ parts) :
    Grows [] (part.next after).body t.body := by
  induction h with
  | nil => cases hpart
  | cons _ _ hrest ih =>
    rcases List.mem_cons.1 hpart with rfl | hpart
    · exact hrest.grows
    · exact ih hpart

section

variable (h : EmitsElements [] Ty.popCode ctx parts s t) (hmethod : method.Extends s t)
  (hpart : part ∈ parts) {c : Config} {value : Value} {stack : Stack}
  (hindex : c.index = part.finish.offset)
  (hstack : c.activation.stack = value :: stack) (hboxes : c.machine.Boxes part.ty)
include h hmethod hpart hindex hstack hboxes

theorem reaches_next {left : Stack} (hleft : part.ty.discard? value stack = some left) :
    Reaches call limit method c ⟨(part.next Ty.popCode).offset, { c.activation with stack := left },
      c.machine.box part.ty value⟩ := by
  obtain ⟨index, a, m⟩ := c
  obtain rfl := hindex
  have hoffset : (part.next Ty.popCode).offset =
      part.finish.offset + (part.ty.boxCode ++ part.ty.popCode).length := by
    simp [ElementPart.next]
  rw [hoffset]
  exact (runs_discard hboxes hstack hleft).reaches fun n i hi =>
    hmethod.emitAll (h.grows_behind hpart) hi

theorem reaches_underflow (hleft : part.ty.discard? value stack = none) :
    ∃ c', Reaches call limit method c c' ∧ method.code[c'.index]? = some .pop2 ∧
      step call limit .pop2 c'.activation c'.machine =
        .error (.fatal (.stackUnderflow c.activation.method)) c'.machine := by
  obtain ⟨index, a, m⟩ := c
  obtain rfl := hindex
  obtain ⟨i, a', m', hcode, hruns, hfails⟩ := fails_discard call limit hboxes hstack hleft
  have hbehind : Grows [] (part.finish.body.emitAll [i, .pop2]) t.body :=
    hcode ▸ h.grows_behind hpart
  refine ⟨_, hruns.reaches fun n j hj => ?_, hmethod.emitAll hbehind rfl, hfails⟩
  cases n with
  | zero => exact hmethod.emitAll hbehind hj
  | succ n => cases hj

end

end EmitsElements

/-- The elements are evaluated in order: control comes to the end of each with its
value on the stack, and the value is boxed and discarded. -/
inductive Evaluates (call : MethodCall) (limit : Nat) (method : MethodInfo) :
    List ElementPart → Config → Config → Prop
  | nil (c : Config) : Evaluates call limit method [] c c
  | cons {part : ElementPart} {parts : List ElementPart} {c e c' : Config} {value : Value}
    {left : Stack} :
    Reaches call limit method c e → e.index = part.finish.offset →
    e.activation.stack = value :: c.activation.stack → e.machine.Boxes part.ty →
    part.ty.discard? value c.activation.stack = some left →
    Evaluates call limit method parts
      ⟨(part.next Ty.popCode).offset, { e.activation with stack := left },
      e.machine.box part.ty value⟩ c' →
    Evaluates call limit method (part :: parts) c c'

theorem Evaluates.reaches {c c' : Config} (hruns : Evaluates call limit method parts c c')
    (h : EmitsElements [] Ty.popCode ctx parts s t) (hmethod : method.Extends s t)
    (hc : c.index = s.offset) :
    Reaches call limit method c c' ∧ c'.index = t.offset ∧
      ((∀ part ∈ parts, part.ty.isVoid = false ∧ part.ty.isWide = false) →
        c'.activation.stack = c.activation.stack) := by
  induction hruns generalizing s with
  | nil c =>
    cases h
    exact ⟨.refl, hc, fun _ => rfl⟩
  | @cons part parts c e c' value left hreach hindex hstack hboxes hleft _ ih =>
    have hnext : Reaches call limit method e _ :=
      h.reaches_next hmethod List.mem_cons_self hindex hstack hboxes hleft
    cases h with
    | cons hty hvalue hrest =>
      obtain ⟨hlast, hend, hsame⟩ := ih hrest
        (hmethod.rest (EmitsElements.grows_next hvalue).size) rfl
      refine ⟨(hreach.trans hnext).trans hlast, hend, fun hplain => ?_⟩
      rw [hsame fun part hpart => hplain part (List.mem_cons_of_mem _ hpart)]
      exact Option.some.inj (hleft.symm.trans
        (Ty.discard?_eq_self_iff.2 (hplain part List.mem_cons_self)))

/-- What the code of the elements does to the stack. Each leaves it as it was,
unless it has a wide value or none. -/
structure DiscardsElements (ctx : Context) (method : MethodInfo) (call : MethodCall) (limit : Nat)
    (parts : List ElementPart) (s t : Draft) : Prop where
  emitted : EmitsElements [] Ty.popCode ctx parts s t
  evaluated : ∀ c c', Evaluates call limit method parts c c' → c.index = s.offset →
    Reaches call limit method c c' ∧ c'.index = t.offset ∧
      ((∀ part ∈ parts, part.ty.isVoid = false ∧ part.ty.isWide = false) →
        c'.activation.stack = c.activation.stack)
  discarded : ∀ part ∈ parts, ∀ c value stack, c.index = part.finish.offset →
    c.activation.stack = value :: stack → c.machine.Boxes part.ty →
    (∀ left, part.ty.discard? value stack = some left → Reaches call limit method c
      ⟨(part.next Ty.popCode).offset, { c.activation with stack := left },
        c.machine.box part.ty value⟩) ∧
    (part.ty.discard? value stack = none → ∃ c', Reaches call limit method c c' ∧
      method.code[c'.index]? = some .pop2 ∧ step call limit .pop2 c'.activation c'.machine =
        .error (.fatal (.stackUnderflow c.activation.method)) c'.machine)
  neutral : ∀ part ∈ parts, ∀ value stack, part.ty.discard? value stack = some stack ↔
    part.ty.isVoid = false ∧ part.ty.isWide = false

theorem Emits.elements_discarded {node : Node} {elements : List Node}
    (h : ctx.Emits node false s t) (hkind : node.kind = .array elements)
    (hmethod : method.Extends s t) (call : MethodCall) (limit : Nat) :
    ∃ first parts, SameCode s first ∧ parts.map ElementPart.element = elements ∧
      ctx.DiscardsElements method call limit parts first t := by
  obtain ⟨first, parts, hfirst, hparts, hemits⟩ := h.elements hkind
  have hmethod' : method.Extends first t := hmethod.rest hfirst.labels.ge
  refine ⟨first, parts, hfirst, hparts, hemits, fun c c' hruns => hruns.reaches hemits hmethod',
    fun part hpart c value stack hindex hstack hboxes => ⟨fun left hleft => ?_, fun hleft => ?_⟩,
    fun _ _ _ _ => Ty.discard?_eq_self_iff⟩
  · exact hemits.reaches_next hmethod' hpart hindex hstack hboxes hleft
  · exact hemits.reaches_underflow hmethod' hpart hindex hstack hboxes hleft

/-- A list literal with an element without a value, a wide one, and a plain one. -/
def mixedList : Program := .ofBuild do
  let print ← Build.node (.print true []) none none
  let wide ← Build.node (.fixnum 1) (some (.prim .long)) none
  let plain ← Build.node (.fixnum 2) (some Ty.int) none
  Build.node (.array [print, wide, plain]) none none

theorem mixedList_discarded : ∃ s t method elements,
    mixedList.bareContext.Emits mixedList.script false s t ∧
    mixedList.script.kind = .array elements ∧ MethodInfo.Extends method s t ∧
    ∀ call limit, ∃ first parts, SameCode s first ∧ parts.map ElementPart.element = elements ∧
      mixedList.bareContext.DiscardsElements method call limit parts first t := by
  obtain ⟨s, t, method, hemits, hmethod⟩ := exists_includes_of_emitAlone? mixedList.bareContext
    mixedList.script false (by decide +kernel)
  exact ⟨s, t, method, _, hemits, rfl, hmethod.continued,
    hemits.elements_discarded rfl hmethod.continued⟩

end Context

def wideListDemo : Program := .ofBuild do
  let wide ← Build.node (.fixnum 1) (some (.prim .long)) none
  let list ← Build.node (.array [wide]) none none
  Build.node (.script [list]) none none

theorem wideListDemo_underflows : ∃ compiled, wideListDemo.compile.1 = .ok compiled ∧
    (compiled.machine.runMain 100 "Demo" []).1 =
      .error (.stackUnderflow "Demo.main([Ljava/lang/String;)V") ∧
    (compiled.machine.runMain 100 "Demo" []).2.output = "" :=
  Program.ends_of_eval (by decide +kernel)

end ClassBackend
