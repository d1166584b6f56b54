import ClassBackend.Proofs.Machine.Contained

/-!
# Values of the library

Texts, boxed primitives, class objects, patterns and unmodifiable lists are values:
no instruction and no call, however it ends, changes one that is on the heap. Of
other objects it may change the fields, the elements and the text, but not the
class of an instance and not the length of an array. All of this is read off what
actions keep of an object (`Object.lasting`).

Adding to an unmodifiable list raises an exception, as long as no loaded class
stands in for the class of these lists.
-/

namespace ClassBackend.Machine

variable {α : Type}

/-- The machine in which an action ends, with a result or without. -/
def Run.finish (x : Run α) (m : Machine) : Machine :=
  match x m with
  | .ok _ m' => m'
  | .error _ m' => m'

/-- Texts, boxes, class objects, patterns, the print stream and lists that cannot
grow. -/
def Object.isValue : Object → Bool
  | .text _ | .boxed .. | .classObject _ | .pattern _ | .printStream | .list _ false => true
  | _ => false

/-- The objects on the heap are still there: values as they were, arrays with their
length and the type of their elements, instances with their class. -/
structure KeepsValues (m m' : Machine) : Prop where
  values : ∀ (address : Address) (object : Object), m.heap[address]? = some object →
    object.isValue = true → m'.heap[address]? = some object
  arrays : ∀ (address : Address) (component : String) (items : Array Value),
    m.heap[address]? = some (.array component items) →
      ∃ items', m'.heap[address]? = some (.array component items') ∧ items'.size = items.size
  instances : ∀ (address : Address) (className : String) (fields : List (String × Value)),
    m.heap[address]? = some (.inst className fields) →
      ∃ fields', m'.heap[address]? = some (.inst className fields')

theorem Object.eq_of_lasting {object later : Object} (h : object.isValue = true)
    (hlasting : later.lasting = object.lasting) : later = object := by
  have hsame : object.lasting = object := by
    cases object with
    | list items isMutable =>
      cases isMutable with
      | true => cases h
      | false => rfl
    | text | boxed | classObject | pattern | printStream => rfl
    | _ => cases h
  rw [hsame] at hlasting
  cases later with
  | list items isMutable =>
    cases isMutable with
    | true => rw [← hlasting] at h; cases h
    | false => exact hlasting
  | text | boxed | classObject | pattern | printStream => exact hlasting
  | _ => rw [← hlasting] at h; cases h

variable {m : Machine}

theorem Becomes.keepsValues {W : Regime} {m' : Machine} (h : m.Becomes W [] m') :
    m.KeepsValues m' := by
  have hlater : ∀ (address : Address) (object : Object), m.heap[address]? = some object →
      ∃ later, m'.heap[address]? = some later ∧ later.lasting = object.lasting :=
    fun address object hobject => h.2.1 address object ⟨object, hobject, rfl⟩
  refine ⟨fun address object hobject hvalue => ?_, fun address component items hobject => ?_,
    fun address className fields hobject => ?_⟩
  · obtain ⟨later, hheap, hlasting⟩ := hlater address object hobject
    rwa [Object.eq_of_lasting hvalue hlasting] at hheap
  · obtain ⟨later, hheap, hlasting⟩ := hlater _ _ hobject
    cases later with
    | array component' items' =>
      obtain ⟨rfl, hitems⟩ := Object.array.inj hlasting
      exact ⟨items', hheap, by simpa using congrArg Array.size hitems⟩
    | list items' isMutable => cases isMutable <;> cases hlasting
    | _ => cases hlasting
  · obtain ⟨later, hheap, hlasting⟩ := hlater _ _ hobject
    cases later with
    | inst className' fields' =>
      cases hlasting
      exact ⟨fields', hheap⟩
    | list items' isMutable => cases isMutable <;> cases hlasting
    | _ => cases hlasting

theorem Run.Contained.keepsValues {x : Run α} (h : Run.Contained (.lax m.classes) x) :
    m.KeepsValues (x.finish m) := by
  have hends := h rfl
  unfold Run.finish
  cases hrun : x m with
  | ok a m' =>
    rw [hrun] at hends
    exact hends.keepsValues
  | error unwind m' =>
    rw [hrun] at hends
    exact hends.1.keepsValues

/-! ## Unmodifiable lists -/

/-- The call that ends a list literal. -/
def freeze : MemberRef :=
  { owner := "java/util/Collections", name := "unmodifiableList"
    descriptor := "(Ljava/util/List;)Ljava/util/List;" }

/-- Freezing a list gives a fresh one that has its items and cannot grow. -/
theorem callStatic_freeze {address : Address} {items : Array Value} {isMutable : Bool}
    (hlist : m.heap[address]? = some (.list items isMutable))
    (hloaded : m.isLoaded freeze.owner = false) (call : MethodCall) :
    callStatic call freeze [.ref address] m =
      .ok (some (.ref m.heap.size)) { m with heap := m.heap.push (.list items false) } := by
  refine Run.then_ok (rfl : (get : Run Machine) m = .ok m m) ?_
  rw [hloaded]
  exact Run.then_ok (Run.then_ok rfl (Run.then_ok rfl (Run.then_ok (Run.object_ok hlist) rfl))) rfl

/-- The exception that adding to an unmodifiable list raises. -/
def unsupported : Object := throwable "java/lang/UnsupportedOperationException" .null

/-- The class in which a method of an unmodifiable list is looked up. -/
def lookedUp (kind : InvokeKind) (method : MemberRef) : String :=
  match kind with
  | .special => method.owner
  | _ => "java/util/Collections$UnmodifiableList"

theorem callInstance_add {address : Address} {items : Array Value}
    (hlist : m.heap[address]? = some (.list items false)) {kind : InvokeKind} {method : MemberRef}
    (hname : method.name = "add")
    (hfind : m.findMethod? (lookedUp kind method) "add" method.descriptor = none)
    (call : MethodCall) (depth : Nat) (value : Value) :
    ∃ exception m', callInstance call (depth + 1) kind method (.ref address) [value] m =
      .error (.thrown exception) m' ∧ m'.heap[exception]? = some unsupported := by
  obtain ⟨owner, name, descriptor⟩ := method
  obtain rfl : name = "add" := hname
  have hlibrary : ∀ virtual ancestor, ∃ exception m',
      callLibrary virtual depth address ancestor "add" descriptor [value] m =
        .error (.thrown exception) m' ∧ m'.heap[exception]? = some unsupported := fun _ _ =>
    ⟨m.heap.size, _, Run.then_ok (Run.object_ok hlist) rfl, Array.getElem?_push_size⟩
  unfold callInstance
  cases kind with
  | special =>
    obtain ⟨exception, m', hraise, hthrown⟩ := hlibrary _ _
    refine ⟨exception, m', Run.then_ok rfl (Run.then_ok rfl (Run.then_ok rfl
      (Run.then_ok rfl ?_))), hthrown⟩
    rw [show m.findMethod? owner "add" descriptor = none from hfind]
    exact Run.then_ok rfl hraise
  | _ =>
    obtain ⟨exception, m', hraise, hthrown⟩ := hlibrary _ _
    refine ⟨exception, m', Run.then_ok rfl (Run.then_ok rfl (Run.then_ok
      (Run.object_ok hlist) (Run.then_ok rfl (Run.then_ok rfl ?_)))), hthrown⟩
    rw [show m.findMethod? (Object.list items false).className "add" descriptor = none from hfind]
    exact Run.then_ok rfl hraise

/-! ## Control -/

theorem callMethod_contained (m : Machine) (limit depth : Nat) :
    (callMethod limit depth).Contained (.lax m.classes) :=
  fun c method args _ _ _ => .callAny _ limit depth c method args

/-- Control keeps the loaded classes, and objects as far as they last. -/
theorem Reaches.becomes {limit depth : Nat} {method : MethodInfo} {c c' : Config}
    (h : Reaches (callMethod limit depth) limit method c c') :
    c.machine.Becomes (.lax c.machine.classes) [] c'.machine := by
  have hstep : ∀ (m : Machine) i a, Run.Contained (.lax m.classes)
      (step (callMethod limit depth) limit i a) := fun m i a =>
    Act.Contained.step (callMethod_contained m limit depth) limit (fun _ _ => False.elim) a
  have hok : ∀ {m m' : Machine} {i a result}, step (callMethod limit depth) limit i a m =
      .ok result m' → m.Becomes (.lax m.classes) [] m' := fun {m m' i a result} hrun => by
    have hends := hstep m i a rfl
    rwa [hrun] at hends
  have hthrown : ∀ {m m' : Machine} {i a unwind}, step (callMethod limit depth) limit i a m =
      .error unwind m' → m.Becomes (.lax m.classes) [] m' := fun {m m' i a unwind} hrun => by
    have hends := hstep m i a rfl
    rw [hrun] at hends
    exact hends.1
  induction h with
  | refl => exact .refl _
  | @tail b c' _ hmove ih =>
    have hlast : b.machine.Becomes (.lax b.machine.classes) [] c'.machine := by
      rcases hmove with hgoes | ⟨_, hcatches⟩
      · cases hgoes with
        | next _ hrun => exact hok hrun
        | jump _ hrun _ => exact hok hrun
      · cases hcatches with
        | intro _ hrun _ => exact hthrown hrun
    rw [ih.1] at hlast
    exact ih.trans hlast

end ClassBackend.Machine
