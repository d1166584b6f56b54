import ClassBackend.Proofs.Layout.Elements
import ClassBackend.Proofs.Machine.Lasting

/-!
# List literals as values

The code of a list literal makes a list that can grow, adds the boxed value of each
element to it as soon as there is one, and ends by freezing the list. So what it leaves
on the stack is a list of exactly its boxed elements, in order
(`Context.Emits.makesList`). No action changes such a list any more
(`Machine.values_last`).
-/

namespace ClassBackend

open Emit Machine

/-- The code that adds a boxed element to the list below it. -/
def fillCode (_ : Ty) : List Instruction :=
  [.call .interface "java/util/List" "add" "(Ljava/lang/Object;)Z", .pop]

/-- The code that makes a list for some elements. -/
def newListCode (size : Nat) : List Instruction :=
  [.new "java/util/ArrayList", .dup, .iconst (Int32.ofNat size),
    .call .special "java/util/ArrayList" "<init>" "(I)V"]

namespace Machine

/-- No loaded class stands for a class that list literals use. -/
structure LeavesLists (m : Machine) : Prop where
  list : m.isLoaded "java/util/ArrayList" = false
  frozen : m.isLoaded freeze.owner = false
  boxes : ∀ p : Primitive, m.isLoaded p.wrapperInternal = false

/-- The value of a type as an object on the heap: a primitive is in a box. -/
def Boxed (m : Machine) (t : Ty) (value item : Value) : Prop :=
  match t.primitive? with
  | some p => ∃ address : Address, item = .ref address ∧
    m.heap[address]? = some (.boxed p.wrapperInternal value)
  | none => item = value

/-- What boxing a value leaves on the stack. -/
def boxed (m : Machine) (t : Ty) (value : Value) : Value :=
  match t.primitive? with
  | some _ => .ref m.heap.size
  | none => value

/-- The machine with another item in a list of some items. -/
def fill (m : Machine) (list : Address) (items : Array Value) (item : Value) : Machine :=
  { m with heap := m.heap.setIfInBounds list (.list (items.push item) true) }

variable {m m' : Machine} {call : MethodCall} {limit : Nat} {a : Activation} {list : Address}
  {items : Array Value} {stack : Stack} {value item : Value} {t : Ty}

theorem LeavesLists.of_classes (h : m.LeavesLists) (hclasses : m'.classes = m.classes) :
    m'.LeavesLists := by
  have hsame : ∀ name, m'.isLoaded name = m.isLoaded name := fun name => by
    simp only [isLoaded, class?, hclasses]
  exact ⟨hsame _ ▸ h.list, hsame _ ▸ h.frozen, fun p => hsame _ ▸ h.boxes p⟩

theorem findMethod?_of_not_loaded {className : String} (h : m.isLoaded className = false)
    (name descriptor : String) : m.findMethod? className name descriptor = none := by
  have hnone : m.class? className = none := by simpa [isLoaded] using h
  simp [findMethod?, lineage, lineageWithin, hnone]

theorem classes_box : (m.box t value).classes = m.classes := by
  unfold box
  split <;> rfl

/-- Boxing leaves what is on the heap. -/
theorem getElem?_box {address : Address} {object : Object} (h : m.heap[address]? = some object) :
    (m.box t value).heap[address]? = some object := by
  unfold box
  split
  · obtain ⟨hlt, hobject⟩ := Array.getElem?_eq_some_iff.1 h
    exact (Array.getElem?_push_lt hlt).trans (congrArg some hobject)
  · exact h

theorem boxed_fill (hlist : m.heap[list]? = some (.list items true)) :
    ((m.box t value).fill list items (m.boxed t value)).Boxed t value (m.boxed t value) := by
  have hlt := (Array.getElem?_eq_some_iff.1 hlist).1
  unfold Boxed boxed box fill
  cases t.primitive? with
  | none => rfl
  | some p =>
    refine ⟨m.heap.size, rfl, ?_⟩
    rw [Array.getElem?_setIfInBounds_ne (by omega), Array.getElem?_push_size]

theorem Boxed.keep (h : m.Boxed t value item) (hkeeps : m.KeepsValues m') :
    m'.Boxed t value item := by
  unfold Boxed at h ⊢
  split at h
  · obtain ⟨address, hitem, hobject⟩ := h
    exact ⟨address, hitem, hkeeps.values address _ hobject rfl⟩
  · exact h

/-! ## The instructions of a literal -/

theorem runs_box (hboxes : m.Boxes t) (hstack : a.stack = value :: stack)
    {is : List Instruction} {a' : Activation}
    (hrest : Runs call limit is { a with stack := m.boxed t value :: stack } (m.box t value)
      a' m') : Runs call limit (t.boxCode ++ is) a m a' m' := by
  cases t with
  | prim p => exact .perform (perform_box (hboxes p rfl) hstack) rfl rfl hrest
  | _ =>
    have hsame : { a with stack := value :: stack } = a := by rw [← hstack]
    exact hsame ▸ hrest

theorem perform_dup (hstack : a.stack = .ref list :: stack) :
    perform call limit .dup a m = .ok ((), { a with stack := .ref list :: a.stack }) m := by
  refine Act.reshape_ok ?_
  rw [hstack]
  simp [Stack.dupWords, Stack.takeWords, Value.words, Value.isWide]

theorem perform_add (hlimit : 0 < limit) (hlists : m.LeavesLists)
    (hlist : m.heap[list]? = some (.list items true))
    (hstack : a.stack = item :: .ref list :: stack) :
    perform call limit (.call .interface "java/util/List" "add" "(Ljava/lang/Object;)Z") a m =
      .ok ((), { a with stack := .int 1 :: stack }) (m.fill list items item) := by
  obtain ⟨limit, rfl⟩ := Nat.exists_eq_succ_of_ne_zero hlimit.ne'
  have hargs : a.stack.takeEntries 1 = some ([item], .ref list :: stack) := by
    rw [hstack]
    simp [Stack.takeEntries]
  have hfind : m.findMethod? (Object.list items true).className "add" "(Ljava/lang/Object;)Z" =
      none := findMethod?_of_not_loaded hlists.list _ _
  have hcall : callInstance call (limit + 1) .interface
      ⟨"java/util/List", "add", "(Ljava/lang/Object;)Z"⟩ (.ref list) [item] m =
        .ok (some (.int 1)) (m.fill list items item) := by
    refine Run.then_ok rfl (Run.then_ok rfl (Run.then_ok (Run.object_ok hlist)
      (Run.then_ok rfl (Run.then_ok rfl ?_))))
    rw [hfind]
    exact Run.then_ok rfl (Run.then_ok (Run.object_ok hlist) rfl)
  exact Act.then_ok (Act.attempt_ok rfl) (Act.then_ok (Act.popArgs_ok hargs)
    (Act.then_ok (Act.pop_ok rfl) (Act.then_ok (Act.lift_eq_ok.2 ⟨hcall, rfl⟩) rfl)))

/-- The boxed value of an element is added to the list below it. -/
theorem runs_fill (call : MethodCall) (hlimit : 0 < limit) (hlists : m.LeavesLists)
    (hlist : m.heap[list]? = some (.list items true))
    (hstack : a.stack = value :: .ref list :: stack) :
    Runs call limit (t.boxCode ++ fillCode t) a m { a with stack }
      ((m.box t value).fill list items (m.boxed t value)) := by
  refine runs_box (fun p _ => hlists.boxes p) hstack (.perform (perform_add hlimit
    (hlists.of_classes classes_box) (getElem?_box hlist) rfl) rfl rfl ?_)
  exact .perform (perform_pop rfl) rfl rfl (.nil _ _)

theorem runs_newList (call : MethodCall) (hlimit : 0 < limit) (hlists : m.LeavesLists) {size : Nat}
    (hsize : size < 2147483648) :
    Runs call limit (newListCode size) a m { a with stack := .ref m.heap.size :: a.stack }
      { m with heap := m.heap.push (.list #[] true) } := by
  obtain ⟨limit, rfl⟩ := Nat.exists_eq_succ_of_ne_zero hlimit.ne'
  have hnew : instantiate call "java/util/ArrayList" m = .ok (.ref m.heap.size)
      { m with heap := m.heap.push (.list #[] true) } := by
    refine Run.then_ok rfl ?_
    rw [hlists.list]
    rfl
  have hlists' : LeavesLists { m with heap := m.heap.push (.list #[] true) } :=
    hlists.of_classes rfl
  have hfind := findMethod?_of_not_loaded hlists'.list "<init>" "(I)V"
  have hcapacity : ¬ Int32.ofNat size < 0 := by
    rw [Int32.lt_iff_toInt_lt, Int32.toInt_ofNat_of_lt hsize]
    simp
  have hobject : (m.heap.push (.list #[] true))[m.heap.size]? = some (.list #[] true) :=
    Array.getElem?_push_size
  have hconstruct : ∀ owner, construct m.heap.size owner "(I)V" [.int (Int32.ofNat size)]
      { m with heap := m.heap.push (.list #[] true) } =
        .ok () { m with heap := m.heap.push (.list #[] true) } := fun owner => by
    refine Run.then_ok (Run.object_ok hobject) (Run.then_ok rfl ?_)
    rw [if_neg hcapacity]
    rfl
  have hinit : callInstance call (limit + 1) .special
      ⟨"java/util/ArrayList", "<init>", "(I)V"⟩ (.ref m.heap.size) [.int (Int32.ofNat size)]
      { m with heap := m.heap.push (.list #[] true) } =
        .ok none { m with heap := m.heap.push (.list #[] true) } := by
    refine Run.then_ok rfl (Run.then_ok rfl (Run.then_ok rfl (Run.then_ok rfl ?_)))
    rw [hfind]
    exact Run.then_ok rfl (Run.then_ok (hconstruct _) rfl)
  refine .perform (Act.then_ok (Act.lift_eq_ok.2 ⟨hnew, rfl⟩) rfl) rfl rfl
    (.perform (perform_dup rfl) rfl rfl (.perform rfl rfl rfl (.perform ?_ rfl rfl (.nil _ _))))
  have hargs : Stack.takeEntries 1 (.int (Int32.ofNat size) :: .ref m.heap.size ::
      .ref m.heap.size :: a.stack) = some ([.int (Int32.ofNat size)],
        .ref m.heap.size :: .ref m.heap.size :: a.stack) := by
    simp [Stack.takeEntries]
  exact Act.then_ok (Act.attempt_ok rfl) (Act.then_ok (Act.popArgs_ok hargs)
    (Act.then_ok (Act.pop_ok rfl) (Act.then_ok (Act.lift_eq_ok.2 ⟨hinit, rfl⟩) rfl)))

theorem perform_freeze (call : MethodCall) (limit : Nat) (hlists : m.LeavesLists)
    (hlist : m.heap[list]? = some (.list items true)) (hstack : a.stack = .ref list :: stack) :
    perform call limit (.invoke .static freeze) a m =
      .ok ((), { a with stack := .ref m.heap.size :: stack })
        { m with heap := m.heap.push (.list items false) } := by
  have hargs : a.stack.takeEntries 1 = some ([.ref list], stack) := by
    rw [hstack]
    simp [Stack.takeEntries]
  exact Act.then_ok (Act.attempt_ok rfl) (Act.then_ok (Act.popArgs_ok hargs)
    (Act.then_ok (Act.lift_eq_ok.2 ⟨callStatic_freeze hlist hlists.frozen call, rfl⟩) rfl))

end Machine

/-! ## The code of a literal -/

namespace Context

/-- The elements are evaluated in order. The list stands below each of them, which
leaves it as it was and puts its value on the stack; the boxed value is then the next
item of the list. -/
inductive Fills (call : MethodCall) (limit : Nat) (method : MethodInfo) (list : Address) :
    List ElementPart → List (Ty × Value) → Config → Config → Prop
  | nil (c : Config) : Fills call limit method list [] [] c c
  | cons {part : ElementPart} {parts : List ElementPart} {values : List (Ty × Value)}
    {c e c' : Config} {value : Value} {items : Array Value} :
    Reaches call limit method ⟨(part.enter [.dup]).offset,
      { c.activation with stack := .ref list :: c.activation.stack }, c.machine⟩ e →
    e.index = part.finish.offset →
    e.activation.stack = value :: .ref list :: c.activation.stack →
    c.machine.heap[list]? = some (.list items true) →
    e.machine.heap[list]? = some (.list items true) →
    Fills call limit method list parts values ⟨(part.next fillCode).offset,
      { e.activation with stack := c.activation.stack },
      (e.machine.box part.ty value).fill list items (e.machine.boxed part.ty value)⟩ c' →
    Fills call limit method list (part :: parts) ((part.ty, value) :: values) c c'

variable {ctx : Context} {method : MethodInfo} {parts : List ElementPart} {s t : Draft}
  {limit depth : Nat} {list : Address} {values : List (Ty × Value)} {c c' : Config}

/-- Where all elements have been evaluated, the list has their boxed values behind the
items it had before. -/
theorem Fills.reaches
    (hfills : Fills (Machine.callMethod limit depth) limit method list parts values c c')
    (h : EmitsElements [.dup] fillCode ctx parts s t) (hmethod : method.Extends s t)
    (hlimit : 0 < limit) (hlists : c.machine.LeavesLists) (hc : c.index = s.offset)
    {stack : Stack} (hstack : c.activation.stack = .ref list :: stack) {items : Array Value}
    (hlist : c.machine.heap[list]? = some (.list items true)) :
    Reaches (Machine.callMethod limit depth) limit method c c' ∧ c'.index = t.offset ∧
      c'.activation.stack = c.activation.stack ∧ ∃ added : List Value,
        c'.machine.heap[list]? = some (.list (items ++ added.toArray) true) ∧
        List.Forall₂ (fun x item => c'.machine.Boxed x.1 x.2 item) values added := by
  induction hfills generalizing s items with
  | nil c =>
    cases h
    exact ⟨.refl, hc, rfl, [], by simpa using hlist, .nil⟩
  | @cons part parts values c e c' value items' hreach hindex htop hbefore hafter _ ih =>
    obtain rfl : items = items' := by simpa [hlist] using hbefore
    cases h with
    | cons hty hvalue hrest =>
      obtain ⟨index, a, m⟩ := c
      obtain ⟨index', a', m'⟩ := e
      obtain rfl : index = part.start.offset := hc
      obtain rfl : index' = part.finish.offset := hindex
      have hentered : Reaches (Machine.callMethod limit depth) limit method
          ⟨part.start.offset, a, m⟩
          ⟨(part.enter [.dup]).offset, { a with stack := .ref list :: a.stack }, m⟩ := by
        obtain ⟨_, _, hlaid⟩ := hvalue.laid
        have hbehind : Grows [] (part.start.body.emitAll [.dup]) _ :=
          hlaid.grows.trans ((Grows.emitAll _ part.finish.body _).trans hrest.grows)
        have hdup : Runs (Machine.callMethod limit depth) limit [.dup] a m
            { a with stack := .ref list :: a.stack } m :=
          .perform (perform_dup hstack) rfl rfl (.nil _ _)
        have hpast := hdup.reaches fun n i hi => hmethod.emitAll (x := part.start) hbehind hi
        simpa [ElementPart.enter] using hpast
      have hlists' : m'.LeavesLists := hlists.of_classes hreach.becomes.1
      have hfilled : Reaches (Machine.callMethod limit depth) limit method
          ⟨part.finish.offset, a', m'⟩
          ⟨(part.next fillCode).offset, { a' with stack := a.stack },
            (m'.box part.ty value).fill list items (m'.boxed part.ty value)⟩ := by
        have hpast := (runs_fill (Machine.callMethod limit depth) hlimit hlists' hafter
          htop).reaches fun n i hi => hmethod.emitAll (x := part.finish) hrest.grows hi
        simpa [ElementPart.next] using hpast
      have hlists'' : LeavesLists
          ((m'.box part.ty value).fill list items (m'.boxed part.ty value)) :=
        hlists'.of_classes classes_box
      have hroom : list < (m'.box part.ty value).heap.size :=
        (Array.getElem?_eq_some_iff.1 (getElem?_box hafter)).1
      obtain ⟨hlast, hend, hsame, added, hitems, hadded⟩ := ih hrest
        (hmethod.rest (EmitsElements.grows_next hvalue).size)
        hlists'' rfl hstack (Array.getElem?_setIfInBounds_self_of_lt hroom)
      refine ⟨((hentered.trans hreach).trans hfilled).trans hlast, hend, hsame,
        m'.boxed part.ty value :: added, ?_, .cons ?_ hadded⟩
      · rw [hitems]
        simp
      · exact (boxed_fill hafter).keep hlast.becomes.keepsValues

/-- The code of a literal, and what it leaves on the stack when its elements have been
evaluated: a list of their boxed values, in order, that cannot grow. -/
structure MakesList (ctx : Context) (method : MethodInfo) (limit depth : Nat)
    (elements : List Node) (parts : List ElementPart) (s last t : Draft) : Prop where
  inOrder : parts.map ElementPart.element = elements
  emitted : EmitsElements [.dup] fillCode ctx parts
    (s.edit (·.emitAll (newListCode elements.length))) last
  frozen : t = last.edit (·.emitAll [.invoke .static freeze])
  made : ∀ c values c', c.index = s.offset → c.machine.LeavesLists → 0 < limit →
    elements.length < 2147483648 →
    Fills (Machine.callMethod limit depth) limit method c.machine.heap.size parts values
      ⟨(s.edit (·.emitAll (newListCode elements.length))).offset,
        { c.activation with stack := .ref c.machine.heap.size :: c.activation.stack },
        { c.machine with heap := c.machine.heap.push (.list #[] true) }⟩ c' →
    ∃ (address : Address) (items : List Value) (e : Config),
      Reaches (Machine.callMethod limit depth) limit method c e ∧ e.index = t.offset ∧
      e.activation.stack = .ref address :: c.activation.stack ∧
      e.machine.heap[address]? = some (.list items.toArray false) ∧
      List.Forall₂ (fun x item => e.machine.Boxed x.1 x.2 item) values items

theorem Emits.listParts {node : Node} {elements : List Node} (h : ctx.Emits node true s t)
    (hkind : node.kind = .array elements) :
    ∃ first last parts, SameCode s first ∧ parts.map ElementPart.element = elements ∧
      EmitsElements [.dup] fillCode ctx parts
        (first.edit (·.emitAll (newListCode elements.length))) last ∧
      t = last.edit (·.emitAll [.invoke .static freeze]) := by
  obtain ⟨depth, σ, σ', hemit, hs, ht⟩ := h
  cases depth with
  | zero => exact absurd hemit throw_ne_ok
  | succ depth =>
    obtain ⟨_, τ, henter, hrun⟩ := bind_eq_ok.1 hemit
    obtain ⟨first, hτ, hfirst⟩ := enter_draft henter hs
    simp only [hkind] at hrun
    obtain ⟨_, τ₁, hnew, hrun⟩ := bind_eq_ok.1 hrun
    obtain ⟨_, τ₂, helements, hfreeze⟩ := bind_eq_ok.1 hrun
    have hdup : ∀ {σ u σ' s}, Emit.instruction .dup σ = .ok u σ' → σ.draft? = some s →
        σ'.draft? = some (s.edit (·.emitAll [.dup])) := fun h hs => assemble_draft h hs
    replace helements : (elements.forM fun element => do
      let ty ← ctx.nodeType element
      Emit.instruction .dup
      (ctx.recursion depth).emit element true
      Emit.code (ty.boxCode ++ fillCode ty)) τ₁ = .ok _ τ₂ := helements
    obtain ⟨parts, last, hτ₂, hparts, hemits⟩ :=
      elements_parts hdup (assemble_draft hnew hτ) helements
    cases ht.symm.trans (assemble_draft hfreeze hτ₂)
    exact ⟨first, last, parts, sameCode_of_entered hfirst, hparts, hemits, rfl⟩

theorem Emits.makesList {node : Node} {elements : List Node} (h : ctx.Emits node true s t)
    (hkind : node.kind = .array elements) (hmethod : method.Extends s t) (limit depth : Nat) :
    ∃ first last parts, SameCode s first ∧
      ctx.MakesList method limit depth elements parts first last t := by
  obtain ⟨first, last, parts, hfirst, hparts, hemits, rfl⟩ := h.listParts hkind
  refine ⟨first, last, parts, hfirst, hparts, hemits, rfl,
    fun c values c' hindex hlists hlimit hsize hfills => ?_⟩
  obtain ⟨index, a, m⟩ := c
  obtain rfl : index = first.offset := hindex
  have hend : Grows [] last.body (last.edit (·.emitAll [.invoke .static freeze])).body :=
    Grows.emitAll _ _ _
  have hmethod' : method.Extends first (last.edit (·.emitAll [.invoke .static freeze])) :=
    hmethod.rest hfirst.labels.ge
  have hnew : Reaches (Machine.callMethod limit depth) limit method ⟨first.offset, a, m⟩
      ⟨(first.edit (·.emitAll (newListCode elements.length))).offset,
        { a with stack := .ref m.heap.size :: a.stack },
        { m with heap := m.heap.push (.list #[] true) }⟩ := by
    have hpast := (runs_newList (Machine.callMethod limit depth) (a := a) hlimit hlists
      hsize).reaches fun n i hi => hmethod'.emitAll (x := first) (hemits.grows.trans hend) hi
    simpa using hpast
  obtain ⟨hfilled, hlast, hstack, added, hlist, hadded⟩ := hfills.reaches hemits
    (hmethod'.inner (by simp) hend) hlimit (hlists.of_classes rfl) rfl rfl
    Array.getElem?_push_size
  obtain ⟨index', a', m'⟩ := c'
  obtain rfl : index' = last.offset := hlast
  have hlists' : m'.LeavesLists := hlists.of_classes (hfilled.becomes.1.trans hnew.becomes.1)
  have hfreeze := (Runs.perform (perform_freeze (Machine.callMethod limit depth) limit hlists'
    hlist hstack) rfl rfl (.nil _ _)).reaches fun n i hi =>
      hmethod'.emitAll (x := last) (.refl [] _) hi
  refine ⟨m'.heap.size, added, _, (hnew.trans hfilled).trans hfreeze, by simp, rfl, ?_,
    hadded.imp fun x item hboxed => hboxed.keep hfreeze.becomes.keepsValues⟩
  simp

end Context

namespace Machine

/-! ## All runs -/

/-- No instruction, no call of a method of the library or of a loaded class, and no
rest of a run changes a value on the heap, the length or the type of an array, or
the class of an instance, whether it returns, throws or fails. A list literal leaves
an unmodifiable list of its boxed elements, in order, and adding to such a list throws
unless a loaded class has the method. -/
theorem values_last (m : Machine) (limit depth : Nat) :
    (∀ i a, m.KeepsValues (Run.finish (step (callMethod limit depth) limit i a) m)) ∧
    (∀ c method args, m.KeepsValues (Run.finish (callMethod limit depth c method args) m)) ∧
    (∀ method args,
      m.KeepsValues (Run.finish (callStatic (callMethod limit depth) method args) m)) ∧
    (∀ n kind method receiver args, m.KeepsValues
      (Run.finish (callInstance (callMethod limit depth) n kind method receiver args) m)) ∧
    (∀ method n index a,
      m.KeepsValues (Run.finish (runFrom (callMethod limit depth) limit method n index a) m)) ∧
    (∀ (ctx : Context) node elements s t (method : MethodInfo), ctx.Emits node true s t →
      node.kind = .array elements → method.Extends s t → ∃ first last parts,
        Context.SameCode s first ∧
        ctx.MakesList method limit depth elements parts first last t) ∧
    (∀ (address : Address) items isMutable, m.heap[address]? = some (.list items isMutable) →
      m.isLoaded freeze.owner = false →
      callStatic (callMethod limit depth) freeze [.ref address] m =
        .ok (some (.ref m.heap.size)) { m with heap := m.heap.push (.list items false) }) ∧
    (∀ (address : Address) items, m.heap[address]? = some (.list items false) →
      ∀ n kind (method : MemberRef) value, method.name = "add" →
        m.findMethod? (lookedUp kind method) "add" method.descriptor = none →
        ∃ exception m',
          callInstance (callMethod limit depth) (n + 1) kind method (.ref address) [value] m =
            .error (.thrown exception) m' ∧ m'.heap[exception]? = some unsupported) := by
  have hcall := callMethod_contained m limit depth
  refine ⟨fun i a => (Act.Contained.step hcall limit (fun _ _ => False.elim) a).keepsValues,
    fun c method args =>
      Run.Contained.keepsValues (Run.Starts.callAny _ limit depth c method args),
    fun method args => (Run.Contained.callStatic hcall False.elim args).keepsValues,
    fun n kind method receiver args =>
      (Run.Contained.callInstance hcall n kind False.elim receiver args).keepsValues,
    fun method n index a => (Run.Contained.runFrom hcall (.lax _ method) limit n a
      False.elim).keepsValues,
    fun ctx node elements s t method hemits hkind hmethod =>
      hemits.makesList hkind hmethod limit depth,
    fun address items isMutable hlist hloaded => callStatic_freeze hlist hloaded _,
    fun address items hlist n kind method value hname hfind =>
      callInstance_add hlist hname hfind _ n value⟩

/-- A class file under the name of unmodifiable lists, with a method that accepts
everything. -/
def openList : ClassFile where
  name := "java/util/Collections$UnmodifiableList"
  superclass := some "java/lang/Object"
  access := Access.publicFlag
  methods :=
    [{ name := "add", descriptor := "(Ljava/lang/Object;)Z", access := Access.publicFlag
       code := #[.iconst 1, .ret (some .int)], labels := #[], exceptionTable := [], lines := []
       locals := [], maxLocals := 2, exceptions := [], annotations := [] }]

/-- A loaded class may stand in for the class of unmodifiable lists. -/
theorem openList_adds : ∃ m', callInstance (callMethod 2 1) 1 .interface
      { owner := "java/util/List", name := "add", descriptor := "(Ljava/lang/Object;)Z" } (.ref 0)
      [.null] (Machine.load { heap := #[.list #[] false] } openList) = .ok (some (.int 1)) m' :=
  ⟨_, rfl⟩

end Machine

end ClassBackend
