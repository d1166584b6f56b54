import ClassBackend.Proofs.Machine.Rendering

/-!
# Equality of library objects

Library code compares texts and boxes by what they hold, lists item by item, and
other objects by identity. What an object counts as is its `content`, and comparing
two objects tells whether their contents are the same (`equal_iff_content`), so it
is an equivalence.
-/

namespace ClassBackend.Machine

variable {call : MethodCall} {depth n : Nat} {m : Machine} {address other : Address}
  {x y : Value}

def equalsMethod : MemberRef where
  owner := rootClass
  name := "equals"
  descriptor := "(Ljava/lang/Object;)Z"

/-- Null, or an object that no loaded class gives an `equals`, with lists nested at
most `n` deep. -/
def Comparable (m : Machine) : Nat → Value → Prop
  | _, .null => True
  | n + 1, .ref address => ∃ object, m.heap[address]? = some object ∧
    m.findMethod? object.className equalsMethod.name equalsMethod.descriptor = none ∧
    ∀ items isMutable, object = .list items isMutable → ∀ item ∈ items, m.Comparable n item
  | _, _ => False

/-- What a value stands for when values are compared. -/
inductive Content where
  | null
  | text (text : String)
  | boxed (className : String) (value : Value)
  | list (items : List Content)
  | object (address : Address)

/-- The content of a value, lists read at most `n` deep. A box that holds no number is
equal to itself only. -/
def content (m : Machine) : Nat → Value → Content
  | n + 1, .ref address =>
    match m.heap[address]? with
    | some (.text text) => .text text
    | some (.boxed className value) =>
      if value.samePrimitive value then .boxed className value else .object address
    | some (.list items _) => .list (items.toList.map (m.content n))
    | _ => .object address
  | _, _ => .null

@[simp] theorem content_null : m.content n .null = .null := by
  simp [content]

theorem Comparable.items {xs : Array Value} {b : Bool} (h : m.Comparable (n + 1) (.ref address))
    (hx : m.heap[address]? = some (.list xs b)) {i : Nat} (hi : xs[i]? = some x) :
    m.Comparable n x := by
  obtain ⟨object, hobject, -, hitems⟩ := h
  cases hobject.symm.trans hx
  exact hitems xs b rfl x (Array.mem_of_getElem? hi)

theorem samePrimitive_iff :
    x.samePrimitive y = true ↔ x = y ∧ x.samePrimitive x = true := by
  cases x <;> cases y <;> simp [Value.samePrimitive]

theorem content_eq_null_iff (h : m.Comparable n x) : m.content n x = .null ↔ x = .null := by
  cases x with
  | null => simp
  | ref address =>
    cases n with
    | zero => cases h
    | succ n =>
      simp only [content, reduceCtorEq, iff_false]
      grind
  | _ => cases n <;> cases h

/-! ## Running a comparison -/

theorem callOwn_equals {object : Object} (virtual : VirtualCall) (depth : Nat) :
    callOwn virtual depth address object equalsMethod.name equalsMethod.descriptor [y] m =
      .ok none m := by
  cases object with
  | boxed className value =>
    show (if (_ && false) = true then _ else _ : Run _) m = _
    rw [Bool.and_false]
    rfl
  | _ => rfl

theorem callLibrary_equals {object : Object} (h : m.heap[address]? = some object)
    {virtual : VirtualCall} {owner : String} {r : Bool}
    (hequals : objectEquals virtual address y m = .ok r m) :
    callLibrary virtual depth address owner equalsMethod.name equalsMethod.descriptor [y] m =
      .ok (some (.ofBool r)) m :=
  Run.then_ok (Run.object_ok h)
    (Run.then_ok (callOwn_equals virtual depth) (Run.then_ok hequals rfl))

/-- The comparison ends, changes nothing, and its answer is right. -/
def Answers (m : Machine) (run : Run Bool) (same : Prop) : Prop :=
  ∃ r, run m = .ok r m ∧ (r = true ↔ same)

theorem answers_elementsEqual {virtual : VirtualCall} {xs ys : List Value}
    (hlength : xs.length = ys.length)
    (h : ∀ p ∈ xs.zip ys,
      m.Answers (elementEquals virtual p.1 p.2) (m.content n p.1 = m.content n p.2)) :
    m.Answers (elementsEqual virtual (xs.zip ys))
      (xs.map (m.content n) = ys.map (m.content n)) := by
  induction xs generalizing ys with
  | nil =>
    obtain rfl := List.length_eq_zero_iff.1 hlength.symm
    exact ⟨true, rfl, by simp⟩
  | cons x xs ih =>
    obtain ⟨y, ys, rfl⟩ := List.exists_cons_of_length_eq_add_one hlength.symm
    obtain ⟨⟨r, hrun, hsame⟩, hrest⟩ := List.forall_mem_cons.1 h
    rw [List.map_cons, List.map_cons, List.cons.injEq, ← hsame]
    cases r with
    | false => exact ⟨false, Run.then_ok hrun rfl, by simp⟩
    | true =>
      obtain ⟨r, hrun', hsame'⟩ := ih (Nat.succ.inj hlength) hrest
      exact ⟨r, Run.then_ok hrun hrun', by simpa using hsame'⟩

theorem answers_objects {p q : Object} {virtual : VirtualCall} (hne : address ≠ other)
    (hp : m.heap[address]? = some p) (hq : m.heap[other]? = some q)
    (hitems : ∀ xs b ys b', p = .list xs b → q = .list ys b' → ∀ p ∈ xs.toList.zip ys.toList,
      m.Answers (elementEquals virtual p.1 p.2) (m.content n p.1 = m.content n p.2)) :
    m.Answers (objectEquals virtual address (.ref other))
      (m.content (n + 1) (.ref address) = m.content (n + 1) (.ref other)) := by
  have hrun : ∀ {compare : Object → Object → Run Bool} {result},
      objectEquals virtual address (.ref other) = (do
        if address == other then return true
        compare (← Run.object address) (← Run.object other)) →
      compare p q m = result → objectEquals virtual address (.ref other) m = result := by
    intro compare result hcompares hresult
    rw [hcompares, if_neg (by simpa using hne)]
    exact Run.then_ok (Run.object_ok hp) (Run.then_ok (Run.object_ok hq) hresult)
  rw [content, content, hp, hq]
  cases p with
  | text x =>
    cases q with
    | text y => exact ⟨_, hrun rfl rfl, by simp⟩
    | _ => exact ⟨false, hrun rfl rfl, by grind⟩
  | boxed c x =>
    cases q with
    | boxed d y =>
      refine ⟨_, hrun rfl rfl, ?_⟩
      have := @samePrimitive_iff x y
      grind
    | _ => exact ⟨false, hrun rfl rfl, by grind⟩
  | list xs b =>
    cases q with
    | list ys b' =>
      by_cases hsize : xs.size = ys.size
      · obtain ⟨r, helements, hpairs⟩ := answers_elementsEqual hsize (hitems xs b ys b' rfl rfl)
        refine ⟨r, hrun rfl ?_, ?_⟩
        · simpa [hsize] using helements
        · simpa using hpairs
      · refine ⟨false, hrun rfl ?_, nofun, fun h => absurd ?_ hsize⟩
        · simp only [beq_false_of_ne hsize]
          rfl
        · simpa using congrArg List.length (Content.list.inj h)
    | _ => exact ⟨false, hrun rfl rfl, by grind⟩
  | _ => exact ⟨false, hrun rfl rfl, by grind⟩

theorem answers_elementEquals (hx : m.Comparable n x) (hy : m.Comparable n y) (hdepth : n ≤ depth)
    (hobjects : ∀ {address depth}, m.Comparable n (.ref address) → n ≤ depth + 1 →
      m.Answers (objectEquals (virtualCall call depth) address y)
        (m.content n (.ref address) = m.content n y)) :
    m.Answers (elementEquals (virtualCall call depth) x y) (m.content n x = m.content n y) := by
  cases x with
  | null =>
    refine ⟨y.isNull, rfl, ?_⟩
    rw [content_null, @eq_comm _ Content.null, content_eq_null_iff hy]
    cases y <;> simp [Value.isNull]
  | ref address =>
    obtain _ | n := n
    · cases hx
    obtain _ | depth := depth
    · cases hdepth
    obtain ⟨r, hrun, hsame⟩ := hobjects hx hdepth
    obtain ⟨object, hobject, hfind, -⟩ := hx
    refine ⟨r, Run.then_ok ((callInstance_unanswered hobject hfind).trans
      (callLibrary_equals hobject hrun)) ?_, hsame⟩
    cases r <;> rfl
  | _ => cases n <;> cases hx

/-- A comparison that may call back as deep as the lists are nested ends with the
right answer. -/
theorem answers_objectEquals (call : MethodCall) (hx : m.Comparable n (.ref address))
    (hy : m.Comparable n y) (hdepth : n ≤ depth + 1) :
    m.Answers (objectEquals (virtualCall call depth) address y)
      (m.content n (.ref address) = m.content n y) := by
  induction n generalizing address y depth with
  | zero => cases hx
  | succ n ih =>
    cases y with
    | null =>
      rw [content_null, content_eq_null_iff hx]
      exact ⟨false, rfl, by simp⟩
    | ref other =>
      by_cases heq : address = other
      · subst heq
        refine ⟨true, Run.then_ok rfl ?_, iff_of_true rfl rfl⟩
        show (if (address == address) = true then pure true else _ : Run Bool) m = _
        rw [if_pos (beq_self_eq_true _)]
        rfl
      · obtain ⟨p, hp, -, hxs⟩ := hx
        obtain ⟨q, hq, -, hys⟩ := hy
        refine answers_objects heq hp hq fun xs b ys b' hlist hlist' pair hpair => ?_
        have hfirst := hxs xs b hlist _ (Array.mem_toList_iff.1 (List.of_mem_zip hpair).1)
        have hsecond := hys ys b' hlist' _ (Array.mem_toList_iff.1 (List.of_mem_zip hpair).2)
        exact answers_elementEquals hfirst hsecond (Nat.le_of_succ_le_succ hdepth)
          fun hobject hroom => ih hobject hsecond hroom
    | _ => cases hy

/-! ## Laws of the comparison -/

/-- Both are null, or library code finds the one object equal to the other. -/
def Equal (m : Machine) (call : MethodCall) (depth : Nat) : Value → Value → Prop
  | .null, .null => True
  | .ref address, .ref other =>
    objectEquals (virtualCall call depth) address (.ref other) m = .ok true m
  | _, _ => False

theorem equal_iff_content (hx : m.Comparable n x) (hy : m.Comparable n y)
    (hdepth : n ≤ depth + 1) : m.Equal call depth x y ↔ m.content n x = m.content n y := by
  cases x with
  | null =>
    rw [content_null, @eq_comm _ Content.null, content_eq_null_iff hy]
    cases y <;> simp [Equal]
  | ref address =>
    cases y with
    | null =>
      rw [content_null, content_eq_null_iff hx]
      simp [Equal]
    | ref other =>
      obtain ⟨r, hrun, hsame⟩ := answers_objectEquals call hx hy hdepth
      rw [Equal, hrun, ← hsame]
      simp
    | _ => cases n <;> cases hy
  | _ => cases n <;> cases hx

/-- Between objects that no loaded class gives an `equals`, comparing never fails, and
is an equivalence if it may call back as deep as the lists are nested. Lists are equal
if they are equally long and equal item by item, whether they can be changed or not. -/
theorem equal_equivalence (call : MethodCall) (hdepth : n ≤ depth + 1) :
    (∀ address y, m.Comparable n (.ref address) → m.Comparable n y →
      ∃ r, objectEquals (virtualCall call depth) address y m = .ok r m) ∧
    (∀ x, m.Comparable n x → m.Equal call depth x x) ∧
    (∀ x y, m.Comparable n x → m.Comparable n y →
      m.Equal call depth x y → m.Equal call depth y x) ∧
    (∀ x y z, m.Comparable n x → m.Comparable n y → m.Comparable n z →
      m.Equal call depth x y → m.Equal call depth y z → m.Equal call depth x z) ∧
    ∀ address other xs ys b b', m.Comparable n (.ref address) → m.Comparable n (.ref other) →
      m.heap[address]? = some (.list xs b) → m.heap[other]? = some (.list ys b') →
      (m.Equal call depth (.ref address) (.ref other) ↔ xs.size = ys.size ∧
        ∀ (i : Nat) (x y : Value), xs[i]? = some x → ys[i]? = some y →
          m.Equal call depth x y) := by
  refine ⟨fun address y hx hy => ?_, fun x hx => ?_, fun x y hx hy hxy => ?_,
    fun x y z hx hy hz hxy hyz => ?_, fun address other xs ys b b' hx hy hlist hlist' => ?_⟩
  · obtain ⟨r, hrun, -⟩ := answers_objectEquals call hx hy hdepth
    exact ⟨r, hrun⟩
  · exact (equal_iff_content hx hx hdepth).2 rfl
  · exact (equal_iff_content hy hx hdepth).2 ((equal_iff_content hx hy hdepth).1 hxy).symm
  · exact (equal_iff_content hx hz hdepth).2
      (((equal_iff_content hx hy hdepth).1 hxy).trans ((equal_iff_content hy hz hdepth).1 hyz))
  · obtain _ | n := n
    · cases hx
    have hitem : ∀ (i : Nat) (x y : Value), xs[i]? = some x → ys[i]? = some y →
        (m.Equal call depth x y ↔ m.content n x = m.content n y) := fun i x y hi hj =>
      equal_iff_content (hx.items hlist hi) (hy.items hlist' hj) (Nat.le_of_succ_le hdepth)
    rw [equal_iff_content hx hy hdepth, content, content, hlist, hlist']
    constructor
    · intro h
      have hmap := Content.list.inj h
      refine ⟨by simpa using congrArg List.length hmap, fun i x y hi hj => ?_⟩
      rw [hitem i x y hi hj]
      simpa [hi, hj] using congrArg (·[i]?) hmap
    · rintro ⟨hsize, hitems⟩
      refine congrArg _ (List.ext_getElem (by simpa using hsize) fun i hi hj => ?_)
      rw [List.length_map, Array.length_toList] at hi hj
      simpa using (hitem i _ _ (Array.getElem?_eq_getElem hi) (Array.getElem?_eq_getElem hj)).1
        (hitems i _ _ (Array.getElem?_eq_getElem hi) (Array.getElem?_eq_getElem hj))

/-- A class that takes the place of the library's texts and finds nothing equal. -/
def strangeText : ClassFile where
  name := "java/lang/String"
  superclass := some rootClass
  access := Access.publicFlag
  methods := [{
    name := "equals", descriptor := "(Ljava/lang/Object;)Z", access := Access.publicFlag
    code := #[.iconst 0, .ret (some .int)], labels := #[], exceptionTable := [], lines := []
    locals := [], maxLocals := 2, exceptions := [], annotations := [] }]

/-- Two equal texts, and a list of each. -/
def listDemo : Machine where
  heap := #[.text "a", .text "a", .list #[.ref 0] true, .list #[.ref 1] false]

/-- With a class of the texts' name loaded, the texts are equal and the lists are not. -/
theorem strangeText_differs : ∃ m',
    objectEquals (virtualCall (callMethod 3 1) 1) 0 (.ref 1) (listDemo.load strangeText) =
      .ok true (listDemo.load strangeText) ∧
    objectEquals (virtualCall (callMethod 3 1) 1) 2 (.ref 3) (listDemo.load strangeText) =
      .ok false m' :=
  ⟨_, rfl, rfl⟩

theorem listDemo_equal : listDemo.Comparable 2 (.ref 2) ∧ listDemo.Comparable 2 (.ref 3) ∧
    listDemo.Equal (callMethod 3 1) 1 (.ref 2) (.ref 3) := by
  have hitems : ∀ text : Address, listDemo.heap[text]? = some (.text "a") → ∀ xs b b',
      Object.list #[.ref text] b = .list xs b' → ∀ item ∈ xs, listDemo.Comparable 1 item := by
    rintro text htext xs b b' ⟨⟩ item hitem
    obtain rfl := Array.mem_singleton.1 hitem
    exact ⟨_, htext, rfl, nofun⟩
  have hfirst : listDemo.Comparable 2 (.ref 2) := ⟨_, rfl, rfl, fun xs => hitems 0 rfl xs true⟩
  have hsecond : listDemo.Comparable 2 (.ref 3) := ⟨_, rfl, rfl, fun xs => hitems 1 rfl xs false⟩
  obtain ⟨-, -, -, -, hlists⟩ :=
    equal_equivalence (m := listDemo) (callMethod 3 1) (Nat.le_refl 2 : 2 ≤ 1 + 1)
  refine ⟨hfirst, hsecond, (hlists 2 3 _ _ _ _ hfirst hsecond rfl rfl).2 ⟨rfl, ?_⟩⟩
  rintro (_ | i) x y hx hy
  · cases hx
    cases hy
    exact (rfl : objectEquals (virtualCall (callMethod 3 1) 1) 0 (.ref 1) listDemo = _)
  · cases hx

end ClassBackend.Machine
