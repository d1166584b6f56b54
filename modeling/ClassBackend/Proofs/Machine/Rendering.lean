import ClassBackend.Proofs.Machine.Action
import Mathlib.Tactic.SplitIfs

/-!
# The text of a value, by two paths

`Shows m depth v text` says what the text of a value on the heap of `m` is, with
lists nested at most `depth` deep. Printing and appending go through
`valueText`, which gives just that text. A virtual `toString` gives it for
texts, builders and throwables only; boxes, patterns and lists inherit the
`toString` of the root class, which shows the class and the identity of the
object.
-/

namespace ClassBackend.Machine

variable {address : Address} {object : Object} {depth : Nat} {value : Value}
  {message : Option String} {text : String}

/-! ## Machines with more objects -/

/-- The other machine only has more objects on its heap. -/
def Extends (m m' : Machine) : Prop :=
  ∃ more : Array Object, m' = { m with heap := m.heap ++ more }

namespace Extends

variable {m m' m'' : Machine}

theorem refl (m : Machine) : Extends m m := ⟨#[], by simp⟩

theorem trans (h : Extends m m') (h' : Extends m' m'') : Extends m m'' := by
  obtain ⟨more, rfl⟩ := h
  obtain ⟨more', rfl⟩ := h'
  exact ⟨more ++ more', by simp⟩

theorem push (m : Machine) (object : Object) : Extends m { m with heap := m.heap.push object } :=
  ⟨#[object], by simp⟩

theorem heap (h : Extends m m') (hobject : m.heap[address]? = some object) :
    m'.heap[address]? = some object := by
  obtain ⟨more, rfl⟩ := h
  obtain ⟨hlt, -⟩ := Array.getElem?_eq_some_iff.1 hobject
  rw [Array.getElem?_append_left hlt]
  exact hobject

theorem class? (h : Extends m m') (name : String) : m'.class? name = m.class? name := by
  obtain ⟨more, rfl⟩ := h
  rfl

end Extends

/-! ## The text of a value -/

/-- The text of a throwable: its class and, if it has one, its message. -/
def throwableText (className : String) : Option String → String
  | some message => Naming.toDotted className ++ ": " ++ message
  | none => Naming.toDotted className

inductive Message (m : Machine) : Value → Option String → Prop where
  | absent : Message m .null none
  | present {address : Address} {text : String} (h : m.heap[address]? = some (.text text)) :
    Message m (.ref address) (some text)

/-- The text of a value, with lists nested at most `depth` deep. Instances are
throwables of classes that are not loaded, whose `toString` is the library's. -/
inductive Shows (m : Machine) : (depth : Nat) → Value → String → Prop where
  | int (depth : Nat) (n : Int32) : Shows m depth (.int n) (toString n.toInt)
  | long (depth : Nat) (n : Int64) : Shows m depth (.long n) (toString n.toInt)
  | float (depth : Nat) (x : Single) : Shows m depth (.float x) (floatText x)
  | double (depth : Nat) (x : Double) : Shows m depth (.double x) (doubleText x)
  | null (depth : Nat) : Shows m depth .null "null"
  | text {depth : Nat} {address : Address} {text : String}
    (h : m.heap[address]? = some (.text text)) : Shows m depth (.ref address) text
  | builder {depth : Nat} {address : Address} {text : String}
    (h : m.heap[address]? = some (.builder text)) : Shows m depth (.ref address) text
  | boxed {depth : Nat} {address : Address} {className : String} {value : Value}
    (h : m.heap[address]? = some (.boxed className value)) :
    Shows m depth (.ref address) (boxedText className value)
  | pattern {depth : Nat} {address : Address} {source : String}
    (h : m.heap[address]? = some (.pattern source)) : Shows m depth (.ref address) source
  | throwable {depth : Nat} {address : Address} {className : String}
    {fields : List (String × Value)} {value : Value} {message : Option String}
    (h : m.heap[address]? = some (.inst className fields))
    (hclass : m.class? className = none) (hfield : fields.lookup messageField = some value)
    (hmessage : Message m value message) :
    Shows m depth (.ref address) (throwableText className message)
  | list {depth : Nat} {address : Address} {items : Array Value} {isMutable : Bool}
    {texts : Value → String} (h : m.heap[address]? = some (.list items isMutable))
    (hitems : ∀ v ∈ items.toList, Shows m depth v (texts v)) :
    Shows m (depth + 1) (.ref address)
      ("[" ++ ", ".intercalate (items.toList.map texts) ++ "]")

/-! ## Virtual calls of library methods -/

/-- The call back that library methods make. -/
def virtualCall (call : MethodCall) (depth : Nat) : VirtualCall :=
  fun receiver name descriptor args =>
    callInstance call depth .virtual { owner := rootClass, name, descriptor } receiver args

/-- The method that gives the text of an object. -/
def toStringMethod : MemberRef :=
  { owner := rootClass, name := "toString", descriptor := "()Ljava/lang/String;" }

variable {m m' : Machine} (call : MethodCall)

theorem lineage_of_class?_eq_none {name : String} (h : m.class? name = none) :
    m.lineage name = ([], some name) := by
  simp only [lineage, lineageWithin, h]

theorem callInstance_unanswered {call : MethodCall} {method : MemberRef} {args : List Value}
    (hobject : m.heap[address]? = some object)
    (hfind : m.findMethod? object.className method.name method.descriptor = none) :
    callInstance call (depth + 1) .virtual method (.ref address) args m =
      callLibrary (virtualCall call depth) depth address (m.libraryAncestor object.className)
        method.name method.descriptor args m := by
  unfold callInstance
  refine Run.then_ok rfl (Run.then_ok rfl (Run.then_ok (Run.object_ok hobject) ?_))
  refine Run.then_ok rfl (Run.then_ok rfl ?_)
  rw [hfind]
  rfl

theorem callInstance_library {call : MethodCall} {method : MemberRef} {args : List Value}
    (hobject : m.heap[address]? = some object) (hclass : m.class? object.className = none) :
    callInstance call (depth + 1) .virtual method (.ref address) args m =
      callLibrary (virtualCall call depth) depth address object.className method.name
        method.descriptor args m := by
  have hfind : m.findMethod? object.className method.name method.descriptor = none := by
    simp only [findMethod?, lineage_of_class?_eq_none hclass, List.findSome?_nil]
  have hancestor : m.libraryAncestor object.className = object.className := by
    simp only [libraryAncestor, lineage_of_class?_eq_none hclass, Option.getD_some]
  rw [callInstance_unanswered hobject hfind, hancestor]

/-! ## The root class -/

theorem Message.extend (h : Message m value message) (hm : Extends m m') :
    Message m' value message := by
  cases h with
  | absent => exact .absent
  | present h => exact .present (hm.heap h)

theorem plainText_throwable {className : String} {fields : List (String × Value)}
    (h : m.heap[address]? = some (.inst className fields))
    (hfield : fields.lookup messageField = some value) (hmessage : Message m value message) :
    plainText address m = .ok (throwableText className message) m := by
  refine Run.then_ok (Run.object_ok h) ?_
  simp only [Object.field?, hfield]
  cases hmessage with
  | absent => rfl
  | present hvalue => exact Run.then_ok (Run.object_ok hvalue) rfl

/-- A method that the class of an object lacks is taken from the root class. -/
theorem callLibrary_toString {virtual : VirtualCall} {owner descriptor : String}
    (hobject : m.heap[address]? = some object)
    (hown : callOwn virtual depth address object "toString" descriptor [] m = .ok none m)
    (hplain : plainText address m = .ok text m') :
    callLibrary virtual depth address owner "toString" descriptor [] m =
      .ok (some (.ref m'.heap.size)) { m' with heap := m'.heap.push (.text text) } := by
  unfold callLibrary
  refine Run.then_ok (Run.object_ok hobject) (Run.then_ok hown ?_)
  exact Run.then_ok (x := plainText address) hplain rfl

/-- A throwable of a class that is not loaded shows its class and message. -/
theorem callInstance_throwable (depth : Nat) {className : String} {fields : List (String × Value)}
    (h : m.heap[address]? = some (.inst className fields)) (hclass : m.class? className = none)
    (hfield : fields.lookup messageField = some value) (hmessage : Message m value message) :
    callInstance call (depth + 1) .virtual toStringMethod (.ref address) [] m =
      .ok (some (.ref m.heap.size))
        { m with heap := m.heap.push (.text (throwableText className message)) } := by
  rw [callInstance_library h hclass]
  exact callLibrary_toString h rfl (plainText_throwable h hfield hmessage)

/-! ## Printing and appending -/

theorem mapM_extends {f : Value → Run String} {texts : Value → String} {items : List Value}
    (h : ∀ v ∈ items, ∀ m', Extends m m' → ∃ m'', Extends m' m'' ∧ f v m' = .ok (texts v) m'') :
    ∃ m', Extends m m' ∧ items.mapM f m = .ok (items.map texts) m' := by
  induction items generalizing m with
  | nil => exact ⟨m, .refl m, rfl⟩
  | cons v rest ih =>
    obtain ⟨m₁, hm₁, hv⟩ := h v List.mem_cons_self m (.refl m)
    obtain ⟨m₂, hm₂, hrest⟩ := ih fun w hw m' hm' =>
      h w (List.mem_cons_of_mem _ hw) m' (hm₁.trans hm')
    refine ⟨m₂, hm₁.trans hm₂, ?_⟩
    rw [List.mapM_cons]
    exact Run.then_ok hv (Run.then_ok hrest rfl)

theorem valueText_shows (bound : Nat) {nesting : Nat} {v : Value} (h : Shows m depth v text)
    (hm : Extends m m') (hnesting : depth ≤ nesting) : ∃ m'', Extends m' m'' ∧
      valueText (virtualCall call (bound + 1)) nesting v m' = .ok text m'' := by
  induction h generalizing m' nesting with
  | int | long | float | double | null => exact ⟨m', .refl m', by unfold valueText; rfl⟩
  | text h | builder h | boxed h | pattern h =>
    refine ⟨m', .refl m', ?_⟩
    unfold valueText
    exact Run.then_ok (Run.object_ok (hm.heap h)) rfl
  | @throwable _ address className fields value message h hclass hfield hmessage =>
    have hcall := callInstance_throwable call bound (hm.heap h)
      ((hm.class? className).trans hclass) hfield (hmessage.extend hm)
    refine ⟨_, .push m' (.text (throwableText className message)), ?_⟩
    unfold valueText
    refine Run.then_ok (Run.object_ok (hm.heap h)) (Run.then_ok hcall ?_)
    exact Run.then_ok (Run.asText_ok Array.getElem?_push_size) rfl
  | @list depth address items isMutable texts h hitems ih =>
    obtain ⟨nesting, rfl⟩ : ∃ k, nesting = k + 1 := ⟨nesting - 1, by omega⟩
    obtain ⟨m'', hm'', hparts⟩ := mapM_extends
      (f := valueText (virtualCall call (bound + 1)) nesting)
      fun v hv m₁ hm₁ => ih v hv (hm.trans hm₁) (by omega)
    refine ⟨m'', hm'', ?_⟩
    unfold valueText
    exact Run.then_ok (Run.object_ok (hm.heap h)) (Run.then_ok hparts rfl)

/-! ## The virtual method -/

/-- The class of the object has a `toString` of its own. -/
def Object.hasOwnText : Object → Bool
  | .text _ | .builder _ | .inst .. => true
  | _ => false

theorem callLibrary_builder_toString {virtual : VirtualCall} {owner descriptor : String}
    (h : m.heap[address]? = some (.builder text)) :
    callLibrary virtual depth address owner "toString" descriptor [] m =
      .ok (some (.ref m.heap.size)) { m with heap := m.heap.push (.text text) } := by
  have hcontents : callBuilder virtual depth address "toString" descriptor [] m =
      .ok (some (some (.ref m.heap.size))) { m with heap := m.heap.push (.text text) } :=
    Run.then_ok (Run.then_ok (Run.object_ok h) rfl) rfl
  exact Run.then_ok (Run.object_ok h) (Run.then_ok hcontents rfl)

theorem callOwn_boxed_toString (virtual : VirtualCall) (depth : Nat) (address : Address)
    (className : String) (value : Value) (descriptor : String) (m : Machine) :
    callOwn virtual depth address (.boxed className value) "toString" descriptor [] m =
      .ok none m := by
  have hsuffix : "toString".endsWith "Value" = false := by decide +kernel
  simp only [callOwn, hsuffix, Bool.false_and]
  rfl

/-- A virtual `toString` on an object of the library makes a text: that of the
value if the class says so, otherwise the identity of the object. -/
theorem toString_shows (bound : Nat) (hobject : m.heap[address]? = some object)
    (hclass : m.class? object.className = none) (h : Shows m depth (.ref address) text) :
    ∃ result m', callInstance call (bound + 1) .virtual toStringMethod (.ref address) [] m =
        .ok (some (.ref result)) m' ∧
      m'.heap[result]? =
        some (.text (if object.hasOwnText then text else identityText object address)) := by
  rw [callInstance_library hobject hclass]
  cases h with
  | text h =>
    cases h.symm.trans hobject
    exact ⟨address, m, Run.then_ok (Run.object_ok h) rfl, h⟩
  | builder h =>
    cases h.symm.trans hobject
    exact ⟨_, _, callLibrary_builder_toString h, Array.getElem?_push_size⟩
  | throwable h hclass hfield hmessage =>
    cases h.symm.trans hobject
    exact ⟨_, _, callLibrary_toString h rfl (plainText_throwable h hfield hmessage),
      Array.getElem?_push_size⟩
  | boxed h =>
    cases h.symm.trans hobject
    exact ⟨_, _, callLibrary_toString h (callOwn_boxed_toString ..)
      (Run.then_ok (Run.object_ok h) rfl), Array.getElem?_push_size⟩
  | pattern h | list h =>
    cases h.symm.trans hobject
    exact ⟨_, _, callLibrary_toString h rfl (Run.then_ok (Run.object_ok h) rfl),
      Array.getElem?_push_size⟩

/-! ## Where the two paths part

An identity text has an at sign behind the name of the class. The texts of
numbers and truth values have none, the text of a character is a single one,
and the text of a list begins with a bracket. -/

theorem at_mem_identityText (object : Object) (address : Address) :
    '@' ∈ (identityText object address).toList := by
  simp [identityText]

theorem at_not_mem_natText (n : Nat) : '@' ∉ (toString n).toList := by
  intro h
  rw [Nat.toString_eq_repr, Nat.toList_repr] at h
  have hdigit := Nat.isDigit_of_mem_toDigits (by omega) (by omega) h
  exact absurd hdigit (by decide)

theorem at_not_mem_intText (n : Int) : '@' ∉ (toString n).toList := by
  rw [Int.toString_eq_repr, Int.repr_eq_if]
  split
  · exact at_not_mem_natText _
  · simp only [String.toList_append, List.mem_append, not_or]
    exact ⟨by decide, at_not_mem_natText _⟩

theorem at_not_mem_zeros (n : Int) : '@' ∉ (Decimal.zeros n).toList := by
  simp only [Decimal.zeros, String.toList_ofList, List.mem_replicate, not_and]
  intro _
  decide

open Decimal in
theorem at_not_mem_positionalText {keepFraction : Bool} {digits : List Char} {point : Int}
    (h : '@' ∉ digits) : '@' ∉ (positionalText keepFraction digits point).toList := by
  have htake : '@' ∉ digits.take point.toNat := fun hmem => h (List.mem_of_mem_take hmem)
  have hdrop : '@' ∉ digits.drop point.toNat := fun hmem => h (List.mem_of_mem_drop hmem)
  have hzeros := at_not_mem_zeros
  cases keepFraction <;> simp only [positionalText] <;> split <;> try split
  all_goals simp_all

open Decimal in
theorem at_not_mem_scientificText {digits : List Char} {exponent : Int} (h : '@' ∉ digits) :
    '@' ∉ (scientificText .machine digits exponent).toList := by
  have htake : '@' ∉ digits.take 1 := fun hmem => h (List.mem_of_mem_take hmem)
  have hdrop : '@' ∉ digits.drop 1 := fun hmem => h (List.mem_of_mem_drop hmem)
  have hexponent := at_not_mem_natText exponent.natAbs
  have hsign : '@' ∉ (if exponent < 0 then "-" else "").toList := by split <;> decide
  by_cases hfraction : digits.tail = [] <;> simp_all [scientificText, Layout.machine]

open Decimal in
theorem at_not_mem_magnitude (b : Binary) : '@' ∉ (Layout.machine.magnitude b).toList := by
  have hdigits := at_not_mem_natText (b.shortest Layout.machine.tie).digits
  by_cases hzero : b.mantissa = 0
  · simp [Layout.magnitude, Layout.machine, hzero]
  · simp only [Layout.magnitude, beq_iff_eq, hzero, if_false]
    split_ifs
    · exact at_not_mem_positionalText hdigits
    · exact at_not_mem_scientificText hdigits

open Decimal in
theorem at_not_mem_render (parts : Parts) : '@' ∉ (Layout.machine.render parts).toList := by
  cases parts with
  | nan => simp [Layout.render, Layout.machine]
  | infinite negative => cases negative <;> simp [Layout.render, Layout.machine]
  | finite negative b => cases negative <;> simp [Layout.render, at_not_mem_magnitude]

theorem length_charText (n : Int32) : (charText n).length = 1 := by
  simp only [charText, Text.ofUnit]
  split
  · rfl
  · simp

theorem boxedText_ne_identityText (className : String) (value : Value) (address : Address) :
    identityText (.boxed className value) address ≠ boxedText className value := by
  intro h
  have hat := at_mem_identityText (.boxed className value) address
  rw [h] at hat
  revert hat
  unfold boxedText
  split
  · split
    · simp only [booleanText]
      split <;> decide
    · -- the text of a character may be an at sign, but not one behind a class name
      intro _
      have hlength := congrArg String.length h
      have hname : (Naming.toDotted "java/lang/Character").length = 19 := by decide
      simp only [boxedText, length_charText, identityText, Object.className,
        String.length_append, hname] at hlength
      omega
    · exact at_not_mem_intText _
  · exact at_not_mem_intText _
  · exact at_not_mem_render _
  · exact at_not_mem_render _
  · decide
  · decide

theorem listText_ne_identityText (items : Array Value) (isMutable : Bool) (address : Address)
    (text : String) : identityText (.list items isMutable) address ≠ "[" ++ text ++ "]" := by
  intro h
  have hhead := congrArg (fun shown : String => shown.toList.head?) h
  cases isMutable <;>
    simp [identityText, Object.className, Naming.toDotted, Naming.replaceChar] at hhead

/-- Both paths give a text of every object of the library that has one, and the
texts agree for texts, builders and throwables. For boxes, patterns and lists
the virtual method shows the identity of the object, which is never the text of
a box or a list, and that of a pattern only if its source spells it out. -/
theorem toString_eq_valueText_iff (call : MethodCall) (bound : Nat) {m : Machine} {depth : Nat}
    {address : Address} {object : Object} {text : String} (hobject : m.heap[address]? = some object)
    (hclass : m.class? object.className = none) (h : Shows m depth (.ref address) text)
    (hdepth : depth ≤ bound) : ∃ result shown m₁ m₂,
      callInstance call (bound + 1) .virtual toStringMethod (.ref address) [] m =
        .ok (some (.ref result)) m₁ ∧
      m₁.heap[result]? = some (.text shown) ∧
      valueText (virtualCall call (bound + 1)) bound (.ref address) m = .ok text m₂ ∧
      shown = (if object.hasOwnText then text else identityText object address) ∧
      (shown = text ↔ object.hasOwnText = true ∨ object = .pattern shown) := by
  obtain ⟨result, m₁, hcall, hresult⟩ := toString_shows call bound hobject hclass h
  obtain ⟨m₂, -, htext⟩ := valueText_shows call bound h (.refl m) hdepth
  refine ⟨result, _, m₁, m₂, hcall, hresult, htext, rfl, ?_⟩
  cases h with
  | text h | builder h | throwable h =>
    cases h.symm.trans hobject
    simp [Object.hasOwnText]
  | boxed h =>
    cases h.symm.trans hobject
    simp [Object.hasOwnText, boxedText_ne_identityText]
  | pattern h =>
    cases h.symm.trans hobject
    simp [Object.hasOwnText, eq_comm]
  | list h =>
    cases h.symm.trans hobject
    simp [Object.hasOwnText, listText_ne_identityText]

/-- A machine whose heap holds the number five in a box, and a list of it. -/
def boxedFive : Machine :=
  { heap := #[.boxed "java/lang/Integer" (.int 5), .list #[.ref 0] false] }

theorem boxedFive_shows_five : Shows boxedFive 0 (.ref 0) "5" := by
  have hbox : boxedText "java/lang/Integer" (.int 5) = "5" := by decide
  exact hbox ▸ Shows.boxed rfl

theorem toString_eq_valueText_iff_boxedFive : ∃ result shown m₁ m₂,
      callInstance (callMethod 2 1) 2 .virtual toStringMethod (.ref 1) [] boxedFive =
        .ok (some (.ref result)) m₁ ∧
      m₁.heap[result]? = some (.text shown) ∧
      valueText (virtualCall (callMethod 2 1) 2) 1 (.ref 1) boxedFive = .ok "[5]" m₂ ∧
      shown = identityText (.list #[.ref 0] false) 1 ∧ shown ≠ "[5]" := by
  have hobject : boxedFive.heap[1]? = some (.list #[.ref 0] false) := rfl
  have hlist : Shows boxedFive 1 (.ref 1) "[5]" :=
    @Shows.list boxedFive 0 1 #[.ref 0] false (fun _ => "5") rfl
      (by simpa using boxedFive_shows_five)
  obtain ⟨result, shown, m₁, m₂, hcall, hshown, htext, heq, hiff⟩ :=
    toString_eq_valueText_iff (callMethod 2 1) 1 hobject rfl hlist (Nat.le_refl 1)
  refine ⟨result, shown, m₁, m₂, hcall, hshown, htext, heq, fun hsame => ?_⟩
  simpa [Object.hasOwnText] using hiff.1 hsame

/-- The box of five shows as its identity by one path and as five by the
other. -/
theorem toString_ne_valueText_boxedFive : ∃ result m₁ m₂,
      callInstance (callMethod 1 1) 1 .virtual toStringMethod (.ref 0) [] boxedFive =
        .ok (some (.ref result)) m₁ ∧
      m₁.heap[result]? = some (.text "java.lang.Integer@0") ∧
      valueText (virtualCall (callMethod 1 1) 1) 0 (.ref 0) boxedFive = .ok "5" m₂ := by
  have hobject : boxedFive.heap[0]? = some (.boxed "java/lang/Integer" (.int 5)) := rfl
  have hidentity : identityText (.boxed "java/lang/Integer" (.int 5)) 0 =
      "java.lang.Integer@0" := by decide
  obtain ⟨result, m₁, hcall, hresult⟩ :=
    toString_shows (callMethod 1 1) 0 hobject rfl boxedFive_shows_five
  obtain ⟨m₂, -, htext⟩ :=
    valueText_shows (callMethod 1 1) 0 boxedFive_shows_five (.refl _) (Nat.le_refl 0)
  exact ⟨result, m₁, m₂, hcall, hidentity ▸ hresult, htext⟩

end ClassBackend.Machine
