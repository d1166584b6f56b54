import ClassBackend.Proofs.Layout.Closed
import ClassBackend.Proofs.Machine.Params
import ClassBackend.Proofs.Machine.Path
import ClassBackend.Proofs.Machine.Startup
import ClassBackend.Proofs.Machine.Unit

/-!
# Runs stay in closed code

If the code of every method that can be entered is closed, no run leaves it:
control neither falls off the end of a method, nor does it jump to a label that
the method does not know.

Each action of the machine is *contained*, which means that it leaves the
loaded classes alone, takes nothing off the heap and does not end in one of
these two errors, as long as the methods it calls are. The errors are raised only
in `Machine.runFrom`, and there closed code rules them out
(`Contained.runFrom`). It also keeps static initialization in order, if no code
calls an initializer by its name.
-/

namespace ClassBackend

variable {s : String}

/-- The name of the method that an instruction calls. -/
def Instruction.callee? : Instruction → Option String
  | .invoke _ method => some method.name
  | _ => none

def ClassFile.initializer? (c : ClassFile) : Option MethodInfo :=
  c.methods.find? (·.name == "<clinit>")

theorem getLast?_append_ne {t : String} {c d : Char} (h : t.toList.getLast? = some c)
    (hne : c ≠ d) : (s ++ t).toList.getLast? ≠ some d := by
  rw [String.toList_append, List.getLast?_append, h]
  exact fun heq => hne (Option.some.inj heq)

/-- No text that ends with a descriptor ends with the letter `g`. -/
theorem Ty.getLast?_append_descriptor_ne (s : String) (t : Ty) :
    (s ++ t.descriptor).toList.getLast? ≠ some 'g' := by
  have hplain : ∀ s name : String, (s ++ ("L" ++ name ++ ";")).toList.getLast? ≠ some 'g' := by
    intro s name
    rw [← String.append_assoc]
    exact getLast?_append_ne rfl (by decide : ';' ≠ 'g')
  induction t generalizing s with
  | void => exact getLast?_append_ne rfl (by decide : 'V' ≠ 'g')
  | prim p =>
    refine getLast?_append_ne (c := p.descriptor) (by simp [Ty.descriptor]) ?_
    cases p <;> decide
  | array component ih =>
    rw [Ty.descriptor, ← String.append_assoc]
    exact ih _
  | _ => exact hplain _ _

namespace Machine

variable {c : ClassFile} {m m' : Machine} {x : Run α} {f : α → Run β}

/-- The error does not say that control left the code of a method. A type
mismatch whose text starts with `u` may report an unknown label, unless it is a
method with an unfortunate owner that "returned nothing". -/
def Error.Contained : Error → Prop
  | .fellOffEnd _ => False
  | .typeMismatch reason => reason.toList.head? = some 'u' → reason.toList.getLast? = some 'g'
  | _ => True

/-- Control can enter the method: it has a body, or initializes its class. -/
structure Enters (classes : List (String × ClassFile)) (c : ClassFile) (method : MethodInfo) :
    Prop where
  loaded : ∃ name, (name, c) ∈ classes
  declared : method ∈ c.methods
  enterable : method.isAbstract = false ∨ c.initializer? = some method

/-- What is asked of runs: that the loaded classes are these, that control stays in
their code, as far as one is strict about that, and that static initialization is in
order, as far as their code is calm and leaves it to the machine. -/
structure Regime where
  strict : Prop
  calm : Prop
  classes : List (String × ClassFile)

def Regime.calls (W : Regime) (name : String) : Prop := W.calm → name ≠ "<clinit>"

/-- The classes and the objects are all that matters. -/
def Regime.lax (classes : List (String × ClassFile)) : Regime := ⟨False, False, classes⟩

structure Regime.Admits (W : Regime) (method : MethodInfo) : Prop where
  closed : W.strict → method.Closed
  calls : ∀ i ∈ method.code, ∀ name ∈ i.callee?, W.calls name

variable {α β : Type} {W : Regime} {names later : List String}

/-- What of an object no action changes: the class of an instance, the length and the
elements' type of an array, being a builder or a list that can grow, and all of
any other object. -/
def Object.lasting : Object → Object
  | .inst className _ => .inst className []
  | .builder _ => .builder ""
  | .array component items => .array component (Array.replicate items.size .null)
  | .list _ true => .list #[] true
  | object => object

def Holds (m : Machine) (address : Address) (object : Object) : Prop :=
  ∃ current, m.heap[address]? = some current ∧ current.lasting = object.lasting

/-- The loaded classes stay, objects stay on the heap as far as they last, and
initialization stays in order, with the initializers of some classes pending no longer. -/
def Becomes (W : Regime) (names : List String) (m m' : Machine) : Prop :=
  m'.classes = m.classes ∧ (∀ address object, m.Holds address object → m'.Holds address object) ∧
    (W.calm → ∀ pending, m.Ready (names ++ pending) → m'.Ready pending)

theorem Becomes.refl (m : Machine) : m.Becomes W [] m := ⟨rfl, fun _ _ h => h, fun _ _ h => h⟩

theorem Becomes.trans {m'' : Machine} (h : m.Becomes W names m') (h' : m'.Becomes W later m'') :
    m.Becomes W (names ++ later) m'' :=
  ⟨h'.1.trans h.1, fun address object hobject =>
    h'.2.1 address object (h.2.1 address object hobject), fun hcalm pending hready =>
    h'.2.2 hcalm pending (h.2.2 hcalm _ (List.append_assoc .. ▸ hready))⟩

theorem Becomes.drop (h : m.Becomes W names m') : m.Becomes W (names ++ later) m' :=
  ⟨h.1, h.2.1, fun hcalm _ hready => (h.2.2 hcalm _ (List.append_assoc .. ▸ hready)).drop⟩

theorem becomes_allocate (m : Machine) (object : Object) :
    m.Becomes W [] (m.allocate object).2 := by
  refine ⟨rfl, fun address known hknown => ?_, fun _ _ h => h⟩
  obtain ⟨current, hcurrent, hlasting⟩ := hknown
  have hlt : address < m.heap.size := (Array.getElem?_eq_some_iff.1 hcurrent).1
  exact ⟨current, (Array.getElem?_push_lt hlt).trans (by rw [← hcurrent]; simp [hlt]), hlasting⟩

theorem becomes_setObject {address : Address} {known object : Object} (h : m.Holds address known)
    (hlasting : object.lasting = known.lasting) :
    m.Becomes W [] { m with heap := m.heap.setIfInBounds address object } := by
  refine ⟨rfl, fun other old hold => ?_, fun _ _ h => h⟩
  obtain ⟨current, hcurrent, hcurrently⟩ := hold
  by_cases hsame : other = address
  · subst hsame
    obtain ⟨here, hhere, hkept⟩ := h
    cases hcurrent.symm.trans hhere
    have hlt : other < m.heap.size := (Array.getElem?_eq_some_iff.1 hcurrent).1
    exact ⟨object, by simp [Array.getElem?_setIfInBounds_self_of_lt hlt],
      hlasting.trans (hkept.symm.trans hcurrently)⟩
  · exact ⟨current, by rw [← hcurrent]; simp [Ne.symm hsame], hcurrently⟩

/-- An action that began in one machine and ended like this keeps to the regime, when the
initializers of these classes were left to it. -/
def Run.Ends (W : Regime) (names : List String) (m : Machine) :
    EStateM.Result Unwind Machine α → Prop
  | .ok _ m' => m.Becomes W names m'
  | .error unwind m' =>
    m.Becomes W names m' ∧ ∀ error, unwind = .fatal error → W.strict → error.Contained

/-- The action ends well from every machine with the classes of the regime, when the
initializers of these classes are left to it. -/
def Run.Starts (W : Regime) (names : List String) (x : Run α) : Prop :=
  ∀ ⦃m⦄, m.classes = W.classes → Run.Ends W names m (x m)

/-- The action ends well, and no pending initializer is left to it. -/
def Run.Contained (W : Regime) (x : Run α) : Prop := Run.Starts W [] x

/-- The action ends well if what lasts of the object at an address is known. -/
def Run.ContainedAt (W : Regime) (address : Address) (object : Object) (x : Run α) : Prop :=
  ∀ ⦃m⦄, m.classes = W.classes → m.Holds address object → Run.Ends W [] m (x m)

def Act.Contained (W : Regime) (x : Act α) : Prop := ∀ a, Run.Contained W (x a)

/-- The calls that control can make are contained, calls of initializers apart, which have
to be left to them. -/
def MethodCall.Contained (W : Regime) (call : MethodCall) : Prop :=
  ∀ c method args names, Enters W.classes c method →
    (W.calls method.name ∨ names = [c.name]) → Run.Starts W names (call c method args)

/-! ## Errors -/

namespace Error

theorem contained_of_head {reason : String} {c : Char} (h : reason.toList.head? = some c)
    (hc : c ≠ 'u') : (Error.typeMismatch reason).Contained := fun hu =>
  absurd (Option.some.inj (h.symm.trans hu)) hc

theorem head?_append {t : String} {c : Char} (h : s.toList.head? = some c) :
    (s ++ t).toList.head? = some c := by
  rw [String.toList_append, List.head?_append, h]
  rfl

theorem contained_pieces {p q r : String} {c : Char} (h : s.toList.head? = some c) (hc : c ≠ 'u') :
    (Error.typeMismatch (s ++ p ++ q ++ r)).Contained :=
  contained_of_head (head?_append (head?_append (head?_append h))) hc

theorem contained_mismatch (v : Value) (expected : String) : (v.mismatch expected).Contained :=
  contained_pieces rfl (by decide)

theorem contained_badOperator (kind : Kind) (op : ArithOp) : (badOperator kind op).Contained := by
  refine contained_of_head (c := kind.letter) (head?_append (head?_append ?_)) ?_
  · simp
  · cases kind <;> decide

theorem contained_malformed (descriptor : String) : (malformed descriptor).Contained :=
  contained_of_head (head?_append rfl) (by decide : 'm' ≠ 'u')

theorem contained_nothing (s : String) :
    (Error.typeMismatch (s ++ " returned nothing")).Contained := by
  intro _
  rw [String.toList_append, List.getLast?_append]
  rfl

end Error

/-! ## Putting actions together -/

theorem Run.Ends.imp {result : EStateM.Result Unwind Machine α} (h : Run.Ends W names m' result)
    (himp : ∀ m'', m'.Becomes W names m'' → m.Becomes W later m'') :
    Run.Ends W later m result := by
  cases result with
  | ok b m'' => exact himp m'' h
  | error unwind m'' => exact ⟨himp m'' h.1, h.2⟩

/-- What ends well after a change of the machine ends well as a whole. -/
theorem Run.Ends.since {result : EStateM.Result Unwind Machine α}
    (h : Run.Ends W later m' result) (hm : m.Becomes W names m') :
    Run.Ends W (names ++ later) m result :=
  h.imp fun _ => hm.trans

/-- A sequence ends well if the rest of it does from where its first action ended. -/
theorem Run.Ends.bind (hx : Run.Ends W names m (x m))
    (hf : ∀ a m', x m = .ok a m' → m.Becomes W names m' → Run.Ends W later m' (f a m')) :
    Run.Ends W (names ++ later) m ((x >>= f) m) := by
  show Run.Ends W _ m (EStateM.bind x f m)
  unfold EStateM.bind
  cases hrun : x m with
  | ok a m' =>
    rw [hrun] at hx
    exact (hf a m' hrun hx).since hx
  | error unwind m' =>
    rw [hrun] at hx
    exact ⟨hx.1.drop, hx.2⟩

theorem Run.Starts.bind (hx : Run.Starts W names x) (hf : ∀ a, Run.Starts W later (f a)) :
    Run.Starts W (names ++ later) (x >>= f) :=
  fun _ hm => (hx hm).bind fun a _ _ hchange => hf a (hchange.1.trans hm)

theorem Run.Starts.after (hx : Run.Contained W x) (hf : ∀ a, Run.Starts W names (f a)) :
    Run.Starts W names (x >>= f) :=
  Run.Starts.bind hx hf

namespace Run.Contained

theorem pure (a : α) : Contained W (Pure.pure a : Run α) := fun m _ => .refl m

theorem after (hx : Contained W x) (hm : m.classes = W.classes) (h : m.Becomes W [] m') :
    Ends W [] m (x m') :=
  (hx (h.1.trans hm)).since h

theorem bind (hx : Contained W x) (hf : ∀ a, Contained W (f a)) : Contained W (x >>= f) :=
  Starts.bind hx hf

theorem starts (hx : Contained W x) : Starts W names x := fun _ hm =>
  (hx hm).imp fun _ hchange => hchange.drop

theorem anywhere (hx : Contained W x) (address : Address) (object : Object) :
    ContainedAt W address object x := fun _ hm _ => hx hm

theorem getting {f : Machine → Run β}
    (hf : ∀ m, m.classes = W.classes → Contained W (f m)) :
    Contained W (MonadState.get >>= f) := fun m hm => hf m hm hm

theorem modifying {change : Machine → Machine}
    (h : ∀ m : Machine, m.Becomes W [] (change m)) : Contained W (modify change : Run Unit) :=
      fun m _ => h m

theorem thrown (exception : Address) :
    Contained W (throw (.thrown exception) : Run α) := fun m _ => ⟨.refl m, nofun⟩

theorem exhausted : Contained W (throw .exhausted : Run α) :=
  fun m _ => ⟨.refl m, nofun⟩

theorem fail {error : Error} (h : error.Contained) : Contained W (Run.fail error : Run α) := by
  refine fun m _ => ⟨.refl m, fun e he _ => ?_⟩
  cases he
  exact h

theorem ofExcept {x : Except Error α} (h : ∀ error, x = .error error → error.Contained) :
    Contained W (Run.ofExcept x) := by
  cases x with
  | ok a => exact pure a
  | error error => exact fail (h error rfl)

theorem ite {c : Prop} [Decidable c] {x y : Run α} (hx : Contained W x)
    (hy : Contained W y) : Contained W (if c then x else y) := by
  split
  · exact hx
  · exact hy

theorem forM {f : β → Run PUnit} {bs : List β} (hf : ∀ b ∈ bs, Contained W (f b)) :
    Contained W (bs.forM f) := by
  induction bs with
  | nil => exact pure _
  | cons b bs ih =>
    obtain ⟨hb, hbs⟩ := List.forall_mem_cons.1 hf
    exact bind hb fun _ => ih hbs

theorem mapM {f : β → Run α} (hf : ∀ b, Contained W (f b)) (bs : List β) :
    Contained W (bs.mapM f) := by
  induction bs with
  | nil => exact pure _
  | cons b bs ih =>
    rw [List.mapM_cons]
    exact bind (hf b) fun _ => bind ih fun _ => pure _

/-! ## Primitive actions -/

theorem asInt (v : Value) : Contained W (Run.ofExcept v.asInt) :=
  ofExcept fun e h => by
    cases v <;> cases h <;> exact Error.contained_mismatch _ _

theorem asRef (v : Value) : Contained W (Run.ofExcept v.asRef) :=
  ofExcept fun e h => by
    cases v <;> cases h <;> exact Error.contained_mismatch _ _

theorem paramDescriptors (descriptor : String) :
    Contained W (Run.ofExcept (paramDescriptors descriptor)) :=
  ofExcept fun e h => by
    rcases eq_of_paramDescriptors h with rfl | rfl
    · exact Error.contained_malformed descriptor
    · trivial

theorem resultDescriptor (descriptor : String) :
    Contained W (Run.ofExcept (resultDescriptor descriptor)) :=
  ofExcept fun e h => by
    unfold Machine.resultDescriptor at h
    dsimp only at h
    split at h <;> cases h
    exact Error.contained_malformed descriptor

theorem newLibraryObject (name : String) : Contained W (Run.ofExcept (newLibraryObject name)) :=
  ofExcept fun e h => by
    unfold Machine.newLibraryObject at h
    split at h
    case h_5 =>
      split at h <;> cases h
      trivial
    all_goals cases h

theorem note (level : Level) (message : String) : Contained W (Run.note level message) :=
  modifying fun m => .refl m

theorem allocate (object : Object) : Contained W (Run.allocate object) :=
  fun m _ => m.becomes_allocate object

theorem text (value : String) : Contained W (Run.text value) := allocate _

theorem object (address : Address) : Contained W (Run.object address) := by
  refine getting fun m _ => ?_
  split
  · exact pure _
  · exact fail (Error.contained_of_head rfl (by decide : 'd' ≠ 'u'))

theorem objectThen {f : Object → Run β} {address : Address}
    (hf : ∀ found, ContainedAt W address found (f found)) :
    Contained W (Run.object address >>= f) := by
  refine fun m hm => (object address hm).bind fun found m' hfound hchange => ?_
  obtain ⟨hheap, rfl⟩ := Run.object_eq_ok hfound
  exact hf found hm ⟨found, hheap, rfl⟩

theorem print (text : String) : Contained W (Run.print text) := modifying fun m => .refl m

theorem raise (className : String) (message : Option String) :
    Contained W (Run.raise className message : Run α) := by
  unfold Run.raise
  extract_lets shown finish
  refine bind (note _ _) fun _ => ?_
  have hfinish : ∀ value, Contained W (finish value) := fun value =>
    bind (fun m _ => m.becomes_allocate _) fun _ => thrown _
  cases message with
  | none => exact bind (pure _) hfinish
  | some message => exact bind (text _) hfinish

theorem raiseNull : Contained W (Run.raiseNull : Run α) := raise _ _

theorem nonNull (reference : Option Address) : Contained W (Run.nonNull reference) := by
  cases reference with
  | none => exact raiseNull
  | some address => exact pure _

theorem asText (value : Value) : Contained W (Run.asText value) := by
  refine bind (asRef value) fun reference => ?_
  cases reference with
  | none => exact pure _
  | some address =>
    refine bind (object address) fun object => ?_
    split
    · exact pure _
    · exact fail (Error.contained_of_head (Error.head?_append rfl) (by decide : 'e' ≠ 'u'))

theorem noMethod (owner name descriptor : String) :
    Contained W (noMethod owner name descriptor : Run α) := fail trivial

end Run.Contained

namespace Run.ContainedAt

variable {address : Address} {known : Object}

theorem bind (hx : Contained W x)
    (hf : ∀ a, ContainedAt W address known (f a)) :
    ContainedAt W address known (x >>= f) := fun _ hm hknown =>
  (hx hm).bind fun a _ _ hchange =>
    hf a (hchange.1.trans hm) (hchange.2.1 address known hknown)

theorem before (hx : ContainedAt W address known x)
    (hf : ∀ a, Contained W (f a)) : ContainedAt W address known (x >>= f) := fun _ hm hknown =>
  (hx hm hknown).bind fun a _ _ hchange => hf a (hchange.1.trans hm)

theorem setObject {object : Object} (h : object.lasting = known.lasting) :
    ContainedAt W address known (Run.setObject address object) :=
  fun _ _ hknown => becomes_setObject hknown h

theorem setField (name : String) (value : Value) {f : Object → Run β}
    (hf : ∀ changed : Object, changed.lasting = known.lasting →
      ContainedAt W address known (f changed)) :
    ContainedAt W address known (Run.ofExcept (known.setField name value) >>= f) := by
  cases known with
  | inst className fields => exact hf (.inst className (Object.putEntry name value fields)) rfl
  | _ =>
    exact (Contained.fail (Error.contained_pieces rfl (by decide : 'c' ≠ 'u'))).anywhere _ _

end Run.ContainedAt

namespace Run.Contained

/-! ## Library methods -/

variable (address : Address) (argument : Value)

theorem plainText : Contained W (plainText address) := by
  refine bind (object address) fun found => ?_
  extract_lets className
  split
  · exact pure _
  · exact pure _
  · exact pure _
  · split
    · exact pure _
    · refine bind (object _) fun message => ?_
      split <;> exact pure _
    · exact pure _
  · exact pure _

theorem callParseInt : Contained W (callParseInt argument) := by
  refine bind (asText argument) fun text => ?_
  split
  · exact pure _
  · exact raise _ _

theorem callUnmodifiable : Contained W (callUnmodifiable argument) := by
  refine bind (asRef argument) fun _ => bind (nonNull _) fun _ => bind (object _) fun found => ?_
  split
  · exact allocate _
  · exact fail (Error.contained_of_head (Error.head?_append rfl) (by decide : 'e' ≠ 'u'))

theorem callCompile : Contained W (callCompile argument) := by
  refine bind (asText argument) fun text => ?_
  split
  · exact raiseNull
  · exact ite (allocate _) (raise _ _)

theorem callLibraryStatic (owner name descriptor : String) (args : List Value) :
    Contained W (callLibraryStatic owner name descriptor args) := by
  unfold Machine.callLibraryStatic
  split
  · refine ite (bind (callParseInt _) fun _ => pure _) (ite (bind (allocate _) fun _ => pure _)
      (ite (bind (callUnmodifiable _) fun _ => pure _)
        (ite (bind (callCompile _) fun _ => pure _) (noMethod _ _ _))))
  · exact noMethod _ _ _

theorem construct (owner descriptor : String) (args : List Value) :
    Contained W (construct address owner descriptor args) := by
  unfold Machine.construct
  split
  · exact pure _
  · refine objectThen fun found => ?_
    split
    · refine .bind (asText _) fun text => ?_
      split
      · exact .setObject rfl
      · exact raiseNull.anywhere _ _
    · exact (bind (asInt _) fun _ => ite (raise _ _) (pure _)).anywhere _ _
    · split
      · exact .setField _ _ fun _ h => .setObject h
      · exact (noMethod _ _ _).anywhere _ _
    · exact (noMethod _ _ _).anywhere _ _
  · exact noMethod _ _ _

theorem callText (text name : String) (args : List Value) :
    Contained W (callText address text name args) := by
  unfold Machine.callText
  split
  · exact pure _
  · exact pure _
  · exact bind (Contained.text _) fun _ => pure _
  · exact pure _
  · refine bind (asText _) fun other => ?_
    split
    · exact bind (Contained.text _) fun _ => pure _
    · exact raiseNull
  · exact pure _

theorem callList (items : Array Value) (isMutable : Bool) (name : String) (args : List Value) :
    ContainedAt W address (.list items isMutable) (callList address items isMutable name args) := by
  unfold Machine.callList
  split
  · split
    · rename_i hmutable
      subst hmutable
      exact .before (.setObject rfl) fun _ => pure _
    · exact (raise _ _).anywhere _ _
  · refine .bind (asInt _) fun index => ?_
    split
    · exact (pure _).anywhere _ _
    · exact (raise _ _).anywhere _ _
  · exact (pure _).anywhere _ _
  · exact (pure _).anywhere _ _

section Virtual

variable {virtual : VirtualCall}
  (h : ∀ receiver name descriptor args, name ≠ "<clinit>" →
    Contained W (virtual receiver name descriptor args))

include h

theorem valueText (depth : Nat) (value : Value) : Contained W (valueText virtual depth value) := by
  unfold Machine.valueText
  split
  case h_6 address =>
    refine bind (object address) fun found => ?_
    split
    · exact pure _
    · exact pure _
    · exact pure _
    · exact pure _
    · cases depth with
      | zero => exact exhausted
      | succ depth => exact bind (mapM (valueText depth) _) fun _ => pure _
    · refine bind (h _ _ _ _ (by decide)) fun text => ?_
      split
      · exact pure _
      · exact bind (asText _) fun _ => pure _
    · exact plainText address
  all_goals exact pure _

variable (depth : Nat) (address : Address)

theorem paramText (param : String) (value : Value) :
    Contained W (paramText virtual depth param value) := by
  unfold Machine.paramText
  split
  · exact pure _
  · exact pure _
  · exact valueText h depth value

theorem elementEquals (x y : Value) : Contained W (elementEquals virtual x y) := by
  unfold Machine.elementEquals
  split
  · exact pure _
  · refine bind (h _ _ _ _ (by decide)) fun result => ?_
    split <;> exact pure _
  · exact pure _

theorem elementsEqual (pairs : List (Value × Value)) :
    Contained W (elementsEqual virtual pairs) := by
  induction pairs with
  | nil => exact pure _
  | cons pair pairs ih => exact bind (elementEquals h _ _) fun _ => ite ih (pure _)

theorem objectEquals (other : Value) : Contained W (objectEquals virtual address other) := by
  refine bind (asRef other) fun reference => ?_
  split
  · exact pure _
  · refine ite (pure _) (bind (object _) fun x => bind (object _) fun y => ?_)
    split
    · exact pure _
    · exact pure _
    · exact ite (elementsEqual h _) (pure _)
    · exact pure _

theorem callBuilder (value name descriptor : String) (args : List Value) :
    ContainedAt W address (.builder value)
      (callBuilder virtual depth address name descriptor args) := by
  unfold Machine.callBuilder
  extract_lets contents
  have hcontents : Contained W contents := bind (object address) fun found => by
    split <;> exact pure _
  split
  · exact .bind (paramDescriptors _) fun _ => .bind (paramText h _ _ _) fun _ =>
      .bind hcontents fun _ => .before (.setObject rfl) fun _ => pure _
  · exact (bind hcontents fun _ => bind (text _) fun _ => pure _).anywhere _ _
  · exact (bind hcontents fun _ => pure _).anywhere _ _
  · exact (pure _).anywhere _ _

theorem callPrint (name descriptor : String) (args : List Value) :
    Contained W (callPrint virtual depth name descriptor args) := by
  refine bind (paramDescriptors descriptor) fun params => ?_
  extract_lets finish
  have hfinish : ∀ text, Contained W (finish text) := fun _ => print _
  split
  · exact bind (paramText h _ _ _) hfinish
  · exact bind (pure _) hfinish

theorem callOwn (object : Object) (name descriptor : String) (args : List Value) :
    ContainedAt W address object (callOwn virtual depth address object name descriptor args) := by
  unfold Machine.callOwn
  split
  · exact (callText _ _ _ _).anywhere _ _
  · exact callBuilder h _ _ _ _ _ _
  · exact callList _ _ _ _ _
  · exact (ite (bind (resultDescriptor _) fun _ => pure _) (pure _)).anywhere _ _
  · exact (ite (bind (text _) fun _ => pure _) (pure _)).anywhere _ _
  · exact (ite (bind (callPrint h _ _ _ _) fun _ => pure _) (pure _)).anywhere _ _
  · exact (ite (pure _) (pure _)).anywhere _ _
  · exact (pure _).anywhere _ _
  · exact (pure _).anywhere _ _

theorem callLibrary (owner name descriptor : String) (args : List Value) :
    Contained W (callLibrary virtual depth address owner name descriptor args) := by
  refine ite (bind (construct _ _ _ _) fun _ => pure _) (objectThen fun found =>
    .before (callOwn h _ _ _ _ _ _) fun result => ?_)
  split
  · exact pure _
  · split
    · exact bind (plainText _) fun _ => bind (text _) fun _ => pure _
    · exact pure _
    · exact bind (objectEquals h _ _) fun _ => pure _
    · exact noMethod _ _ _

end Virtual

end Run.Contained

/-! ## Calls -/

theorem enters_of_findMethod? {className name descriptor : String} {method : MethodInfo}
    (h : m.findMethod? className name descriptor = some (c, method)) :
    Enters m.classes c method ∧ method.name = name := by
  obtain ⟨own, hown, hfound⟩ := List.exists_of_findSome?_eq_some h
  obtain ⟨found, hfind, heq⟩ := Option.map_eq_some_iff.1 hfound
  cases heq
  have hprop := List.find?_some hfind
  simp only [MethodInfo.answersTo, Bool.and_eq_true, beq_iff_eq, Bool.not_eq_true'] at hprop
  exact ⟨⟨loaded_of_mem_lineageWithin hown, List.mem_of_find?_eq_some hfind, .inl hprop.2⟩,
    hprop.1.1⟩

namespace Run.Contained

section Call

variable {call : MethodCall}
  (h : call.Contained W)

include h

theorem startClass (hc : ∃ name, (name, c) ∈ W.classes) :
    Starts W [c.name] (startClass call c) := by
  refine .after (forM fun field _ => ite (bind ?_ fun value => modifying fun m => .refl m)
    (pure _)) fun _ => ?_
  · unfold initialStatic
    split
    case h_5 => exact text _
    all_goals exact pure _
  · split
    · rename_i method hfind
      exact .after (note _ _) fun _ => Starts.bind (h c method [] [c.name]
        ⟨hc, List.mem_of_find?_eq_some hfind, .inr hfind⟩ (.inr rfl)) fun _ => pure _
    · exact (pure _).starts

theorem startClasses {cs : List ClassFile} (hcs : ∀ c ∈ cs, ∃ name, (name, c) ∈ W.classes) :
    Starts W (cs.map (·.name)) (cs.forM (Machine.startClass call)) := by
  induction cs with
  | nil => exact pure _
  | cons c cs ih =>
    obtain ⟨hc, hcs⟩ := List.forall_mem_cons.1 hcs
    exact Starts.bind (startClass h hc) fun _ => ih hcs

theorem ensureInitialized (name : String) : Contained W (ensureInitialized call name) := by
  intro m hm
  let marked : Machine :=
    { m with initialized := m.initialized ++ (m.uninitialized name).map (·.name) }
  have hends : Ends W ((m.uninitialized name).reverse.map (·.name)) marked
      (Machine.ensureInitialized call name m) :=
    startClasses h (fun c hc => hm ▸ loaded_of_mem_uninitialized (List.mem_reverse.1 hc)) hm
  exact hends.imp fun m' hchange => ⟨hchange.1, hchange.2.1, fun hcalm pending hready =>
    hchange.2.2 hcalm pending (Ready.mark hready name)⟩

theorem instantiate (name : String) : Contained W (instantiate call name) := by
  refine getting fun m _ => ite (bind (ensureInitialized h name) fun _ => ?_) ?_
  · exact getting fun _ _ => allocate _
  · exact bind (newLibraryObject name) fun _ => allocate _

theorem readStatic (field : MemberRef) : Contained W (readStatic call field) := by
  refine getting fun m _ => ite (bind (ensureInitialized h field.owner) fun _ => ?_) ?_
  · refine getting fun m _ => ?_
    split
    · exact pure _
    · exact fail trivial
  · refine getting fun m _ => ?_
    split
    · exact pure _
    · extract_lets finish
      have hfinish : ∀ value, Contained W (finish value) := fun value =>
        bind (modifying fun m => .refl m) fun _ => pure _
      split
      · exact bind (pure _) hfinish
      · exact bind (allocate _) hfinish
      · exact bind (fail trivial) hfinish

theorem writeStatic (field : MemberRef) (value : Value) :
    Contained W (writeStatic call field value) := by
  refine bind (ensureInitialized h field.owner) fun _ => getting fun m _ => ?_
  split
  · exact modifying fun m => .refl m
  · exact fail trivial

theorem callFound {className name descriptor : String} {method : MethodInfo}
    (hname : W.calls name) (hm : m.classes = W.classes)
    (hfind : m.findMethod? className name descriptor = some (c, method)) (args : List Value) :
    Contained W (call c method args) := by
  obtain ⟨henters, rfl⟩ := enters_of_findMethod? hfind
  exact h c method args [] (hm ▸ henters) (.inl hname)

theorem callStatic {method : MemberRef} (hname : W.calls method.name) (args : List Value) :
    Contained W (callStatic call method args) := by
  refine getting fun m _ => ite (bind (ensureInitialized h method.owner) fun _ => ?_)
    (callLibraryStatic _ _ _ _)
  refine getting fun m hm => ?_
  split
  · rename_i c found hfind
    exact callFound h hname hm hfind args
  · exact noMethod _ _ _

theorem callInstance (depth : Nat) (kind : InvokeKind) {method : MemberRef}
    (hname : W.calls method.name) (receiver : Value) (args : List Value) :
    Contained W (callInstance call depth kind method receiver args) := by
  induction depth generalizing kind method receiver args with
  | zero => exact exhausted
  | succ depth ih =>
    refine bind (asRef receiver) fun _ => bind (nonNull _) fun address => ?_
    extract_lets virtual finish
    have hfinish : ∀ className, Contained W (finish className) := fun className =>
      getting fun m hm => by
        split
        · rename_i c found hfind
          exact callFound h hname hm hfind _
        · exact getting fun m _ =>
            callLibrary (fun _ _ _ _ hother => ih _ (fun _ => hother) _ _) _ _ _ _ _ _
    split
    · exact bind (pure _) hfinish
    · exact bind (object address) fun _ => bind (pure _) hfinish

end Call

end Run.Contained

/-! ## Instructions -/

namespace Act.Contained

theorem pure (a : α) : Contained W (Pure.pure a : Act α) := fun _ => Run.Contained.pure _

theorem bind {x : Act α} {f : α → Act β} (hx : Contained W x)
    (hf : ∀ a, Contained W (f a)) : Contained W (x >>= f) := fun a =>
  Run.Contained.bind (hx a) fun result => hf result.1 result.2

theorem lift {x : Run α} (hx : Run.Contained W x) : Contained W (liftM x : Act α) :=
  fun _ => Run.Contained.bind hx fun _ => Run.Contained.pure _

theorem lift_bind (x : Run α) (f : α → Act β) (a : Activation) :
    (liftM x >>= f : Act β) a = x >>= fun b => f b a := by
  funext m
  show EStateM.bind (EStateM.bind x _) _ m = EStateM.bind x _ m
  unfold EStateM.bind
  cases x m <;> rfl

theorem liftThen {x : Run α} {f : α → Act β}
    (h : ∀ a, Run.Contained W (x >>= fun b => f b a)) : Contained W (liftM x >>= f) := fun a => by
  rw [lift_bind]
  exact h a

theorem attempt {x : Except Error α} (h : Run.Contained W (Run.ofExcept x)) :
    Contained W (Act.attempt x) := lift h

theorem fail {error : Error} (h : error.Contained) : Contained W (Act.fail error : Act α) :=
  lift (Run.Contained.fail h)

theorem get : Contained W (MonadState.get : Act Activation) := fun _ =>
  Run.Contained.pure _

theorem set (a : Activation) : Contained W (MonadStateOf.set a : Act PUnit) := fun _ =>
  Run.Contained.pure _

theorem modifying (change : Activation → Activation) :
    Contained W (modify change : Act Unit) := fun _ => Run.Contained.pure _

theorem getMachine : Contained W (getThe Machine : Act Machine) :=
  lift fun m _ => .refl m

theorem ite {c : Prop} [Decidable c] {x y : Act α} (hx : Contained W x)
    (hy : Contained W y) : Contained W (if c then x else y) := by
  split
  · exact hx
  · exact hy

theorem underflow : Contained W (Act.underflow : Act α) := bind get fun _ => fail trivial

theorem push (value : Value) : Contained W (Act.push value) := modifying _

theorem pop : Contained W Act.pop := by
  refine bind get fun a => ?_
  split
  · exact bind (set _) fun _ => pure _
  · exact underflow

theorem popInt : Contained W Act.popInt :=
  bind pop fun v => attempt (Run.Contained.asInt v)

theorem popLong : Contained W Act.popLong :=
  bind pop fun v => attempt (Run.Contained.ofExcept fun e h => by
    cases v <;> cases h <;> exact Error.contained_mismatch _ _)

theorem popFloat : Contained W Act.popFloat :=
  bind pop fun v => attempt (Run.Contained.ofExcept fun e h => by
    cases v <;> cases h <;> exact Error.contained_mismatch _ _)

theorem popDouble : Contained W Act.popDouble :=
  bind pop fun v => attempt (Run.Contained.ofExcept fun e h => by
    cases v <;> cases h <;> exact Error.contained_mismatch _ _)

theorem popRef : Contained W Act.popRef :=
  bind pop fun v => attempt (Run.Contained.asRef v)

theorem popObject : Contained W Act.popObject :=
  bind popRef fun _ => lift (Run.Contained.nonNull _)

theorem reshape (change : Stack → Option Stack) : Contained W (Act.reshape change) := by
  rw [Act.reshape_eq]
  refine bind get fun a => ?_
  cases change a.stack with
  | none => exact underflow
  | some stack => exact set _

theorem popArgs (count : Nat) : Contained W (Act.popArgs count) := by
  refine bind get fun a => ?_
  split
  · exact bind (set _) fun _ => pure _
  · exact underflow

theorem readLocal (slot : UInt16) : Contained W (Act.readLocal slot) := by
  refine bind get fun a => ?_
  split
  · exact pure _
  · exact fail (Error.contained_pieces rfl (by decide : 'l' ≠ 'u'))

theorem writeLocal (slot : UInt16) (value : Value) :
    Contained W (Act.writeLocal slot value) := modifying _

theorem jumpIf (test : Bool) (target : Label) : Contained W (Act.jumpIf test target) :=
  pure _

theorem arrayItems (address : Address) : Run.Contained W (arrayItems address) := by
  refine Run.Contained.bind (Run.Contained.object address) fun found => ?_
  split
  · exact Run.Contained.pure _
  · exact Run.Contained.fail
      (Error.contained_of_head (Error.head?_append rfl) (by decide : 'e' ≠ 'u'))

theorem storeElement (kind : ArrayKind) : Contained W (storeElement kind) := by
  refine bind pop fun value => bind popInt fun index => bind popObject fun address =>
    liftThen fun a m hm => (arrayItems address hm).bind fun found m' hfound hchange => ?_
  obtain ⟨component, items⟩ := found
  obtain ⟨object, m₁, hobject, hitems⟩ := Run.bind_eq_ok.1 hfound
  obtain ⟨hheap, rfl⟩ := Run.object_eq_ok hobject
  cases object with
  | array known old =>
    cases hitems
    dsimp only
    cases itemAt? items index with
    | some _ =>
      exact Run.ContainedAt.before (.setObject (by simp [Object.lasting]))
        (fun _ => .pure _) hm ⟨_, hheap, rfl⟩
    | none => exact lift (.raise _ _) a hm
  | _ => cases hitems

theorem negate (v : Value) : Contained W (Act.attempt (negate v)) :=
  attempt (Run.Contained.ofExcept fun e h => by
    cases v <;> cases h <;>
      exact Error.contained_of_head (Error.head?_append rfl) (by decide : 'c' ≠ 'u'))

theorem convert (v : Value) (target : Primitive) : Contained W (Act.attempt (convert v target)) :=
  attempt (Run.Contained.ofExcept fun e h => by
    cases v <;> cases target <;> cases h <;>
      exact Error.contained_pieces rfl (by decide : 'c' ≠ 'u'))

section Call

variable {call : MethodCall}
  (h : call.Contained W)

include h

theorem invoke (depth : Nat) (kind : InvokeKind) {method : MemberRef}
    (hname : W.calls method.name) : Contained W (invoke call depth kind method) := by
  refine bind (attempt (Run.Contained.paramDescriptors _)) fun _ => bind (popArgs _) fun args => ?_
  extract_lets finish
  have hfinish : ∀ result, Contained W (finish result) := fun result => by
    refine bind (attempt (Run.Contained.resultDescriptor _)) fun _ => ite ?_ (pure _)
    split
    · exact push _
    · exact fail (Error.contained_nothing _)
  split
  · exact bind (lift (Run.Contained.callStatic h hname _)) hfinish
  · exact bind pop fun _ => bind (lift (Run.Contained.callInstance h _ _ hname _ _)) hfinish

theorem perform (depth : Nat) {i : Instruction} (hcalls : ∀ name ∈ i.callee?, W.calls name) :
    Contained W (perform call depth i) := by
  cases i
  case pop => exact bind pop fun _ => pure _
  case ldc constant =>
    cases constant with
    | text => exact bind (lift (Run.Contained.text _)) fun _ => push _
    | classObject => exact bind (lift (Run.Contained.allocate _)) fun _ => push _
  case arrayStore => exact storeElement _
  case new => exact bind (lift (Run.Contained.instantiate h _)) fun _ => push _
  case putField =>
    refine bind pop fun _ => bind popObject fun _ => liftThen fun a =>
      Run.Contained.objectThen fun found => ?_
    rw [lift_bind]
    exact .setField _ _ fun _ h => .before (.setObject h) fun _ => .pure _
  case getStatic => exact bind (lift (Run.Contained.readStatic h _)) fun _ => push _
  case putStatic => exact bind pop fun _ => lift (Run.Contained.writeStatic h _ _)
  case invoke => exact invoke h _ _ (hcalls _ rfl)
  case athrow => exact bind popObject fun _ => lift (Run.Contained.thrown _)
  -- all others are put together by the rules above
  all_goals
    simp only [Machine.perform, arith]
    repeat' first
      | with_reducible exact push _
      | with_reducible exact pop
      | with_reducible exact popInt
      | with_reducible exact popLong
      | with_reducible exact popFloat
      | with_reducible exact popDouble
      | with_reducible exact popRef
      | with_reducible exact popObject
      | with_reducible exact readLocal _
      | with_reducible exact writeLocal _ _
      | with_reducible exact reshape _
      | with_reducible exact pure _
      | with_reducible exact attempt (Run.Contained.asInt _)
      | with_reducible exact attempt (Run.Contained.asRef _)
      | with_reducible exact negate _
      | with_reducible exact convert _ _
      | with_reducible exact fail (Error.contained_badOperator _ _)
      | with_reducible refine ite ?_ ?_
      | split
      | exact getMachine
      | exact lift (arrayItems _)
      | exact lift (Run.Contained.object _)
      | exact lift (Run.Contained.allocate _)
      | exact lift (Run.Contained.raise _ _)
      | refine bind ?_ fun _ => ?_

theorem step (depth : Nat) {i : Instruction} (hcalls : ∀ name ∈ i.callee?, W.calls name) :
    Contained W (step call depth i) := by
  unfold Machine.step
  split
  · exact bind popInt fun _ => jumpIf _ _
  · exact bind popInt fun _ => bind popInt fun _ => jumpIf _ _
  · exact bind pop fun _ => bind pop fun _ => jumpIf _ _
  · exact bind pop fun _ => jumpIf _ _
  · exact bind pop fun _ => jumpIf _ _
  · exact pure _
  · exact pure _
  · exact bind pop fun _ => pure _
  · exact bind (perform h depth hcalls) fun _ => pure _

end Call

end Act.Contained

/-! ## Runs -/

section Run

variable {call : MethodCall} {method : MethodInfo}

theorem Run.Contained.runFrom (h : call.Contained W) (hadmits : W.Admits method) (limit n : Nat)
    {index : Nat} (a : Activation) (hindex : W.strict → index < method.code.size) :
    Run.Contained W (runFrom call limit method n index a) := by
  induction n generalizing index a with
  | zero => exact fun m _ => ⟨.refl m, nofun⟩
  | succ n ih =>
    intro m hm
    unfold Machine.runFrom
    cases hi : method.code[index]? with
    | none =>
      refine ⟨.refl m, fun error _ hstrict => ?_⟩
      rw [Array.getElem?_eq_getElem (hindex hstrict)] at hi
      cases hi
    | some i =>
      have hstep :=
        Act.Contained.step h limit (hadmits.calls i (Array.mem_of_getElem? hi)) a hm
      dsimp only
      cases hrun : step call limit i a m with
      | ok result m' =>
        obtain ⟨t, a'⟩ := result
        rw [hrun] at hstep
        have hfrom := transfer_from_of_step hrun
        cases t with
        | next =>
          refine (ih a' fun hstrict => ?_).after hm hstep
          -- the last instruction never continues
          by_contra hout
          obtain ⟨last, hlast, hterminal⟩ := (hadmits.closed hstrict).last
          have hlt := hindex hstrict
          rw [Array.back?_eq_getElem?, show method.code.size - 1 = index by omega,
            hi] at hlast
          cases hlast
          exact absurd hterminal (by rw [hfrom]; decide)
        | jump l =>
          dsimp only
          cases hq : method.target? l with
          | none =>
            refine ⟨hstep, fun error _ hstrict => ?_⟩
            obtain ⟨q, hknown, -⟩ :=
              (hadmits.closed hstrict).jumps i (Array.mem_of_getElem? hi) l hfrom
            rw [hq] at hknown
            cases hknown
          | some q =>
            refine (ih a' fun hstrict => ?_).after hm hstep
            obtain ⟨q', hknown, hlt⟩ :=
              (hadmits.closed hstrict).jumps i (Array.mem_of_getElem? hi) l hfrom
            cases hq.symm.trans hknown
            exact hlt
        | leave result => exact hstep
      | error unwind m' =>
        rw [hrun] at hstep
        cases unwind with
        | thrown exception =>
          dsimp only
          cases hhandler : m'.handler? method index exception with
          | none => exact hstep
          | some target =>
            obtain ⟨e, he, rfl⟩ := Option.map_eq_some_iff.1 hhandler
            refine (ih _ fun hstrict => ?_).after hm hstep.1
            exact ((hadmits.closed hstrict).entries e (List.mem_of_find?_eq_some he)).2.2
        | fatal | exhausted => exact hstep

theorem becomes_entering (m : Machine) (h : W.calls method.name ∨ names = [c.name]) :
    m.Becomes W names (m.entering c method) := by
  unfold entering
  split
  · rename_i hname
    refine ⟨rfl, fun _ _ h => h, fun hcalm pending hready => ?_⟩
    rcases h with hcalls | rfl
    · exact absurd (beq_iff_eq.1 hname) (hcalls hcalm)
    · exact hready.enter
  · exact (Becomes.refl m).drop

theorem Run.Starts.callMethod
    (hadmits : ∀ c method, Enters W.classes c method → W.Admits method)
    (limit depth : Nat) (args : List Value) (h : W.Admits method)
    (hnames : W.calls method.name ∨ names = [c.name]) :
    Run.Starts W names (callMethod limit depth c method args) := by
  induction depth generalizing c method args names with
  | zero =>
    refine Run.Contained.starts ?_
    exact .fail trivial
  | succ depth ih =>
    have henter : Run.Starts W names (modify (·.entering c method) : Run Unit) :=
      fun m _ => becomes_entering m hnames
    refine .after (.note _ _) fun _ => ?_
    rw [← List.append_nil names]
    exact henter.bind fun _ => Run.Contained.runFrom (fun c method args names henters hnames =>
      ih args (hadmits c method henters) hnames) h limit limit _
      fun hstrict => (h.closed hstrict).nonempty

theorem Regime.Admits.lax (classes : List (String × ClassFile)) (method : MethodInfo) :
    (Regime.lax classes).Admits method := ⟨False.elim, fun _ _ _ _ => False.elim⟩

/-- Whatever the method, a call keeps the classes and what lasts of the objects. -/
theorem Run.Starts.callAny (classes : List (String × ClassFile)) (limit depth : Nat)
    (c : ClassFile) (method : MethodInfo) (args : List Value) :
    Run.Starts (.lax classes) names (Machine.callMethod limit depth c method args) :=
  .callMethod (fun _ _ _ => .lax ..) limit depth args (.lax ..) (.inl False.elim)

end Run

/-- The outcome says that control left the code of a method of these classes. -/
inductive Outcome.Escapes (classes : List ClassFile) : Outcome → Prop
  | fellOffEnd (method : String) : Escapes classes (.error (.fellOffEnd method))
  | unknownLabel {c : ClassFile} {method : MethodInfo} (l : Label) : c ∈ classes →
    method ∈ c.methods → Escapes classes (.error (.typeMismatch ("unknown label " ++ l.name ++
      " in " ++ (c.name ++ "." ++ method.name ++ method.descriptor))))

theorem Error.Contained.not_escapes {error : Error} {classes : List ClassFile}
    (h : error.Contained)
    (hdescriptor : ∀ c ∈ classes, ∀ method ∈ c.methods,
      ∃ params result, method.descriptor = methodDescriptor params result) :
    ¬ (Outcome.error error).Escapes classes := by
  intro hescapes
  cases hescapes with
  | fellOffEnd => exact h
  | unknownLabel l hc hmethod =>
    obtain ⟨params, result, heq⟩ := hdescriptor _ hc _ hmethod
    have hlast := h (Error.head?_append (Error.head?_append (Error.head?_append rfl)))
    rw [heq, methodDescriptor, ← String.append_assoc, ← String.append_assoc] at hlast
    exact Ty.getLast?_append_descriptor_ne _ result hlast

/-- A request to the machine kept to the regime. -/
def Serves (W : Regime) (m : Machine) (run : Outcome × Machine) : Prop :=
  m.Becomes W [] run.2 ∧ ∀ error, run.1 = .error error → W.strict → error.Contained

section Serves

variable (hadmits : ∀ c method, Enters W.classes c method → W.Admits method)
  (hm : m.classes = W.classes) (limit : Nat) (className : String)

include hadmits hm

theorem serves_invokeStatic {name : String} (hname : W.calls name) (descriptor : String)
    (args : List Value) : m.Serves W (m.invokeStatic limit className name descriptor args) := by
  have hcalls : (callMethod limit callDepth).Contained W := fun c method args names henters =>
    .callMethod hadmits limit callDepth args (hadmits c method henters)
  unfold invokeStatic
  extract_lets method
  have hends := Run.Contained.callStatic hcalls (by exact hname : W.calls method.name) args hm
  cases hrun : callStatic (callMethod limit callDepth) method args m with
  | ok result m' =>
    rw [hrun] at hends
    exact ⟨hends, nofun⟩
  | error unwind m' =>
    rw [hrun] at hends
    cases unwind with
    | thrown exception =>
      refine ⟨hends.1, fun error herror _ => ?_⟩
      cases herror
      trivial
    | fatal error =>
      refine ⟨hends.1, fun error' herror => ?_⟩
      cases herror
      exact hends.2 error rfl
    | exhausted => exact ⟨hends.1, nofun⟩

omit hadmits hm in
theorem becomes_allocateTexts (m : Machine) (texts : List String) :
    m.Becomes W [] (m.allocateTexts texts).2 := by
  induction texts generalizing m with
  | nil => exact .refl m
  | cons text texts ih => exact (becomes_allocate m _).trans (ih _)

theorem serves_runMain (args : List String) : m.Serves W (m.runMain limit className args) := by
  have hready := (m.becomes_allocateTexts (W := W) args).trans (becomes_allocate _
    (.array "Ljava/lang/String;" (m.allocateTexts args).1.toArray))
  have hserves := serves_invokeStatic hadmits (hready.1.trans hm) limit className
    (fun _ => by decide : W.calls "main") "([Ljava/lang/String;)V"
    [.ref (m.allocateTexts args).2.heap.size]
  exact ⟨hready.trans hserves.1, hserves.2⟩

end Serves

/-- The run leaves neither the code of the classes nor changes which are
loaded. -/
def StaysInside (classes : List ClassFile) (m : Machine) (run : Outcome × Machine) : Prop :=
  ¬ run.1.Escapes classes ∧ run.2.classes = m.classes

end Machine

/-! ## Compiled programs -/

/-- Every method with a body has closed code. No run of a unit leaves the code
of its methods, unless a class has a method without a body for its
initializer. -/
theorem Program.closed_and_staysInside {program : Program} {compiled : CompiledUnit}
    (h : program.compile.1 = .ok compiled) :
    (∀ c ∈ compiled.classes, ∀ method ∈ c.methods, method.isAbstract = false → method.Closed) ∧
      ((∀ c ∈ compiled.classes, ∀ method, c.initializer? = some method →
          method.isAbstract = false) →
        ∀ m : Machine, (∀ entry ∈ m.classes, entry.2 ∈ compiled.classes) → ∀ limit className,
          (∀ name descriptor args, m.StaysInside compiled.classes
            (m.invokeStatic limit className name descriptor args)) ∧
          ∀ args, m.StaysInside compiled.classes (m.runMain limit className args)) := by
  obtain ⟨ctx, hbuilds⟩ := program.exists_builds h
  have hclosed : ∀ c ∈ compiled.classes, ∀ method ∈ c.methods, method.isAbstract = false →
      method.Closed := fun c hc method hmethod => (hbuilds c hc method hmethod).closed
  refine ⟨hclosed, fun hinitializer m hclasses limit className => ?_⟩
  have hadmits : ∀ c method, Machine.Enters m.classes c method →
      Machine.Regime.Admits ⟨True, False, m.classes⟩ method := by
    rintro c method ⟨⟨known, hloaded⟩, hdeclared, henterable⟩
    have hc := hclasses _ hloaded
    exact ⟨fun _ => hclosed c hc method hdeclared (henterable.elim id (hinitializer c hc method)),
      fun _ _ _ _ => False.elim⟩
  have hstays : ∀ run, m.Serves ⟨True, False, m.classes⟩ run →
      m.StaysInside compiled.classes run := by
    rintro ⟨outcome, m'⟩ ⟨hkeeps, hcontained⟩
    refine ⟨fun hescapes => ?_, hkeeps.1⟩
    cases outcome with
    | value | unfinished => cases hescapes
    | error error =>
      exact (hcontained error rfl trivial).not_escapes
        (fun c hc method hmethod => (hbuilds c hc method hmethod).descriptor_eq) hescapes
  exact ⟨fun name descriptor args => hstays _ (Machine.serves_invokeStatic hadmits rfl limit
      className (fun hcalm _ => hcalm) descriptor args),
    fun args => hstays _ (Machine.serves_runMain hadmits rfl limit className args)⟩

def printingDemo : Program := .ofBuild do
  let three ← Build.node (.fixnum 3) (some Ty.int) none
  let print ← Build.node (.print true [three]) none none
  Build.node (.script [print]) none none

theorem printingDemo_staysInside : ∃ compiled, printingDemo.compile.1 = .ok compiled ∧
    (compiled.classes ≠ [] ∧
      ∀ c ∈ compiled.classes, ∀ method ∈ c.methods, method.isAbstract = false ∧ method.Closed) ∧
    ∀ limit, compiled.machine.StaysInside compiled.classes
      (compiled.machine.runMain limit "Demo" []) := by
  obtain ⟨compiled, hcompile, heval⟩ := exists_ok_of_any (x := printingDemo.compile.1)
    (p := fun compiled => !compiled.classes.isEmpty && compiled.classes.all fun c =>
      c.methods.all (!·.isAbstract)) (by decide +kernel)
  simp only [Bool.and_eq_true, Bool.not_eq_true', List.isEmpty_eq_false_iff,
    List.all_eq_true] at heval
  obtain ⟨hclosed, hinside⟩ := Program.closed_and_staysInside hcompile
  refine ⟨compiled, hcompile, ⟨heval.1, fun c hc method hmethod => ?_⟩, fun limit => ?_⟩
  · have hbody := heval.2 c hc method hmethod
    exact ⟨hbody, hclosed c hc method hmethod hbody⟩
  · exact (hinside (fun c hc method hfind =>
      heval.2 c hc method (List.mem_of_find?_eq_some hfind)) compiled.machine
      (fun _ => CompiledUnit.mem_of_machine) limit "Demo").2 []

/-- An interface with a method `<clinit>` and a static method `g`, and a script
that prints what `g` returns. -/
def initializerDemo : Program := .ofBuild do
  let initializer ← Build.node (.methodDef {
    name := "<clinit>", args := [], body := none, isStatic := false, throws := [], notes := [] })
    (some .void) none
  let three ← Build.node (.fixnum 3) (some Ty.int) none
  let g ← Build.node (.methodDef {
    name := "g", args := [], body := some three, isStatic := true, throws := [], notes := [] })
    (some Ty.int) none
  let interface ← Build.node (.classDef {
    name := "I", superclass := none, interfaces := [], isInterface := true,
    body := [initializer, g] }) none none
  let target ← Build.node (.typeRef "I") none none
  let call ← Build.node (.call target "g" []) (some Ty.int) none
  let print ← Build.node (.print true [call]) none none
  Build.node (.script [interface, print]) none none

theorem initializerDemo_escapes : ∃ compiled, initializerDemo.compile.1 = .ok compiled ∧
    (compiled.machine.runMain 100 "Demo" []).1.Escapes compiled.classes := by
  obtain ⟨compiled, hcompile, heval⟩ := exists_ok_of_any (x := initializerDemo.compile.1)
    (p := fun compiled => (compiled.machine.runMain 100 "Demo" []).1.error? ==
      some (.fellOffEnd "I.<clinit>()V")) (by decide +kernel)
  refine ⟨compiled, hcompile, ?_⟩
  rw [Machine.Outcome.eq_error (beq_iff_eq.1 heval)]
  exact .fellOffEnd _

end ClassBackend
