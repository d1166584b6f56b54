import ClassBackend.Machine.Run

/-!
# What machine actions do

Equations for the primitive actions on a machine, in the form in which a run is
followed step by step: `Run.then_ok` goes on after an action that ended with a
result.
-/

namespace ClassBackend.Machine.Run

variable {α β : Type} {m m' m'' : Machine}

theorem then_ok {x : Run α} {f : α → Run β} {a : α} {result : EStateM.Result Unwind Machine β}
    (hx : x m = .ok a m') (hf : f a m' = result) : (x >>= f) m = result := by
  show EStateM.bind x f m = result
  simp only [EStateM.bind, hx]
  exact hf

variable {address : Address}

theorem object_ok {object : Object} (h : m.heap[address]? = some object) :
    Run.object address m = .ok object m := by
  refine then_ok (rfl : (get : Run Machine) m = .ok m m) ?_
  rw [h]
  rfl

theorem asText_ok {value : String} (h : m.heap[address]? = some (.text value)) :
    Run.asText (.ref address) m = .ok (some value) m :=
  then_ok rfl (then_ok (object_ok h) rfl)

theorem bind_eq_ok {x : Run α} {f : α → Run β} {b : β} :
    (x >>= f) m = .ok b m'' ↔ ∃ a m', x m = .ok a m' ∧ f a m' = .ok b m'' := by
  show EStateM.bind x f m = .ok b m'' ↔ _
  unfold EStateM.bind
  cases x m with
  | ok a m' => simp [and_assoc]
  | error unwind m' => simp

theorem object_eq_ok {object : Object} (h : Run.object address m = .ok object m') :
    m.heap[address]? = some object ∧ m' = m := by
  cases hobject : m.heap[address]? with
  | none =>
    obtain ⟨_, m₁, hget, hrest⟩ := bind_eq_ok.1 h
    cases hget
    rw [hobject] at hrest
    cases hrest
  | some known =>
    rw [object_ok hobject] at h
    cases h
    exact ⟨rfl, rfl⟩

end ClassBackend.Machine.Run

namespace ClassBackend.Machine

theorem Object.lookup_putEntry (name : String) (value : Value) (fields : List (String × Value))
    (other : String) : (Object.putEntry name value fields).lookup other =
      if other = name then some value else fields.lookup other := by
  induction fields with
  | nil =>
    by_cases h : other = name <;> simp [Object.putEntry, h]
  | cons entry rest ih =>
    obtain ⟨known, old⟩ := entry
    rw [Object.putEntry]
    by_cases hknown : known = name
    · subst hknown
      rw [if_pos (beq_self_eq_true _), List.lookup_cons, List.lookup_cons]
      by_cases hother : other = known
      · simp [hother]
      · simp [hother, beq_false_of_ne hother]
    · rw [if_neg (by simpa using hknown), List.lookup_cons, List.lookup_cons, ih]
      by_cases hother : other = known
      · simp [hother, hknown]
      · simp [beq_false_of_ne hother]

end ClassBackend.Machine

namespace ClassBackend.Machine.Act

variable {α β : Type} {m m' : Machine} {a a' : Activation}

theorem bind_eq_ok {x : Act α} {f : α → Act β} {c : β} : (x >>= f) a m = .ok (c, a') m' ↔
      ∃ b a₁ m₁, x a m = .ok (b, a₁) m₁ ∧ f b a₁ m₁ = .ok (c, a') m' := by
  refine Run.bind_eq_ok.trans ?_
  constructor
  · rintro ⟨⟨b, a₁⟩, m₁, hx, hf⟩
    exact ⟨b, a₁, m₁, hx, hf⟩
  · rintro ⟨b, a₁, m₁, hx, hf⟩
    exact ⟨(b, a₁), m₁, hx, hf⟩

variable {b : α} {value : Value}

theorem then_ok {x : Act α} {f : α → Act β}
    {result : EStateM.Result Unwind Machine (β × Activation)} (hx : x a m = .ok (b, a') m')
    (hf : f b a' m' = result) : (x >>= f) a m = result :=
  Run.then_ok hx hf

theorem pop_ok {rest : Stack} (h : a.stack = value :: rest) :
    pop a m = .ok (value, { a with stack := rest }) m := by
  refine then_ok (rfl : (get : Act Activation) a m = .ok (a, a) m) ?_
  rw [h]
  rfl

theorem popObject_ok {address : Address} {rest : Stack} (h : a.stack = .ref address :: rest) :
    popObject a m = .ok (address, { a with stack := rest }) m :=
  then_ok (then_ok (pop_ok h) rfl) rfl

/-- A change that finds too little on the stack leaves the activation as it was. -/
theorem run_reshape (change : Stack → Option Stack) (a : Activation) :
    Activation.reshape change a = (change a.stack).elim
      (.error (.stackUnderflow a.method) a) fun stack => .ok () { a with stack } := by
  have hget : (get : EStateM Error Activation Activation) a = .ok a a := rfl
  simp only [Activation.reshape, bind, EStateM.bind, hget]
  cases change a.stack <;> rfl

theorem reshape_eq (change : Stack → Option Stack) : reshape change =
    (do let a ← get; (change a.stack).elim underflow fun stack => set { a with stack }) := by
  funext a m
  refine then_ok (rfl : (get : Act Activation) a m = .ok (a, a) m) ?_
  refine Eq.trans ?_ (then_ok (rfl : (get : Act Activation) a m = .ok (a, a) m) rfl).symm
  rw [EStateM.run, run_reshape]
  cases change a.stack <;> rfl

theorem reshape_ok {change : Stack → Option Stack} {stack : Stack}
    (h : change a.stack = some stack) : reshape change a m = .ok ((), { a with stack }) m := by
  rw [reshape_eq]
  refine then_ok (rfl : (get : Act Activation) a m = .ok (a, a) m) ?_
  rw [h]
  rfl

theorem popArgs_ok {count : Nat} {args : List Value} {stack : Stack}
    (h : a.stack.takeEntries count = some (args, stack)) :
    popArgs count a m = .ok (args, { a with stack }) m := by
  refine then_ok (rfl : (get : Act Activation) a m = .ok (a, a) m) ?_
  rw [h]
  rfl

theorem readLocal_ok {slot : UInt16} (h : a.locals[slot.toNat]? = some value) :
    readLocal slot a m = .ok (value, a) m := by
  refine then_ok (rfl : (get : Act Activation) a m = .ok (a, a) m) ?_
  rw [h]
  rfl

theorem attempt_ok {x : Except Error α} (h : x = .ok b) : attempt x a m = .ok (b, a) m := by
  rw [h]
  rfl

theorem lift_eq_ok {x : Run α} :
    (liftM x : Act α) a m = .ok (b, a') m' ↔ x m = .ok b m' ∧ a' = a := by
  refine Run.bind_eq_ok.trans ⟨?_, ?_⟩
  · rintro ⟨c, m₁, hx, hpure⟩
    cases hpure
    exact ⟨hx, rfl⟩
  · rintro ⟨hx, rfl⟩
    exact ⟨b, m', hx, rfl⟩

theorem pop_eq_ok (h : pop a m = .ok (value, a') m') :
    ∃ rest, a.stack = value :: rest ∧ a' = { a with stack := rest } ∧ m' = m := by
  cases hstack : a.stack with
  | nil =>
    obtain ⟨b, a₁, m₁, hget, hrest⟩ := bind_eq_ok.1 h
    cases hget
    rw [hstack] at hrest
    cases hrest
  | cons top rest =>
    rw [pop_ok hstack] at h
    cases h
    exact ⟨rest, rfl, rfl, rfl⟩

theorem popObject_eq_ok {address : Address} (h : popObject a m = .ok (address, a') m') :
    ∃ rest, a.stack = .ref address :: rest ∧ a' = { a with stack := rest } ∧ m' = m := by
  obtain ⟨reference, a₁, m₁, href, hnull⟩ := bind_eq_ok.1 h
  obtain ⟨value, a₂, m₂, hpop, hattempt⟩ := bind_eq_ok.1 href
  obtain ⟨rest, hstack, ha₂, hm₂⟩ := pop_eq_ok hpop
  obtain ⟨hrun, ha⟩ := lift_eq_ok.1 hnull
  cases value with
  | ref known =>
    cases hattempt
    cases hrun
    exact ⟨rest, hstack, ha.trans ha₂, hm₂⟩
  | null =>
    cases hattempt
    cases hrun
  | _ => cases hattempt

theorem pure_eq_ok {c : α} : (pure b : Act α) a m = .ok (c, a') m' ↔ b = c ∧ a = a' ∧ m = m' := by
  show EStateM.Result.ok (b, a) m = .ok (c, a') m' ↔ _
  simp [and_assoc]

end ClassBackend.Machine.Act
