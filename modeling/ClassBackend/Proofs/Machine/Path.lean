import ClassBackend.Proofs.Emission.Laid
import ClassBackend.Proofs.Machine.Action
import Mathlib.Logic.Relation

/-!
# Paths through a method

A run of a method passes through configurations: an instruction, the
activation and the machine. From one it *goes* on to the next, or an exception
is *caught* there. Where control goes is a matter of the instruction
(`Machine.transfer_from_of_step`).
-/

namespace ClassBackend.Machine

variable {i : Instruction} {a a' : Activation} {m m' : Machine} {t : Transfer} {depth : Nat}

/-! ## Where control goes -/

/-- The instruction sends control this way. -/
def Transfer.From (i : Instruction) : Transfer → Prop
  | .next => i.isTerminal = false
  | .jump l => i.jumpTarget? = some l
  | .leave _ => i.isReturn = true

theorem Transfer.from_of_jumpIf {test : Bool} {target : Label} (hend : i.isTerminal = false)
    (htarget : i.jumpTarget? = some target) (h : Act.jumpIf test target a m = .ok (t, a') m') :
    t.From i := by
  obtain ⟨rfl, -, -⟩ := Act.pure_eq_ok.1 h
  cases test with
  | false => exact hend
  | true => exact htarget

variable {call : MethodCall}

theorem perform_athrow_ne_ok : perform call depth .athrow a m ≠ .ok ((), a') m' := by
  intro h
  obtain ⟨exception, a₁, m₁, -, hthrow⟩ := Act.bind_eq_ok.1 h
  cases hthrow

/-- Control goes on with the next instruction, to the target of a jump, or out of
the method. -/
theorem transfer_from_of_step (h : step call depth i a m = .ok (t, a') m') : t.From i := by
  cases i
  case ifZero | ifNull | ifNonNull =>
    obtain ⟨_, _, _, -, h⟩ := Act.bind_eq_ok.1 h
    exact Transfer.from_of_jumpIf rfl rfl h
  case ifInt | ifRef =>
    obtain ⟨_, _, _, -, h⟩ := Act.bind_eq_ok.1 h
    obtain ⟨_, _, _, -, h⟩ := Act.bind_eq_ok.1 h
    exact Transfer.from_of_jumpIf rfl rfl h
  case goto =>
    obtain ⟨rfl, -, -⟩ := Act.pure_eq_ok.1 h
    rfl
  case ret kind =>
    cases kind with
    | none =>
      obtain ⟨rfl, -, -⟩ := Act.pure_eq_ok.1 h
      rfl
    | some kind =>
      obtain ⟨_, _, _, -, h⟩ := Act.bind_eq_ok.1 h
      obtain ⟨rfl, -, -⟩ := Act.pure_eq_ok.1 h
      rfl
  case athrow =>
    obtain ⟨_, _, _, hthrow, -⟩ := Act.bind_eq_ok.1 h
    exact absurd hthrow perform_athrow_ne_ok
  all_goals
    obtain ⟨_, _, _, -, h⟩ := Act.bind_eq_ok.1 h
    obtain ⟨rfl, -, -⟩ := Act.pure_eq_ok.1 h
    rfl

theorem step_eq_perform (hjump : i.jumpTarget? = none) (hreturn : i.isReturn = false) :
    step call depth i = (do perform call depth i; return .next) := by
  cases i <;> first | rfl | (cases hjump; done) | cases hreturn

/-! ## Locals -/

theorem Value.words_pos (v : Value) : 0 < v.words := by
  unfold Value.words
  split <;> decide

namespace Activation

theorem getElem?_store (a : Activation) (slot : Nat) (value : Value) :
    (a.store slot value).locals[slot]? = some value := by
  have hwords := value.words_pos
  simp only [store, Array.getElem?_setIfInBounds, if_true, Array.size_append,
    Array.size_replicate]
  rw [if_pos (by omega)]

theorem getElem?_store_of_ne {slot other : Nat} {value kept : Value} (h : other ≠ slot)
    (hkept : a.locals[other]? = some kept) : (a.store slot value).locals[other]? = some kept := by
  have hlt := (Array.getElem?_eq_some_iff.1 hkept).1
  simp only [store, Array.getElem?_setIfInBounds, if_neg h.symm]
  rw [Array.getElem?_append_left hlt, hkept]

end Activation

/-! ## Configurations -/

/-- An activation of a method that is about to run an instruction. -/
structure Config where
  index : Nat
  activation : Activation
  machine : Machine

section

variable (call : MethodCall) (limit : Nat) (method : MethodInfo)

/-- Control goes on without an exception. -/
inductive Goes (c : Config) : Config → Prop
  | next {i : Instruction} {a : Activation} {m : Machine} :
    method.code[c.index]? = some i →
    step call limit i c.activation c.machine = .ok (.next, a) m →
    Goes c ⟨c.index + 1, a, m⟩
  | jump {i : Instruction} {a : Activation} {m : Machine} {l : Label} {target : Nat} :
    method.code[c.index]? = some i →
    step call limit i c.activation c.machine = .ok (.jump l, a) m →
    method.target? l = some target → Goes c ⟨target, a, m⟩

/-- An exception is raised and caught in the method. -/
inductive Catches (c : Config) (exception : Address) : Config → Prop
  | intro {i : Instruction} {m : Machine} {target : Nat} :
    method.code[c.index]? = some i →
    step call limit i c.activation c.machine = .error (.thrown exception) m →
    m.handler? method c.index exception = some target →
    Catches c exception ⟨target, { c.activation with stack := [.ref exception] }, m⟩

def Moves (c c' : Config) : Prop :=
  Goes call limit method c c' ∨ ∃ exception, Catches call limit method c exception c'

def Reaches : Config → Config → Prop := Relation.ReflTransGen (Moves call limit method)

omit method in
/-- The instructions are run one after the other, none of them jumps, and the last leaves
this activation and this machine. -/
inductive Runs : List Instruction → Activation → Machine → Activation → Machine → Prop
  | nil (a : Activation) (m : Machine) : Runs [] a m a m
  | cons {i : Instruction} {is : List Instruction} {a a' a'' : Activation} {m m' m'' : Machine} :
    step call limit i a m = .ok (.next, a') m' → Runs is a' m' a'' m'' → Runs (i :: is) a m a'' m''

end

theorem field_of_putField {address : Address} {value : Value} {rest : Stack} {field : MemberRef}
    (hstack : a.stack = value :: .ref address :: rest)
    (h : perform call depth (.putField field) a m = .ok ((), a') m') :
    ∃ object, m'.heap[address]? = some object ∧ object.field? field.name = some value := by
  obtain ⟨top, a₁, m₁, hpop, hrest⟩ := Act.bind_eq_ok.1 h
  rw [Act.pop_ok hstack] at hpop
  cases hpop
  obtain ⟨known, a₂, m₂, hobject, hrest⟩ := Act.bind_eq_ok.1 hrest
  obtain ⟨_, hknown, -, rfl⟩ := Act.popObject_eq_ok hobject
  obtain rfl := Value.ref.inj (List.cons.inj hknown).1
  obtain ⟨object, a₃, m₃, hread, hset⟩ := Act.bind_eq_ok.1 hrest
  obtain ⟨hheap, rfl⟩ := Run.object_eq_ok (Act.lift_eq_ok.1 hread).1
  obtain ⟨written, a₄, m₄, hfield, hwrite⟩ := Act.bind_eq_ok.1 hset
  obtain ⟨hwritten, -⟩ := Act.lift_eq_ok.1 hfield
  obtain ⟨hwrite, -⟩ := Act.lift_eq_ok.1 hwrite
  cases object with
  | inst className fields =>
    cases hwritten
    cases hwrite
    refine ⟨.inst className (Object.putEntry field.name value fields), ?_,
      (Object.lookup_putEntry field.name value fields _).trans (if_pos rfl)⟩
    exact Array.getElem?_setIfInBounds_self_of_lt (Array.getElem?_eq_some_iff.1 hheap).1
  | _ => cases hwritten

end ClassBackend.Machine
