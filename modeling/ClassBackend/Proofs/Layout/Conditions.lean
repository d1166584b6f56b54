import ClassBackend.Proofs.Layout.Part

/-!
# Jumping on a condition

A condition can be made a value, and it can be jumped on. Both emissions start with
the same operands (`Condition.operands`) and differ in what stands behind them. The
jump is taken exactly if the value that would have been made is not zero, or is
zero, as it was asked for, and both leave alone what is below the operands
(`Context.branch_agrees`).
-/

namespace ClassBackend

open Machine

/-! ## Comparisons -/

/-- How two numbers compare, by whether the first is less, equal or greater. -/
def ordering? (less equal greater : Bool) : Option Ordering :=
  if less then some .lt else if equal then some .eq else if greater then some .gt else none

def Single.order? (x y : Single) : Option Ordering :=
  ordering? (x.toFloat32 < y.toFloat32) (x.toFloat32 == y.toFloat32) (y.toFloat32 < x.toFloat32)

def Double.order? (x y : Double) : Option Ordering :=
  ordering? (x.toFloat < y.toFloat) (x.toFloat == y.toFloat) (y.toFloat < x.toFloat)

namespace Cond

/-- Of an unordered pair, only that its numbers differ. -/
def holds (cond : Cond) : Option Ordering → Bool
  | some ordering => cond.test ordering
  | none => cond == .ne

/-- What an operator of the source says about two operands. -/
def compare? (cond : Cond) : Option Kind → (left right : Value) → Option Bool
  | some .int, .int x, .int y => some (cond.test (compareInt x y))
  | some .long, .long x, .long y => some (cond.test (compareLong x y))
  | some .float, .float x, .float y => some (cond.holds (x.order? y))
  | some .double, .double x, .double y => some (cond.holds (x.order? y))
  | _, _, _ => none

/-- The test that a jump makes: the condition, or its negation. -/
def asked (cond : Cond) (when : Bool) : Cond := if when then cond else cond.negate

/-- What a biased comparison gives for an unordered pair. -/
def bias (cond : Cond) : Int32 := if cond == .lt || cond == .le then 1 else -1

variable (cond : Cond)

theorem test_asked (when : Bool) (ordering : Ordering) :
    (cond.asked when).test ordering = (cond.test ordering == when) := by
  cases cond <;> cases when <;> cases ordering <;> rfl

theorem test_signOf (ordering : Ordering) :
    cond.test (compareInt (signOf ordering) 0) = cond.test ordering := by
  cases ordering <;> rfl

/-- The bias makes every test of an unordered pair come out as it should. -/
theorem test_biased (less equal greater : Bool) :
    cond.test (compareInt (if less then -1 else if equal then 0 else if greater then 1
      else cond.bias) 0) = cond.holds (ordering? less equal greater) := by
  cases less <;> cases equal <;> cases greater <;> cases cond <;> rfl

theorem test_compareFloat (x y : Single) :
    cond.test (compareInt (compareFloat cond.bias x y) 0) = cond.holds (x.order? y) := by
  rw [Single.order?, ← test_biased]
  simp [compareFloat]

theorem test_compareDouble (x y : Double) :
    cond.test (compareInt (compareDouble cond.bias x y) 0) = cond.holds (x.order? y) := by
  rw [Double.order?, ← test_biased]
  simp [compareDouble]

theorem eq_zero (n : Int32) : Cond.eq.test (compareInt n 0) = decide (n = 0) := by
  by_cases hn : n = 0
  · subst hn
    rfl
  · unfold compareInt
    split <;> simp [hn, Cond.test]

theorem ne_zero (n : Int32) : Cond.ne.test (compareInt n 0) = decide (n ≠ 0) := by
  rw [decide_not, ← eq_zero]
  rfl

end Cond

/-! ## Conditions -/

/-- What a node says that has a truth value. -/
inductive Condition where
  | literal (value : Bool)
  | compare (cond : Cond) (operand : Ty) (site : CallSite)
  | instanceOf (name : String) (site : CallSite)
  | empty (site : CallSite)
  | call (m : Member) (site : CallSite)
  | plain (node : Node)
  | not (condition : Condition)

namespace Condition

/-- What a call of a member says, unless it is a negation. -/
def ofMember : Member → CallSite → Condition
  | .compare cond _ _ operand, site => .compare cond operand site
  | .instanceOf _ tested, site => .instanceOf tested.unmeta.internalName site
  | .array .empty .., site => .empty site
  | m, site => .call m site

def operands (ctx : Context) (recur : Recursion) : Condition → Emit Unit
  | .literal _ => pure ()
  | .compare _ operand site => do
    let left ← Emit.ofExcept site.receiver
    let right ← Emit.ofExcept site.operand
    ctx.emitAs recur left operand
    ctx.emitAs recur right operand
  | .instanceOf _ site | .empty site => ctx.emitReceiver recur site true
  | .call m site => ctx.callMember recur m site true
  | .plain node => recur.emit node true
  | .not condition => condition.operands ctx recur

def truth (b : Bool) : Int32 := if b then 1 else 0

def top? : Stack → Option (Int32 × Stack)
  | .int n :: stack => some (n, stack)
  | _ => none

/-- The value of a condition whose operands are on the stack, and what is below
them. Only zero and one can be negated. -/
def value? (m : Machine) : Condition → Stack → Option (Int32 × Stack)
  | .literal value, stack => some (truth value, stack)
  | .compare cond operand _, right :: left :: stack =>
    (cond.compare? operand.stackKind? left right).map (truth ·, stack)
  | .instanceOf name _, value :: stack =>
    value.asRef.toOption.map fun reference => (truth (reference.any (m.instanceOf · name)), stack)
  | .empty _, .ref address :: stack => do
    let .array _ items ← m.heap[address]? | none
    return (truth (Int32.ofNat items.size = 0), stack)
  | .call .., stack | .plain _, stack => top? stack
  | .not condition, stack => (condition.value? m stack).bind fun v =>
    if v.1 = 0 ∨ v.1 = 1 then some (1 - v.1, v.2) else none
  | _, _ => none

/-- The code behind the operands that jumps on a condition. -/
def jumpCode (l : Label) : Condition → (when : Bool) → Except Fault (List Instruction)
  | .literal value, when => .ok (if value == when then [.goto l] else [])
  | .compare cond operand _, when => Member.compareCode cond operand (cond.asked when) l
  | .instanceOf name _, when => .ok [.instanceOf name, .ifZero (Cond.ne.asked when) l]
  | .empty _, when => .ok [.arrayLength, .ifZero (Cond.eq.asked when) l]
  | .call .., when | .plain _, when => .ok [.ifZero (Cond.ne.asked when) l]
  | .not condition, when => condition.jumpCode l (!when)

variable {m : Machine} {c : Condition} {stack rest : Stack} {n : Int32} {site : CallSite}

theorem truth_cases (b : Bool) : truth b = 0 ∨ truth b = 1 := by cases b <;> simp [truth]

theorem truth_ne_zero (b : Bool) : decide (truth b ≠ 0) = b := by cases b <;> rfl

theorem top?_eq_some (h : top? stack = some (n, rest)) : stack = .int n :: rest := by
  unfold top? at h
  split at h
  · cases h
    rfl
  · cases h

theorem compare_eq_some {cond : Cond} {operand : Ty}
    (h : (compare cond operand site).value? m stack = some (n, rest)) :
    ∃ left right b, stack = right :: left :: rest ∧
      cond.compare? operand.stackKind? left right = some b ∧ n = truth b := by
  obtain _ | ⟨right, _ | ⟨left, stack⟩⟩ := stack
  · cases h
  · cases h
  · obtain ⟨b, hb, heq⟩ := Option.map_eq_some_iff.1 h
    cases heq
    exact ⟨left, right, b, rfl, hb, rfl⟩

theorem empty_eq_some (h : (empty site).value? m stack = some (n, rest)) :
    ∃ address component items, stack = .ref address :: rest ∧
      m.heap[address]? = some (.array component items) ∧
      n = truth (Int32.ofNat items.size = 0) := by
  obtain _ | ⟨value, stack⟩ := stack
  · cases h
  · cases value with
    | ref address =>
      obtain ⟨object, hobject, hsize⟩ := Option.bind_eq_some_iff.1 h
      cases object with
      | array component items =>
        cases hsize
        exact ⟨address, component, items, rfl, hobject, rfl⟩
      | _ => cases hsize
    | _ => cases h

theorem not_eq_some (h : (not c).value? m stack = some (n, rest)) :
    ∃ k, c.value? m stack = some (k, rest) ∧ n = k ^^^ 1 ∧ decide (n ≠ 0) = !decide (k ≠ 0) := by
  have hflip : ∀ k : Int32, k = 0 ∨ k = 1 →
      1 - k = k ^^^ 1 ∧ decide (1 - k ≠ 0) = !decide (k ≠ 0) := by
    rintro k (rfl | rfl) <;> decide
  obtain ⟨⟨k, left⟩, hk, hn⟩ := Option.bind_eq_some_iff.1 h
  split at hn
  · rename_i hbit
    cases hn
    exact ⟨k, hk, hflip k hbit⟩
  · cases hn

end Condition

/-! ## Running the jump -/

/-- The code goes on behind it, or jumps with its last instruction. -/
inductive Machine.Decides (call : MethodCall) (limit : Nat) (l : Label) (m : Machine) :
    List Instruction → Activation → Bool → Activation → Prop
  | stay (a : Activation) : Decides call limit l m [] a false a
  | jump {i : Instruction} {a a' : Activation} :
    step call limit i a m = .ok (.jump l, a') m → Decides call limit l m [i] a true a'
  | next {i : Instruction} {is : List Instruction} {a a₁ a' : Activation} {taken : Bool} :
    step call limit i a m = .ok (.next, a₁) m → Decides call limit l m is a₁ taken a' →
    Decides call limit l m (i :: is) a taken a'

section

variable {call : MethodCall} {limit : Nat} {l : Label} {m : Machine} {a a' : Activation}
  {when taken : Bool} {method : MethodInfo} {code : List Instruction} {rest : Stack}

theorem Machine.Decides.last {i : Instruction} (h : step call limit i a m =
    .ok (if taken then .jump l else .next, a') m) : Decides call limit l m [i] a taken a' := by
  cases taken with
  | true => exact .jump h
  | false => exact .next h (.stay _)

theorem Machine.Decides.reaches {p q : Nat} (h : Decides call limit l m code a taken a')
    (hcode : ∀ n i, code[n]? = some i → method.code[p + n]? = some i)
    (hq : method.target? l = some q) :
    Reaches call limit method ⟨p, a, m⟩ ⟨if taken then q else p + code.length, a', m⟩ := by
  induction h generalizing p with
  | stay a => exact .refl
  | jump hstep => exact .single (.inl (.jump (hcode 0 _ rfl) hstep hq))
  | @next i is _ _ _ taken hstep _ ih =>
    have hrest := ih (p := p + 1) fun n i hi => by
      rw [Nat.add_assoc, Nat.add_comm 1 n]
      exact hcode (n + 1) i hi
    rw [List.length_cons, Nat.add_comm is.length 1, ← Nat.add_assoc]
    exact .head (.inl (.next (hcode 0 i rfl) hstep)) hrest

theorem Cond.decides_ifZero (cond : Cond) (n : Int32) (hstack : a.stack = .int n :: rest) :
    Decides call limit l m [.ifZero (cond.asked when) l] a (cond.test (compareInt n 0) == when)
      { a with stack := rest } := by
  obtain ⟨owner, stack, locals⟩ := a
  obtain rfl := hstack
  rw [← test_asked]
  exact .last rfl

theorem Cond.decides_compareCode {cond : Cond} {operand : Ty} {b : Bool} {left right : Value}
    (hcode : Member.compareCode cond operand (cond.asked when) l = .ok code)
    (hstack : a.stack = right :: left :: rest)
    (hb : cond.compare? operand.stackKind? left right = some b) :
    Decides call limit l m code a (b == when) { a with stack := rest } := by
  obtain ⟨owner, stack, locals⟩ := a
  obtain rfl := hstack
  have hzero : ∀ n : Int32, cond.test (compareInt n 0) = b →
      Decides call limit l m [.ifZero (cond.asked when) l] ⟨owner, .int n :: rest, locals⟩
        (b == when) ⟨owner, rest, locals⟩ := fun n hn => hn ▸ decides_ifZero cond n rfl
  unfold Member.compareCode at hcode
  unfold compare? at hb
  split at hb <;> try cases hb
  all_goals
    rename_i x y hkind
    rw [hkind] at hcode
    cases hcode
  · rw [← test_asked]
    exact .last rfl
  · exact .next rfl (hzero _ (test_signOf ..))
  · refine .next ?_ (hzero _ (test_compareFloat cond x y))
    cases cond <;> rfl
  · refine .next ?_ (hzero _ (test_compareDouble cond x y))
    cases cond <;> rfl

variable {n : Int32}

theorem Condition.decides_ifZero (hstack : a.stack = .int n :: rest) :
    Decides call limit l m [.ifZero (Cond.ne.asked when) l] a (decide (n ≠ 0) == when)
      { a with stack := rest } := by
  rw [← Cond.ne_zero]
  exact Cond.decides_ifZero _ n hstack

theorem Condition.step_instanceOf {name : String} {site : CallSite}
    (h : (instanceOf name site).value? m a.stack = some (n, rest)) :
    step call limit (.instanceOf name) a m = .ok (.next, { a with stack := .int n :: rest }) m := by
  obtain ⟨owner, _ | ⟨value, stack⟩, locals⟩ := a
  · cases h
  · obtain ⟨reference, href, heq⟩ := Option.map_eq_some_iff.1 h
    cases heq
    cases value <;> cases href <;> rfl

/-- Behind the operands, the jump is taken exactly if the value is as asked for. -/
theorem Condition.decides {c : Condition} (hcode : c.jumpCode l when = .ok code)
    (hvalue : c.value? m a.stack = some (n, rest)) :
    Decides call limit l m code a (decide (n ≠ 0) == when) { a with stack := rest } := by
  induction c generalizing when n with
  | literal value =>
    obtain ⟨owner, stack, locals⟩ := a
    cases hvalue
    cases hcode
    rw [truth_ne_zero]
    cases value <;> cases when <;> first | exact .jump rfl | exact .stay _
  | compare cond operand site =>
    obtain ⟨left, right, b, hstack, hb, rfl⟩ := compare_eq_some hvalue
    rw [truth_ne_zero]
    exact Cond.decides_compareCode hcode hstack hb
  | instanceOf name site =>
    cases hcode
    exact .next (step_instanceOf hvalue) (decides_ifZero rfl)
  | empty site =>
    cases hcode
    obtain ⟨address, component, items, hstack, hobject, rfl⟩ := empty_eq_some hvalue
    rw [truth_ne_zero, ← Cond.eq_zero]
    have hlength : perform call limit .arrayLength a m =
        .ok ((), { a with stack := .int (Int32.ofNat items.size) :: rest }) m :=
      Act.then_ok (Act.then_ok (Act.then_ok (Act.pop_ok hstack) rfl) rfl)
        (Act.then_ok (Act.lift_eq_ok.2 ⟨Run.then_ok (Run.object_ok hobject) rfl, rfl⟩) rfl)
    exact .next (Act.then_ok hlength rfl) (Cond.decides_ifZero _ _ rfl)
  | call | plain =>
    cases hcode
    exact decides_ifZero (top?_eq_some hvalue)
  | not c ih =>
    obtain ⟨k, hk, -, hn⟩ := not_eq_some hvalue
    have hsame : (decide (n ≠ 0) == when) = (decide (k ≠ 0) == !when) := by
      rw [hn]
      cases decide (k ≠ 0) <;> cases when <;> rfl
    rw [hsame]
    exact ih hcode hk

end

/-! ## Emission of conditions -/

open Emit

/-- The state without the labels that were made, and the nodes and lines that were
recorded. -/
def Emission.unmarked (σ : Emission) : Emission :=
  { σ with
    frame := σ.frame.map fun f =>
      { f with body := { f.body with labels := #[], nodes := [], lines := [] } } }

/-- The states differ in the labels that were made, and in the nodes and lines that were
recorded. -/
def Emission.Alike (σ τ : Emission) : Prop := τ.unmarked = σ.unmarked

namespace Emission.Alike

variable {σ τ υ : Emission}

theorem trans (h : σ.Alike τ) (h' : τ.Alike υ) : σ.Alike υ := Eq.trans h' h

theorem symm (h : σ.Alike τ) : τ.Alike σ := Eq.symm h

theorem selfType (h : σ.Alike τ) : (τ.isStatic, τ.classType) = (σ.isStatic, σ.classType) := by
  show (τ.unmarked.isStatic, τ.unmarked.classType) = _
  rw [show τ.unmarked = σ.unmarked from h]
  rfl

theorem of_marking {change : Assembler → Assembler} {u : Unit}
    (hchange : ∀ a : Assembler, { change a with labels := #[], nodes := [], lines := [] } =
      { a with labels := #[], nodes := [], lines := [] })
    (h : Emit.marking change σ = .ok u τ) : σ.Alike τ := by
  rw [modify_eq_ok.1 h, Alike, unmarked, unmarked]
  cases σ.frame with
  | none => rfl
  | some frame => simp only [Option.map_some, hchange]

theorem of_markLine {ctx : Context} {node : Node} {u : Unit}
    (h : ctx.markLine node σ = .ok u τ) : σ.Alike τ := by
  rcases ctx.markLine_cases node with ⟨n, hmark⟩ | hmark
  · refine of_marking (fun a => ?_) (hmark ▸ h)
    unfold Assembler.line
    split
    · split
      · rfl
      · split <;> rfl
    · rfl
  · obtain ⟨-, rfl⟩ := pure_eq_ok.1 (hmark ▸ h)
    exact rfl

theorem of_enter {ctx : Context} {node : Node} {u : Unit} (h : ctx.enter node σ = .ok u τ) :
    σ.Alike τ := by
  obtain ⟨_, υ, hvisit, hline⟩ := bind_eq_ok.1 h
  have hvisited : σ.Alike υ := of_marking (by intro _; rfl) hvisit
  exact hvisited.trans (of_markLine hline)

theorem of_label {l : Label} (h : Emit.label σ = .ok l τ) : σ.Alike τ := by
  obtain ⟨frame, hframe, -, rfl⟩ := assembling_eq_ok.1 h
  simp [Alike, unmarked, hframe, Assembler.label]

end Emission.Alike

/-- The second draft goes on from the first and moves no label that the first has placed. -/
def Draft.Precedes (x t : Draft) : Prop :=
  ∃ own, Grows own x.body t.body ∧ ∀ l ∈ own, x.body.position? l = none

theorem Draft.precedes_emitAll (x : Draft) (code : List Instruction) :
    x.Precedes (x.edit (·.emitAll code)) :=
  ⟨[], .emitAll [] _ _, nofun⟩

namespace Condition

/-- The jump is taken exactly if the value is zero or not, as asked for. -/
def Jumps (c : Condition) (l : Label) (when : Bool) (s x t : Draft) : Prop :=
  ∀ (method : MethodInfo) call limit a m n rest q, method.Extends s t →
    method.target? l = some q → c.value? m a.stack = some (n, rest) →
    Reaches call limit method ⟨x.offset, a, m⟩
      ⟨if decide (n ≠ 0) = when then q else t.offset, { a with stack := rest }, m⟩

def Yields (c : Condition) (s x t : Draft) : Prop :=
  ∀ (method : MethodInfo) call limit a m n rest, method.Extends s t →
    c.value? m a.stack = some (n, rest) → Reaches call limit method ⟨x.offset, a, m⟩
      ⟨t.offset, { a with stack := .int n :: rest }, m⟩

/-- The action emits the operands of the condition, and behind them its jump. -/
def JumpsBy (ctx : Context) (recur : Recursion) (l : Label) (when : Bool) (c : Condition)
    (action : Emit Unit) : Prop :=
  ∀ ⦃τ u τ'⦄, action τ = .ok u τ' → ∃ τ₁ code, c.operands ctx recur τ = .ok () τ₁ ∧
    c.jumpCode l when = .ok code ∧
    ∀ x, τ₁.draft? = some x → τ'.draft? = some (x.edit (·.emitAll code))

variable {c : Condition} {ctx : Context} {recur : Recursion} {l : Label} {when : Bool}
  {s x t first : Draft} {m : Member} {site : CallSite}

theorem jumps_of_code {code : List Instruction} (h : c.jumpCode l when = .ok code) :
    c.Jumps l when s x (x.edit (·.emitAll code)) := by
  intro method call limit a m n rest q hmethod hq hvalue
  have hdecides : Decides call limit l m code a _ _ := decides h hvalue
  simpa using hdecides.reaches (fun n i hi => hmethod.emitAll (.refl [] _) hi) hq

section

variable (hs : s.body.labels.size ≤ first.body.labels.size)
include hs

theorem Jumps.earlier (h : c.Jumps l when first x t) : c.Jumps l when s x t :=
  fun _ _ _ _ _ _ _ _ hmethod => h _ _ _ _ _ _ _ _ (hmethod.rest hs)

theorem Yields.earlier (h : c.Yields first x t) : c.Yields s x t :=
  fun _ _ _ _ _ _ _ hmethod => h _ _ _ _ _ _ _ (hmethod.rest hs)

end

theorem yields_top (h : ∀ m stack, c.value? m stack = top? stack) : c.Yields s t t := by
  intro method call limit a m n rest _ hvalue
  rw [h] at hvalue
  obtain ⟨owner, stack, locals⟩ := a
  obtain rfl : stack = _ := top?_eq_some hvalue
  exact .refl

theorem yields_runs {code : List Instruction} (h : ∀ call limit a m n rest,
    c.value? m a.stack = some (n, rest) →
    Runs call limit code a m { a with stack := .int n :: rest } m) :
    c.Yields s x (x.edit (·.emitAll code)) := by
  intro method call limit a m n rest hmethod hvalue
  simpa using (h call limit a m n rest hvalue).reaches
    fun n i hi => hmethod.emitAll (.refl [] _) hi

theorem ofMember_of_branches (h : m.branches = false) : ofMember m site = .call m site := by
  cases m
  case array op _ _ _ _ => cases op <;> first | rfl | cases h
  all_goals first | rfl | cases h

theorem jumpsBy_member (hm : m ≠ .not) :
    (ofMember m site).JumpsBy ctx recur l when (ctx.jumpOnCall recur m site l when) := by
  intro τ u τ' h
  cases hbranches : m.branches with
  | false =>
    rw [Context.jumpOnCall, hbranches] at h
    obtain ⟨_, τ₁, hcallMember, hjump⟩ := bind_eq_ok.1 h
    rw [ofMember_of_branches hbranches]
    exact ⟨τ₁, _, hcallMember, rfl, fun x hx => assemble_draft hjump hx⟩
  | true =>
    rw [Context.jumpOnCall, hbranches] at h
    cases m with
    | compare cond _ _ operand =>
      obtain ⟨left, hleft, h⟩ := ofExcept_bind_eq_ok.1 h
      obtain ⟨right, hright, h⟩ := ofExcept_bind_eq_ok.1 h
      obtain ⟨_, τ₀, hfirst, h⟩ := bind_eq_ok.1 h
      obtain ⟨_, τ₁, hsecond, h⟩ := bind_eq_ok.1 h
      have hoperands : (compare cond operand site).operands ctx recur τ = .ok () τ₁ :=
        ofExcept_bind_eq_ok.2 ⟨left, hleft, ofExcept_bind_eq_ok.2 ⟨right, hright,
          bind_eq_ok.2 ⟨_, τ₀, hfirst, hsecond⟩⟩⟩
      obtain ⟨_, _, h'⟩ := frame_bind_eq_ok.1 h
      obtain ⟨code, hcode, h'⟩ := ofExcept_bind_eq_ok.1 h'
      exact ⟨τ₁, code, hoperands, hcode, fun x hx => assemble_draft h' hx⟩
    | not => exact absurd rfl hm
    | instanceOf _ tested =>
      obtain ⟨_, τ₁, hreceiver, h⟩ := bind_eq_ok.1 h
      obtain ⟨_, τ₂, htest, h⟩ := bind_eq_ok.1 h
      exact ⟨τ₁, _, hreceiver, rfl, fun x hx => (assemble_draft h (assemble_draft htest hx):)⟩
    | array op _ _ _ _ =>
      cases op with
      | empty =>
        obtain ⟨_, τ₁, hreceiver, h⟩ := bind_eq_ok.1 h
        obtain ⟨_, τ₂, htest, h⟩ := bind_eq_ok.1 h
        exact ⟨τ₁, _, hreceiver, rfl, fun x hx => (assemble_draft h (assemble_draft htest hx):)⟩
      | _ => cases hbranches
    | _ => cases hbranches

theorem operands_lays (c : Condition) (hrecur : recur.Lays ctx) :
    Emit.Lays ctx [] [] [] (c.operands ctx recur) := by
  induction c with
  | literal value => exact .pure _
  | compare cond operand site =>
    exact .after (.ofExcept _) fun _ => .after (.ofExcept _) fun _ =>
      .bind (Context.lays_emitAs hrecur ..) fun _ => Context.lays_emitAs hrecur ..
  | instanceOf | empty => exact Context.lays_emitReceiver hrecur ..
  | call m site => exact Context.lays_callMember hrecur ..
  | plain node => exact (hrecur.emit _ _).closed
  | not c ih => exact ih

end Condition

namespace Context

open Condition

variable {ctx : Context} {c : Condition} {depth : Nat} {σ σ' τ : Emission}
  {s t x : Draft} {u : Unit}
  {m : Member} {site : CallSite}

/-- From a state like this one the operands of the condition are emitted, up to the draft. -/
def EmitsOperands (ctx : Context) (c : Condition) (σ : Emission) (x : Draft) : Prop :=
  ∃ depth τ τ', σ.Alike τ ∧ c.operands ctx (ctx.recursion depth) τ = .ok () τ' ∧
    τ'.draft? = some x

theorem yields_materialize {jump : Label → Emit Unit}
    (hbit : ∀ m stack n rest, c.value? m stack = some (n, rest) → n = 0 ∨ n = 1)
    (hjump : ∀ l, c.JumpsBy ctx (ctx.recursion depth) l false (jump l))
    (h : Emit.materialize jump σ = .ok u σ') (hs : σ.draft? = some s) (ht : σ'.draft? = some t) :
    ∃ x, ctx.EmitsOperands c σ x ∧ x.Precedes t ∧ c.Yields s x t := by
  obtain ⟨_, τ₁, hlabel, h⟩ := bind_eq_ok.1 h
  obtain ⟨rfl, hτ₁⟩ := assembling_draft hlabel hs
  obtain ⟨_, τ₂, hlabel', h⟩ := bind_eq_ok.1 h
  obtain ⟨rfl, hτ₂⟩ := assembling_draft hlabel' hτ₁
  obtain ⟨_, τ₃, hbranch, h⟩ := bind_eq_ok.1 h
  obtain ⟨τ₄, code, hoperands, hcode, hτ₃⟩ := hjump _ hbranch
  obtain ⟨x, _, _, hx, hlaid⟩ := c.operands_lays (lays_recursion ctx depth) hoperands hτ₂
  obtain ⟨_, τ₅, hone, h⟩ := bind_eq_ok.1 h
  obtain ⟨_, τ₆, hgoto, h⟩ := bind_eq_ok.1 h
  obtain ⟨_, τ₇, hplace, h⟩ := bind_eq_ok.1 h
  obtain ⟨_, τ₈, hzero, h⟩ := bind_eq_ok.1 h
  have hend := assemble_draft h (assemble_draft hzero (assemble_draft hplace
    (assemble_draft hgoto (assemble_draft hone (hτ₃ x hx)))))
  have ht := Option.some.inj (ht.symm.trans hend)
  have hmade : σ.Alike τ₂ := (Emission.Alike.of_label hlabel).trans (.of_label hlabel')
  have hprecedes : x.Precedes t := by
    refine ⟨[s.body.nextLabel, (s.edit fun a => a.label.2).body.nextLabel], ?_, fun l hl => ?_⟩
    · rw [ht]
      exact (((((Grows.emitAll _ _ code).trans (.emit _ _ _)).trans (.emit _ _ _)).trans
        (.place _ (by simp [Assembler.label_fst]))).trans (.emit _ _ _)).trans
        (.place _ (by simp [Assembler.label_fst]))
    · have hmade : s.body.labels.size ≤ l.id ∧ l.id < s.body.labels.size + 2 := by
        rcases List.mem_pair.1 hl with rfl | rfl <;> simp [Assembler.nextLabel]
      have hlt : l.id < (s.edit fun a => a.label.2.label.2).body.labels.size := by
        simp only [Draft.edit_body, Assembler.size_labels_label]
        omega
      rw [hlaid.grows.kept l hlt List.not_mem_nil]
      simpa using Assembler.position?_eq_none_of_le hmade.1
  refine ⟨x, ⟨depth, τ₂, τ₄, hmade, hoperands, hx⟩, hprecedes, ?_⟩
  intro method call limit a m n rest hmethod hvalue
  have hsize := hlaid.grows.size
  simp only [Draft.edit_body, Assembler.size_labels_label] at hsize
  have hoffset : t.offset = x.offset + code.length + 3 := by simp [ht, Assembler.goto]
  -- behind the jump stands the one, a jump to the end, and the zero that `code` jumps to
  have hat : ∀ k i, (code ++ [.iconst 1, .goto (s.edit fun a => a.label.2).body.nextLabel,
      .iconst 0])[k]? = some i → method.code[x.offset + k]? = some i := by
    intro k i hk
    have hlt := (List.getElem?_eq_some_iff.1 hk).1
    simp only [List.length_append, List.length_cons, List.length_nil] at hlt
    rw [hmethod.code (by omega), ← hk, ← x.body.getElem?_emitAll, Assembler.emitAll,
      List.foldl_append, ht]
    rfl
  have hfalse : method.target? s.body.nextLabel = some (x.offset + code.length + 2) := by
    refine hmethod.target le_rfl ?_
    rw [ht]
    simp [Assembler.position?_place, Assembler.goto, Assembler.label_fst, Assembler.nextLabel]
    omega
  have htrue : method.target? (s.edit fun a => a.label.2).body.nextLabel =
      some (x.offset + code.length + 3) := by
    refine hmethod.target (by simp [Assembler.nextLabel]) ?_
    rw [ht]
    simp [Assembler.position?_place, Assembler.goto, Assembler.label_fst, Assembler.nextLabel]
    omega
  have hdecides : Decides call limit s.body.nextLabel m code a _ _ := c.decides hcode hvalue
  have hreaches := hdecides.reaches
    (fun k i hk => hat k i ((List.getElem?_append_left
      (List.getElem?_eq_some_iff.1 hk).1).trans hk))
    hfalse
  rw [hoffset]
  rcases hbit _ _ _ _ hvalue with rfl | rfl
  · exact hreaches.tail (.inl (.next (hat (code.length + 2) (.iconst 0) (by simp)) rfl))
  · exact (hreaches.tail (.inl (.next (hat code.length (.iconst 1) (by simp)) rfl))).tail
      (.inl (.jump (hat (code.length + 1) (.goto _) (by simp)) rfl htrue))

/-- What a node says, by the members its calls denote. -/
inductive Says (ctx : Context) : Node → Condition → Prop
  | literal {node : Node} {value : Bool} : node.kind = .boolean value →
    Says ctx node (.literal value)
  | call {node target : Node} {name : String} {args : List Node} {receiver : Ty} {m : Member} :
    node.kind = .call target name args → ctx.typeOf target = .ok receiver →
    ctx.lookup receiver name args = .ok m → m ≠ .not →
    Says ctx node (.ofMember m ⟨some target, args, node⟩)
  | selfCall {node : Node} {name : String} {args : List Node} {receiver : Ty} {m : Member} :
    node.kind = .selfCall name args → ctx.lookup receiver name args = .ok m → m ≠ .not →
    Says ctx node (.ofMember m ⟨none, args, node⟩)
  | not {node target : Node} {name : String} {args : List Node} {receiver : Ty} {c : Condition} :
    node.kind = .call target name args → ctx.typeOf target = .ok receiver →
    ctx.lookup receiver name args = .ok .not → Says ctx target c → Says ctx node (.not c)
  | plain {node : Node} : (∀ value, node.kind ≠ .boolean value) →
    (∀ target name args, node.kind ≠ .call target name args) →
    (∀ name args, node.kind ≠ .selfCall name args) → Says ctx node (.plain node)

/-- The operands of the condition are emitted, and behind them a jump that is taken as the
value would be. -/
def JumpsOn (ctx : Context) (c : Condition) (l : Label) (when : Bool) (σ : Emission)
    (s t : Draft) : Prop :=
  ∃ x : Draft, ctx.EmitsOperands c σ x ∧ x.Precedes t ∧ c.Jumps l when s x t

/-- The operands of the condition are emitted, and behind them what makes it a value. -/
def Gives (ctx : Context) (c : Condition) (σ : Emission) (s t : Draft) : Prop :=
  ∃ x : Draft, ctx.EmitsOperands c σ x ∧ x.Precedes t ∧ c.Yields s x t

/-- Jumping on what a node says and making it a value agree: the same operands are
emitted, and from there on the jump is taken as the value would be. -/
def Agrees (ctx : Context) (c : Condition) (l : Label) (when : Bool) (σ : Emission)
    (s t t' : Draft) : Prop :=
  ctx.JumpsOn c l when σ s t ∧ ctx.Gives c σ s t'

variable {l : Label} {when : Bool} {depth' : Nat} {t' first : Draft} {u' : Unit} {node : Node}
  {σ₁ σ₂ τ₁ : Emission}

theorem EmitsOperands.of_alike (h : ctx.EmitsOperands c τ x) (hσ : σ.Alike τ) :
    ctx.EmitsOperands c σ x := by
  obtain ⟨depth, τ₁, τ₂, halike, hemits⟩ := h
  exact ⟨depth, τ₁, τ₂, hσ.trans halike, hemits⟩

section

variable (hσ : σ.Alike τ) (hs : s.body.labels.size ≤ first.body.labels.size)
include hσ hs

theorem JumpsOn.of_alike (h : ctx.JumpsOn c l when τ first t) : ctx.JumpsOn c l when σ s t := by
  obtain ⟨x, hx, hprecedes, hjumps⟩ := h
  exact ⟨x, hx.of_alike hσ, hprecedes, hjumps.earlier hs⟩

theorem Gives.of_alike (h : ctx.Gives c τ first t) : ctx.Gives c σ s t := by
  obtain ⟨x, hx, hprecedes, hyields⟩ := h
  exact ⟨x, hx.of_alike hσ, hprecedes, hyields.earlier hs⟩

end

theorem jumpsOn_literal {value : Bool} (hs : σ.draft? = some s) (ht : σ₁.draft? = some t)
    (hbranch : (if value == when then Emit.goto l else pure ()) σ = .ok u σ₁) :
    ctx.JumpsOn (.literal value) l when σ s t := by
  obtain rfl : t = s.edit (·.emitAll (if value == when then [.goto l] else [])) := by
    split at hbranch
    · rename_i heq
      rw [if_pos heq]
      exact Option.some.inj (ht.symm.trans (assemble_draft hbranch hs))
    · rename_i hne
      obtain rfl := (pure_eq_ok.1 hbranch).2
      rw [if_neg hne]
      exact Option.some.inj (ht.symm.trans hs)
  exact ⟨s, ⟨0, σ, σ, rfl, rfl, hs⟩, s.precedes_emitAll _, jumps_of_code rfl⟩

theorem gives_literal {value : Bool} (hs : σ.draft? = some s) (ht : σ₁.draft? = some t)
    (hvalue : Emit.instruction (.iconst (if value then 1 else 0)) σ = .ok u σ₁) :
    ctx.Gives (.literal value) σ s t := by
  obtain rfl : t = s.edit (·.emitAll [.iconst (if value then 1 else 0)]) :=
    Option.some.inj (ht.symm.trans (assemble_draft hvalue hs))
  refine ⟨s, ⟨0, σ, σ, rfl, rfl, hs⟩, s.precedes_emitAll _, yields_runs fun _ _ _ _ _ _ h => ?_⟩
  cases h
  exact .cons rfl (.nil _ _)

theorem jumpsOn_member (hm : m ≠ .not) (hs : σ.draft? = some s) (ht : σ₁.draft? = some t)
    (hbranch : ctx.jumpOnCall (ctx.recursion depth) m site l when σ = .ok u σ₁) :
    ctx.JumpsOn (.ofMember m site) l when σ s t := by
  obtain ⟨τ₁, code, hoperands, hcode, hτ⟩ := jumpsBy_member hm hbranch
  obtain ⟨x, _, _, hx, -⟩ := (ofMember m site).operands_lays (lays_recursion ctx depth) hoperands hs
  cases ht.symm.trans (hτ x hx)
  exact ⟨x, ⟨depth, σ, τ₁, rfl, hoperands, hx⟩, x.precedes_emitAll _, jumps_of_code hcode⟩

theorem gives_member (hm : m ≠ .not) (hs : σ.draft? = some s) (ht : σ₁.draft? = some t)
    (hvalue : ctx.callMember (ctx.recursion depth) m site true σ = .ok u σ₁) :
    ctx.Gives (.ofMember m site) σ s t := by
  cases hbranches : m.branches with
  | false =>
    rw [ofMember_of_branches hbranches]
    exact ⟨t, ⟨depth, σ, σ₁, rfl, hvalue, ht⟩, t.precedes_emitAll [], yields_top fun _ _ => rfl⟩
  | true =>
    cases m with
    | compare cond _ _ operand =>
      refine yields_materialize (fun m stack n rest h => ?_)
        (fun l => jumpsBy_member (by simp)) hvalue hs ht
      obtain ⟨_, _, b, -, -, rfl⟩ := compare_eq_some h
      exact truth_cases b
    | not => exact absurd rfl hm
    | instanceOf _ tested =>
      obtain ⟨_, τ₂, hreceiver, h⟩ := bind_eq_ok.1 hvalue
      obtain ⟨_, τ₃, htest, h⟩ := bind_eq_ok.1 h
      obtain rfl := (pure_eq_ok.1 h).2
      obtain ⟨x, _, _, hx, -⟩ := (ofMember (.instanceOf tested tested) site).operands_lays
        (lays_recursion ctx depth) hreceiver hs
      obtain rfl : t = x.edit (·.emitAll [.instanceOf tested.unmeta.internalName]) :=
        Option.some.inj (ht.symm.trans (assemble_draft htest hx))
      exact ⟨x, ⟨depth, σ, τ₂, rfl, hreceiver, hx⟩, x.precedes_emitAll _,
        yields_runs fun _ _ _ _ _ _ h => .cons (step_instanceOf h) (.nil _ _)⟩
    | array op _ _ _ _ =>
      cases op with
      | empty =>
        refine yields_materialize (fun m stack n rest h => ?_)
          (fun l => jumpsBy_member (by simp)) hvalue hs ht
        obtain ⟨_, _, _, -, -, rfl⟩ := empty_eq_some h
        exact truth_cases _
      | _ => cases hbranches
    | _ => cases hbranches

theorem jumpsOn_plain {v : Unit} (hs : σ.draft? = some s) (ht : σ₁.draft? = some t)
    (hemit : (ctx.recursion depth).emit node true σ = .ok v τ₁)
    (hjump : Emit.instruction (.ifZero (Cond.ne.asked when) l) τ₁ = .ok u σ₁) :
    ctx.JumpsOn (.plain node) l when σ s t := by
  obtain ⟨x, _, _, hx, -⟩ := (lays_recursion ctx depth).emit node true hemit hs
  obtain rfl : t = x.edit (·.emitAll [.ifZero (Cond.ne.asked when) l]) :=
    Option.some.inj (ht.symm.trans (assemble_draft hjump hx))
  exact ⟨x, ⟨depth, σ, τ₁, rfl, hemit, hx⟩, x.precedes_emitAll _, jumps_of_code rfl⟩

theorem gives_plain (ht : σ₁.draft? = some t)
    (hvalue : (ctx.recursion depth).emit node true σ = .ok u σ₁) :
    ctx.Gives (.plain node) σ s t :=
  ⟨t, ⟨depth, σ, σ₁, rfl, hvalue, ht⟩, t.precedes_emitAll [], yields_top fun _ _ => rfl⟩

theorem JumpsOn.not (h : ctx.JumpsOn c l (!when) σ s t) : ctx.JumpsOn (.not c) l when σ s t := by
  obtain ⟨x, hx, hprecedes, hjumps⟩ := h
  refine ⟨x, hx, hprecedes, ?_⟩
  intro method call limit a m n rest q hmethod hq hvalue
  obtain ⟨k, hk, -, hn⟩ := not_eq_some hvalue
  have hreaches := hjumps method call limit a m k rest q hmethod hq hk
  rw [hn]
  simpa [Bool.not_eq_eq_eq_not] using hreaches

theorem Gives.not (h : ctx.Gives c σ s x) :
    ctx.Gives (.not c) σ s (x.edit (·.emitAll [.iconst 1, .arith .int .xor])) := by
  obtain ⟨y, hy, ⟨own, hgrows, hown⟩, hyields⟩ := h
  refine ⟨y, hy, ⟨own, hgrows.trans (.emitAll _ _ _), hown⟩, ?_⟩
  intro method call limit a m n rest hmethod hvalue
  obtain ⟨k, hk, hn, -⟩ := not_eq_some hvalue
  have hreaches := hyields method call limit a m k rest
    (hmethod.inner le_rfl (Grows.emitAll [] _ _)) hk
  have hruns : Runs call limit [.iconst 1, .arith .int .xor]
      { a with stack := .int k :: rest } m { a with stack := .int n :: rest } m := by
    rw [hn]
    exact .cons rfl (.cons rfl (.nil _ _))
  have hflipped : Reaches call limit method _ _ := hreaches.trans
    (hruns.reaches fun n i hi => hmethod.emitAll (.refl [] _) hi)
  simpa using hflipped

theorem withMember_use {target : Option Node} {name : String} {args : List Node}
    {use : Member → CallSite → Emit Unit}
    (h : ctx.withMember node target name args use σ = .ok u σ') :
    ∃ receiver m, (∀ t ∈ target, ctx.typeOf t = .ok receiver) ∧
      ctx.lookup receiver name args = .ok m ∧
      ∀ (use' : Member → CallSite → Emit Unit) (τ : Emission), σ.Alike τ →
        ctx.withMember node target name args use' τ = use' m ⟨target, args, node⟩ τ := by
  have hfound : ∀ {receiver m}, ctx.lookup receiver name args = .ok m →
      ∀ (use' : Member → CallSite → Emit Unit) (τ : Emission),
        (Emit.ofExcept (ctx.lookup receiver name args) >>= fun m =>
          use' m ⟨target, args, node⟩) τ = use' m ⟨target, args, node⟩ τ := by
    intro receiver m hm use' τ
    rw [hm]
    rfl
  cases target with
  | some target =>
    obtain ⟨receiver, hreceiver, h⟩ := ofExcept_bind_eq_ok.1 h
    obtain ⟨m, hm, h⟩ := ofExcept_bind_eq_ok.1 h
    refine ⟨receiver, m, by simpa using hreceiver, hm, fun use' τ _ => ?_⟩
    show (Emit.ofExcept (ctx.typeOf target) >>= fun receiver =>
      Emit.ofExcept (ctx.lookup receiver name args) >>= fun m => use' m _) τ = _
    rw [hreceiver]
    exact hfound hm use' τ
  | none =>
    obtain ⟨receiver, τ, hreceiver, h⟩ := bind_eq_ok.1 h
    obtain ⟨m, hm, h⟩ := ofExcept_bind_eq_ok.1 h
    cases hreceiver
    refine ⟨_, m, nofun, hm, fun use' τ hτ => ?_⟩
    obtain ⟨hstatic, hclass⟩ := Prod.mk.inj hτ.selfType
    rw [← hstatic, ← hclass] at hm
    exact hfound hm use' τ

/-- A node that is jumped on and one that is made a value agree, also if other nodes and
lines have been recorded before. -/
theorem branch_agrees_of_alike (hbranch : (ctx.recursion depth).branch node l when σ = .ok u σ₁)
    (hvalue : (ctx.recursion depth').emit node true τ = .ok u' σ₂) (hστ : σ.Alike τ)
    (hs : σ.draft? = some s) (hτ : τ.draft? = some first) (ht : σ₁.draft? = some t)
    (ht' : σ₂.draft? = some t') :
    ∃ c, ctx.Says node c ∧ ctx.JumpsOn c l when σ s t ∧ ctx.Gives c τ first t' := by
  induction depth generalizing node when σ s depth' τ first σ₂ t' u' with
  | zero => exact absurd hbranch throw_ne_ok
  | succ depth ih =>
    cases depth' with
    | zero => exact absurd hvalue throw_ne_ok
    | succ depth' =>
      have hwhole := hvalue
      obtain ⟨ty, -, hbranch⟩ := ofExcept_bind_eq_ok.1 hbranch
      split at hbranch
      · obtain ⟨_, _, hthrow, -⟩ := bind_eq_ok.1 hbranch
        exact absurd hthrow throw_ne_ok
      obtain ⟨_, σ₀, hmark, hbranch⟩ := bind_eq_ok.1 hbranch
      obtain ⟨_, τ₀, henter, hvalue⟩ := bind_eq_ok.1 hvalue
      obtain ⟨s₀, hs₀, hmarked⟩ := markLine_draft hmark hs
      obtain ⟨first₀, hτ₀, hentered⟩ := enter_draft henter hτ
      have halike : σ.Alike σ₀ := .of_markLine hmark
      have halike' : τ.Alike τ₀ := .of_enter henter
      have hboth : σ₀.Alike τ₀ := (halike.symm.trans hστ).trans halike'
      have hsize : s.body.labels.size ≤ s₀.body.labels.size := by
        rcases hmarked with rfl | ⟨n, rfl⟩ <;> simp
      have hsize' : first.body.labels.size ≤ first₀.body.labels.size := by
        rw [(sameCode_of_entered hentered).labels]
      have hjoin : ∀ {c}, ctx.Says node c → ctx.JumpsOn c l when σ₀ s₀ t →
          ctx.Gives c τ₀ first₀ t' →
          ∃ c, ctx.Says node c ∧ ctx.JumpsOn c l when σ s t ∧ ctx.Gives c τ first t' :=
        fun hsays hjumps hgives =>
          ⟨_, hsays, hjumps.of_alike halike hsize, hgives.of_alike halike' hsize'⟩
      generalize hkind : node.kind = kind at hbranch hvalue
      cases kind
      case boolean value =>
        exact hjoin (.literal hkind) (jumpsOn_literal hs₀ ht hbranch) (gives_literal hτ₀ ht' hvalue)
      case call target name args =>
        obtain ⟨receiver, m, hreceiver, hlookup, huse⟩ := withMember_use hbranch
        replace hbranch := (huse _ _ rfl).symm.trans hbranch
        replace hvalue := (huse _ _ hboth).symm.trans hvalue
        by_cases hm : m = .not
        · -- the operand is jumped on the other way round, from the same emission
          subst hm
          have hvalue : ((ctx.recursion depth').emit target true >>= fun _ =>
            Emit.code [.iconst 1, .arith .int .xor]) τ₀ = .ok u' σ₂ := hvalue
          obtain ⟨_, τ₁, hemit, hflip⟩ := bind_eq_ok.1 hvalue
          obtain ⟨x, _, _, hx, -⟩ := (lays_recursion ctx depth').emit target true hemit hτ₀
          obtain ⟨c, hsays, hjumps, hgives⟩ := ih hbranch hemit hboth hs₀ hτ₀ hx
          cases ht'.symm.trans (assemble_draft hflip hx)
          exact hjoin (.not hkind (hreceiver _ rfl) hlookup hsays) hjumps.not hgives.not
        · exact hjoin (.call hkind (hreceiver _ rfl) hlookup hm)
            (jumpsOn_member hm hs₀ ht hbranch) (gives_member hm hτ₀ ht' hvalue)
      case selfCall name args =>
        obtain ⟨receiver, m, -, hlookup, huse⟩ := withMember_use hbranch
        replace hbranch := (huse _ _ rfl).symm.trans hbranch
        replace hvalue := (huse _ _ hboth).symm.trans hvalue
        have hm : m ≠ .not := by
          rintro rfl
          cases hbranch
        exact hjoin (.selfCall hkind hlookup hm) (jumpsOn_member hm hs₀ ht hbranch)
          (gives_member hm hτ₀ ht' hvalue)
      all_goals
        obtain ⟨_, σ', hemit, hjump⟩ := bind_eq_ok.1 hbranch
        have hjumps := jumpsOn_plain hs₀ ht hemit hjump
        exact ⟨_, .plain (by simp [hkind]) (by simp [hkind]) (by simp [hkind]),
          hjumps.of_alike halike hsize, gives_plain ht' hwhole⟩

/-- A node that is jumped on and one that is made a value agree, whatever it says. -/
theorem branch_agrees (hbranch : (ctx.recursion depth).branch node l when σ = .ok u σ₁)
    (hvalue : (ctx.recursion depth').emit node true σ = .ok u' σ₂) (hs : σ.draft? = some s)
    (ht : σ₁.draft? = some t) (ht' : σ₂.draft? = some t') :
    ∃ c, ctx.Says node c ∧ ctx.Agrees c l when σ s t t' :=
  branch_agrees_of_alike hbranch hvalue rfl hs hs ht ht'

def negatedDemo : Program := .ofBuild do
  let one ← Build.node (.fixnum 1) (some Ty.int) none
  let two ← Build.node (.fixnum 2) (some Ty.int) none
  let less ← Build.node (.call one "<" [two]) (some .boolean) none
  Build.node (.call less "!" []) (some .boolean) none

/-- What an action adds to the method it is run in. -/
def draftAfter? (e : Emit Unit) (σ : Emission) : Option Draft :=
  match e σ with
  | .ok _ σ' => σ'.draft?
  | .error .. => none

theorem exists_draftAfter {e : Emit Unit} (h : (draftAfter? e σ).isSome) :
    ∃ σ' t, e σ = .ok () σ' ∧ σ'.draft? = some t := by
  obtain ⟨t, ht⟩ := Option.isSome_iff_exists.1 h
  unfold draftAfter? at ht
  split at ht
  · rename_i σ' hrun
    exact ⟨σ', t, hrun, ht⟩
  · cases ht

theorem negatedDemo_agrees : ∃ σ s σ₁ t σ₂ t' c, σ.draft? = some s ∧ σ₁.draft? = some t ∧
    σ₂.draft? = some t' ∧
    (negatedDemo.bareContext.recursion 20).branch negatedDemo.script ⟨0⟩ true σ = .ok () σ₁ ∧
    (negatedDemo.bareContext.recursion 20).emit negatedDemo.script true σ = .ok () σ₂ ∧
    negatedDemo.bareContext.Says negatedDemo.script c ∧
    negatedDemo.bareContext.Agrees c ⟨0⟩ true σ s t t' := by
  let recur : Recursion := negatedDemo.bareContext.recursion 20
  let σ : Emission := emitAlone?.empty negatedDemo.bareContext
  obtain ⟨σ₁, t, hbranch, ht⟩ : ∃ σ₁ t, recur.branch negatedDemo.script ⟨0⟩ true σ = .ok () σ₁ ∧
    σ₁.draft? = some t := exists_draftAfter rfl
  obtain ⟨σ₂, t', hvalue, ht'⟩ : ∃ σ₂ t', recur.emit negatedDemo.script true σ = .ok () σ₂ ∧
    σ₂.draft? = some t' := exists_draftAfter rfl
  obtain ⟨c, hsays, hagrees⟩ := branch_agrees hbranch hvalue rfl ht ht'
  exact ⟨σ, _, σ₁, t, σ₂, t', c, rfl, ht, ht', hbranch, hvalue, hsays, hagrees⟩

end Context

end ClassBackend
