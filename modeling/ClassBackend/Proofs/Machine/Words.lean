import ClassBackend.Proofs.Machine.Path

/-!
# Operands in words

The instructions that copy and drop operands are meant for words, of which a `long` or a
`double` has two. The stack of the machine has one entry for each operand. As long as an
instruction takes no wide operand apart, it does to the words of the stack what it is
meant to (`step_words`).
-/

namespace ClassBackend.Machine

/-- A word of an operand: a narrow one, or half of a wide one. -/
inductive Word where
  | whole (value : Value)
  | upper (value : Value)
  | lower (value : Value)

def Value.toWords (v : Value) : List Word := if v.isWide then [.upper v, .lower v] else [.whole v]

/-- What an instruction does to the words of the stack, top first. -/
def reshapeWords : Instruction → List Word → Option (List Word)
  | .dup, w :: rest => some (w :: w :: rest)
  | .dupX1, w :: x :: rest => some (w :: x :: w :: rest)
  | .dupX2, w :: x :: y :: rest => some (w :: x :: y :: w :: rest)
  | .dup2, w :: x :: rest => some (w :: x :: w :: x :: rest)
  | .dup2X1, w :: x :: y :: rest => some (w :: x :: y :: w :: x :: rest)
  | .dup2X2, w :: x :: y :: z :: rest => some (w :: x :: y :: z :: w :: x :: rest)
  | .pop2, _ :: _ :: rest => some rest
  | _, _ => none

/-- How many words an instruction copies or drops, and under how many more the copy
goes. -/
def wordCuts? : Instruction → Option (Nat × Nat)
  | .dup => some (1, 0)
  | .dupX1 => some (1, 1)
  | .dupX2 => some (1, 2)
  | .dup2 | .pop2 => some (2, 0)
  | .dup2X1 => some (2, 1)
  | .dup2X2 => some (2, 2)
  | _ => none

namespace Stack

variable {stack upper rest : Stack} {top below words : Nat}

def toWords (stack : Stack) : List Word := stack.flatMap Value.toWords

/-- The top words end where an operand ends, or there are fewer. -/
def isCutAt : (words : Nat) → Stack → Bool
  | 0, _ | _ + 1, [] => true
  | words + 1, v :: stack =>
    decide (v.words ≤ words + 1) && isCutAt (words + 1 - v.words) stack

@[simp] theorem toWords_append (s t : Stack) : toWords (s ++ t) = s.toWords ++ t.toWords :=
  List.flatMap_append

@[simp] theorem toWords_cons (v : Value) (s : Stack) : toWords (v :: s) = v.toWords ++ s.toWords :=
  List.flatMap_cons

theorem length_toWords (v : Value) : v.toWords.length = v.words := by
  unfold Value.toWords Value.words
  split <;> rfl

theorem takeWords_cases (h : stack.isCutAt words = true) :
    (stack.toWords.length < words ∧ takeWords words stack = none) ∨
    ∃ upper rest, takeWords words stack = some (upper, rest) ∧ stack = upper ++ rest ∧
      upper.toWords.length = words := by
  induction stack generalizing words with
  | nil =>
    cases words with
    | zero => exact .inr ⟨[], [], rfl, rfl, rfl⟩
    | succ words => exact .inl ⟨Nat.succ_pos words, rfl⟩
  | cons v stack ih =>
    cases words with
    | zero => exact .inr ⟨[], v :: stack, rfl, rfl, rfl⟩
    | succ words =>
      simp only [isCutAt, Bool.and_eq_true, decide_eq_true_eq] at h
      rw [takeWords, toWords_cons, List.length_append, length_toWords]
      rcases ih h.2 with ⟨hfew, hnone⟩ | ⟨upper, rest, htake, rfl, hlength⟩
      · exact .inl ⟨by omega, by rw [hnone]; rfl⟩
      · refine .inr ⟨v :: upper, rest, by rw [htake]; rfl, rfl, ?_⟩
        rw [toWords_cons, List.length_append, length_toWords]
        omega

theorem isCutAt_append (upper rest : Stack) (words : Nat) :
    isCutAt (upper.toWords.length + words) (upper ++ rest) = isCutAt words rest := by
  induction upper with
  | nil => rw [toWords, List.flatMap_nil, List.length_nil, Nat.zero_add, List.nil_append]
  | cons v upper ih =>
    have hpos := v.words_pos
    rw [toWords_cons, List.length_append, length_toWords, List.cons_append, ← ih]
    obtain ⟨n, hn⟩ : ∃ n, v.words + (toWords upper).length + words = n + 1 :=
      Nat.exists_eq_add_one_of_ne_zero (by omega)
    rw [hn, isCutAt, decide_eq_true (by omega), Bool.true_and]
    congr 1
    omega

/-- The stack falls into the words that are copied, those under them and the rest. -/
theorem dupWords_cases (htop : stack.isCutAt top = true)
    (hboth : stack.isCutAt (top + below) = true) :
    (stack.toWords.length < top + below ∧ dupWords top below stack = none) ∨
    ∃ upper lower rest, dupWords top below stack = some (upper ++ lower ++ upper ++ rest) ∧
      stack = upper ++ lower ++ rest ∧ upper.toWords.length = top ∧
      lower.toWords.length = below := by
  unfold dupWords
  rcases takeWords_cases htop with ⟨hfew, hnone⟩ | ⟨upper, rest, htake, rfl, rfl⟩
  · exact .inl ⟨by omega, by rw [hnone]; rfl⟩
  · rw [isCutAt_append] at hboth
    rw [htake, toWords_append, List.length_append]
    rcases takeWords_cases hboth with ⟨hfew, hnone⟩ | ⟨lower, under, htake', rfl, rfl⟩
    · exact .inl ⟨by omega, by simp [hnone]⟩
    · exact .inr ⟨upper, lower, under, by simp [htake'], (List.append_assoc ..).symm, rfl, rfl⟩

end Stack

open Stack

variable {call : MethodCall} {depth top below : Nat} {i : Instruction} {a : Activation}
  {m : Machine}

theorem reshape_none {change : Stack → Option Stack} (h : change a.stack = none) :
    Act.reshape change a m = .error (.fatal (.stackUnderflow a.method)) m := by
  rw [Act.reshape_eq]
  refine Act.then_ok (rfl : (get : Act Activation) a m = .ok (a, a) m) ?_
  rw [h]
  rfl

theorem Act.then_error {α β : Type} {x : Act α} {f : α → Act β} {unwind : Unwind} {m' : Machine}
    (hx : x a m = .error unwind m') : (x >>= f) a m = .error unwind m' := by
  show EStateM.bind (x a) (fun b => f b.1 b.2) m = _
  simp only [EStateM.bind, hx]

theorem reshapeWords_copy (hi : wordCuts? i = some (top, below)) (hpop : i ≠ .pop2)
    {upper lower : List Word} (hupper : upper.length = top) (hlower : lower.length = below)
    (rest : List Word) :
    reshapeWords i (upper ++ lower ++ rest) = some (upper ++ lower ++ upper ++ rest) := by
  cases i <;> cases hi <;> rcases upper with _ | ⟨w, _ | ⟨x, _ | _⟩⟩ <;> cases hupper <;>
    rcases lower with _ | ⟨y, _ | ⟨z, _ | _⟩⟩ <;> cases hlower <;>
      first | rfl | exact absurd rfl hpop

theorem reshapeWords_few (hi : wordCuts? i = some (top, below)) {words : List Word}
    (h : words.length < top + below) : reshapeWords i words = none := by
  cases i <;> cases hi <;> rcases words with _ | ⟨w, _ | ⟨x, _ | ⟨y, _ | ⟨z, rest⟩⟩⟩⟩ <;>
    first | rfl | (simp at h; done) | (simp at h; omega)

/-- The change of the stack that an instruction for some words stands for. -/
def operandChange (i : Instruction) (top below : Nat) : Stack → Option Stack :=
  match i with
  | .pop2 => dropWords top
  | _ => dupWords top below

theorem step_eq_reshape (hi : wordCuts? i = some (top, below)) (call : MethodCall) (depth : Nat) :
    step call depth i = (do Act.reshape (operandChange i top below); return .next) := by
  cases i <;> cases hi <;> rfl

/-- The instruction changes the words of the stack as it is meant to. -/
theorem operandChange_words (hi : wordCuts? i = some (top, below)) {stack : Stack}
    (htop : stack.isCutAt top = true) (hboth : stack.isCutAt (top + below) = true) :
    (stack.toWords.length < top + below ∧ operandChange i top below stack = none) ∨
    top + below ≤ stack.toWords.length ∧ ∃ changed,
      operandChange i top below stack = some changed ∧
      reshapeWords i stack.toWords = some changed.toWords := by
  by_cases hpop : i = .pop2
  · subst hpop
    cases hi
    have hdrop : operandChange .pop2 2 0 stack = (takeWords 2 stack).map (·.2) := rfl
    rw [hdrop]
    rcases takeWords_cases htop with ⟨hfew, hnone⟩ | ⟨upper, rest, htake, rfl, hlength⟩
    · exact .inl ⟨hfew, by rw [hnone]; rfl⟩
    · obtain ⟨w, x, hwords⟩ := List.length_eq_two.1 hlength
      rw [toWords_append, hwords]
      exact .inr ⟨Nat.le_add_left .., rest, by rw [htake]; rfl, rfl⟩
  · have hcopy : operandChange i top below = dupWords top below := by
      cases i <;> first | rfl | exact absurd rfl hpop
    rw [hcopy]
    rcases dupWords_cases htop hboth with hfew | ⟨upper, lower, rest, hdup, rfl, hup, hlow⟩
    · exact .inl hfew
    · refine .inr ⟨?_, _, hdup, ?_⟩
      · simp only [toWords_append, List.length_append]
        omega
      · simpa using reshapeWords_copy hi hpop hup hlow rest.toWords

/-- An instruction that copies or drops operands does to the words of the stack what it
is meant to, if it takes no wide operand apart. It fails exactly if there are too few
words, and then leaves the operands and the machine as they were. -/
theorem step_words (hi : wordCuts? i = some (top, below)) (htop : a.stack.isCutAt top = true)
    (hboth : a.stack.isCutAt (top + below) = true) (call : MethodCall) (depth : Nat) (m : Machine) :
    step call depth i = (do Act.reshape (operandChange i top below); return .next) ∧
    (Activation.reshape (operandChange i top below) a = .error (.stackUnderflow a.method) a ↔
      a.stack.toWords.length < top + below) ∧
    (step call depth i a m = .error (.fatal (.stackUnderflow a.method)) m ↔
      a.stack.toWords.length < top + below) ∧
    (reshapeWords i a.stack.toWords = none ↔ a.stack.toWords.length < top + below) ∧
    ∀ words, reshapeWords i a.stack.toWords = some words →
      ∃ stack, step call depth i a m = .ok (.next, { a with stack }) m ∧ stack.toWords = words := by
  refine ⟨step_eq_reshape hi call depth, ?_⟩
  rw [step_eq_reshape hi, Act.run_reshape]
  rcases operandChange_words hi htop hboth with ⟨hfew, hnone⟩ | ⟨henough, stack, hsome, hwords⟩
  · rw [reshapeWords_few hi hfew, hnone]
    exact ⟨iff_of_true rfl hfew, iff_of_true (Act.then_error (reshape_none hnone)) hfew,
      iff_of_true rfl hfew, nofun⟩
  · rw [Act.then_ok (Act.reshape_ok hsome) rfl, hwords, hsome]
    refine ⟨iff_of_false nofun (by omega), iff_of_false nofun (by omega),
      iff_of_false nofun (by omega), fun words h => ?_⟩
    exact ⟨stack, rfl, Option.some.inj h⟩

/-- A `long` is copied under an `int`. -/
theorem dup2X1_words : ∃ stack, step (callMethod 1 1) 1 .dup2X1
      { method := "", stack := [.long 5, .int 7, .null] } {} =
        .ok (.next, { method := "", stack }) {} ∧
    stack.toWords = [.upper (.long 5), .lower (.long 5), .whole (.int 7), .upper (.long 5),
      .lower (.long 5), .whole .null] := by
  have hcut : isCutAt 2 [.long 5, .int 7, .null] = true ∧
    isCutAt 3 [.long 5, .int 7, .null] = true := by
    decide
  obtain ⟨-, -, -, -, hwords⟩ := step_words (i := .dup2X1)
    (a := ⟨"", [.long 5, .int 7, .null], #[]⟩) rfl hcut.1 hcut.2 (callMethod 1 1) 1 {}
  exact hwords _ rfl

end ClassBackend.Machine
