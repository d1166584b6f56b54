import ClassBackend.Machine.Value

/-!
# The operand stack

The stack holds one entry per value, top first, but the instructions that copy
and drop operands count in words, of which a wide value takes two.
-/

namespace ClassBackend.Machine

/-- The operand stack, top first. -/
abbrev Stack := List Value

namespace Stack

/-- Take the entries that make up a number of words off the top. A wide value
is taken whole. -/
def takeWords : (words : Nat) → Stack → Option (Stack × Stack)
  | 0, stack => some ([], stack)
  | _ + 1, [] => none
  | words + 1, v :: stack =>
    (takeWords (words + 1 - v.words) stack).map fun (taken, rest) => (v :: taken, rest)

def dupWords (top below : Nat) (stack : Stack) : Option Stack := do
  let (upper, rest) ← takeWords top stack
  let (lower, under) ← takeWords below rest
  return upper ++ lower ++ upper ++ under

def dropWords (words : Nat) (stack : Stack) : Option Stack :=
  (takeWords words stack).map (·.2)

/-- Take entries off the top. Returns them in the order they were pushed. -/
def takeEntries (count : Nat) (stack : Stack) : Option (List Value × Stack) :=
  if count ≤ stack.length then some ((stack.take count).reverse, stack.drop count) else none

end Stack

end ClassBackend.Machine
