/-!
# Automata under construction

An expression is matched by an automaton over bytes, and one that takes too much
room is refused.

* A state takes 32 bytes.
* A state that branches on a byte takes 8 bytes more for each branch.
* A fork, which goes on in several states at once, takes 4 bytes more for each.

States are numbered in the order they are made. Of an automaton under
construction only the number of its states and the room it has left are kept.
-/

namespace ClassBackend.Pattern

def stateSize : Nat := 32

def branchSize : Nat := 8

def forkSize : Nat := 4

/-- An automaton under construction. -/
structure Draft where
  /-- The number of states, which is also the number of the next one. -/
  states : Nat
  /-- The bytes that are left. -/
  free : Nat
  deriving DecidableEq, Repr

namespace Draft

def new (room : Nat) : Draft := { states := 0, free := room }

def spend? (d : Draft) (bytes : Nat) : Option Draft :=
  if bytes ≤ d.free then some { d with free := d.free - bytes } else none

def add? (d : Draft) (count more : Nat) : Option Draft :=
  (d.spend? (stateSize * count + more)).map fun d => { d with states := d.states + count }

def times? (step : Draft → Option Draft) : Nat → Draft → Option Draft
  | 0, d => some d
  | n + 1, d =>
    match step d with
    | some d => times? step n d
    | none => none

end Draft

end ClassBackend.Pattern
