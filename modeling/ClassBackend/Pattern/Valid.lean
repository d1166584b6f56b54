import ClassBackend.Pattern.Beginning
import ClassBackend.Pattern.Read
import ClassBackend.Pattern.Size

/-!
# Valid patterns

A pattern is valid if its text can be read, every class in it is known and can
be matched, and its automaton has room or is not needed. Only this much matters
here: patterns are compiled and shown, never matched.
-/

namespace ClassBackend.Pattern

def isValidIn (room : Nat) (source : String) : Bool :=
  match read? source with
  | none => false
  | some node =>
    match node.expr? {} with
    | none => false
    | some (e, _) => e.needsNoAutomaton || e.fits room

def isValid (source : String) : Bool := isValidIn sizeLimit source

end ClassBackend.Pattern
