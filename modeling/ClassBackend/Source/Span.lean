/-!
# Source positions

Where a node of the tree stands in its file.
-/

namespace ClassBackend

/-- A position in a source file. Lines and columns count from one. -/
structure Position where
  line : Nat := 1
  column : Nat := 1
  offset : Nat := 0
  deriving DecidableEq, Repr, Inhabited

structure Span where
  start : Position := {}
  stop : Position := {}
  deriving DecidableEq, Repr, Inhabited

namespace Span

def single (line column offset : Nat) : Span :=
  let position : Position := { line, column, offset }
  { start := position, stop := position }

def ofLine (line : Nat) : Span := single line 1 0

end Span

end ClassBackend
