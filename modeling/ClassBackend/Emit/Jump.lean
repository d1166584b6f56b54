import ClassBackend.Code.Instruction
import ClassBackend.Tree.Node

/-!
# Open jump scopes

The loops, ensure blocks and method bodies that are open while code is emitted,
innermost first. A jump runs the ensure clauses between itself and its target;
while such a clause is inlined, only the scopes around it stay open.

The *depth* of a scope is the number of scopes around it, so it does not change
while inner scopes come and go.
-/

namespace ClassBackend

structure LoopLabels where
  breakLabel : Label
  nextLabel : Label
  redoLabel : Label
  deriving DecidableEq, Repr

inductive JumpScope where
  | method
  | loop (labels : LoopLabels)
  /-- An ensure block with its clause, and the stretches of code that its
  handler does not protect because they are inlined copies of the clause. -/
  | ensure (clause : Node) (gaps : List (Label × Label))

inductive JumpTarget where
  | loop
  | method
  deriving DecidableEq, Repr

namespace JumpTarget

def describe : JumpTarget → String
  | .loop => "loop"
  | .method => "method"

def accepts : JumpTarget → JumpScope → Bool
  | .loop, .loop _ => true
  | .method, .method => true
  | _, _ => false

end JumpTarget

/-- The open scopes, innermost first. -/
abbrev JumpScopes := List JumpScope

/-- The clauses a jump has to run, innermost first with their depths, and the
depth of its target. -/
structure PendingEnsures where
  targetDepth : Nat
  ensures : List (Nat × Node)

namespace JumpScopes

/-- Walk outwards to the first scope a jump may target, collecting the ensure
clauses on the way. -/
def findEnsures? (target : JumpTarget) : JumpScopes → Option PendingEnsures
  | [] => none
  | scope :: outer =>
    if target.accepts scope then some { targetDepth := outer.length, ensures := [] }
    else
      match scope with
      | .ensure clause _ =>
        (findEnsures? target outer).map fun pending =>
          { pending with ensures := (outer.length, clause) :: pending.ensures }
      | _ => findEnsures? target outer

def atDepth? (scopes : JumpScopes) (depth : Nat) : Option JumpScope :=
  scopes.reverse[depth]?

def loopLabels? (scopes : JumpScopes) (depth : Nat) : Option LoopLabels :=
  match scopes.atDepth? depth with
  | some (.loop labels) => some labels
  | _ => none

/-- Detach the scopes at a depth and inside it. Returns the detached scopes and
the remaining ones, both innermost first. -/
def detach (scopes : JumpScopes) (depth : Nat) : JumpScopes × JumpScopes :=
  scopes.splitAt (scopes.length - depth)

def restore (scopes detached : JumpScopes) : JumpScopes := detached ++ scopes

def recordGap (depth : Nat) (gap : Label × Label) : JumpScopes → JumpScopes
  | [] => []
  | scope :: outer =>
    if outer.length == depth then
      match scope with
      | .ensure clause gaps => .ensure clause (gaps ++ [gap]) :: outer
      | _ => scope :: outer
    else scope :: recordGap depth gap outer

end JumpScopes

end ClassBackend
