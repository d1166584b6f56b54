import ClassBackend.Member.Basic
import ClassBackend.Ty.Hierarchy

/-!
# The member table

Members of classes in order of declaration. A new declaration replaces an
earlier one of the same owner, name, descriptor and static-ness. Among the
members that accept given arguments, the one with the least total conversion
cost is chosen, and the earliest declared of several such.
-/

namespace ClassBackend

/-- Declared members, oldest first. -/
structure MemberTable where
  members : List Member := []
  deriving Inhabited

namespace MemberTable

/-- Both are listed under one owner and name. -/
def sameSlot (m m' : Member) : Bool :=
  m.ownerName == m'.ownerName && m.name == m'.name

def replacedBy (m m' : Member) : Bool :=
  sameSlot m m' && m.descriptor == m'.descriptor && m.isStatic == m'.isStatic

def declare (table : MemberTable) (m : Member) : MemberTable :=
  ⟨table.members.filter (fun old => !replacedBy old m) ++ [m]⟩

def declareAll (table : MemberTable) (members : List Member) : MemberTable :=
  members.foldl declare table

def overloads (table : MemberTable) (owner name : String) : List Member :=
  table.members.filter fun m => m.ownerName == owner && m.name == name

end MemberTable

/-! ## Applicability -/

namespace Registry

/-- The cost of passing `arg` where `param` is expected; `none` if that is not
allowed. Identity is free, widening and subtyping cost one, boxing two. -/
def conversionCost? (r : Registry) (param arg : Ty) : Option Nat :=
  if param.same arg then some 0
  else
    match param.primitive?, arg.primitive? with
    | some target, some source => if source.widensTo target then some 1 else none
    | paramPrimitive, argPrimitive =>
      if r.assignable param arg then some 1
      else
        match paramPrimitive, argPrimitive with
        | none, some source =>
          if r.assignable param (.object source.wrapper) then some 2 else none
        | _, _ => none

/-- The total cost of passing the arguments; `none` if a member does not accept
them. -/
def argumentsCost? (r : Registry) : List Ty → List Ty → Option Nat
  | [], [] => some 0
  | param :: params, arg :: args => do
    let cost ← r.conversionCost? param arg
    let rest ← r.argumentsCost? params args
    return cost + rest
  | _, _ => none

/-- The cheapest of the members that accept the arguments, the earliest of
several. -/
def cheapest? (r : Registry) (args : List Ty) (candidates : List Member) : Option Member :=
  let better (best : Option (Nat × Member)) (m : Member) : Option (Nat × Member) :=
    match r.argumentsCost? m.params args, best with
    | none, _ => best
    | some cost, none => some (cost, m)
    | some cost, some (lowest, _) => if cost < lowest then some (cost, m) else best
  (candidates.foldl better none).map (·.2)

end Registry

end ClassBackend
