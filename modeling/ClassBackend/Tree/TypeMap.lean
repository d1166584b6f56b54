import ClassBackend.Tree.Node
import ClassBackend.Ty.Registry

/-!
# Inferred types

The type inferred for each node, argument and clause, under its identity.
-/

namespace ClassBackend

structure TypeMap where
  entries : Array (Option Ty) := #[]
  deriving Inhabited

namespace TypeMap

def find? (types : TypeMap) (id : NodeId) : Option Ty := (types.entries[id]?).join

def push (types : TypeMap) (t : Ty) : TypeMap := ⟨types.entries.push (some t)⟩

def set (types : TypeMap) (id : NodeId) (t : Option Ty) : TypeMap :=
  ⟨types.entries.setIfInBounds id t⟩

def typeOf (types : TypeMap) (node : Node) : Except Fault Ty :=
  match types.find? node.id with
  | some t => .ok t
  | none =>
    .error (.internal
      ("no inferred type for " ++ node.describe ++ " node " ++ toString node.id))

def paramsOf (types : TypeMap) (args : List Argument) : Except Fault (List (String × Ty)) :=
  args.mapM fun arg =>
    match types.find? arg.id with
    | some t => .ok (arg.name, t)
    | none => .error (.internal ("argument " ++ arg.name ++ " has no type"))

def size (types : TypeMap) : Nat := (types.entries.toList.filter Option.isSome).length

end TypeMap

end ClassBackend
