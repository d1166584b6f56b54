/-!
# Faults

What can go wrong inside the compiler: a broken contract with an earlier phase
or a construct that has no lowering. A fault abandons the current unit. Each
cause is a constructor and `Fault.message` is the only place that words it.
-/

namespace ClassBackend

inductive Fault where
  | missingMethod (receiver name : String) (arguments : List String)
  /-- A condition whose type is not `boolean`. -/
  | nonBooleanPredicate (found : String)
  /-- A conversion that no instruction performs. -/
  | incompatibleCast (reason : String)
  | noJumpTarget (jump target : String)
  | unsupported (construct : String)
  | incompleteType (name : String)
  | unknownType (name : String)
  | badTypeName (name : String)
  /-- An invariant of emission that does not hold. -/
  | internal (reason : String)
  | tooDeep
  deriving DecidableEq, Repr, Inhabited

def Fault.message : Fault → String
  | .missingMethod receiver name arguments =>
    "Missing method " ++ receiver ++ "." ++ name ++ "(" ++ ", ".intercalate arguments ++ ")"
  | .nonBooleanPredicate found => "Expected boolean, found " ++ found
  | .incompatibleCast reason => reason
  | .noJumpTarget jump target => jump ++ " outside of " ++ target
  | .unsupported construct => "Unsupported node: " ++ construct
  | .incompleteType name => "Incomplete type " ++ name
  | .unknownType name => "Unknown type " ++ name
  | .badTypeName name => "Bad type name " ++ name
  | .internal reason => "Internal compiler error: " ++ reason
  | .tooDeep => "Internal compiler error: emission nests too deeply"

end ClassBackend
