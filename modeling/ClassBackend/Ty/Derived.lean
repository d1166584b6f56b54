import ClassBackend.Ty.Registry

/-!
# Derived types on record

Arrays and class objects are derived from other types on demand. A `Derivations`
value records from which types that has happened, through every layer of the
types that were formed. Error types are all distinct, so nothing is recorded of
them.
-/

namespace ClassBackend

/-- The types from which an array, and those from which a class object, has been
derived. -/
structure Derivations where
  arrays : List Ty := []
  metas : List Ty := []
  deriving Inhabited

namespace Derivations

def isErrorRooted : Ty → Bool
  | .array component => isErrorRooted component
  | .metaOf base => isErrorRooted base
  | .error _ => true
  | _ => false

def recordLayers (d : Derivations) : Ty → Derivations
  | .array component =>
    let d := d.recordLayers component
    { d with arrays := component :: d.arrays }
  | .metaOf base =>
    let d := d.recordLayers base
    { d with metas := base :: d.metas }
  | _ => d

def record (d : Derivations) (t : Ty) : Derivations :=
  if isErrorRooted t then d else d.recordLayers t

def hasArray (d : Derivations) (t : Ty) : Bool := d.arrays.contains t

def hasMeta (d : Derivations) (t : Ty) : Bool := d.metas.contains t

/-- Record the types that names stand for, up to the first name that stands for
none. -/
def recordNames (d : Derivations) (r : Registry) : List String → Derivations
  | [] => d
  | name :: rest =>
    match r.get name with
    | .ok t => (d.record t).recordNames r rest
    | .error _ => d

/-- Record what a definition forms, whether or not it succeeds. -/
def recordDefinition (d : Derivations) (r : Registry) (name : String)
    (superclass : Option String) (interfaces : List String) : Derivations :=
  if Registry.validName name then d.recordNames r (superclass.toList ++ interfaces) else d

end Derivations

end ClassBackend
