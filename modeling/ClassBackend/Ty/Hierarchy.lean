import ClassBackend.Ty.Registry

/-!
# The class hierarchy

Superclasses, interfaces, linearised ancestors, assignability and widening,
read off the parents that a registry records.

A registry may hold a cyclic hierarchy, so each walk is bounded: no walk of an
acyclic hierarchy visits more classes than are registered, and the bounds below
leave room for the array types on the way. `assignableWithin n` is the relation
reached in fewer than `n` steps; it only grows with `n`.
-/

namespace ClassBackend.Registry

/-! ## Direct parents -/

/-- The direct superclass. The root, interfaces and types that are no classes
have none. -/
def superclass (r : Registry) (t : Ty) : Except Fault (Option Ty) :=
  match t with
  | .object name =>
    match r.info? t with
    | some info => .ok info.superclass
    | none => .error (.incompleteType name)
  | .array _ => .ok ((r.info? t).bind (·.superclass))
  | _ => .ok none

def interfaces (r : Registry) (t : Ty) : Except Fault (List Ty) :=
  match t with
  | .object name =>
    match r.info? t with
    | some info => .ok info.interfaces
    | none => .error (.incompleteType name)
  | _ => .ok []

/-- Superclass first, then the direct interfaces. An incomplete class has no
parents. -/
def parents (r : Registry) (t : Ty) : List Ty :=
  match r.info? t with
  | some info => info.superclass.toList ++ info.interfaces
  | none => []

/-! ## Walks -/

/-- More steps than any walk up an acyclic hierarchy can take. -/
def heightBound (r : Registry) : Nat := r.classes.length + 3

def appendNew (known : List Ty) (more : List Ty) : List Ty :=
  more.foldl (fun found t => if t.memberOf found then found else found ++ [t]) known

/-- Interfaces of the class and of its superclasses within `n` steps. -/
def allInterfacesWithin (r : Registry) : Nat → Ty → Except Fault (List Ty)
  | 0, _ => .ok []
  | n + 1, t => do
    let own ← r.interfaces t
    match ← r.superclass t with
    | none => return own
    | some parent => return appendNew own (← r.allInterfacesWithin n parent)

/-- The implemented interfaces, those inherited from superclasses included. -/
def allInterfaces (r : Registry) (t : Ty) : Except Fault (List Ty) :=
  r.allInterfacesWithin r.heightBound t

/-- The classes met level by level above a frontier, the root left out. Types
reached along several paths are listed once per path. -/
def levelsAbove (r : Registry) : Nat → List Ty → List Ty
  | 0, _ => []
  | n + 1, frontier =>
    let level := frontier.filter fun t => !t.same Ty.rootClass
    if level.isEmpty then [] else level ++ r.levelsAbove n (level.flatMap r.parents)

/-- The linearised ancestors: nearest first, superclass before interfaces, the
root class last. Primitives and `void` have none. -/
def ancestors (r : Registry) (t : Ty) : List Ty :=
  if t.isPrimitive || t.isVoid then []
  else r.levelsAbove r.heightBound (r.parents t) ++ [Ty.rootClass]

def chainWithin (r : Registry) : Nat → Ty → List Ty
  | 0, _ => []
  | n + 1, t =>
    match r.superclass t with
    | .ok (some parent) => t :: r.chainWithin n parent
    | _ => [t]

def superclassChain (r : Registry) (t : Ty) : List Ty :=
  r.chainWithin r.heightBound t

/-! ## Assignability -/

/-- A value of `source` may be stored where `target` is expected, shown in
fewer than `n` steps. -/
def assignableWithin (r : Registry) : Nat → Ty → Ty → Bool
  | 0, _, _ => false
  | n + 1, target, source =>
    if !target.isPrimitive && source.isNull then true
    else if source.same target then true
    else if source.isError || source.isUnreachable then true
    else if source.isBlock then r.isInterface target
    else if target.isPrimitive || source.isPrimitive then false
    else
      match target, source with
      | .array wanted, .array given =>
        if wanted.isPrimitive || given.isPrimitive then
          (r.parents source).any (r.assignableWithin n target)
        else r.assignableWithin n wanted given
      | _, _ => (r.parents source).any (r.assignableWithin n target)

/-- A value of `source` may be stored where `target` is expected. -/
def assignable (r : Registry) (target source : Ty) : Bool :=
  r.assignableWithin (r.heightBound * (target.arrayDepth + 1)) target source

/-! ## Widening -/

/-- The nearest type that holds values of both, or an error type if there is
none. -/
def widen (r : Registry) (t u : Ty) : Ty :=
  if u.isError then u
  else if t.isError || t.same u then t
  else
    let promoted := match t, u with
      | .prim p, .prim q =>
        if p.isNumeric && q.isNumeric then some (Ty.prim (p.promote q)) else none
      | _, _ => none
    match promoted with
    | some result => result
    | none =>
      if r.assignable t u then t
      else if r.assignable u t then u
      else
        let theirs := r.ancestors u
        match (r.ancestors t).find? (·.memberOf theirs) with
        | some common => common
        | none => .error ["Incompatible types " ++ t.display ++ " and " ++ u.display ++ "."]

/-- Widening on internal names, as the merge of stack states asks for it:
whatever cannot be resolved or widened becomes the root class. -/
def widenNames (r : Registry) (a b : String) : String :=
  match r.getInternal a, r.getInternal b with
  | .ok left, .ok right =>
    let common := r.widen left right
    if common.isError then "java/lang/Object" else common.internalName
  | _, _ => "java/lang/Object"

end ClassBackend.Registry
