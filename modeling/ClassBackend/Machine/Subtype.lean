import ClassBackend.Machine.Basic

/-!
# Subtypes at run time

A class is a subtype of everything that superclass and interface links reach
from it. The links of a loaded class are in its class file, those of a library
class in the tables of the library; they may dangle or run in circles. Arrays
follow their elements.
-/

namespace ClassBackend.Machine

def links (m : Machine) (name : String) : List String :=
  match m.class? name with
  | some c => c.superclass.toList ++ c.interfaces
  | none => libraryLinks name

/-- Search for a class along links. Every name is expanded once. -/
def search (m : Machine) (target : String) : Nat → (pending seen : List String) → Bool
  | 0, _, _ => false
  | _ + 1, [], _ => false
  | n + 1, name :: pending, seen =>
    if name == target then true
    else if seen.contains name then m.search target n pending seen
    else m.search target n (m.links name ++ pending) (name :: seen)

/-- A bound on the links that one search can follow: those of loaded classes,
those of library classes, and one for each name that is neither. -/
def linkBound (m : Machine) : Nat :=
  let loaded := m.classes.foldl (fun total (_, c) => total + 1 + c.interfaces.length) 0
  let library := libraryInterfaces.foldl
    (fun total (_, interfaces) => total + 1 + interfaces.length) librarySuperclasses.length
  2 * (loaded + library) + 2

def reaches (m : Machine) (className target : String) : Bool :=
  m.search target (m.linkBound + 1) [className] []

/-- The class that a descriptor of array elements names, if they are
references. -/
def elementClass? (component : List Char) : Option (List Char) :=
  match component with
  | '[' :: _ => some component
  | 'L' :: rest => if rest.getLast? == some ';' then some rest.dropLast else none
  | _ => none

/-- Subtyping of names with at most `n` array levels. -/
def isSubtypeWithin (m : Machine) : Nat → (className target : List Char) → Bool
  | 0, className, target => className == target
  | n + 1, className, target =>
    if className == target || target == rootClass.toList then true
    else
      match className, target with
      | '[' :: component, '[' :: wanted =>
        match elementClass? component, elementClass? wanted with
        | some own, some other => m.isSubtypeWithin n own other
        | _, _ => component == wanted
      | '[' :: _, _ =>
        target == "java/lang/Cloneable".toList || target == "java/io/Serializable".toList
      | _, _ => m.reaches (String.ofList className) (String.ofList target)

def isSubtype (m : Machine) (className target : String) : Bool :=
  m.isSubtypeWithin (className.length + 1) className.toList target.toList

def instanceOf (m : Machine) (address : Address) (target : String) : Bool :=
  (m.heap[address]?).any fun object => m.isSubtype object.className target

end ClassBackend.Machine
