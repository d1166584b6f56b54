import ClassBackend.Pattern.ByteSequence
import ClassBackend.Pattern.Draft

/-!
# Literals as alternatives

Alternatives that are all literals share their beginnings. They make a tree, with
a state for every byte that tells some of them apart. A literal that ends inside
another one closes what has been gathered so far: what comes after it in the list
of literals is less preferred and must not be mixed with what comes before.
-/

namespace ClassBackend.Pattern

/-- A number of states, and the bytes they take beyond their own size. -/
structure Weight where
  states : Nat
  more : Nat
  deriving DecidableEq, Repr

def Weight.add (a b : Weight) : Weight := ⟨a.states + b.states, a.more + b.more⟩

def Weight.total (weights : List Weight) : Weight := weights.foldl Weight.add ⟨0, 0⟩

/-- Divide literals by those that end here. The literals of each part keep their
order. -/
def divide (parts : List (List (List Nat))) (begun : Bool) :
    List (List Nat) → List (List (List Nat))
  | [] => parts.reverse.map List.reverse
  | [] :: rest =>
    if !begun && parts.length != 1 then divide parts begun rest
    else divide ([] :: parts) begun rest
  | literal :: rest =>
    match parts with
    | current :: earlier => divide ((literal :: current) :: earlier) true rest
    | [] => divide [[literal]] true rest

/-- The different first bytes, each with what follows it. -/
def byFirstByte : List (List Nat) → List (Nat × List (List Nat))
  | [] => []
  | [] :: rest => byFirstByte rest
  | (byte :: tail) :: rest =>
    let groups := byFirstByte rest
    match groups.lookup byte with
    | some tails => (byte, tail :: tails) :: groups.filter (·.1 != byte)
    | none => (byte, [tail]) :: groups

/-- The state that branches to a number of bytes. One byte needs no branches. -/
def branchWeight : Nat → Weight
  | 0 => ⟨0, 0⟩
  | 1 => ⟨1, 0⟩
  | count => ⟨1, branchSize * count⟩

def treeWeight : Nat → List (List Nat) → Weight
  | 0, _ => ⟨0, 0⟩
  | n + 1, literals =>
    if literals.all List.isEmpty then ⟨0, 0⟩
    else
      let parts := (divide [[]] false literals).map byFirstByte
      let ways := parts.length - 1 + (parts.filter fun part => !part.isEmpty).length
      Weight.add ⟨1, forkSize * ways⟩ (.total (parts.map fun part =>
        (branchWeight part.length).add (.total (part.map fun group => treeWeight n group.2))))

def longest (literals : List (List Nat)) : Nat :=
  literals.foldl (fun n literal => max n literal.length) 0

/-- The states of literals as alternatives, with the one they all end in. -/
def literalsWeight (literals : List (List Nat)) : Weight :=
  Weight.add ⟨1, 0⟩ (treeWeight (longest literals) literals)

end ClassBackend.Pattern
