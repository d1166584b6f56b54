/-!
# Patterns as trees

A regular expression as it is written: characters, classes of characters,
positions, repetitions, groups and alternatives, and between them directives
that switch flags for what follows. Classes in brackets are unions of items and
may be combined by set operators.

A pattern may nest only so deep. `Node.depth` counts the groups, repetitions,
sequences, alternatives and brackets on top of each other.
-/

namespace ClassBackend.Pattern

/-- What a directive switches. -/
inductive Flag where
  | ignoreCase
  | multiLine
  | dotMatchesAll
  | swapGreed
  | unicode
  | carriageReturn
  /-- Blanks and comments are left out. -/
  | verbose
  deriving DecidableEq, Repr

structure FlagChange where
  on : List Flag
  off : List Flag
  deriving DecidableEq, Repr

def FlagChange.get? (change : FlagChange) (flag : Flag) : Option Bool :=
  if change.on.contains flag then some true
  else if change.off.contains flag then some false
  else none

/-- A character that stands for itself. -/
structure Literal where
  char : Char
  /-- Written with two hexadecimal digits, so that it may name a byte. -/
  namesByte : Bool
  deriving DecidableEq, Repr

inductive LetterClass where
  | digit
  | space
  | word
  deriving DecidableEq, Repr

/-- Classes written as a word between colons, all of them within ASCII. -/
inductive AsciiClass where
  | alnum
  | alpha
  | ascii
  | blank
  | cntrl
  | digit
  | graph
  | lower
  | print
  | punct
  | space
  | upper
  | word
  | xdigit
  deriving DecidableEq, Repr

inductive NamedClass where
  | letter (kind : LetterClass)
  | ascii (kind : AsciiClass)
  | property (name : String)
  | value (property value : String)
  deriving DecidableEq, Repr

inductive SetOperator where
  | intersection
  | difference
  | symmetricDifference
  deriving DecidableEq, Repr

mutual

inductive SetItem where
  | literal (value : Literal)
  | range (first last : Literal)
  | named (kind : NamedClass) (negated : Bool)
  | bracket (negated : Bool) (set : SetTree)

/-- What stands between brackets. -/
inductive SetTree where
  | union (items : List SetItem)
  | operator (kind : SetOperator) (left right : SetTree)

end

inductive WordEdge where
  /-- There is a word on one side only. -/
  | boundary
  /-- There is a word on both sides or on none. -/
  | noBoundary
  | start
  | finish
  | noneBefore
  | noneAfter
  deriving DecidableEq, Repr

inductive Position where
  | lineStart
  | lineEnd
  | textStart
  | textEnd
  | word (kind : WordEdge)
  deriving DecidableEq, Repr

/-- What parentheses are for. -/
inductive GroupKind where
  | capture (name : Option String)
  | flags (change : FlagChange)
  deriving DecidableEq, Repr

inductive Node where
  | empty
  | flags (change : FlagChange)
  | literal (value : Literal)
  | dot
  | position (kind : Position)
  | named (kind : NamedClass) (negated : Bool)
  | bracket (negated : Bool) (set : SetTree)
  | repetition (least : Nat) (most : Option Nat) (isLazy : Bool) (body : Node)
  | group (kind : GroupKind) (body : Node)
  | sequence (items : List Node)
  | alternatives (branches : List Node)

/-! ## Nesting -/

mutual

def SetItem.depth : SetItem → Nat
  | .bracket _ set => set.depth + 1
  | .literal _ | .range .. | .named .. => 0

/-- How deep a class in brackets nests, without the brackets. -/
def SetTree.depth : SetTree → Nat
  | .union items => itemsDepth items + if items.length < 2 then 0 else 1
  | .operator _ left right => max left.depth right.depth + 1

def itemsDepth : List SetItem → Nat
  | [] => 0
  | item :: rest => max item.depth (itemsDepth rest)

end

mutual

def Node.depth : Node → Nat
  | .bracket _ set => set.depth + 1
  | .repetition _ _ _ body | .group _ body => body.depth + 1
  | .sequence items | .alternatives items => nodesDepth items + 1
  | .empty | .flags _ | .literal _ | .dot | .position _ | .named .. => 0

/-- How deep the deepest part nests. -/
def nodesDepth : List Node → Nat
  | [] => 0
  | node :: rest => max node.depth (nodesDepth rest)

end

/-! ## Names -/

mutual

/-- The names of the groups, in order. -/
def Node.names : Node → List String
  | .group (.capture (some name)) body => name :: body.names
  | .group _ body | .repetition _ _ _ body => body.names
  | .sequence items | .alternatives items => nodesNames items
  | .empty | .flags _ | .literal _ | .dot | .position _ | .named .. | .bracket .. => []

def nodesNames : List Node → List String
  | [] => []
  | node :: rest => node.names ++ nodesNames rest

end

end ClassBackend.Pattern
