import ClassBackend.Pattern.Expression
import ClassBackend.Pattern.LiteralTree
import ClassBackend.Pattern.SharedState

/-!
# The size of the automaton of an expression

Two automata are needed: one reads forwards and records where groups begin and
end, the other reads backwards and records nothing. A plan tells which states an
automaton is made of and in which order; following it tells whether they have
room.
-/

namespace ClassBackend.Pattern

open Text (CharSet)

/-- Which automaton. -/
inductive Direction where
  | forward
  | backward
  deriving DecidableEq, Repr

/-! ## Plans -/

/-- What an automaton is made of. -/
inductive Plan where
  | states (weight : Weight)
  | forwardClass (sequences : List (List ByteRange))
  | backwardClass (sequences : List (List ByteRange))
  | repetition (least : Nat) (most : Option Nat) (neverEmpty : Bool) (body : Plan)
  | group (body : Plan)
  | chain (parts : List Plan)
  | fork (first second : Plan) (others : List Plan)

namespace Plan

mutual

def endsInFork : Plan → Bool
  | .states _ | .forwardClass _ | .backwardClass _ | .group _ | .fork .. => false
  | .repetition least none neverEmpty _ => least != 0 || neverEmpty
  | .repetition least (some most) _ body => least == most && least != 0 && body.endsInFork
  | .chain parts => lastEndsInFork parts

def lastEndsInFork : List Plan → Bool
  | [] => false
  | [part] => part.endsInFork
  | _ :: rest => lastEndsInFork rest

end

/-- The room it takes to go on from the last state. -/
def link (p : Plan) : Nat := if p.endsInFork then forkSize else 0

end Plan

namespace Draft

/-- Make some copies of a part, one after the other. No copy at all is a single
state. -/
def copies? (d : Draft) (count link : Nat) (copy : Draft → Option Draft) : Option Draft :=
  match count with
  | 0 => d.add? 1 0
  | n + 1 =>
    match copy d with
    | some d =>
      d.times? (fun d =>
        match d.spend? link with
        | some d => copy d
        | none => none) n
    | none => none

def copiesFrom? (d : Draft) (least link : Nat) (neverEmpty : Bool)
    (copy : Draft → Option Draft) : Option Draft :=
  match least with
  | 0 =>
    if neverEmpty then
      match d.add? 1 (forkSize + link) with
      | some d => copy d
      | none => none
    else
      match copy d with
      | some d => d.add? 3 (4 * forkSize + link)
      | none => none
  | least =>
    match d.copies? least link copy with
    | some d => d.add? 1 (forkSize + link)
    | none => none

/-- Make an optional copy of a part, with the fork before it. -/
def option? (d : Draft) (link : Nat) (copy : Draft → Option Draft) : Option Draft :=
  match d.add? 1 (2 * forkSize + link) with
  | some d => copy d
  | none => none

/-- Make copies of a part for any count between two numbers. The state where all
of them end comes before the optional copies, unless there is just one. -/
def copiesBetween? (d : Draft) (least most link : Nat) (copy : Draft → Option Draft) :
    Option Draft :=
  if least == 0 && most == 1 then
    match d.option? link copy with
    | some d => d.add? 1 0
    | none => none
  else
    match d.copies? least link copy with
    | some d =>
      if least == most then some d
      else
        match d.add? 1 (if least == 0 then 0 else link) with
        | some d => d.times? (fun d => d.option? link copy) (most - least)
        | none => none
    | none => none

end Draft

namespace Plan

mutual

def build? (d : Draft) : Plan → Option Draft
  | .states weight => d.add? weight.states weight.more
  | .forwardClass sequences => d.addForward? sequences
  | .backwardClass sequences => d.addBackward? sequences
  | .repetition least none neverEmpty body =>
    d.copiesFrom? least body.link neverEmpty fun d => body.build? d
  | .repetition least (some most) _ body =>
    d.copiesBetween? least most body.link fun d => body.build? d
  | .group body =>
    match d.add? 1 0 with
    | some d =>
      match body.build? d with
      | some d => d.add? 1 body.link
      | none => none
    | none => none
  | .chain parts => buildChain? d parts
  | .fork first second others =>
    match first.build? d with
    | some d =>
      match second.build? d with
      | some d =>
        match d.add? 2 (2 * forkSize + first.link + second.link) with
        | some d => buildBranches? d others
        | none => none
      | none => none
    | none => none

def buildChain? (d : Draft) : List Plan → Option Draft
  | [] => some d
  | part :: rest =>
    match part.build? d with
    | some d =>
      match d.spend? (if rest.isEmpty then 0 else part.link) with
      | some d => buildChain? d rest
      | none => none
    | none => none

def buildBranches? (d : Draft) : List Plan → Option Draft
  | [] => some d
  | branch :: rest =>
    match branch.build? d with
    | some d =>
      match d.spend? (forkSize + branch.link) with
      | some d => buildBranches? d rest
      | none => none
    | none => none

end

end Plan

/-! ## Expressions -/

mutual

/-- The number of bytes a match has at least, if there is any match. -/
def Expr.leastLength? : Expr → Option Nat
  | .empty | .edge _ => some 0
  | .literal text => some text.length
  | .chars set | .bytes set => if set.ranges.isEmpty then none else some 1
  | .repetition least _ _ body => body.leastLength?.map (least * ·)
  | .capture body => body.leastLength?
  | .sequence items => sumLengths? items
  | .alternatives branches => leastOf? branches

def sumLengths? : List Expr → Option Nat
  | [] => some 0
  | item :: rest =>
    match item.leastLength?, sumLengths? rest with
    | some n, some m => some (n + m)
    | _, _ => none

def leastOf? : List Expr → Option Nat
  | [] => none
  | [branch] => branch.leastLength?
  | branch :: rest =>
    match branch.leastLength?, leastOf? rest with
    | some n, some m => some (min n m)
    | _, _ => none

end

def literalBytes (direction : Direction) (text : List Char) : List Nat :=
  let bytes := text.flatMap fun c => encode c.toNat
  match direction with
  | .forward => bytes
  | .backward => bytes.reverse

/-- A class within ASCII is a state with branches and the state they go to. -/
def asciiWeight (set : CharSet) : Weight := ⟨2, branchSize * set.ranges.length⟩

def classPlan (direction : Direction) (set : CharSet) : Plan :=
  if set.isAscii then .states (asciiWeight set)
  else
    match direction with
    | .forward => .forwardClass (byteSequences set)
    | .backward => .backwardClass (byteSequences set)

def forkPlan : List Plan → Plan
  | [] => .states ⟨2, 0⟩
  | [branch] => branch
  | first :: second :: others => .fork first second others

mutual

def Expr.plan (direction : Direction) : Expr → Plan
  | .empty | .edge _ => .states ⟨1, 0⟩
  | .literal text => .states ⟨(literalBytes direction text).length, 0⟩
  | .chars set => classPlan direction set
  | .bytes set => .states (asciiWeight set)
  | .repetition least most _ body =>
    .repetition least most (body.leastLength?.any (0 < ·)) (body.plan direction)
  | .capture body =>
    match direction with
    | .forward => .group (body.plan direction)
    | .backward => body.plan direction
  | .sequence items =>
    match direction with
    | .forward => .chain (plans direction items)
    | .backward => .chain (plans direction items).reverse
  | .alternatives branches =>
    match branches.mapM Expr.literal? with
    | some texts => .states (literalsWeight (texts.map (literalBytes direction)))
    | none => forkPlan (plans direction branches)

def plans (direction : Direction) : List Expr → List Plan
  | [] => []
  | item :: rest => item.plan direction :: plans direction rest

end

mutual

/-- A match can only begin, or only end, where the text does. -/
def Expr.anchored (edge : Edge) : Expr → Bool
  | .edge kind => kind == edge
  | .empty | .literal _ | .chars _ | .bytes _ => false
  | .repetition least _ _ body => least != 0 && body.anchored edge
  | .capture body => body.anchored edge
  | .sequence items => match edge with
    | .finish => anchoredAtLast edge items
    | _ => anchoredAtFirst edge items
  | .alternatives branches => allAnchored edge branches

/-- One of the first items is anchored, with nothing read before it. -/
def anchoredAtFirst (edge : Edge) : List Expr → Bool
  | [] => false
  | item :: rest => item.anchored edge || item.onlyEmpty && anchoredAtFirst edge rest

/-- One of the last items is anchored, with nothing read after it. -/
def anchoredAtLast (edge : Edge) : List Expr → Bool
  | [] => false
  | item :: rest => anchoredAtLast edge rest || item.anchored edge && Expr.allOnlyEmpty rest

def allAnchored (edge : Edge) : List Expr → Bool
  | [] => true
  | item :: rest => item.anchored edge && allAnchored edge rest

end

/-- The plan for a whole automaton. Unless a match is anchored, it may begin after
any number of bytes. -/
def Expr.wholePlan (direction : Direction) (e : Expr) : Plan :=
  let edge := match direction with
    | .forward => Edge.start
    | .backward => Edge.finish
  let lead : Weight := if e.anchored edge then ⟨1, 0⟩ else ⟨3, branchSize + 2 * forkSize⟩
  .chain [.states lead, (Expr.capture e).plan direction, .states ⟨1, 0⟩]

def sizeLimit : Nat := 10485760

def Expr.fits (room : Nat) (e : Expr) : Bool :=
  ((e.wholePlan .forward).build? (.new room)).isSome &&
    ((e.wholePlan .backward).build? (.new room)).isSome

end ClassBackend.Pattern
