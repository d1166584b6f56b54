import ClassBackend.Pattern.ClassName
import ClassBackend.Pattern.Tree
import ClassBackend.Text.CaseFold

/-!
# Expressions

What a pattern means, freed from its writing: directives are carried out, names
of classes replaced by their characters, case folded, nested sequences and
alternatives made flat, and what all alternatives start with put before them.

A pattern, or a part of one, may give up characters for bytes. It then must not
match anything that is not made of whole characters, so its classes stay within
ASCII and none can be negated.
-/

namespace ClassBackend.Pattern

open Text (CharSet)

/-- Positions in a text. Lines may end in a carriage return too, and words may
be words of ASCII letters. -/
inductive Edge where
  | start
  | finish
  | lineStart (carriageReturn : Bool)
  | lineEnd (carriageReturn : Bool)
  | word (kind : WordEdge) (unicode : Bool)
  deriving DecidableEq, Repr

inductive Expr where
  | empty
  | literal (text : List Char)
  | chars (set : CharSet)
  | bytes (set : CharSet)
  | edge (kind : Edge)
  | repetition (least : Nat) (most : Option Nat) (isLazy : Bool) (body : Expr)
  | capture (body : Expr)
  | sequence (items : List Expr)
  | alternatives (branches : List Expr)

namespace Expr

/-! ## Building expressions -/

/-- One of some characters. A single character is a literal. -/
def ofChars (set : CharSet) : Expr :=
  match set.ranges with
  | [] => .bytes set
  | [(first, last)] => if first == last then .literal [Char.ofNat first] else .chars set
  | _ => .chars set

/-- One of some bytes. A single byte is a literal. -/
def ofBytes (set : CharSet) : Expr :=
  match set.ranges with
  | [(first, last)] => if first == last then .literal [Char.ofNat first] else .bytes set
  | _ => .bytes set

def joinLiterals : List Expr → List Expr
  | .literal a :: rest =>
    match joinLiterals rest with
    | .literal b :: joined => .literal (a ++ b) :: joined
    | joined => .literal a :: joined
  | item :: rest => item :: joinLiterals rest
  | [] => []

def ofSequence (items : List Expr) : Expr :=
  let flat := items.flatMap fun
    | .sequence inner => inner
    | .empty => []
    | item => [item]
  match joinLiterals flat with
  | [] => .empty
  | [item] => item
  | joined => .sequence joined

def classOf? : Expr → Option CharSet
  | .chars set | .bytes set => some set
  | _ => none

def charOf? : Expr → Option Nat
  | .literal [c] => some c.toNat
  | _ => none

mutual

/-- Two expressions are written alike. Groups are told apart. -/
def same : Expr → Expr → Bool
  | .empty, .empty => true
  | .literal a, .literal b => a == b
  | .chars a, .chars b | .bytes a, .bytes b => a == b
  | .edge a, .edge b => a == b
  | .repetition least most isLazy body, .repetition least' most' isLazy' body' =>
    least == least' && most == most' && isLazy == isLazy' && body.same body'
  | .sequence items, .sequence items' | .alternatives items, .alternatives items' =>
    allSame items items'
  | _, _ => false

def allSame : List Expr → List Expr → Bool
  | [], [] => true
  | item :: rest, item' :: rest' => item.same item' && allSame rest rest'
  | _, _ => false

end

def commonStart : List Expr → List Expr → List Expr
  | item :: rest, item' :: rest' => if item.same item' then item :: commonStart rest rest' else []
  | _, _ => []

def literal? : Expr → Option (List Char)
  | .literal text => some text
  | _ => none

def items? : Expr → Option (List Expr)
  | .sequence items => some items
  | _ => none

def flatBranches (branches : List Expr) : List Expr :=
  branches.flatMap fun
    | .alternatives inner => inner
    | branch => [branch]

def asClass? (branches : List Expr) : Option Expr :=
  match branches.mapM charOf?, branches.mapM classOf? with
  | some codes, _ => some (ofChars (.ofRanges (codes.map fun code => (code, code))))
  | none, some sets => some (ofChars (.ofRanges (sets.flatMap CharSet.ranges)))
  | none, none => none

def sharedStart (sequences : List (List Expr)) : List Expr :=
  match sequences with
  | [] => []
  | first :: rest => rest.foldl commonStart first

/-- One of some expressions. Characters and classes become one class. What
sequences start with is written once; after it they differ, so that nothing more
can be taken out. -/
def ofAlternatives (branches : List Expr) : Expr :=
  match flatBranches branches with
  | [branch] => branch
  | flat =>
    match asClass? flat with
    | some e => e
    | none =>
      match flat.mapM items? with
      | none => .alternatives flat
      | some sequences =>
        match sharedStart sequences with
        | [] => .alternatives flat
        | start =>
          let rests := flatBranches (sequences.map fun items =>
            ofSequence (items.drop start.length))
          ofSequence (start ++ [(asClass? rests).getD (.alternatives rests)])

mutual

def onlyEmpty : Expr → Bool
  | .empty | .edge _ => true
  | .literal _ | .chars _ | .bytes _ => false
  | .repetition _ most _ body => most.isSome && body.onlyEmpty
  | .capture body => body.onlyEmpty
  | .sequence items | .alternatives items => allOnlyEmpty items

def allOnlyEmpty : List Expr → Bool
  | [] => true
  | item :: rest => item.onlyEmpty && allOnlyEmpty rest

end

/-- A repetition. What matches the empty text only is repeated at most once. -/
def ofRepetition (least : Nat) (most : Option Nat) (isLazy : Bool) (body : Expr) : Expr :=
  let (least, most) :=
    if body.onlyEmpty then (min least 1, some (min (most.getD 1) 1)) else (least, most)
  match least, most with
  | 0, some 0 => .empty
  | 1, some 1 => body
  | _, _ => .repetition least most isLazy body

end Expr

/-! ## Flags -/

structure Flags where
  ignoreCase : Bool := false
  multiLine : Bool := false
  dotMatchesAll : Bool := false
  swapGreed : Bool := false
  unicode : Bool := true
  carriageReturn : Bool := false
  deriving DecidableEq, Repr

namespace Flags

def change (flags : Flags) (change : FlagChange) : Flags where
  ignoreCase := (change.get? .ignoreCase).getD flags.ignoreCase
  multiLine := (change.get? .multiLine).getD flags.multiLine
  dotMatchesAll := (change.get? .dotMatchesAll).getD flags.dotMatchesAll
  swapGreed := (change.get? .swapGreed).getD flags.swapGreed
  unicode := (change.get? .unicode).getD flags.unicode
  carriageReturn := (change.get? .carriageReturn).getD flags.carriageReturn

/-- Add letters that differ in case, if case is ignored. -/
def fold (flags : Flags) (set : CharSet) : CharSet :=
  if !flags.ignoreCase then set else if flags.unicode then set.foldCase else set.foldAscii

/-- Negate a class. Bytes beyond ASCII must not enter. -/
def negate? (flags : Flags) (negated : Bool) (set : CharSet) : Option CharSet :=
  if !negated then some set else if flags.unicode then some set.complement else none

end Flags

/-! ## Classes -/

def AsciiClass.set (kind : AsciiClass) : CharSet :=
  .ofRanges (match kind with
    | .alnum => [(0x30, 0x39), (0x41, 0x5a), (0x61, 0x7a)]
    | .alpha => [(0x41, 0x5a), (0x61, 0x7a)]
    | .ascii => [(0, 0x7f)]
    | .blank => [(0x9, 0x9), (0x20, 0x20)]
    | .cntrl => [(0, 0x1f), (0x7f, 0x7f)]
    | .digit => [(0x30, 0x39)]
    | .graph => [(0x21, 0x7e)]
    | .lower => [(0x61, 0x7a)]
    | .print => [(0x20, 0x7e)]
    | .punct => [(0x21, 0x2f), (0x3a, 0x40), (0x5b, 0x60), (0x7b, 0x7e)]
    | .space => [(0x9, 0xd), (0x20, 0x20)]
    | .upper => [(0x41, 0x5a)]
    | .word => [(0x30, 0x39), (0x41, 0x5a), (0x5f, 0x5f), (0x61, 0x7a)]
    | .xdigit => [(0x30, 0x39), (0x41, 0x46), (0x61, 0x66)])

def LetterClass.bytes : LetterClass → CharSet
  | .digit => AsciiClass.digit.set
  | .space => AsciiClass.space.set
  | .word => AsciiClass.word.set

/-- Word characters: letters, marks, digits, connectors, joiners and letters in
circles and squares. -/
def wordClass : Text.CharClass := .read "Word: L M Nd Nl Pc 315Oc45W2a4531Y1aG1Ac"

def LetterClass.chars : LetterClass → CharSet
  | .digit => Text.inCategories ["Nd"]
  | .space => .ofText "0Jfs3w1a215j93Nl1Dcf1v153w"
  | .word => wordClass.set

def NamedClass.set? (flags : Flags) (negated : Bool) : NamedClass → Option CharSet
  | .letter kind => flags.negate? negated (if flags.unicode then kind.chars else kind.bytes)
  | .ascii kind => flags.negate? negated (flags.fold kind.set)
  | .property name => do
    if flags.unicode then flags.negate? negated (flags.fold (← property? name)) else none
  | .value name given => do
    if flags.unicode then flags.negate? negated (flags.fold (← value? name given)) else none

def Literal.code? (flags : Flags) (literal : Literal) : Option Nat :=
  let code := literal.char.toNat
  if flags.unicode || code < 0x80 then some code else none

def SetOperator.apply : SetOperator → CharSet → CharSet → CharSet
  | .intersection => CharSet.inter
  | .difference => CharSet.diff
  | .symmetricDifference => CharSet.symmDiff

mutual

def SetItem.set? (flags : Flags) : SetItem → Option CharSet
  | .literal value => (value.code? flags).map fun code => .range code code
  | .range first last => do return .range (← first.code? flags) (← last.code? flags)
  | .named kind negated => kind.set? flags negated
  | .bracket negated set =>
    match set.set? flags with
    | some members => flags.negate? negated (flags.fold members)
    | none => none

/-- The members of a class in brackets. -/
def SetTree.set? (flags : Flags) : SetTree → Option CharSet
  | .union items => (itemRanges? flags items).map CharSet.ofRanges
  | .operator kind left right =>
    match left.set? flags, right.set? flags with
    | some l, some r => some (kind.apply (flags.fold l) (flags.fold r))
    | _, _ => none

def itemRanges? (flags : Flags) : List SetItem → Option (List (Nat × Nat))
  | [] => some []
  | item :: rest =>
    match item.set? flags, itemRanges? flags rest with
    | some members, some ranges => some (members.ranges ++ ranges)
    | _, _ => none

end

/-! ## Patterns -/

def Flags.oneOf (flags : Flags) (set : CharSet) : Expr :=
  if flags.unicode then .ofChars set else .ofBytes set

def Literal.expr? (flags : Flags) (literal : Literal) : Option Expr :=
  let code := literal.char.toNat
  if !flags.unicode && literal.namesByte && 0x80 ≤ code then none
  else if flags.ignoreCase && (flags.unicode || code < 0x80) then
    some (flags.oneOf (flags.fold (.range code code)))
  else some (.literal [literal.char])

def dot? (flags : Flags) : Option Expr :=
  if !flags.unicode then none
  else if flags.dotMatchesAll then some (.chars .all)
  else if flags.carriageReturn then
    some (.chars (CharSet.ofRanges [(0xa, 0xa), (0xd, 0xd)]).complement)
  else some (.chars (CharSet.range 0xa 0xa).complement)

def Position.edge (flags : Flags) : Position → Edge
  | .lineStart => if flags.multiLine then .lineStart flags.carriageReturn else .start
  | .lineEnd => if flags.multiLine then .lineEnd flags.carriageReturn else .finish
  | .textStart => .start
  | .textEnd => .finish
  | .word kind => .word kind flags.unicode

mutual

/-- The meaning of a pattern, and the flags in force after it. -/
def Node.expr? (flags : Flags) : Node → Option (Expr × Flags)
  | .empty => some (.empty, flags)
  | .flags change => some (.empty, flags.change change)
  | .literal value => (value.expr? flags).map fun e => (e, flags)
  | .dot => (dot? flags).map fun e => (e, flags)
  | .position kind => some (.edge (kind.edge flags), flags)
  | .named kind negated => (kind.set? flags negated).map fun set => (flags.oneOf set, flags)
  | .bracket negated set => do
    let members ← flags.negate? negated (flags.fold (← set.set? flags))
    return (flags.oneOf members, flags)
  | .repetition least most isLazy body =>
    match body.expr? flags with
    | some (e, after) => some (.ofRepetition least most (isLazy != flags.swapGreed) e, after)
    | none => none
  | .group (.capture _) body =>
    match body.expr? flags with
    | some (e, _) => some (.capture e, flags)
    | none => none
  | .group (.flags change) body =>
    match body.expr? (flags.change change) with
    | some (e, _) => some (e, flags)
    | none => none
  | .sequence items =>
    match exprs? flags items with
    | some (es, flags) => some (.ofSequence es, flags)
    | none => none
  | .alternatives branches =>
    match exprs? flags branches with
    | some (es, flags) => some (.ofAlternatives es, flags)
    | none => none

def exprs? (flags : Flags) : List Node → Option (List Expr × Flags)
  | [] => some ([], flags)
  | node :: rest =>
    match node.expr? flags with
    | some (e, flags) =>
      match exprs? flags rest with
      | some (es, flags) => some (e :: es, flags)
      | none => none
    | none => none

end

end ClassBackend.Pattern
