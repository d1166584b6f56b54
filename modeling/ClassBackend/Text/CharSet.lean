import ClassBackend.Text.Hex

/-!
# Sets of characters

A set of code points is kept as closed ranges in ascending order with a gap
after each. Union sorts and joins; the other operations go through the ranges of
both sets in order.

The ends of a range are characters. Surrogates are not, so a range that reaches
over them is followed and preceded by characters on their far side.

Tables write how many code points lie before a range, how many it has, and how
often this comes. A number is a letter, from `a` for zero, behind the count of
whole alphabets. A capital letter says that another number follows: `2N1aeBBc` is
the capital letters, four further on the line, and then every other character
twice, `a` and `c`. A length or a count of one is left out.
-/

namespace ClassBackend.Text

def lastCode : Nat := 0x10ffff

structure CharSet where
  ranges : List (Nat × Nat)
  deriving DecidableEq, Repr, Inhabited

namespace CharSet

/-- Join ranges that overlap or touch. `current` starts first. -/
def joinFrom (current : Nat × Nat) : List (Nat × Nat) → List (Nat × Nat)
  | [] => [current]
  | next :: rest =>
    if next.1 ≤ current.2 + 1 then joinFrom (current.1, max current.2 next.2) rest
    else current :: joinFrom next rest

def ofRanges (ranges : List (Nat × Nat)) : CharSet :=
  match ranges.mergeSort fun a b => decide (a.1 ≤ b.1) with
  | [] => ⟨[]⟩
  | first :: rest => ⟨joinFrom first rest⟩

def empty : CharSet := ⟨[]⟩

def range (first last : Nat) : CharSet := ⟨[(first, last)]⟩

def all : CharSet := range 0 lastCode

def contains (s : CharSet) (code : Nat) : Bool :=
  s.ranges.any fun r => decide (r.1 ≤ code) && decide (code ≤ r.2)

def isAscii (s : CharSet) : Bool := s.ranges.all fun r => decide (r.2 < 0x80)

def union (s t : CharSet) : CharSet := ofRanges (s.ranges ++ t.ranges)

def codeAfter (code : Nat) : Nat := if code == 0xd7ff then 0xe000 else code + 1

def codeBefore (code : Nat) : Nat := if code == 0xe000 then 0xd7ff else code - 1

/-- The range between two characters, in whichever order they are given. -/
def between (a b : Nat) : Nat × Nat := (min a b, max a b)

/-- The gaps after a character that is in the set. Neighbouring ranges with no
character between them leave the two ends that face each other. -/
def gapsAfter (last : Nat) : List (Nat × Nat) → List (Nat × Nat)
  | [] => if last < lastCode then [(codeAfter last, lastCode)] else []
  | range :: rest => between (codeAfter last) (codeBefore range.1) :: gapsAfter range.2 rest

def complement (s : CharSet) : CharSet :=
  match s.ranges with
  | [] => all
  | range :: rest =>
    ⟨(if 0 < range.1 then [(0, codeBefore range.1)] else []) ++ gapsAfter range.2 rest⟩

def commonParts : List (Nat × Nat) → List (Nat × Nat) → List (Nat × Nat)
  | [], _ | _, [] => []
  | a :: as, b :: bs =>
    let later := if a.2 < b.2 then commonParts as (b :: bs) else commonParts (a :: as) bs
    let part := (max a.1 b.1, min a.2 b.2)
    if part.1 ≤ part.2 then part :: later else later
termination_by as bs => as.length + bs.length

def inter (s t : CharSet) : CharSet := ⟨commonParts s.ranges t.ranges⟩

def partsLeft : List (Nat × Nat) → List (Nat × Nat) → List (Nat × Nat)
  | [], _ => []
  | as, [] => as
  | a :: as, b :: bs =>
    if b.2 < a.1 then partsLeft (a :: as) bs
    else if a.2 < b.1 then a :: partsLeft as (b :: bs)
    else
      let before := if a.1 < b.1 then [(a.1, codeBefore b.1)] else []
      let later :=
        if b.2 < a.2 then partsLeft ((codeAfter b.2, a.2) :: as) bs else partsLeft as (b :: bs)
      before ++ later
termination_by as bs => as.length + bs.length

def diff (s t : CharSet) : CharSet := ⟨partsLeft s.ranges t.ranges⟩

def symmDiff (s t : CharSet) : CharSet := (s.union t).diff (s.inter t)

end CharSet

/-! ## Tables -/

def words (text : List Char) : List (List Char) :=
  (text.splitOnP Char.isWhitespace).filter (!·.isEmpty)

/-- The entries of a table, each with the words before its colon and those
behind. -/
def entries (table : String) : List (List (List Char) × List (List Char)) :=
  (table.toList.splitOn ';').map fun entry =>
    let (key, value) := entry.span (· != ':')
    (words key, words value.tail)

namespace CharSet

/-- How far a table has been read: the alphabets of the number, the numbers of the
range, the code point after the last range, and the ranges in reverse. -/
structure Reading where
  alphabets : Nat := 0
  numbers : List Nat := []
  next : Nat := 0
  ranges : List (Nat × Nat) := []

def Reading.finish (r : Reading) (numbers : List Nat) : Reading :=
  let gap := numbers.headD 0
  let length := numbers.getD 1 1
  let times := numbers.getD 2 1
  let ranges := (List.range times).map fun i =>
    let first := r.next + gap + i * (gap + length)
    (first, first + length - 1)
  { next := r.next + times * (gap + length), ranges := ranges.reverse ++ r.ranges }

def Reading.step (r : Reading) (c : Char) : Reading :=
  if c.isDigit then { r with alphabets := 10 * r.alphabets + (c.toNat - '0'.toNat) }
  else
    let numbers := r.numbers ++ [26 * r.alphabets + (c.toLower.toNat - 'a'.toNat)]
    if c.isUpper then { r with alphabets := 0, numbers } else r.finish numbers

def readRanges (words : List (List Char)) : List (Nat × Nat) :=
  (words.flatten.foldl Reading.step {}).ranges.reverse

def ofText (table : String) : CharSet := ofRanges (readRanges (words table.toList))

end CharSet

/-- A class of characters: some general categories, with more ranges and without
others. Each of its names stands for it. -/
structure CharClass where
  names : List String
  categories : List String := []
  ranges : List (Nat × Nat) := []
  without : List (Nat × Nat) := []

/-- The classes of a table. Categories start with a capital letter, as ranges do not,
and what is left out stands behind a dash. -/
def CharClass.table (text : String) : List CharClass :=
  (entries text).map fun (names, content) =>
    let (own, without) := content.span (· != ['-'])
    let (categories, ranges) := own.partition (·.head?.any Char.isUpper)
    { names := names.map String.ofList
      categories := categories.map String.ofList
      ranges := CharSet.readRanges ranges
      without := CharSet.readRanges without.tail }

/-- The class of a table with one entry, without its name. -/
def CharClass.read (text : String) : CharClass :=
  (CharClass.table text).headD { names := [] }

end ClassBackend.Text
