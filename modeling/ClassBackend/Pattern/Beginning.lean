import ClassBackend.Pattern.ByteSequence
import ClassBackend.Pattern.Expression

/-!
# Patterns that need no automaton

A pattern that matches one of a few texts and nothing else is found by looking
for these texts, so that its automaton is never made and cannot be too large.

The texts come from a list of beginnings: every match starts with one of them, in
order of preference, and is no longer than one that is exact. The list is kept
short, by cutting beginnings, which makes them inexact, or by giving up. It is
then improved for searching. That cuts beginnings too, unless looking for the
whole texts is likely to be faster.
-/

namespace ClassBackend.Pattern

open Text (CharSet)

structure Beginning where
  bytes : List Nat
  /-- The match ends here. -/
  exact : Bool
  deriving DecidableEq, Repr

def Beginning.empty : Beginning := { bytes := [], exact := true }

/-- Keep some of the bytes at most. -/
def Beginning.shorten (count : Nat) (b : Beginning) : Beginning :=
  if count < b.bytes.length then { bytes := b.bytes.take count, exact := false } else b

def Beginning.inexact (b : Beginning) : Beginning := { b with exact := false }

def Beginning.append (a b : Beginning) : Beginning :=
  if a.exact then { bytes := a.bytes ++ b.bytes, exact := b.exact } else a

/-! ## Lists of beginnings -/

/-- Join neighbours with the same bytes. They are exact if all are. -/
def joinFrom (current : Beginning) : List Beginning → List Beginning
  | [] => [current]
  | next :: rest =>
    if next.bytes = current.bytes then
      joinFrom { current with exact := current.exact && next.exact } rest
    else current :: joinFrom next rest

def joinEqual : List Beginning → List Beginning
  | [] => []
  | first :: rest => joinFrom first rest

/-- Leave out what starts with something preferred. -/
def dropCovered (beginnings : List Beginning) : List Beginning :=
  (beginnings.foldl (fun (kept : List Beginning) b =>
    if kept.any fun k => k.bytes.isPrefixOf b.bytes then kept else b :: kept) []).reverse

/-- How matches may begin, unless that is too much to list. -/
abbrev Beginnings := Option (List Beginning)

namespace Beginnings

def countLimit : Nat := 250

def lengthLimit : Nat := 100

def classLimit : Nat := 10

def copyLimit : Nat := 10

def start : Beginnings := some [.empty]

/-- Going on changes nothing. -/
def isInexact : Beginnings → Bool
  | none => true
  | some beginnings => beginnings.all fun b => !b.exact

def inexact (beginnings : Beginnings) : Beginnings :=
  beginnings.map fun list => list.map Beginning.inexact

/-- Go on with one of some beginnings. If there are too many, then only beginnings
with some bytes stay. -/
def append (a b : Beginnings) : Beginnings :=
  match a, b with
  | none, _ => none
  | some as, some bs =>
    if as.length * bs.length ≤ countLimit then
      some ((joinEqual (as.flatMap fun x => if x.exact then bs.map x.append else [x])).map
        (Beginning.shorten lengthLimit))
    else giveUp as
  | some as, none => giveUp as
where
  giveUp (as : List Beginning) : Beginnings :=
    if as.any (·.bytes.isEmpty) then none else inexact (some as)

def appendTimes (b : Beginnings) : Nat → Beginnings → Beginnings
  | 0, a => a
  | n + 1, a => if a.isInexact then a else appendTimes b n (a.append b)

/-- Begin in one way or the other. Where there are too many ways, four bytes of
each have to do. -/
def union (a b : Beginnings) : Beginnings :=
  match a, b with
  | some as, some bs =>
    if as.length + bs.length ≤ countLimit then some (joinEqual (as ++ bs))
    else
      let as := joinEqual (as.map (Beginning.shorten 4))
      let bs := joinEqual (bs.map (Beginning.shorten 4))
      if as.length + bs.length ≤ countLimit then some (joinEqual (as ++ bs)) else none
  | _, _ => none

def ofClass (set : CharSet) : Beginnings :=
  let count := set.ranges.foldl (fun n range => n + (range.2 - range.1 + 1)) 0
  if classLimit < count then none
  else
    some (set.ranges.flatMap fun range =>
      (List.range' range.1 (range.2 - range.1 + 1)).map fun code =>
        { bytes := encode code, exact := true })

/-- Begin with a repetition. What an optional part begins with is preferred to
nothing at all, unless the repetition is lazy. -/
def ofRepetition (least : Nat) (most : Option Nat) (isLazy : Bool) (body : Beginnings) :
    Beginnings :=
  if least == 0 then
    let body := if most == some 1 then body else body.inexact
    if isLazy then start.union body else body.union start
  else
    let copies := appendTimes body (min least copyLimit) start
    if most == some least && least ≤ copyLimit then copies else copies.inexact

end Beginnings

mutual

def Expr.beginnings : Expr → Beginnings
  | .empty | .edge _ => .start
  | .literal text =>
    some [Beginning.shorten Beginnings.lengthLimit
      { bytes := text.flatMap fun c => encode c.toNat, exact := true }]
  | .chars set | .bytes set => .ofClass set
  | .repetition least most isLazy body => .ofRepetition least most isLazy body.beginnings
  | .capture body => body.beginnings
  | .sequence items => sequenceBeginnings .start items
  | .alternatives branches => branchBeginnings (some []) branches

def sequenceBeginnings (a : Beginnings) : List Expr → Beginnings
  | [] => a
  | item :: rest =>
    if a.isInexact then a else sequenceBeginnings (a.append item.beginnings) rest

def branchBeginnings (a : Beginnings) : List Expr → Beginnings
  | [] => a
  | branch :: rest =>
    match a with
    | none => none
    | some _ => branchBeginnings (a.union branch.beginnings) rest

end

/-! ## Searching -/

def isFrequent (byte : Nat) : Bool :=
  0xc0 ≤ byte || ("\n\r (),-./0129:_abcdefghilmnoprstuvxy|".toList.any fun c => c.toNat == byte)

def commonBytes : List Nat → List Nat → List Nat
  | a :: as, b :: bs => if a == b then a :: commonBytes as bs else []
  | _, _ => []

def sharedBytes : List Beginning → List Nat
  | [] => []
  | first :: rest => rest.foldl (fun bytes b => commonBytes bytes b.bytes) first.bytes

/-- How many bytes are kept, and from how many beginnings on. -/
def cuts : List (Nat × Nat) := [(5, 10), (4, 10), (3, 64), (2, 64), (1, 10)]

def cutDown : List (Nat × Nat) → List Beginning → List Beginning
  | [], beginnings => beginnings
  | (count, limit) :: rest, beginnings =>
    if beginnings.length ≤ limit then beginnings
    else cutDown rest (dropCovered (beginnings.map (Beginning.shorten count)))

/-- The beginnings to look for are whole matches. A rare byte that starts all of
several beginnings is looked for alone; so are several bytes, if the beginnings
are many or not all exact. Otherwise exact beginnings stay as they are, unless
they can be cut down to few that are not too short. -/
def findsMatches (beginnings : List Beginning) : Bool :=
  let kept := dropCovered beginnings
  let shared := sharedBytes kept
  let allExact (list : List Beginning) : Bool := list.all (·.exact)
  if kept.isEmpty || kept.any (·.bytes.isEmpty) then false
  else if 1 < beginnings.length && shared.length ≤ 3 && shared.head?.any (!isFrequent ·) then
    allExact (joinEqual (kept.map (Beginning.shorten 1)))
  else
    let few := allExact kept && decide (kept.length ≤ 16)
    let kept :=
      if 4 < shared.length || 1 < shared.length && !few then
        joinEqual (kept.map (Beginning.shorten shared.length))
      else kept
    let cut := cutDown cuts kept
    allExact kept && (allExact cut || cut.any (·.bytes.length ≤ 2) || decide (64 < cut.length))

mutual

/-- No groups are recorded and no positions asked for. -/
def Expr.isPlain : Expr → Bool
  | .empty | .literal _ | .chars _ | .bytes _ => true
  | .edge _ | .capture _ => false
  | .repetition _ _ _ body => body.isPlain
  | .sequence items | .alternatives items => allPlain items

def allPlain : List Expr → Bool
  | [] => true
  | item :: rest => item.isPlain && allPlain rest

end

/-- So many alternatives, all of them literals, that no automaton is made. -/
def Expr.isWordList : Expr → Bool
  | .alternatives branches => decide (3000 ≤ branches.length) && branches.all (·.literal?.isSome)
  | _ => false

def Expr.needsNoAutomaton (e : Expr) : Bool :=
  e.isPlain && (e.beginnings.any findsMatches || e.isWordList)

end ClassBackend.Pattern
