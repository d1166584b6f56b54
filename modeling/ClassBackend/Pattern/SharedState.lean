import ClassBackend.Pattern.ByteSequence
import ClassBackend.Pattern.Draft
import Std.Data.HashMap

/-!
# States shared within a class

The automaton of a class of characters beyond ASCII is made from the byte
sequences of its characters. Read forwards, a state is shared by all sequences
that go on alike from it; read backwards, by all that have come to it alike.

States are found again in a table with a fixed number of slots. A state that goes
into an occupied slot takes the place of the older one, which is then no longer
found and may be made a second time.
-/

namespace ClassBackend.Pattern

/-! ## Slots -/

def emptyDigest : UInt64 := 14695981039346656037

def digest (d : UInt64) (word : Nat) : UInt64 := (d ^^^ word.toUInt64) * 1099511628211

abbrev Slots (Key : Type) := Std.HashMap Nat (Key × Nat)

def Slots.find? {Key : Type} [DecidableEq Key] (slots : Slots Key) (slot : Nat) (key : Key) :
    Option Nat :=
  match slots.get? slot with
  | some (known, state) => if known = key then some state else none
  | none => none

/-! ## Forwards -/

structure Branch where
  bytes : ByteRange
  next : Nat
  deriving DecidableEq, Repr

structure OpenState where
  /-- The complete branches, the latest first. -/
  branches : List Branch
  digest : UInt64
  /-- The branch whose further way is still open. -/
  pending : ByteRange
  deriving DecidableEq, Repr

namespace OpenState

def new (pending : ByteRange) : OpenState :=
  { branches := [], digest := emptyDigest, pending := pending }

def complete (s : OpenState) (next : Nat) : OpenState :=
  { s with
    branches := ⟨s.pending, next⟩ :: s.branches
    digest := Pattern.digest (Pattern.digest (Pattern.digest s.digest s.pending.1) s.pending.2)
      next }

end OpenState

/-- An automaton under construction, with the states of a class to find. -/
structure ForwardDraft where
  draft : Draft
  slots : Slots (List Branch)

def forwardSlots : Nat := 10000

def ForwardDraft.intern? (d : ForwardDraft) (s : OpenState) : Option (Nat × ForwardDraft) :=
  let slot := s.digest.toNat % forwardSlots
  match d.slots.find? slot s.branches with
  | some state => some (state, d)
  | none =>
    (d.draft.add? 1 (branchSize * s.branches.length)).map fun draft =>
      let state := d.draft.states
      (state, { draft := draft, slots := d.slots.insert slot (s.branches, state) })

/-- Complete the states of an open way, from its far end. The way ends in the
target. -/
def ForwardDraft.close? (target : Nat) (d : ForwardDraft) :
    List OpenState → Option (Nat × ForwardDraft)
  | [] => some (target, d)
  | s :: further =>
    match d.close? target further with
    | some (next, d) => d.intern? (s.complete next)
    | none => none

/-- Add a sequence to an open way. As far as it takes the pending branches it goes
along; what lies further is complete. -/
def ForwardDraft.insert? (target : Nat) (d : ForwardDraft) :
    List OpenState → List ByteRange → Option (List OpenState × ForwardDraft)
  | [], sequence => some (sequence.map OpenState.new, d)
  | way, [] => some (way, d)
  | s :: further, bytes :: rest =>
    if s.pending = bytes then
      (d.insert? target further rest).map fun (way, d) => (s :: way, d)
    else
      (d.close? target further).map fun (next, d) =>
        ({ s.complete next with pending := bytes } :: rest.map OpenState.new, d)

def ForwardDraft.insertAll? (target : Nat) (d : ForwardDraft) (way : List OpenState) :
    List (List ByteRange) → Option Draft
  | [] => (d.close? target way).map fun (_, d) => d.draft
  | sequence :: rest =>
    match d.insert? target way sequence with
    | some (way, d) => d.insertAll? target way rest
    | none => none

def Draft.addForward? (d : Draft) (sequences : List (List ByteRange)) : Option Draft :=
  match d.add? 1 0 with
  | some draft => ForwardDraft.insertAll? d.states { draft := draft, slots := ∅ } [] sequences
  | none => none

/-! ## Backwards -/

/-- An automaton under construction, with the states of a class to find by the
branch that leads on from each. -/
structure BackwardDraft where
  draft : Draft
  slots : Slots Branch

def backwardSlots : Nat := 1000

def BackwardDraft.intern? (d : BackwardDraft) (b : Branch) : Option (Nat × BackwardDraft) :=
  let slot :=
    (digest (digest (digest emptyDigest b.next) b.bytes.1) b.bytes.2).toNat % backwardSlots
  match d.slots.find? slot b with
  | some state => some (state, d)
  | none =>
    (d.draft.add? 1 0).map fun draft =>
      let state := d.draft.states
      (state, { draft := draft, slots := d.slots.insert slot (b, state) })

/-- Add a sequence whose bytes so far lead on to a state, and a way to it. -/
def BackwardDraft.insert? (d : BackwardDraft) (next : Nat) :
    List ByteRange → Option BackwardDraft
  | [] => (d.draft.spend? forkSize).map fun draft => { d with draft := draft }
  | bytes :: rest =>
    match d.intern? ⟨bytes, next⟩ with
    | some (state, d) => d.insert? state rest
    | none => none

def BackwardDraft.insertAll? (d : BackwardDraft) (next : Nat) :
    List (List ByteRange) → Option Draft
  | [] => some d.draft
  | sequence :: rest =>
    match d.insert? next sequence with
    | some d => d.insertAll? next rest
    | none => none

/-- Make the states of a class that is read backwards: a fork to the sequences and
the state they end in come first. -/
def Draft.addBackward? (d : Draft) (sequences : List (List ByteRange)) : Option Draft :=
  match d.add? 2 0 with
  | some draft =>
    BackwardDraft.insertAll? { draft := draft, slots := ∅ } (d.states + 1) sequences
  | none => none

end ClassBackend.Pattern
