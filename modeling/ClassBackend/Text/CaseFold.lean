import ClassBackend.Text.UpperCase

/-!
# Letters alike but for case

Two letters differ in case only if upper-casing takes one to the other. Some
pairs come on top: signs that were letters once and share a lower-case form with
the letter, and combinations that have no single upper-case form. The dotless i
belongs to no pair, since its upper-case form belongs to the dotted one, and the
latest letters are in no pair yet.
-/

namespace ClassBackend.Text

def foldShifts : List CaseShift :=
  upperShifts ++ CaseShift.table "
  20bf: 4d; 1dbf: 8p; 2046: 8v; 1c43: 35c; 1c33: 36i; 3c: 36q; 1d5d: 37h; 8: 310EiIIc; 9: 312dp1v;
  1: 2471p"

/-- Letters that have an upper-case form but are in no pair. -/
def unpaired : CharSet := .ofText "11t1640ndb1958Jz"

/-- The letters, each with its partner. -/
def CaseShift.pairs (shifted : CaseShift) : List (Nat × Nat) :=
  shifted.letters.ranges.flatMap fun range =>
    (List.range' range.1 (range.2 + 1 - range.1)).map fun code =>
      (code, ((code : Int) + shifted.shift).toNat)

def casePairs : List (Nat × Nat) :=
  (foldShifts.flatMap CaseShift.pairs).filter fun pair => !unpaired.contains pair.1

def asciiPairs : List (Nat × Nat) := (List.range 26).map fun i => (0x61 + i, 0x41 + i)

namespace CharSet

def withPartners (s : CharSet) (pairs : List (Nat × Nat)) : CharSet :=
  let split := pairs.filter fun pair => s.contains pair.1 != s.contains pair.2
  if split.isEmpty then s
  else s.union (.ofRanges (split.flatMap fun pair => [(pair.1, pair.1), (pair.2, pair.2)]))

/-- Close the set under case. Letters alike have at most three steps between
them. -/
def foldCase (s : CharSet) : CharSet :=
  ((s.withPartners casePairs).withPartners casePairs).withPartners casePairs

def foldAscii (s : CharSet) : CharSet := s.withPartners asciiPairs

end CharSet

end ClassBackend.Text
