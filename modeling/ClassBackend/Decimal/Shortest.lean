/-!
# Shortest decimals

A binary floating-point number stands for the interval of reals that round to
it. Its shortest decimal is the point of that interval with the fewest digits;
of two such points the nearer to the number, and on a tie what `Tie` says.

Everything is exact arithmetic on natural numbers: the number is `m * 2 ^ e`,
and a decimal grid `10 ^ k` is tested by comparing integers.
-/

namespace ClassBackend.Decimal

/-- A finite number `mantissa * 2 ^ exponent` together with the width
of its rounding interval. -/
structure Binary where
  mantissa : Nat
  exponent : Int
  /-- The gap to the next smaller number is half the gap to the next larger. -/
  narrowBelow : Bool
  deriving Repr

/-- Split the fields of an IEEE pattern: fraction bits, biased exponent and the
exponent of the least significant bit of the smallest number. -/
def Binary.ofFields (fractionBits : Nat) (least : Int) (biased fraction : Nat) : Binary :=
  if biased == 0 then { mantissa := fraction, exponent := least, narrowBelow := false }
  else
    { mantissa := fraction + Nat.pow 2 fractionBits
      exponent := least + (biased - 1)
      narrowBelow := fraction == 0 }

structure Digits where
  digits : Nat
  exponent : Int
  deriving Repr, DecidableEq

inductive Tie where
  | up
  | even
  deriving Repr, DecidableEq

/-- The number `n` or its successor, where both are equally near. -/
def Tie.choose (tie : Tie) (n : Nat) : Nat :=
  match tie with
  | .up => n + 1
  | .even => n + n % 2

/-- `base ^ n` for a non-negative exponent, otherwise one. -/
def powUp (base : Nat) (n : Int) : Nat := Nat.pow base n.toNat

namespace Binary

/-- The two neighbours of the number on the grid `10 ^ k`, tested against the
rounding interval. The interval is measured in quarters of the last binary
place, and its ends belong to it when the mantissa is even. -/
def onGrid? (b : Binary) (tie : Tie) (k : Int) : Option Nat :=
  let quarter := b.exponent - 2
  let step := powUp 10 k * powUp 2 (-quarter)
  let place := powUp 2 quarter * powUp 10 (-k)
  let value := 4 * b.mantissa * place
  let low := (4 * b.mantissa - if b.narrowBelow then 1 else 2) * place
  let high := (4 * b.mantissa + 2) * place
  let closed := b.mantissa % 2 == 0
  let below := value / step
  let above := below + 1
  let belowIn := below != 0 &&
    (if closed then decide (low ≤ below * step) else decide (low < below * step))
  let aboveIn :=
    if closed then decide (above * step ≤ high) else decide (above * step < high)
  match belowIn, aboveIn with
  | true, true =>
    some (match compare (value - below * step) (above * step - value) with
      | .lt => below
      | .gt => above
      | .eq => tie.choose below)
  | true, false => some below
  | false, true => some above
  | false, false => none

/-- Search ever finer grids for the first one that meets the interval. -/
def search (b : Binary) (tie : Tie) : Nat → Int → Digits
  | 0, k => { digits := (b.onGrid? tie k).getD 0, exponent := k }
  | n + 1, k =>
    match b.onGrid? tie k with
    | some digits => { digits, exponent := k }
    | none => b.search tie n (k - 1)

/-- The shortest decimal of a positive number. The search starts on a grid
coarser than the number itself. -/
def shortest (b : Binary) (tie : Tie) : Digits :=
  let size : Int := b.mantissa.log2 + b.exponent + 1
  b.search tie 40 (Int.fdiv (size * 30103) 100000 + 1)

end Binary

/-- A floating-point number by its parts: a special value, or a sign and a
magnitude, which may be zero. -/
inductive Parts where
  | nan
  | infinite (negative : Bool)
  | finite (negative : Bool) (magnitude : Binary)
  deriving Repr

def Parts.ofFields (fractionBits exponentBits : Nat) (least : Int) (bits : Nat) : Parts :=
  let fraction := bits % Nat.pow 2 fractionBits
  let biased := (bits >>> fractionBits) % Nat.pow 2 exponentBits
  let negative := (bits >>> (fractionBits + exponentBits)) % 2 == 1
  if biased + 1 == Nat.pow 2 exponentBits then
    if fraction == 0 then .infinite negative else .nan
  else .finite negative (Binary.ofFields fractionBits least biased fraction)

end ClassBackend.Decimal
