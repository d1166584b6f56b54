import ClassBackend.Text.CharSet

/-!
# Byte sequences of characters

A character takes one to four bytes. The characters of a range, written as bytes,
are a few products of byte ranges, one after the other in ascending order.
-/

namespace ClassBackend.Pattern

open Text (CharSet)

abbrev ByteRange := Nat × Nat

def encode (code : Nat) : List Nat :=
  if code < 0x80 then [code]
  else if code < 0x800 then [0xc0 + code / 0x40, 0x80 + code % 0x40]
  else if code < 0x10000 then
    [0xe0 + code / 0x1000, 0x80 + code / 0x40 % 0x40, 0x80 + code % 0x40]
  else
    [0xf0 + code / 0x40000, 0x80 + code / 0x1000 % 0x40, 0x80 + code / 0x40 % 0x40,
      0x80 + code % 0x40]

def clip (low high : Nat) (range : Nat × Nat) : Option (Nat × Nat) :=
  let first := max low range.1
  let last := min high range.2
  if first ≤ last then some (first, last) else none

/-- Split a range so that the code points of each part have equally many bytes.
Surrogates are no characters. -/
def splitByLength (range : Nat × Nat) : List (Nat × Nat) :=
  [(0, 0x7f), (0x80, 0x7ff), (0x800, 0xd7ff), (0xe000, 0xffff), (0x10000, 0x10ffff)].filterMap
    fun (low, high) => clip low high range

/-- Split a range so that each part is a product of byte ranges: partial blocks
at both ends, and what remains by larger blocks. -/
def splitByBlock : Nat → Nat → Nat × Nat → List (Nat × Nat)
  | 0, _, range => [range]
  | n + 1, block, (first, last) =>
    if first / block == last / block then [(first, last)]
    else
      let inner := if first % block == 0 then first else (first / block + 1) * block
      let outer := if last % block + 1 == block then last + 1 else last / block * block
      (if first < inner then [(first, inner - 1)] else []) ++
        (if inner < outer then splitByBlock n (block * 0x40) (inner, outer - 1) else []) ++
        (if outer ≤ last then [(outer, last)] else [])

def byteSequences (set : CharSet) : List (List ByteRange) :=
  set.ranges.flatMap fun range =>
    (splitByLength range).flatMap fun part =>
      (if part.2 < 0x80 then [part] else splitByBlock 3 0x40 part).map fun (first, last) =>
        (encode first).zip (encode last)

end ClassBackend.Pattern
