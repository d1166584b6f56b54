import ClassBackend.Text.CharSet

/-!
# Upper case

The full upper-case form of a character, which may be several characters
long. Most letters are shifted, many by the same distance, so the table lists the
letters by distance; the exceptions are listed one by one.
-/

namespace ClassBackend.Text

structure CaseShift where
  shift : Int
  letters : CharSet

def readShift : List Char → Int
  | '-' :: digits => -hexNumber digits
  | digits => hexNumber digits

/-- The letters of a table, by distance. -/
def CaseShift.table (text : String) : List CaseShift :=
  (entries text).map fun (shift, letters) =>
    { shift := readShift (shift.headD []), letters := ⟨CharSet.readRanges letters⟩ }

def upperShifts : List CaseShift :=
  CaseShift.table "
  -20: 3T1a3XxBh26OrBj3W1g2470V1a138Rw110O1g841W1g; 2e7: 6z; 79: 9v; -1: 9xBBxdbbcBBhcBBwcbbebcdfg
  hbbcecdbcdhCBdBBhcBBiccdBBtdBBiifeBBe11dbd3tBBlic3xBBqjBB1acBBgcBB1v229y14kBB2wlBB1v24u106ygbbgc
  kBB1xibe1194jBBwtBBn5fBBgdBB1ekbcBBeeebdBBjlBBhebcBBh1a; -e8: 11t; -12c: 14t; c3: 14u; 61: 15p;
  a3: 15u; a641: 15v; 82: 15y18Id; 38: 17f; -2: 17mcc1m; -4f: 18j; 2a3f: 22Dc; 2a1f: 22u;
  2a1c: 22v; 2a1e: 22w; -d2: 22x; -ce: 22y; -cd: 23Aci; -ca: 23d; -cb: 23f; a54f: 23g; a54b: 23l;
  -cf: 23n; a567: 23o; a528: 23p; a544: 23qd; -d1: 23s; -d3: 23tf; 29f7: 23v; a541: 23w; 29fd: 24b;
  -d5: 24c; -d6: 24f; 29e7: 24n; -da: 24qce; a543: 24s; a52a: 24x; -45: 24z; -d9: 25Ac; -47: 25c;
  -db: 25i; a515: 25t; a512: 25u; 54: 32f; -26: 36e; -25: 36Fd; -1f: 37a; -40: 37k2608T1z;
  -3f: 37Lc; -3e: 37o; -39: 37p; -2f: 37t; -36: 37u; -8: 37v158Ug; -56: 38u; -50: 38v3Qq; 7: 38w
  275e; -74: 38x; -60: 38z; -f: 47j; -30: 52Z1m380R1w; bc0: 165O1rCd; -186e: 280q; -186d: 280r;
  -1864: 280s; -1862: 280Tc; -1863: 280v; -185c: 280w; -1825: 280x; 89c2: 280y; 8a04: 290f;
  ee6: 290j; 8a38: 291a; -3b: 301j; 8: 305GiIgKiIiIglBBdIi2Uc1EcOc; 4a: 309Oc; 56: 309Qe;
  64: 309Uc; 80: 309Wc; 70: 309Yc; 7e: 310Ac; -1c25: 312o; -1c: 327y; -10: 329Gq; -1a: 362M1a;
  -2a2b: 437d; -2a28: 437e; -1c60: 443C1mbf; 30: 1650a; -3a0: 1686x; -97d0: 1688A3c; -28: 2561O1o
  5G1k; -27: 2575RlBpBhBc; -1b: 3610Xz; -22: 4816C1i"

/-- The other forms. A number before the colon says for how many characters in a row
the first character of the form goes along. -/
def upperSpecials : List (Nat × List Nat) :=
  (entries "
  df: 53 53; 149: 2bc 4e; 1f0: 4a 30c; 390: 399 308 301; 3b0: 3a5 308 301; 587: 535 552; 1e96: 48
  331; 1e97: 54 308; 1e98: 57 30a; 1e99: 59 30a; 1e9a: 41 2be; 1f50: 3a5 313; 1f52: 3a5 313 300;
  1f54: 3a5 313 301; 1f56: 3a5 313 342; 1f80 8: 1f08 399; 1f88 8: 1f08 399; 1f90 8: 1f28 399; 1f98
  8: 1f28 399; 1fa0 8: 1f68 399; 1fa8 8: 1f68 399; 1fb2: 1fba 399; 1fb3: 391 399; 1fb4: 386 399;
  1fb6: 391 342; 1fb7: 391 342 399; 1fbc: 391 399; 1fc2: 1fca 399; 1fc3: 397 399; 1fc4: 389 399;
  1fc6: 397 342; 1fc7: 397 342 399; 1fcc: 397 399; 1fd2: 399 308 300; 1fd3: 399 308 301; 1fd6: 399
  342; 1fd7: 399 308 342; 1fe2: 3a5 308 300; 1fe3: 3a5 308 301; 1fe4: 3a1 313; 1fe6: 3a5 342; 1fe7:
  3a5 308 342; 1ff2: 1ffa 399; 1ff3: 3a9 399; 1ff4: 38f 399; 1ff6: 3a9 342; 1ff7: 3a9 342 399;
  1ffc: 3a9 399; fb00: 46 46; fb01: 46 49; fb02: 46 4c; fb03: 46 46 49; fb04: 46 46 4c; fb05: 53
  54; fb06: 53 54; fb13: 544 546; fb14: 544 535; fb15: 544 53b; fb16: 54e 546; fb17: 544
  53d").flatMap fun (codes, form) =>
    (List.range (codes[1]?.elim 1 hexNumber)).map fun i =>
      (hexNumber (codes.headD []) + i, (form.map hexNumber).modifyHead (· + i))

def upperCodes (code : Nat) : List Nat :=
  match upperSpecials.lookup code with
  | some codes => codes
  | none =>
    match upperShifts.find? (·.letters.contains code) with
    | some found => [(code + found.shift).toNat]
    | none => [code]

def upperCase (text : String) : String :=
  String.ofList (text.toList.flatMap fun c => (upperCodes c.toNat).map Char.ofNat)

end ClassBackend.Text
