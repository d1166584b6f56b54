import ClassBackend.Pattern.Tree
import ClassBackend.Text.Alphabetic
import ClassBackend.Text.Blank

/-!
# Reading patterns

From the text of a pattern to its tree. Groups and brackets must be closed, an
operator of repetition needs something to repeat, ranges ascend, and an escape
must be known. Back-references and conditions on the surrounding text are not
part of the syntax.

A reader takes the rest of the text and returns what it read with what follows,
or nothing if the text is wrong there. In verbose parts of a pattern blanks and
comments may stand almost everywhere; readers are told whether the part is
verbose.
-/

namespace ClassBackend.Pattern

/-! ## Blanks and comments -/

/-- Leave out blanks and comments. A comment runs from a number sign to the end
of its line. -/
def skipFrom (inComment : Bool) : List Char → List Char
  | [] => []
  | c :: rest =>
    if inComment then skipFrom (c != '\n') rest
    else if Text.isBlank c then skipFrom false rest
    else if c == '#' then skipFrom true rest
    else c :: rest

def skip (verbose : Bool) (text : List Char) : List Char :=
  if verbose then skipFrom false text else text

theorem length_skipFrom_le (inComment : Bool) (text : List Char) :
    (skipFrom inComment text).length ≤ text.length := by
  induction text generalizing inComment with
  | nil => simp [skipFrom]
  | cons c rest ih =>
    have step (inComment : Bool) : (skipFrom inComment rest).length ≤ rest.length + 1 :=
      Nat.le_succ_of_le (ih inComment)
    rw [skipFrom]
    repeat' split
    all_goals simp [step]

theorem length_skip_le (verbose : Bool) (text : List Char) :
    (skip verbose text).length ≤ text.length := by
  unfold skip
  split
  · exact length_skipFrom_le false text
  · exact Nat.le_refl _

/-- Take characters while they qualify, with blanks and comments left out after
each. -/
def gather (verbose : Bool) (qualifies : Char → Bool) :
    List Char → List Char × List Char
  | [] => ([], [])
  | c :: rest =>
    if qualifies c then
      let (taken, after) := gather verbose qualifies (skip verbose rest)
      (c :: taken, after)
    else ([], c :: rest)
termination_by text => text.length
decreasing_by
  have := length_skip_le verbose rest
  simp only [List.length_cons]
  omega

/-- The character that decides whether a hyphen makes a range. Of a comment only
its number sign is left out. -/
def lookAhead (verbose : Bool) (text : List Char) : Option Char :=
  if verbose then
    let beyond := match text.dropWhile Text.isBlank with
      | '#' :: rest => rest.dropWhile Text.isBlank
      | rest => rest
    beyond.head? <|> text.head?
  else text.head?

/-! ## Numbers -/

def readDecimal (verbose : Bool) (text : List Char) : Option (Nat × List Char) :=
  let (digits, rest) := gather verbose Char.isDigit (text.dropWhile Text.isBlank)
  let value := digits.foldl (fun n c => 10 * n + (c.toNat - '0'.toNat)) 0
  if digits.isEmpty || 0x100000000 ≤ value then none
  else some (value, rest.dropWhile Text.isBlank)

def hexChar? (digits : List Char) : Option Char := do
  if digits.isEmpty then none
  let n ← digits.foldlM (fun n c => (Text.hexValue? c).map (16 * n + ·)) 0
  if h : n.isValidChar then some (Char.ofNatAux n h) else none

def readFixed (verbose : Bool) : Nat → List Char → Option (List Char × List Char)
  | 0, text => some ([], text)
  | _ + 1, [] => none
  | n + 1, c :: rest =>
    (readFixed verbose n (skip verbose rest)).map fun (taken, after) => (c :: taken, after)

/-- Read a character given by its number: a fixed count of hexadecimal digits, or
any count of them between braces. -/
def readHex (verbose : Bool) (width : Nat) (text : List Char) : Option (Literal × List Char) :=
  match skip verbose text with
  | '\x7b' :: rest =>
    match gather verbose (· != '\x7d') (skip verbose rest) with
    | (digits, _ :: after) =>
      (hexChar? digits).map fun c => ({ char := c, namesByte := false }, skip verbose after)
    | (_, []) => none
  | text => do
    let (digits, rest) ← readFixed verbose width text
    return ({ char := ← hexChar? digits, namesByte := width == 2 }, rest)

/-! ## Classes by name -/

def splitAt? (mark : List Char) : List Char → Option (String × String)
  | [] => none
  | c :: rest =>
    if mark.isPrefixOf (c :: rest) then
      some ("", String.ofList ((c :: rest).drop mark.length))
    else
      (splitAt? mark rest).map fun (before, after) => (String.singleton c ++ before, after)

/-- The class a name between braces stands for, and whether it is turned round. -/
def propertyClass (name : List Char) : NamedClass × Bool :=
  match splitAt? ['!', '='] name with
  | some (property, value) => (.value property value, true)
  | none =>
    match splitAt? [':'] name <|> splitAt? ['='] name with
    | some (property, value) => (.value property value, false)
    | none => (.property (String.ofList name), false)

/-- Read the name of a property: one character, or anything between braces. -/
def readProperty (verbose : Bool) (text : List Char) : Option ((NamedClass × Bool) × List Char) :=
  match skip verbose text with
  | [] | '\\' :: _ => none
  | '\x7b' :: rest =>
    match gather verbose (· != '\x7d') (skip verbose rest) with
    | (name, _ :: after) => some (propertyClass name, after)
    | (_, []) => none
  | c :: rest => some ((.property (String.singleton c), false), skip verbose rest)

def asciiClass? : String → Option AsciiClass
  | "alnum" => some .alnum
  | "alpha" => some .alpha
  | "ascii" => some .ascii
  | "blank" => some .blank
  | "cntrl" => some .cntrl
  | "digit" => some .digit
  | "graph" => some .graph
  | "lower" => some .lower
  | "print" => some .print
  | "punct" => some .punct
  | "space" => some .space
  | "upper" => some .upper
  | "word" => some .word
  | "xdigit" => some .xdigit
  | _ => none

def readAscii : List Char → Option (SetItem × List Char)
  | ':' :: text =>
    let (negated, text) := match text with
      | '^' :: rest => (true, rest)
      | _ => (false, text)
    match text.dropWhile (· != ':') with
    | ':' :: ']' :: rest =>
      (asciiClass? (String.ofList (text.takeWhile (· != ':')))).map fun kind =>
        (.named (.ascii kind) negated, rest)
    | _ => none
  | _ => none

/-! ## Escapes -/

inductive Escape where
  | literal (value : Literal)
  | position (kind : Position)
  | named (kind : NamedClass) (negated : Bool)
  deriving DecidableEq, Repr

def Escape.char (c : Char) : Escape := .literal { char := c, namesByte := false }

def isBoundaryChar (c : Char) : Bool := c.isAlpha || c == '-'

def wordEdge? : String → Option WordEdge
  | "start" => some .start
  | "end" => some .finish
  | "start-half" => some .noneBefore
  | "end-half" => some .noneAfter
  | _ => none

/-- Read what follows `\b`. A name between braces tells the kind of boundary;
braces that hold no name are left for a repetition. -/
def readBoundary (verbose : Bool) (text : List Char) : Option (Escape × List Char) :=
  match text with
  | '\x7b' :: inner =>
    match skip verbose inner with
    | [] => none
    | c :: rest =>
      if isBoundaryChar c then
        match gather verbose isBoundaryChar (c :: rest) with
        | (name, '\x7d' :: after) =>
          (wordEdge? (String.ofList name)).map fun kind => (.position (.word kind), after)
        | _ => none
      else some (.position (.word .boundary), text)
  | _ => some (.position (.word .boundary), text)

/-- Read an escape after its backslash. Marks of ASCII stand for themselves;
letters and digits only mean what they are listed for. -/
def readEscape (verbose : Bool) : List Char → Option (Escape × List Char)
  | [] => none
  | c :: rest =>
    match c with
    | 'x' => hex 2 rest
    | 'u' => hex 4 rest
    | 'U' => hex 8 rest
    | 'p' => property false rest
    | 'P' => property true rest
    | 'd' => some (.named (.letter .digit) false, rest)
    | 'D' => some (.named (.letter .digit) true, rest)
    | 's' => some (.named (.letter .space) false, rest)
    | 'S' => some (.named (.letter .space) true, rest)
    | 'w' => some (.named (.letter .word) false, rest)
    | 'W' => some (.named (.letter .word) true, rest)
    | 'a' => some (.char '\x07', rest)
    | 'f' => some (.char '\x0c', rest)
    | 't' => some (.char '\t', rest)
    | 'n' => some (.char '\n', rest)
    | 'r' => some (.char '\r', rest)
    | 'v' => some (.char '\x0b', rest)
    | 'A' => some (.position .textStart, rest)
    | 'z' => some (.position .textEnd, rest)
    | 'b' => readBoundary verbose rest
    | 'B' => some (.position (.word .noBoundary), rest)
    | '<' => some (.position (.word .start), rest)
    | '>' => some (.position (.word .finish), rest)
    | c => if c.toNat < 0x80 && !c.isAlphanum then some (.char c, rest) else none
where
  hex (width : Nat) (text : List Char) : Option (Escape × List Char) :=
    (readHex verbose width text).map fun (value, rest) => (.literal value, rest)
  property (negated : Bool) (text : List Char) : Option (Escape × List Char) :=
    (readProperty verbose text).map fun ((kind, turned), rest) =>
      (.named kind (negated != turned), rest)

/-! ## Classes in brackets -/

def readEnd (verbose : Bool) : List Char → Option (Escape × List Char)
  | [] => none
  | '\\' :: rest => readEscape verbose rest
  | c :: rest => some (.char c, rest)

/-- Read a range or a single item. A hyphen before a closing bracket or another
hyphen makes no range. -/
def readRange (verbose : Bool) (text : List Char) : Option (SetItem × List Char) := do
  let (first, rest) ← readEnd verbose text
  let single : Option (SetItem × List Char) := match first with
    | .literal value => some (.literal value, skip verbose rest)
    | .named kind negated => some (.named kind negated, skip verbose rest)
    | .position _ => none
  match skip verbose rest with
  | [] => none
  | '-' :: more =>
    let next := lookAhead verbose more
    if next == some ']' || next == some '-' then single
    else
      match first, ← readEnd verbose (skip verbose more) with
      | .literal first, (.literal last, rest) =>
        if first.char ≤ last.char then some (.range first last, rest) else none
      | _, _ => none
  | _ => single

def readHyphens (verbose : Bool) (text : List Char) : List SetItem × List Char :=
  let (hyphens, rest) := gather verbose (· == '-') text
  (hyphens.map fun c => .literal { char := c, namesByte := false }, rest)

/-- Read the start of a class after its bracket: whether it is negated, hyphens,
and a closing bracket that stands for itself because it is the first item. -/
def readStart (verbose : Bool) (text : List Char) : Option ((Bool × List SetItem) × List Char) :=
  let text := skip verbose text
  let (negated, text) := match text with
    | '^' :: rest => (true, skip verbose rest)
    | _ => (false, text)
  match readHyphens verbose text with
  | (_, []) => none
  | ([], ']' :: rest) =>
    some ((negated, [.literal { char := ']', namesByte := false }]), skip verbose rest)
  | (hyphens, rest) => some ((negated, hyphens), rest)

/-- The class of the items read since the last operator, latest first, joined to
what stands before the operator. -/
def combine (left : Option (SetTree × SetOperator)) (items : List SetItem) : SetTree :=
  match left with
  | none => .union items.reverse
  | some (set, kind) => .operator kind set (.union items.reverse)

mutual

def readBracket (verbose : Bool) : Nat → List Char → Option ((Bool × SetTree) × List Char)
  | 0, _ => none
  | n + 1, text =>
    match readStart verbose text with
    | none => none
    | some ((negated, items), rest) =>
      (readItems verbose n none items.reverse rest).map fun (set, rest) => ((negated, set), rest)

def readItems (verbose : Bool) : Nat → Option (SetTree × SetOperator) → List SetItem →
    List Char → Option (SetTree × List Char)
  | 0, _, _, _ => none
  | n + 1, left, items, text =>
    match skip verbose text with
    | [] => none
    | ']' :: rest => some (combine left items, rest)
    | '[' :: rest =>
      match readAscii rest with
      | some (item, rest) => readItems verbose n left (item :: items) rest
      | none =>
        match readBracket verbose n rest with
        | some ((negated, set), rest) =>
          readItems verbose n left (.bracket negated set :: items) rest
        | none => none
    | '&' :: '&' :: rest =>
      readItems verbose n (some (combine left items, .intersection)) [] rest
    | '-' :: '-' :: rest =>
      readItems verbose n (some (combine left items, .difference)) [] rest
    | '~' :: '~' :: rest =>
      readItems verbose n (some (combine left items, .symmetricDifference)) [] rest
    | text =>
      match readRange verbose text with
      | some (item, rest) => readItems verbose n left (item :: items) rest
      | none => none

end

/-! ## Groups -/

def flag? : Char → Option Flag
  | 'i' => some .ignoreCase
  | 'm' => some .multiLine
  | 's' => some .dotMatchesAll
  | 'U' => some .swapGreed
  | 'u' => some .unicode
  | 'R' => some .carriageReturn
  | 'x' => some .verbose
  | _ => none

/-- Read the flags of a group: each at most once, those after a hyphen cleared. -/
def flagChange? (text : List Char) : Option FlagChange := do
  let on ← (text.takeWhile (· != '-')).mapM flag?
  let off ← match text.dropWhile (· != '-') with
    | [] => some []
    | [_] => none
    | _ :: letters => letters.mapM flag?
  if (on ++ off).Nodup then some { on, off } else none

/-- The name of a group: a letter or underscore, then also digits, points and
brackets. -/
def isName : List Char → Bool
  | [] => false
  | first :: rest =>
    (first == '_' || Text.isAlphabetic first) &&
      rest.all fun c => "_.[]".contains c || Text.isAlphanumeric c

inductive Opening where
  | group (kind : GroupKind)
  | directive (change : FlagChange)
  deriving DecidableEq, Repr

def readName (text : List Char) : Option (Opening × List Char) :=
  let name := text.takeWhile (· != '>')
  match text.dropWhile (· != '>') with
  | _ :: rest =>
    if isName name then some (.group (.capture (some (String.ofList name))), rest) else none
  | [] => none

def readOpening (verbose : Bool) (text : List Char) : Option (Opening × List Char) :=
  match skip verbose text with
  | '?' :: '=' :: _ | '?' :: '!' :: _ => none
  | '?' :: '<' :: '=' :: _ | '?' :: '<' :: '!' :: _ => none
  | '?' :: 'P' :: '<' :: rest | '?' :: '<' :: rest => readName rest
  | '?' :: rest => do
    let isFlag (c : Char) : Bool := c != ':' && c != ')'
    let letters := rest.takeWhile isFlag
    let change ← flagChange? letters
    match rest.dropWhile isFlag with
    | ':' :: rest => some (.group (.flags change), rest)
    | ')' :: rest => if letters.isEmpty then none else some (.directive change, rest)
    | _ => none
  | rest => some (.group (.capture none), rest)

/-! ## Repetitions -/

def readBounds (verbose : Bool) (text : List Char) : Option ((Nat × Option Nat) × List Char) := do
  let (least, rest) ← readDecimal verbose (skip verbose text)
  match rest with
  | '\x7d' :: rest => some ((least, some least), rest)
  | ',' :: rest =>
    match skip verbose rest with
    | '\x7d' :: rest => some ((least, none), rest)
    | rest =>
      match ← readDecimal verbose rest with
      | (most, '\x7d' :: rest) => if least ≤ most then some ((least, some most), rest) else none
      | _ => none
  | _ => none

def readLazy : List Char → Bool × List Char
  | '?' :: rest => (true, rest)
  | text => (false, text)

/-- Repeat the latest item, and read whether the repetition is lazy. A directive
cannot be repeated. -/
def repeatLatest (least : Nat) (most : Option Nat) (items : List Node) (text : List Char) :
    Option (List Node × List Char) :=
  match items with
  | [] | .empty :: _ | .flags _ :: _ => none
  | body :: rest =>
    let (isLazy, text) := readLazy text
    some (.repetition least most isLazy body :: rest, text)

/-! ## Whole patterns -/

/-- The pattern that items make up, latest first. -/
def sequenceOf : List Node → Node
  | [] => .empty
  | [node] => node
  | items => .sequence items.reverse

/-- The pattern of the items read last and the branches before them, latest
first. -/
def alternativesOf (branches items : List Node) : Node :=
  match branches with
  | [] => sequenceOf items
  | branches => .alternatives (sequenceOf items :: branches).reverse

def Escape.node : Escape → Node
  | .literal value => .literal value
  | .position kind => .position kind
  | .named kind negated => .named kind negated

def readAtom (verbose : Bool) : List Char → Option (Node × List Char)
  | [] => none
  | '\\' :: rest => (readEscape verbose rest).map fun (escape, rest) => (escape.node, rest)
  | '.' :: rest => some (.dot, rest)
  | '^' :: rest => some (.position .lineStart, rest)
  | '$' :: rest => some (.position .lineEnd, rest)
  | c :: rest => some (.literal { char := c, namesByte := false }, rest)

/-- Read up to the end of a group or of the text. A directive that makes the
pattern verbose holds to the end of its group. -/
def readNode : Nat → Bool → List Node → List Node → List Char → Option (Node × List Char)
  | 0, _, _, _, _ => none
  | n + 1, verbose, branches, items, text =>
    match skip verbose text with
    | [] => some (alternativesOf branches items, [])
    | ')' :: rest => some (alternativesOf branches items, ')' :: rest)
    | '|' :: rest => readNode n verbose (sequenceOf items :: branches) [] rest
    | '(' :: rest =>
      match readOpening verbose rest with
      | some (.directive change, rest) =>
        readNode n ((change.get? .verbose).getD verbose) branches (.flags change :: items) rest
      | some (.group kind, rest) =>
        let inner := match kind with
          | .flags change => (change.get? .verbose).getD verbose
          | .capture _ => verbose
        match readNode n inner [] [] rest with
        | some (body, ')' :: rest) => readNode n verbose branches (.group kind body :: items) rest
        | _ => none
      | none => none
    | '[' :: rest =>
      match readBracket verbose (rest.length + 1) rest with
      | some ((negated, set), rest) =>
        readNode n verbose branches (.bracket negated set :: items) rest
      | none => none
    | '?' :: rest =>
      match repeatLatest 0 (some 1) items rest with
      | some (items, rest) => readNode n verbose branches items rest
      | none => none
    | '*' :: rest =>
      match repeatLatest 0 none items rest with
      | some (items, rest) => readNode n verbose branches items rest
      | none => none
    | '+' :: rest =>
      match repeatLatest 1 none items rest with
      | some (items, rest) => readNode n verbose branches items rest
      | none => none
    | '\x7b' :: rest =>
      match readBounds verbose rest with
      | some ((least, most), rest) =>
        match repeatLatest least most items (skip verbose rest) with
        | some (items, rest) => readNode n verbose branches items rest
        | none => none
      | none => none
    | text =>
      match readAtom verbose text with
      | some (item, rest) => readNode n verbose branches (item :: items) rest
      | none => none

def nestLimit : Nat := 250

/-- Read a pattern. All of the text must be used up, group names differ, and the
nesting stays within its limit. -/
def read? (source : String) : Option Node :=
  let text := source.toList
  match readNode (text.length + 1) false [] [] text with
  | some (node, []) =>
    if node.depth ≤ nestLimit ∧ node.names.Nodup then some node else none
  | _ => none

end ClassBackend.Pattern
