/-!
# Names

Class names come in two spellings: dotted (`java.lang.String`) in source and in
messages, and internal (`java/lang/String`) in symbolic references. This module
holds the passage between the two, the shape of a valid class name, the `[]`
suffix of an array name, and the class name given to a script file.
-/

namespace ClassBackend.Naming

def replaceChar (old new : Char) (text : String) : String :=
  String.ofList (text.toList.map fun c => if c == old then new else c)

def toInternal (name : String) : String :=
  replaceChar '.' '/' name

def toDotted (name : String) : String :=
  replaceChar '/' '.' name

/-! ## Valid class names -/

/-- May start an identifier: an ASCII letter, `_` or `$`. -/
def isIdentStart (c : Char) : Bool :=
  c.isAlpha || c == '_' || c == '$'

/-- May continue an identifier: a start character or an ASCII digit. -/
def isIdentRest (c : Char) : Bool :=
  isIdentStart c || c.isDigit

/-- Whether the characters form identifiers joined by single dots. The flag
says that an identifier has to start here. -/
def isDotted : (atStart : Bool) → List Char → Bool
  | atStart, [] => !atStart
  | true, c :: rest => isIdentStart c && isDotted false rest
  | false, c :: rest =>
    if c == '.' then isDotted true rest else isIdentRest c && isDotted false rest

/-- A qualified class name: identifiers joined by dots. -/
def isQualified (name : String) : Bool :=
  isDotted true name.toList

/-! ## Array names -/

/-- Strip `[]` pairs from the end of a reversed name while at least one
character remains, counting them. -/
def stripPairs : List Char → Nat × List Char
  | ']' :: '[' :: c :: rest =>
    let (depth, base) := stripPairs (c :: rest)
    (depth + 1, base)
  | name => (0, name)

/-- Split an array name into its base name and the number of `[]` pairs after
it. A name that ends in no pair, or whose base spans lines, is no array name. -/
def arraySuffix? (name : String) : Option (String × Nat) :=
  let (depth, base) := stripPairs name.toList.reverse
  if depth == 0 || base.contains '\n' then none
  else some (String.ofList base.reverse, depth)

/-! ## Script names -/

def lastSegment (path : List Char) : List Char :=
  (path.reverse.takeWhile fun c => c != '/' && c != '\\').reverse

/-- The file name without its extension. A leading dot starts no extension. -/
def stem (base : List Char) : List Char :=
  match base.reverse.dropWhile (· != '.') with
  | _ :: kept => if kept.isEmpty then base else kept.reverse
  | [] => base

/-- Join the alphanumeric words of a text, each with its first letter in upper
case. The flag says that a word may start here. -/
def camelWords : (atStart : Bool) → List Char → List Char
  | _, [] => []
  | atStart, c :: rest =>
    if c.isAlphanum then
      (if atStart then c.toUpper else c) :: camelWords false rest
    else camelWords true rest

/-- The class a script file compiles to: `src/foo_bar.txt` becomes `FooBar`. A
name that is empty or starts with a digit gets `Script` in front. -/
def scriptClass (file : String) : String :=
  let name := camelWords true (stem (lastSegment file.toList))
  match name with
  | [] => "Script"
  | c :: _ => if c.isDigit then "Script" ++ String.ofList name else String.ofList name

end ClassBackend.Naming
