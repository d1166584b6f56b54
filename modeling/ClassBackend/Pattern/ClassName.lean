import ClassBackend.Text.Property
import ClassBackend.Text.Segment
import ClassBackend.Text.SharedScript
import ClassBackend.Text.Version

/-!
# Names of classes

Classes of characters are asked for by name: a property, a category, a script,
or a property with a value. Names are compared without regard to case, blanks,
hyphens, underscores and characters beyond ASCII, and a leading `is` is left
out.
-/

namespace ClassBackend.Pattern

open Text (CharSet CharClass)

/-- The part of a name that counts. The name `isc` keeps its start, since `c`
alone is another name. -/
def normalize (name : String) : String :=
  let counts (text : List Char) : List Char :=
    (text.filter fun c => c != ' ' && c != '_' && c != '-' && c.toNat < 0x80).map Char.toLower
  match name.toList with
  | first :: second :: rest =>
    if first.toLower == 'i' && second.toLower == 's' then
      let kept := counts rest
      if kept == ['c'] then "isc" else String.ofList kept
    else String.ofList (counts (first :: second :: rest))
  | text => String.ofList (counts text)

def class? (classes : List CharClass) (key : String) : Option CharClass :=
  classes.find? fun c => c.names.any fun name => normalize name == key

def named? (classes : List CharClass) (key : String) : Option CharSet :=
  (class? classes key).map CharClass.set

/-- Larger categories, by the starts of the categories they consist of. -/
def wideCategories : List (List String × List String) :=
  [ (["l", "letter"], ["L"]), (["lc", "casedletter"], ["Lu", "Ll", "Lt"]),
    (["m", "mark", "combiningmark"], ["M"]), (["n", "number"], ["N"]),
    (["p", "punctuation", "punct"], ["P"]), (["s", "symbol"], ["S"]),
    (["z", "separator"], ["Z"]), (["assigned"], ["L", "M", "N", "P", "S", "Z", "C"]) ]

def category? (key : String) : Option CharSet :=
  match key with
  | "any" => some .all
  | "ascii" => some (.range 0 0x7f)
  | "cn" | "unassigned" => some (Text.inCategories ["L", "M", "N", "P", "S", "Z", "C"]).complement
  | "c" | "other" => some (Text.inCategories ["L", "M", "N", "P", "S", "Z"]).complement
  | _ =>
    match wideCategories.find? (·.1.contains key) with
    | some (_, starts) => some (Text.inCategories starts)
    | none => named? Text.categories key

/-- The characters that a version of the character set has: what it and the
versions before it added. -/
def version? (key : String) : Option CharSet :=
  (class? Text.versions key).map fun version =>
    .ofRanges ((Text.versions.takeWhile (·.names != version.names)).flatMap CharClass.ranges ++
      version.ranges)

def property? (name : String) : Option CharSet :=
  let key := normalize name
  named? Text.properties key <|> category? key <|> named? Text.scripts key

def value? (property value : String) : Option CharSet :=
  let key := normalize value
  match normalize property with
  | "gc" | "generalcategory" => category? key
  | "sc" | "script" => named? Text.scripts key
  | "scx" | "scriptextensions" => (class? Text.scripts key).map Text.usedIn
  | "age" => version? key
  | "gcb" | "graphemeclusterbreak" => named? Text.characterBreaks key
  | "wb" | "wordbreak" => named? Text.wordBreaks key
  | "sb" | "sentencebreak" => named? Text.sentenceBreaks key
  | _ => none

end ClassBackend.Pattern
