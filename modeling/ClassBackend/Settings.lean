import ClassBackend.Json.Scan
import ClassBackend.Log

/-!
# Settings

The options that shape emission. They are read from a JSON object, in which
missing members keep their defaults and unknown members are ignored, or from a
JSON array that lists the options in order and may stop early.
-/

namespace ClassBackend

structure Settings where
  verbose : Bool := false
  lineNumbers : Bool := true
  classVersion : UInt16 := 50
  sourceFile : Option String := none
  deriving DecidableEq, Repr, Inhabited

namespace Settings

def logger (settings : Settings) (component : String) : Logger :=
  { component, level := if settings.verbose then .debug else .warn }

/-! ## Reading -/

def optionNames : List String := ["verbose", "line_numbers", "class_version", "source_file"]

def readFlag (text : List Char) : Option (Bool × List Char) :=
  match text with
  | 't' :: rest => (Json.skipWord "rue".toList rest).map (true, ·)
  | 'f' :: rest => (Json.skipWord "alse".toList rest).map (false, ·)
  | _ => none

/-- Read a sixteen-bit number, written without sign, fraction or exponent. -/
def readWord (text : List Char) : Option (UInt16 × List Char) := do
  let (digits, fractional, rest) ← Json.scanNumber text
  if fractional || digits.head? == some '-' then none
  else
    let n := digits.foldl (fun n c => 10 * n + (c.toNat - '0'.toNat)) 0
    if n < 65536 then some (UInt16.ofNat n, rest) else none

def readText? (text : List Char) : Option (Option String × List Char) :=
  match text with
  | 'n' :: rest => (Json.skipWord "ull".toList rest).map (none, ·)
  | _ => (Json.scanText text).map fun (value, rest) => (some value, rest)

/-- Read the value of the named option; the value of any other name is
skipped. -/
def readOption (settings : Settings) (name : String) (text : List Char) :
    Option (Settings × List Char) :=
  let value := Json.skipBlank text
  match name with
  | "verbose" => (readFlag value).map fun (flag, rest) => ({ settings with verbose := flag }, rest)
  | "line_numbers" =>
    (readFlag value).map fun (flag, rest) => ({ settings with lineNumbers := flag }, rest)
  | "class_version" =>
    (readWord value).map fun (version, rest) => ({ settings with classVersion := version }, rest)
  | "source_file" =>
    (readText? value).map fun (file, rest) => ({ settings with sourceFile := file }, rest)
  | _ => (Json.skipValue value).map (settings, ·)

/-- Read the members of an object after its opening brace or a comma. An
option may be set once. -/
def readMembers : Nat → List String → Settings → List Char → Option (Settings × List Char)
  | 0, _, _, _ => none
  | n + 1, seen, settings, text => do
    let (name, rest) ← Json.scanText (Json.skipBlank text)
    if seen.contains name then none
    let seen := if optionNames.contains name then name :: seen else seen
    match Json.skipBlank rest with
    | ':' :: rest =>
      let (settings, rest) ← readOption settings name rest
      match Json.skipBlank rest with
      | ',' :: rest => readMembers n seen settings rest
      | '\x7d' :: rest => some (settings, rest)
      | _ => none
    | _ => none

def readItems : List String → Settings → List Char → Option (Settings × List Char)
  | [], _, _ => none
  | name :: names, settings, text => do
    let (settings, rest) ← readOption settings name text
    match Json.skipBlank rest with
    | ',' :: rest => readItems names settings rest
    | ']' :: rest => some (settings, rest)
    | _ => none

def read? (text : String) : Option Settings := do
  let (settings, rest) ← match Json.skipBlank text.toList with
    | '\x7b' :: rest =>
      match Json.skipBlank rest with
      | '\x7d' :: rest => some ({}, rest)
      | _ => readMembers (rest.length + 1) [] {} rest
    | '[' :: rest =>
      match Json.skipBlank rest with
      | ']' :: rest => some ({}, rest)
      | _ => readItems optionNames {} rest
    | _ => none
  if (Json.skipBlank rest).isEmpty then some settings else none

end Settings

end ClassBackend
