import ClassBackend.Decimal.Layout
import ClassBackend.Floating
import ClassBackend.Text.Align
import ClassBackend.Text.Quoted

/-!
# JSON documents

The tree of a JSON document with its two written forms. The indented form has
two blanks a level, one member a line, and closes empty containers at once. The
compact form is one line without blanks. Numbers keep the digits they were
given.
-/

namespace ClassBackend

/-- A JSON document. Members keep their order. -/
inductive Json where
  | null
  | bool (value : Bool)
  | number (digits : String)
  | text (value : String)
  | array (items : List Json)
  | object (members : List (String × Json))
  deriving Inhabited

namespace Json

def int (n : Int) : Json := .number (toString n)

def nat (n : Nat) : Json := .number (toString n)

def textOrNull : Option String → Json
  | some value => .text value
  | none => .null

/-- A double-precision number; only finite ones have a JSON form. -/
def double (x : Double) : Json :=
  if x.isFinite then .number (Decimal.Layout.dump.render x.parts) else .null

/-- A single-precision number; only finite ones have a JSON form. -/
def single (x : Single) : Json :=
  if x.isFinite then .number (Decimal.Layout.dump32.render x.parts) else .null

def tagged (tag : String) (payload : Json) : Json := .object [(tag, payload)]

/-! ## Text -/

def escaped (c : Char) : String :=
  if c == '"' then "\\\""
  else if c == '\\' then "\\\\"
  else if c == '\n' then "\\n"
  else if c == '\r' then "\\r"
  else if c == '\t' then "\\t"
  else if c == '\x08' then "\\b"
  else if c == '\x0c' then "\\f"
  else if c.toNat < 0x20 then "\\u" ++ Text.padLeft '0' 4 (Text.hexDigits c.toNat)
  else String.singleton c

def quoted (value : String) : String :=
  "\"" ++ String.join (value.toList.map escaped) ++ "\""

/-- The blanks in front of a line. -/
def indentation (level : Nat) : String := String.ofList (List.replicate (2 * level) ' ')

/-- Lines of a container, separated by commas, between its brackets. -/
def enclose (level : Nat) (opening closing : String) (lines : List String) : String :=
  if lines.isEmpty then opening ++ closing
  else
    opening ++ "\n" ++
      ",\n".intercalate (lines.map fun line => indentation (level + 1) ++ line) ++
      "\n" ++ indentation level ++ closing

mutual

/-- The document as indented text, starting at a level. -/
def prettyAt (level : Nat) : Json → String
  | .null => "null"
  | .bool value => toString value
  | .number digits => digits
  | .text value => quoted value
  | .array items => enclose level "[" "]" (prettyItems (level + 1) items)
  | .object members => enclose level "\x7b" "\x7d" (prettyMembers (level + 1) members)

def prettyItems (level : Nat) : List Json → List String
  | [] => []
  | item :: rest => prettyAt level item :: prettyItems level rest

def prettyMembers (level : Nat) : List (String × Json) → List String
  | [] => []
  | (name, value) :: rest =>
    (quoted name ++ ": " ++ prettyAt level value) :: prettyMembers level rest

end

def pretty (document : Json) : String := prettyAt 0 document

mutual

def compact : Json → String
  | .null => "null"
  | .bool value => toString value
  | .number digits => digits
  | .text value => quoted value
  | .array items => "[" ++ ",".intercalate (compactItems items) ++ "]"
  | .object members => "\x7b" ++ ",".intercalate (compactMembers members) ++ "\x7d"

def compactItems : List Json → List String
  | [] => []
  | item :: rest => compact item :: compactItems rest

def compactMembers : List (String × Json) → List String
  | [] => []
  | (name, value) :: rest => (quoted name ++ ":" ++ compact value) :: compactMembers rest

end

end Json

end ClassBackend
