import ClassBackend.Text.Hex

/-!
# Scanning JSON text

Readers that consume a JSON value from the front of a list of characters and
return what follows it, or nothing if the text is malformed there. Values that
nobody asks for are skipped: they must be well formed, but their texts need not
name valid characters and their numbers may have any size.
-/

namespace ClassBackend.Json

def isBlank (c : Char) : Bool := c == ' ' || c == '\n' || c == '\t' || c == '\r'

def skipBlank (text : List Char) : List Char := text.dropWhile isBlank

def skipWord : List Char → List Char → Option (List Char)
  | [], text => some text
  | w :: word, c :: text => if w == c then skipWord word text else none
  | _ :: _, [] => none

/-! ## Numbers -/

def skipDigits (text : List Char) : Option (List Char) :=
  match text with
  | c :: _ => if c.isDigit then some (text.dropWhile Char.isDigit) else none
  | [] => none

/-- Consume a number. Returns its characters up to the fraction, whether a
fraction or an exponent follows, and the rest. -/
def scanNumber (text : List Char) : Option (List Char × Bool × List Char) := do
  let unsigned := match text with
    | '-' :: rest => rest
    | _ => text
  let afterInt ← match unsigned with
    | '0' :: rest =>
      match rest with
      | c :: _ => if c.isDigit then none else some rest
      | [] => some rest
    | _ => skipDigits unsigned
  let integer := text.take (text.length - afterInt.length)
  let afterFraction ← match afterInt with
    | '.' :: rest => skipDigits rest
    | _ => some afterInt
  let rest ← match afterFraction with
    | c :: digits =>
      if c == 'e' || c == 'E' then
        match digits with
        | '+' :: more => skipDigits more
        | '-' :: more => skipDigits more
        | _ => skipDigits digits
      else some afterFraction
    | [] => some []
  return (integer, rest.length != afterInt.length, rest)

/-! ## Texts -/

def scanHex : List Char → Option (Nat × List Char)
  | a :: b :: c :: d :: rest => do
    let value := (← Text.hexValue? a) * 4096 + (← Text.hexValue? b) * 256 +
      (← Text.hexValue? c) * 16 + (← Text.hexValue? d)
    return (value, rest)
  | _ => none

def simpleEscape? : Char → Option Char
  | '"' => some '"'
  | '\\' => some '\\'
  | '/' => some '/'
  | 'b' => some '\x08'
  | 'f' => some '\x0c'
  | 'n' => some '\n'
  | 'r' => some '\r'
  | 't' => some '\t'
  | _ => none

/-- Consume the code of an escape and the second half of a pair, if it opens
one. Half a pair on its own names no character. -/
def scanCode (text : List Char) : Option (Char × List Char) := do
  let (code, rest) ← scanHex text
  if 0xdc00 ≤ code && code < 0xe000 then none
  else if 0xd800 ≤ code && code < 0xdc00 then
    match rest with
    | '\\' :: 'u' :: more =>
      let (low, rest) ← scanHex more
      if 0xdc00 ≤ low && low < 0xe000 then
        some (Char.ofNat (0x10000 + (code - 0xd800) * 0x400 + (low - 0xdc00)), rest)
      else none
    | _ => none
  else some (Char.ofNat code, rest)

/-- Consume the characters of a text up to its closing mark, given an upper
bound on how many there are. -/
def scanTextWithin : Nat → List Char → Option (List Char × List Char)
  | 0, _ => none
  | _ + 1, [] => none
  | n + 1, c :: rest =>
    if c == '"' then some ([], rest)
    else if c.toNat < 0x20 then none
    else if c == '\\' then
      match rest with
      | 'u' :: code => do
        let (decoded, rest) ← scanCode code
        let (text, rest) ← scanTextWithin n rest
        return (decoded :: text, rest)
      | e :: rest => do
        let decoded ← simpleEscape? e
        let (text, rest) ← scanTextWithin n rest
        return (decoded :: text, rest)
      | [] => none
    else do
      let (text, rest) ← scanTextWithin n rest
      return (c :: text, rest)

def scanText : List Char → Option (String × List Char)
  | '"' :: rest => (scanTextWithin (rest.length + 1) rest).map fun (text, rest) =>
    (String.ofList text, rest)
  | _ => none

def skipTextWithin : Nat → List Char → Option (List Char)
  | 0, _ => none
  | _ + 1, [] => none
  | n + 1, c :: rest =>
    if c == '"' then some rest
    else if c.toNat < 0x20 then none
    else if c == '\\' then
      match rest with
      | 'u' :: code => (scanHex code).bind fun (_, rest) => skipTextWithin n rest
      | e :: rest => (simpleEscape? e).bind fun _ => skipTextWithin n rest
      | [] => none
    else skipTextWithin n rest

/-! ## Values -/

/-- What a container still expects. -/
inductive Pending where
  | item
  | entry
  deriving DecidableEq

def Pending.closing : Pending → Char
  | .item => ']'
  | .entry => '\x7d'

def skipKey (text : List Char) : Option (List Char) :=
  match skipBlank text with
  | '"' :: rest => do
    let rest ← skipTextWithin (rest.length + 1) rest
    match skipBlank rest with
    | ':' :: rest => some rest
    | _ => none
  | _ => none

/-- Skip a value inside the given containers and then what closes them. The
flag says that a value has just been completed. -/
def skipWithin : Nat → (complete : Bool) → List Pending → List Char → Option (List Char)
  | 0, _, _, _ => none
  | _ + 1, true, [], text => some text
  | n + 1, true, container :: outer, text =>
    match skipBlank text with
    | c :: rest =>
      if c == container.closing then skipWithin n true outer rest
      else if c == ',' then
        match container with
        | .item => skipWithin n false (container :: outer) rest
        | .entry => (skipKey rest).bind (skipWithin n false (container :: outer))
      else none
    | [] => none
  | n + 1, false, containers, text =>
    match skipBlank text with
    | '"' :: rest =>
      (skipTextWithin (rest.length + 1) rest).bind (skipWithin n true containers)
    | 't' :: rest => (skipWord "rue".toList rest).bind (skipWithin n true containers)
    | 'f' :: rest => (skipWord "alse".toList rest).bind (skipWithin n true containers)
    | 'n' :: rest => (skipWord "ull".toList rest).bind (skipWithin n true containers)
    | '[' :: rest =>
      match skipBlank rest with
      | ']' :: rest => skipWithin n true containers rest
      | _ => skipWithin n false (.item :: containers) rest
    | '\x7b' :: rest =>
      match skipBlank rest with
      | '\x7d' :: rest => skipWithin n true containers rest
      | _ => (skipKey rest).bind (skipWithin n false (.entry :: containers))
    | text => (scanNumber text).bind fun (_, _, rest) => skipWithin n true containers rest

def skipValue (text : List Char) : Option (List Char) :=
  skipWithin (2 * text.length + 2) false [] text

end ClassBackend.Json
