import ClassBackend.Text.Hidden

/-!
# Quoted text

Listings and messages show text between quotation marks, with the marks
themselves, line breaks and hidden characters escaped.
-/

namespace ClassBackend.Text

def escaped (c : Char) : String :=
  if c == '\x00' then "\\0"
  else if c == '\t' then "\\t"
  else if c == '\r' then "\\r"
  else if c == '\n' then "\\n"
  else if c == '"' then "\\\""
  else if c == '\\' then "\\\\"
  else if isHidden c then "\\u\x7b" ++ hexDigits c.toNat ++ "\x7d"
  else String.singleton c

def quoted (text : String) : String :=
  "\"" ++ String.join (text.toList.map escaped) ++ "\""

def quotedList (texts : List String) : String :=
  "[" ++ ", ".intercalate (texts.map quoted) ++ "]"

end ClassBackend.Text
