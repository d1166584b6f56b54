/-!
# Alignment

Columns of a listing: padding on either side up to a width.
-/

namespace ClassBackend.Text

def padRight (width : Nat) (text : String) : String :=
  text ++ String.ofList (List.replicate (width - text.length) ' ')

def padLeft (filler : Char) (width : Nat) (text : String) : String :=
  String.ofList (List.replicate (width - text.length) filler) ++ text

/-- The lines of a text. A line ends before `\n` or `\r\n`, and a last line
without characters is none. -/
def lines (text : String) : List String :=
  let pieces := text.toList.splitOn '\n'
  let closed := pieces.dropLast.map fun piece =>
    if piece.getLast? == some '\r' then piece.dropLast else piece
  let last := pieces.getLast?.getD []
  (closed ++ if last.isEmpty then [] else [last]).map String.ofList

end ClassBackend.Text
