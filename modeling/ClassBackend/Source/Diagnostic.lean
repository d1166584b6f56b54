import ClassBackend.Fault
import ClassBackend.Source.Span
import ClassBackend.Text.Align

/-!
# Diagnostics

Errors in the source of a unit, each at the span of the offending node, and the
report a terminal shows for them. The report may be coloured, and with the
source text at hand it shows the lines around each error.
-/

namespace ClassBackend

/-! ## Colours -/

/-- A terminal style, by the parameters of its escape sequence. -/
structure Style where
  codes : String

namespace Style

def error : Style := ⟨"1;31"⟩

def message : Style := ⟨"1;37"⟩

def marked : Style := ⟨"31"⟩

def faint : Style := ⟨"2"⟩

/-- The sequence that ends every style. -/
def reset : List Char := "\x1b[0m".toList

/-- Put `opening` after every reset sequence, so that a style survives resets
inside the text it covers. -/
def reopen (opening : List Char) : List Char → List Char
  | '\x1b' :: '[' :: '0' :: 'm' :: rest => reset ++ opening ++ reopen opening rest
  | c :: rest => c :: reopen opening rest
  | [] => []

def apply (style : Style) (color : Bool) (text : String) : String :=
  if color then
    let opening := ("\x1b[" ++ style.codes ++ "m").toList
    String.ofList (opening ++ reopen opening text.toList ++ reset)
  else text

end Style

/-! ## Single diagnostics -/

structure Diagnostic where
  message : String
  span : Span
  file : String
  deriving DecidableEq, Repr, Inhabited

namespace Diagnostic

def place (d : Diagnostic) : String :=
  d.file ++ ":" ++ toString d.span.start.line ++ ":" ++ toString d.span.start.column

def summary (d : Diagnostic) : String :=
  "SyntaxError: " ++ d.message ++ " at " ++ d.place

/-- The carets under the offending columns: both ends of the span are marked. -/
def carets (span : Span) : String :=
  let count :=
    if span.start.column < span.stop.column then span.stop.column - span.start.column + 1 else 1
  String.ofList (List.replicate count '^')

/-- One source line with its number; the offending line has carets below. -/
def contextLine (d : Diagnostic) (color : Bool) (number : Nat) (content : String) : String :=
  let margin := Text.padLeft ' ' 4 (toString number) ++ " |"
  if number == d.span.start.line then
    Style.marked.apply color margin ++ " " ++ content ++ "\n" ++
      String.ofList (List.replicate (6 + d.span.start.column) ' ') ++
      Style.error.apply color (carets d.span) ++ "\n"
  else Style.faint.apply color margin ++ " " ++ content ++ "\n"

def context (d : Diagnostic) (color : Bool) (source : List String) : String :=
  if source.isEmpty then ""
  else
    let line := d.span.start.line
    let first := if 1 < line then line - 1 else 1
    let last := min (line + 1) source.length
    let numbers := (List.range (last + 1 - first)).map (· + first)
    let shown := numbers.filterMap fun number =>
      (source[number - 1]?).map (d.contextLine color number)
    "\n" ++ String.join shown

/-- The diagnostic as a terminal shows it, with the given source lines around
it. -/
def report (d : Diagnostic) (color : Bool) (source : List String) : String :=
  Style.error.apply color "SyntaxError" ++ ": " ++ Style.message.apply color d.message ++
    " at " ++ d.place ++ "\n" ++ d.context color source

end Diagnostic

/-! ## Failed units -/

/-- Why a unit did not compile: a fault of the compiler, or errors in the
source. -/
inductive CompileError where
  | fault (cause : Fault)
  | failed (diagnostics : List Diagnostic)

namespace CompileError

/-- The failure in one sentence. -/
def message : CompileError → String
  | .fault cause => cause.message
  | .failed diagnostics =>
    "Compilation failed due to " ++ toString diagnostics.length ++ " previous error(s)"

/-- The report of a failure. With the source text each diagnostic shows the
offending line. -/
def report (error : CompileError) (color : Bool) (source : Option String) : String :=
  match error with
  | .fault cause => cause.message ++ "\n"
  | .failed diagnostics =>
    let lines := (source.map Text.lines).getD []
    String.join (diagnostics.map fun d => d.report color lines) ++ error.message ++ "\n"

end CompileError

end ClassBackend
