import ClassBackend.Emit.Jump
import ClassBackend.Json.Value
import ClassBackend.Log
import ClassBackend.Ty.Hierarchy

/-!
# Documents

Values have a JSON notation. A member that is missing and one that is
`null` count alike unless a reader asks for the difference.
-/

namespace ClassBackend

/-- Reading takes place among known classes. It ends with a value, with a fault,
or, if the document is malformed, with neither. -/
abbrev Reading := ReaderT Registry (Except (Option Fault))

namespace Reading

def malformed {α : Type} : Reading α := throw none

/-- What stands for a value that has to be there. -/
def required {α : Type} : Option α → Reading α
  | some value => pure value
  | none => malformed

def sound {α : Type} (outcome : Except Fault α) : Reading α := outcome.mapError some

/-- The type a text names: a type without a class, the class object of a type,
an error type with its message, or what `resolve` makes of the name. -/
def typeNamed {m : Type → Type} [Monad m] (resolve : String → m Ty) : List Char → m Ty
  | 'm' :: 'e' :: 't' :: 'a' :: ':' :: name => return .metaOf (← typeNamed resolve name)
  | ':' :: name =>
    match String.ofList name with
    | "null" => return .null
    | "unreachable" => return .unreachable
    | "block" => return .block
    | _ =>
      if "error:".toList.isPrefixOf name then return .error [String.ofList (name.drop 6)]
      else resolve (String.ofList (':' :: name))
  | name => resolve (String.ofList name)

/-- The type a text names; an unknown class is a fault. -/
def type (text : String) : Reading Ty := do sound (typeNamed (← read).get text.toList)

/-- The type a text names; an unknown class is an error type. -/
def typeOrError (r : Registry) (text : String) : Ty :=
  Id.run (typeNamed (fun name => pure (r.getOrError name)) text.toList)

end Reading

open Reading

/-- What a document can stand for. -/
class Document (α : Type) where
  get : Json → Reading α

namespace Document

variable {α β : Type}

abbrev via [Document α] (f : α → Option β) : Document β := ⟨fun j => do required (f (← get j))⟩

instance : Document Json := ⟨pure⟩

instance : Document String := ⟨fun | .text value => pure value | _ => malformed⟩

instance : Document Bool := ⟨fun | .bool value => pure value | _ => malformed⟩

/-- Numbers may also be given as texts. -/
abbrev ofDigits (f : String → Option α) : Document α :=
  ⟨fun | .number digits | .text digits => required (f digits) | _ => malformed⟩

instance : Document Int := ofDigits fun digits => Decimal.readInt? digits.toList

instance : Document Double := ofDigits Double.read?

/-- A natural number: an integer of sixty-four bits without its sign. -/
instance : Document Nat := via fun n : Int => some (UInt64.ofInt n).toNat

instance : Document Ty := ⟨fun j => do type (← get j)⟩

instance [Document α] : Document (List α) :=
  ⟨fun | .array items => items.mapM get | _ => malformed⟩

instance [Document α] : Document (Option α) := ⟨fun | .null => pure none | j => some <$> get j⟩

instance [Document α] [Document β] : Document (α × β) :=
  ⟨fun | .array [a, b] => return (← get a, ← get b) | _ => malformed⟩

/-- A span, from its start alone or from its start and end. -/
instance : Document Span := via fun
  | [line, column, offset] => some (.single line column offset)
  | [line, column, offset, endLine, endColumn, endOffset] =>
    some ⟨⟨line, column, offset⟩, ⟨endLine, endColumn, endOffset⟩⟩
  | _ => none

end Document

end ClassBackend
