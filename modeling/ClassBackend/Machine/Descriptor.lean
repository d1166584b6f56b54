import ClassBackend.Machine.Error

/-!
# Taking descriptors apart

A method descriptor lists the descriptors of its parameters between
parentheses, followed by that of its result. A parameter is a run of `[`
followed by one character, or by `L` and everything up to a `;`.
-/

namespace ClassBackend.Machine

def malformed (descriptor : String) : Error :=
  .typeMismatch ("malformed descriptor " ++ descriptor)

/-- Split the parameters of a descriptor. `current` is the part of a parameter read so
far and `inName` says whether a class name is being read. A parameter that is no class is
taken to end one byte behind its brackets. -/
def splitParams (descriptor : String) :
    (current : List Char) → (inName : Bool) → List Char → Except Error (List String)
  | [], false, [] => .ok []
  | _, _, [] => .error (malformed descriptor)
  | current, true, c :: rest =>
    if c == ';' then
      (splitParams descriptor [] false rest).map (String.ofList (current ++ [c]) :: ·)
    else splitParams descriptor (current ++ [c]) true rest
  | current, false, c :: rest =>
    if c == '[' then splitParams descriptor (current ++ [c]) false rest
    else if c == 'L' then splitParams descriptor (current ++ [c]) true rest
    else if c.utf8Size == 1 then
      (splitParams descriptor [] false rest).map (String.ofList (current ++ [c]) :: ·)
    else .error (.brokenCharacter descriptor)

/-- The text between the opening parenthesis and the first closing one. -/
def paramText? (descriptor : String) : Option (List Char) :=
  match descriptor.toList with
  | '(' :: rest => if rest.contains ')' then some (rest.takeWhile (· != ')')) else none
  | _ => none

def paramDescriptors (descriptor : String) : Except Error (List String) :=
  match paramText? descriptor with
  | some text => splitParams descriptor [] false text
  | none => .error (malformed descriptor)

/-- The result of a method descriptor: what follows the last closing
parenthesis. -/
def resultDescriptor (descriptor : String) : Except Error String :=
  let reversed := descriptor.toList.reverse
  if reversed.contains ')' then
    .ok (String.ofList (reversed.takeWhile (· != ')')).reverse)
  else .error (malformed descriptor)

end ClassBackend.Machine
