/-!
# Machine errors

What ends a run from outside: a broken class model or a limit of the machine,
which no handler catches, and an exception that none did.
-/

namespace ClassBackend.Machine

inductive Error where
  | classNotFound (name : String)
  | noSuchMethod (owner name descriptor : String)
  | noSuchField (owner name : String)
  | typeMismatch (reason : String)
  | stackUnderflow (method : String)
  | fellOffEnd (method : String)
  | stackOverflow
  | uncaught (className message : String)
  /-- A descriptor was cut inside a character. The machine breaks down over this. -/
  | brokenCharacter (descriptor : String)
  deriving DecidableEq, Repr, Inhabited

def Error.message : Error → String
  | .classNotFound name => "Class not found: " ++ name
  | .noSuchMethod owner name descriptor => "No method " ++ owner ++ "." ++ name ++ descriptor
  | .noSuchField owner name => "No field " ++ owner ++ "." ++ name
  | .typeMismatch reason => "Type mismatch: " ++ reason
  | .stackUnderflow method => "Operand stack underflow in " ++ method
  | .fellOffEnd method => "Execution fell off the end of " ++ method
  | .stackOverflow => "Call depth exceeded"
  | .uncaught className message =>
    "Exception in thread \"main\" " ++ className ++ ": " ++ message
  | .brokenCharacter descriptor => "Character cut apart in " ++ descriptor

end ClassBackend.Machine
