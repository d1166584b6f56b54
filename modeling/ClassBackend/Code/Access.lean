/-!
# Access flags

The flag word shared by classes, fields and methods, and the modifiers a
listing shows for it.
-/

namespace ClassBackend

abbrev Access := UInt16

namespace Access

def publicFlag : Access := 0x0001

def privateFlag : Access := 0x0002

def protectedFlag : Access := 0x0004

def staticFlag : Access := 0x0008

/-- Never changed or overridden. -/
def finalFlag : Access := 0x0010

/-- Superclass calls are resolved in the modern way. -/
def superFlag : Access := 0x0020

/-- Left out of serialisation. -/
def transientFlag : Access := 0x0080

def interfaceFlag : Access := 0x0200

/-- Has no body, or may not be instantiated. -/
def abstractFlag : Access := 0x0400

def syntheticFlag : Access := 0x1000

def has (access flag : Access) : Bool := access &&& flag != 0

def modifierNames : List (Access × String) :=
  [ (publicFlag, "public"), (privateFlag, "private"), (protectedFlag, "protected"),
    (staticFlag, "static"), (finalFlag, "final"), (transientFlag, "transient"),
    (abstractFlag, "abstract"), (syntheticFlag, "synthetic") ]

def describe (access : Access) : String :=
  " ".intercalate ((modifierNames.filter fun entry => has access entry.1).map (·.2))

end Access

end ClassBackend
