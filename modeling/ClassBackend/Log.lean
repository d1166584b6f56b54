/-!
# Logging

Each component logs through a `Logger` with a level of its own. What passes the
level is appended to a `Log`, oldest line first.
-/

namespace ClassBackend

inductive Level where
  | error
  | warn
  | info
  | debug
  | trace
  deriving DecidableEq, Repr, Inhabited

namespace Level

def all : List Level := [.error, .warn, .info, .debug, .trace]

def verbosity : Level → Nat
  | .error => 0
  | .warn => 1
  | .info => 2
  | .debug => 3
  | .trace => 4

def name : Level → String
  | .error => "ERROR"
  | .warn => "WARN"
  | .info => "INFO"
  | .debug => "DEBUG"
  | .trace => "TRACE"

end Level

abbrev Log := Array String

structure Logger where
  component : String
  level : Level
  deriving DecidableEq, Repr, Inhabited

namespace Logger

def quiet (component : String) : Logger := { component, level := .warn }

def child (logger : Logger) (component : String) : Logger := { logger with component }

def enabled (logger : Logger) (level : Level) : Bool :=
  decide (level.verbosity ≤ logger.level.verbosity)

def record (logger : Logger) (level : Level) (message : String) (log : Log) : Log :=
  if logger.enabled level then
    log.push (level.name ++ " " ++ logger.component ++ ": " ++ message)
  else log

end Logger

end ClassBackend
