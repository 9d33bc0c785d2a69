/-!
# Log lines

What the library reports about its work, besides its results, is a sequence of lines with a level.
-/

set_option autoImplicit false

namespace ByteDFA

/-- How much detail a log line belongs to. -/
inductive LogLevel
  | debug
  | trace
  deriving DecidableEq

/-- The name by which a level is shown. -/
def LogLevel.name : LogLevel → String
  | .debug => "DEBUG"
  | .trace => "TRACE"

/-- The line for a message. -/
def LogLevel.line (level : LogLevel) (message : String) : String :=
  level.name ++ " " ++ message

end ByteDFA
