/-!
# Log events

What the parts of the program report while they work.  An event names the part it
comes from and carries its details as named texts.
-/

namespace TraceWeaving

inductive LogLevel where
  | trace
  | debug
  | info
  | warn
  deriving DecidableEq

inductive LogOrigin where
  | settings
  | markers
  | weaving
  | evaluation
  | tracing
  | command
  deriving DecidableEq

structure LogEvent where
  level : LogLevel
  origin : LogOrigin
  message : String
  fields : List (String × String)
  deriving DecidableEq

end TraceWeaving
