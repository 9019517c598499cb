/-!
# Log lines

A log line is a level and a message.  Operations that log return their lines in order.
-/

namespace Lapse

/-- How important a log line is. -/
inductive Level where
  | error
  | warn
  | info
  | debug
  deriving DecidableEq

/-- One event of the log. -/
structure LogLine where
  level : Level
  message : String
  deriving DecidableEq

end Lapse
