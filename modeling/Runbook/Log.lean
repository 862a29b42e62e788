import Runbook.Run.Log

/-!
# Loggers

A logger writes each message at or above its level as a line with the time, the level, its name and
the message.
-/

namespace Runbook

/-- A logger. -/
structure Logger where
  name : String
  level : LogLevel

namespace Logger

/-- The format of every line. -/
def format : String :=
  "%(asctime)s | %(levelname)s | %(name)s | %(message)s"

/-- A message in the format. -/
def line (l : Logger) (time : String) (level : LogLevel) (message : String) : String :=
  time ++ " | " ++ level.text ++ " | " ++ l.name ++ " | " ++ message

/-- What a logger writes for messages at some time. -/
def write (l : Logger) (time : String) (messages : List (LogLevel × String)) : List String :=
  (messages.filter fun m => l.level.rank ≤ m.1.rank).map fun m => l.line time m.1 m.2

end Logger
end Runbook
