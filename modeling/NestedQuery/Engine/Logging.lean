/-!
# Logging settings

Which events are logged, where they go and how they look.
-/

namespace NestedQuery

/-- Where the log goes. -/
inductive LogTarget where
  | console
  | file (path : String)
  | both (path : String)
  deriving DecidableEq, Repr

/-- How an event looks. -/
inductive LogFormat where
  | pretty
  | compact
  deriving DecidableEq, Repr

/-- The settings of the log. -/
structure LogSettings where
  level : String := "info"
  target : LogTarget := .console
  format : LogFormat := .compact
  deriving DecidableEq, Repr

namespace LogSettings

/-- Warnings and notable events. -/
def info : LogSettings := {}

/-- Also the choice of strategies and the keys that were left out. -/
def debug : LogSettings := { level := "debug" }

/-- Also every statement. -/
def statements : LogSettings := { level := "info,relq=trace,relq_core=debug" }

end LogSettings

end NestedQuery
