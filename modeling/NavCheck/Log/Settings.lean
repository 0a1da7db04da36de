import NavCheck.Text.CharClass

/-!
# Log settings

The form and the least importance of what is logged. Names are read in any mix of cases and have short or long second forms;
a choice on the command line goes before the environment, and the environment before the defaults.
-/

namespace NavCheck

/-- The form that a log is written in; `auto` leaves it open. -/
inductive LogFormat where
  | auto
  | text
  | json
deriving DecidableEq

namespace LogFormat

/-- The name of a form. -/
def name : LogFormat → String
  | .auto => "auto"
  | .text => "text"
  | .json => "json"

/-- Reads the name of a form; `plain` is a second name of `text`. -/
def ofName? (s : String) : Option LogFormat :=
  match Text.asciiLower s with
  | "auto" => some .auto
  | "text" | "plain" => some .text
  | "json" => some .json
  | _ => none

/-- The form that is used: text where it was left open. -/
def resolved : LogFormat → LogFormat
  | .auto => .text
  | format => format

theorem ofName?_name (f : LogFormat) : ofName? f.name = some f := by
  cases f <;> decide

end LogFormat

/-- How much is logged, from failures alone to every detail. -/
inductive LogLevel where
  | error
  | warn
  | info
  | debug
  | trace
deriving DecidableEq

namespace LogLevel

/-- The name of a level. -/
def name : LogLevel → String
  | .error => "error"
  | .warn => "warn"
  | .info => "info"
  | .debug => "debug"
  | .trace => "trace"

/-- The word that marks an event of a level. -/
def label (l : LogLevel) : String :=
  Text.asciiUpper l.name

/-- Reads the name of a level; `err`, `warning` and `verbose` are second names. -/
def ofName? (s : String) : Option LogLevel :=
  match Text.asciiLower s with
  | "error" | "err" => some .error
  | "warn" | "warning" => some .warn
  | "info" => some .info
  | "debug" => some .debug
  | "trace" | "verbose" => some .trace
  | _ => none

/-- The place of a level in the order from few to many details. -/
def rank : LogLevel → Nat
  | .error => 0
  | .warn => 1
  | .info => 2
  | .debug => 3
  | .trace => 4

/-- The level with the most details of two. -/
def max (a b : LogLevel) : LogLevel :=
  if a.rank < b.rank then b else a

theorem ofName?_name (l : LogLevel) : ofName? l.name = some l := by
  cases l <;> decide

end LogLevel

/-- How a run logs. -/
structure LogSettings where
  format : LogFormat := .auto
  level : LogLevel := .warn
deriving DecidableEq

/-- The settings with the form fixed. -/
def LogSettings.resolved (s : LogSettings) : LogSettings :=
  { s with format := s.format.resolved }

/-- What is asked of the log in one place; what is not asked there is none. -/
structure LogChoice where
  format : Option LogFormat := none
  level : Option LogLevel := none
deriving DecidableEq

namespace LogChoice

/-- Is nothing asked? -/
def isEmpty (c : LogChoice) : Bool :=
  c.format.isNone && c.level.isNone

/-- The settings that a choice makes of others. -/
def apply (c : LogChoice) (s : LogSettings) : LogSettings :=
  { format := c.format.getD s.format, level := c.level.getD s.level }

end LogChoice

end NavCheck
