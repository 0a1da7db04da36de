import NavCheck.Diagnostic.Render
import NavCheck.Log.Settings

/-!
# The environment of a run

Four words that a run finds set around it, or not, and whether a person reads along. A word that names nothing known is as good
as none; only the word for stage events counts as soon as it is set, and then means yes unless it says no.
-/

namespace NavCheck

/-- The words set around a run, and whether it reports to a terminal. -/
structure Environment where
  logFormat : Option String := none
  logLevel : Option String := none
  tracePipeline : Option String := none
  reportFormat : Option String := none
  terminal : Bool := false
deriving DecidableEq

namespace Environment

/-- How a run logs when its command line does not ask for anything. -/
def log (env : Environment) : LogSettings :=
  LogChoice.apply ⟨env.logFormat.bind LogFormat.ofName?, env.logLevel.bind LogLevel.ofName?⟩ {}

/-- The form of diagnostics when the command line does not ask for one: as the environment asks, else for the reader. -/
def defaultFormat (env : Environment) : ReportFormat :=
  (env.reportFormat.bind ReportFormat.ofName?).getD (if env.terminal then .human else .short)

/-- The words that say no. -/
def denials : List String := ["0", "false", "off", "no", "disable"]

/-- What the environment says about stage events. -/
def trace? (env : Environment) : Option Bool :=
  env.tracePipeline.map fun word => !denials.contains (Text.asciiLower (String.ofList (Text.trim word.toList)))

/-- Are stage events told? A request goes before the environment, and the environment before the level. -/
def tracesStages (env : Environment) (requested : Bool) (level : LogLevel) : Bool :=
  requested || env.trace?.getD (LogLevel.info.rank ≤ level.rank)

end Environment

end NavCheck
