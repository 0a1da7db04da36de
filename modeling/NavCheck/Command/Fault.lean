import NavCheck.Command.Guide

/-!
# Faults of a command line

Why a command line is not understood. The message of a fault says what is wrong, and the general help follows it.
-/

namespace NavCheck

/-- An option that is followed by one of several words. -/
inductive ChoiceOption where
  | logFormat
  | logLevel
  | reportFormat
deriving DecidableEq

namespace ChoiceOption

/-- How the option is written. -/
def flag : ChoiceOption → String
  | .logFormat => "--log-format"
  | .logLevel => "--log-level"
  | .reportFormat => "--error-format"

/-- What the option chooses. -/
def subject : ChoiceOption → String
  | .logFormat => "log format"
  | .logLevel => "log level"
  | .reportFormat => "error format"

/-- The words that the help offers. -/
def words : ChoiceOption → List String
  | .logFormat => ["auto", "text", "json"]
  | .logLevel => ["error", "warn", "info", "debug", "trace"]
  | .reportFormat => ["human", "short", "json"]

/-- The option of a written flag. -/
def ofFlag? (word : String) : Option ChoiceOption :=
  [logFormat, logLevel, reportFormat].find? (·.flag == word)

end ChoiceOption

/-- Why a command line is not understood. -/
inductive UsageFault where
  | noCommand
  | unknownCommand (word : String)
  | unsupportedOption (word : String)
  | noInput
  | blankInput
  | noChoice (option : ChoiceOption)
  | unknownChoice (option : ChoiceOption) (word : String)
  | unknownTopic (topic : String)
deriving DecidableEq

namespace UsageFault

/-- What is wrong. -/
def message : UsageFault → String
  | .noCommand => "missing command"
  | .unknownCommand word => s!"unknown command '{word}'"
  | .unsupportedOption word => s!"unsupported option '{word}' for command"
  | .noInput => "check requires <file> argument"
  | .blankInput => "input path must not be empty"
  | .noChoice option => s!"expected value after {option.flag}"
  | .unknownChoice option word =>
    let words := ", ".intercalate option.words
    s!"invalid {option.subject} '{word}'; supported values: {words}"
  | .unknownTopic topic =>
    let names := ", ".intercalate ((CommandGuide.all.map (·.name)).mergeSort fun a b => decide (a ≤ b))
    s!"unknown help topic '{topic}'; available commands: {names}"

/-- What is wrong, and the general help. -/
def text (fault : UsageFault) : String :=
  fault.message ++ "\n\n" ++ generalHelp

end UsageFault

/-- The help for a topic. -/
def helpFor (topic : String) : Except UsageFault String :=
  match CommandGuide.find? topic with
  | some guide => .ok guide.text
  | none => .error (.unknownTopic topic)

end NavCheck
