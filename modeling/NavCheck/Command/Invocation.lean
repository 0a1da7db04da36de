import NavCheck.Command.Environment
import NavCheck.Command.Fault

/-!
# Invocations

What a command line asks for. A word for help wins over everything else that stands behind the command; otherwise the words
are read from left to right, and the first that is not understood is the fault.
-/

namespace NavCheck

/-- What a check is asked to do. -/
structure CheckRequest where
  input : String
  emitLowered : Bool
  sequential : Bool
  tracePipeline : Bool
deriving DecidableEq

/-- A command. -/
inductive Command where
  | check (request : CheckRequest)
  | help (topic : Option String)
  | version
deriving DecidableEq

namespace Command

/-- The name of a command. -/
def name : Command → String
  | .check _ => "check"
  | .help _ => "help"
  | .version => "version"

/-- The file that a command is about. -/
def input? : Command → Option String
  | .check request => some request.input
  | _ => none

/-- Does a command ask for stage events? -/
def requestsTrace : Command → Bool
  | .check request => request.tracePipeline
  | _ => false

end Command

/-- A command with the settings of its run; the form of diagnostics may be left to the environment. -/
structure Invocation where
  command : Command
  log : LogSettings
  format : Option ReportFormat := none
deriving DecidableEq

/-- The options of a check. -/
structure CheckOptions where
  emitLowered : Bool := false
  sequential : Bool := false
  tracePipeline : Bool := false
  log : LogChoice := {}
  format : Option ReportFormat := none
deriving DecidableEq

namespace CheckOptions

/-- The options with a switch turned on. -/
def switchOn? (o : CheckOptions) : String → Option CheckOptions
  | "--emit-lowered" => some { o with emitLowered := true }
  | "--sequential" => some { o with sequential := true }
  | "--trace-pipeline" => some { o with tracePipeline := true }
  | _ => none

/-- The options with a choice made. -/
def choose? (o : CheckOptions) (option : ChoiceOption) (word : String) : Option CheckOptions :=
  match option with
  | .logFormat => (LogFormat.ofName? word).map fun f => { o with log := { o.log with format := some f } }
  | .logLevel => (LogLevel.ofName? word).map fun l => { o with log := { o.log with level := some l } }
  | .reportFormat => (ReportFormat.ofName? word).map fun f => { o with format := some f }

/-- Reads options one by one; of two that set the same, the later wins. -/
def read (o : CheckOptions) : List String → Except UsageFault CheckOptions
  | [] => .ok o
  | word :: rest =>
    match o.switchOn? word, ChoiceOption.ofFlag? word with
    | some o, _ => read o rest
    | none, none => .error (.unsupportedOption word)
    | none, some option =>
      match rest with
      | [] => .error (.noChoice option)
      | choice :: rest =>
        match o.choose? option choice with
        | none => .error (.unknownChoice option choice)
        | some o => read o rest

end CheckOptions

/-- Does a word ask for help? -/
def isHelpFlag (word : String) : Bool :=
  word == "-h" || word == "--help"

/-- The path of an input, which must look like a path and not like an option. -/
def readInput : List String → Except UsageFault String
  | [] => .error .noInput
  | word :: _ =>
    if word.toList.head? = some '-' then .error .noInput
    else if (Text.trim word.toList).isEmpty then .error .blankInput
    else .ok word

namespace Invocation

/-- Asks for help. -/
def help (env : Environment) (topic : Option String) : Invocation :=
  { command := .help topic, log := env.log }

/-- Reads the words behind a word for help. -/
def readHelp (env : Environment) (words : List String) : Invocation :=
  help env ((words.head?.filter fun word => !isHelpFlag word).map Text.asciiLower)

/-- Reads the words behind a word for the version. -/
def readVersion (env : Environment) (words : List String) : Except UsageFault Invocation :=
  match words with
  | [] => .ok { command := .version, log := env.log }
  | word :: _ =>
    if words.any isHelpFlag then .ok (help env (some CommandGuide.version.name)) else .error (.unsupportedOption word)

/-- Reads the words behind a word for the check. -/
def readCheck (env : Environment) (words : List String) : Except UsageFault Invocation :=
  if words.any isHelpFlag then .ok (help env (some CommandGuide.check.name))
  else do
    let input ← readInput words
    let options ← CheckOptions.read {} words.tail
    return {
      command := .check
        { input, emitLowered := options.emitLowered, sequential := options.sequential,
          tracePipeline := options.tracePipeline },
      log := options.log.apply env.log,
      format := options.format }

/-- Reads a command line. The names of commands are not read in other cases. -/
def ofWords (env : Environment) : List String → Except UsageFault Invocation
  | [] => .error .noCommand
  | word :: rest =>
    if isHelpFlag word || CommandGuide.help.names.contains word then .ok (readHelp env rest)
    else if ["--version", "-V"].contains word || CommandGuide.version.names.contains word then readVersion env rest
    else if CommandGuide.check.names.contains word then readCheck env rest
    else .error (.unknownCommand word)

end Invocation

end NavCheck
