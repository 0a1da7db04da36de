import NavCheck.Text.Bytes
import NavCheck.Text.CharClass

/-!
# Help texts

What the program says about itself: the general help, and a guide for each command. A guide is found by the name of its
command or by a second name, in any mix of cases.
-/

namespace NavCheck

/-- An option as the help shows it. -/
structure OptionGuide where
  flag : String
  description : String
deriving DecidableEq

/-- A command as the help shows it. -/
structure CommandGuide where
  name : String
  aliases : List String := []
  summary : String
  usage : List String
  options : List OptionGuide := []
  examples : List String := []
deriving DecidableEq

/-- The name of the program. -/
def programName : String := "chic-resolve"

/-- The version of the program. -/
def programVersion : String := "0.1.0"

/-- The line that tells the version. -/
def versionLine : String := s!"{programName} {programVersion}\n"

namespace OptionGuide

/-- The options that every command takes. -/
def shared : List OptionGuide :=
  [⟨"-h, --help", "Show contextual help information."⟩, ⟨"--version", "Print the resolver version."⟩]

/-- The line of an option, with its description from the column behind `width`. -/
def line (width : Nat) (o : OptionGuide) : String :=
  s!"  {Text.padRight width o.flag} {o.description}\n"

end OptionGuide

namespace CommandGuide

/-- The guide of the check. -/
def check : CommandGuide where
  name := "check"
  aliases := ["resolve"]
  summary := "Resolve primary constructor captures and type-check null-conditional chains."
  usage := ["chic-resolve check <file> [options]"]
  options :=
    [⟨"--error-format <fmt>", "Diagnostic format: human, short or json (default: human on a terminal)."⟩,
      ⟨"--emit-lowered", "Print each null-conditional chain with its type and single-evaluation form."⟩,
      ⟨"--sequential", "Resolve declarations on one thread."⟩,
      ⟨"--trace-pipeline", "Log a `pipeline` event for every stage."⟩,
      ⟨"--log-format <fmt>", "Log output format: auto, text or json (env: CHIC_LOG_FORMAT)."⟩,
      ⟨"--log-level <level>", "Log verbosity: error, warn, info, debug or trace (env: CHIC_LOG_LEVEL)."⟩]
  examples :=
    ["chic-resolve check src/Person.cl", "chic-resolve check src/Person.cl --emit-lowered --error-format json"]

/-- The guide of the help. -/
def help : CommandGuide where
  name := "help"
  summary := "Show help for a command."
  usage := ["chic-resolve help [command]"]
  examples := ["chic-resolve help check"]

/-- The guide of the version. -/
def version : CommandGuide where
  name := "version"
  summary := "Print the resolver version."
  usage := ["chic-resolve version", "chic-resolve --version"]

/-- All guides, in the order that the general help lists them. -/
def all : List CommandGuide := [check, help, version]

/-- All names that a guide is found by. -/
def names (g : CommandGuide) : List String := g.name :: g.aliases

/-- The guide of a topic. -/
def find? (topic : String) : Option CommandGuide :=
  all.find? fun g => g.names.any fun name => Text.asciiLower name == Text.asciiLower topic

/-- A heading with lines below it, and an empty line above; nothing when there is no line. -/
def sectionText (heading : String) (lines : List String) : String :=
  if lines.isEmpty then "" else "\n" ++ heading ++ ":\n" ++ String.join lines

/-- The text of a guide. -/
def text (g : CommandGuide) : String :=
  let indented := List.map fun line => s!"  {line}\n"
  s!"{programName} {g.name} – {g.summary}\n" ++ sectionText "USAGE" (indented g.usage) ++
    sectionText "ALIASES" (indented g.aliases) ++ sectionText "OPTIONS" (g.options.map (·.line 24)) ++
    sectionText "EXAMPLES" (indented g.examples)

end CommandGuide

/-- The general help. -/
def generalHelp : String :=
  s!"{programName} – primary constructor capture and null-conditional resolution\n\n" ++
    s!"USAGE:\n  {programName} <command> [options]\n\n" ++
    "COMMANDS:\n" ++ String.join (CommandGuide.all.map fun g => s!"  {Text.padRight 11 g.name} {g.summary}\n") ++
    "\nGLOBAL OPTIONS:\n" ++ String.join (OptionGuide.shared.map (·.line 18)) ++
    s!"\nUse `{programName} help <command>` to view detailed usage and examples.\n"

end NavCheck
