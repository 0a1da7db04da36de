import NavCheck.Check.Event
import NavCheck.Check.Listing
import NavCheck.Command.Input
import NavCheck.Command.Invocation
import NavCheck.Text.Digest

/-!
# Runs

A run turns a command line, the environment and the file that is asked for into what is printed, the events that are told, and
success or failure. Findings are printed where the output goes; what ends a run early is printed where errors go. The hash that
codes are derived from is fixed here.
-/

namespace NavCheck

/-- Why a run fails. -/
inductive RunFailure where
  | usage (fault : UsageFault)
  | input (fault : ReadFault)
  | unreadable (failure : CheckFailure)
  | found (errors : Nat) (path : String)

namespace RunFailure

/-- A failure in a few words, as an event names it. -/
def summary : RunFailure → String
  | .usage fault => fault.text
  | .input fault => s!"I/O error: {fault.message}"
  | .unreadable _ => s!"parse error: {SyntaxFailure.summary}"
  | .found errors path => s!"{errors} error(s) reported for {path}; see diagnostics above"

/-- The lines that are printed for a failure; the faults of an unreadable text are shown to people in full. -/
def lines : RunFailure → List String
  | .unreadable failure => [s!"error: {SyntaxFailure.summary}", renderAll failure.diagnostics failure.files .human]
  | failure => [failure.summary]

end RunFailure

/-- What a run gives. -/
structure RunOutcome where
  stdout : String := ""
  events : List Event := []
  failure : Option RunFailure := none

namespace RunOutcome

/-- What is printed where errors go. -/
def stderr (o : RunOutcome) : String :=
  match o.failure with
  | none => ""
  | some failure => String.join (failure.lines.map (· ++ "\n"))

/-- The number that a run ends with: one for a failure, else zero. -/
def exitCode (o : RunOutcome) : Nat :=
  if o.failure.isSome then 1 else 0

end RunOutcome

namespace CheckReport

/-- The lines of the findings, with a headline where people read them. -/
def findingLines (r : CheckReport) (format : ReportFormat) : List String :=
  if r.diagnostics.isEmpty then []
  else
    (if format = .json then [] else ["check completed with diagnostics:"]) ++ [renderAll r.diagnostics r.files format]

/-- The line that ends a check without errors. -/
def passedLine (r : CheckReport) : String :=
  s!"check passed for {r.path} ({r.resolved.types.length} declaration(s), " ++
    s!"{r.typing.navigation.length} null-conditional chain(s))"

/-- What is printed for a report: the chains when they are asked for, the findings, and success. -/
def outcome (r : CheckReport) (emitLowered : Bool) (format : ReportFormat) : RunOutcome :=
  let chains := if emitLowered then r.chainListing format else []
  let passed := if hasErrors r.diagnostics || format = .json then [] else [r.passedLine]
  { stdout := String.join ((chains ++ r.findingLines format ++ passed).map (· ++ "\n")),
    failure := if hasErrors r.diagnostics then some (.found r.errorCount r.path) else none }

end CheckReport

namespace CheckRequest

/-- Runs a check; no stage is told of when the text cannot be fetched. -/
def run (request : CheckRequest) (traced : Bool) (format : ReportFormat) (read : TextSource) : RunOutcome :=
  match read request.input with
  | .error fault => { failure := some (.input fault) }
  | .ok source =>
    let result := checkSource request.input source
    let outcome : RunOutcome :=
      match result with
      | .error failure => { failure := some (.unreadable failure) }
      | .ok report => report.outcome request.emitLowered format
    { outcome with events := if traced then checkEvents request.input (!request.sequential) result else [] }

end CheckRequest

namespace Invocation

/-- The level of the log; a request for stage events brings it to where they are seen. -/
def level (i : Invocation) : LogLevel :=
  if i.command.requestsTrace then i.log.level.max .info else i.log.level

/-- The outcome of the command alone. -/
def perform (i : Invocation) (env : Environment) (read : TextSource) : RunOutcome :=
  match i.command with
  | .check request =>
    request.run (env.tracesStages request.tracePipeline i.level) (i.format.getD env.defaultFormat) read
  | .help none => { stdout := generalHelp }
  | .help (some topic) =>
    match helpFor topic with
    | .ok text => { stdout := text }
    | .error fault => { failure := some (.usage fault) }
  | .version => { stdout := versionLine }

/-- What the events of a run call its input. -/
def inputText (i : Invocation) : String :=
  i.command.input?.getD "<none>"

/-- The event at the start of a run. -/
def startEvent (i : Invocation) : Event :=
  let log := i.log.resolved
  .stage .info "cli.run.start" i.command.name "start"
    [("input", .text i.inputText), ("log_level", .text log.level.name), ("log_format", .text log.format.name),
      ("trace_pipeline", .flag i.command.requestsTrace)]

/-- The event at the end of a run. -/
def endEvent (i : Invocation) : Option RunFailure → Event
  | none => .stage .info "cli.run.footer" i.command.name "ok" [("input", .text i.inputText)]
  | some failure =>
    .stage .error "cli.run.footer" i.command.name "error"
      [("input", .text i.inputText), ("error", .text failure.summary)]

/-- The outcome of a run, with the events around those of the command. -/
def run (i : Invocation) (env : Environment) (read : TextSource) : RunOutcome :=
  let outcome := i.perform env read
  { outcome with events := i.startEvent :: outcome.events ++ [i.endEvent outcome.failure] }

end Invocation

/-- Runs a command line; one that is not understood fails before anything is told. -/
def runWords (env : Environment) (words : List String) (read : TextSource) : RunOutcome :=
  match Invocation.ofWords env words with
  | .error fault => { failure := some (.usage fault) }
  | .ok invocation => invocation.run env read

end NavCheck
