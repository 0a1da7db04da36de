import NavCheck.Check.Report
import NavCheck.Log.Event

/-!
# Events of a check

A check tells when it begins, what each of its passes found, and how it ended. A text that cannot be read ends the row after
its first event.
-/

namespace NavCheck

/-- The event of a completed pass of a check. -/
def Event.completed (stage path : String) (found : Nat) : Event :=
  .stage .info stage "check" "ok" [("path", .text path), ("diagnostics", .count found)]

namespace CheckReport

/-- The events of the passes of a check that gave a report. -/
def events (r : CheckReport) : List Event :=
  [.completed "frontend.parse" r.path 0,
    .completed "resolve.capture" r.path r.resolved.diagnostics.length,
    .completed "typeck.declarations" r.path r.tableFindings.length,
    .completed "typeck.bodies" r.path r.typing.diagnostics.length,
    .stage .info "driver.check.complete" "check" (if hasErrors r.diagnostics then "error" else "ok")
      [("path", .text r.path), ("declarations", .count r.resolved.types.length),
        ("chains", .count r.typing.navigation.length), ("diagnostics", .count r.diagnostics.length)]]

end CheckReport

/-- The events of a check; it may be told to use several threads, which changes nothing else. -/
def checkEvents (path : String) (parallel : Bool) (outcome : Except CheckFailure CheckReport) : List Event :=
  .stage .info "driver.check.start" "check" "start" [("path", .text path), ("parallel", .flag parallel)] ::
    match outcome with
    | .ok report => report.events
    | .error _ => []

end NavCheck
