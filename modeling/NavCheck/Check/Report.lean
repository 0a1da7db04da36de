import NavCheck.Capture.Resolve
import NavCheck.Decl.Parser
import NavCheck.Diagnostic.Render
import NavCheck.Typing.Body

/-!
# Checking a source text

The whole way of a source text: it is read, the captured parameters become fields, the table of its types is built, and all
code is checked against it. Only a text that cannot be read gives no report.
-/

namespace NavCheck

/-- All that was found out about a source text. -/
structure CheckReport where
  path : String
  files : SourceFiles
  resolved : ResolvedUnit
  tableFindings : List Diagnostic
  typing : TypingReport

namespace CheckReport

/-- The findings, pass by pass. -/
def diagnostics (r : CheckReport) : List Diagnostic :=
  r.resolved.diagnostics ++ r.tableFindings ++ r.typing.diagnostics

/-- How many findings are errors. -/
def errorCount (r : CheckReport) : Nat :=
  (r.diagnostics.filter (·.isError)).length

/-- The codes of the findings. -/
def codes (r : CheckReport) : List String :=
  r.diagnostics.filterMap fun d => d.code.map (·.code)

/-- The uses of the parameters of the first type of a name. -/
def paramUses? (r : CheckReport) (type : String) : Option (List ParamUse) :=
  (r.resolved.types.find? (·.name == type)).map (·.uses)

end CheckReport

/-- Why there is no report: the faults of a text that cannot be read, and the text. -/
structure CheckFailure where
  diagnostics : List Diagnostic
  files : SourceFiles

/-- Checks a source text that stands under a path. -/
def checkSource [Text.Hash] (path source : String) : Except CheckFailure CheckReport :=
  let (files, file) := SourceFiles.empty.add path source
  match SourceUnit.parse source (some file) with
  | .error failure => .error ⟨(failure.inFile file).diagnostics, files⟩
  | .ok unit =>
    let resolved := unit.resolve
    let table := TypeTable.build resolved.unit
    .ok { path, files, resolved, tableFindings := table.notes, typing := resolved.unit.check table.value }

end NavCheck
