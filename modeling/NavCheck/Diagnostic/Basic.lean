import NavCheck.Span

/-!
# Diagnostics

A diagnostic is one finding about a source text: how grave it is, a stable code, a message, and the places, notes and
suggestions that explain it. Diagnostics are values; passes collect them in lists and nothing removes one again.
-/

namespace NavCheck

/-- How grave a finding is. -/
inductive Severity where
  | error
  | warning
  | note
  | help
deriving DecidableEq

/-- The word that a severity is printed as. -/
def Severity.text : Severity → String
  | .error => "error"
  | .warning => "warning"
  | .note => "note"
  | .help => "help"

/-- The severity that a word stands for. -/
def Severity.ofText? (s : String) : Option Severity :=
  [error, warning, note, help].find? (·.text == s)

/-- The identifier of a kind of finding, with the part of the analysis that it belongs to. -/
structure Code where
  code : String
  category : Option String
deriving DecidableEq

/-- A highlighted place. -/
structure Label where
  span : Span
  message : String
  primary : Bool
deriving DecidableEq

/-- A proposed change: the text at `span` is to be replaced. -/
structure Suggestion where
  message : String
  span : Option Span
  replacement : Option String
deriving DecidableEq

/-- One finding. -/
structure Diagnostic where
  severity : Severity
  code : Option Code
  message : String
  primary : Option Label
  secondary : List Label
  notes : List String
  suggestions : List Suggestion
deriving DecidableEq

namespace Diagnostic

/-- A finding with a message and perhaps a place, and nothing else. -/
def plain (severity : Severity) (message : String) (span : Option Span) : Diagnostic :=
  { severity, code := none, message, primary := span.map (⟨·, "", true⟩), secondary := [], notes := [], suggestions := [] }

/-- A plain error. -/
def error (message : String) (span : Option Span) : Diagnostic :=
  plain .error message span

/-- An error with a code of the given category. -/
def coded (code category message : String) (span : Option Span) : Diagnostic :=
  { error message span with code := some ⟨code, some category⟩ }

/-- Gives the primary label a message; without a place there is no label to give it to. -/
def labelled (d : Diagnostic) (message : String) : Diagnostic :=
  { d with primary := d.primary.map fun label => ⟨label.span, message, true⟩ }

/-- Adds a second place. -/
def also (d : Diagnostic) (span : Span) (message : String) : Diagnostic :=
  { d with secondary := d.secondary ++ [⟨span, message, false⟩] }

/-- Adds a note. -/
def noting (d : Diagnostic) (note : String) : Diagnostic :=
  { d with notes := d.notes ++ [note] }

/-- Adds a suggestion. -/
def suggesting (d : Diagnostic) (suggestion : Suggestion) : Diagnostic :=
  { d with suggestions := d.suggestions ++ [suggestion] }

/-- Whether the finding is an error. -/
def isError (d : Diagnostic) : Bool :=
  d.severity == .error

/-- The place that the finding is about. -/
def span? (d : Diagnostic) : Option Span :=
  d.primary.map (·.span)

/-- The code as it is printed; a finding without one prints a fixed word. -/
def codeText (d : Diagnostic) : String :=
  match d.code with
  | some code => code.code
  | none => "UNKNOWN"

/-- The one-line form without a place. -/
def headline (d : Diagnostic) : String :=
  s!"{d.severity.text}[{d.codeText}]: {d.message}"

/-- Moves the labels into a file; suggestions keep their places. -/
def inFile (d : Diagnostic) (file : Nat) : Diagnostic :=
  { d with
    primary := d.primary.map fun label => { label with span := label.span.inFile file }
    secondary := d.secondary.map fun label => { label with span := label.span.inFile file } }

end Diagnostic

/-- Whether a list of findings holds an error. -/
def hasErrors (ds : List Diagnostic) : Bool :=
  ds.any Diagnostic.isError

end NavCheck
