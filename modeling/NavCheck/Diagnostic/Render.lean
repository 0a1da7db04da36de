import NavCheck.Diagnostic.Basic
import NavCheck.Diagnostic.Source
import NavCheck.Text.CharClass
import NavCheck.Text.Json

/-!
# Rendered diagnostics

Three written forms of a list of diagnostics: `human`, with the source lines and carets under the marked text; `short`, a line
for each; and `json`, an object for each. The renderings stand one below the other.
-/

namespace NavCheck

/-- The form that diagnostics are written in. -/
inductive ReportFormat where
  | human
  | short
  | json
deriving DecidableEq

namespace ReportFormat

/-- The name of a form. -/
def name : ReportFormat → String
  | .human => "human"
  | .short => "short"
  | .json => "json"

/-- Reads the name of a form in any mix of cases; `text` is a second name of `human`. -/
def ofName? (s : String) : Option ReportFormat :=
  match Text.asciiLower s with
  | "human" | "text" => some .human
  | "json" => some .json
  | "short" => some .short
  | _ => none

end ReportFormat

/-- What stands for the path of a place in no known file. -/
def unknownPath : String := "<unknown>"

/-- The path and place of the primary label; the path is unknown when there is no label or no file. -/
def Diagnostic.locate (d : Diagnostic) (files : SourceFiles) : String × Option LineCol :=
  match d.primary with
  | none => (unknownPath, none)
  | some label =>
    match files.fileOf? label.span with
    | none => (unknownPath, none)
    | some file => (file.path, file.lineCol? label.span.start)

/-- A line number and a column number as text; a question mark stands for an unknown place. -/
def lineColText : Option LineCol → String
  | some at_ => s!"{at_.line}:{at_.column}"
  | none => "?:?"

/-- A character, a number of times. -/
def repeated (n : Nat) (c : Char) : String :=
  String.ofList (List.replicate n c)

/-- The number of characters from the start of a line to a byte offset in it, none counted when the offset cuts a character. -/
def charsBefore (line : List Char) (offset : Nat) : Nat :=
  match Text.takeBytes? offset line with
  | some cs => cs.length
  | none => 0

/-- The number of carets under the bytes from `start` to `stop` of a line: one for each character, and always one. -/
def caretCount (line : List Char) (start stop : Nat) : Nat :=
  match Text.slice? start stop line with
  | some cs => max cs.length 1
  | none => 1

/-- The line that a span starts in, and below it carets under the part of the span that lies in that line. -/
def snippet (span : Span) (message : String) (files : SourceFiles) : String :=
  match files.fileOf? span with
  | none => ""
  | some file =>
    match file.lineCol? span.start with
    | none => ""
    | some place =>
      match file.line? place.line with
      | none => ""
      | some line =>
        let shown := (line.toList.reverse.dropWhile (· == '\n')).reverse
        let size := Text.byteLength shown
        let lineStart := span.start + 1 - place.column
        let start := min (span.start - lineStart) size
        let stop := min (span.stop - lineStart) size
        Text.padLeft 4 ' ' (toString place.line) ++ " | " ++ String.ofList shown ++ "\n" ++
          "     | " ++ repeated (charsBefore shown start) ' ' ++ repeated (caretCount shown start stop) '^' ++ " " ++ message

/-- The form for people: headline, place, marked lines, notes and suggestions. -/
def Diagnostic.renderHuman (d : Diagnostic) (files : SourceFiles) : String :=
  let (path, place) := d.locate files
  let snippets := (d.primary.toList ++ d.secondary).map fun label => snippet label.span label.message files
  let notes := d.notes.map fun note => "\nnote: " ++ note
  let helps := d.suggestions.map fun s =>
    "\nhelp: " ++ s.message ++
      match s.replacement with
      | some text => s!" replace with `{text}`"
      | none => ""
  d.headline ++ "\n" ++ s!"  --> {path}:{lineColText place}\n   |\n" ++ String.join (snippets ++ notes ++ helps)

/-- The form of one line: place, headline, the number of notes and the messages of the suggestions. -/
def Diagnostic.renderShort (d : Diagnostic) (files : SourceFiles) : String :=
  let (path, place) := d.locate files
  let notes := if d.notes.isEmpty then "" else s!" (notes: {d.notes.length})"
  let suggestions := d.suggestions.map fun s => "; suggestion: " ++ s.message
  s!"{path}:{lineColText place}: {d.headline}" ++ notes ++ String.join suggestions

/-- The object for a place in a file. -/
def spanJson (path : String) (span : Span) (place : LineCol) : Text.Json :=
  .obj [("file", .str path), ("start", .num span.start), ("end", .num span.stop), ("line_start", .num place.line),
    ("column_start", .num place.column)]

/-- The object for a span; none when its file or its place in the file is unknown. -/
def spanJson? (span : Span) (files : SourceFiles) : Option Text.Json :=
  (files.fileOf? span).bind fun file => (file.lineCol? span.start).map (spanJson file.path span)

/-- The object for a label; an unknown place is written with line and column zero. -/
def labelJson (label : Label) (files : SourceFiles) : Text.Json :=
  .obj [("message", .str label.message),
    ("span", (spanJson? label.span files).getD (spanJson unknownPath label.span ⟨0, 0⟩)),
    ("is_primary", .bool label.primary)]

/-- The object for a suggestion. -/
def suggestionJson (s : Suggestion) (files : SourceFiles) : Text.Json :=
  .obj ([("message", .str s.message)] ++ Text.Json.optional "span" (s.span.bind (spanJson? · files)) ++
    Text.Json.optional "replacement" (s.replacement.map .str))

/-- The version of the JSON form. -/
def jsonVersion : String := "1.0.0"

/-- The form for programs: one object. Fields without a value are left out. -/
def Diagnostic.renderJson (d : Diagnostic) (files : SourceFiles) : String :=
  let code := d.code.map fun c =>
    Text.Json.obj [("code", .str c.code), ("category", (c.category.map .str).getD .null)]
  let primary := d.primary.bind (spanJson? ·.span files)
  (Text.Json.obj ([("version", .str jsonVersion), ("severity", .str d.severity.text)] ++
    Text.Json.optional "code" code ++ [("message", .str d.message)] ++ Text.Json.optional "primary_span" primary ++
    Text.Json.nonempty "labels" ((d.primary.toList ++ d.secondary).map (labelJson · files)) ++
    Text.Json.nonempty "notes" (d.notes.map .str) ++
    Text.Json.nonempty "suggestions" (d.suggestions.map (suggestionJson · files)))).text

/-- One diagnostic in a form. -/
def Diagnostic.render (d : Diagnostic) (files : SourceFiles) : ReportFormat → String
  | .human => d.renderHuman files
  | .short => d.renderShort files
  | .json => d.renderJson files

/-- A list of diagnostics in a form. -/
def renderAll (ds : List Diagnostic) (files : SourceFiles) (format : ReportFormat) : String :=
  "\n".intercalate (ds.map (·.render files format))

end NavCheck
