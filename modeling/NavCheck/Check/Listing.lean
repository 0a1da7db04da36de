import NavCheck.Check.Report

/-!
# The listing of the chains

Every null-conditional chain that was understood, in the order of the text, with its place, what it gives, and the form that
evaluates its operand once. The listing is written as lines for people or as an object a line.
-/

namespace NavCheck

/-- A row of the listing. -/
structure ChainRow where
  path : String
  place : LineCol
  text : String
  result : String
  lowered : Option String
deriving DecidableEq

namespace ChainRow

/-- The row of a record. -/
def ofRecord (r : CheckReport) (record : NavigationRecord) : ChainRow :=
  let place := (r.files.fileOf? record.span).bind (·.lineCol? record.span.start)
  { path := r.path, place := place.getD ⟨0, 0⟩, text := record.text, result := record.result.text,
    lowered := record.lowered.map (·.text) }

/-- The lines of a row: the chain with its result, and below it the lowered form. -/
def lines (row : ChainRow) : List String :=
  s!"  {row.place.line}:{row.place.column} {row.text} : {row.result}" :: row.lowered.toList.map ("    " ++ ·)

/-- The object of a row; its fields stand in the order of the alphabet. -/
def json (row : ChainRow) : Text.Json :=
  .obj [("column", .num row.place.column), ("file", .str row.path), ("kind", .str "navigation"),
    ("line", .num row.place.line), ("lowered", (row.lowered.map Text.Json.str).getD .null), ("result", .str row.result),
    ("text", .str row.text)]

end ChainRow

namespace CheckReport

/-- The rows of the chains in the order of the text. -/
def chainRows (r : CheckReport) : List ChainRow :=
  (r.typing.navigation.mergeSort fun a b => a.span.before b.span).map (ChainRow.ofRecord r)

/-- The lines of the listing; a headline stands above it where people read it and there is a chain. -/
def chainListing (r : CheckReport) (format : ReportFormat) : List String :=
  match format, r.chainRows with
  | .json, rows => rows.map (·.json.text)
  | _, [] => []
  | _, rows => "null-conditional chains:" :: rows.flatMap (·.lines)

end CheckReport

end NavCheck
