import NavCheck.Span
import NavCheck.Text.Bytes

/-!
# Source files

The texts that diagnostics point into, and the way from a byte offset to a line and a column. Lines and columns count from
one; a column counts bytes.
-/

namespace NavCheck

/-- A place in a text as people read it. -/
structure LineCol where
  line : Nat
  column : Nat
deriving DecidableEq

/-- A named text. -/
structure SourceFile where
  path : String
  text : String

/-- The offsets at which lines start when a text begins at `offset`, but for the first line: one behind every line feed. -/
def laterLineStarts (offset : Nat) : List Char → List Nat
  | [] => []
  | c :: cs =>
    if c = '\n' then (offset + c.utf8Size) :: laterLineStarts (offset + c.utf8Size) cs
    else laterLineStarts (offset + c.utf8Size) cs

namespace SourceFile

/-- The offsets at which lines start, in ascending order. -/
def lineStarts (f : SourceFile) : List Nat :=
  0 :: laterLineStarts 0 f.text.toList

/-- The number of bytes of the text. -/
def size (f : SourceFile) : Nat :=
  Text.byteLength f.text.toList

/-- The line and column of an offset; none past the end. The line is the last one that does not start behind the offset. -/
def lineCol? (f : SourceFile) (offset : Nat) : Option LineCol :=
  if offset > f.size then none
  else
    let reached := f.lineStarts.takeWhile (· ≤ offset)
    some ⟨reached.length, offset - reached.getLast?.getD 0 + 1⟩

/-- The text of a line with its line feed. Line zero is the empty text before the first line. -/
def line? (f : SourceFile) (line : Nat) : Option String :=
  match f.lineStarts[line - 1]? with
  | none => none
  | some start =>
    (Text.slice? start (f.lineStarts[line]?.getD f.size) f.text.toList).map String.ofList

end SourceFile

/-- The source files of a run; a file is known by its index. -/
structure SourceFiles where
  files : List SourceFile

namespace SourceFiles

/-- No files. -/
def empty : SourceFiles :=
  ⟨[]⟩

/-- Adds a file at the end and gives its index. -/
def add (fs : SourceFiles) (path text : String) : SourceFiles × Nat :=
  (⟨fs.files ++ [⟨path, text⟩]⟩, fs.files.length)

/-- The file of an index. -/
def get? (fs : SourceFiles) (file : Nat) : Option SourceFile :=
  fs.files[file]?

/-- The file that a span lies in. -/
def fileOf? (fs : SourceFiles) (span : Span) : Option SourceFile :=
  span.file.bind fs.get?

end SourceFiles

end NavCheck
