/-!
# Spans

A span is a range of bytes of a source text, together with the file that the text was read from. Spans are joined while
trees are built, so that a node covers everything that was read for it.
-/

namespace NavCheck

/-- A range of bytes, from `start` up to and without `stop`; `file` is the index of its file, none for a text of no file. -/
structure Span where
  file : Option Nat := none
  start : Nat := 0
  stop : Nat := 0
deriving DecidableEq

namespace Span

instance : Inhabited Span := ⟨{}⟩

/-- The smallest span that covers both; it lies in the file of the first. -/
def join (a b : Span) : Span :=
  { file := a.file, start := min a.start b.start, stop := max a.stop b.stop }

/-- Joins two spans that may be missing; a single one is kept as it is. -/
def join? : Option Span → Option Span → Option Span
  | some a, some b => some (a.join b)
  | some a, none => some a
  | none, b => b

/-- The same range in another file. -/
def inFile (s : Span) (file : Nat) : Span :=
  { s with file := some file }

/-- Spans by their place in the text: earlier start first, then earlier stop. -/
def before (a b : Span) : Bool :=
  a.start < b.start || (a.start == b.start && a.stop ≤ b.stop)

end Span

end NavCheck
