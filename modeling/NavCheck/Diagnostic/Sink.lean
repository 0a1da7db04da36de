import NavCheck.Diagnostic.Basic
import NavCheck.Text.Bytes
import NavCheck.Text.CharClass

/-!
# Sinks

A sink gathers the findings of one pass. A finding that comes without a code gets one on the way in: the area of the sink and
five digits of a hash that depend only on the area, the message and the place, so the same finding has the same code in every
run.
-/

namespace NavCheck

/-- The findings of one pass, in order; `area` is what derived codes start with, and their digits come from `hash`. -/
structure Sink where
  hash : Text.Hash
  area : String
  found : List Diagnostic

namespace Sink

/-- A sink with nothing in it. -/
def empty [hash : Text.Hash] (area : String) : Sink :=
  ⟨hash, area, []⟩

/-- The area of a sink that belongs to no pass. -/
def generalArea : String := "GEN"

/-- The bytes that a derived code depends on: the area, the message and the two ends of the place. -/
def codeBytes (area : String) (d : Diagnostic) : List UInt8 :=
  area.toUTF8.toList ++ d.message.toUTF8.toList ++
    match d.primary with
    | some label => Text.littleEndian 8 label.span.start ++ Text.littleEndian 8 label.span.stop
    | none => []

/-- The derived code: five digits of the hash behind the area in capitals. -/
def deriveCode (hash : Text.Hash) (area : String) (d : Diagnostic) : Code :=
  let digits := (hash.firstWord (codeBytes area d)).toNat % 100000
  ⟨Text.asciiUpper area ++ Text.padLeft 5 '0' (toString digits), some area⟩

/-- The finding with a code: its own, or else the derived one. -/
def withCode (hash : Text.Hash) (area : String) (d : Diagnostic) : Diagnostic :=
  match d.code with
  | some _ => d
  | none => { d with code := some (deriveCode hash area d) }

/-- Adds a finding at the end. -/
def push (s : Sink) (d : Diagnostic) : Sink :=
  { s with found := s.found ++ [withCode s.hash s.area d] }

/-- Adds an error at the end. -/
def pushError (s : Sink) (message : String) (span : Option Span) : Sink :=
  s.push (Diagnostic.error message span)

/-- Adds findings at the end, one after the other. -/
def extend (s : Sink) (ds : List Diagnostic) : Sink :=
  ds.foldl push s

end Sink

end NavCheck
