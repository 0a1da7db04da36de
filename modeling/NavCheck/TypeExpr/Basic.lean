import NavCheck.Span

/-!
# Written types

A type as it stands in a source text: a name, type arguments between angle brackets, and a row of `?` and `[]` behind it.
-/

namespace NavCheck

/-- What may stand behind a written type. -/
inductive TypeSuffix where
  | nullable
  | array
deriving DecidableEq

/-- How a suffix is written. -/
def TypeSuffix.text : TypeSuffix → String
  | .nullable => "?"
  | .array => "[]"

/-- A written type. -/
structure TypeExpr where
  name : String
  args : List TypeExpr
  suffixes : List TypeSuffix
  span : Span

namespace TypeExpr

/-- A name without arguments and suffixes. -/
def simple (name : String) (span : Span) : TypeExpr :=
  { name, args := [], suffixes := [], span }

mutual

/-- The text of a type, with a comma and a blank between arguments. -/
def text : TypeExpr → String
  | ⟨name, args, suffixes, _⟩ =>
    let argText := if args.isEmpty then "" else "<" ++ ", ".intercalate (argTexts args) ++ ">"
    name ++ argText ++ String.join (suffixes.map TypeSuffix.text)

/-- The texts of type arguments. -/
def argTexts : List TypeExpr → List String
  | [] => []
  | t :: ts => t.text :: argTexts ts

end

end TypeExpr

end NavCheck
