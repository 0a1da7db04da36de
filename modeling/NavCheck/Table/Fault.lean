import NavCheck.Capture.Qualifier
import NavCheck.Diagnostic.Basic
import NavCheck.Ty.Basic

/-!
# Faults of declarations

What can be wrong with a written type, and with the declarations of a unit apart from the insides of their members.
-/

namespace NavCheck

/-- Why a written type means nothing. -/
inductive TypeFault where
  | paramWithArgs (name : String)
  | unknown (name : String)
  | argCount (name : String) (expected found : Nat)
deriving DecidableEq

/-- The wording of a fault of a written type. -/
def TypeFault.message : TypeFault → String
  | .paramWithArgs name => s!"generic parameter `{name}` does not take type arguments"
  | .unknown name => s!"unknown type `{name}`"
  | .argCount name expected found =>
    s!"type `{name}` expects {expected} type argument(s), found {found}"

/-- What is wrong with a declaration. -/
inductive TableFault where
  | writtenType (fault : TypeFault)
  | voidValue
  | builtinName (name : String)
  | duplicateType (name : String)
  | duplicateIndexer (type : String) (count : Nat)
  | duplicateMember (type name : String)
  | memberNamedAsType (name : String)
  | modifier (fault : QualifierFault)
  | badConstraint (type : Ty)
  | structBase (name : String)
  | badBase (base : Ty) (name : String)
  | circularBase (name : String)
deriving DecidableEq

namespace TableFault

/-- The code of a fault. -/
def code : TableFault → String
  | .writtenType _ => "TCK001"
  | .voidValue => "TCK001"
  | .builtinName _ => "TCK002"
  | .duplicateType _ => "TCK002"
  | .duplicateIndexer _ _ => "TCK003"
  | .duplicateMember _ _ => "TCK003"
  | .memberNamedAsType _ => "TCK003"
  | .modifier _ => "TCK010"
  | .badConstraint _ => "TCK020"
  | .structBase _ => "TCK020"
  | .badBase _ _ => "TCK020"
  | .circularBase _ => "TCK020"

/-- The wording of a fault. -/
def message : TableFault → String
  | .writtenType fault => fault.message
  | .voidValue => "`void` is only valid as a method return type"
  | .builtinName name => s!"type `{name}` conflicts with a built-in type"
  | .duplicateType name => s!"type `{name}` is declared more than once"
  | .duplicateIndexer type count => s!"`{type}` already declares an indexer with {count} parameter(s)"
  | .duplicateMember type name => s!"`{type}` already declares a member named `{name}`"
  | .memberNamedAsType name => s!"member `{name}` cannot have the same name as its enclosing type"
  | .modifier fault => fault.message
  | .badConstraint type => s!"`{type.text}` cannot be used as a constraint; only class types can"
  | .structBase name => s!"struct `{name}` cannot declare a base type"
  | .badBase base name => s!"base type `{base.text}` of `{name}` is not a class"
  | .circularBase name => s!"circular base type dependency involving `{name}`"

/-- The category of findings about types. -/
def category : String := "typeck"

/-- The finding about a fault at a place. -/
def finding (fault : TableFault) (span : Span) : Diagnostic :=
  Diagnostic.coded fault.code category fault.message (some span)

end TableFault

/-- A fault of a written type and its place. -/
structure TypeError where
  fault : TypeFault
  span : Span
deriving DecidableEq

/-- The finding about a fault of a written type. -/
def TypeError.toDiagnostic (e : TypeError) : Diagnostic :=
  (TableFault.writtenType e.fault).finding e.span

end NavCheck
