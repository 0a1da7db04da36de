import NavCheck.Table.Basic

/-!
# Results of null-conditional chains

What a chain gives, by the type that its accesses give. References and nullable values can hold the `null` of a chain that
was cut short as they are, plain values only in their nullable form.
-/

namespace NavCheck

/-- What a chain gives. -/
inductive ChainResult where
  | reference (type : Ty)
  | lifted (type : Ty)
  | nullable (type : Ty)
  | void
  | error
deriving DecidableEq

namespace ChainResult

/-- The type of the whole chain. -/
def type : ChainResult → Ty
  | .reference t => t
  | .lifted t => t.orNull
  | .nullable t => t
  | .void => .void
  | .error => .error

/-- How a result is written. -/
def text : ChainResult → String
  | .reference t => s!"reference {t.text}"
  | .lifted t => s!"lifted {t.text}?"
  | .nullable t => s!"nullable {t.text}"
  | .void => "void"
  | .error => "error"

/-- What kind of result it is, in one word. -/
def kindText : ChainResult → String
  | .reference _ => "reference"
  | .lifted _ => "lifted"
  | .nullable _ => "nullable"
  | .void => "void"
  | .error => "error"

/-- The nullable form that a plain value has to be lifted into. -/
def lift? : ChainResult → Option Ty
  | .lifted t => some t.orNull
  | _ => none

end ChainResult

/-- What a chain gives whose accesses give a type. -/
def TypeTable.chainResult (t : TypeTable) (type : Ty) : ChainResult :=
  match t.classify type with
  | .reference => .reference type
  | .value => .lifted type
  | .nullableValue => .nullable type
  | .void => .void
  | .unknown => .error

end NavCheck
