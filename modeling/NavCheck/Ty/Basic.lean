/-!
# Types

The types that expressions have. They are written types with their names resolved: a `?` is kept only where it makes a
difference, and a generic parameter carries what is known about it.
-/

namespace NavCheck

/-- What is known about a generic parameter. -/
inductive ParamConstraint where
  | none
  | reference
  | value
  | base (name : String)
deriving DecidableEq

/-- A type. `error` stands where a problem was already reported and keeps others from being reported. -/
inductive Ty where
  | named (name : String) (args : List Ty)
  | array (element : Ty)
  | nullable (inner : Ty)
  | param (name : String) (constraint : ParamConstraint)
  | delegate (params : List Ty) (result : Ty)
  | null
  | void
  | error

namespace Ty

instance : Inhabited Ty := ⟨.error⟩

/-! ## Equality -/

mutual

/-- Whether two types are the same. -/
def same : Ty → Ty → Bool
  | .named n as, .named m bs => n == m && sameList as bs
  | .array a, .array b => same a b
  | .nullable a, .nullable b => same a b
  | .param n c, .param m d => n == m && c == d
  | .delegate ps r, .delegate qs s => sameList ps qs && same r s
  | .null, .null => true
  | .void, .void => true
  | .error, .error => true
  | _, _ => false

/-- Whether two lists of types are the same. -/
def sameList : List Ty → List Ty → Bool
  | [], [] => true
  | a :: as, b :: bs => same a b && sameList as bs
  | _, _ => false

end

mutual

theorem same_iff : ∀ a b : Ty, same a b = true ↔ a = b
  | .named n as, b => by cases b <;> simp [same, sameList_iff as]
  | .array a, b => by cases b <;> simp [same, same_iff a]
  | .nullable a, b => by cases b <;> simp [same, same_iff a]
  | .param n c, b => by cases b <;> simp [same]
  | .delegate ps r, b => by cases b <;> simp [same, sameList_iff ps, same_iff r]
  | .null, b => by cases b <;> simp [same]
  | .void, b => by cases b <;> simp [same]
  | .error, b => by cases b <;> simp [same]

theorem sameList_iff : ∀ as bs : List Ty, sameList as bs = true ↔ as = bs
  | [], bs => by cases bs <;> simp [sameList]
  | a :: as, bs => by cases bs <;> simp [sameList, same_iff a, sameList_iff as]

end

instance : DecidableEq Ty := fun a b => decidable_of_iff _ (same_iff a b)

/-! ## Common types -/

/-- A type without arguments. -/
def simple (name : String) : Ty := .named name []

/-- The type of small numbers. -/
def int : Ty := simple "int"

/-- The type of truth values. -/
def bool : Ty := simple "bool"

/-- The type of characters. -/
def char : Ty := simple "char"

/-- The type of texts. -/
def string : Ty := simple "string"

/-- The type that every value has. -/
def object : Ty := simple "object"

/-- The nullable form of a type; nothing is nullable twice. -/
def orNull : Ty → Ty
  | .nullable inner => .nullable inner
  | .error => .error
  | t => .nullable t

/-- What is nullable in a nullable type. -/
def inner? : Ty → Option Ty
  | .nullable inner => some inner
  | _ => none

/-- The place of a number type in the order of widening. -/
def numericRank? : Ty → Option Nat
  | .named "int" [] => some 0
  | .named "long" [] => some 1
  | .named "double" [] => some 2
  | _ => none

/-- The place of a number type in the order of widening, whether it is nullable or not. -/
def liftedRank? : Ty → Option Nat
  | .nullable inner => inner.numericRank?
  | t => t.numericRank?

mutual

/-- Whether a type is or contains the error type. -/
def hasError : Ty → Bool
  | .named _ args => anyError args
  | .array element => element.hasError
  | .nullable inner => inner.hasError
  | .param _ _ => false
  | .delegate params result => anyError params || result.hasError
  | .null => false
  | .void => false
  | .error => true

/-- Whether one of several types is or contains the error type. -/
def anyError : List Ty → Bool
  | [] => false
  | t :: ts => t.hasError || anyError ts

end

/-! ## Text -/

mutual

/-- How a type is written in messages. -/
def text : Ty → String
  | .named name args => if args.isEmpty then name else name ++ "<" ++ ", ".intercalate (texts args) ++ ">"
  | .array element => element.text ++ "[]"
  | .nullable inner => inner.text ++ "?"
  | .param name _ => name
  | .delegate params result => "(" ++ ", ".intercalate (texts params) ++ ") => " ++ result.text
  | .null => "null"
  | .void => "void"
  | .error => "\x7berror\x7d"

/-- How several types are written. -/
def texts : List Ty → List String
  | [] => []
  | t :: ts => t.text :: texts ts

end

/-! ## Substitution -/

/-- Types for generic parameters, by name. -/
abbrev Substitution := List (String × Ty)

mutual

/-- Puts types in place of parameters. -/
def replace (s : Substitution) : Ty → Ty
  | .named name args => .named name (replaceAll s args)
  | .array element => .array (element.replace s)
  | .nullable inner => orNull (inner.replace s)
  | .param name constraint => (s.lookup name).getD (.param name constraint)
  | .delegate params result => .delegate (replaceAll s params) (result.replace s)
  | .null => .null
  | .void => .void
  | .error => .error

/-- Puts types in place of parameters in several types. -/
def replaceAll (s : Substitution) : List Ty → List Ty
  | [] => []
  | t :: ts => t.replace s :: replaceAll s ts

end

/-- Puts types in place of parameters; without any type to put in, nothing changes. -/
def substitute (s : Substitution) (t : Ty) : Ty :=
  if s.isEmpty then t else t.replace s

end Ty

/-- Whether values of a type are references, plain values, or values that may be missing. -/
inductive TypeCategory where
  | reference
  | value
  | nullableValue
  | void
  | unknown
deriving DecidableEq

end NavCheck
