import NavCheck.Span

/-!
# Modifiers and attributes

The words in front of a declaration, kept as they are written. Whether a list of them makes sense is decided elsewhere; here
stands only what a single word means and what accessibility a list spells.
-/

namespace NavCheck

/-- From where a member can be used. -/
inductive Visibility where
  | pub
  | internal
  | prot
  | protInternal
  | priv
deriving DecidableEq

namespace Visibility

/-- How a visibility is written. -/
def text : Visibility → String
  | .pub => "public"
  | .internal => "internal"
  | .prot => "protected"
  | .protInternal => "protected internal"
  | .priv => "private"

/-- The visibility that a single word spells. -/
def ofWord? (s : String) : Option Visibility :=
  match s with
  | "public" => some .pub
  | "internal" => some .internal
  | "protected" => some .prot
  | "private" => some .priv
  | _ => none

end Visibility

/-- What a modifier means. -/
inductive ModifierKind where
  | access (visibility : Visibility)
  | readonly
  | static
  | const
  | other
deriving DecidableEq

/-- A modifier as written. -/
structure Modifier where
  text : String
  span : Span
deriving DecidableEq

namespace Modifier

/-- The meaning of a modifier. -/
def kind (m : Modifier) : ModifierKind :=
  match Visibility.ofWord? m.text with
  | some visibility => .access visibility
  | none =>
    match m.text with
    | "readonly" => .readonly
    | "static" => .static
    | "const" => .const
    | _ => .other

/-- The visibility that a modifier spells. -/
def access? (m : Modifier) : Option Visibility :=
  match m.kind with
  | .access visibility => some visibility
  | _ => none

end Modifier

/-- Whether a list holds a modifier of a kind. -/
def hasModifier (modifiers : List Modifier) (kind : ModifierKind) : Bool :=
  modifiers.any (·.kind == kind)

/-- The visibility that a list of modifiers spells: `protected` and `internal` together are one, and otherwise the first
counts. -/
def visibilityOf (modifiers : List Modifier) : Option Visibility :=
  match (modifiers.filterMap Modifier.access?).eraseDups with
  | [] => none
  | [.prot, .internal] => some .protInternal
  | [.internal, .prot] => some .protInternal
  | first :: _ => some first

/-- An attribute, perhaps with the target that it is meant for. -/
structure Attribute where
  target : Option String
  name : String
  span : Span
deriving DecidableEq

/-- How an attribute is written. -/
def Attribute.text (a : Attribute) : String :=
  match a.target with
  | some target => s!"[{target}: {a.name}]"
  | none => s!"[{a.name}]"

end NavCheck
