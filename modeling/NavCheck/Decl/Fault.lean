import NavCheck.Expr.Fault

/-!
# Faults of declarations

What can be wrong with the form of a declaration. Reading goes on behind a fault, so one text may have many.
-/

namespace NavCheck

/-- What a missing name was to name. -/
inductive DeclName where
  | type
  | attribute
  | generic
  | constrained
  | param
  | member
  | local
deriving DecidableEq

/-- The wording of a missing name. -/
def DeclName.text : DeclName → String
  | .type => "expected type name"
  | .attribute => "expected attribute name"
  | .generic => "expected generic parameter name"
  | .constrained => "expected generic parameter name after `where`"
  | .param => "expected parameter name"
  | .member => "expected member name"
  | .local => "expected local name"

/-- What a missing type was for. -/
inductive TypePlace where
  | primaryParam
  | base
  | constraint
  | member
  | param
  | local
deriving DecidableEq

/-- The wording of the place of a missing type. -/
def TypePlace.text : TypePlace → String
  | .primaryParam => "for primary constructor parameter"
  | .base => "after `:`"
  | .constraint => "as generic constraint"
  | .member => "for member declaration"
  | .param => "for parameter"
  | .local => "for local"

/-- What is wrong with the form of a declaration. Where a fault carries a lexeme it is that of the token found instead. -/
inductive DeclFault where
  | noDeclaration (found : String)
  | noName (what : DeclName) (found : Option String)
  | noMark (mark : Punct) (found : Option String)
  | noType (place : TypePlace) (found : Option String)
  | duplicateGeneric (name : String)
  | unclosedGenerics
  | duplicateParam (name : String)
  | constrainedTwice (name : String)
  | unknownGeneric (name : String)
  | emptyIndexer
  | noBody
  | noAccessor (found : Option String)
  | duplicateAccessor
  | untypedLocal (name : String)
  | expr (fault : ExprFault)

/-- The wording of a fault. -/
def DeclFault.message : DeclFault → String
  | .noDeclaration found => s!"expected `class` or `struct` declaration, found `{found}`"
  | .noName what found => withFound what.text found
  | .noMark mark (some lexeme) => s!"expected `{mark.char}`, found `{lexeme}`"
  | .noMark mark none => s!"expected `{mark.char}` before end of input"
  | .noType place found => withFound s!"expected type {place.text}" found
  | .duplicateGeneric name => s!"duplicate generic parameter `{name}`"
  | .unclosedGenerics => "expected `>` to close generic parameter list"
  | .duplicateParam name => s!"duplicate parameter `{name}`"
  | .constrainedTwice name => s!"generic parameter `{name}` already has a constraint"
  | .unknownGeneric name => s!"`{name}` is not a generic parameter of this type"
  | .emptyIndexer => "indexers must declare at least one parameter"
  | .noBody => "expected `=>` or `\x7b` to start a body"
  | .noAccessor found => withFound "expected `get` or `set` accessor" found
  | .duplicateAccessor => "duplicate accessor"
  | .untypedLocal name => s!"`var {name}` needs an initializer to infer its type"
  | .expr fault => fault.message

end NavCheck
