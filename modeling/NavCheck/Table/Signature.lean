import NavCheck.Expr.Basic
import NavCheck.Span
import NavCheck.Ty.Basic

/-!
# Signatures

What is known about types from the outside: their members and indexers, their constructors, their generic parameters and
their bases. The signatures of a generic type speak of its parameters; arguments are put in when it is used.
-/

namespace NavCheck

/-- A parameter of a method, an indexer or a constructor. -/
structure ParamSig where
  name : String
  type : Ty
  hasDefault : Bool
deriving DecidableEq

namespace ParamSig

/-- A parameter without a default value. -/
def plain (name : String) (type : Ty) : ParamSig :=
  ⟨name, type, false⟩

/-- Puts types in place of generic parameters. -/
def substitute (s : Ty.Substitution) (p : ParamSig) : ParamSig :=
  { p with type := p.type.substitute s }

/-- The parameters of a delegate; they have made-up names. -/
def ofDelegate (types : List Ty) : List ParamSig :=
  types.mapIdx fun index type => plain s!"arg{index}" type

end ParamSig

/-- What kind of member a signature describes. -/
inductive MemberKind where
  | field (readonly : Bool)
  | property (settable : Bool)
  | method (params : List ParamSig)
deriving DecidableEq

/-- A member; the type of a method is what it gives. -/
structure MemberSig where
  name : String
  kind : MemberKind
  type : Ty
  isStatic : Bool
  owner : String
deriving DecidableEq

namespace MemberSig

/-- A property that can only be read. -/
def property (owner name : String) (type : Ty) : MemberSig :=
  ⟨name, .property false, type, false, owner⟩

/-- A method of instances. -/
def method (owner name : String) (params : List ParamSig) (result : Ty) : MemberSig :=
  ⟨name, .method params, result, false, owner⟩

/-- Whether a value can be stored to the member. -/
def isSettable (m : MemberSig) : Bool :=
  match m.kind with
  | .field readonly => !readonly
  | .property settable => settable
  | .method _ => false

/-- Puts types in place of generic parameters. -/
def substitute (s : Ty.Substitution) (m : MemberSig) : MemberSig :=
  { m with
    kind := match m.kind with
      | .method params => .method (params.map (·.substitute s))
      | kind => kind
    type := m.type.substitute s }

end MemberSig

/-- An indexer. -/
structure IndexerSig where
  params : List ParamSig
  type : Ty
  settable : Bool
deriving DecidableEq

namespace IndexerSig

/-- Puts types in place of generic parameters. -/
def substitute (s : Ty.Substitution) (i : IndexerSig) : IndexerSig :=
  { i with params := i.params.map (·.substitute s), type := i.type.substitute s }

end IndexerSig

/-- A generic parameter of a type. -/
structure GenericInfo where
  name : String
  constraint : ParamConstraint
deriving DecidableEq

/-- The parameter as a type. -/
def GenericInfo.type (g : GenericInfo) : Ty :=
  .param g.name g.constraint

/-- Values under names, as a row of pairs that is searched from the front: of several values under one name the last is found. -/
def underNames {α : Type} (names : List String) (values : List α) : List (String × α) :=
  (names.zip values).reverse

/-- All that is known about a type. -/
structure TypeInfo where
  name : String
  category : TypeCategory
  generics : List GenericInfo
  base : Option Ty
  members : List MemberSig
  indexers : List IndexerSig
  constructor : List ParamSig
  builtin : Bool
  span : Option Span
deriving DecidableEq

namespace TypeInfo

/-- A type that belongs to the language, with nothing in it. -/
def bare (name : String) (category : TypeCategory) : TypeInfo where
  name
  category
  generics := []
  base := none
  members := []
  indexers := []
  constructor := []
  builtin := true
  span := none

/-- The type as it is seen from the inside. -/
def selfType (i : TypeInfo) : Ty :=
  .named i.name (i.generics.map (·.type))

/-- The member of a name that the type itself declares. -/
def member? (i : TypeInfo) (name : String) : Option MemberSig :=
  i.members.find? (·.name == name)

/-- The arguments of a type in place of its parameters. -/
def substitution (i : TypeInfo) (args : List Ty) : Ty.Substitution :=
  underNames (i.generics.map (·.name)) args

/-- The constructor of a type with arguments. -/
def constructorWith (i : TypeInfo) (args : List Ty) : List ParamSig :=
  i.constructor.map (·.substitute (i.substitution args))

end TypeInfo

end NavCheck
