import NavCheck.Decl.Modifier
import NavCheck.Decl.Statement

/-!
# Declarations

Classes and structs with their primary constructor parameters, their base and their members.
-/

namespace NavCheck

/-- Classes are referred to, structs are values. -/
inductive TypeKind where
  | classType
  | structType
deriving DecidableEq

/-- The keyword of a kind of type. -/
def TypeKind.keyword : TypeKind → String
  | .classType => "class"
  | .structType => "struct"

/-- What a `where` clause asks of a generic parameter. -/
inductive GenericConstraint where
  | classOnly
  | structOnly
  | type (type : TypeExpr)

/-- A generic parameter. -/
structure GenericParam where
  name : String
  span : Span
  constraint : Option GenericConstraint

/-- The base of a type, perhaps with arguments for its constructor. -/
structure BaseSpec where
  type : TypeExpr
  args : Option (List Expr)
  span : Span

/-- A primary constructor parameter. -/
structure PrimaryParam where
  attributes : List Attribute
  modifiers : List Modifier
  type : TypeExpr
  name : String
  nameSpan : Span
  default : Option Expr
  span : Span

namespace PrimaryParam

/-- The accessibility written in front of a parameter. -/
def visibility? (p : PrimaryParam) : Option Visibility :=
  visibilityOf p.modifiers

/-- A parameter asks to be kept in a field exactly when it has an accessibility modifier. -/
def isCaptured (p : PrimaryParam) : Bool :=
  p.modifiers.any (·.access?.isSome)

/-- Whether the parameter is marked `readonly`. -/
def isReadonly (p : PrimaryParam) : Bool :=
  hasModifier p.modifiers .readonly

end PrimaryParam

/-- A parameter of a method or an indexer. -/
structure Param where
  type : TypeExpr
  name : String
  nameSpan : Span
  default : Option Expr
  span : Span

/-- Where a field comes from: it is written out, or it keeps a primary constructor parameter. -/
inductive FieldOrigin where
  | declared
  | captured (parameter : String)
deriving DecidableEq

/-- A field. -/
structure FieldDecl where
  attributes : List Attribute
  modifiers : List Modifier
  type : TypeExpr
  name : String
  nameSpan : Span
  init : Option Expr
  origin : FieldOrigin
  span : Span

namespace FieldDecl

/-- Whether the field keeps a primary constructor parameter. -/
def isCaptured (f : FieldDecl) : Bool :=
  f.origin != .declared

/-- Whether the field is marked `readonly`. -/
def isReadonly (f : FieldDecl) : Bool :=
  hasModifier f.modifiers .readonly

/-- The visibility of a field; without a modifier it is private. -/
def visibility (f : FieldDecl) : Visibility :=
  (visibilityOf f.modifiers).getD .priv

end FieldDecl

/-- The two kinds of accessors. -/
inductive AccessorKind where
  | get
  | set
deriving DecidableEq

/-- An accessor; without a body it is implemented by the storage of the property. -/
structure Accessor where
  kind : AccessorKind
  body : Option Body
  span : Span

/-- What a property or an indexer does: give one expression, or what its accessors say. -/
inductive PropertyBody where
  | expr (value : Expr)
  | accessors (accessors : List Accessor)

namespace PropertyBody

/-- Whether there is a `set` accessor. -/
def hasSetter : PropertyBody → Bool
  | .expr _ => false
  | .accessors list => list.any (·.kind == .set)

/-- Whether no accessor has a body. -/
def isAuto : PropertyBody → Bool
  | .expr _ => false
  | .accessors list => list.all (·.body.isNone)

end PropertyBody

/-- A property. -/
structure PropertyDecl where
  attributes : List Attribute
  modifiers : List Modifier
  type : TypeExpr
  name : String
  nameSpan : Span
  body : PropertyBody
  init : Option Expr
  span : Span

/-- A method. -/
structure MethodDecl where
  attributes : List Attribute
  modifiers : List Modifier
  returnType : TypeExpr
  name : String
  nameSpan : Span
  params : List Param
  body : Body
  span : Span

/-- An indexer; it has no name. -/
structure IndexerDecl where
  attributes : List Attribute
  modifiers : List Modifier
  type : TypeExpr
  params : List Param
  body : PropertyBody
  span : Span

/-- A member of a type. -/
inductive Member where
  | field (decl : FieldDecl)
  | property (decl : PropertyDecl)
  | method (decl : MethodDecl)
  | indexer (decl : IndexerDecl)

namespace Member

/-- The name of a member; indexers have none. -/
def name? : Member → Option String
  | .field f => some f.name
  | .property p => some p.name
  | .method m => some m.name
  | .indexer _ => none

/-- The modifiers of a member. -/
def modifiers : Member → List Modifier
  | .field f => f.modifiers
  | .property p => p.modifiers
  | .method m => m.modifiers
  | .indexer i => i.modifiers

/-- A member that belongs to the type and not to its instances. -/
def isStatic (m : Member) : Bool :=
  hasModifier m.modifiers .static || hasModifier m.modifiers .const

/-- The place of a member. -/
def span : Member → Span
  | .field f => f.span
  | .property p => p.span
  | .method m => m.span
  | .indexer i => i.span

/-- The place of the name of a member; that of an indexer is its whole place. -/
def nameSpan : Member → Span
  | .field f => f.nameSpan
  | .property p => p.nameSpan
  | .method m => m.nameSpan
  | .indexer i => i.span

/-- The field that a member is, if it keeps a primary constructor parameter. -/
def capturedField? : Member → Option FieldDecl
  | .field f => if f.isCaptured then some f else none
  | _ => none

end Member

/-- A class or a struct. The header may have no parameter list at all, which differs from an empty one in writing only. -/
structure TypeDecl where
  modifiers : List Modifier
  kind : TypeKind
  name : String
  nameSpan : Span
  generics : List GenericParam
  primary : Option (List PrimaryParam)
  base : Option BaseSpec
  members : List Member
  span : Span

namespace TypeDecl

/-- The primary constructor parameters. -/
def params (d : TypeDecl) : List PrimaryParam :=
  d.primary.getD []

/-- The arguments for the constructor of the base. -/
def baseArgs? (d : TypeDecl) : Option (List Expr) :=
  d.base.bind (·.args)

/-- The first member of a name. -/
def findMember? (d : TypeDecl) (name : String) : Option Member :=
  d.members.find? (·.name? == some name)

/-- The fields that keep primary constructor parameters. -/
def capturedFields (d : TypeDecl) : List FieldDecl :=
  d.members.filterMap Member.capturedField?

end TypeDecl

/-- The types of a source file, in the order they are written. -/
structure SourceUnit where
  types : List TypeDecl

namespace SourceUnit

/-- The first type of a name. -/
def findType? (u : SourceUnit) (name : String) : Option TypeDecl :=
  u.types.find? (·.name == name)

end SourceUnit

end NavCheck
