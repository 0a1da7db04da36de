import NavCheck.Capture.Qualifier
import NavCheck.Capture.Reference
import NavCheck.Diagnostic.Basic

/-!
# Captured parameters

A primary constructor parameter with an accessibility modifier is kept in a field of its own name. The fields come before all
members, so that initializers that read them find them assigned. Every reference to a parameter after construction is an
error, whether the parameter is kept or not.
-/

namespace NavCheck

/-- The field that keeps a parameter. Its place is the name of the parameter, and its attributes are those that were meant
for the field. -/
structure CapturedField where
  name : String
  type : TypeExpr
  visibility : Visibility
  readonly : Bool
  attributes : List Attribute
  span : Span
  modifiers : List Modifier

namespace CapturedField

/-- The field of a parameter. -/
def ofParam (p : PrimaryParam) (visibility : Visibility) : CapturedField where
  name := p.name
  type := p.type
  visibility
  readonly := p.isReadonly
  attributes := (p.attributes.filter (·.target == some "field")).map fun a => { a with target := none }
  span := p.nameSpan
  modifiers := p.modifiers

/-- The member that is added for a field; the parameter initializes it. -/
def toDecl (f : CapturedField) : FieldDecl where
  attributes := f.attributes
  modifiers := f.modifiers
  type := f.type
  name := f.name
  nameSpan := f.span
  init := some (.name f.name f.span)
  origin := .captured f.name
  span := f.span

end CapturedField

/-- What becomes of a parameter. One that asks for a field but cannot have it is also there during construction only. -/
inductive CaptureDecision where
  | captured (field : CapturedField)
  | initializerOnly

namespace CaptureDecision

/-- The field of a decision. -/
def field? : CaptureDecision → Option CapturedField
  | .captured field => some field
  | .initializerOnly => none

end CaptureDecision

/-! ## Findings -/

namespace CaptureFinding

/-- The category of findings about captured parameters. -/
def category : String := "capture"

/-- A reference after construction. -/
def illegalReference (name : String) (span : Span) (captured : Bool) : Diagnostic :=
  let d := (Diagnostic.coded "CAP001" category
    s!"primary constructor parameter `{name}` is only available during initialization" (some span)).labelled
    "referenced after construction"
  if captured then d.suggesting ⟨s!"use the captured field `{name}`", some span, some s!"this.{name}"⟩
  else d.noting s!"add an accessibility modifier such as `private readonly` to `{name}` to keep it in a field"

/-- A qualifier that does not fit. -/
def invalidQualifier (message : String) (span : Span) : Diagnostic :=
  Diagnostic.coded "CAP002" category message (some span)

/-- A field whose name is taken by a member. -/
def memberConflict (name : String) (param member : Span) : Diagnostic :=
  ((invalidQualifier s!"captured parameter `{name}` conflicts with member `{name}`" param).also member
    "member declared here").noting "the captured field takes the parameter's name; rename one of them"

end CaptureFinding

namespace TypeDecl

/-- What becomes of a parameter behind parameters of the given names. -/
def decision (d : TypeDecl) (earlier : List String) (p : PrimaryParam) : CaptureDecision :=
  match p.visibility? with
  | none => .initializerOnly
  | some visibility =>
    if (d.findMember? p.name).isSome || earlier.contains p.name then .initializerOnly
    else .captured (.ofParam p visibility)

/-- What becomes of parameters behind parameters of the given names. -/
def decisionsFrom (d : TypeDecl) (earlier : List String) : List PrimaryParam → List (String × CaptureDecision)
  | [] => []
  | p :: ps => (p.name, d.decision earlier p) :: d.decisionsFrom (earlier ++ [p.name]) ps

/-- What becomes of each primary constructor parameter. -/
def decisions (d : TypeDecl) : List (String × CaptureDecision) :=
  d.decisionsFrom [] d.params

/-- The finding about a parameter whose field would have the name of a member. -/
def memberConflict? (d : TypeDecl) (p : PrimaryParam) : Option Diagnostic :=
  match p.visibility?, d.findMember? p.name with
  | some _, some member => some (CaptureFinding.memberConflict p.name p.nameSpan member.nameSpan)
  | _, _ => none

/-- The findings about the qualifiers and the name of a parameter. -/
def paramFindings (d : TypeDecl) (p : PrimaryParam) : List Diagnostic :=
  (p.qualifierProblems d.kind).map (fun problem => CaptureFinding.invalidQualifier problem.fault.message problem.span) ++
    (d.memberConflict? p).toList

end TypeDecl

/-- The fields among decisions. -/
def fieldsOf (decisions : List (String × CaptureDecision)) : List CapturedField :=
  decisions.filterMap (·.2.field?)

/-- Whether a parameter of a name is kept in a field. -/
def keepsField (decisions : List (String × CaptureDecision)) (name : String) : Bool :=
  decisions.any fun d => d.1 == name && d.2.field?.isSome

/-- A declaration with the fields of its parameters, and how it came to them. -/
structure ResolvedType where
  decl : TypeDecl
  decisions : List (String × CaptureDecision)
  uses : List ParamUse
  diagnostics : List Diagnostic

namespace ResolvedType

/-- The name of the type. -/
def name (r : ResolvedType) : String :=
  r.decl.name

/-- The fields that were added. -/
def fields (r : ResolvedType) : List CapturedField :=
  fieldsOf r.decisions

end ResolvedType

namespace TypeDecl

/-- The declaration with fields in front of its members. -/
def withFields (d : TypeDecl) (fields : List CapturedField) : TypeDecl :=
  { d with members := fields.map (fun f => .field f.toDecl) ++ d.members }

/-- Decides about the parameters of a declaration. -/
def resolve (d : TypeDecl) : ResolvedType :=
  let decisions := d.decisions
  let uses := d.paramUses
  { decl := d.withFields (fieldsOf decisions)
    decisions
    uses
    diagnostics := d.params.flatMap d.paramFindings ++
      (illegalReferences uses).map fun (name, span) =>
        CaptureFinding.illegalReference name span (keepsField decisions name) }

end TypeDecl

/-- A unit whose declarations are resolved, each by itself. -/
structure ResolvedUnit where
  types : List ResolvedType

namespace ResolvedUnit

/-- The unit with the fields added. -/
def unit (r : ResolvedUnit) : SourceUnit :=
  ⟨r.types.map (·.decl)⟩

/-- The findings about all declarations. -/
def diagnostics (r : ResolvedUnit) : List Diagnostic :=
  r.types.flatMap (·.diagnostics)

end ResolvedUnit

/-- Decides about the parameters of all declarations. -/
def SourceUnit.resolve (u : SourceUnit) : ResolvedUnit :=
  ⟨u.types.map TypeDecl.resolve⟩

end NavCheck
