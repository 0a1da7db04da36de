import NavCheck.Decl.Basic
import NavCheck.Noted
import NavCheck.Table.Builtin
import NavCheck.Table.Lookup

/-!
# Building the table of a unit

All types of a unit are known by name, kind and generic parameters before any signature is read, so declarations may speak of
each other in any order. Of types with the same name only the first counts. A type whose bases lead into a circle is reported
once all bases are known.
-/

namespace NavCheck

/-- A value with findings. -/
abbrev Found (α : Type) := Noted Diagnostic α

/-- Reports a fault of a declaration. -/
def TableFault.report (fault : TableFault) (span : Span) : Found Unit :=
  Noted.note (fault.finding span)

/-! ## Outlines -/

/-- What is known of a generic parameter. A constraint by a type counts by the name of that type. -/
def GenericParam.info (g : GenericParam) : GenericInfo where
  name := g.name
  constraint :=
    match g.constraint with
    | none => .none
    | some .classOnly => .reference
    | some .structOnly => .value
    | some (.type type) => .base type.name

/-- The category of the values of a kind of type. -/
def TypeKind.category : TypeKind → TypeCategory
  | .classType => .reference
  | .structType => .value

/-- What is known of a declared type before any signature is read. -/
def TypeDecl.outline (d : TypeDecl) : TypeInfo where
  name := d.name
  category := d.kind.category
  generics := d.generics.map (·.info)
  base := none
  members := []
  indexers := []
  constructor := []
  builtin := false
  span := some d.nameSpan

namespace TypeTable

/-- Adds the outlines of declarations whose names are new, and gives these declarations. -/
def addOutlines (t : TypeTable) : List TypeDecl → Found (TypeTable × List TypeDecl)
  | [] => pure (t, [])
  | d :: ds =>
    match t.find? d.name with
    | some earlier => do
      (if earlier.builtin then TableFault.builtinName d.name else .duplicateType d.name).report d.nameSpan
      t.addOutlines ds
    | none => do
      let (table, added) ← addOutlines ⟨t.types ++ [d.outline]⟩ ds
      return (table, d :: added)

/-- The generic parameters that can be named inside a declaration. -/
def genericScope (t : TypeTable) (d : TypeDecl) : List GenericInfo :=
  match t.find? d.name with
  | some info => info.generics
  | none => d.generics.map (·.info)

end TypeTable

/-! ## Signatures -/

/-- What a declaration adds to the outline of its type. -/
structure TypeSignatures where
  base : Option Ty
  members : List MemberSig
  indexers : List IndexerSig
  constructor : List ParamSig

/-- An outline with signatures. -/
def TypeInfo.withSignatures (i : TypeInfo) (s : TypeSignatures) : TypeInfo :=
  { i with base := s.base, members := s.members, indexers := s.indexers, constructor := s.constructor }

namespace TypeTable

/-- The meaning of a written type; a fault is reported and gives the error type. -/
def read (t : TypeTable) (scope : List GenericInfo) (e : TypeExpr) : Found Ty :=
  match t.resolve scope e with
  | .ok type => pure type
  | .error fault => do
    Noted.note fault.toDiagnostic
    return .error

/-- The meaning of a written type of values. -/
def readValue (t : TypeTable) (scope : List GenericInfo) (e : TypeExpr) : Found Ty := do
  match ← t.read scope e with
  | .void =>
    TableFault.voidValue.report e.span
    return .error
  | type => return type

/-- Checks that a constraint names a class. -/
def checkConstraint (t : TypeTable) (scope : List GenericInfo) (g : GenericParam) : Found Unit := do
  match g.constraint with
  | some (.type e) =>
    match ← t.read scope e with
    | .error => return
    | .named name args =>
      if t.classify (.named name args) = .reference then return
      (TableFault.badConstraint (.named name args)).report e.span
    | other => (TableFault.badConstraint other).report e.span
  | _ => return

/-- Whether a type can be a base: classes can, but not the type of texts. -/
def canBeBase (t : TypeTable) (type : Ty) : Bool :=
  match type with
  | .named _ _ => t.classify type = .reference && type ≠ .string
  | _ => false

/-- The base of a declaration. -/
def readBase (t : TypeTable) (scope : List GenericInfo) (d : TypeDecl) : Found (Option Ty) := do
  let some base := d.base | return none
  if d.kind = .structType then
    (TableFault.structBase d.name).report base.type.span
    return none
  let type ← t.read scope base.type
  if type = .error then return none
  if t.canBeBase type then return some type
  (TableFault.badBase type d.name).report base.type.span
  return none

/-- The signature of a primary constructor parameter. -/
def readPrimaryParam (t : TypeTable) (scope : List GenericInfo) (p : PrimaryParam) : Found ParamSig := do
  return ⟨p.name, ← t.readValue scope p.type, p.default.isSome⟩

/-- The signature of a parameter. -/
def readParam (t : TypeTable) (scope : List GenericInfo) (p : Param) : Found ParamSig := do
  return ⟨p.name, ← t.readValue scope p.type, p.default.isSome⟩

/-- The type of a field. That of a captured parameter was read with the parameter, so its faults are not reported again. -/
def readField (t : TypeTable) (scope : List GenericInfo) (f : FieldDecl) : Found Ty :=
  let type := t.readValue scope f.type
  if f.isCaptured then pure type.value else type

/-- The signature of an indexer. -/
def readIndexer (t : TypeTable) (scope : List GenericInfo) (i : IndexerDecl) : Found IndexerSig := do
  let params ← i.params.mapM (t.readParam scope)
  return ⟨params, ← t.readValue scope i.type, i.body.hasSetter⟩

/-- The signature of a member with a name. -/
def readMember (t : TypeTable) (scope : List GenericInfo) (owner : String) (m : Member) :
    Found (Option MemberSig) := do
  let signature (name : String) (kind : MemberKind) (type : Ty) : Option MemberSig :=
    some ⟨name, kind, type, m.isStatic, owner⟩
  match m with
  | .field f => return signature f.name (.field f.isReadonly) (← t.readField scope f)
  | .property p => return signature p.name (.property p.body.hasSetter) (← t.readValue scope p.type)
  | .method d =>
    let params ← d.params.mapM (t.readParam scope)
    return signature d.name (.method params) (← t.read scope d.returnType)
  | .indexer _ => return none

/-- Reports what is wrong with the modifiers of a field that is written out. -/
def checkModifiers (owner : TypeKind) (m : Member) : Found Unit :=
  match m with
  | .field f =>
    if f.isCaptured then pure ()
    else Noted.noteAll ((modifierProblems f.modifiers owner .declared).map fun p =>
      (TableFault.modifier p.fault).finding p.span)
  | _ => pure ()

/-- The signatures of members behind members with the given names and indexers with the given numbers of parameters. -/
def readMembers (t : TypeTable) (scope : List GenericInfo) (d : TypeDecl) (names : List String) (counts : List Nat) :
    List Member → Found (List MemberSig × List IndexerSig)
  | [] => pure ([], [])
  | m :: ms => do
    checkModifiers d.kind m
    match m with
    | .indexer i =>
      let signature ← t.readIndexer scope i
      let count := signature.params.length
      if counts.contains count then
        (TableFault.duplicateIndexer d.name count).report i.span
        t.readMembers scope d names counts ms
      else
        let (members, indexers) ← t.readMembers scope d names (count :: counts) ms
        return (members, signature :: indexers)
    | m =>
      match m.name? with
      | none => t.readMembers scope d names counts ms
      | some name =>
        if names.contains name then
          (TableFault.duplicateMember d.name name).report m.nameSpan
          t.readMembers scope d names counts ms
        else
          if name = d.name then (TableFault.memberNamedAsType name).report m.nameSpan
          let signature ← t.readMember scope d.name m
          let (members, indexers) ← t.readMembers scope d (name :: names) counts ms
          return (signature.toList ++ members, indexers)

/-- The signatures of a declaration. -/
def readSignatures (t : TypeTable) (d : TypeDecl) : Found TypeSignatures := do
  let scope := t.genericScope d
  d.generics.forM (t.checkConstraint scope)
  let base ← t.readBase scope d
  let constructor ← d.params.mapM (t.readPrimaryParam scope)
  let (members, indexers) ← t.readMembers scope d [] [] d.members
  return { base, members, indexers, constructor }

/-- The table with the signatures of the types of the given names. -/
def withSignatures (t : TypeTable) (signatures : List (String × TypeSignatures)) : TypeTable :=
  ⟨t.types.map fun info =>
    match signatures.lookup info.name with
    | some s => info.withSignatures s
    | none => info⟩

/-! ## Circles -/

/-- Whether the bases of a type of the given name come back to it, or are more than `count`, from a base on. -/
def basesCircle (t : TypeTable) (name : String) : Nat → Option Ty → Bool
  | 0, some (.named _ _) => true
  | count + 1, some (.named base _) =>
    base == name || t.basesCircle name count ((t.find? base).bind (·.base))
  | _, _ => false

/-- Reports a type whose bases lead into a circle. -/
def checkCircle (t : TypeTable) (d : TypeDecl) : Found Unit :=
  if t.basesCircle d.name (maxBaseDepth + 1) ((t.find? d.name).bind (·.base)) then
    (TableFault.circularBase d.name).report ((d.base.map (·.type.span)).getD d.nameSpan)
  else pure ()

/-- The table of a unit. -/
def build (u : SourceUnit) : Found TypeTable := do
  let (outlines, added) ← builtin.addOutlines u.types
  let signatures ← added.mapM fun d => do return (d.name, ← outlines.readSignatures d)
  let table := outlines.withSignatures signatures
  added.forM table.checkCircle
  return table

end TypeTable

end NavCheck
