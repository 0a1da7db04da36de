import NavCheck.Decl.Basic

/-!
# Qualifiers of fields

Which modifiers may stand on a declared field and on a primary constructor parameter that is to be kept in one, and which
attribute targets a parameter may have. Both kinds of fields go through the same check.
-/

namespace NavCheck

/-- Where modifiers stand. -/
inductive FieldSite where
  | declared
  | parameter
deriving DecidableEq

/-- The wording of a site. -/
def FieldSite.text : FieldSite → String
  | .declared => "a field"
  | .parameter => "a primary constructor parameter"

/-- What is wrong with a qualifier. -/
inductive QualifierFault where
  | duplicateAccess (visibility : Visibility)
  | conflictingAccess (first second : Visibility)
  | protectedInStruct
  | duplicateReadonly
  | storageOnParam (word : String)
  | duplicateStorage (word : String)
  | conflictingStorage (word earlier : String)
  | misplaced (word : String) (site : FieldSite)
  | readonlyConst
  | readonlyAlone
  | fieldTarget (written : Attribute)
  | unknownTarget (target : String)
deriving DecidableEq

/-- The wording of a fault. -/
def QualifierFault.message : QualifierFault → String
  | .duplicateAccess visibility => s!"duplicate accessibility modifier `{visibility.text}`"
  | .conflictingAccess first second =>
    s!"conflicting accessibility modifiers `{first.text}` and `{second.text}`"
  | .protectedInStruct => "`protected` is not valid on members of a struct"
  | .duplicateReadonly => "duplicate `readonly` modifier"
  | .storageOnParam word =>
    s!"`{word}` is not valid on a primary constructor parameter; captured values are per instance"
  | .duplicateStorage word => s!"duplicate `{word}` modifier"
  | .conflictingStorage word earlier => s!"`{word}` cannot be combined with `{earlier}`"
  | .misplaced word site => s!"`{word}` is not valid on {site.text}"
  | .readonlyConst => "`readonly` cannot be combined with `const`"
  | .readonlyAlone =>
    "`readonly` without an accessibility modifier does not capture the parameter; " ++
      "add one such as `private readonly`"
  | .fieldTarget written =>
    s!"attribute `{written.text}` targets a field, but the parameter is not captured"
  | .unknownTarget target =>
    s!"`{target}` is not a valid attribute target for a primary constructor parameter"

/-- A fault and its place. -/
structure QualifierProblem where
  fault : QualifierFault
  span : Span
deriving DecidableEq

/-- The modifiers of a field that count so far: the visibilities, the place of `readonly`, and the word `static` or `const`. -/
structure FieldWords where
  access : List Visibility
  readonly : Option Span
  storage : Option String
deriving DecidableEq

namespace FieldWords

/-- No modifiers. -/
def empty : FieldWords :=
  ⟨[], none, none⟩

/-- Whether two visibilities may stand together. -/
def isPair (first second : Visibility) : Bool :=
  (first == .prot && second == .internal) || (first == .internal && second == .prot)

/-- Counts an accessibility modifier; one that does not fit is left out. -/
def addAccess (w : FieldWords) (owner : TypeKind) (visibility : Visibility) : FieldWords × Option QualifierFault :=
  let keep : FieldWords × Option QualifierFault :=
    ({ w with access := w.access ++ [visibility] },
      if owner = .structType ∧ visibility = .prot then some .protectedInStruct else none)
  if visibility ∈ w.access then (w, some (.duplicateAccess visibility))
  else
    match w.access with
    | [] => keep
    | [first] => if isPair first visibility then keep else (w, some (.conflictingAccess first visibility))
    | first :: _ => (w, some (.conflictingAccess first visibility))

/-- Counts `static` or `const`; the first of them counts. -/
def addStorage (w : FieldWords) (site : FieldSite) (word : String) : FieldWords × Option QualifierFault :=
  match site, w.storage with
  | .parameter, _ => (w, some (.storageOnParam word))
  | .declared, none => ({ w with storage := some word }, none)
  | .declared, some earlier =>
    (w, some (if earlier = word then .duplicateStorage word else .conflictingStorage word earlier))

/-- Counts a modifier, and tells what is wrong with it behind those before. -/
def add (w : FieldWords) (owner : TypeKind) (site : FieldSite) (m : Modifier) : FieldWords × Option QualifierFault :=
  match m.kind with
  | .access visibility => w.addAccess owner visibility
  | .readonly =>
    match w.readonly with
    | none => ({ w with readonly := some m.span }, none)
    | some _ => (w, some .duplicateReadonly)
  | .static | .const => w.addStorage site m.text
  | .other => (w, some (.misplaced m.text site))

/-- What is wrong with modifiers that may stand each by itself. -/
def problemsTogether (w : FieldWords) (site : FieldSite) : List QualifierProblem :=
  match w.readonly with
  | none => []
  | some span =>
    (if w.storage = some "const" then [⟨.readonlyConst, span⟩] else []) ++
      (if site = .parameter ∧ w.access = [] then [⟨.readonlyAlone, span⟩] else [])

/-- What is wrong with modifiers behind those that count already. -/
def problemsFrom (w : FieldWords) (owner : TypeKind) (site : FieldSite) : List Modifier → List QualifierProblem
  | [] => w.problemsTogether site
  | m :: ms =>
    let (w, fault) := w.add owner site m
    (fault.map (⟨·, m.span⟩)).toList ++ w.problemsFrom owner site ms

end FieldWords

/-- What is wrong with the modifiers of a field of a type. -/
def modifierProblems (modifiers : List Modifier) (owner : TypeKind) (site : FieldSite) : List QualifierProblem :=
  FieldWords.empty.problemsFrom owner site modifiers

/-- What is wrong with an attribute of a primary constructor parameter: only one that is kept in a field can have attributes
for the field. -/
def Attribute.paramFault? (a : Attribute) (captured : Bool) : Option QualifierFault :=
  match a.target with
  | none => none
  | some "param" => none
  | some "field" => if captured then none else some (.fieldTarget a)
  | some other => some (.unknownTarget other)

namespace PrimaryParam

/-- What is wrong with the attributes of a parameter. -/
def attributeProblems (p : PrimaryParam) : List QualifierProblem :=
  p.attributes.filterMap fun a => (a.paramFault? p.isCaptured).map (⟨·, a.span⟩)

/-- What is wrong with the modifiers and attributes of a parameter of a type. -/
def qualifierProblems (p : PrimaryParam) (owner : TypeKind) : List QualifierProblem :=
  modifierProblems p.modifiers owner .parameter ++ p.attributeProblems

end PrimaryParam

end NavCheck
