import NavCheck.Table.Basic

/-!
# Members and bases

A type has its own members and those of its bases, the nearest first, and those of `object`. What a generic type declares is
seen with its arguments put in, from base to base.
-/

namespace NavCheck

namespace TypeTable

/-- How many types of a row of bases are looked at. -/
def maxBaseDepth : Nat := 64

/-- The base of a type, with the arguments of the type put in. -/
def baseOf? (t : TypeTable) : Ty → Option Ty
  | .named name args => do
    let info ← t.find? name
    let base ← info.base
    return base.substitute (info.substitution args)
  | _ => none

/-- A type and its bases in order, `count` types at most. -/
def lineage (t : TypeTable) : Nat → Ty → List Ty
  | 0, _ => []
  | count + 1, type =>
    match t.baseOf? type with
    | some base => type :: t.lineage count base
    | none => [type]

/-- The member of a name that a type itself declares. -/
def ownMember? (t : TypeTable) (name : String) : Ty → Option MemberSig
  | .named type args => do
    let info ← t.find? type
    let found ← info.member? name
    return found.substitute (info.substitution args)
  | _ => none

/-- The member of a name that a type or one of its bases declares. -/
def inheritedMember? (t : TypeTable) (type : Ty) (name : String) : Option MemberSig :=
  (t.lineage maxBaseDepth type).findSome? (t.ownMember? name)

/-- The members of a nullable type. -/
def nullableMember? (inner : Ty) (name : String) : Option MemberSig :=
  match name with
  | "HasValue" => some (.property "Nullable" name .bool)
  | "Value" => some (.property "Nullable" name inner)
  | "GetValueOrDefault" => some (.method "Nullable" name [] inner)
  | _ => none

/-- The member of a name that a type has apart from those of `object`. -/
def specificMember? (t : TypeTable) (name : String) : Ty → Option MemberSig
  | .named type args => t.inheritedMember? (.named type args) name
  | .array _ => if name = "Length" then some (.property "Array" name .int) else none
  | .nullable inner => nullableMember? inner name
  | .param _ (.base base) => t.inheritedMember? (.simple base) name
  | .delegate params result =>
    if name = "Invoke" then some (.method "Delegate" name (ParamSig.ofDelegate params) result) else none
  | _ => none

/-- Whether values of a type have the members of `object`. -/
def hasObjectMembers : Ty → Bool
  | .null | .void | .error => false
  | _ => true

/-- The member of a plain name. -/
def plainMember? (t : TypeTable) (type : Ty) (name : String) : Option MemberSig :=
  (t.specificMember? name type).or <|
    if hasObjectMembers type then t.inheritedMember? .object name else none

/-- The indexers that a type itself declares. -/
def ownIndexers (t : TypeTable) : Ty → List IndexerSig
  | .named type args =>
    match t.find? type with
    | some info => info.indexers.map (·.substitute (info.substitution args))
    | none => []
  | _ => []

/-- The indexers of a type, those of the nearest type first. -/
def indexers (t : TypeTable) : Ty → List IndexerSig
  | .named type args => (t.lineage maxBaseDepth (.named type args)).flatMap t.ownIndexers
  | .array element => [⟨[.plain "index" .int], element, true⟩]
  | .param _ (.base base) => (t.lineage maxBaseDepth (.simple base)).flatMap t.ownIndexers
  | _ => []

/-- The indexer with a number of parameters. -/
def indexer? (t : TypeTable) (type : Ty) (count : Nat) : Option IndexerSig :=
  (t.indexers type).find? (·.params.length == count)

/-- Whether an indexer takes one text. -/
def takesKey (i : IndexerSig) : Bool :=
  match i.params with
  | [param] => param.type = .string
  | _ => false

/-- The member of a name. A keyed name reads the indexer that takes one text. -/
def member? (t : TypeTable) (type : Ty) : MemberName → Option MemberSig
  | .plain name => t.plainMember? type name
  | .keyed name =>
    ((t.indexers type).find? takesKey).map fun i =>
      ⟨(MemberName.keyed name).text, .property i.settable, i.type, false, type.text⟩

end TypeTable

end NavCheck
