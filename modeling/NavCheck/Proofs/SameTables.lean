import NavCheck.Proofs.Outlines
import NavCheck.Table.Assignable
import NavCheck.Typing.ChainResult
import NavCheck.Typing.Operator

/-!
# Tables that know the same types

Nothing that is asked of a table depends on more than the types that it finds by their names. So tables that find the same types
give written types the same meaning, have the same members, take the same values, and read the same signatures with the same
findings.
-/

namespace NavCheck

/-- Tables that find the same types by the same names, perhaps held in another order. -/
def TypeTable.SameTypes (t' t : TypeTable) : Prop :=
  ∀ name, t'.find? name = t.find? name

namespace TypeTable.SameTypes

variable {t' t : TypeTable}

variable (h : t'.SameTypes t)

include h

/-! ## Meanings of written types -/

/-- A type has values of the same kind. -/
theorem classify_eq : ∀ type : Ty, t'.classify type = t.classify type
  | .named name _ => by rw [TypeTable.classify, TypeTable.classify, h name]
  | .nullable inner => by rw [TypeTable.classify, TypeTable.classify, classify_eq inner]
  | .param _ (.base base) => by rw [TypeTable.classify, TypeTable.classify, h base]
  | .array _ | .param _ .none | .param _ .reference | .param _ .value | .delegate _ _ | .null | .void | .error => rfl

/-- The same for all types. -/
theorem classify : t'.classify = t.classify :=
  funext h.classify_eq

/-- A suffix makes the same of a type. -/
theorem suffixed : t'.suffixed = t.suffixed := by
  funext type suffix
  cases suffix with
  | array => rfl
  | nullable => rw [TypeTable.suffixed, TypeTable.suffixed, h.classify]

omit h in
mutual

/-- A written type means the same. -/
theorem resolve_eq (h : t'.SameTypes t) (scope : List GenericInfo) : ∀ e : TypeExpr, t'.resolve scope e = t.resolve scope e
  | ⟨name, args, suffixes, span⟩ => by
    rw [TypeTable.resolve, TypeTable.resolve, h name, h.suffixed, resolveAll_eq h scope args]

/-- Written types in a row mean the same. -/
theorem resolveAll_eq (h : t'.SameTypes t) (scope : List GenericInfo) :
    ∀ es : List TypeExpr, t'.resolveAll scope es = t.resolveAll scope es
  | [] => rfl
  | e :: es => by rw [TypeTable.resolveAll, TypeTable.resolveAll, resolve_eq h scope e, resolveAll_eq h scope es]

end

/-- All written types mean the same. -/
theorem resolve : t'.resolve = t.resolve :=
  funext fun scope => funext (h.resolve_eq scope)

/-- The same for those that may be wrong. -/
theorem resolveOrError : t'.resolveOrError = t.resolveOrError := by
  funext scope e
  rw [TypeTable.resolveOrError, TypeTable.resolveOrError, h.resolve]

/-! ## Members and bases -/

/-- Every type has the same base. -/
theorem baseOf? : t'.baseOf? = t.baseOf? := by
  funext type
  cases type with
  | named name args => rw [TypeTable.baseOf?, TypeTable.baseOf?, h name]
  | _ => rfl

/-- Every type has the same row of bases. -/
theorem lineage : t'.lineage = t.lineage := by
  funext count type
  induction count generalizing type with
  | zero => rfl
  | succ count ih => simp only [TypeTable.lineage, h.baseOf?, ih]

/-- Every type has the same members of its own. -/
theorem ownMember? : t'.ownMember? = t.ownMember? := by
  funext name type
  cases type with
  | named type args => rw [TypeTable.ownMember?, TypeTable.ownMember?, h type]
  | _ => rfl

/-- The same members are inherited. -/
theorem inheritedMember? : t'.inheritedMember? = t.inheritedMember? := by
  funext type name
  rw [TypeTable.inheritedMember?, TypeTable.inheritedMember?, h.lineage, h.ownMember?]

/-- The members that come with the kind of a type are the same. -/
theorem specificMember? : t'.specificMember? = t.specificMember? := by
  funext name type
  unfold TypeTable.specificMember?
  rw [h.inheritedMember?]

/-- Members are found alike by their names. -/
theorem plainMember? : t'.plainMember? = t.plainMember? := by
  funext type name
  rw [TypeTable.plainMember?, TypeTable.plainMember?, h.specificMember?, h.inheritedMember?]

/-- Every type has the same indexers of its own. -/
theorem ownIndexers : t'.ownIndexers = t.ownIndexers := by
  funext type
  cases type with
  | named type args => rw [TypeTable.ownIndexers, TypeTable.ownIndexers, h type]
  | _ => rfl

/-- The same indexers are inherited. -/
theorem indexers : t'.indexers = t.indexers := by
  funext type
  unfold TypeTable.indexers
  rw [h.lineage, h.ownIndexers]

/-- Indexers are found alike by the number of their indices. -/
theorem indexer? : t'.indexer? = t.indexer? := by
  funext type count
  rw [TypeTable.indexer?, TypeTable.indexer?, h.indexers]

/-- Members are found alike, by names and by keys. -/
theorem member? : t'.member? = t.member? := by
  funext type name
  unfold TypeTable.member?
  rw [h.plainMember?, h.indexers]

/-! ## Assignability and operators -/

/-- The same types accept `null`. -/
theorem acceptsNull : t'.acceptsNull = t.acceptsNull := by
  funext target
  rw [TypeTable.acceptsNull, TypeTable.acceptsNull, h.classify]

/-- A named type can be assigned where it could be. -/
theorem namedAssignable : t'.namedAssignable = t.namedAssignable := by
  funext source target
  simp only [TypeTable.namedAssignable, TypeTable.derives, h.lineage]

/-- A type can be assigned where it could be. -/
theorem assignable : t'.assignable = t.assignable :=
  assignable_congr h.acceptsNull h.namedAssignable

/-- Chains on a type give the same. -/
theorem chainResult : t'.chainResult = t.chainResult := by
  funext type
  rw [TypeTable.chainResult, TypeTable.chainResult, h.classify]

/-- The same types can meet `null` in a comparison. -/
theorem meetsNull : t'.meetsNull = t.meetsNull := by
  funext other
  rw [TypeTable.meetsNull, TypeTable.meetsNull, h.classify]

/-- The same types can be compared. -/
theorem equatable : t'.equatable = t.equatable := by
  funext left right
  simp only [TypeTable.equatable, h.meetsNull, h.assignable]

/-- A type beside `null` has the same common type with it. -/
theorem besideNull? : t'.besideNull? = t.besideNull? := by
  funext other
  rw [TypeTable.besideNull?, TypeTable.besideNull?, h.classify]

/-- Two types have the same common type. -/
theorem unify? : t'.unify? = t.unify? := by
  funext left right
  simp only [TypeTable.unify?, h.besideNull?, h.assignable]

/-- A `??` gives the same type. -/
theorem coalesce? : t'.coalesce? = t.coalesce? := by
  funext left right
  simp only [TypeTable.coalesce?, h.classify, h.assignable]

/-- An operator gives the same type. -/
theorem binary? : t'.binary? = t.binary? := by
  funext op left right
  simp only [TypeTable.binary?, h.equatable]

/-! ## Signatures -/

/-- A declaration has the same generic parameters in scope. -/
theorem genericScope : t'.genericScope = t.genericScope := by
  funext d
  rw [TypeTable.genericScope, TypeTable.genericScope, h d.name]

/-- A written type is read alike. -/
theorem read : t'.read = t.read := by
  funext scope e
  rw [TypeTable.read, TypeTable.read, h.resolve]

/-- So is a written type that must have values. -/
theorem readValue : t'.readValue = t.readValue := by
  funext scope e
  rw [TypeTable.readValue, TypeTable.readValue, h.read]

/-- The constraint of a generic parameter is checked alike. -/
theorem checkConstraint : t'.checkConstraint = t.checkConstraint := by
  funext scope g
  simp only [TypeTable.checkConstraint, h.read, h.classify]

/-- The same types can be bases. -/
theorem canBeBase : t'.canBeBase = t.canBeBase := by
  funext type
  simp only [TypeTable.canBeBase, h.classify]

/-- The base of a declaration is read alike. -/
theorem readBase : t'.readBase = t.readBase := by
  funext scope d
  simp only [TypeTable.readBase, h.read, h.canBeBase]

/-- A parameter of a primary constructor is read alike. -/
theorem readPrimaryParam : t'.readPrimaryParam = t.readPrimaryParam := by
  funext scope p
  rw [TypeTable.readPrimaryParam, TypeTable.readPrimaryParam, h.readValue]

/-- A parameter is read alike. -/
theorem readParam : t'.readParam = t.readParam := by
  funext scope p
  rw [TypeTable.readParam, TypeTable.readParam, h.readValue]

/-- A field is read alike. -/
theorem readField : t'.readField = t.readField := by
  funext scope f
  simp only [TypeTable.readField, h.readValue]

/-- An indexer is read alike. -/
theorem readIndexer : t'.readIndexer = t.readIndexer := by
  funext scope i
  rw [TypeTable.readIndexer, TypeTable.readIndexer, h.readParam, h.readValue]

/-- A member is read alike. -/
theorem readMember : t'.readMember = t.readMember := by
  funext scope owner m
  simp only [TypeTable.readMember, h.readField, h.readValue, h.readParam, h.read]

/-- The members of a declaration are read alike. -/
theorem readMembers : t'.readMembers = t.readMembers := by
  funext scope d names counts list
  induction list generalizing names counts with
  | nil => rfl
  | cons m ms ih => simp only [TypeTable.readMembers, h.readIndexer, h.readMember, ih]

/-- The signatures of a declaration are read alike. -/
theorem readSignatures : t'.readSignatures = t.readSignatures := by
  funext d
  simp only [TypeTable.readSignatures, h.genericScope, h.checkConstraint, h.readBase, h.readPrimaryParam, h.readMembers]

/-- Signatures that are found alike by their names make the same types of the same ones. -/
theorem withSignatures {signatures' signatures : List (String × TypeSignatures)}
    (hs : ∀ name, signatures'.lookup name = signatures.lookup name) :
    (t'.withSignatures signatures').SameTypes (t.withSignatures signatures) := by
  intro name
  rw [find?_withSignatures, find?_withSignatures, h name, hs name]

/-! ## Circles -/

/-- The bases of a type run in a circle or not as before. -/
theorem basesCircle : t'.basesCircle = t.basesCircle := by
  funext name count base
  fun_induction t.basesCircle name count base with
  | case1 => rfl
  | case2 count base args ih => rw [TypeTable.basesCircle, h base, ih]
  | case3 count base hz hs => rw [TypeTable.basesCircle] <;> assumption

/-- A circle of bases is reported for the same declarations. -/
theorem checkCircle : t'.checkCircle = t.checkCircle := by
  funext d
  rw [TypeTable.checkCircle, TypeTable.checkCircle, h.basesCircle, h d.name]

end TypeTable.SameTypes

end NavCheck
