import NavCheck.Table.Lookup

/-!
# Hereditary properties of types

A property of types is hereditary when a composite type has it exactly when its parts have it, but for the nullable form, which
has it when the type has it. Putting in types that have it keeps such a property, so what is looked up in a table has it when all
signatures of the table have it, and so have the meanings of written types. The error type is left out: a property may exclude it.
-/

namespace NavCheck

/-- A property of types that is one of their parts. -/
structure Ty.Hereditary (p : Ty → Prop) : Prop where
  named {name : String} {args : List Ty} : p (.named name args) ↔ ∀ a ∈ args, p a
  array {element : Ty} : p (.array element) ↔ p element
  inner {inner : Ty} (h : p (.nullable inner)) : p inner
  orNull {type : Ty} (h : p type) : p type.orNull
  param (name : String) (constraint : ParamConstraint) : p (.param name constraint)
  delegate {params : List Ty} {result : Ty} : p (.delegate params result) ↔ (∀ q ∈ params, p q) ∧ p result
  null : p .null
  void : p .void

/-! ## The types in signatures -/

/-- The types of the parameters of a member. -/
def MemberKind.types : MemberKind → List Ty
  | .method params => params.map (·.type)
  | _ => []

/-- The types in the signature of a member. -/
def MemberSig.types (m : MemberSig) : List Ty :=
  m.type :: m.kind.types

/-- The types in the signature of an indexer. -/
def IndexerSig.types (i : IndexerSig) : List Ty :=
  i.type :: i.params.map (·.type)

/-- Substitution in a member is substitution in its types. -/
theorem MemberSig.types_substitute (s : Ty.Substitution) (m : MemberSig) :
    (m.substitute s).types = m.types.map (·.substitute s) := by
  obtain ⟨name, kind, type, isStatic, owner⟩ := m
  cases kind with
  | method params =>
    simp only [types, substitute, MemberKind.types, List.map_cons, List.map_map]
    rfl
  | _ => rfl

/-- Substitution in an indexer is substitution in its types. -/
theorem IndexerSig.types_substitute (s : Ty.Substitution) (i : IndexerSig) :
    (i.substitute s).types = i.types.map (·.substitute s) := by
  simp only [types, substitute, List.map_cons, List.map_map]
  rfl

/-- All types in what is known about a type have a property, and its values are there unless its name is written with a `?`. -/
structure TypeInfo.All (p : Ty → Prop) (i : TypeInfo) : Prop where
  category : i.category ≠ .nullableValue
  base : ∀ b ∈ i.base, p b
  members : ∀ m ∈ i.members, ∀ type ∈ m.types, p type
  indexers : ∀ x ∈ i.indexers, ∀ type ∈ x.types, p type
  constructor : ∀ s ∈ i.constructor, p s.type

/-- All types in the signatures of a table have a property. -/
def TypeTable.All (p : Ty → Prop) (t : TypeTable) : Prop :=
  ∀ name info, t.find? name = some info → info.All p

/-- The values of a type may be missing from it only if it is written with a `?`. -/
theorem TypeTable.All.isSome_inner? {p : Ty → Prop} {t : TypeTable} (h : t.All p) {type : Ty}
    (hc : t.classify type = .nullableValue) : type.inner?.isSome = true := by
  cases type with
  | nullable => rfl
  | named name args =>
    rw [classify] at hc
    cases hf : t.find? name with
    | none =>
      rw [hf] at hc
      cases hc
    | some info =>
      rw [hf] at hc
      exact absurd hc (h name info hf).category
  | param name constraint =>
    cases constraint with
    | base base =>
      rw [classify] at hc
      split at hc
      · split at hc <;> cases hc
      · cases hc
    | _ => cases hc
  | _ => cases hc

namespace Ty.Hereditary

variable {p : Ty → Prop} (hp : Ty.Hereditary p)

include hp

/-- A type without arguments has the property. -/
theorem simple (name : String) : p (.simple name) :=
  hp.named.2 (List.forall_mem_nil p)

/-- What the values of a nullable type are has the property. -/
theorem inner? {type inner : Ty} (h : p type) (hi : type.inner? = some inner) : p inner := by
  cases type <;> cases hi
  exact hp.inner h

/-! ## Substitution -/

section

variable {s : Ty.Substitution} (hs : ∀ q ∈ s, p q.2)

omit hp in
/-- What a substitution has for a name has the property. -/
theorem lookup (hs : ∀ q ∈ s, p q.2) {name : String} {type : Ty} (h : s.lookup name = some type) : p type := by
  obtain ⟨before, behind, rfl, -⟩ := List.lookup_eq_some_iff.1 h
  exact hs _ (List.mem_append_right before List.mem_cons_self)

include hs

set_option linter.unusedSectionVars false in
mutual

/-- Replacing parameters keeps the property: by induction on the type. -/
theorem replace : ∀ t : Ty, p t → p (t.replace s)
  | .named _ args, h => hp.named.2 (replaceAll args (hp.named.1 h))
  | .array element, h => hp.array.2 (replace element (hp.array.1 h))
  | .nullable inner, h => hp.orNull (replace inner (hp.inner h))
  | .param name constraint, h => by
    rw [Ty.replace]
    cases hl : s.lookup name with
    | none => exact h
    | some t => exact lookup hs hl
  | .delegate params result, h =>
    hp.delegate.2 ⟨replaceAll params (hp.delegate.1 h).1, replace result (hp.delegate.1 h).2⟩
  | .null, h => h
  | .void, h => h
  | .error, h => h

/-- Replacing parameters in a list of types keeps the property. -/
theorem replaceAll : ∀ ts : List Ty, (∀ t ∈ ts, p t) → ∀ t ∈ Ty.replaceAll s ts, p t
  | [], _ => fun _ h => nomatch h
  | t :: ts, h => List.forall_mem_cons.2
    ⟨replace t (h t List.mem_cons_self), replaceAll ts fun u hu => h u (List.mem_cons_of_mem t hu)⟩

end

/-- Substitution keeps the property. -/
theorem substitute {t : Ty} (h : p t) : p (t.substitute s) := by
  unfold Ty.substitute
  split
  · exact h
  · exact hp.replace hs t h

/-- Substitution in a list of types keeps the property. -/
theorem all_substitute {ts : List Ty} (h : ∀ t ∈ ts, p t) : ∀ t ∈ ts.map (·.substitute s), p t :=
  List.forall_mem_map.2 fun t ht => hp.substitute hs (h t ht)

end

omit hp in
/-- The substitution for type arguments with the property has the property. -/
theorem all_substitution (i : TypeInfo) {args : List Ty} (h : ∀ t ∈ args, p t) : ∀ q ∈ i.substitution args, p q.2 :=
  fun q hq => h q.2 (List.of_mem_zip (List.mem_reverse.1 hq)).2

/-! ## Looking up -/

section

variable {t : TypeTable} (h : t.All p) {type : Ty} (ht : p type) {name : String}

include h

/-- The parameters of a constructor with type arguments have the property. -/
theorem constructorWith {info : TypeInfo} (hf : t.find? name = some info) {args : List Ty} (ha : ∀ a ∈ args, p a) :
    ∀ s ∈ info.constructorWith args, p s.type :=
  List.forall_mem_map.2 fun s hs => hp.substitute (all_substitution info ha) ((h name info hf).constructor s hs)

include ht

/-- The base of a type has the property. -/
theorem baseOf? {base : Ty} (hb : t.baseOf? type = some base) : p base := by
  cases type with
  | named name args =>
    obtain ⟨info, hf, base, hbase, rfl⟩ := by simpa [TypeTable.baseOf?, Option.bind_eq_some_iff] using hb
    exact hp.substitute (all_substitution info (hp.named.1 ht)) ((h name info hf).base base hbase)
  | _ => cases hb

/-- A type and its bases have the property. -/
theorem lineage (count : Nat) : ∀ x ∈ t.lineage count type, p x := by
  induction count generalizing type with
  | zero => exact fun _ hx => nomatch hx
  | succ count ih =>
    rw [TypeTable.lineage]
    cases hb : t.baseOf? type with
    | none => exact List.forall_mem_singleton.2 ht
    | some base => exact List.forall_mem_cons.2 ⟨ht, ih (hp.baseOf? h ht hb)⟩

/-- The types of a member that a type has itself have the property. -/
theorem ownMember? {m : MemberSig} (hm : t.ownMember? name type = some m) : ∀ x ∈ m.types, p x := by
  cases type with
  | named type args =>
    obtain ⟨info, hf, found, hfound, rfl⟩ := by simpa [TypeTable.ownMember?, Option.bind_eq_some_iff] using hm
    rw [MemberSig.types_substitute]
    exact hp.all_substitute (all_substitution info (hp.named.1 ht))
      ((h type info hf).members found (List.mem_of_find?_eq_some hfound))
  | _ => cases hm

/-- The types of a member that a type has or inherits have the property. -/
theorem inheritedMember? {m : MemberSig} (hm : t.inheritedMember? type name = some m) : ∀ x ∈ m.types, p x := by
  obtain ⟨x, hx, hxm⟩ := List.exists_of_findSome?_eq_some hm
  exact hp.ownMember? h (hp.lineage h ht _ x hx) hxm

/-- The types of the indexers that a type has itself have the property. -/
theorem ownIndexers : ∀ i ∈ t.ownIndexers type, ∀ x ∈ i.types, p x := by
  cases type with
  | named name args =>
    rw [TypeTable.ownIndexers]
    split
    · rename_i info hf
      refine List.forall_mem_map.2 fun j hj => ?_
      rw [IndexerSig.types_substitute]
      exact hp.all_substitute (all_substitution info (hp.named.1 ht)) ((h name info hf).indexers j hj)
    · exact List.forall_mem_nil _
  | _ => exact List.forall_mem_nil _

/-- The types of the indexers along a row of bases have the property. -/
theorem inheritedIndexers (count : Nat) : ∀ i ∈ (t.lineage count type).flatMap t.ownIndexers, ∀ x ∈ i.types, p x := by
  intro i hi
  obtain ⟨y, hy, hi⟩ := List.mem_flatMap.1 hi
  exact hp.ownIndexers h (hp.lineage h ht count y hy) i hi

/-- The types of the indexers of a type have the property. -/
theorem indexers : ∀ i ∈ t.indexers type, ∀ x ∈ i.types, p x := by
  unfold TypeTable.indexers
  split
  · exact hp.inheritedIndexers h ht _
  · exact List.forall_mem_singleton.2 (List.forall_mem_cons.2 ⟨hp.array.1 ht, List.forall_mem_singleton.2 (hp.simple _)⟩)
  · exact hp.inheritedIndexers h (hp.simple _) _
  · exact List.forall_mem_nil _

/-- The types of the indexer for a number of indices have the property. -/
theorem indexer? {count : Nat} {i : IndexerSig} (hi : t.indexer? type count = some i) : ∀ x ∈ i.types, p x :=
  hp.indexers h ht i (List.mem_of_find?_eq_some hi)

omit h ht in
/-- The types of the members of a nullable type have the property. -/
theorem nullableMember? {inner : Ty} (hi : p inner) {m : MemberSig} (hm : TypeTable.nullableMember? inner name = some m) :
    ∀ x ∈ m.types, p x := by
  unfold TypeTable.nullableMember? at hm
  split at hm <;> cases hm
  · exact List.forall_mem_singleton.2 (hp.simple _)
  · exact List.forall_mem_singleton.2 hi
  · exact List.forall_mem_singleton.2 hi

omit hp h ht in
/-- The parameters of a delegate have the property. -/
theorem ofDelegate {params : List Ty} (hq : ∀ q ∈ params, p q) : ∀ s ∈ ParamSig.ofDelegate params, p s.type := by
  intro s hs
  obtain ⟨i, hi, rfl⟩ := List.mem_mapIdx.1 hs
  exact hq _ (List.getElem_mem hi)

/-- The types of a member apart from those of `object` have the property. -/
theorem specificMember? {m : MemberSig} (hm : t.specificMember? name type = some m) : ∀ x ∈ m.types, p x := by
  unfold TypeTable.specificMember? at hm
  split at hm
  · exact hp.inheritedMember? h ht hm
  · split at hm <;> cases hm
    exact List.forall_mem_singleton.2 (hp.simple _)
  · exact hp.nullableMember? (hp.inner ht) hm
  · exact hp.inheritedMember? h (hp.simple _) hm
  · split at hm <;> cases hm
    obtain ⟨hq, hr⟩ := hp.delegate.1 ht
    exact List.forall_mem_cons.2 ⟨hr, List.forall_mem_map.2 (ofDelegate hq)⟩
  · cases hm

/-- What is looked up on a type that has the property has it. -/
theorem member? {name : MemberName} {m : MemberSig} (hm : t.member? type name = some m) : ∀ x ∈ m.types, p x := by
  cases name with
  | plain name =>
    rcases Option.or_eq_some_iff.1 hm with hm | ⟨-, hm⟩
    · exact hp.specificMember? h ht hm
    · split at hm
      · exact hp.inheritedMember? h (hp.simple _) hm
      · cases hm
  | keyed name =>
    obtain ⟨i, hi, rfl⟩ := Option.map_eq_some_iff.1 hm
    exact List.forall_mem_singleton.2 (hp.indexers h ht i (List.mem_of_find?_eq_some hi) _ List.mem_cons_self)

end

/-! ## Written types -/

/-- A suffix keeps the property. -/
theorem suffixed (t : TypeTable) {type : Ty} (h : p type) (suffix : TypeSuffix) : p (t.suffixed type suffix) := by
  cases suffix with
  | array => exact hp.array.2 h
  | nullable =>
    rw [TypeTable.suffixed]
    split
    · exact h
    · exact hp.orNull h

/-- Suffixes keep the property. -/
theorem foldl_suffixed (t : TypeTable) (suffixes : List TypeSuffix) {type : Ty} (h : p type) :
    p (suffixes.foldl t.suffixed type) := by
  induction suffixes generalizing type with
  | nil => exact h
  | cons suffix suffixes ih => exact ih (hp.suffixed t h suffix)

set_option linter.unusedSectionVars false in
mutual

/-- What a written type means has the property. -/
theorem resolve (t : TypeTable) (scope : List GenericInfo) :
    ∀ (e : TypeExpr) {type : Ty}, t.resolve scope e = .ok type → p type
  | ⟨name, args, suffixes, span⟩, type, h => by
    rw [TypeTable.resolve] at h
    split at h
    · split at h <;> cases h
      exact hp.foldl_suffixed t suffixes (hp.param _ _)
    · split at h
      · cases h
        exact hp.foldl_suffixed t suffixes hp.void
      · split at h
        · cases h
        · split at h
          · cases h
          · cases ht : t.resolveAll scope args with
            | error fault =>
              rw [ht] at h
              cases h
            | ok types =>
              rw [ht] at h
              cases h
              exact hp.foldl_suffixed t suffixes (hp.named.2 (resolveAll t scope args ht))

/-- Types that are written have the property. -/
theorem resolveAll (t : TypeTable) (scope : List GenericInfo) :
    ∀ (es : List TypeExpr) {types : List Ty}, t.resolveAll scope es = .ok types → ∀ type ∈ types, p type
  | [], types, h => by
    cases h
    exact List.forall_mem_nil _
  | e :: es, types, h => by
    rw [TypeTable.resolveAll] at h
    cases ht : t.resolve scope e with
    | error fault =>
      rw [ht] at h
      cases h
    | ok type =>
      cases hr : t.resolveAll scope es with
      | error fault =>
        rw [ht, hr] at h
        cases h
      | ok rest =>
        rw [ht, hr] at h
        cases h
        exact List.forall_mem_cons.2 ⟨resolve t scope e ht, resolveAll t scope es hr⟩

end

end Ty.Hereditary

end NavCheck
