import NavCheck.Decl.Parser
import NavCheck.Proofs.ClosedTables
import NavCheck.Proofs.Outcomes
import NavCheck.Text.Digest

/-!
# Closed units

The table of every unit is closed: signatures are read in the scope of their declaration. So a member or an indexer that is
looked up on a written type mentions the parameters of the scope that the type is written in, or else the type is a parameter
that has to be of a generic class.
-/

namespace NavCheck

structure TypeSignatures.Closed (t : TypeTable) (gs : List GenericInfo) (s : TypeSignatures) : Prop where
  base : ∀ b ∈ s.base, t.Instance b ∧ b.Over gs
  members : ∀ m ∈ s.members, ∀ type ∈ m.types, type.Over gs
  indexers : ∀ x ∈ s.indexers, ∀ type ∈ x.types, type.Over gs
  constructor : ∀ p ∈ s.constructor, p.type.Over gs

namespace TypeTable

/-! ## Reading signatures -/

section

variable (t : TypeTable) (scope : List GenericInfo)

theorem over_resolveOrError (e : TypeExpr) : (t.resolveOrError scope e).Over scope := by
  unfold resolveOrError
  cases h : t.resolve scope e with
  | ok type => exact over_resolve e h
  | error fault => exact .error

theorem over_readValue (e : TypeExpr) : (t.readValue scope e).value.Over scope := by
  unfold readValue
  rw [Noted.value_bind, value_read]
  split
  · exact .error
  · exact t.over_resolveOrError scope e

theorem over_readField (f : FieldDecl) : (t.readField scope f).value.Over scope := by
  unfold readField
  dsimp only
  split <;> exact t.over_readValue scope f.type

/-- A base is a type of the table. -/
theorem closed_readBase (d : TypeDecl) : ∀ b ∈ (t.readBase scope d).value, t.Instance b ∧ b.Over scope := by
  have none : ∀ b ∈ (Option.none : Option Ty), t.Instance b ∧ b.Over scope := fun _ hb => nomatch hb
  unfold readBase
  split
  · rename_i base _
    split
    · exact none
    rw [Noted.value_bind, value_read]
    split
    · exact none
    · rename_i hne
      split
      · rename_i hb
        intro b hm
        cases hm
        unfold resolveOrError at hb hne ⊢
        cases h : t.resolve scope base.type with
        | error fault =>
          rw [h] at hne
          exact absurd rfl hne
        | ok type =>
          rw [h] at hb
          dsimp only at hb ⊢
          refine ⟨?_, over_resolve _ h⟩
          cases type with
          | named name args => exact instance_of_resolve h
          | _ => cases hb
      · exact none
  · exact none

theorem over_readParams (params : List Param) : ∀ type ∈ (params.mapM (t.readParam scope)).value.map (·.type), type.Over scope := by
  rw [Noted.value_mapM, List.map_map]
  exact List.forall_mem_map.2 fun p _ => t.over_readValue scope p.type

theorem over_readIndexer (i : IndexerDecl) : ∀ type ∈ (t.readIndexer scope i).value.types, type.Over scope :=
  List.forall_mem_cons.2 ⟨t.over_readValue scope i.type, t.over_readParams scope i.params⟩

theorem over_readMember (owner : String) (m : Member) :
    ∀ s ∈ (t.readMember scope owner m).value, ∀ type ∈ s.types, type.Over scope := by
  unfold readMember
  cases m with
  | field f => exact fun s hs => Option.some.inj hs ▸ List.forall_mem_singleton.2 (t.over_readField scope f)
  | property p => exact fun s hs => Option.some.inj hs ▸ List.forall_mem_singleton.2 (t.over_readValue scope p.type)
  | method d =>
    intro s hs
    refine Option.some.inj hs ▸ List.forall_mem_cons.2 ⟨?_, t.over_readParams scope d.params⟩
    exact t.value_read scope d.returnType ▸ t.over_resolveOrError scope d.returnType
  | indexer i => exact fun _ hs => nomatch hs

theorem over_readMembers (d : TypeDecl) (members : List Member) (names : List String) (counts : List Nat) :
    (∀ m ∈ (t.readMembers scope d names counts members).value.1, ∀ type ∈ m.types, type.Over scope) ∧
      ∀ x ∈ (t.readMembers scope d names counts members).value.2, ∀ type ∈ x.types, type.Over scope := by
  induction members generalizing names counts with
  | nil => exact ⟨List.forall_mem_nil _, List.forall_mem_nil _⟩
  | cons m ms ih =>
    unfold readMembers
    rw [Noted.value_bind]
    split
    · rename_i i
      rw [Noted.value_bind]
      dsimp only
      split
      · exact ih _ _
      · exact ⟨(ih _ _).1, List.forall_mem_cons.2 ⟨t.over_readIndexer scope i, (ih _ _).2⟩⟩
    · split
      · exact ih _ _
      · split
        · exact ih _ _
        · dsimp only
          split <;>
          exact ⟨List.forall_mem_append.2 ⟨fun s hs => t.over_readMember scope d.name m s (Option.mem_toList.1 hs), (ih _ _).1⟩,
            (ih _ _).2⟩

theorem closed_readSignatures (d : TypeDecl) : (t.readSignatures d).value.Closed t (t.genericScope d) := by
  have members := t.over_readMembers (t.genericScope d) d d.members [] []
  refine ⟨t.closed_readBase _ d, members.1, members.2, ?_⟩
  have hc : (t.readSignatures d).value.constructor = (d.params.mapM (t.readPrimaryParam (t.genericScope d))).value := rfl
  rw [hc, Noted.value_mapM]
  exact List.forall_mem_map.2 fun p _ => t.over_readValue _ p.type

end

/-! ## The table of a unit -/

/-- Built-in types have no bases, and the types in their signatures mention their parameters. -/
theorem closed_of_mem_builtin (t : TypeTable) : ∀ info ∈ builtin.types, info.Closed t := by
  have plain : ∀ info ∈ TypeInfo.plainValues, info.Closed t := by
    intro info hi
    obtain ⟨name, -, rfl⟩ := List.mem_map.1 hi
    constructor <;> simp [TypeInfo.bare]
  have object : TypeInfo.objectInfo.Closed t := by
    constructor <;>
      simp [TypeInfo.objectInfo, TypeInfo.bare, MemberSig.method, MemberSig.types, MemberKind.types, Ty.string, Ty.int]
  have string : TypeInfo.stringInfo.Closed t := by
    constructor <;>
      simp [TypeInfo.stringInfo, TypeInfo.bare, MemberSig.method, MemberSig.property, MemberSig.types, MemberKind.types,
        IndexerSig.types, ParamSig.plain, Ty.string, Ty.int, Ty.bool, Ty.char]
  have list : TypeInfo.listInfo.Closed t := by
    constructor <;>
      simp [TypeInfo.listInfo, TypeInfo.bare, TypeInfo.freeGeneric, MemberSig.method, MemberSig.property, MemberSig.types,
        MemberKind.types, IndexerSig.types, ParamSig.plain, GenericInfo.type, Ty.int, Ty.Over.void]
  have dictionary : TypeInfo.dictionaryInfo.Closed t := by
    constructor <;>
      simp [TypeInfo.dictionaryInfo, TypeInfo.bare, TypeInfo.freeGeneric, MemberSig.method, MemberSig.property, MemberSig.types,
        MemberKind.types, IndexerSig.types, ParamSig.plain, GenericInfo.type, Ty.int, Ty.bool]
  refine List.forall_mem_append.2 ⟨plain, ?_⟩
  simp [object, string, list, dictionary]

/-- The types of a unit with their signatures. -/
theorem value_build (u : SourceUnit) :
    (build u).value =
      (builtin.addOutlines u.types).value.1.withSignatures ((builtin.addOutlines u.types).value.2.map fun d =>
        (d.name, ((builtin.addOutlines u.types).value.1.readSignatures d).value)) :=
  congrArg (builtin.addOutlines u.types).value.1.withSignatures
    (Noted.value_mapM (fun d : TypeDecl => do return (d.name, ← (builtin.addOutlines u.types).value.1.readSignatures d)) _)

/-- The table of every unit is closed. -/
theorem closed_build (u : SourceUnit) : (build u).value.Closed := by
  intro name info hf
  rw [value_build]
  rw [value_build, find?_withSignatures, lookup_map_find? TypeDecl.name] at hf
  generalize (builtin.addOutlines u.types).value.2.map _ = signatures at *
  have houtlines := types_addOutlines builtin u.types
  generalize (builtin.addOutlines u.types).value.2 = added at *
  generalize (builtin.addOutlines u.types).value.1 = outlines at *
  obtain ⟨outline, ho, rfl⟩ := Option.map_eq_some_iff.1 hf
  cases hd : added.find? (fun d => d.name == name) with
  | none =>
    have hm := List.mem_of_find?_eq_some ho
    rw [houtlines, List.mem_append] at hm
    rcases hm with hm | hm
    · exact closed_of_mem_builtin _ outline hm
    · obtain ⟨d, -, rfl⟩ := List.mem_map.1 hm
      constructor <;> exact fun _ h => nomatch h
  | some d =>
    have hn : d.name = name := eq_of_beq (List.find?_some hd :)
    obtain ⟨base, members, indexers, constructor⟩ := outlines.closed_readSignatures d
    have hs : outlines.genericScope d = outline.generics := by rw [genericScope, hn, ho]
    rw [hs] at base members indexers constructor
    exact ⟨fun b hb => ⟨(base b hb).1.withSignatures signatures, (base b hb).2⟩, members, indexers, constructor⟩

/-! ## Built-in types of a unit -/

theorem find?_of_mem_addOutlines {t : TypeTable} {ds : List TypeDecl} {d : TypeDecl} (h : d ∈ (t.addOutlines ds).value.2) :
    t.find? d.name = none := by
  induction ds generalizing t with
  | nil => cases h
  | cons e ds ih =>
    rw [addOutlines] at h
    split at h
    · exact ih h
    · rename_i he
      rcases List.mem_cons.1 h with rfl | h
      · exact he
      · have hd := ih h
        unfold find? at hd ⊢
        exact (List.find?_append.symm.trans hd |> Option.or_eq_none_iff.1).1

/-- No declaration takes the place of a built-in type. -/
theorem find?_build_of_builtin (u : SourceUnit) {name : String} {info : TypeInfo} (h : builtin.find? name = some info) :
    (build u).value.find? name = some info := by
  rw [value_build, find?_withSignatures, lookup_map_find? TypeDecl.name]
  have ha : (builtin.addOutlines u.types).value.2.find? (fun d => d.name == name) = none := by
    refine List.find?_eq_none.2 fun d hd hn => ?_
    have hf := find?_of_mem_addOutlines hd
    rw [eq_of_beq hn, h] at hf
    cases hf
  rw [ha]
  unfold find? at h ⊢
  rw [types_addOutlines, List.find?_append, h]
  rfl

/-! ## What a lookup mentions -/

variable {t : TypeTable} {gs : List GenericInfo} {type : Ty}

/-- The parameters that can be seen on a type from outside: those of the class that a parameter has to be of. -/
def exposed (t : TypeTable) : Ty → List GenericInfo
  | .param _ (.base base) => (t.find? base).elim [] (·.generics)
  | _ => []

theorem over_nullableMember? {inner : Ty} (h : inner.Over gs) {name : String} {m : MemberSig}
    (hm : nullableMember? inner name = some m) : ∀ x ∈ m.types, x.Over gs := by
  unfold nullableMember? at hm
  split at hm <;> cases hm <;>
    simp [MemberSig.types, MemberKind.types, MemberSig.property, MemberSig.method, Ty.bool, h]

theorem over_ofDelegate {params : List Ty} (h : ∀ p ∈ params, p.Over gs) :
    ∀ x ∈ (ParamSig.ofDelegate params).map (·.type), x.Over gs := by
  refine List.forall_mem_map.2 fun p hp => ?_
  obtain ⟨i, hi, rfl⟩ := List.mem_mapIdx.1 hp
  exact h _ (List.getElem_mem hi)

theorem Closed.over_specificMember? (h : t.Closed) (ho : type.Over gs)
    (hi : ∀ name args, type = .named name args → t.Instance type) {name : String} {m : MemberSig}
    (hm : t.specificMember? name type = some m) : ∀ x ∈ m.types, x.Over (gs ++ t.exposed type) := by
  have own : (∀ x ∈ m.types, x.Over gs) → ∀ x ∈ m.types, x.Over (gs ++ t.exposed type) :=
    fun hx x hm => (hx x hm).mono (List.subset_append_left _ _)
  unfold TypeTable.specificMember? at hm
  split at hm
  · exact own (h.inheritedMember? (hi _ _ rfl) ho hm)
  · split at hm <;> cases hm
    simp [MemberSig.types, MemberKind.types, MemberSig.property, Ty.int]
  · exact own (over_nullableMember? ho.of_nullable hm)
  · rename_i base
    cases hf : t.find? base with
    | none =>
      rw [TypeTable.inheritedMember?, maxBaseDepth, TypeTable.lineage, Ty.simple, TypeTable.baseOf?, hf] at hm
      simp [TypeTable.ownMember?, hf] at hm
    | some info =>
      rw [exposed, hf]
      exact fun x hx => (h.inside_member? hf hm x hx).mono (List.subset_append_right _ _)
  · split at hm <;> cases hm
    rw [Ty.over_delegate] at ho
    exact own (List.forall_mem_cons.2 ⟨ho.2, over_ofDelegate ho.1⟩)
  · cases hm

theorem Closed.over_indexers (h : t.Closed) (ho : type.Over gs) (hi : ∀ name args, type = .named name args → t.Instance type) :
    ∀ i ∈ t.indexers type, ∀ x ∈ i.types, x.Over (gs ++ t.exposed type) := by
  unfold TypeTable.indexers
  split
  · exact fun i hm x hx => (h.inheritedIndexers _ (hi _ _ rfl) ho i hm x hx).mono (List.subset_append_left _ _)
  · refine List.forall_mem_singleton.2 (List.forall_mem_cons.2 ⟨?_, List.forall_mem_singleton.2 (Ty.over_simple _)⟩)
    exact (Ty.over_array.1 ho).mono (List.subset_append_left _ _)
  · rename_i base
    cases hf : t.find? base with
    | none =>
      rw [maxBaseDepth, TypeTable.lineage, Ty.simple, TypeTable.baseOf?, hf]
      simp [TypeTable.ownIndexers, hf]
    | some info =>
      rw [exposed, hf]
      exact fun i hm x hx => (h.inside_indexers hf i hm x hx).mono (List.subset_append_right _ _)
  · exact List.forall_mem_nil _

/-- What is looked up on a type mentions what the type mentions and what can be seen on it from outside. -/
theorem Closed.over_member? (h : t.Closed) (hobject : t.Instance .object) (ho : type.Over gs)
    (hi : ∀ name args, type = .named name args → t.Instance type) {name : MemberName} {m : MemberSig}
    (hm : t.member? type name = some m) : ∀ x ∈ m.types, x.Over (gs ++ t.exposed type) := by
  cases name with
  | plain name =>
    rcases Option.or_eq_some_iff.1 hm with hm | ⟨-, hm⟩
    · exact h.over_specificMember? ho hi hm
    · split at hm
      · exact h.inheritedMember? hobject (Ty.over_simple _) hm
      · cases hm
  | keyed name =>
    obtain ⟨i, hmi, rfl⟩ := Option.map_eq_some_iff.1 hm
    exact List.forall_mem_singleton.2 (h.over_indexers ho hi i (List.mem_of_find?_eq_some hmi) _ List.mem_cons_self)

/-- A member or an indexer of a written type mentions the parameters of the scope that the type is written in, and those that can
be seen on the type from outside. -/
theorem lookups_mention_scope {u : SourceUnit} {scope : List GenericInfo} {e : TypeExpr}
    (h : (build u).value.resolve scope e = .ok type) :
    (∀ {name : MemberName} {m : MemberSig}, (build u).value.member? type name = some m →
      ∀ x ∈ m.types, ∀ g ∈ x.mentioned, g ∈ scope ++ (build u).value.exposed type) ∧
    ∀ {count : Nat} {i : IndexerSig}, (build u).value.indexer? type count = some i →
      ∀ x ∈ i.types, ∀ g ∈ x.mentioned, g ∈ scope ++ (build u).value.exposed type := by
  have ho := over_resolve e h
  have hi : ∀ name args, type = .named name args → (build u).value.Instance type := by
    rintro name args rfl
    exact instance_of_resolve h
  have hf : (build u).value.find? "object" = some TypeInfo.objectInfo := find?_build_of_builtin u (by decide)
  have hobject : (build u).value.Instance .object := ⟨hf, rfl⟩
  exact ⟨fun hm x hx => ((closed_build u).over_member? hobject ho hi hm x hx).mentioned,
    fun hm x hx => ((closed_build u).over_indexers ho hi _ (List.mem_of_find?_eq_some hm) x hx).mentioned⟩

end TypeTable

/-- A parameter that has to be of a generic class shows the parameter of the class, whatever the arguments in the constraint. -/
theorem parameter_of_constraint_exposed :
    ∃ unit, SourceUnit.parse "class G<T> { public T Item; } class A<U> where U : G<int> { }" none = .ok unit ∧
      (TypeTable.build unit).notes = [] ∧
        ∃ d ∈ unit.types, ∃ type m,
          (TypeTable.build unit).value.resolve ((TypeTable.build unit).value.genericScope d) (.simple "U" default) = .ok type ∧
          (TypeTable.build unit).value.member? type (.plain "Item") = some m ∧
          ∃ g ∈ m.type.mentioned, g ∉ (TypeTable.build unit).value.genericScope d := by
  have evaluated : ∃ unit, SourceUnit.parse "class G<T> { public T Item; } class A<U> where U : G<int> { }" none = .ok unit ∧
      (TypeTable.build unit).notes = [] ∧
        ∃ d ∈ unit.types, ∃ type,
          (TypeTable.build unit).value.resolve ((TypeTable.build unit).value.genericScope d) (.simple "U" default) = .ok type ∧
            ∃ m ∈ (TypeTable.build unit).value.member? type (.plain "Item"),
              ∃ g ∈ m.type.mentioned, g ∉ (TypeTable.build unit).value.genericScope d := by
    decide +kernel
  obtain ⟨unit, h, hn, d, hd, type, ht, m, hm, exposed⟩ := evaluated
  exact ⟨unit, h, hn, d, hd, type, m, ht, hm, exposed⟩

end NavCheck
