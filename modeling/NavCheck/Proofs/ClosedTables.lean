import NavCheck.Proofs.Meanings

/-!
# Closed tables

The signatures of a type mention its own parameters only, and its base is a type with as many arguments as it takes. The table of
every unit is closed in this sense. So what is looked up on a type mentions only what the arguments of the type mention, except
on a parameter that has to be of a generic class: its constraint has lost its arguments, and the parameters of the class show.
-/

namespace NavCheck

/-! ## Arguments -/

/-- Behind the first name a later one still counts. -/
theorem underNames_cons {α : Type} (name : String) (names : List String) (value : α) (values : List α) :
    underNames (name :: names) (value :: values) = underNames names values ++ [(name, value)] := by
  rw [underNames, List.zip_cons_cons, List.reverse_cons]
  rfl

/-- What is not among the names has no value. -/
theorem lookup_underNames_eq_none {α : Type} {names : List String} {values : List α} {name : String} (h : name ∉ names) :
    (underNames names values).lookup name = none := by
  rw [List.lookup_eq_none_iff]
  intro p hp
  rw [bne_iff_ne]
  rintro rfl
  exact h (List.of_mem_zip (List.mem_reverse.1 hp)).1

/-- A name among as many names as values has one of the values. -/
theorem exists_lookup_underNames {names : List String} {types : List Ty} (hl : types.length = names.length) {name : String}
    (hn : name ∈ names) : ∃ t ∈ types, (underNames names types).lookup name = some t := by
  induction names generalizing types with
  | nil => cases hn
  | cons head names ih =>
    obtain _ | ⟨type, types⟩ := types
    · cases hl
    rw [underNames_cons, List.lookup_append]
    by_cases hr : name ∈ names
    · obtain ⟨t, ht, hf⟩ := ih (Nat.succ.inj hl) hr
      exact ⟨t, List.mem_cons_of_mem type ht, by rw [hf, Option.some_or]⟩
    · obtain rfl := (List.mem_cons.1 hn).resolve_right hr
      exact ⟨type, List.mem_cons_self,
        by rw [lookup_underNames_eq_none hr, Option.none_or, List.lookup_cons, beq_self_eq_true]⟩

theorem TypeInfo.maps_substitution (i : TypeInfo) {args : List Ty} {gs : List GenericInfo}
    (hl : args.length = i.generics.length) (ha : ∀ a ∈ args, a.Over gs) : (i.substitution args).Maps i.generics gs := by
  intro g hg
  obtain ⟨t, ht, hf⟩ := exists_lookup_underNames (hl.trans (List.length_map _).symm) (List.mem_map_of_mem hg)
  exact ⟨t, hf, ha t ht⟩

/-- Without arguments no parameter is replaced. -/
@[simp] theorem TypeInfo.substitution_nil (i : TypeInfo) : i.substitution [] = [] := by
  rw [substitution, underNames, List.zip_nil_right, List.reverse_nil]

@[simp] theorem Ty.substitute_nil (t : Ty) : t.substitute [] = t := rfl

/-- The signatures of a type mention its own parameters only, and its base has as many arguments as it takes. -/
structure TypeInfo.Closed (t : TypeTable) (i : TypeInfo) : Prop where
  base : ∀ b ∈ i.base, t.Instance b ∧ b.Over i.generics
  members : ∀ m ∈ i.members, ∀ type ∈ m.types, type.Over i.generics
  indexers : ∀ x ∈ i.indexers, ∀ type ∈ x.types, type.Over i.generics
  constructor : ∀ p ∈ i.constructor, p.type.Over i.generics

/-- Every type that the table knows by its name is closed. -/
def TypeTable.Closed (t : TypeTable) : Prop :=
  ∀ name info, t.find? name = some info → info.Closed t

namespace TypeTable

variable {t : TypeTable} {gs : List GenericInfo} {type base : Ty} {name : String} {info : TypeInfo}

/-! ## Looking up -/

theorem Closed.find? (h : t.Closed) (hf : t.find? name = some info) : info.Closed t :=
  h name info hf

theorem Closed.baseOf? (h : t.Closed) (hi : t.Instance type) (ho : type.Over gs) (hb : t.baseOf? type = some base) :
    t.Instance base ∧ base.Over gs := by
  obtain ⟨hf, hl⟩ := hi
  rename_i info
  obtain ⟨info', hf', b, hbase, rfl⟩ := by simpa [TypeTable.baseOf?, Option.bind_eq_some_iff] using hb
  obtain rfl : info = info' := Option.some.inj (hf.symm.trans hf')
  obtain ⟨hi, hbo⟩ := (h.find? hf).base b hbase
  exact ⟨hi.substitute _, hbo.substitute (info.maps_substitution hl (Ty.over_named.1 ho))⟩

/-- A type and its bases mention nothing else than the type does. -/
theorem Closed.lineage (h : t.Closed) (count : Nat) (hi : t.Instance type) (ho : type.Over gs) :
    ∀ x ∈ t.lineage count type, t.Instance x ∧ x.Over gs := by
  induction count generalizing type with
  | zero => exact fun _ hx => nomatch hx
  | succ count ih =>
    rw [TypeTable.lineage]
    cases hb : t.baseOf? type with
    | none => exact List.forall_mem_singleton.2 ⟨hi, ho⟩
    | some base =>
      obtain ⟨hbi, hbo⟩ := h.baseOf? hi ho hb
      exact List.forall_mem_cons.2 ⟨⟨hi, ho⟩, ih hbi hbo⟩

theorem Closed.ownMember? (h : t.Closed) (hi : t.Instance type) (ho : type.Over gs) {m : MemberSig}
    (hm : t.ownMember? name type = some m) : ∀ x ∈ m.types, x.Over gs := by
  obtain ⟨hf, hl⟩ := hi
  rename_i info
  obtain ⟨info', hf', found, hfound, rfl⟩ := by simpa [TypeTable.ownMember?, Option.bind_eq_some_iff] using hm
  obtain rfl : info = info' := Option.some.inj (hf.symm.trans hf')
  rw [MemberSig.types_substitute]
  exact List.forall_mem_map.2 fun x hx => ((h.find? hf).members found (List.mem_of_find?_eq_some hfound) x hx).substitute
    (info.maps_substitution hl (Ty.over_named.1 ho))

theorem Closed.ownIndexers (h : t.Closed) (hi : t.Instance type) (ho : type.Over gs) :
    ∀ i ∈ t.ownIndexers type, ∀ x ∈ i.types, x.Over gs := by
  obtain ⟨hf, hl⟩ := hi
  rename_i info
  rw [TypeTable.ownIndexers, hf]
  refine List.forall_mem_map.2 fun i hi => ?_
  rw [IndexerSig.types_substitute]
  exact List.forall_mem_map.2 fun x hx => ((h.find? hf).indexers i hi x hx).substitute
    (info.maps_substitution hl (Ty.over_named.1 ho))

theorem Closed.inheritedMember? (h : t.Closed) (hi : t.Instance type) (ho : type.Over gs) {m : MemberSig}
    (hm : t.inheritedMember? type name = some m) : ∀ x ∈ m.types, x.Over gs := by
  obtain ⟨x, hx, hxm⟩ := List.exists_of_findSome?_eq_some hm
  obtain ⟨hxi, hxo⟩ := h.lineage _ hi ho x hx
  exact h.ownMember? hxi hxo hxm

theorem Closed.inheritedIndexers (h : t.Closed) (count : Nat) (hi : t.Instance type) (ho : type.Over gs) :
    ∀ i ∈ (t.lineage count type).flatMap t.ownIndexers, ∀ x ∈ i.types, x.Over gs := by
  intro i hm
  obtain ⟨y, hy, hm⟩ := List.mem_flatMap.1 hm
  obtain ⟨hyi, hyo⟩ := h.lineage _ hi ho y hy
  exact h.ownIndexers hyi hyo i hm

/-! ### Types without their arguments

A type that is named without its arguments is looked at from the inside: its parameters stand for themselves. -/

theorem lineage_simple (hf : t.find? name = some info) (count : Nat) :
    t.lineage (count + 1) (.simple name) = .simple name :: (info.base.elim [] (t.lineage count)) := by
  rw [TypeTable.lineage, Ty.simple, TypeTable.baseOf?, hf]
  cases hb : info.base <;> simp [hb]

theorem Closed.inside_member? (h : t.Closed) (hf : t.find? name = some info) {field : String} {m : MemberSig}
    (hm : t.inheritedMember? (.simple name) field = some m) : ∀ x ∈ m.types, x.Over info.generics := by
  rw [TypeTable.inheritedMember?, maxBaseDepth, lineage_simple hf, List.findSome?_cons] at hm
  cases ho : t.ownMember? field (.simple name) with
  | some own =>
    obtain ⟨found, hfound, rfl⟩ := by simpa [TypeTable.ownMember?, Ty.simple, hf, Option.bind_eq_some_iff] using ho
    rw [ho] at hm
    cases hm
    rw [MemberSig.types_substitute]
    exact List.forall_mem_map.2 ((h.find? hf).members found (List.mem_of_find?_eq_some hfound))
  | none =>
    rw [ho] at hm
    cases hb : info.base with
    | none =>
      rw [hb] at hm
      cases hm
    | some base =>
      rw [hb] at hm
      obtain ⟨hbi, hbo⟩ := (h.find? hf).base base hb
      obtain ⟨x, hx, hxm⟩ := List.exists_of_findSome?_eq_some hm
      obtain ⟨hxi, hxo⟩ := h.lineage _ hbi hbo x hx
      exact h.ownMember? hxi hxo hxm

theorem Closed.inside_indexers (h : t.Closed) (hf : t.find? name = some info) :
    ∀ i ∈ (t.lineage maxBaseDepth (.simple name)).flatMap t.ownIndexers, ∀ x ∈ i.types, x.Over info.generics := by
  rw [maxBaseDepth, lineage_simple hf, List.flatMap_cons]
  refine List.forall_mem_append.2 ⟨fun i hi => ?_, ?_⟩
  · obtain ⟨j, hj, rfl⟩ := by simpa [TypeTable.ownIndexers, Ty.simple, hf] using hi
    rw [IndexerSig.types_substitute]
    exact List.forall_mem_map.2 ((h.find? hf).indexers j hj)
  · cases hb : info.base with
    | none => exact List.forall_mem_nil _
    | some base =>
      obtain ⟨hbi, hbo⟩ := (h.find? hf).base base hb
      exact h.inheritedIndexers _ hbi hbo

end TypeTable

end NavCheck
