import NavCheck.Proofs.KnownTypes

/-!
# Known types of tables

The table of a unit has known signatures when no error is found while it is built, and the types that are written in the
members mean something known then. What is written means the same before signatures are read and afterwards: it depends on the
outlines of types only.
-/

namespace NavCheck

/-- Every field that stands for a parameter of the constructor has the type of one. -/
def TypeDecl.CapturesParams (d : TypeDecl) : Prop :=
  ∀ f ∈ d.capturedFields, ∃ p ∈ d.params, p.type = f.type

structure TypeSignatures.Known (s : TypeSignatures) : Prop where
  base : ∀ b ∈ s.base, b.Known
  members : ∀ m ∈ s.members, m.Known
  indexers : ∀ x ∈ s.indexers, x.Known
  constructor : ∀ p ∈ s.constructor, p.Known

namespace TypeTable

/-! ## Reading signatures -/

/-- A value is known unless an error is found. -/
abbrev Obtains {α : Type} (p : α → Prop) (x : Found α) : Prop :=
  Noted.Ensures (fun d : Diagnostic => d.isError = false) p x

variable {α : Type} {p : α → Prop}

theorem obtains_report (fault : TableFault) (span : Span) (f : Unit → Found α) : Obtains p (fault.report span >>= f) :=
  Noted.ensures_bad (n := fault.finding span) Bool.noConfusion f

/-- The meaning of a written type is known. -/
def Means (t : TypeTable) (scope : List GenericInfo) (e : TypeExpr) : Prop :=
  (t.resolveOrError scope e).Known

variable (t : TypeTable) (scope : List GenericInfo)

theorem value_read (e : TypeExpr) : (t.read scope e).value = t.resolveOrError scope e := by
  unfold read resolveOrError
  cases t.resolve scope e <;> rfl

/-- A known type of values is the meaning of what is written. -/
theorem means_of_readValue {e : TypeExpr} (h : (t.readValue scope e).value.Known) : t.Means scope e := by
  unfold readValue at h
  rw [Noted.value_bind, value_read] at h
  split at h
  · exact absurd h Ty.not_known_error
  · exact h

theorem obtains_read (e : TypeExpr) : Obtains Ty.Known (t.read scope e) := by
  unfold read
  cases hr : t.resolve scope e with
  | ok type => exact Noted.ensures_pure (t.known_of_resolve scope e hr)
  | error fault => exact Noted.ensures_bad (n := fault.toDiagnostic) Bool.noConfusion _

theorem obtains_readValue (e : TypeExpr) : Obtains Ty.Known (t.readValue scope e) := by
  refine (t.obtains_read scope e).bind fun type ht => ?_
  split
  · exact obtains_report _ _ _
  · exact Noted.ensures_pure ht

theorem obtains_readBase (d : TypeDecl) : Obtains (fun base => ∀ b ∈ base, Ty.Known b) (t.readBase scope d) := by
  unfold readBase
  split
  · split
    · exact obtains_report _ _ _
    refine (t.obtains_read scope _).bind fun type ht => ?_
    split
    · exact Noted.ensures_pure fun _ hb => nomatch hb
    split
    · exact Noted.ensures_pure fun b hb => Option.mem_some.1 hb ▸ ht
    · exact obtains_report _ _ _
  · exact Noted.ensures_pure fun _ hb => nomatch hb

theorem obtains_readPrimaryParam (p : PrimaryParam) : Obtains ParamSig.Known (t.readPrimaryParam scope p) :=
  (t.obtains_readValue scope p.type).bind fun _ h => Noted.ensures_pure h

/-- The signatures of parameters are known, and so are the types that are written in them. -/
theorem obtains_readParams (params : List Param) :
    Obtains (fun found => (∀ s ∈ found, ParamSig.Known s) ∧ ∀ e ∈ params.map (·.type), t.Means scope e)
      (params.mapM (t.readParam scope)) := by
  have one : ∀ p ∈ params, Obtains (fun s => s.Known ∧ t.Means scope p.type) (t.readParam scope p) := fun p _ =>
    (t.obtains_readValue scope p.type).bind_value fun h => Noted.ensures_pure ⟨h, t.means_of_readValue scope h⟩
  intro hn
  have each := Noted.ensures_mapM_each one hn
  refine ⟨?_, List.forall_mem_map.2 fun p hp => (each p hp).2⟩
  rw [Noted.value_mapM]
  exact List.forall_mem_map.2 fun p hp => (each p hp).1

theorem obtains_readField (f : FieldDecl) (h : f.isCaptured = true → (t.readValue scope f.type).value.Known) :
    Obtains (fun type => type.Known ∧ t.Means scope f.type) (t.readField scope f) := by
  have read : (t.readValue scope f.type).value.Known → (t.readValue scope f.type).value.Known ∧ t.Means scope f.type :=
    fun hk => ⟨hk, t.means_of_readValue scope hk⟩
  unfold readField
  dsimp only
  split
  · exact Noted.ensures_pure (read (h ‹_›))
  · exact fun hn => read (t.obtains_readValue scope f.type hn)

theorem obtains_readIndexer (i : IndexerDecl) :
    Obtains (fun s => s.Known ∧ ∀ e ∈ (Member.indexer i).written, t.Means scope e) (t.readIndexer scope i) :=
  (t.obtains_readParams scope i.params).bind fun _ hp => (t.obtains_readValue scope i.type).bind_value fun ht =>
    Noted.ensures_pure ⟨⟨hp.1, ht⟩, List.forall_mem_cons.2 ⟨t.means_of_readValue scope ht, hp.2⟩⟩

/-- The signature of a member is known, and so are the types that are written in it. -/
theorem obtains_readMember (owner : String) (m : Member) (hi : ∀ i, m ≠ .indexer i)
    (h : ∀ f ∈ m.capturedField?, (t.readValue scope f.type).value.Known) :
    Obtains (fun found => (∀ s ∈ found, MemberSig.Known s) ∧ ∀ e ∈ m.written, t.Means scope e)
      (t.readMember scope owner m) := by
  have one : ∀ {s : MemberSig}, s.Known → ∀ x ∈ some s, x.Known := fun hs x hx => Option.mem_some.1 hx ▸ hs
  unfold readMember
  cases m with
  | field f =>
    refine (t.obtains_readField scope f fun hc => h f ?_).bind fun _ ht =>
      Noted.ensures_pure ⟨one ⟨trivial, ht.1⟩, List.forall_mem_singleton.2 ht.2⟩
    rw [Member.capturedField?, if_pos hc]
    rfl
  | property p =>
    exact (t.obtains_readValue scope p.type).bind_value fun ht =>
      Noted.ensures_pure ⟨one ⟨trivial, ht⟩, List.forall_mem_singleton.2 (t.means_of_readValue scope ht)⟩
  | method d =>
    refine (t.obtains_readParams scope d.params).bind fun _ hp => (t.obtains_read scope d.returnType).bind_value fun ht =>
      Noted.ensures_pure ⟨one ⟨hp.1, ht⟩, List.forall_mem_cons.2 ⟨?_, hp.2⟩⟩
    rwa [value_read] at ht
  | indexer i => exact absurd rfl (hi i)

/-- The signatures of members are known, and so are the types that are written in them. -/
theorem obtains_readMembers (d : TypeDecl) (members : List Member)
    (h : ∀ m ∈ members, ∀ f ∈ m.capturedField?, (t.readValue scope f.type).value.Known) (names : List String)
    (counts : List Nat) :
    Obtains (fun found => ((∀ m ∈ found.1, MemberSig.Known m) ∧ ∀ x ∈ found.2, IndexerSig.Known x) ∧
        ∀ m ∈ members, ∀ e ∈ m.written, t.Means scope e)
      (t.readMembers scope d names counts members) := by
  induction members generalizing names counts with
  | nil => exact Noted.ensures_pure ⟨⟨List.forall_mem_nil _, List.forall_mem_nil _⟩, List.forall_mem_nil _⟩
  | cons m ms ih =>
    obtain ⟨hm, hms⟩ := List.forall_mem_cons.1 h
    have rest := ih hms
    unfold readMembers
    refine Noted.Ensures.behind fun _ => ?_
    split
    · refine (t.obtains_readIndexer scope _).bind fun signature hs => ?_
      dsimp only
      split
      · exact obtains_report _ _ _
      · exact (rest _ _).bind fun found hf =>
          Noted.ensures_pure ⟨⟨hf.1.1, List.forall_mem_cons.2 ⟨hs.1, hf.1.2⟩⟩, List.forall_mem_cons.2 ⟨hs.2, hf.2⟩⟩
    · rename_i hi
      split
      · rename_i hn
        -- only indexers have no name
        cases m with
        | indexer i => exact absurd rfl (hi i)
        | _ => cases hn
      · split
        · exact obtains_report _ _ _
        · dsimp only
          split
          · exact obtains_report _ _ _
          · refine (t.obtains_readMember scope _ m hi hm).bind fun signature hs => (rest _ _).bind fun found hf => ?_
            refine Noted.ensures_pure ⟨⟨List.forall_mem_append.2 ⟨fun s hm => hs.1 s ?_, hf.1.1⟩, hf.1.2⟩,
              List.forall_mem_cons.2 ⟨hs.2, hf.2⟩⟩
            exact Option.mem_toList.1 hm

theorem obtains_readSignatures (d : TypeDecl) (h : d.CapturesParams) :
    Obtains (fun s => s.Known ∧ ∀ m ∈ d.members, ∀ e ∈ m.written, t.Means (t.genericScope d) e)
      (t.readSignatures d) := by
  unfold readSignatures
  refine Noted.Ensures.behind fun _ => (t.obtains_readBase _ d).bind fun base hb =>
    (Noted.ensures_mapM fun p _ => t.obtains_readPrimaryParam (t.genericScope d) p).bind_value fun hc => ?_
  have hp : ∀ p ∈ d.params, (t.readValue (t.genericScope d) p.type).value.Known := by
    rw [Noted.value_mapM] at hc
    exact fun p hp => hc _ (List.mem_map_of_mem hp)
  refine (t.obtains_readMembers _ d d.members (fun m hm f hf => ?_) [] []).bind fun found hm =>
    Noted.ensures_pure ⟨⟨hb, hm.1.1, hm.1.2, hc⟩, hm.2⟩
  obtain ⟨p, hpp, he⟩ := h f (List.mem_filterMap.2 ⟨m, hm, hf⟩)
  exact he ▸ hp p hpp

theorem known_builtin : builtin.Known := by
  have plain : ∀ info ∈ TypeInfo.plainValues, info.Known := by
    intro info hi
    obtain ⟨name, -, rfl⟩ := List.mem_map.1 hi
    constructor <;> simp [TypeInfo.bare]
  have object : TypeInfo.objectInfo.Known := by
    constructor <;> simp [TypeInfo.objectInfo, TypeInfo.bare, Ty.string, Ty.int]
  have string : TypeInfo.stringInfo.Known := by
    constructor <;> simp [TypeInfo.stringInfo, TypeInfo.bare, Ty.string, Ty.int, Ty.bool, Ty.char]
  have list : TypeInfo.listInfo.Known := by
    constructor <;> simp [TypeInfo.listInfo, TypeInfo.bare, GenericInfo.type, Ty.int]
  have dictionary : TypeInfo.dictionaryInfo.Known := by
    constructor <;> simp [TypeInfo.dictionaryInfo, TypeInfo.bare, GenericInfo.type, Ty.int, Ty.bool]
  refine List.forall_mem_append.2 ⟨plain, ?_⟩
  simp [object, string, list, dictionary]

/-- Outlines have no signatures yet. -/
theorem known_outlines (ds : List TypeDecl) : (builtin.addOutlines ds).value.1.Known := by
  intro info hi
  rw [types_addOutlines, List.mem_append] at hi
  rcases hi with hi | hi
  · exact known_builtin info hi
  · obtain ⟨d, -, rfl⟩ := List.mem_map.1 hi
    constructor <;> cases hk : d.kind <;> simp [TypeDecl.outline, TypeKind.category, hk]

theorem Known.withSignatures {t : TypeTable} (h : t.Known) {signatures : List (String × TypeSignatures)}
    (hs : ∀ s ∈ signatures, s.2.Known) : (t.withSignatures signatures).Known := by
  intro info hi
  obtain ⟨outline, ho, rfl⟩ := List.mem_map.1 hi
  split
  · rename_i s hl
    obtain ⟨before, behind, rfl, -⟩ := List.lookup_eq_some_iff.1 hl
    have hk := hs _ (List.mem_append_right before List.mem_cons_self)
    exact ⟨(h outline ho).category, hk.base, hk.members, hk.indexers, hk.constructor⟩
  · exact h outline ho

/-! ## Outlines and meanings -/

section

variable (t : TypeTable) (signatures : List (String × TypeSignatures))

/-- What stands in the signature of a type changes nothing about its outline. -/
theorem outline_withSignatures {name : String} {info : TypeInfo} (h : (t.withSignatures signatures).find? name = some info) :
    ∃ outline, t.find? name = some outline ∧ info.name = outline.name ∧ info.category = outline.category ∧
      info.generics = outline.generics ∧ info.span = outline.span := by
  rw [find?_withSignatures] at h
  obtain ⟨outline, ho, rfl⟩ := Option.map_eq_some_iff.1 h
  refine ⟨outline, ho, ?_⟩
  cases signatures.lookup name <;> exact ⟨rfl, rfl, rfl, rfl⟩

theorem find?_withSignatures_eq_none {name : String} : (t.withSignatures signatures).find? name = none ↔ t.find? name = none := by
  rw [find?_withSignatures, Option.map_eq_none_iff]

/-- Signatures change nothing about the categories of types. -/
theorem classify_withSignatures : ∀ type : Ty, (t.withSignatures signatures).classify type = t.classify type
  | .named name args => by
    rw [classify, classify, find?_withSignatures]
    cases t.find? name with
    | none => rfl
    | some info => cases signatures.lookup name <;> rfl
  | .nullable inner => by rw [classify, classify, classify_withSignatures inner]
  | .param name (.base base) => by
    rw [classify, classify, find?_withSignatures]
    cases t.find? base with
    | none => rfl
    | some info => cases signatures.lookup base <;> rfl
  | .param _ .none | .param _ .reference | .param _ .value | .array _ | .delegate _ _ | .null | .void | .error => rfl

theorem suffixed_withSignatures : (t.withSignatures signatures).suffixed = t.suffixed := by
  funext type suffix
  cases suffix with
  | array => rfl
  | nullable => rw [suffixed, suffixed, classify_withSignatures]

mutual

/-- Signatures change nothing about the meaning of written types. -/
theorem resolve_withSignatures (scope : List GenericInfo) :
    ∀ e : TypeExpr, (t.withSignatures signatures).resolve scope e = t.resolve scope e
  | ⟨name, args, suffixes, span⟩ => by
    rw [resolve, resolve, suffixed_withSignatures, resolveAll_withSignatures scope args]
    cases hf : (t.withSignatures signatures).find? name with
    | none => rw [(t.find?_withSignatures_eq_none signatures).1 hf]
    | some info =>
      obtain ⟨outline, ho, hn, -, hg, -⟩ := t.outline_withSignatures signatures hf
      rw [ho]
      dsimp only
      rw [hn, hg]

theorem resolveAll_withSignatures (scope : List GenericInfo) :
    ∀ es : List TypeExpr, (t.withSignatures signatures).resolveAll scope es = t.resolveAll scope es
  | [] => rfl
  | e :: es => by
    rw [resolveAll, resolveAll, resolve_withSignatures scope e, resolveAll_withSignatures scope es]

end

theorem means_withSignatures {scope : List GenericInfo} {e : TypeExpr} :
    (t.withSignatures signatures).Means scope e ↔ t.Means scope e := by
  rw [Means, Means, resolveOrError, resolveOrError, resolve_withSignatures]

theorem genericScope_withSignatures (d : TypeDecl) : (t.withSignatures signatures).genericScope d = t.genericScope d := by
  unfold genericScope
  cases hf : (t.withSignatures signatures).find? d.name with
  | none => rw [(t.find?_withSignatures_eq_none signatures).1 hf]
  | some info =>
    obtain ⟨outline, ho, -, -, hg, -⟩ := t.outline_withSignatures signatures hf
    rw [ho]
    exact hg

end

/-! ## Units -/

/-- Without a fault every declaration has got its outline. -/
theorem obtains_addOutlines (t : TypeTable) (ds : List TypeDecl) :
    Obtains (fun added => added.2 = ds ∧ ∀ d ∈ ds, added.1.find? d.name = some d.outline) (t.addOutlines ds) := by
  induction ds generalizing t with
  | nil => exact Noted.ensures_pure ⟨rfl, List.forall_mem_nil _⟩
  | cons d ds ih =>
    rw [addOutlines]
    split
    · exact obtains_report _ _ _
    · rename_i hf
      refine (ih _).bind_value fun h => Noted.ensures_pure ⟨congrArg (d :: ·) h.1, List.forall_mem_cons.2 ⟨?_, h.2⟩⟩
      dsimp only
      unfold find? at hf ⊢
      rw [types_addOutlines, List.find?_append, List.find?_append, hf]
      simp [TypeDecl.outline]

/-- What is known of a unit in which no fault of a declaration is found: its table has known signatures, every declaration is
the one that the table knows by its name, and the types that are written in its members are known. -/
structure Describes (t : TypeTable) (u : SourceUnit) : Prop where
  known : t.Known
  declared : ∀ d ∈ u.types, ∃ info, t.find? d.name = some info ∧ info.span = some d.nameSpan
  written : ∀ d ∈ u.types, ∀ m ∈ d.members, ∀ e ∈ m.written, t.Means (t.genericScope d) e

/-- The table of a unit without faults of declarations describes it. -/
theorem obtains_build (u : SourceUnit) (h : ∀ d ∈ u.types, d.CapturesParams) : Obtains (·.Describes u) (build u) := by
  unfold build
  refine (obtains_addOutlines builtin u.types).bind_value fun added => ?_
  obtain ⟨hs, ho⟩ := added
  dsimp only
  generalize hout : (builtin.addOutlines u.types).value.1 = outlines at ho ⊢
  rw [hs]
  have one : ∀ d ∈ u.types, Obtains (fun s : String × TypeSignatures =>
      s.2.Known ∧ ∀ m ∈ d.members, ∀ e ∈ m.written, outlines.Means (outlines.genericScope d) e) (do
        return (d.name, ← outlines.readSignatures d)) := fun d hd =>
    (obtains_readSignatures outlines d (h d hd)).bind fun _ hk => Noted.ensures_pure hk
  refine (Noted.ensures_mapM_each one).bind_value fun each => Noted.Ensures.behind fun _ => Noted.ensures_pure ?_
  rw [Noted.value_mapM]
  have known : outlines.Known := hout ▸ known_outlines u.types
  refine ⟨known.withSignatures (List.forall_mem_map.2 fun d hd => (each d hd).1), fun d hd => ?_, fun d hd m hm e he => ?_⟩
  · rw [find?_withSignatures, ho d hd]
    refine ⟨_, rfl, ?_⟩
    generalize List.lookup d.name _ = found
    cases found <;> rfl
  · rw [means_withSignatures, genericScope_withSignatures]
    exact (each d hd).2 m hm e he

end TypeTable

end NavCheck
