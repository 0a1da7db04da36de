import Mathlib.Data.List.Nodup
import NavCheck.Decl.Parser
import NavCheck.Proofs.ClosedUnits
import NavCheck.Proofs.Outcomes
import NavCheck.Text.Digest

/-!
# Arguments in place of parameters

A member of a generic type is looked up on a type with arguments by putting the arguments into its signature. The same type is
meant when the arguments are written in place of the parameters, unless a `?` is written directly behind a parameter: whether it
says anything is decided once and for all when the signature is read, from what is known of the parameter, and not from the
argument.
-/

namespace NavCheck

namespace TypeExpr

/-- Written types for names. -/
abbrev Filling := List (String × TypeExpr)

mutual

/-- Writes types in place of names; the suffixes of a name are written behind those of its type. -/
def fill (f : Filling) : TypeExpr → TypeExpr
  | ⟨name, args, suffixes, span⟩ =>
    match f.lookup name with
    | some a => ⟨a.name, a.args, a.suffixes ++ suffixes, span⟩
    | none => ⟨name, fillAll f args, suffixes, span⟩

/-- Writes types in place of names in several types. -/
def fillAll (f : Filling) : List TypeExpr → List TypeExpr
  | [] => []
  | e :: es => e.fill f :: fillAll f es

end

mutual

/-- The names in a written type. -/
def names : TypeExpr → List String
  | ⟨name, args, _, _⟩ => name :: namesAll args

/-- The names in several written types. -/
def namesAll : List TypeExpr → List String
  | [] => []
  | e :: es => e.names ++ namesAll es

end

mutual

/-- The names in a written type that a `?` stands directly behind. -/
def questioned : TypeExpr → List String
  | ⟨name, args, suffixes, _⟩ => (if suffixes.head? = some .nullable then [name] else []) ++ questionedAll args

/-- The names in several written types that a `?` stands directly behind. -/
def questionedAll : List TypeExpr → List String
  | [] => []
  | e :: es => e.questioned ++ questionedAll es

end

theorem fillAll_eq_map (f : Filling) (es : List TypeExpr) : fillAll f es = es.map (·.fill f) := by
  induction es with
  | nil => rfl
  | cons e es ih => rw [fillAll, ih, List.map_cons]

theorem namesAll_eq_flatMap (es : List TypeExpr) : namesAll es = es.flatMap names := by
  induction es with
  | nil => rfl
  | cons e es ih => rw [namesAll, ih, List.flatMap_cons]

theorem questionedAll_eq_flatMap (es : List TypeExpr) : questionedAll es = es.flatMap questioned := by
  induction es with
  | nil => rfl
  | cons e es ih => rw [questionedAll, ih, List.flatMap_cons]

end TypeExpr

namespace TypeTable

variable {t : TypeTable} {s : Ty.Substitution} {type : Ty}

/-! ## Suffixes and replacement -/

/-- A `?` behind a type means the same before and after types are put in place of parameters. -/
def Steady (t : TypeTable) (s : Ty.Substitution) (type : Ty) : Prop :=
  (t.suffixed type .nullable).replace s = t.suffixed (type.replace s) .nullable

theorem suffixed_orNull (t : TypeTable) (type : Ty) : t.suffixed type.orNull .nullable = type.orNull := by
  rw [suffixed, Ty.orNull_orNull, ite_self]

theorem steady_orNull (t : TypeTable) (s : Ty.Substitution) (type : Ty) : t.Steady s type.orNull := by
  rw [Steady, suffixed_orNull, Ty.replace_orNull, suffixed_orNull]

/-- A `?` says the same about types of one category. -/
theorem steady_of_classify (h : t.classify (type.replace s) = t.classify type) : t.Steady s type := by
  rw [Steady, suffixed, suffixed, h]
  split
  · rfl
  · exact Ty.replace_orNull s type

/-- A `?` behind a type can be put behind what takes its place exactly when that is nullable anyway, or both are known to be
references or neither is. -/
theorem steady_iff :
    t.Steady s type ↔ (type.replace s).orNull = type.replace s ∨
      (t.classify type = .reference ↔ t.classify (type.replace s) = .reference) := by
  rw [Steady, suffixed, suffixed]
  by_cases hc : t.classify type = .reference <;> by_cases hr : t.classify (type.replace s) = .reference <;>
    simp [hc, hr, Ty.replace_orNull, eq_comm]

theorem steady_array (t : TypeTable) (s : Ty.Substitution) (type : Ty) : t.Steady s (.array type) :=
  steady_of_classify rfl

theorem Steady.suffixed (h : t.Steady s type) (suffix : TypeSuffix) : t.Steady s (t.suffixed type suffix) := by
  cases suffix with
  | array => exact t.steady_array s type
  | nullable =>
    rw [TypeTable.suffixed]
    split
    · exact h
    · exact t.steady_orNull s type

/-- Suffixes can be put behind a type before or after types are put in place of its parameters. -/
theorem replace_foldl_suffixed (suffixes : List TypeSuffix) (h : suffixes.head? = some .nullable → t.Steady s type) :
    (suffixes.foldl t.suffixed type).replace s = suffixes.foldl t.suffixed (type.replace s) := by
  induction suffixes generalizing type with
  | nil => rfl
  | cons suffix suffixes ih =>
    rw [List.foldl_cons, List.foldl_cons]
    cases suffix with
    | array => exact ih fun _ => t.steady_array s type
    | nullable =>
      have hs : t.Steady s type := h rfl
      rw [ih fun _ => hs.suffixed .nullable, hs]

/-! ## Written types with arguments in place of parameters -/

/-- An argument takes the place of a parameter: it is written and put in under the same name, and it means what is put in. -/
structure Fills (t : TypeTable) (scope gs : List GenericInfo) (f : TypeExpr.Filling) (s : Ty.Substitution) : Prop where
  given : ∀ {name g}, gs.find? (·.name == name) = some g →
    ∃ a type, f.lookup name = some a ∧ s.lookup name = some type ∧ t.resolve scope a = .ok type
  others : ∀ {name}, gs.find? (·.name == name) = none → f.lookup name = none

variable {scope gs : List GenericInfo} {f : TypeExpr.Filling}

/-- With arguments written in place of the parameters, a type means what it meant with the arguments put in, unless a name is
taken by the other scope or a `?` behind a parameter means something else for its argument. -/
theorem resolve_fill (h : t.Fills scope gs f s) (e : TypeExpr) :
    (∀ name ∈ e.names, gs.find? (·.name == name) = none → scope.find? (·.name == name) = none) →
    (∀ g ∈ gs, g.name ∈ e.questioned → t.Steady s g.type) →
    ∀ {type : Ty}, t.resolve gs e = .ok type → t.resolve scope (e.fill f) = .ok (type.replace s) := by
  induction e using TypeExpr.induction with
  | step name args suffixes span ih =>
    intro hfree hq type hr
    obtain ⟨core, hc, rfl⟩ := resolve_eq_ok.1 hr
    rw [TypeExpr.names, TypeExpr.namesAll_eq_flatMap, List.forall_mem_cons] at hfree
    rw [TypeExpr.questioned, TypeExpr.questionedAll_eq_flatMap] at hq
    rw [TypeExpr.fill, TypeExpr.fillAll_eq_map]
    cases hc with
    | param hg ha =>
      rename_i g
      obtain ⟨a, argument, hfa, hsa, hra⟩ := h.given hg
      have hn : g.name = name := eq_of_beq (List.find?_some hg :)
      have hput : g.type.replace s = argument := by rw [GenericInfo.type, Ty.replace, hn, hsa, Option.getD_some]
      have hsuffix : (suffixes.foldl t.suffixed g.type).replace s = suffixes.foldl t.suffixed (g.type.replace s) :=
        replace_foldl_suffixed suffixes fun hh => hq g (List.mem_of_find?_eq_some hg) (by simp [hh, hn])
      obtain ⟨aname, aargs, asuffixes, aspan⟩ := a
      obtain ⟨core, hcore, hfold⟩ := resolve_eq_ok.1 hra
      rw [hfa, hsuffix, hput, ← hfold, ← List.foldl_append]
      exact resolve_eq_ok.2 ⟨core, hcore, rfl⟩
    | void hg hn ha =>
      rw [h.others hg, replace_foldl_suffixed suffixes fun _ => steady_of_classify rfl]
      exact resolve_eq_ok.2 ⟨.void, .void (hfree.1 hg) hn (by rw [ha, List.map_nil]), rfl⟩
    | named hg hv hf hl hra =>
      rename_i info types
      rw [h.others hg, replace_foldl_suffixed suffixes fun _ => steady_of_classify (by rw [Ty.replace_named]; rfl), Ty.replace_named]
      refine resolve_eq_ok.2 ⟨_, .named (hfree.1 hg) (by simpa using hv) hf (by simpa using hl) ?_, rfl⟩
      rw [resolveAll_eq_ok, List.forall₂_map_left_iff, List.forall₂_map_right_iff]
      have each := List.forall₂_iff_get.1 (resolveAll_eq_ok.1 hra)
      refine List.forall₂_iff_get.2 ⟨each.1, fun i ha ht => ?_⟩
      have hm := List.get_mem args ⟨i, ha⟩
      exact ih _ hm (fun name hname => hfree.2 name (List.mem_flatMap.2 ⟨_, hm, hname⟩))
        (fun g hg hname => hq g hg (List.mem_append_right _ (List.mem_flatMap.2 ⟨_, hm, hname⟩))) (each.2 i ha ht)

/-! ## Members of a declaration -/

end TypeTable

/-- The name and the written type of a field or a property. -/
def Member.value? : Member → Option (String × TypeExpr)
  | .field f => some (f.name, f.type)
  | .property p => some (p.name, p.type)
  | _ => none

theorem Member.name?_of_value? {m : Member} {name : String} {e : TypeExpr} (h : m.value? = some (name, e)) :
    m.name? = some name := by
  cases m <;> cases h <;> rfl

namespace TypeTable

variable (t : TypeTable) (scope : List GenericInfo)

theorem resolve_of_known {e : TypeExpr} (h : (t.readValue scope e).value.Known) :
    t.resolve scope e = .ok (t.readValue scope e).value := by
  unfold readValue at h ⊢
  rw [Noted.value_bind, value_read, resolveOrError] at h ⊢
  cases hr : t.resolve scope e with
  | error fault =>
    rw [hr] at h
    exact absurd h Ty.not_known_error
  | ok type =>
    rw [hr] at h
    cases type with
    | void => exact absurd h Ty.not_known_error
    | _ => rfl

theorem value_readField (f : FieldDecl) : (t.readField scope f).value = (t.readValue scope f.type).value := by
  unfold readField
  dsimp only
  split <;> rfl

/-- The signature of a member has the name of the member; that of a field or a property has its written type. -/
theorem readMember_eq (owner : String) {name : String} {m : Member} (hn : m.name? = some name) :
    ∃ s, (t.readMember scope owner m).value = some s ∧ s.name = name ∧
      ∀ e, m.value? = some (name, e) → s.type = (t.readValue scope e).value := by
  unfold readMember
  cases m with
  | field f =>
    cases hn
    refine ⟨_, rfl, rfl, fun e he => ?_⟩
    cases he
    exact t.value_readField scope f
  | property p =>
    cases hn
    refine ⟨_, rfl, rfl, fun e he => ?_⟩
    cases he
    rfl
  | method d =>
    cases hn
    exact ⟨_, rfl, rfl, fun _ he => nomatch he⟩
  | indexer => cases hn

/-- Without an error every field and every property has a signature, which is found by its name. -/
theorem obtains_signatures (d : TypeDecl) (members : List Member) (names : List String) (counts : List Nat) :
    Obtains (fun found => (∀ s ∈ found.1, s.name ∉ names) ∧ ∀ m ∈ members, ∀ name e, m.value? = some (name, e) →
        ∃ s, found.1.find? (·.name == name) = some s ∧ s.type = (t.readValue scope e).value)
      (t.readMembers scope d names counts members) := by
  induction members generalizing names counts with
  | nil => exact Noted.ensures_pure ⟨List.forall_mem_nil _, List.forall_mem_nil _⟩
  | cons m ms ih =>
    unfold readMembers
    refine Noted.Ensures.behind fun _ => ?_
    split
    · refine Noted.Ensures.behind fun signature => ?_
      dsimp only
      split
      · exact obtains_report _ _ _
      · exact (ih names _).bind fun found h =>
          Noted.ensures_pure ⟨h.1, List.forall_mem_cons.2 ⟨fun _ _ hv => (nomatch hv), h.2⟩⟩
    · split
      · rename_i hn
        exact absurd hn (by cases m <;> simp_all [Member.name?])
      · rename_i name hn
        split
        · exact obtains_report _ _ _
        · rename_i hnew
          dsimp only
          split
          · exact obtains_report _ _ _
          · obtain ⟨s, hs, hsn, hst⟩ := t.readMember_eq scope d.name hn
            refine Noted.Ensures.bind_value (p := fun _ => True) (fun _ => trivial) fun _ => ?_
            rw [hs]
            refine (ih _ _).bind fun found h => Noted.ensures_pure ⟨?_, ?_⟩
            · refine List.forall_mem_cons.2 ⟨?_, fun x hx hm => h.1 x hx (List.mem_cons_of_mem name hm)⟩
              rw [hsn]
              exact fun hm => hnew (List.contains_iff_mem.2 hm)
            · refine List.forall_mem_cons.2 ⟨fun other e hv => ?_, fun m' hm' other e hv => ?_⟩
              · obtain rfl : name = other := Option.some.inj (hn.symm.trans (Member.name?_of_value? hv))
                exact ⟨s, List.find?_cons_of_pos (beq_iff_eq.2 hsn), hst e hv⟩
              · obtain ⟨x, hx, ht⟩ := h.2 m' hm' other e hv
                have hxn : x.name = other := eq_of_beq (List.find?_some hx :)
                have hne : s.name ≠ other := by
                  rintro rfl
                  exact h.1 x (List.mem_of_find?_eq_some hx) (by simp [hxn, hsn])
                exact ⟨x, by simpa [hne] using hx, ht⟩

end TypeTable

/-- Of several with different keys, each is found by its own. -/
theorem find?_of_nodup {α : Type} (key : α → String) {l : List α} (hn : (l.map key).Nodup) {a : α} (ha : a ∈ l) :
    l.find? (key · == key a) = some a := by
  obtain ⟨b, hb⟩ := Option.isSome_iff_exists.1
    (List.find?_isSome (p := fun b => key b == key a) |>.2 ⟨a, ha, beq_self_eq_true (key a)⟩)
  rw [hb, List.inj_on_of_nodup_map hn (List.mem_of_find?_eq_some hb) ha (eq_of_beq (List.find?_some hb :))]

/-- Without an error the types of a unit have different names. -/
theorem TypeTable.obtains_nodup (t : TypeTable) (ds : List TypeDecl) :
    Obtains (fun _ => (ds.map (·.name)).Nodup ∧ ∀ d ∈ ds, t.find? d.name = none) (t.addOutlines ds) := by
  induction ds generalizing t with
  | nil => exact Noted.ensures_pure ⟨List.nodup_nil, List.forall_mem_nil _⟩
  | cons d ds ih =>
    rw [addOutlines]
    split
    · exact obtains_report _ _ _
    · rename_i hd
      refine (ih _).bind_value (p := fun _ => _) fun h => Noted.ensures_pure ?_
      have apart : ∀ e ∈ ds, t.find? e.name = none ∧ d.name ≠ e.name := by
        intro e he
        have hf := h.2 e he
        unfold find? at hf ⊢
        rw [List.find?_append, Option.or_eq_none_iff] at hf
        refine ⟨hf.1, fun hn => ?_⟩
        simp [TypeDecl.outline, hn] at hf
      refine ⟨List.nodup_cons.2 ⟨fun hm => ?_, h.1⟩, List.forall_mem_cons.2 ⟨hd, fun e he => (apart e he).1⟩⟩
      obtain ⟨e, he, hn⟩ := List.mem_map.1 hm
      exact (apart e he).2 hn.symm

namespace TypeTable

/-- What is known of a declaration: its parameters, and signatures of its fields and its properties with the types that are
written in them. -/
def Presents (t outlines : TypeTable) (d : TypeDecl) : Prop :=
  ∃ info, t.find? d.name = some info ∧ info.generics = d.generics.map (·.info) ∧
    ∀ m ∈ d.members, ∀ name e, m.value? = some (name, e) →
      ∃ s, info.member? name = some s ∧ s.type = (outlines.readValue info.generics e).value

/-- The table of a unit without errors presents all its declarations. -/
theorem obtains_presents (u : SourceUnit) :
    Obtains (fun t => ∀ d ∈ u.types, t.Presents (builtin.addOutlines u.types).value.1 d) (build u) := by
  unfold build
  have outlined : Obtains (fun added => (added.2 = u.types ∧ ∀ d ∈ u.types, added.1.find? d.name = some d.outline) ∧
      (u.types.map (·.name)).Nodup) (builtin.addOutlines u.types) :=
    fun hn => ⟨obtains_addOutlines builtin u.types hn, (obtains_nodup builtin u.types hn).1⟩
  refine outlined.bind_value fun added => ?_
  obtain ⟨⟨hs, ho⟩, hnodup⟩ := added
  dsimp only
  generalize (builtin.addOutlines u.types).value.1 = outlines at ho ⊢
  rw [hs]
  have one : ∀ d ∈ u.types, Obtains (fun s : String × TypeSignatures => ∀ m ∈ d.members, ∀ name e, m.value? = some (name, e) →
      ∃ found, s.2.members.find? (·.name == name) = some found ∧
        found.type = (outlines.readValue (outlines.genericScope d) e).value) (do
          return (d.name, ← outlines.readSignatures d)) := by
    intro d _
    unfold readSignatures
    refine Noted.Ensures.bind ?_ fun _ h => Noted.ensures_pure h
    refine Noted.Ensures.behind fun _ => Noted.Ensures.behind fun _ => Noted.Ensures.behind fun _ => ?_
    exact (outlines.obtains_signatures _ d d.members [] []).bind fun _ h => Noted.ensures_pure h.2
  refine (Noted.ensures_mapM_each one).bind_value fun each => Noted.Ensures.behind fun _ => Noted.ensures_pure fun d hd => ?_
  rw [Noted.value_mapM]
  have hf : u.types.find? (fun e => e.name == d.name) = some d := find?_of_nodup TypeDecl.name hnodup hd
  have hl := (lookup_map_find? TypeDecl.name (fun d => (outlines.readSignatures d).value) d.name u.types).trans
    (congrArg _ hf)
  refine ⟨d.outline.withSignatures (outlines.readSignatures d).value, ?_, rfl, fun m hm name e hv => ?_⟩
  · refine (find?_withSignatures _ _ _).trans ?_
    rw [ho d hd, Option.map_some]
    exact congrArg (fun found => some (Option.elim found d.outline d.outline.withSignatures)) hl
  · have hscope : outlines.genericScope d = d.generics.map (·.info) := by rw [genericScope, ho d hd]; rfl
    obtain ⟨found, hfound, ht⟩ := each d hd m hm name e hv
    exact ⟨found, hfound, ht.trans (by rw [hscope]; rfl)⟩

variable {u : SourceUnit}

/-- What is put in for the parameters of a declaration takes the place of what is written for them. -/
theorem fills_underNames {t : TypeTable} {scope gs : List GenericInfo} {args : List TypeExpr} {types : List Ty}
    (hl : args.length = gs.length) (ha : t.resolveAll scope args = .ok types) :
    t.Fills scope gs (underNames (gs.map (·.name)) args) (underNames (gs.map (·.name)) types) := by
  have absent : ∀ {gs : List GenericInfo} {name}, gs.find? (·.name == name) = none → name ∉ gs.map (·.name) := by
    intro gs name hnone hmem
    obtain ⟨g, hg, hn⟩ := List.mem_map.1 hmem
    exact List.find?_eq_none.1 hnone g hg (beq_iff_eq.2 hn)
  refine ⟨fun {name g} hg => ?_, fun hnone => lookup_underNames_eq_none (absent hnone)⟩
  have each := resolveAll_eq_ok.1 ha
  clear ha
  induction gs generalizing args types g with
  | nil => cases hg
  | cons first gs ih =>
    cases each with
    | nil => cases hl
    | @cons a type args types hr each =>
      rw [List.map_cons, underNames_cons, underNames_cons, List.lookup_append, List.lookup_append]
      cases hlater : gs.find? (·.name == name) with
      | some later =>
        obtain ⟨a', type', hfa, hsa, hra⟩ := ih (Nat.succ.inj hl) hlater each
        exact ⟨a', type', by rw [hfa, Option.some_or], by rw [hsa, Option.some_or], hra⟩
      | none =>
        have hn : name = first.name := by
          by_contra hn
          rw [List.find?_cons, beq_false_of_ne (Ne.symm hn), hlater] at hg
          cases hg
        refine ⟨a, type, ?_, ?_, hr⟩ <;>
          rw [lookup_underNames_eq_none (absent hlater), Option.none_or, List.lookup_cons, hn, beq_self_eq_true]

/-- A field or a property of a generic type that is looked up on a type with arguments has the type that is meant when the
arguments are written in place of the parameters, unless a `?` directly behind a parameter means something else behind its
argument. -/
theorem member?_fill (hc : ∀ d ∈ u.types, d.CapturesParams) (hn : ∀ f ∈ (build u).notes, f.isError = false) {d : TypeDecl}
    (hd : d ∈ u.types) {m : Member} (hm : m ∈ d.members) {name : String} {e : TypeExpr} (hv : m.value? = some (name, e))
    {scope : List GenericInfo} {args : List TypeExpr} {types : List Ty} (hl : args.length = d.generics.length)
    (ha : (build u).value.resolveAll scope args = .ok types)
    (hfree : ∀ used ∈ e.names, used ∉ d.generics.map (·.name) → scope.find? (·.name == used) = none)
    (hq : ∀ g ∈ d.generics, g.name ∈ e.questioned →
      (build u).value.Steady (underNames (d.generics.map (·.name)) types) g.info.type) :
    ∃ s, (build u).value.member? (.named d.name types) (.plain name) = some s ∧
      (build u).value.resolve scope (e.fill (underNames (d.generics.map (·.name)) args)) = .ok s.type := by
  obtain ⟨info, hf, hg, hp⟩ := obtains_presents u hn d hd
  obtain ⟨s, hs, ht⟩ := hp m hm name e hv
  have hknown := (obtains_build u hc hn).known.find? hf
  have hmem := List.mem_of_find?_eq_some hs
  have hr : (build u).value.resolve info.generics e = .ok s.type := by
    rw [value_build, resolve_withSignatures, ht]
    exact resolve_of_known _ _ (ht ▸ (hknown.members s hmem).type)
  have hsub : info.substitution types = underNames (d.generics.map (·.name)) types := by
    rw [TypeInfo.substitution, hg, List.map_map]
    rfl
  refine ⟨s.substitute (info.substitution types), ?_, ?_⟩
  · have hown : (build u).value.ownMember? name (.named d.name types) = some (s.substitute (info.substitution types)) := by
      rw [TypeTable.ownMember?, hf]
      simp [hs]
    have hinherited : (build u).value.inheritedMember? (.named d.name types) name =
        some (s.substitute (info.substitution types)) := by
      rw [TypeTable.inheritedMember?, maxBaseDepth, TypeTable.lineage]
      split <;> rw [List.findSome?_cons, hown]
    exact Option.or_eq_some_iff.2 (.inl hinherited)
  · have hover := ((closed_build u).find? hf).members s hmem s.type List.mem_cons_self
    have hnames : info.generics.map (·.name) = d.generics.map (·.name) := by rw [hg, List.map_map]; rfl
    show _ = Except.ok (s.type.substitute _)
    rw [hover.substitute_eq, hsub, ← hnames]
    refine resolve_fill (fills_underNames (by rw [hl, hg, List.length_map]) ha) e (fun used hu hnone => hfree used hu ?_) ?_ hr
    · rw [← hnames]
      intro hmem
      obtain ⟨g, hgm, hgn⟩ := List.mem_map.1 hmem
      exact List.find?_eq_none.1 hnone g hgm (beq_iff_eq.2 hgn)
    · rw [hnames, hg, List.forall_mem_map]
      exact hq

end TypeTable

/-- A field that is written `T?` is nullable for every argument, and `string?` is not. -/
theorem question_behind_parameter_kept :
    ∃ unit, SourceUnit.parse "class G<T> { public T? Item; }" none = .ok unit ∧ (TypeTable.build unit).notes = [] ∧
      ∃ d ∈ unit.types, ∃ m ∈ d.members, ∃ v ∈ m.value?, ∃ s type,
        (TypeTable.build unit).value.member? (.named d.name [.string]) (.plain v.1) = some s ∧
          (TypeTable.build unit).value.resolve [] (v.2.fill [("T", .simple "string" default)]) = .ok type ∧ type ≠ s.type := by
  have evaluated : ∃ unit, SourceUnit.parse "class G<T> { public T? Item; }" none = .ok unit ∧ (TypeTable.build unit).notes = [] ∧
      ∃ d ∈ unit.types, ∃ m ∈ d.members, ∃ v ∈ m.value?,
        ∃ s ∈ (TypeTable.build unit).value.member? (.named d.name [.string]) (.plain v.1),
          ∃ type, (TypeTable.build unit).value.resolve [] (v.2.fill [("T", .simple "string" default)]) = .ok type ∧
            type ≠ s.type := by
    decide +kernel
  obtain ⟨unit, h, hn, d, hd, m, hm, v, hv, s, hs, type, ht, different⟩ := evaluated
  exact ⟨unit, h, hn, d, hd, m, hm, v, hv, s, type, hs, ht, different⟩

end NavCheck
