import NavCheck.Capture.Resolve

/-!
# Captured fields

What the resolution of a declaration makes of it, said without the walk along its parameters. Every parameter gets a
decision, in order and whatever is wrong with its qualifiers. It is captured when it asks for a field and nobody
before it and no member has its name. The declaration gets one field for each captured parameter in front of its
members, and is otherwise what it was.
-/

namespace NavCheck

/-! ## Visibilities -/

/-- A list of modifiers spells a visibility exactly when one of them is an accessibility modifier. -/
theorem isSome_visibilityOf (modifiers : List Modifier) :
    (visibilityOf modifiers).isSome ↔ ∃ m ∈ modifiers, m.access?.isSome := by
  have hmem : (∃ m ∈ modifiers, m.access?.isSome) ↔ ∃ v, v ∈ (modifiers.filterMap Modifier.access?).eraseDups := by
    simp only [List.mem_eraseDups, List.mem_filterMap, Option.isSome_iff_exists]
    exact ⟨fun ⟨m, hm, v, hv⟩ => ⟨v, m, hm, hv⟩, fun ⟨v, m, hm, hv⟩ => ⟨m, hm, v, hv⟩⟩
  rw [hmem, visibilityOf]
  split
  case h_1 heq => simp [heq]
  all_goals
    rename_i heq
    simp [heq]

/-! ## The field of a parameter -/

/-- A field declaration keeps a parameter: it has what the parameter has, and the parameter initializes it. -/
structure FieldDecl.Keeps (f : FieldDecl) (p : PrimaryParam) : Prop where
  name : f.name = p.name
  type : f.type = p.type
  modifiers : f.modifiers = p.modifiers
  visibility : visibilityOf p.modifiers = some f.visibility
  readonly : f.isReadonly = p.isReadonly
  /-- The attributes have no target. -/
  untargeted : ∀ a ∈ f.attributes, a.target = none
  /-- With the target put back they are those of the parameter that were meant for the field. -/
  attributes : f.attributes.map (fun a => { a with target := some "field" }) =
    p.attributes.filter (·.target == some "field")
  init : f.init = some (.name p.name p.nameSpan)
  origin : f.origin = .captured p.name
  nameSpan : f.nameSpan = p.nameSpan

/-- Attributes of one target are the same when the target is taken off and put back. -/
theorem map_target_filter (target : String) (attributes : List Attribute) :
    ((attributes.filter (·.target == some target)).map fun a => { a with target := none }).map
        (fun a => { a with target := some target }) =
      attributes.filter (·.target == some target) := by
  rw [List.map_map]
  refine (List.map_congr_left fun a ha => ?_).trans (List.map_id _)
  have ht : a.target = some target := by simpa using (List.mem_filter.1 ha).2
  rw [Function.comp_apply, id_eq, ← ht]

theorem CapturedField.keeps_toDecl {p : PrimaryParam} {visibility : Visibility} (h : p.visibility? = some visibility) :
    (CapturedField.ofParam p visibility).toDecl.Keeps p where
  name := rfl
  type := rfl
  modifiers := rfl
  visibility := by
    have hv : (CapturedField.ofParam p visibility).toDecl.visibility = p.visibility?.getD .priv := rfl
    rw [hv, h]
    exact h
  readonly := rfl
  untargeted a ha := by
    obtain ⟨_, -, rfl⟩ := List.mem_map.1 ha
    rfl
  attributes := map_target_filter "field" p.attributes
  init := rfl
  origin := rfl
  nameSpan := rfl

/-! ## One decision -/

namespace TypeDecl

/-- A parameter behind others asks for a field and can have it: it has an accessibility modifier, and neither a member
nor an earlier parameter has its name. -/
structure Captures (d : TypeDecl) (earlier : List PrimaryParam) (p : PrimaryParam) : Prop where
  asks : ∃ m ∈ p.modifiers, m.access?.isSome
  noMember : ∀ m ∈ d.members, m.name? ≠ some p.name
  noEarlier : ∀ q ∈ earlier, q.name ≠ p.name

theorem findMember?_eq_none {d : TypeDecl} {name : String} :
    d.findMember? name = none ↔ ∀ m ∈ d.members, m.name? ≠ some name := by
  simp [findMember?]

/-- A parameter is captured exactly when it asks for a field and can have it. -/
theorem isSome_field?_decision (d : TypeDecl) (earlier : List PrimaryParam) (p : PrimaryParam) :
    (d.decision (earlier.map (·.name)) p).field?.isSome ↔ d.Captures earlier p := by
  have hearlier : (earlier.map (·.name)).contains p.name = false ↔ ∀ q ∈ earlier, q.name ≠ p.name := by simp
  have hasks : p.visibility?.isSome ↔ _ := isSome_visibilityOf p.modifiers
  constructor
  · intro h
    unfold decision at h
    split at h
    · cases h
    case h_2 visibility hv =>
      split at h
      · cases h
      · rename_i hfree
        rw [Bool.or_eq_true, not_or, Bool.not_eq_true, Bool.not_eq_true, Option.isSome_eq_false_iff,
          Option.isNone_iff_eq_none] at hfree
        exact ⟨hasks.1 (by rw [hv]; rfl), findMember?_eq_none.1 hfree.1, hearlier.1 hfree.2⟩
  · rintro ⟨asks, noMember, noEarlier⟩
    obtain ⟨visibility, hv⟩ := Option.isSome_iff_exists.1 (hasks.2 asks)
    have hcaptured : d.decision (earlier.map (·.name)) p = .captured (.ofParam p visibility) := by
      simp only [decision, hv, findMember?_eq_none.2 noMember, hearlier.2 noEarlier]
      rfl
    rw [hcaptured]
    rfl

/-- A field comes from its parameter. -/
theorem decision_eq_captured {d : TypeDecl} {earlier : List String} {p : PrimaryParam} {field : CapturedField}
    (h : d.decision earlier p = .captured field) :
    ∃ visibility, p.visibility? = some visibility ∧ field = .ofParam p visibility := by
  unfold decision at h
  split at h
  · cases h
  case h_2 visibility hv =>
    split at h
    · cases h
    · cases h
      exact ⟨visibility, hv, rfl⟩

/-! ## All decisions -/

theorem map_fst_decisionsFrom (d : TypeDecl) (earlier : List String) (ps : List PrimaryParam) :
    (d.decisionsFrom earlier ps).map (·.1) = ps.map (·.name) := by
  induction ps generalizing earlier with
  | nil => rfl
  | cons p ps ih => simp [decisionsFrom, ih]

/-- The decisions about parameters in two parts: those of the second part are made behind those of the first. -/
theorem decisionsFrom_append (d : TypeDecl) (earlier : List String) (ps qs : List PrimaryParam) :
    d.decisionsFrom earlier (ps ++ qs) = d.decisionsFrom earlier ps ++ d.decisionsFrom (earlier ++ ps.map (·.name)) qs := by
  induction ps generalizing earlier with
  | nil => simp [decisionsFrom]
  | cons p ps ih => simp [decisionsFrom, ih]

/-- The decision about a parameter, behind as many decisions as there are parameters in front of it. -/
theorem decisions_at {d : TypeDecl} {earlier later : List PrimaryParam} {p : PrimaryParam}
    (h : d.params = earlier ++ p :: later) :
    d.decisions[earlier.length]? = some (p.name, d.decision (earlier.map (·.name)) p) := by
  have hlength : (d.decisionsFrom [] earlier).length = earlier.length := by
    simpa using congrArg List.length (map_fst_decisionsFrom d [] earlier)
  rw [decisions, h, decisionsFrom_append, ← hlength, List.getElem?_append_right (Nat.le_refl _), Nat.sub_self]
  rfl

/-- The decision that stands somewhere in the list is made about a parameter, behind those in front of it. -/
theorem mem_decisionsFrom {d : TypeDecl} (earlier : List PrimaryParam) {ps : List PrimaryParam}
    {name : String} {decision : CaptureDecision} (h : (name, decision) ∈ d.decisionsFrom (earlier.map (·.name)) ps) :
    ∃ before p after, ps = before ++ p :: after ∧ name = p.name ∧
      decision = d.decision ((earlier ++ before).map (·.name)) p := by
  induction ps generalizing earlier with
  | nil => cases h
  | cons p ps ih =>
    rcases List.mem_cons.1 h with h | h
    · cases h
      exact ⟨[], p, ps, rfl, rfl, by rw [List.append_nil]⟩
    · obtain ⟨before, q, after, rfl, hname, hdecision⟩ :=
        ih (earlier ++ [p]) (by rwa [List.map_append])
      exact ⟨p :: before, q, after, rfl, hname, by rw [hdecision, List.append_assoc]; rfl⟩

/-! ## The names of the fields -/

/-- The fields of decisions have names of parameters that can have a field. -/
theorem captures_of_mem_fields {d : TypeDecl} (earlier : List PrimaryParam) {ps : List PrimaryParam} {field : CapturedField}
    (h : field ∈ fieldsOf (d.decisionsFrom (earlier.map (·.name)) ps)) :
    ∃ before p after, ps = before ++ p :: after ∧ field.name = p.name ∧ d.Captures (earlier ++ before) p := by
  obtain ⟨⟨name, decision⟩, hmem, hfield⟩ := List.mem_filterMap.1 h
  obtain ⟨before, p, after, hps, -, hdecision⟩ := mem_decisionsFrom earlier hmem
  have hcaptured : d.decision ((earlier ++ before).map (·.name)) p = .captured field := by
    rw [← hdecision]
    cases decision with
    | captured => exact congrArg _ (Option.some.inj hfield)
    | initializerOnly => cases hfield
  refine ⟨before, p, after, hps, ?_, (isSome_field?_decision d _ p).1 (by rw [hcaptured]; rfl)⟩
  obtain ⟨visibility, -, rfl⟩ := decision_eq_captured hcaptured
  rfl

theorem nodup_fields (d : TypeDecl) (earlier ps : List PrimaryParam) :
    ((fieldsOf (d.decisionsFrom (earlier.map (·.name)) ps)).map (·.name)).Nodup := by
  induction ps generalizing earlier with
  | nil => exact List.nodup_nil
  | cons p ps ih =>
    have hrest : ((fieldsOf (d.decisionsFrom (earlier.map (·.name) ++ [p.name]) ps)).map (·.name)).Nodup := by
      simpa using ih (earlier ++ [p])
    rw [decisionsFrom]
    cases hdecision : d.decision (earlier.map (·.name)) p with
    | initializerOnly => exact hrest
    | captured field =>
      refine List.nodup_cons.2 ⟨?_, hrest⟩
      -- a later field of this name would be one of a parameter with an earlier parameter of its name
      intro hmem
      obtain ⟨later, hlater, hname⟩ := List.mem_map.1 hmem
      obtain ⟨before, q, after, -, hq, hcaptures⟩ :=
        captures_of_mem_fields (earlier ++ [p]) (by rwa [List.map_append])
      obtain ⟨visibility, -, rfl⟩ := decision_eq_captured hdecision
      exact hcaptures.noEarlier p (by simp) (hname.symm.trans hq)

/-- No member has the name of a field. -/
theorem name?_ne_of_mem_fields {d : TypeDecl} {field : CapturedField} (h : field ∈ fieldsOf d.decisions) :
    ∀ m ∈ d.members, m.name? ≠ some field.name := by
  obtain ⟨before, p, after, -, hname, hcaptures⟩ := captures_of_mem_fields [] h
  rw [hname]
  exact hcaptures.noMember

/-! ## The rewritten declaration -/

/-- What a declaration becomes when its parameters are resolved: nothing but the fields of the captured parameters is
added. -/
structure Captured (d : TypeDecl) (r : ResolvedType) : Prop where
  /-- There is one decision for each parameter, in order. -/
  inOrder : r.decisions.map (·.1) = d.params.map (·.name)
  /-- The decision about a parameter gives it a field exactly when it can have one, and this field keeps it. -/
  decided : ∀ earlier p later, d.params = earlier ++ p :: later →
    ∃ decision, r.decisions[earlier.length]? = some (p.name, decision) ∧
      (decision.field?.isSome ↔ d.Captures earlier p) ∧
      ∀ field, decision = .captured field → field.name = p.name ∧ field.type = p.type ∧
        visibilityOf p.modifiers = some field.visibility ∧ field.readonly = p.isReadonly ∧ field.toDecl.Keeps p
  /-- The fields of the decisions stand in front of the members, and all else is as it was. -/
  rewritten : r.decl =
    { d with members := (r.decisions.filterMap (·.2.field?)).map (.field ·.toDecl) ++ d.members }
  /-- No other member has the name of a field that was added. -/
  apart : ∀ front m back, r.decl.members = front ++ m :: back → front.length < (r.decisions.filterMap (·.2.field?)).length →
    ∀ other ∈ front ++ back, other.name? ≠ m.name?

/-- Different fields in front of members that have none of their names: each of these fields has a name of its own. -/
theorem apart_of_nodup {fields : List CapturedField} {members : List Member} (hnodup : (fields.map (·.name)).Nodup)
    (hmembers : ∀ field ∈ fields, ∀ m ∈ members, m.name? ≠ some field.name) {front back : List Member} {m : Member}
    (hsplit : fields.map (.field ·.toDecl) ++ members = front ++ m :: back) (hfront : front.length < fields.length) :
    ∀ other ∈ front ++ back, other.name? ≠ m.name? := by
  induction fields generalizing front with
  | nil => cases hfront
  | cons field fields ih =>
    have hnew : ∀ x ∈ fields.map (fun f => Member.field f.toDecl) ++ members, x.name? ≠ some field.name := by
      intro x hx
      rcases List.mem_append.1 hx with hx | hx
      · obtain ⟨f, hf, rfl⟩ := List.mem_map.1 hx
        intro heq
        have hname : f.name = field.name := Option.some.inj heq
        exact (List.nodup_cons.1 hnodup).1 (List.mem_map.2 ⟨f, hf, hname⟩)
      · exact hmembers field (List.mem_cons_self ..) x hx
    cases front with
    | nil =>
      obtain ⟨rfl, rfl⟩ : Member.field field.toDecl = m ∧ fields.map (.field ·.toDecl) ++ members = back := by
        simpa using hsplit
      exact hnew
    | cons first front =>
      obtain ⟨rfl, hrest⟩ : Member.field field.toDecl = first ∧
          fields.map (.field ·.toDecl) ++ members = front ++ m :: back := by
        simpa using hsplit
      intro other hother
      rcases List.mem_cons.1 hother with rfl | hother
      · exact (hnew m (by rw [hrest]; simp)).symm
      · exact ih (List.nodup_cons.1 hnodup).2 (fun f hf => hmembers f (List.mem_cons_of_mem _ hf)) hrest
          (Nat.lt_of_succ_lt_succ hfront) other hother

/-- Resolving the parameters of a declaration adds exactly the fields of the captured parameters. -/
theorem captured_resolve (d : TypeDecl) : d.Captured d.resolve where
  inOrder := map_fst_decisionsFrom d [] d.params
  decided earlier p later h := by
    refine ⟨_, decisions_at h, isSome_field?_decision d earlier p, fun field hfield => ?_⟩
    obtain ⟨visibility, hv, rfl⟩ := decision_eq_captured hfield
    exact ⟨rfl, rfl, hv, rfl, CapturedField.keeps_toDecl hv⟩
  rewritten := rfl
  apart _ _ _ hsplit hfront :=
    apart_of_nodup (nodup_fields d [] d.params) (fun _ hf => name?_ne_of_mem_fields hf) hsplit hfront

end TypeDecl

end NavCheck
