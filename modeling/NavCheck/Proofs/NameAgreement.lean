import NavCheck.Proofs.Outcomes
import NavCheck.Proofs.Visits
import NavCheck.Text.Digest

/-!
# Names and references

Two walks over a declaration give a meaning to its names: the one that collects references to the parameters of the
constructor, and typing. They agree. A name that typing takes for a parameter during construction is a legal reference, one
that it takes for a parameter out of reach is an illegal reference and reported, and neither walk takes any other name for a
parameter.
-/

namespace NavCheck

/-! ## Names in expressions -/

/-- The name that an expression is, and its place. -/
def Expr.nameAt? : Expr → Option (String × Span)
  | .name text span => some (text, span)
  | _ => none

/-- The names that stand as expressions anywhere in a declaration, with their places. -/
def TypeDecl.names (d : TypeDecl) : List (String × Span) :=
  (d.exprs.flatMap Expr.nodes).filterMap Expr.nameAt?

/-- The name and the place of an occurrence. -/
def Occurrence.nameAt (o : Occurrence) : String × Span :=
  (o.name, o.span)

mutual

/-- The names in an expression are its nodes that are names. -/
theorem Expr.names_occurrences (hidden : List String) (phase : Phase) :
    ∀ e : Expr, (e.occurrences hidden phase).map Occurrence.nameAt = e.nodes.filterMap Expr.nameAt?
  | .literal _ _ | .self _ | .name _ _ => rfl
  | .unary _ operand _ => operand.names_occurrences hidden phase
  | .binary _ left right _ => by
    simp [Expr.occurrences, Expr.nodes, Expr.nameAt?, List.filterMap_cons, left.names_occurrences, right.names_occurrences]
  | .conditional condition thenBranch elseBranch _ => by
    simp [Expr.occurrences, Expr.nodes, Expr.nameAt?, List.filterMap_cons, condition.names_occurrences, thenBranch.names_occurrences,
      elseBranch.names_occurrences]
  | .assign target value _ => by
    simp [Expr.occurrences, Expr.nodes, Expr.nameAt?, List.filterMap_cons, target.names_occurrences, value.names_occurrences]
  | .lambda params body _ => body.names_occurrences _ _
  | .paren inner _ => inner.names_occurrences hidden phase
  | .access base link _ _ => by
    simp [Expr.occurrences, Expr.nodes, Expr.nameAt?, List.filterMap_cons, base.names_occurrences, link.names_occurrences]
  | .create _ args entries _ => by
    simp [Expr.occurrences, Expr.nodes, Expr.nameAt?, List.filterMap_cons, names_listOccurrences args, names_entryOccurrences entries]

theorem Link.names_occurrences (hidden : List String) (phase : Phase) :
    ∀ link : Link, (link.occurrences hidden phase).map Occurrence.nameAt = link.nodes.filterMap Expr.nameAt?
  | .member _ _ => rfl
  | .element indices => names_listOccurrences indices
  | .invoke args => names_listOccurrences args

theorem names_listOccurrences {hidden : List String} {phase : Phase} :
    ∀ es : List Expr, (listOccurrences hidden phase es).map Occurrence.nameAt = (listNodes es).filterMap Expr.nameAt?
  | [] => rfl
  | e :: es => by simp [listOccurrences, listNodes, e.names_occurrences, names_listOccurrences es]

theorem names_entryOccurrences {hidden : List String} {phase : Phase} :
    ∀ entries : List Entry,
      (entryOccurrences hidden phase entries).map Occurrence.nameAt = (entryNodes entries).filterMap Expr.nameAt?
  | [] => rfl
  | .member _ _ value :: entries => by
    simp [entryOccurrences, entryNodes, value.names_occurrences, names_entryOccurrences entries]
  | .element indices _ value :: entries => by
    simp [entryOccurrences, entryNodes, names_listOccurrences indices, value.names_occurrences,
      names_entryOccurrences entries]

end

/-- The names of a declaration are those of its occurrences. -/
theorem TypeDecl.names_eq (d : TypeDecl) : d.names = d.occurrences.map Occurrence.nameAt := by
  rw [TypeDecl.names, d.exprs_eq, TypeDecl.occurrences, List.map_flatMap, List.flatMap_map,
    List.filterMap_flatMap]
  refine congrArg (d.sites.flatMap ·) (funext fun s => ?_)
  exact (s.expr.names_occurrences s.hidden s.phase).symm

/-! ## Places of names -/

namespace SourceUnit

variable {source : String} {file : Option Nat} {unit : SourceUnit} {d : TypeDecl}

/-- No two names that stand as expressions in a declaration end in the same place. -/
theorem nodup_occurrences [Text.Hash] (h : SourceUnit.parse source file = .ok unit) (hd : d ∈ unit.types) :
    (d.occurrences.map (·.span.stop)).Nodup := by
  have hs : d.occurrences.map (·.span.stop) = d.exprs.flatMap (·.marks.names) := by
    rw [d.exprs_eq, TypeDecl.occurrences, List.map_flatMap, List.flatMap_map]
    exact congrArg (d.sites.flatMap ·) (funext fun s => s.expr.stops_occurrences s.hidden s.phase)
  have hp : ∀ ps : List Piece, ((ps.filterMap Piece.expr?).flatMap (·.marks.names)).Sublist (ps.flatMap (·.marks.names)) := by
    intro ps
    induction ps with
    | nil => exact .slnil
    | cons p ps ih =>
      cases p with
      | name span => exact ih.trans (List.sublist_append_right _ _)
      | expr e => exact (List.Sublist.refl e.marks.names).append ih
  rw [hs]
  exact (nodup_declNames h hd).sublist (hp _)

/-- The name of a primary constructor parameter and a name that stands as an expression end in different places. -/
theorem param_span_ne [Text.Hash] (h : SourceUnit.parse source file = .ok unit) (hd : d ∈ unit.types) {p : PrimaryParam}
    (hp : p ∈ d.params) {o : Occurrence} (ho : o ∈ d.occurrences) : p.nameSpan ≠ o.span := by
  intro hs
  obtain ⟨s, hm, ho⟩ := List.mem_flatMap.1 ho
  have he : Piece.expr s.expr ∈ d.pieces := by
    have : s.expr ∈ d.exprs := by
      rw [d.exprs_eq]
      exact List.mem_map_of_mem hm
    obtain ⟨piece, hm, hp⟩ := List.mem_filterMap.1 this
    cases piece with
    | name span => cases hp
    | expr e =>
      cases hp
      exact hm
  have hq : Piece.name p.nameSpan ∈ d.pieces := by
    refine List.mem_cons_of_mem _ (List.mem_append_left _ (List.mem_append_left _ ?_))
    exact List.mem_flatMap.2 ⟨p, hp, List.mem_cons_self⟩
  have hx : p.nameSpan.stop ∈ (Piece.expr s.expr).marks.names := by
    rw [hs, Piece.marks, ← s.expr.stops_occurrences s.hidden s.phase]
    exact List.mem_map_of_mem ho
  cases eq_of_nodup_flatMap (nodup_declNames h hd) hq he (List.mem_singleton_self _) hx

end SourceUnit

/-! ## Uses of parameters -/

/-- The references of a use during a phase. -/
def ParamUse.during (u : ParamUse) : Phase → List Span
  | .construction => u.legal
  | .afterwards => u.illegal

/-- The use of a name holds the references of the name. -/
theorem ParamUse.mem_ofReferences {references : List Reference} {name : String} {span : Span} {phase : Phase} :
    span ∈ (ParamUse.ofReferences name references).during phase ↔ ⟨name, span, phase⟩ ∈ references := by
  have hr : ∀ r : Reference, (r.name = name ∧ r.phase = phase) ∧ r.span = span ↔ r = ⟨name, span, phase⟩ := by
    rintro ⟨text, place, time⟩
    simp only [Reference.mk.injEq]
    tauto
  have hm : (∃ r ∈ references, (r.name = name ∧ r.phase = phase) ∧ r.span = span) ↔ ⟨name, span, phase⟩ ∈ references := by
    simp only [hr, exists_eq_right]
  rw [← hm]
  cases phase <;> simp [ParamUse.ofReferences, ParamUse.during, and_assoc]

/-- A use holds the references of its name. -/
theorem ParamUse.mem_list {names : List String} {references : List Reference} {name : String} {span : Span} {phase : Phase} :
    (∃ u ∈ ParamUse.list references names, u.name = name ∧ span ∈ u.during phase) ↔
      name ∈ names ∧ ⟨name, span, phase⟩ ∈ references := by
  induction names generalizing references with
  | nil => simp [ParamUse.list]
  | cons n ns ih =>
    have hu : span ∈ (ParamUse.ofReferences n references).during phase ↔ ⟨n, span, phase⟩ ∈ references := mem_ofReferences
    have hf : ⟨name, span, phase⟩ ∈ references.filter (·.name != n) ↔ ⟨name, span, phase⟩ ∈ references ∧ name ≠ n := by
      simp
    rw [ParamUse.list]
    simp only [List.mem_cons, or_and_right, exists_or, exists_eq_left, ih, hf]
    constructor
    · rintro (⟨rfl, hs⟩ | ⟨hn, hr, -⟩)
      · exact .inl ⟨rfl, hu.1 hs⟩
      · exact .inr ⟨hn, hr⟩
    · rintro (⟨rfl, hr⟩ | ⟨hn, hr⟩)
      · exact .inl ⟨rfl, hu.2 hr⟩
      · by_cases hne : name = n
        · subst hne
          exact .inl ⟨rfl, hu.2 hr⟩
        · exact .inr ⟨hn, hr, hne⟩

/-- The report of an illegal reference stands at the reference, whether the parameter is kept or not. -/
theorem CaptureFinding.illegalReference_shows (name : String) (span : Span) (captured : Bool) :
    (CaptureFinding.illegalReference name span captured).codeText = "CAP001" ∧
      (CaptureFinding.illegalReference name span captured).span? = some span := by
  cases captured <;> exact ⟨rfl, rfl⟩

namespace TypeDecl

variable {d : TypeDecl}

/-- The uses hold the references that name parameters. -/
theorem mem_paramUses {name : String} {span : Span} {phase : Phase} :
    (∃ u ∈ d.paramUses, u.name = name ∧ span ∈ u.during phase) ↔
      name ∈ d.params.map (·.name) ∧ ⟨name, span, phase, false⟩ ∈ d.occurrences := by
  rw [paramUses, ParamUse.mem_list, d.references_eq_occurrences, List.mem_filterMap]
  refine and_congr_right fun _ => ⟨?_, fun ho => ⟨_, ho, rfl⟩⟩
  rintro ⟨⟨text, place, time, hidden⟩, ho, hr⟩
  cases hidden with
  | true => cases hr
  | false =>
    cases hr
    exact ho

/-- An illegal reference has its finding. -/
theorem mem_of_illegal {u : ParamUse} {span : Span} (hu : u ∈ d.paramUses) (hs : span ∈ u.illegal) :
    ∃ captured, CaptureFinding.illegalReference u.name span captured ∈ d.resolve.diagnostics := by
  have hm : (u.name, span) ∈ illegalReferences d.paramUses := by
    rw [illegalReferences, List.mem_mergeSort, List.mem_flatMap]
    exact ⟨u, hu, List.mem_map_of_mem hs⟩
  exact ⟨keepsField d.decisions u.name, List.mem_append_right _ (List.mem_map.2 ⟨_, hm, rfl⟩)⟩

/-- An illegal reference is reported. -/
theorem reported_of_illegal {u : ParamUse} {span : Span} (hu : u ∈ d.paramUses) (hs : span ∈ u.illegal) :
    ∃ f ∈ d.resolve.diagnostics, f.codeText = "CAP001" ∧ f.span? = some span := by
  obtain ⟨captured, hm⟩ := mem_of_illegal hu hs
  exact ⟨_, hm, CaptureFinding.illegalReference_shows _ _ _⟩

/-- The added fields are fields of parameters. -/
theorem mem_fieldsOf {f : CapturedField} {earlier : List String} {params : List PrimaryParam}
    (hf : f ∈ fieldsOf (d.decisionsFrom earlier params)) : ∃ p ∈ params, ∃ visibility, f = .ofParam p visibility := by
  induction params generalizing earlier with
  | nil => cases hf
  | cons p ps ih =>
    obtain ⟨decision, hm, hd⟩ := List.mem_filterMap.1 hf
    rcases List.mem_cons.1 hm with rfl | hm
    · refine ⟨p, List.mem_cons_self, ?_⟩
      unfold TypeDecl.decision at hd
      split at hd
      · cases hd
      split at hd
      · cases hd
      · cases hd
        exact ⟨_, rfl⟩
    · obtain ⟨q, hq, hs⟩ := ih (List.mem_filterMap.2 ⟨decision, hm, hd⟩)
      exact ⟨q, List.mem_cons_of_mem _ hq, hs⟩

/-- The names of a resolved declaration are those that are written, and those of the parameters that initialize the added
fields. -/
theorem occurrences_resolve {o : Occurrence} (ho : o ∈ d.resolve.decl.occurrences) :
    o ∈ d.occurrences ∨ ∃ p ∈ d.params, o.span = p.nameSpan ∧
      o.phase = if hasModifier p.modifiers .static || hasModifier p.modifiers .const then .afterwards else .construction := by
  have hs : d.resolve.decl.sites = d.headerSites ++
      (((fieldsOf d.decisions).map fun f => Member.field f.toDecl) ++ d.members).flatMap Member.sites := rfl
  rw [occurrences, hs, List.flatMap_append, List.flatMap_append, List.flatMap_append, List.mem_append,
    List.mem_append] at ho
  rw [occurrences, sites, List.flatMap_append, List.mem_append]
  rcases ho with ho | ho | ho
  · exact .inl (.inl ho)
  · rw [List.flatMap_map, List.flatMap_assoc] at ho
    obtain ⟨f, hf, ho⟩ := List.mem_flatMap.1 ho
    obtain ⟨p, hp, visibility, rfl⟩ := mem_fieldsOf hf
    obtain rfl := List.mem_singleton.1 ho
    exact .inr ⟨p, hp, rfl, rfl⟩
  · exact .inl (.inr ho)

end TypeDecl

/-! ## Typing -/

/-- What a name that is looked up gives. What it stands for is noted, and this alone decides the answer. A local gives its type.
A parameter gives its type during construction, and the error type afterwards; neither is reported here. A member gives what it
is, except that an instance member in static code is reported and gives the error type, and so does a name that stands for
nothing. -/
theorem Env.lookup_answers (env : Env) (name : String) (span : Span) :
    usesOf (env.lookup name span).notes = [⟨name, span, env.meaning name⟩] ∧
      ((env.lookup name span).value, findingsOf (env.lookup name span).notes) =
        match env.meaning name with
        | .local type => (.value type, [])
        | .parameter param .construction => (.value param.type, [])
        | .parameter _ .afterwards => (.value .error, [])
        | .member m =>
          if env.isStatic ∧ ¬m.isStatic then (.value .error, [(TypingFault.instanceInStatic name).finding span])
          else (.ofMember m, [])
        | .unknown => (.value .error, [(TypingFault.unknownName name).finding span]) := by
  unfold lookup
  cases env.meaning name with
  | «local» type => exact ⟨rfl, rfl⟩
  | parameter param phase => cases phase <;> exact ⟨rfl, rfl⟩
  | member m =>
    by_cases hm : env.isStatic ∧ ¬m.isStatic
    · have hb : (env.isStatic && !m.isStatic) = true := by simpa using hm
      simp only [operandOf, hb, if_pos hm]
      exact ⟨rfl, rfl⟩
    · have hb : (env.isStatic && !m.isStatic) = false := by simpa using hm
      simp only [operandOf, hb, if_neg hm]
      exact ⟨rfl, rfl⟩
  | unknown => exact ⟨rfl, rfl⟩

/-- The names that are looked up on a visit are occurrences of the sites. -/
theorem Typer.Visits.names {t t' : Typer} {ss : List Site} (h : t.Visits ss t') :
    ∀ use ∈ t'.report.names, use ∈ t.report.names ∨ ∃ o ∈ ss.flatMap Site.occurrences, use.Agrees t.env.primary o := by
  induction h with
  | refl => exact fun use hu => .inl hu
  | move env _ _ _ ih => exact ih
  | quiet part h hq ih =>
    intro use hu
    rcases List.mem_append.1 hu with hu | hu
    · exact ih use hu
    · have hn : Traced t.env.table t.env.primary [] [] (part _).notes := .of_quiet hq
      obtain ⟨o, ho, -⟩ := hn.names use hu
      cases ho
  | @root u sites site expectation h hidden phase ih =>
    intro use hu
    rw [Typer.names_checked] at hu
    rw [List.flatMap_append]
    rcases List.mem_append.1 hu with hu | hu
    · refine (ih use hu).imp id fun ⟨o, ho, ha⟩ => ⟨o, List.mem_append_left _ ho, ha⟩
    · obtain ⟨o, ho, ha⟩ := (traced_rootType hidden site.expr expectation).names use hu
      rw [h.primary] at ha
      rw [phase] at ho
      exact .inr ⟨o, List.mem_append_right _ (by simpa [Site.occurrences] using ho), ha⟩

/-- The names that are looked up in the code of a declaration of a unit agree with its occurrences. -/
theorem TypeDecl.use_agrees [Text.Hash] {source : String} {file : Option Nat} {unit : SourceUnit} {d : TypeDecl}
    (h : SourceUnit.parse source file = .ok unit) (hd : d ∈ unit.types) {use : NameUse}
    (hu : use ∈ (d.resolve.decl.check (TypeTable.build unit.resolve.unit).value).names) :
    ∃ primary : List ParamSig, primary.map (·.name) = d.params.map (·.name) ∧
      ∃ o ∈ d.resolve.decl.occurrences, use.Agrees primary o := by
  rcases d.visits_of_unit h hd with he | ⟨info, t, hv, hc, hr⟩
  · rw [he] at hu
    cases hu
  · rw [hr] at hu
    exact ⟨info.constructor, hc, (hv.names use hu).resolve_left List.not_mem_nil⟩

/-- The two walks over a declaration agree about every name in it that typing looks up, given by its place. What the name stands
for there is what decides the answer to typing (`Env.lookup_answers`). Where it stands for a parameter of the constructor and
has the type of that parameter, the references hold it as a legal one of this parameter. Where it stands for a parameter out of
reach, which gives the error type without a word, they hold it as an illegal one, and this is reported. Where it stands for a
local, or for anything else than a parameter, they hold no reference in its place. -/
theorem TypeDecl.lookups_agree_with_references [Text.Hash] {source : String} {file : Option Nat} {unit : SourceUnit} {d : TypeDecl}
    {text : String} {span : Span} {use : NameUse} (h : SourceUnit.parse source file = .ok unit) (hd : d ∈ unit.types)
    (hw : (text, span) ∈ d.names)
    (hu : use ∈ (d.resolve.decl.check (TypeTable.build unit.resolve.unit).value).names) (hs : use.span = span) :
    use.name = text ∧
      (∀ param, use.meaning = .parameter param .construction →
        param.name = text ∧ ∃ u ∈ d.paramUses, u.name = text ∧ span ∈ u.legal) ∧
      (∀ param, use.meaning = .parameter param .afterwards →
        param.name = text ∧ (∃ u ∈ d.paramUses, u.name = text ∧ span ∈ u.illegal) ∧
          ∃ f ∈ d.resolve.diagnostics, f.codeText = "CAP001" ∧ f.span? = some span) ∧
      ((∀ param phase, use.meaning ≠ .parameter param phase) →
        ∀ u ∈ d.paramUses, span ∉ u.legal ∧ span ∉ u.illegal) := by
  rw [d.names_eq] at hw
  obtain ⟨o, ho, hn⟩ := List.mem_map.1 hw
  obtain ⟨rfl, rfl⟩ := Prod.mk.inj hn
  obtain ⟨primary, hp, o', ho', ha⟩ := d.use_agrees h hd hu
  have unique : ∀ p ∈ d.occurrences, p.span = o.span → p = o := fun p hpo hps =>
    List.inj_on_of_nodup_map (SourceUnit.nodup_occurrences h hd) hpo ho (congrArg Span.stop hps)
  have hso : o'.span = o.span := ha.2.1.symm.trans hs
  obtain rfl : o' = o := by
    rcases occurrences_resolve ho' with hm | ⟨p, hpd, hps, -⟩
    · exact unique o' hm hso
    · exact absurd (hps.symm.trans hso) (SourceUnit.param_span_ne h hd hpd ho)
  obtain ⟨hname, -, hm⟩ := ha
  have recorded : ∀ param phase, use.meaning = .parameter param phase →
      param.name = o'.name ∧ ∃ u ∈ d.paramUses, u.name = o'.name ∧ o'.span ∈ u.during phase := by
    intro param phase hu
    rw [hu] at hm
    obtain ⟨hh, rfl, hpn, hpm⟩ := hm
    refine ⟨hpn, mem_paramUses.2 ⟨?_, ?_⟩⟩
    · rw [← hp, ← hpn]
      exact List.mem_map_of_mem hpm
    · rwa [← hh]
  refine ⟨hname, fun param hu => recorded param .construction hu, fun param hu => ?_, fun hne u hu => ?_⟩
  · obtain ⟨hpn, u, hu, hun, hus⟩ := recorded param .afterwards hu
    exact ⟨hpn, ⟨u, hu, hun, hus⟩, reported_of_illegal hu hus⟩
  · have nothing : ∀ phase, o'.span ∉ u.during phase := by
      intro phase hus
      obtain ⟨hup, huo⟩ := mem_paramUses.1 ⟨u, hu, rfl, hus⟩
      have hsame := unique _ huo rfl
      have hun : u.name = o'.name := congrArg Occurrence.name hsame
      have hh : o'.hidden = false := congrArg Occurrence.hidden hsame.symm
      rw [← hp, hun] at hup
      obtain ⟨param, hpm, hpn⟩ := List.mem_map.1 hup
      cases hmeaning : use.meaning with
      | «local» type =>
        rw [hmeaning, hh] at hm
        cases hm
      | parameter param phase => exact hne param phase hmeaning
      | member sig =>
        rw [hmeaning] at hm
        exact hm.2 param hpm hpn
      | unknown =>
        rw [hmeaning] at hm
        exact hm.2 param hpm hpn
    exact ⟨nothing .construction, nothing .afterwards⟩

/-- In a method a parameter is out of reach even when it is kept in a field. -/
theorem lookups_agree_in_method :
    ∃ unit, SourceUnit.parse "class A(private int x) { int F() => x; }" none = .ok unit ∧
      ∃ d ∈ unit.types, ("x", ⟨none, 36, 37⟩) ∈ d.names ∧
        ∃ f ∈ d.resolve.diagnostics, f.codeText = "CAP001" ∧ f.span? = some ⟨none, 36, 37⟩ := by
  have evaluated : ∃ unit, SourceUnit.parse "class A(private int x) { int F() => x; }" none = .ok unit ∧
      ∃ d ∈ unit.types, ("x", ⟨none, 36, 37⟩) ∈ d.names ∧
        ∃ use ∈ (d.resolve.decl.check (TypeTable.build unit.resolve.unit).value).names,
          use.span = ⟨none, 36, 37⟩ ∧ use.meaning = .parameter ⟨"x", .int, false⟩ .afterwards := by
    decide +kernel
  obtain ⟨unit, h, d, hd, hw, use, hu, hs, hm⟩ := evaluated
  obtain ⟨-, -, illegal, -⟩ := d.lookups_agree_with_references h hd hw hu hs
  exact ⟨unit, h, d, hd, hw, (illegal _ hm).2.2⟩

end NavCheck
