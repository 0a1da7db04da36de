import NavCheck.Proofs.NameAgreement
import NavCheck.Proofs.Outcomes
import NavCheck.Proofs.Scoping
import NavCheck.Text.Digest

/-!
# References to parameters

The references that are collected for a primary constructor parameter are exactly the places that mention it, each once: those
that run during construction are legal, the others are not. Every illegal one is reported exactly once, in the order of the
text and behind all findings about the qualifiers of parameters, whether the parameter is kept in a field or not.
-/

namespace NavCheck

/-! ## The uses of one parameter -/

/-- The use of the parameters of a name: that of the first of them. -/
def TypeDecl.use? (d : TypeDecl) (name : String) : Option ParamUse :=
  d.paramUses.find? (·.name == name)

/-- The use of a name holds all references of the name. -/
theorem ParamUse.find?_list {names : List String} {references : List Reference} {name : String} (h : name ∈ names) :
    (ParamUse.list references names).find? (·.name == name) = some (ParamUse.ofReferences name references) := by
  induction names generalizing references with
  | nil => cases h
  | cons n ns ih =>
    rw [ParamUse.list]
    by_cases hn : n = name
    · subst hn
      exact List.find?_cons_of_pos (beq_self_eq_true n)
    · rw [List.find?_cons_of_neg (by simpa [ParamUse.ofReferences] using hn),
        ih ((List.mem_cons.1 h).resolve_left (Ne.symm hn))]
      have hf : ∀ phase, (references.filter (·.name != n)).filter (fun r => r.name == name && r.phase == phase) =
          references.filter fun r => r.name == name && r.phase == phase := by
        intro phase
        rw [List.filter_filter]
        refine List.filter_congr fun r _ => ?_
        by_cases hr : r.name = name
        · simp [hr, Ne.symm hn]
        · simp [hr]
      simp only [ParamUse.ofReferences, hf]

namespace ParamUse

variable {names : List String} {references : List Reference}

theorem mem_legal {name : String} {span : Span} :
    span ∈ (ofReferences name references).legal ↔ ⟨name, span, .construction⟩ ∈ references :=
  @mem_ofReferences references name span .construction

theorem mem_illegal {name : String} {span : Span} :
    span ∈ (ofReferences name references).illegal ↔ ⟨name, span, .afterwards⟩ ∈ references :=
  @mem_ofReferences references name span .afterwards

/-- References of the same place are the same where no two have the same place. -/
theorem eq_of_span (h : (references.map (·.span)).Nodup) {r r' : Reference} (hr : r ∈ references) (hr' : r' ∈ references)
    (hs : r.span = r'.span) : r = r' :=
  List.inj_on_of_nodup_map h hr hr' hs

/-- Where no two references have the same place, the use of a name holds every place once. -/
theorem nodup_ofReferences (h : (references.map (·.span)).Nodup) (name : String) :
    ((ofReferences name references).legal ++ (ofReferences name references).illegal).Nodup := by
  refine List.nodup_append.2 ⟨h.sublist (List.filter_sublist.map _), h.sublist (List.filter_sublist.map _), ?_⟩
  rintro span hl _ hi rfl
  cases eq_of_span h (mem_legal.1 hl) (mem_illegal.1 hi) rfl

/-- Where no two references have the same place, no two illegal ones of all uses have. -/
theorem nodup_illegal (h : (references.map (·.span)).Nodup) :
    ((ParamUse.list references names).flatMap (·.illegal)).Nodup := by
  induction names generalizing references with
  | nil => exact List.nodup_nil
  | cons n ns ih =>
    rw [ParamUse.list, List.flatMap_cons, List.nodup_append]
    refine ⟨(List.nodup_append.1 (nodup_ofReferences h n)).2.1, ih (h.sublist (List.filter_sublist.map _)), ?_⟩
    rintro span hn _ hu rfl
    obtain ⟨u, hu, hs⟩ := List.mem_flatMap.1 hu
    have hf := (mem_list.1 ⟨u, hu, rfl, (show span ∈ u.during .afterwards from hs)⟩).2
    obtain ⟨hm, hne⟩ := List.mem_filter.1 hf
    cases eq_of_span h (mem_illegal.1 hn) hm rfl
    simp at hne

end ParamUse

/-! ## Reports -/

theorem Span.before_trans {a b c : Span} (h : a.before b = true) (h' : b.before c = true) : a.before c = true := by
  simp only [before, Bool.or_eq_true, Bool.and_eq_true, decide_eq_true_eq, beq_iff_eq] at *
  omega

theorem Span.before_total (a b : Span) : (a.before b || b.before a) = true := by
  simp only [before, Bool.or_eq_true, Bool.and_eq_true, decide_eq_true_eq, beq_iff_eq]
  omega

/-- The illegal references of uses are listed with their places, in some order. -/
theorem perm_illegalReferences (uses : List ParamUse) :
    ((illegalReferences uses).map (·.2)).Perm (uses.flatMap (·.illegal)) := by
  refine ((List.mergeSort_perm _ _).map _).trans (.of_eq ?_)
  rw [List.map_flatMap]
  refine congrArg (uses.flatMap ·) (funext fun u => ?_)
  rw [List.map_map]
  exact List.map_id _

/-- Illegal references of different places are listed in the order of the text. -/
theorem pairwise_illegalReferences {uses : List ParamUse} (h : (uses.flatMap (·.illegal)).Nodup) :
    ((illegalReferences uses).map (·.2)).Pairwise fun a b => a.before b ∧ a ≠ b := by
  have sorted := @List.pairwise_mergeSort (String × Span) (fun a b => a.2.before b.2) (fun _ _ _ => Span.before_trans)
    fun _ _ => Span.before_total _ _
  exact (List.pairwise_map.2 (sorted _)).and ((perm_illegalReferences uses).nodup_iff.2 h)

namespace TypeDecl

variable {source : String} {file : Option Nat} {unit : SourceUnit} {d : TypeDecl}

/-- No two names of a declaration that was read stand in the same place. -/
theorem nodup_spans [Text.Hash] (h : SourceUnit.parse source file = .ok unit) (hd : d ∈ unit.types) :
    (d.occurrences.map (·.span)).Nodup := by
  refine List.Nodup.of_map Span.stop ?_
  rw [List.map_map]
  exact SourceUnit.nodup_occurrences h hd

/-- No two references of a declaration that was read have the same place. -/
theorem nodup_references [Text.Hash] (h : SourceUnit.parse source file = .ok unit) (hd : d ∈ unit.types) :
    (d.references.map (·.span)).Nodup := by
  rw [d.references_eq_occurrences, List.Nodup, List.pairwise_map]
  refine (List.pairwise_map.1 (nodup_spans h hd)).filterMap _ fun o o' hne r hr r' hr' => ?_
  have place : ∀ {o : Occurrence} {r : Reference}, o.reference? = some r → r.span = o.span := by
    intro o r hr
    unfold Occurrence.reference? at hr
    split at hr
    · cases hr
    · cases hr
      rfl
  rwa [place hr, place hr']

/-- A phase is construction exactly when the place runs then and no lambda is around. -/
theorem phaseBelow_eq_construction {lambdas : List (List LambdaParam)} {place : CodePlace} :
    Phase.construction = phaseBelow lambdas place.phase ↔ lambdas = [] ∧ place.constructs = true := by
  cases lambdas <;> cases h : place.constructs <;> simp [phaseBelow, CodePlace.phase, h]

theorem phaseBelow_eq_afterwards {lambdas : List (List LambdaParam)} {place : CodePlace} :
    Phase.afterwards = phaseBelow lambdas place.phase ↔ ¬(lambdas = [] ∧ place.constructs = true) := by
  cases lambdas <;> cases h : place.constructs <;> simp [phaseBelow, CodePlace.phase, h]

/-- The findings about parameters all have the code of qualifiers. -/
theorem codeText_paramFindings {p : PrimaryParam} {f : Diagnostic} (hf : f ∈ d.paramFindings p) : f.codeText = "CAP002" := by
  rcases List.mem_append.1 hf with hf | hf
  · obtain ⟨problem, -, rfl⟩ := List.mem_map.1 hf
    rfl
  · unfold memberConflict? at hf
    split at hf
    · obtain rfl := List.mem_singleton.1 hf
      rfl
    · cases hf

/-- References to the parameters of the constructor are classified completely and exactly. No two names of the declaration
stand in the same place. For every parameter the legal references are the places that mention it where code runs during
construction and outside of lambdas, the illegal ones are all other places that mention it, and every place is held once.
Resolving reports each illegal reference of each parameter once, in the order of the text and behind the findings about
qualifiers. -/
theorem references_classified [Text.Hash] (h : SourceUnit.parse source file = .ok unit) (hd : d ∈ unit.types) :
    (d.names.map (·.2)).Nodup ∧
      (∀ p ∈ d.params, ∃ use, d.use? p.name = some use ∧ (use.legal ++ use.illegal).Nodup ∧
        (∀ span, span ∈ use.legal ↔
          ∃ place lambdas, d.Mentions p.name span place lambdas ∧ lambdas = [] ∧ place.constructs = true) ∧
        (∀ span, span ∈ use.illegal ↔
          ∃ place lambdas, d.Mentions p.name span place lambdas ∧ ¬(lambdas = [] ∧ place.constructs = true))) ∧
      ∃ (qualifiers reports : List Diagnostic) (places : List Span), d.resolve.diagnostics = qualifiers ++ reports ∧
        (∀ f ∈ qualifiers, f.codeText = "CAP002") ∧ (∀ f ∈ reports, f.codeText = "CAP001") ∧
        reports.map Diagnostic.span? = places.map some ∧ places.Pairwise (fun a b => a.before b ∧ a ≠ b) ∧
        ∀ span, span ∈ places ↔ ∃ p ∈ d.params, ∃ use, d.use? p.name = some use ∧ span ∈ use.illegal := by
  have hr : (d.references.map (·.span)).Nodup := nodup_references h hd
  have hu : ∀ p ∈ d.params, d.use? p.name = some (.ofReferences p.name d.references) := fun p hp =>
    ParamUse.find?_list (List.mem_map_of_mem hp)
  refine ⟨?_, fun p hp => ⟨_, hu p hp, ParamUse.nodup_ofReferences hr _, fun span => ?_, fun span => ?_⟩, ?_⟩
  · rw [d.names_eq, List.map_map]
    exact nodup_spans h hd
  · simp only [ParamUse.mem_legal, mem_references, phaseBelow_eq_construction]
  · simp only [ParamUse.mem_illegal, mem_references, phaseBelow_eq_afterwards]
  · refine ⟨_, _, (illegalReferences d.paramUses).map (·.2), rfl, fun f hf => ?_, fun f hf => ?_, ?_,
      pairwise_illegalReferences (ParamUse.nodup_illegal hr), fun span => ?_⟩
    · obtain ⟨p, -, hf⟩ := List.mem_flatMap.1 hf
      exact codeText_paramFindings hf
    · obtain ⟨r, -, rfl⟩ := List.mem_map.1 hf
      exact (CaptureFinding.illegalReference_shows ..).1
    · rw [List.map_map, List.map_map]
      exact List.map_congr_left fun r _ => (CaptureFinding.illegalReference_shows ..).2
    · rw [(perm_illegalReferences d.paramUses).mem_iff, List.mem_flatMap]
      constructor
      · rintro ⟨u, hm, hs⟩
        obtain ⟨hn, hi⟩ := ParamUse.mem_list.1 ⟨u, hm, rfl, (show span ∈ u.during .afterwards from hs)⟩
        obtain ⟨p, hp, hn⟩ := List.mem_map.1 hn
        exact ⟨p, hp, _, hu p hp, ParamUse.mem_illegal.2 (hn ▸ hi)⟩
      · rintro ⟨p, hp, use, he, hs⟩
        rw [hu p hp, Option.some.injEq] at he
        subst he
        exact ⟨_, List.mem_of_find?_eq_some (hu p hp), hs⟩

end TypeDecl

/-- A default value mentions a parameter during construction, and a local of its own name mentions it in its initializer, but
not behind. -/
theorem references_classified_around_local :
    ∃ unit, SourceUnit.parse "class A(int x, int y = x) { int F() { var x = x; return x; } }" none = .ok unit ∧
      ∃ d ∈ unit.types,
        (∃ place, d.Mentions "x" ⟨none, 23, 24⟩ place [] ∧ place.constructs = true) ∧
        (∃ place lambdas, d.Mentions "x" ⟨none, 46, 47⟩ place lambdas ∧ ¬(lambdas = [] ∧ place.constructs = true)) ∧
        ∀ place lambdas, ¬d.Mentions "x" ⟨none, 56, 57⟩ place lambdas := by
  have evaluated :
      ∃ unit, SourceUnit.parse "class A(int x, int y = x) { int F() { var x = x; return x; } }" none = .ok unit ∧
        ∃ d ∈ unit.types, "x" ∈ d.params.map (·.name) ∧
          d.use? "x" = some ⟨"x", [⟨none, 23, 24⟩], [⟨none, 46, 47⟩]⟩ := by
    decide +kernel
  obtain ⟨unit, h, d, hd, hx, hu⟩ := evaluated
  obtain ⟨p, hp, hx⟩ := List.mem_map.1 hx
  obtain ⟨use, he, -, legal, illegal⟩ := (d.references_classified h hd).2.1 p hp
  rw [hx] at he legal illegal
  obtain rfl := Option.some.inj (he.symm.trans hu)
  refine ⟨unit, h, d, hd, ?_, (illegal _).1 List.mem_cons_self, fun place lambdas hm => ?_⟩
  · obtain ⟨place, lambdas, hm, rfl, hc⟩ := (legal _).1 List.mem_cons_self
    exact ⟨place, hm, hc⟩
  · by_cases hc : lambdas = [] ∧ place.constructs = true
    · have hl := (legal ⟨none, 56, 57⟩).2 ⟨place, lambdas, hm, hc⟩
      simp at hl
    · have hi := (illegal ⟨none, 56, 57⟩).2 ⟨place, lambdas, hm, hc⟩
      simp at hi

end NavCheck
