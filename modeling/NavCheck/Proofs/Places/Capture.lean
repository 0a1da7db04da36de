import NavCheck.Capture.Resolve
import NavCheck.Proofs.Places.Syntax

/-!
# Places of captured parameters

What is found out about primary constructor parameters is found at places of the declaration, and the declaration with
fields has no other places.
-/

namespace NavCheck

/-- A finding with a primary label, where all labels and suggestions are at good places. -/
structure Diagnostic.Within (good : Span → Prop) (d : Diagnostic) : Prop where
  primary : ∃ label, d.primary = some label ∧ good label.span
  secondary : ∀ label ∈ d.secondary, good label.span
  suggestions : ∀ s ∈ d.suggestions, ∀ span ∈ s.span, good span

variable {good : Span → Prop}

namespace Diagnostic

/-- A finding at a good place is at good places. -/
theorem within_coded (code category message : String) {span : Span} (h : good span) :
    (coded code category message (some span)).Within good :=
  ⟨⟨_, rfl, h⟩, List.forall_mem_nil _, List.forall_mem_nil _⟩

namespace Within

variable {d : Diagnostic} (h : d.Within good)

include h

/-- A text for its label leaves a finding at good places. -/
theorem labelled (message : String) : (d.labelled message).Within good := by
  obtain ⟨label, hl, hg⟩ := h.primary
  exact ⟨⟨⟨label.span, message, true⟩, by rw [Diagnostic.labelled, hl, Option.map_some], hg⟩, h.secondary, h.suggestions⟩

/-- A further label at a good place leaves a finding at good places. -/
theorem also {span : Span} (hs : good span) (message : String) : (d.also span message).Within good :=
  ⟨h.primary, List.forall_mem_append.2 ⟨h.secondary, List.forall_mem_singleton.2 hs⟩, h.suggestions⟩

/-- A note leaves a finding at good places. -/
theorem noting (note : String) : (d.noting note).Within good :=
  ⟨h.primary, h.secondary, h.suggestions⟩

/-- A suggestion at a good place leaves a finding at good places. -/
theorem suggesting {s : Suggestion} (hs : ∀ span ∈ s.span, good span) : (d.suggesting s).Within good :=
  ⟨h.primary, h.secondary, List.forall_mem_append.2 ⟨h.suggestions, List.forall_mem_singleton.2 hs⟩⟩

end Within

end Diagnostic

/-! ## References -/

mutual

/-- References in an expression at good places are at good places: by induction on the expression. -/
theorem Expr.Within.references {e : Expr} (hidden : List String) (phase : Phase) (h : e.Within good) :
    ∀ r ∈ e.references hidden phase, good r.span := by
  cases e <;> simp only [Expr.Within] at h <;> simp only [Expr.references]
  case literal => exact List.forall_mem_nil _
  case name text span =>
    split
    · exact List.forall_mem_nil _
    · exact List.forall_mem_singleton.2 h
  case self => exact List.forall_mem_nil _
  case unary operand span => exact Expr.Within.references hidden phase h.1
  case binary left right span =>
    exact List.forall_mem_append.2 ⟨Expr.Within.references hidden phase h.1, Expr.Within.references hidden phase h.2.1⟩
  case conditional condition thenBranch elseBranch span =>
    exact List.forall_mem_append.2 ⟨List.forall_mem_append.2 ⟨Expr.Within.references hidden phase h.1,
      Expr.Within.references hidden phase h.2.1⟩, Expr.Within.references hidden phase h.2.2.1⟩
  case assign target value span =>
    exact List.forall_mem_append.2 ⟨Expr.Within.references hidden phase h.1, Expr.Within.references hidden phase h.2.1⟩
  case lambda params body span => exact Expr.Within.references _ _ h.2.1
  case paren inner span => exact Expr.Within.references hidden phase h.1
  case access base link guarded span =>
    exact List.forall_mem_append.2 ⟨Expr.Within.references hidden phase h.1, Link.Within.references hidden phase h.2.1⟩
  case create type args entries span =>
    exact List.forall_mem_append.2 ⟨listWithin_references hidden phase h.2.1, entriesWithin_references hidden phase h.2.2.1⟩

/-- References in a link at good places are at good places. -/
theorem Link.Within.references {l : Link} (hidden : List String) (phase : Phase) (h : l.Within good) :
    ∀ r ∈ l.references hidden phase, good r.span := by
  cases l with
  | member => exact List.forall_mem_nil _
  | element indices => exact listWithin_references hidden phase h
  | invoke args => exact listWithin_references hidden phase h

/-- References in expressions at good places are at good places. -/
theorem listWithin_references {es : List Expr} (hidden : List String) (phase : Phase) (h : listWithin good es) :
    ∀ r ∈ listReferences hidden phase es, good r.span := by
  cases es with
  | nil => exact List.forall_mem_nil _
  | cons e es =>
    exact List.forall_mem_append.2 ⟨Expr.Within.references hidden phase h.1, listWithin_references hidden phase h.2⟩

/-- References in entries at good places are at good places. -/
theorem entriesWithin_references {entries : List Entry} (hidden : List String) (phase : Phase)
    (h : entriesWithin good entries) : ∀ r ∈ entryReferences hidden phase entries, good r.span := by
  match entries, h with
  | [], _ => exact List.forall_mem_nil _
  | .member _ _ value :: entries, h =>
    exact List.forall_mem_append.2 ⟨Expr.Within.references hidden phase h.2.1, entriesWithin_references hidden phase h.2.2⟩
  | .element indices _ value :: entries, h =>
    exact List.forall_mem_append.2 ⟨List.forall_mem_append.2 ⟨listWithin_references hidden phase h.1,
      Expr.Within.references hidden phase h.2.2.1⟩, entriesWithin_references hidden phase h.2.2.2⟩

end

/-- References in an expression that may be missing are at good places. -/
theorem within_optionReferences {o : Option Expr} (hidden : List String) (phase : Phase) (h : ∀ e ∈ o, e.Within good) :
    ∀ r ∈ optionReferences hidden phase o, good r.span := by
  cases o with
  | none => exact List.forall_mem_nil _
  | some e => exact (h e rfl).references hidden phase

mutual

/-- References in a statement at good places are at good places: by induction on the statement. -/
theorem Statement.Within.references {s : Statement} (hidden : List String) (h : s.Within good) :
    ∀ r ∈ s.references hidden, good r.span := by
  match s, h with
  | .block list _, h => exact statementsWithin_references hidden h.1
  | .give value _, h => exact within_optionReferences hidden _ h.1
  | .branch condition thenBranch (some elseBranch) _, h =>
    exact List.forall_mem_append.2 ⟨List.forall_mem_append.2 ⟨h.1.references hidden _,
      Statement.Within.references hidden h.2.1⟩, Statement.Within.references hidden h.2.2.1⟩
  | .branch condition thenBranch none _, h =>
    exact List.forall_mem_append.2 ⟨List.forall_mem_append.2 ⟨h.1.references hidden _,
      Statement.Within.references hidden h.2.1⟩, List.forall_mem_nil _⟩
  | .local _ _ _ init _, h => exact within_optionReferences hidden _ h.2.2.1
  | .expr value, h => exact Expr.Within.references hidden _ h

/-- References in statements at good places are at good places. -/
theorem statementsWithin_references {list : List Statement} (hidden : List String) (h : statementsWithin good list) :
    ∀ r ∈ statementReferences hidden list, good r.span := by
  match list, h with
  | [], _ => exact List.forall_mem_nil _
  | s :: rest, h =>
    exact List.forall_mem_append.2 ⟨Statement.Within.references hidden h.1, statementsWithin_references _ h.2⟩

end

/-- References in a body at good places are at good places. -/
theorem Body.Within.references {b : Body} (hidden : List String) (h : b.Within good) :
    ∀ r ∈ b.references hidden, good r.span := by
  cases b with
  | expr value => exact Expr.Within.references hidden _ h
  | block b => exact statementsWithin_references hidden h

/-- References in default values of parameters at good places are at good places. -/
theorem within_defaultReferences {params : List Param} (h : ∀ p ∈ params, p.Within good) :
    ∀ r ∈ defaultReferences params, good r.span := by
  intro r hr
  obtain ⟨p, hp, hr⟩ := List.mem_flatMap.1 hr
  exact within_optionReferences _ _ (h p hp).default r hr

/-- References in the body of a property at good places are at good places. -/
theorem PropertyBody.Within.references {b : PropertyBody} (params : List Param) (h : b.Within good) :
    ∀ r ∈ b.references params, good r.span := by
  cases b with
  | expr value => exact Expr.Within.references _ _ h
  | accessors list =>
    intro r hr
    obtain ⟨a, ha, hr⟩ := List.mem_flatMap.1 hr
    unfold Accessor.references at hr
    split at hr
    · exact Body.Within.references _ (h a ha _ ‹_›) r hr
    · cases hr

/-- References in a member at good places are at good places. -/
theorem Member.Within.references {m : Member} (h : m.Within good) : ∀ r ∈ m.references, good r.span := by
  obtain ⟨-, -, h⟩ := h
  cases m with
  | field f => exact within_optionReferences _ _ h.2
  | property p => exact List.forall_mem_append.2 ⟨h.2.1.references _, within_optionReferences _ _ h.2.2⟩
  | method d => exact List.forall_mem_append.2 ⟨within_defaultReferences h.2.1, h.2.2.references _⟩
  | indexer i => exact List.forall_mem_append.2 ⟨within_defaultReferences h.2.1, h.2.2.references _⟩

/-- The arguments for the base of a declaration. -/
theorem TypeDecl.Within.baseArgs {d : TypeDecl} (h : d.Within good) : ∀ e ∈ d.baseArgs?.getD [], e.Within good := by
  unfold TypeDecl.baseArgs?
  cases hb : d.base with
  | none => exact List.forall_mem_nil _
  | some b => exact (h.base b hb).args

/-- References in a declaration at good places are at good places. -/
theorem TypeDecl.Within.references {d : TypeDecl} (h : d.Within good) : ∀ r ∈ d.references, good r.span := by
  refine List.forall_mem_append.2 ⟨List.forall_mem_append.2 ⟨fun r hr => ?_, ?_⟩, fun r hr => ?_⟩
  · obtain ⟨p, hp, hr⟩ := List.mem_flatMap.1 hr
    exact within_optionReferences _ _ (h.params p hp).default r hr
  · exact listWithin_references _ _ (listWithin_iff.2 h.baseArgs)
  · obtain ⟨m, hm, hr⟩ := List.mem_flatMap.1 hr
    exact (h.members m hm).references r hr

/-- The illegal uses among references are references. -/
theorem ParamUse.illegal_list {references : List Reference} (h : ∀ r ∈ references, good r.span) (names : List String) :
    ∀ u ∈ ParamUse.list references names, ∀ span ∈ u.illegal, good span := by
  induction names generalizing references with
  | nil => exact List.forall_mem_nil _
  | cons name names ih =>
    refine List.forall_mem_cons.2 ⟨fun span hs => ?_, ih fun r hr => h r (List.mem_filter.1 hr).1⟩
    obtain ⟨r, hr, rfl⟩ := List.mem_map.1 hs
    exact h r (List.mem_filter.1 hr).1

/-- Illegal references in a declaration at good places are at good places. -/
theorem TypeDecl.Within.illegalReferences {d : TypeDecl} (h : d.Within good) :
    ∀ r ∈ illegalReferences d.paramUses, good r.2 := by
  intro r hr
  obtain ⟨u, hu, hr⟩ := List.mem_flatMap.1 (List.mem_mergeSort.1 hr)
  obtain ⟨span, hs, rfl⟩ := List.mem_map.1 hr
  exact ParamUse.illegal_list h.references _ u hu span hs

/-! ## Qualifiers -/

/-- What is wrong with modifiers is wrong at one of them. -/
theorem FieldWords.within_problemsFrom {w : FieldWords} (owner : TypeKind) (site : FieldSite) {modifiers : List Modifier}
    (hw : ∀ span ∈ w.readonly, good span) (hm : ∀ m ∈ modifiers, good m.span) :
    ∀ p ∈ w.problemsFrom owner site modifiers, good p.span := by
  induction modifiers generalizing w with
  | nil =>
    intro p hp
    rw [problemsFrom, problemsTogether] at hp
    split at hp
    · cases hp
    · rename_i span hs
      have hspan : p.span = span := by grind
      rw [hspan]
      exact hw span hs
  | cons m ms ih =>
    obtain ⟨hm, hms⟩ := List.forall_mem_cons.1 hm
    have hadd : ∀ span ∈ (w.add owner site m).1.readonly, good span := by
      unfold add addAccess addStorage
      grind
    refine List.forall_mem_append.2 ⟨fun p hp => ?_, ih hadd hms⟩
    obtain ⟨fault, -, rfl⟩ := Option.map_eq_some_iff.1 (Option.mem_toList.1 hp)
    exact hm

/-- Problems of modifiers at good places are at good places. -/
theorem within_modifierProblems {modifiers : List Modifier} (h : ∀ m ∈ modifiers, good m.span) (owner : TypeKind)
    (site : FieldSite) : ∀ p ∈ modifierProblems modifiers owner site, good p.span :=
  FieldWords.within_problemsFrom owner site nofun h

/-- Problems of the modifiers of a parameter at good places are at good places. -/
theorem PrimaryParam.Within.qualifierProblems {p : PrimaryParam} (h : p.Within good) (owner : TypeKind) :
    ∀ problem ∈ p.qualifierProblems owner, good problem.span := by
  refine List.forall_mem_append.2 ⟨within_modifierProblems h.modifiers _ _, fun problem hp => ?_⟩
  obtain ⟨a, ha, hf⟩ := List.mem_filterMap.1 hp
  obtain ⟨fault, -, rfl⟩ := Option.map_eq_some_iff.1 hf
  exact h.attributes a ha

/-! ## Decisions -/

namespace TypeDecl

variable {d : TypeDecl}

/-- What is found about a parameter at good places is at good places. -/
theorem Within.paramFindings (h : d.Within good) {p : PrimaryParam} (hp : p.Within good) :
    ∀ finding ∈ d.paramFindings p, finding.Within good := by
  refine List.forall_mem_append.2 ⟨fun finding hf => ?_, fun finding hf => ?_⟩
  · obtain ⟨problem, hproblem, rfl⟩ := List.mem_map.1 hf
    exact Diagnostic.within_coded _ _ _ (hp.qualifierProblems d.kind problem hproblem)
  · have hf := Option.mem_toList.1 hf
    unfold TypeDecl.memberConflict? at hf
    split at hf
    · rename_i member _ hm
      cases hf
      have hmember := (h.members member (List.mem_of_find?_eq_some hm)).2.1
      exact ((Diagnostic.within_coded _ _ _ hp.nameSpan).also hmember _).noting _
    · cases hf

/-- A field that is added has the places of its parameter. -/
theorem Within.field (h : d.Within good) : ∀ f ∈ fieldsOf d.decisions, (Member.field f.toDecl).Within good := by
  have fields : ∀ (ps : List PrimaryParam) (earlier : List String), (∀ p ∈ ps, p.Within good) →
      ∀ f ∈ fieldsOf (d.decisionsFrom earlier ps), (Member.field f.toDecl).Within good := by
    intro ps
    induction ps with
    | nil => exact fun _ _ => List.forall_mem_nil _
    | cons p ps ih =>
      intro earlier hps
      obtain ⟨hp, hps⟩ := List.forall_mem_cons.1 hps
      have rest := ih (earlier ++ [p.name]) hps
      intro f hf
      obtain ⟨c, hc, hf⟩ := List.mem_filterMap.1 hf
      obtain rfl | hc := List.mem_cons.1 hc
      · unfold TypeDecl.decision at hf
        have hshape : ∃ visibility, f = .ofParam p visibility := by
          grind [CaptureDecision.field?]
        obtain ⟨visibility, rfl⟩ := hshape
        exact ⟨hp.modifiers, hp.nameSpan, hp.type, by rintro _ ⟨⟩; exact hp.nameSpan⟩
      · exact rest f (List.mem_filterMap.2 ⟨c, hc, hf⟩)
  exact fields d.params [] h.params

/-- A declaration at good places is resolved to one at good places, and so is what is found. -/
theorem Within.resolve (h : d.Within good) :
    d.resolve.decl.Within good ∧ ∀ finding ∈ d.resolve.diagnostics, finding.Within good := by
  refine ⟨⟨h.nameSpan, h.generics, h.params, h.base, List.forall_mem_append.2 ⟨fun m hm => ?_, h.members⟩⟩,
    List.forall_mem_append.2 ⟨fun finding hf => ?_, fun finding hf => ?_⟩⟩
  · obtain ⟨f, hf, rfl⟩ := List.mem_map.1 hm
    exact h.field f hf
  · obtain ⟨p, hp, hf⟩ := List.mem_flatMap.1 hf
    exact h.paramFindings (h.params p hp) finding hf
  · obtain ⟨r, hr, rfl⟩ := List.mem_map.1 hf
    have hg := h.illegalReferences r hr
    have hd := Diagnostic.within_coded "CAP001" CaptureFinding.category
      s!"primary constructor parameter `{r.1}` is only available during initialization" hg
    unfold CaptureFinding.illegalReference
    dsimp only
    split
    · exact (hd.labelled _).suggesting (by rintro _ ⟨⟩; exact hg)
    · exact (hd.labelled _).noting _

end TypeDecl

namespace SourceUnit

variable {u : SourceUnit}

/-- A unit at good places is resolved to one at good places. -/
theorem Within.unit_resolve (h : u.Within good) : u.resolve.unit.Within good := by
  intro d hd
  obtain ⟨r, hr, rfl⟩ := List.mem_map.1 hd
  obtain ⟨e, he, rfl⟩ := List.mem_map.1 hr
  exact (h e he).resolve.1

/-- What is found when a unit at good places is resolved is at good places. -/
theorem Within.diagnostics_resolve (h : u.Within good) : ∀ finding ∈ u.resolve.diagnostics, finding.Within good := by
  intro finding hf
  obtain ⟨r, hr, hf⟩ := List.mem_flatMap.1 hf
  obtain ⟨d, hd, rfl⟩ := List.mem_map.1 hr
  exact (h d hd).resolve.2 finding hf

end SourceUnit

end NavCheck
