import NavCheck.Check.Report
import NavCheck.Proofs.KnownExpressions
import NavCheck.Proofs.KnownTables
import NavCheck.Proofs.NameAgreement
import NavCheck.Proofs.Outcomes
import NavCheck.Proofs.Runs
import NavCheck.Text.Digest

/-!
# Known types of units

A unit in which no error is found has no error type in its table, in its locals, and in the types of its complete expressions:
each is typed in an environment of known types, and has a known type itself. What `Expr.infers` leaves out is left out here as
well.
-/

namespace NavCheck

/-! ## Reports without errors -/

/-- A report tells of no error, and of no use of a parameter of the constructor after construction. -/
def TypingReport.IsFine (r : TypingReport) : Prop :=
  (∀ d ∈ r.diagnostics, d.isError = false) ∧ ∀ use ∈ r.names, (TypingNote.name use).IsFine

theorem isFine_notes (notes : List TypingNote) :
    (∀ n ∈ notes, n.IsFine) ↔
      (∀ d ∈ findingsOf notes, d.isError = false) ∧ ∀ use ∈ usesOf notes, (TypingNote.name use).IsFine := by
  induction notes with
  | nil => simp [findingsOf, usesOf]
  | cons n notes ih =>
    rw [List.forall_mem_cons, ih]
    cases n with
    | finding d => simp [findingsOf, usesOf, TypingNote.IsFine, and_assoc]
    | chain record plan => simp [findingsOf, usesOf, TypingNote.IsFine]
    | name use => simp [findingsOf, usesOf, and_left_comm]

namespace Typer

variable {t u : Typer}

theorem isFine_keep (t : Typer) (notes : List TypingNote) (chains : LoweredChains) (lowered : List LoweredExpr) :
    (t.keep notes chains lowered).report.IsFine ↔ t.report.IsFine ∧ ∀ n ∈ notes, n.IsFine := by
  rw [isFine_notes, TypingReport.IsFine, TypingReport.IsFine]
  simp only [keep, TypingReport.append, List.forall_mem_append]
  exact and_and_and_comm

theorem isFine_checkRoot (t : Typer) (e : Expr) (expectation : Expectation) :
    (t.checkRoot e expectation).2.report.IsFine ↔ t.report.IsFine ∧ ∀ n ∈ (rootType t.env e expectation).notes, n.IsFine := by
  obtain ⟨chains, lowered, h⟩ := t.checkRoot_eq e expectation
  rw [h]
  exact isFine_keep _ _ _ _

theorem not_isFine_fault (t : Typer) (fault : TypingFault) (span : Span) : ¬ (t.fault fault span).report.IsFine := by
  intro h
  have hf : (fault.finding span).isError = false :=
    ((isFine_keep t _ [] []).1 h).2 (.finding (fault.finding span)) (List.mem_singleton_self _)
  cases hf

/-- A local that takes the type of its initializer without a fault has the type that was found. -/
theorem inferLocal_of_isFine {name : String} {span : Span} {found : Ty} (h : (t.inferLocal name span found).2.report.IsFine) :
    t.inferLocal name span found = (found, t) := by
  unfold inferLocal at h ⊢
  split at h
  · exact absurd h (not_isFine_fault _ _ _)
  · split at h
    · exact absurd h (not_isFine_fault _ _ _)
    · rw [if_neg ‹_›]
  · rfl

end Typer

/-! ## Complete expressions -/

/-- What a complete expression is typed for. -/
def Expectation.goal : Expectation → Goal
  | .type expected => .against expected
  | .value | .discard => .value

namespace RootTyping

/-- The type of the expression comes from no lambda without types for its parameters. -/
def Infers (r : RootTyping) : Prop :=
  r.expr.infers r.expectation.goal = true

/-- The expression is typed without an error, in an environment of known types and to a known type. -/
structure Known (r : RootTyping) : Prop where
  env : r.env.Known
  expectation : r.expectation.All Ty.Known
  fine : ∀ n ∈ r.typed.notes, n.IsFine
  type : r.typed.value.Known

theorem known_of_fine {r : RootTyping} (he : r.env.Known) (hx : r.expectation.All Ty.Known) (hi : r.Infers)
    (hf : ∀ n ∈ r.typed.notes, n.IsFine) : r.Known := by
  refine ⟨he, hx, hf, ?_⟩
  obtain ⟨env, e, expectation⟩ := r
  cases expectation with
  | type expected => exact hx
  | value => exact Assures.presentValueOf (e.assures_typeSpine he .value trivial hi) hf
  | discard => exact Assures.valueOf (e.assures_typeSpine he .value trivial hi) hf

end RootTyping

/-! ## Runs without errors -/

namespace Env.Known

variable {env : Env} (h : env.Known)

include h

theorem declare (name : String) {type : Ty} (ht : type.Known) : (env.declare name type).Known :=
  .of_all (((Env.SameOwner.refl env).declare name type).table ▸ h.table) (h.all.declare name ht)

theorem enter (phase : Phase) (isStatic : Bool) : Env.Known { env with phase, isStatic, scopes := [[]] } :=
  .of_all h.table (h.all.enter phase isStatic)

end Env.Known

namespace Typer

variable {t u : Typer} {rs : List RootTyping}

theorem known_popScope (h : t.env.Known) : t.popScope.env.Known :=
  .of_all ((Runs.refl (p := Ty.Known) t).popScope.owner.table ▸ h.table) (all_popScope h.all)

/-- Typing a complete expression without an error. -/
theorem known_checkRoot {e : Expr} {expectation : Expectation} (h : (t.checkRoot e expectation).2.report.IsFine)
    (he : t.env.Known) (hx : expectation.All Ty.Known) (hi : RootTyping.Infers ⟨t.env, e, expectation⟩) :
    RootTyping.Known ⟨t.env, e, expectation⟩ :=
  RootTyping.known_of_fine he hx hi ((isFine_checkRoot t e expectation).1 h).2

/-- The declaration of a local without an error. -/
theorem known_checkLocal {type : Option TypeExpr} {name : String} {span : Span} {init : Option Expr}
    (hw : type.isSome ∨ init.isSome) (h : (t.checkLocal type name span init).report.IsFine) :
    t.report.IsFine ∧ (t.env.Known →
      (∀ r ∈ init.toList.map fun e => RootTyping.mk t.env e (t.env.localExpectation type), r.Infers) →
        (t.checkLocal type name span init).env.Known ∧
          ∀ r ∈ init.toList.map fun e => RootTyping.mk t.env e (t.env.localExpectation type), r.Known) := by
  cases type with
  | some written =>
    cases init with
    | none =>
      obtain ⟨hf, hn⟩ := (isFine_keep t _ [] []).1 h
      exact ⟨hf, fun he _ => ⟨he.declare name (assures_resolve t.env written hn), List.forall_mem_nil _⟩⟩
    | some e =>
      generalize hs : (t.run fun env => env.resolve written).2 = s
      have henv : s.env = t.env := by rw [← hs, run]; rfl
      have hc : t.checkLocal (some written) name span (some e) =
          (s.checked e (.type (t.env.resolve written).value)).declare name (t.env.resolve written).value := by
        rw [← hs]
        rfl
      rw [hc] at h ⊢
      have hsf := ((isFine_checkRoot s e _).1 h).1
      rw [← hs] at hsf
      obtain ⟨hf, hn⟩ := (isFine_keep t _ [] []).1 hsf
      refine ⟨hf, fun he hi => ?_⟩
      have hd : (t.env.resolve written).value.Known := assures_resolve t.env written hn
      have hk : RootTyping.Known ⟨s.env, e, .type (t.env.resolve written).value⟩ := by
        refine known_checkRoot h (henv ▸ he) hd ?_
        rw [henv]
        exact List.forall_mem_singleton.1 hi
      rw [henv] at hk
      refine ⟨Env.Known.declare ?_ name hd, List.forall_mem_singleton.2 hk⟩
      rw [env_checked, henv]
      exact he
  | none =>
    cases init with
    | none => simp at hw
    | some e =>
      have hc : t.checkLocal none name span (some e) =
          ((t.checkRoot e .value).2.inferLocal name span (t.checkRoot e .value).1).2.declare name
            ((t.checkRoot e .value).2.inferLocal name span (t.checkRoot e .value).1).1 := rfl
      rw [hc] at h ⊢
      have hi := inferLocal_of_isFine (t := (t.checkRoot e .value).2) h
      rw [hi] at h ⊢
      refine ⟨((isFine_checkRoot t e .value).1 h).1, fun he hi => ?_⟩
      have hk := known_checkRoot h he trivial (List.forall_mem_singleton.1 hi)
      refine ⟨Env.Known.declare ?_ name ?_, List.forall_mem_singleton.2 hk⟩
      · exact (env_checked t e .value).symm ▸ he
      · exact (type_checkRoot t e .value).symm ▸ hk.type

/-- A run without an error from an environment of known types on: all types stay known. -/
theorem Runs.known (h : Runs Ty.Known t rs u) (hf : u.report.IsFine) :
    t.report.IsFine ∧ (t.env.Known → (∀ r ∈ rs, r.Infers) → u.env.Known ∧ ∀ r ∈ rs, r.Known) := by
  induction h with
  | refl => exact ⟨hf, fun he _ => ⟨he, List.forall_mem_nil _⟩⟩
  | enter _ phase isStatic ih => exact ⟨(ih hf).1, fun he hi => ((ih hf).2 he hi).imp (·.enter phase isStatic) id⟩
  | pushScope _ ih =>
    exact ⟨(ih hf).1, fun he hi => ((ih hf).2 he hi).imp (·.enterScope (List.forall_mem_nil _)) id⟩
  | @popScope u rs _ ih =>
    have hr : u.popScope.report = u.report := by
      unfold Typer.popScope
      split <;> rfl
    rw [hr] at hf
    exact ⟨(ih hf).1, fun he hi => ((ih hf).2 he hi).imp known_popScope id⟩
  | declare _ name ht ih => exact ⟨(ih hf).1, fun he hi => ((ih hf).2 he hi).imp (·.declare name ht) id⟩
  | fault _ fault span _ => exact absurd hf (not_isFine_fault _ _ _)
  | «local» _ type name span init hw ih =>
    obtain ⟨hm, hl⟩ := known_checkLocal hw hf
    obtain ⟨ht, hrs⟩ := ih hm
    refine ⟨ht, fun he hi => ?_⟩
    obtain ⟨hi, hi'⟩ := List.forall_mem_append.1 hi
    obtain ⟨hu, hrs⟩ := hrs he hi
    exact (hl hu hi').imp id fun hl => List.forall_mem_append.2 ⟨hrs, hl⟩
  | @root u rs _ e expectation hx ih =>
    obtain ⟨hm, hn⟩ := (isFine_checkRoot u e expectation).1 hf
    obtain ⟨ht, hrs⟩ := ih hm
    refine ⟨ht, fun he hi => ?_⟩
    obtain ⟨hi, hi'⟩ := List.forall_mem_append.1 hi
    obtain ⟨hu, hrs⟩ := hrs he hi
    refine ⟨(env_checked u e expectation).symm ▸ hu, List.forall_mem_append.2 ⟨hrs, List.forall_mem_singleton.2 ?_⟩⟩
    exact known_checkRoot hf hu hx (List.forall_mem_singleton.1 hi')

end Typer

/-! ## Declarations -/

/-- Words that make a field belong to its type are reported on a parameter. -/
theorem FieldWords.instance_of_problemsFrom {owner : TypeKind} : ∀ {modifiers : List Modifier} {w : FieldWords},
    w.problemsFrom owner .parameter modifiers = [] → ∀ m ∈ modifiers, m.kind ≠ .static ∧ m.kind ≠ .const
  | [], _, _ => List.forall_mem_nil _
  | m :: ms, w, h => by
    rw [FieldWords.problemsFrom] at h
    obtain ⟨hm, hms⟩ := List.append_eq_nil_iff.1 h
    refine List.forall_mem_cons.2 ⟨?_, FieldWords.instance_of_problemsFrom hms⟩
    constructor <;> intro hk <;> simp [hk, FieldWords.addStorage] at hm

namespace TypeDecl

variable {d : TypeDecl}

/-- The fields that are added have the types of parameters. -/
theorem capturesParams_resolve (hw : d.WellFormed) : d.resolve.decl.CapturesParams := by
  intro f hf
  obtain ⟨m, hm, hc⟩ := List.mem_filterMap.1 hf
  rcases List.mem_append.1 hm with hm | hm
  · obtain ⟨g, hg, rfl⟩ := List.mem_map.1 hm
    obtain ⟨p, hp, visibility, rfl⟩ := mem_fieldsOf hg
    cases hc
    exact ⟨p, hp, rfl⟩
  · rw [hw.captured m hm] at hc
    cases hc

/-- Without a fault of qualifiers the fields that are added are initialized during construction. -/
theorem instance_of_resolve (hr : ∀ f ∈ d.resolve.diagnostics, f.isError = false) {p : PrimaryParam} (hp : p ∈ d.params) :
    (hasModifier p.modifiers .static || hasModifier p.modifiers .const) = false := by
  have hn : modifierProblems p.modifiers d.kind .parameter = [] := by
    refine List.eq_nil_iff_forall_not_mem.2 fun problem hm => ?_
    have hf : CaptureFinding.invalidQualifier problem.fault.message problem.span ∈ d.resolve.diagnostics :=
      List.mem_append_left _ (List.mem_flatMap.2 ⟨p, hp, List.mem_append_left _
        (List.mem_map_of_mem (List.mem_append_left _ hm))⟩)
    cases hr _ hf
  have hk := FieldWords.instance_of_problemsFrom hn
  simp only [hasModifier, Bool.or_eq_false_iff, List.any_eq_false, beq_iff_eq]
  exact ⟨fun m hm => (hk m hm).1, fun m hm => (hk m hm).2⟩

variable {source : String} {file : Option Nat} {unit : SourceUnit}

/-- Without a fault of captured parameters no parameter is used after construction. -/
theorem names_isFine [Text.Hash] (h : SourceUnit.parse source file = .ok unit) (hd : d ∈ unit.types)
    (hr : ∀ f ∈ d.resolve.diagnostics, f.isError = false) :
    ∀ use ∈ (d.resolve.decl.check (TypeTable.build unit.resolve.unit).value).names, (TypingNote.name use).IsFine := by
  intro use hu param hm
  obtain ⟨primary, hp, o, ho, -, -, ha⟩ := d.use_agrees h hd hu
  rw [hm] at ha
  obtain ⟨hh, hphase, hn, hpm⟩ := ha
  rcases occurrences_resolve ho with ho | ⟨p, hpd, -, hop⟩
  · have hin : o.name ∈ d.params.map (·.name) := by
      rw [← hp, ← hn]
      exact List.mem_map_of_mem hpm
    have hao : ⟨o.name, o.span, .afterwards, false⟩ ∈ d.occurrences := by
      rw [hphase, ← hh]
      exact ho
    obtain ⟨u, huse, -, hs⟩ := mem_paramUses.2 ⟨hin, hao⟩
    obtain ⟨captured, hf⟩ := mem_of_illegal huse hs
    have he := hr _ hf
    cases captured <;> cases he
  · rw [instance_of_resolve hr hpd, ← hphase] at hop
    cases hop

/-- What is found out about a declaration without an error: its code is checked, and the run over it types all of its complete
expressions, with known types only unless a lambda without types for its parameters is in the way. -/
def IsKnown (d : TypeDecl) (table : TypeTable) : Prop :=
  ∃ info t typings t', d.typer? table = some (info, t) ∧ t.Runs Ty.Known typings t' ∧ d.check table = t'.report ∧
    typings.map (·.expr) = d.exprs ∧ ((∀ r ∈ typings, r.Infers) → ∀ r ∈ typings, r.Known)

theorem isKnown_resolve [Text.Hash] (h : SourceUnit.parse source file = .ok unit) (hd : d ∈ unit.types)
    (hr : ∀ f ∈ d.resolve.diagnostics, f.isError = false)
    (ht : (TypeTable.build unit.resolve.unit).value.Describes unit.resolve.unit)
    (hc : ∀ f ∈ (d.resolve.decl.check (TypeTable.build unit.resolve.unit).value).diagnostics, f.isError = false) :
    d.resolve.decl.IsKnown (TypeTable.build unit.resolve.unit).value := by
  have hm : d.resolve.decl ∈ unit.resolve.unit.types := List.mem_map_of_mem (List.mem_map_of_mem hd)
  have hu := names_isFine h hd hr
  have hv := @visits_of_typer _ source file unit d h hd
  have hw := SourceUnit.wellFormed_of_parse h d hd
  generalize (TypeTable.build unit.resolve.unit).value = table at *
  obtain ⟨info, hf, hs⟩ := ht.declared _ hm
  have htyper : d.resolve.decl.typer? table =
      some (info, .start table info.selfType (table.genericScope d.resolve.decl) info.constructor) := by
    rw [typer?, hf]
    exact if_pos hs
  have hk := ht.known.find? hf
  have hl : info.constructor.length = d.params.length := by simpa using congrArg List.length (hv htyper).1
  have hbase : ∀ b ∈ info.base, ∀ params ∈ Typer.baseConstructor? table b, ∀ s ∈ params, s.type.Known := by
    intro b hb params hp
    cases b with
    | named name args =>
      obtain ⟨found, hfound, rfl⟩ := Option.map_eq_some_iff.1 hp
      exact ht.known.constructorWith hfound (Ty.known_named.1 (hk.base _ hb))
    | _ => cases hp
  obtain ⟨t', ⟨typings, hruns, he⟩, hreport⟩ := checks_check htyper hl (Ty.known_simple _) Ty.known_void hk.constructor hbase
    (wellFormed_members_resolve hw) (ht.written _ hm)
  have hfine : t'.report.IsFine := hreport ▸ ⟨hc, hu⟩
  have hself : info.selfType.Known := Ty.known_named.2 (List.forall_mem_map.2 fun _ _ => Ty.known_param)
  have henv : Env.Known (Typer.start table info.selfType (table.genericScope d.resolve.decl) info.constructor).env :=
    ⟨ht.known, hself, hk.constructor, List.forall_mem_singleton.2 (List.forall_mem_nil _)⟩
  exact ⟨info, _, typings, t', htyper, hruns, hreport, he.trans d.resolve.decl.exprs_eq.symm, fun hi =>
    ((hruns.known hfine).2 henv hi).2⟩

end TypeDecl

/-! ## Units -/

/-- The findings about all code of a unit are those about the code of each declaration. -/
theorem SourceUnit.mem_diagnostics_check {u : SourceUnit} {table : TypeTable} {f : Diagnostic} :
    f ∈ (u.check table).diagnostics ↔ ∃ d ∈ u.types, f ∈ (d.check table).diagnostics := by
  have fold : ∀ (rs : List TypingReport) (start : TypingReport),
      (rs.foldl TypingReport.append start).diagnostics = start.diagnostics ++ rs.flatMap (·.diagnostics) := by
    intro rs
    induction rs with
    | nil => exact fun start => (List.append_nil _).symm
    | cons r rs ih =>
      intro start
      rw [List.foldl_cons, ih, List.flatMap_cons, ← List.append_assoc]
      rfl
  rw [SourceUnit.check, fold, List.mem_append, List.flatMap_map, List.mem_flatMap]
  exact or_iff_right List.not_mem_nil

/-- A source text in which no error is found: its table knows all types, and so does the check of each of its declarations. -/
theorem CheckReport.known_of_noErrors [Text.Hash] {path source : String} {report : CheckReport}
    (h : checkSource path source = .ok report) (hn : hasErrors report.diagnostics = false) :
    (TypeTable.build report.resolved.unit).value.Known ∧
      ∀ r ∈ report.resolved.types, r.decl.IsKnown (TypeTable.build report.resolved.unit).value := by
  unfold checkSource at h
  dsimp only at h
  split at h
  · cases h
  · rename_i unit hp
    cases h
    rw [hasErrors, List.any_eq_false] at hn
    simp only [CheckReport.diagnostics, List.forall_mem_append, Bool.not_eq_true] at hn
    obtain ⟨⟨hr, ht⟩, hc⟩ := hn
    have hdescribes : (TypeTable.build unit.resolve.unit).value.Describes unit.resolve.unit := by
      refine TypeTable.obtains_build unit.resolve.unit (fun d hd => ?_) ht
      obtain ⟨r, hm, rfl⟩ := List.mem_map.1 hd
      obtain ⟨e, he, rfl⟩ := List.mem_map.1 hm
      exact TypeDecl.capturesParams_resolve (SourceUnit.wellFormed_of_parse hp e he)
    refine ⟨hdescribes.known, fun r hm => ?_⟩
    obtain ⟨d, hd, rfl⟩ := List.mem_map.1 hm
    refine d.isKnown_resolve hp hd (fun f hf => hr f (List.mem_flatMap.2 ⟨_, hm, hf⟩)) hdescribes fun f hf => hc f ?_
    exact SourceUnit.mem_diagnostics_check.2 ⟨_, List.mem_map_of_mem hm, hf⟩

/-- Nothing is said about a lambda without types for its parameters that is the body of another: no error is found, and the type
of the expression is not known. -/
theorem lambda_without_types_unnoticed :
    ∃ report, checkSource "a" "class A { void F() { var f = (int y) => (x) => x; } }" = .ok report ∧
      hasErrors report.diagnostics = false ∧
        ∃ r ∈ report.resolved.types, ∃ e ∈ r.decl.exprs,
          ∃ found ∈ r.decl.typer? (TypeTable.build report.resolved.unit).value,
            (Typer.rootType found.2.env e .value).value.hasError = true := by
  decide +kernel

end NavCheck
