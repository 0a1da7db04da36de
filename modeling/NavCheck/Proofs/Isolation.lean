import NavCheck.Proofs.ChainRecords
import NavCheck.Proofs.Lockstep
import NavCheck.Proofs.Outcomes
import NavCheck.Proofs.Runs
import NavCheck.Text.Digest

/-!
# Bodies in isolation

One typer goes over all code of a declaration, and still each member is checked as if it were alone. The typer takes
three things from one body to the next. Its environment is entered anew for every body, what it has reported so far is
only added to, and the plans of earlier chains are not looked up again, because no two chains of a unit have the same
guard.
-/

namespace NavCheck

namespace TypingReport

/-- Reports, one behind the other. -/
def concat : List TypingReport → TypingReport
  | [] => empty
  | r :: reports => r.append (concat reports)

/-- Nothing behind a report leaves it as it is. -/
theorem append_empty (r : TypingReport) : r.append empty = r := by
  simp [append, empty]

/-- Reports may be put behind each other in any grouping. -/
theorem append_assoc (r s q : TypingReport) : (r.append s).append q = r.append (s.append q) := by
  simp [append]

end TypingReport

namespace Typer

variable {u t t' t'' : Typer}

/-! ## Code only adds -/

/-- A typer has come from another by going over code with the given guards: it still works for the same type, and has
only added to what was reported and planned. -/
structure Extends (guards : Span → Prop) (t t' : Typer) : Prop where
  owner : t'.env.SameOwner t.env
  report : ∃ added, t'.report = t.report.append added
  plans : ∃ added, t'.plans = added ++ t.plans ∧ ∀ p ∈ added, guards p.1

namespace Extends

variable {guards : Span → Prop}

/-- Going over no code adds nothing. -/
theorem refl (t : Typer) : t.Extends guards t :=
  ⟨.refl _, ⟨.empty, (TypingReport.append_empty _).symm⟩, ⟨[], rfl, List.forall_mem_nil _⟩⟩

/-- Going over some code and then over more adds what both add. -/
theorem trans (h : t.Extends guards t') (h' : t'.Extends guards t'') : t.Extends guards t'' := by
  obtain ⟨added, hr⟩ := h.report
  obtain ⟨added', hr'⟩ := h'.report
  obtain ⟨plans, hp, hg⟩ := h.plans
  obtain ⟨plans', hp', hg'⟩ := h'.plans
  refine ⟨h'.owner.trans h.owner, ⟨added.append added', ?_⟩, ⟨plans' ++ plans, ?_, List.forall_mem_append.2 ⟨hg', hg⟩⟩⟩
  · rw [hr', hr, TypingReport.append_assoc]
  · rw [hp', hp, List.append_assoc]

/-- Another place in the code of the same type. -/
theorem move (h : t.Extends guards t') {env : Env} (he : env.SameOwner t'.env) : t.Extends guards { t' with env } :=
  ⟨he.trans h.owner, h.report, h.plans⟩

/-- Keeping what was noted. -/
theorem keep (t : Typer) (notes : List TypingNote) (chains : LoweredChains) (lowered : List LoweredExpr)
    (h : ∀ p ∈ plansOf notes, guards p.1) : t.Extends guards (t.keep notes chains lowered) :=
  ⟨.refl _, ⟨_, rfl⟩, ⟨_, rfl, h⟩⟩

end Extends

/-- Any locals hide some names. -/
theorem exists_hides (env : Env) : ∃ hidden, env.Hides hidden := by
  refine ⟨env.scopes.flatten.map (·.1), fun name => ?_⟩
  unfold Env.local?
  induction env.scopes with
  | nil => rfl
  | cons scope scopes ih =>
    rw [List.flatten_cons, List.map_append, List.contains_append, ih, ← isSome_lookup, List.findSome?_cons]
    cases scope.lookup name <;> simp

/-- The plans for an expression are for its own chains. -/
theorem guards_plansOf_rootType (env : Env) (e : Expr) (expectation : Expectation) :
    ∀ p ∈ plansOf (rootType env e expectation).notes, p.1 ∈ e.guards := by
  obtain ⟨hidden, hh⟩ := exists_hides env
  have ht := traced_rootType hh e expectation
  intro p hp
  rw [plansOf_eq ht.plans, List.mem_reverse] at hp
  obtain ⟨r, hr, hg⟩ := List.mem_map.1 (guards_recordPlans.subset (List.mem_map_of_mem hp))
  rw [← hg]
  exact mem_guards_of_keys ht.chains hr

/-- Typing a complete expression only adds, and plans only chains of the expression. -/
theorem extends_checked {guards : Span → Prop} (t : Typer) {e : Expr} (h : ∀ g ∈ e.guards, guards g)
    (expectation : Expectation) : t.Extends guards (t.checked e expectation) := by
  obtain ⟨chains, lowered, hc⟩ := t.checkRoot_eq e expectation
  rw [checked, hc]
  exact .keep t _ _ _ fun p hp => h p.1 (guards_plansOf_rootType _ _ _ p hp)

/-- A typer that only moves on. -/
theorem lockstep_extends (guards : Span → Prop) (start : Typer) :
    Lockstep (fun e => ∀ g ∈ e.guards, guards g) (fun u t => u = t ∧ start.Extends guards t)
      (fun u t => u = t ∧ start.Extends guards t) where
  env h := h.1 ▸ rfl
  leave h := h
  owner h := h.1 ▸ .refl _
  enter := by
    rintro u _ ⟨rfl, h⟩ phase isStatic
    exact ⟨rfl, h.move ⟨rfl, rfl, rfl, rfl⟩⟩
  scopes := by
    rintro u _ ⟨rfl, h⟩ scopes
    exact ⟨rfl, h.move ⟨rfl, rfl, rfl, rfl⟩⟩
  run := by
    rintro u _ α ⟨rfl, h⟩ part hp
    exact ⟨rfl, h.trans (.keep u _ _ _ (hp u.env ▸ List.forall_mem_nil _))⟩
  root := by
    rintro u _ e ⟨rfl, h⟩ he expectation
    exact ⟨rfl, h.trans (extends_checked u he expectation)⟩

/-! ## What came before does not matter -/

/-- A typer goes on behind a report and plans as another does from nothing on. -/
structure Resumes (before : TypingReport) (old : ChainPlans) (u t : Typer) : Prop where
  owner : t.env.SameOwner u.env
  report : t.report = before.append u.report
  plans : t.plans = u.plans ++ old

section

variable {before : TypingReport} {old : ChainPlans}

/-- Keeping the same notes and chains, a typer still goes on as the other does. -/
theorem Resumes.keep (h : Resumes before old u t) (notes : List TypingNote) (chains : LoweredChains)
    (lowered : List LoweredExpr) : Resumes before old (u.keep notes chains lowered) (t.keep notes chains lowered) where
  owner := h.owner
  report := by rw [Typer.keep, Typer.keep, h.report, TypingReport.append_assoc]
  plans := by rw [Typer.keep, Typer.keep, h.plans, List.append_assoc]

/-- Old plans do not touch the lowered form of an expression if none of them has a guard of its chains. -/
theorem lowerRoot_append {e : Expr} (h : ∀ g ∈ e.guards, old.lookup g = none) (plans : ChainPlans) :
    e.lowerRoot (plans ++ old) = e.lowerRoot plans := by
  have hs : SamePlans e.nodes (plans ++ old) plans := by
    intro n hn g hg
    rw [List.lookup_append, h g (List.mem_filterMap.2 ⟨n, hn, hg⟩), Option.or_none]
  rw [Expr.lowerRoot, Expr.lowerRoot, Expr.lower, Expr.lower, e.lowerSpine_congr hs]

/-- Typing the same expression, a typer still goes on as the other does: no old plan has a guard of the expression. -/
theorem Resumes.checked (h : Resumes before old u t) (he : t.env = u.env) {e : Expr}
    (hg : ∀ g ∈ e.guards, old.lookup g = none) (expectation : Expectation) :
    Resumes before old (u.checked e expectation) (t.checked e expectation) := by
  unfold Typer.checked checkRoot
  dsimp only
  rw [he, h.plans, ← List.append_assoc, lowerRoot_append hg]
  split
  · exact h.keep _ _ _
  · exact h.keep _ _ _

/-- Two typers at the same point, one of them behind old findings. -/
theorem lockstep_resumes (before : TypingReport) (old : ChainPlans) :
    Lockstep (fun e => ∀ g ∈ e.guards, old.lookup g = none) (fun u t => t.env = u.env ∧ Resumes before old u t)
      (Resumes before old) where
  env h := h.1
  leave h := h.2
  owner h := h.owner
  enter h phase isStatic := ⟨h.owner.enter phase isStatic, ⟨⟨h.owner.table, h.owner.self, h.owner.generics, h.owner.primary⟩,
    h.report, h.plans⟩⟩
  scopes := by
    rintro u t ⟨he, h⟩ scopes
    exact ⟨by rw [he], ⟨⟨h.owner.table, h.owner.self, h.owner.generics, h.owner.primary⟩, h.report, h.plans⟩⟩
  run := by
    rintro u t α ⟨he, h⟩ part -
    refine ⟨he, ?_⟩
    unfold Typer.run
    rw [he]
    exact h.keep _ _ _
  root := by
    rintro u t e ⟨he, h⟩ hg expectation
    exact ⟨by rw [env_checked, env_checked, he], h.checked he hg expectation⟩

end

/-! ## Parts of the code of a declaration -/

/-- A piece of the work of a typer between bodies: typing some expressions and nothing else. -/
structure Part where
  sites : List Site
  work : Typer → Typer
  lockstep : ∀ {ok : Expr → Prop} {Inside Between : Typer → Typer → Prop}, Lockstep ok Inside Between →
    (∀ s ∈ sites, ok s.expr) → ∀ {u t : Typer}, Between u t → Between (work u) (work t)

namespace Part

/-- The work on a part only adds, and plans only chains of the part. -/
theorem extends_work (p : Part) (t : Typer) : t.Extends (· ∈ siteGuards p.sites) (p.work t) :=
  (p.lockstep (lockstep_extends (· ∈ siteGuards p.sites) t)
    (fun s hs _ hg => List.mem_flatMap.2 ⟨s, hs, hg⟩) ⟨rfl, .refl t⟩).2

/-- Over a part whose guards have no old plans a typer goes on as another does from nothing on. -/
theorem resumes_work (p : Part) {before : TypingReport} {old : ChainPlans} (h : Resumes before old u t)
    (hg : ∀ g ∈ siteGuards p.sites, old.lookup g = none) : Resumes before old (p.work u) (p.work t) :=
  p.lockstep (lockstep_resumes before old) (fun s hs g hm => hg g (List.mem_flatMap.2 ⟨s, hs, hm⟩)) h

end Part

/-- The code of a member. -/
def memberPart (m : Member) : Part :=
  ⟨m.sites, (·.member m), fun L hs _ _ h => L.member hs h⟩

/-- The default values of the parameters of a declaration. -/
def defaultsPart (params : List PrimaryParam) (signatures : List ParamSig) : Part :=
  ⟨params.flatMap fun p => optionSites [] .construction p.default, (·.primaryDefaults params signatures),
    fun L hs _ _ h => L.primaryDefaults hs signatures h⟩

/-- The arguments for the base of a declaration. -/
def basePart (d : TypeDecl) (base : Option Ty) : Part :=
  ⟨(d.baseArgs?.getD []).map fun e => ⟨e, [], .construction⟩, (·.baseOf d base), fun L hs _ _ h =>
    L.baseOf (fun _ he => hs _ (List.mem_map_of_mem he)) base h⟩

/-- Parts with different guards, one behind the other: each reports what it reports to a fresh typer. -/
theorem report_parts {fresh : Typer} (hr : fresh.report = .empty) (hp : fresh.plans = []) :
    ∀ (parts : List Part) (t : Typer), t.env.SameOwner fresh.env → (siteGuards (parts.flatMap (·.sites))).Nodup →
      (∀ g ∈ siteGuards (parts.flatMap (·.sites)), t.plans.lookup g = none) →
        (parts.foldl (fun t p => p.work t) t).report =
          t.report.append (.concat (parts.map fun p => (p.work fresh).report))
  | [], t, _, _, _ => (TypingReport.append_empty _).symm
  | p :: parts, t, ho, hn, hg => by
    rw [List.flatMap_cons, siteGuards, List.flatMap_append] at hn hg
    obtain ⟨-, hnodup, hdisjoint⟩ := List.nodup_append.1 hn
    rw [List.forall_mem_append] at hg
    have hstart : Resumes t.report t.plans fresh t := ⟨ho, by rw [hr, TypingReport.append_empty], by rw [hp, List.nil_append]⟩
    have hdone := p.resumes_work hstart hg.1
    have hext := p.extends_work t
    obtain ⟨added, hplans, hadded⟩ := hext.plans
    have hfree : ∀ g ∈ siteGuards (parts.flatMap (·.sites)), (p.work t).plans.lookup g = none := by
      intro g hm
      rw [hplans, List.lookup_append, hg.2 g hm, Option.or_none, List.lookup_eq_none_iff]
      intro q hq
      exact bne_iff_ne.2 fun heq => hdisjoint _ (hadded q hq) _ hm heq.symm
    rw [List.foldl_cons, report_parts hr hp parts (p.work t) (hext.owner.trans ho) hnodup hfree, hdone.report,
      TypingReport.append_assoc, List.map_cons, TypingReport.concat]

/-! ## Statements only declare -/

/-- A `return` declares nothing. -/
theorem env_checkReturn (t : Typer) (result : Ty) (value : Option Expr) (span : Span) :
    (t.checkReturn result value span).env = t.env := by
  unfold checkReturn
  split <;> simp

/-- A scope around a part that only declares locals in it. -/
theorem env_inScope {f : Typer → Typer} {names : List String} (hn : t.env.scopes ≠ [])
    (hf : t.pushScope.env.Grows names (f t.pushScope).env) : t.env.Grows [] (f t.pushScope).popScope.env := by
  rw [env_popScope hn hf]
  exact .refl hn

mutual

/-- A statement leaves all as it was but for the local that it declares in the innermost scope. -/
theorem grows_statement (result : Ty) :
    ∀ (s : Statement) (t : Typer), t.env.scopes ≠ [] → t.env.Grows s.declares (statement result s t).env
  | .block list _, t, hn => by
    obtain ⟨names, hg⟩ := grows_statements result list t.pushScope (List.cons_ne_nil _ _)
    rw [statement]
    exact env_inScope hn hg
  | .give value span, t, hn => by
    rw [statement, env_checkReturn]
    exact .refl hn
  | .branch condition thenBranch elseBranch _, t, hn => by
    have hc : t.env.Grows [] (t.checked condition (.type .bool)).env := by
      rw [env_checked]
      exact .refl hn
    have ht := hc.trans (env_inScope hc.scopes_ne_nil (grows_statement result thenBranch _ (List.cons_ne_nil _ _)))
    cases elseBranch with
    | none =>
      rw [statement]
      exact ht
    | some s =>
      rw [statement]
      exact ht.trans (env_inScope ht.scopes_ne_nil (grows_statement result s _ (List.cons_ne_nil _ _)))
  | .local type name nameSpan init _, t, hn => by
    obtain ⟨declared, hd⟩ := env_checkLocal t type name nameSpan init
    rw [statement, hd]
    exact (Env.Grows.refl hn).declare name declared
  | .expr e, t, hn => by
    rw [statement, env_checked]
    exact .refl hn

/-- Statements only declare locals in the scope that they stand in. -/
theorem grows_statements (result : Ty) :
    ∀ (list : List Statement) (t : Typer), t.env.scopes ≠ [] → ∃ names, t.env.Grows names (statements result list t).env
  | [], t, hn => by
    rw [statements]
    exact ⟨[], .refl hn⟩
  | s :: rest, t, hn => by
    have hg := grows_statement result s t hn
    obtain ⟨names, hg'⟩ := grows_statements result rest (statement result s t) hg.scopes_ne_nil
    rw [statements]
    exact ⟨names ++ s.declares, hg.trans hg'⟩

end

/-- A statement only adds to what was reported. -/
theorem extends_statement (result : Ty) (s : Statement) (t : Typer) : t.Extends (fun _ => True) (statement result s t) :=
  ((lockstep_extends (fun _ => True) t).statement result s [] (fun _ _ _ _ => trivial) ⟨rfl, .refl t⟩).2

end Typer

/-! ## Declarations -/

namespace TypeDecl

/-- The parts of the code of a declaration, in the order in which they are checked. -/
def parts (d : TypeDecl) (info : TypeInfo) : List Typer.Part :=
  Typer.defaultsPart d.params info.constructor :: Typer.basePart d info.base :: d.members.map Typer.memberPart

/-- The parts of a declaration have the sites of the declaration, in order. -/
theorem flatMap_parts (d : TypeDecl) (info : TypeInfo) : (d.parts info).flatMap (·.sites) = d.sites := by
  simp [parts, sites, headerSites, Typer.defaultsPart, Typer.basePart, Typer.memberPart, List.flatMap_map]

/-- A declaration whose chains have different guards is checked part by part. -/
theorem check_parts {d : TypeDecl} {table : TypeTable} {info : TypeInfo} {fresh : Typer}
    (ht : d.typer? table = some (info, fresh)) (hn : (Typer.siteGuards d.sites).Nodup) (hr : fresh.report = .empty)
    (hp : fresh.plans = []) : d.check table = .concat ((d.parts info).map fun p => (p.work fresh).report) := by
  have hparts := Typer.report_parts hr hp (d.parts info) fresh (.refl _) (by rwa [flatMap_parts])
    (fun g _ => by rw [hp]; rfl)
  have hcheck : d.check table = ((d.parts info).foldl (fun t p => p.work t) fresh).report := by
    rw [check, ht, parts, List.foldl_cons, List.foldl_cons, List.foldl_map]
    rfl
  rw [hcheck, hparts, hr]
  rfl

/-- The order of the members does not matter for which guards there are. -/
theorem nodup_siteGuards_members {d : TypeDecl} (hn : (Typer.siteGuards d.sites).Nodup) {members : List Member}
    (hm : members.Perm d.members) : (Typer.siteGuards { d with members }.sites).Nodup := by
  have hp : { d with members }.sites.Perm d.sites := (hm.flatMap_right Member.sites).append_left d.headerSites
  exact (hp.flatMap_right fun s : Site => s.expr.guards).nodup_iff.2 hn

end TypeDecl

/-- Bodies are checked in isolation. A declaration of a unit that is known to the table reports, in order, what a
fresh typer of its type reports for the default values of its parameters, for the arguments of its base, and for each
member alone, in whatever order the members stand; a declaration that is not known reports nothing. An expression
leaves the environment as it was, a statement only adds the local that it declares to the innermost scope, and both
only add to what was reported.

That an expression leaves the environment as it was holds by the type of `rootType`: expressions are typed in an environment
that is passed down, and a lambda, the only one that types a part in another environment, passes its own to its body and
nothing back. The frame of statements is proved over their walk, which does change the environment. -/
theorem SourceUnit.checked_in_isolation [Text.Hash] {source : String} {file : Option Nat} {unit : SourceUnit}
    (h : SourceUnit.parse source file = .ok unit) :
    (∀ d ∈ unit.types, ∀ (table : TypeTable) (members : List Member), members.Perm d.resolve.decl.members →
      (∀ info, table.find? d.name = some info → info.span = some d.nameSpan →
        let fresh := Typer.start table info.selfType (table.genericScope d) info.constructor
        { d.resolve.decl with members }.check table =
          .concat ((fresh.primaryDefaults d.params info.constructor).report :: (fresh.baseOf d info.base).report ::
            members.map fun m => (fresh.member m).report)) ∧
        ((∀ info, table.find? d.name = some info → info.span ≠ some d.nameSpan) →
          { d.resolve.decl with members }.check table = .empty)) ∧
      (∀ (t : Typer) (e : Expr) (expectation : Expectation),
        (t.checkRoot e expectation).2.env = t.env ∧
          ∃ added, (t.checkRoot e expectation).2.report = t.report.append added) ∧
        ∀ (t : Typer) (result : Ty) (s : Statement), t.env.scopes ≠ [] →
          t.env.Grows s.declares (Typer.statement result s t).env ∧
            ∃ added, (Typer.statement result s t).report = t.report.append added := by
  refine ⟨fun d hd table members hm => ⟨?_, ?_⟩, fun t e expectation => ⟨t.env_checked e expectation, ?_⟩,
    fun t result s hs => ⟨Typer.grows_statement result s t hs, (Typer.extends_statement result s t).report⟩⟩
  · intro info hfind hspan fresh
    have hg : (Typer.siteGuards d.resolve.decl.sites).Nodup := by
      have hn := nodup_nodeGuards h
      rw [List.flatMap_assoc] at hn
      rw [d.siteGuards_resolve]
      exact (List.nodup_flatMap.1 hn).1 d hd
    have ht : { d.resolve.decl with members }.typer? table = some (info, fresh) := by
      have hf : table.find? { d.resolve.decl with members }.name = some info := hfind
      rw [TypeDecl.typer?, hf]
      exact if_pos hspan
    rw [TypeDecl.check_parts ht (TypeDecl.nodup_siteGuards_members hg hm) rfl rfl, TypeDecl.parts, List.map_cons,
      List.map_cons, List.map_map]
    rfl
  · intro hnone
    have ht : { d.resolve.decl with members }.typer? table = none := by
      unfold TypeDecl.typer?
      split
      · rename_i info hf
        exact if_neg (hnone info hf)
      · rfl
    rw [TypeDecl.check, ht]
  · have more : t.Extends (fun _ => True) (t.checked e expectation) :=
      Typer.extends_checked t (fun _ _ => trivial) expectation
    exact more.report

/-- Two members in the other order: each still reports what it reports to a fresh typer. -/
theorem checked_in_isolation_reversed :
    ∃ unit, SourceUnit.parse "class A { string F(A a) => a?.ToString(); int G() => x; }" none = .ok unit ∧
      ∃ d ∈ unit.types, d.members.length = 2 ∧
        let table := (TypeTable.build unit.resolve.unit).value
        let members := d.resolve.decl.members.reverse
        ∃ info, table.find? d.name = some info ∧ info.span = some d.nameSpan ∧
          let fresh := Typer.start table info.selfType (table.genericScope d) info.constructor
          { d.resolve.decl with members }.check table =
              .concat ((fresh.primaryDefaults d.params info.constructor).report :: (fresh.baseOf d info.base).report ::
                members.map fun m => (fresh.member m).report) ∧
            fresh.env.scopes ≠ [] ∧
              fresh.env.Grows ["x"] (Typer.statement .void (.local none "x" default none default) fresh).env := by
  have evaluated : ∃ unit, SourceUnit.parse "class A { string F(A a) => a?.ToString(); int G() => x; }" none = .ok unit ∧
      ∃ d ∈ unit.types, d.members.length = 2 ∧
        ∃ info ∈ (TypeTable.build unit.resolve.unit).value.find? d.name, info.span = some d.nameSpan := by
    decide +kernel
  obtain ⟨unit, h, d, hd, hl, info, hf, hs⟩ := evaluated
  obtain ⟨checks, -, statements⟩ := SourceUnit.checked_in_isolation h
  obtain ⟨known, -⟩ := checks d hd (TypeTable.build unit.resolve.unit).value _ d.resolve.decl.members.reverse_perm
  refine ⟨unit, h, d, hd, hl, info, hf, hs, known info hf hs, List.cons_ne_nil _ _, ?_⟩
  exact (statements _ .void (.local none "x" default none default) (List.cons_ne_nil _ _)).1

end NavCheck
