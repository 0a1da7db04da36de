import NavCheck.Proofs.Outlines
import NavCheck.Proofs.Tracing

/-!
# Visits

The typer of a declaration goes over the sites of the declaration in their order. It misses none and adds none, and at every
site its locals have the names that are hidden there and it is in the phase of the site.
-/

namespace NavCheck

/-! ## Environments that declare locals -/

/-- The second environment has some more locals in the innermost scope, the latest first. -/
def Env.Grows (env : Env) (names : List String) (env' : Env) : Prop :=
  ∃ scope outer locals, env.scopes = scope :: outer ∧ locals.map (·.1) = names ∧
    env' = { env with scopes := (locals ++ scope) :: outer }

namespace Env.Grows

variable {env env' env'' : Env} {names more hidden : List String}

/-- Nothing new is declared at first. -/
theorem refl (h : env.scopes ≠ []) : env.Grows [] env := by
  obtain ⟨scope, outer, hs⟩ := List.exists_cons_of_ne_nil h
  refine ⟨scope, outer, [], hs, rfl, ?_⟩
  rw [List.nil_append, ← hs]

/-- Locals that are declared one after the other are more locals. -/
theorem trans (h : env.Grows names env') (h' : env'.Grows more env'') : env.Grows (more ++ names) env'' := by
  obtain ⟨scope, outer, locals, hs, rfl, rfl⟩ := h
  obtain ⟨scope', outer', locals', hs', rfl, rfl⟩ := h'
  obtain ⟨rfl, rfl⟩ := List.cons.inj hs'
  exact ⟨scope, outer, locals' ++ locals, hs, List.map_append, by simp⟩

/-- Declaring a local is one more local. -/
theorem declare (h : env.Grows names env') (name : String) (type : Ty) :
    env.Grows (name :: names) (env'.declare name type) := by
  obtain ⟨scope, outer, locals, hs, rfl, rfl⟩ := h
  exact ⟨scope, outer, (name, type) :: locals, hs, rfl, rfl⟩

/-- An environment with more locals has a scope for them. -/
theorem scopes_ne_nil (h : env.Grows names env') : env'.scopes ≠ [] := by
  obtain ⟨scope, outer, locals, -, -, rfl⟩ := h
  exact List.cons_ne_nil _ _

/-- The names of the new locals are hidden as well. -/
theorem hides (h : env.Grows names env') (hh : env.Hides hidden) : env'.Hides (names ++ hidden) := by
  obtain ⟨scope, outer, locals, hs, rfl, rfl⟩ := h
  intro name
  rw [List.contains_append, hh name, ← isSome_lookup]
  simp only [Env.local?, hs, List.findSome?_cons, List.lookup_append]
  cases locals.lookup name <;> simp

/-- More locals leave the phase as it is. -/
theorem phase (h : env.Grows names env') : env'.phase = env.phase := by
  obtain ⟨scope, outer, locals, -, -, rfl⟩ := h
  rfl

/-- More locals leave the table as it is. -/
theorem table (h : env.Grows names env') : env'.table = env.table := by
  obtain ⟨scope, outer, locals, -, -, rfl⟩ := h
  rfl

/-- More locals leave the parameters of the constructor as they are. -/
theorem primary (h : env.Grows names env') : env'.primary = env.primary := by
  obtain ⟨scope, outer, locals, -, -, rfl⟩ := h
  rfl

end Env.Grows

namespace Typer

variable {t t' t'' : Typer} {ss ss' : List Site} {hidden names : List String}

/-- Behind a scope everything is as it was in front of it. -/
theorem env_popScope (hn : t.env.scopes ≠ []) (h : t.pushScope.env.Grows names t'.env) : t'.popScope.env = t.env := by
  obtain ⟨scope, outer, hs⟩ := List.exists_cons_of_ne_nil hn
  obtain ⟨scope', outer', locals, hs', -, he⟩ := h
  obtain ⟨rfl, rfl⟩ := List.cons.inj hs'
  have hp : t'.env.scopes = (locals ++ []) :: scope :: outer := by
    rw [he, ← hs]
  unfold popScope
  rw [hp]
  dsimp only
  rw [he, ← hs]
  rfl

/-- A new scope hides nothing yet. -/
theorem hides_pushScope (hh : t.env.Hides hidden) : t.pushScope.env.Hides hidden :=
  hh.enterScope [] [] fun _ => rfl

/-! ## Visits -/

/-- A typer comes from a state to another by going over sites in order: it may change its locals and its phase, may type
something that notes findings only, and types a site where its locals have the names that are hidden there. -/
inductive Visits : Typer → List Site → Typer → Prop where
  | refl (t : Typer) : Visits t [] t
  | move {t u : Typer} {sites : List Site} (env : Env) (h : Visits t sites u) (table : env.table = u.env.table)
      (primary : env.primary = u.env.primary) : Visits t sites { u with env }
  | quiet {t u : Typer} {sites : List Site} {α : Type} (part : Env → Typed α) (h : Visits t sites u)
      (hq : Quiet (part u.env)) : Visits t sites (u.run part).2
  | root {t u : Typer} {sites : List Site} (site : Site) (expectation : Expectation) (h : Visits t sites u)
      (hidden : u.env.Hides site.hidden) (phase : u.env.phase = site.phase) :
      Visits t (sites ++ [site]) (u.checked site.expr expectation)

/-- Typing a complete expression keeps what is noted, with the lowered forms that there are. -/
theorem checkRoot_eq (t : Typer) (e : Expr) (expectation : Expectation) :
    ∃ chains lowered, t.checkRoot e expectation =
      ((rootType t.env e expectation).value, t.keep (rootType t.env e expectation).notes chains lowered) := by
  unfold checkRoot
  dsimp only
  split <;> exact ⟨_, _, rfl⟩

section

variable (t : Typer) (e : Expr) (expectation : Expectation)

/-- A complete expression gets the type of the root. -/
theorem type_checkRoot : (t.checkRoot e expectation).1 = (rootType t.env e expectation).value := by
  obtain ⟨chains, lowered, h⟩ := t.checkRoot_eq e expectation
  rw [h]

/-- Typing a complete expression leaves the environment as it is. -/
@[simp]
theorem env_checked : (t.checked e expectation).env = t.env := by
  obtain ⟨chains, lowered, h⟩ := t.checkRoot_eq e expectation
  rw [checked, h]
  rfl

/-- Typing a complete expression puts its plans in front of the plans so far. -/
theorem plans_checked : (t.checked e expectation).plans = plansOf (rootType t.env e expectation).notes ++ t.plans := by
  obtain ⟨chains, lowered, h⟩ := t.checkRoot_eq e expectation
  rw [checked, h]
  rfl

/-- Typing a complete expression puts its findings behind those so far. -/
theorem diagnostics_checked :
    (t.checked e expectation).report.diagnostics = t.report.diagnostics ++ findingsOf (rootType t.env e expectation).notes := by
  obtain ⟨chains, lowered, h⟩ := t.checkRoot_eq e expectation
  rw [checked, h]
  rfl

/-- Typing a complete expression puts the names it looks up behind those so far. -/
theorem names_checked :
    (t.checked e expectation).report.names = t.report.names ++ usesOf (rootType t.env e expectation).notes := by
  obtain ⟨chains, lowered, h⟩ := t.checkRoot_eq e expectation
  rw [checked, h]
  rfl

end

/-- Reporting a fault leaves the environment as it is. -/
@[simp]
theorem env_fault (t : Typer) (fault : TypingFault) (span : Span) : (t.fault fault span).env = t.env :=
  rfl

namespace Visits

/-- Going over some sites and then over others is going over both. -/
theorem trans (h : Visits t ss t') (h' : Visits t' ss' t'') : Visits t (ss ++ ss') t'' := by
  induction h' with
  | refl => rwa [List.append_nil]
  | move env _ table primary ih => exact ih.move env table primary
  | quiet part _ hq ih => exact ih.quiet part hq
  | root site expectation _ hidden phase ih =>
    rw [← List.append_assoc]
    exact ih.root site expectation hidden phase

/-- The table and the parameters of the constructor stay as they are. -/
theorem table (h : Visits t ss t') : t'.env.table = t.env.table := by
  induction h with
  | refl => rfl
  | move env _ table _ ih => exact table.trans ih
  | quiet _ _ _ ih => exact ih
  | root site expectation _ _ _ ih => rwa [env_checked]

/-- The parameters of the constructor stay as they are. -/
theorem primary (h : Visits t ss t') : t'.env.primary = t.env.primary := by
  induction h with
  | refl => rfl
  | move env _ _ primary ih => exact primary.trans ih
  | quiet _ _ _ ih => exact ih
  | root site expectation _ _ _ ih => rwa [env_checked]

/-- Reporting a fault of a statement visits nothing. -/
theorem fault (h : Visits t ss t') (fault : TypingFault) (span : Span) (hr : fault.isOfChain = false) :
    Visits t ss (t'.fault fault span) :=
  h.quiet _ (quiet_report fault span hr)

/-- Entering a phase visits nothing. -/
theorem enter (h : Visits t ss t') (phase : Phase) (isStatic : Bool) : Visits t ss (t'.enter phase isStatic) :=
  h.move _ rfl rfl

/-- Opening a scope visits nothing. -/
theorem pushScope (h : Visits t ss t') : Visits t ss t'.pushScope :=
  h.move _ rfl rfl

/-- Declaring a local visits nothing. -/
theorem declare (h : Visits t ss t') (name : String) (type : Ty) : Visits t ss (t'.declare name type) := by
  refine h.move _ ?_ ?_ <;> unfold Env.declare <;> split <;> rfl

/-- Closing a scope visits nothing. -/
theorem popScope (h : Visits t ss t') : Visits t ss t'.popScope := by
  unfold Typer.popScope
  split
  · exact h.move _ rfl rfl
  · exact h

end Visits

/-- One site. -/
theorem visits_checked {e : Expr} {phase : Phase} (hh : t.env.Hides hidden) (hp : t.env.phase = phase)
    (expectation : Expectation) : Visits t [⟨e, hidden, phase⟩] (t.checked e expectation) :=
  (Visits.refl t).root ⟨e, hidden, phase⟩ expectation hh hp

/-! ## Statements -/

/-- Inferring the type of a local visits nothing and leaves the environment as it is. -/
theorem visits_inferLocal (t : Typer) (name : String) (span : Span) (found : Ty) :
    Visits t [] (t.inferLocal name span found).2 ∧ (t.inferLocal name span found).2.env = t.env := by
  unfold inferLocal
  split
  · exact ⟨(Visits.refl t).fault _ _ rfl, rfl⟩
  · split
    · exact ⟨(Visits.refl t).fault _ _ rfl, rfl⟩
    · exact ⟨.refl t, rfl⟩
  · exact ⟨.refl t, rfl⟩

/-- Checking a `return` visits its value. -/
theorem visits_checkReturn (hh : t.env.Hides hidden) (hp : t.env.phase = .afterwards) (result : Ty) (value : Option Expr)
    (span : Span) :
    Visits t (optionSites hidden .afterwards value) (t.checkReturn result value span) ∧
      (t.checkReturn result value span).env = t.env := by
  unfold checkReturn
  split
  · exact ⟨(visits_checked hh hp _).fault _ _ rfl, by simp⟩
  · exact ⟨visits_checked hh hp _, by simp⟩
  · exact ⟨.refl t, rfl⟩
  · exact ⟨.refl t, rfl⟩
  · exact ⟨(Visits.refl t).fault _ _ rfl, by simp⟩

/-- Checking a local visits its initializer, and then one more local is declared. -/
theorem visits_checkLocal (hh : t.env.Hides hidden) (hp : t.env.phase = .afterwards) (hn : t.env.scopes ≠ [])
    (type : Option TypeExpr) (name : String) (nameSpan : Span) (init : Option Expr) :
    Visits t (optionSites hidden .afterwards init) (t.checkLocal type name nameSpan init) ∧
      t.env.Grows [name] (t.checkLocal type name nameSpan init).env := by
  cases type with
  | some written =>
    have hq : Visits t [] (t.run fun env => env.resolve written).2 := (Visits.refl t).quiet _ (quiet_resolve _ _)
    have hg : t.env.Grows [] (t.run fun env => env.resolve written).2.env := .refl hn
    cases init with
    | none => exact ⟨hq.declare _ _, hg.declare _ _⟩
    | some e =>
      have hc := visits_checked (t := (t.run fun env => env.resolve written).2) (e := e) hh hp
        (.type (t.run fun env => env.resolve written).1)
      refine ⟨(hq.trans hc).declare _ _, Env.Grows.declare ?_ _ _⟩
      rwa [env_checked]
  | none =>
    cases init with
    | none => exact ⟨(Visits.refl t).declare _ _, (Env.Grows.refl hn).declare _ _⟩
    | some e =>
      obtain ⟨hv, he⟩ := visits_inferLocal (t.checkRoot e .value).2 name nameSpan (t.checkRoot e .value).1
      have hg : t.env.Grows [] ((t.checkRoot e .value).2.inferLocal name nameSpan (t.checkRoot e .value).1).2.env := by
        rw [he, show (t.checkRoot e .value).2.env = t.env from env_checked t e .value]
        exact .refl hn
      exact ⟨((visits_checked hh hp .value).trans hv).declare _ _, hg.declare _ _⟩

/-- A scope around a part that only declares locals in it. -/
theorem visits_scoped {f : Typer → Typer} {names : List String} (hn : t.env.scopes ≠ [])
    (hf : Visits t.pushScope ss (f t.pushScope) ∧ t.pushScope.env.Grows names (f t.pushScope).env) :
    Visits t ss (f t.pushScope).popScope ∧ (f t.pushScope).popScope.env = t.env :=
  ⟨((Visits.refl t).pushScope.trans hf.1).popScope, env_popScope hn hf.2⟩

mutual

/-- Statements are gone over in order; each declares its local in the innermost scope. -/
theorem visits_statement (result : Ty) :
    ∀ (s : Statement) (hidden : List String) (t : Typer), t.env.Hides hidden → t.env.phase = .afterwards →
      t.env.scopes ≠ [] →
        Visits t (s.sites hidden) (statement result s t) ∧ t.env.Grows s.declares (statement result s t).env
  | .block list _, hidden, t, hh, hp, hn => by
    obtain ⟨names, hl⟩ := visits_statements result list hidden t.pushScope (hides_pushScope hh) hp (List.cons_ne_nil _ _)
    obtain ⟨hv, he⟩ := visits_scoped (f := statements result list) hn hl
    rw [statement]
    refine ⟨hv, ?_⟩
    rw [he]
    exact .refl hn
  | .give value span, hidden, t, hh, hp, hn => by
    obtain ⟨hv, he⟩ := visits_checkReturn hh hp result value span
    rw [statement]
    refine ⟨hv, ?_⟩
    rw [he]
    exact .refl hn
  | .branch condition thenBranch elseBranch _, hidden, t, hh, hp, hn => by
    have hc := visits_checked (e := condition) hh hp (.type .bool)
    have he := env_checked t condition (.type .bool)
    rw [← he] at hh hp hn
    obtain ⟨hv, hb⟩ := visits_scoped (f := statement result thenBranch) hn
      (visits_statement result thenBranch hidden _ (hides_pushScope hh) hp (List.cons_ne_nil _ _))
    cases elseBranch with
    | none =>
      rw [Statement.sites, List.append_nil, statement]
      refine ⟨hc.trans hv, ?_⟩
      rw [hb, he]
      exact .refl (he ▸ hn)
    | some s =>
      rw [← hb] at hh hp hn
      obtain ⟨hv', hb'⟩ := visits_scoped (f := statement result s) hn
        (visits_statement result s hidden _ (hides_pushScope hh) hp (List.cons_ne_nil _ _))
      rw [statement]
      refine ⟨(hc.trans hv).trans hv', ?_⟩
      rw [hb', hb, he]
      exact .refl (he ▸ hb ▸ hn)
  | .local type name nameSpan init _, hidden, t, hh, hp, hn => by
    rw [statement]
    exact visits_checkLocal hh hp hn type name nameSpan init
  | .expr e, hidden, t, hh, hp, hn => by
    rw [statement]
    refine ⟨visits_checked hh hp _, ?_⟩
    rw [env_checked]
    exact .refl hn

/-- Statements in a row; the locals of each are hidden in those behind it. -/
theorem visits_statements (result : Ty) :
    ∀ (list : List Statement) (hidden : List String) (t : Typer), t.env.Hides hidden → t.env.phase = .afterwards →
      t.env.scopes ≠ [] →
        ∃ names, Visits t (statementSites hidden list) (statements result list t) ∧
          t.env.Grows names (statements result list t).env
  | [], hidden, t, hh, hp, hn => by
    rw [statements]
    exact ⟨[], .refl t, .refl hn⟩
  | s :: rest, hidden, t, hh, hp, hn => by
    obtain ⟨hv, hg⟩ := visits_statement result s hidden t hh hp hn
    obtain ⟨names, hv', hg'⟩ := visits_statements result rest (s.declares ++ hidden) (statement result s t) (hg.hides hh)
      (hg.phase.trans hp) hg.scopes_ne_nil
    rw [statements]
    exact ⟨names ++ s.declares, hv.trans hv', hg.trans hg'⟩

end

/-! ## Members -/

/-- Checking a body visits the sites of the body. -/
theorem visits_body (hh : t.env.Hides hidden) (hp : t.env.phase = .afterwards) (hn : t.env.scopes ≠ []) (result : Ty)
    (b : Body) : Visits t (b.sites hidden) (t.body result b) := by
  cases b with
  | expr e => exact visits_checked hh hp _
  | block b =>
    obtain ⟨names, hl⟩ := visits_statements result b.statements hidden t.pushScope (hides_pushScope hh) hp
      (List.cons_ne_nil _ _)
    exact (visits_scoped (f := statements result b.statements) hn hl).1

/-- At the begin of a body or an initializer nothing is hidden. -/
theorem hides_enter (t : Typer) (phase : Phase) (isStatic : Bool) : (t.enter phase isStatic).env.Hides [] :=
  fun _ => rfl

/-- Declaring locals in a row. -/
theorem visits_declares {env : Env} (params : List (String × Ty)) (h : env.Grows names t.env) :
    Visits t [] (params.foldl (fun t p => t.declare p.1 p.2) t) ∧
      env.Grows ((params.map (·.1)).reverse ++ names) (params.foldl (fun t p => t.declare p.1 p.2) t).env := by
  induction params generalizing t names with
  | nil => exact ⟨.refl t, h⟩
  | cons p ps ih =>
    obtain ⟨hv, hg⟩ := ih (t := t.declare p.1 p.2) (h.declare p.1 p.2)
    refine ⟨((Visits.refl t).declare _ _).trans hv, ?_⟩
    rw [List.map_cons, List.reverse_cons, List.append_assoc]
    exact hg

/-- A body begins with its parameters as its locals. -/
theorem visits_enterBody (t : Typer) (params : List (String × Ty)) (isStatic : Bool) :
    Visits t [] (t.enterBody params isStatic) ∧
      (t.enter .afterwards isStatic).env.Grows (params.map (·.1)).reverse (t.enterBody params isStatic).env := by
  obtain ⟨hv, hg⟩ := visits_declares (t := t.enter .afterwards isStatic) params (.refl (List.cons_ne_nil _ _))
  rw [List.append_nil] at hg
  exact ⟨((Visits.refl t).enter _ _).trans hv, hg⟩

/-- A body that sees parameters, and perhaps some more locals. -/
theorem visits_bodyBehind {params : List (String × Ty)} {isStatic : Bool} (extra : List (String × Ty)) (result : Ty) (b : Body) :
    Visits t (b.sites (params.map (·.1) ++ extra.map (·.1)))
      ((extra.foldl (fun t p => t.declare p.1 p.2) (t.enterBody params isStatic)).body result b) := by
  obtain ⟨hv, hg⟩ := visits_enterBody t params isStatic
  obtain ⟨hv', hg'⟩ := visits_declares extra hg
  refine (hv.trans hv').trans (visits_body ?_ (hg'.phase.trans rfl) hg'.scopes_ne_nil result b)
  have hh := hg'.hides (hides_enter t .afterwards isStatic)
  intro name
  rw [← hh name]
  simp [or_comm]

/-- Checking the initializer of a member visits it in its phase. -/
theorem visits_initializer (t : Typer) (m : Member) (type : Ty) (o : Option Expr) :
    Visits t (optionSites [] m.initPhase o) (t.initializer m type o) := by
  cases o with
  | none => exact .refl t
  | some e => exact ((Visits.refl t).enter _ _).trans (visits_checked (hides_enter t _ _) rfl _)

/-- Going over several things one behind another. -/
theorem visits_foldl {α : Type} {f : Typer → α → Typer} {sites : α → List Site} (hf : ∀ t a, Visits t (sites a) (f t a)) :
    ∀ (list : List α) (t : Typer), Visits t (list.flatMap sites) (list.foldl f t)
  | [], t => .refl t
  | a :: list, t => (hf t a).trans (visits_foldl hf list (f t a))

/-- The types of parameters stand under the names of the parameters. -/
theorem names_paramTypes (t : Typer) (params : List Param) : (t.paramTypes params).map (·.1) = paramNames params := by
  simp [paramTypes, paramNames]

/-- Checking the default values of parameters visits them. -/
theorem visits_defaults (t : Typer) (params : List Param) (isStatic : Bool) :
    Visits t (defaultSites params) (t.defaults params isStatic) := by
  refine visits_foldl (fun t p => ?_) params t
  cases p.default with
  | none => exact .refl t
  | some e => exact ((Visits.refl t).enter _ _).trans (visits_checked (hides_enter t _ _) rfl _)

/-- Checking an accessor visits the sites of the accessor. -/
theorem visits_accessor {params : List Param} {types : List (String × Ty)} (hn : types.map (·.1) = paramNames params)
    (type : Ty) (isStatic : Bool) (t : Typer) (a : Accessor) :
    Visits t (a.sites params) (accessor types type isStatic t a) := by
  unfold accessor Accessor.sites
  cases a.body with
  | none => exact .refl t
  | some b =>
    cases a.kind with
    | get =>
      rw [← hn]
      exact visits_bodyBehind [] type b
    | set =>
      rw [← hn]
      exact visits_bodyBehind [("value", type)] .void b

/-- Checking the body of a property visits the sites of the body. -/
theorem visits_propertyBody {params : List Param} {types : List (String × Ty)}
    (hn : types.map (·.1) = paramNames params) (type : Ty) (isStatic : Bool) (t : Typer) (b : PropertyBody) :
    Visits t (b.sites params) (t.propertyBody types type isStatic b) := by
  cases b with
  | expr e =>
    obtain ⟨hv, hg⟩ := visits_enterBody t types isStatic
    refine hv.trans (visits_checked (fun name => ?_) (hg.phase.trans rfl) _)
    rw [← hg.hides (hides_enter t .afterwards isStatic) name, ← hn]
    simp
  | accessors list => exact visits_foldl (visits_accessor hn type isStatic) list t

/-- The code of a member. -/
theorem visits_member (t : Typer) (m : Member) : Visits t m.sites (t.member m) := by
  cases m with
  | field f => exact visits_initializer t _ _ _
  | property p => exact (visits_propertyBody rfl _ _ t p.body).trans (visits_initializer _ _ _ _)
  | method d =>
    have hb : Visits (t.defaults d.params (Member.method d).isStatic)
        (d.body.sites ((t.paramTypes d.params).map (·.1) ++ []))
        (((t.defaults d.params (Member.method d).isStatic).enterBody (t.paramTypes d.params) (Member.method d).isStatic).body
          (t.env.resolveDeclared d.returnType) d.body) :=
      visits_bodyBehind [] _ d.body
    rw [names_paramTypes, List.append_nil] at hb
    exact (visits_defaults t d.params _).trans hb
  | indexer i => exact (visits_defaults t i.params _).trans (visits_propertyBody (names_paramTypes t i.params) _ _ _ i.body)

/-! ## Headers -/

/-- The default values of the parameters of the constructor, which has a signature for each. -/
theorem visits_primaryDefaults (t : Typer) (params : List PrimaryParam) (signatures : List ParamSig)
    (hl : signatures.length = params.length) :
    Visits t (params.flatMap fun p => optionSites [] .construction p.default) (t.primaryDefaults params signatures) := by
  have hs : (params.flatMap fun p => optionSites [] .construction p.default) =
      (params.zip signatures).flatMap fun ps => optionSites [] .construction ps.1.default := by
    have hz := List.map_fst_zip (Nat.le_of_eq hl.symm)
    rw [← List.flatMap_map (f := Prod.fst) (g := fun p : PrimaryParam => optionSites [] .construction p.default), hz]
  rw [hs]
  refine visits_foldl (fun t ⟨p, s⟩ => ?_) (params.zip signatures) t
  dsimp only
  cases p.default with
  | none => exact .refl t
  | some e => exact ((Visits.refl t).enter _ _).trans (visits_checked (hides_enter t _ _) rfl _)

/-- Checking the arguments for a base visits them in order, while an instance is constructed. -/
theorem visits_baseArguments (es : List Expr) :
    ∀ (params : List ParamSig) (t : Typer), t.env.Hides [] → t.env.phase = .construction →
      Visits t (es.map fun e => ⟨e, [], .construction⟩) (t.baseArguments params es) := by
  induction es with
  | nil =>
    intro params t _ _
    rw [baseArguments.eq_def]
    exact .refl t
  | cons e es ih =>
    intro params t hh hp
    cases params with
    | nil =>
      rw [baseArguments]
      exact (visits_checked hh hp .value).trans (ih _ _ (by rwa [env_checked]) (by rwa [env_checked]))
    | cons p ps =>
      rw [baseArguments]
      exact (visits_checked hh hp _).trans (ih _ _ (by rwa [env_checked]) (by rwa [env_checked]))

/-- Checking the base of a declaration visits its arguments, if there are any. -/
theorem visits_baseOf (t : Typer) (d : TypeDecl) (base : Option Ty) :
    Visits t ((d.baseArgs?.getD []).map fun e => ⟨e, [], .construction⟩) (t.baseOf d base) := by
  have hs := (Visits.refl t).enter .construction false
  have hh := hides_enter t .construction false
  unfold baseOf TypeDecl.baseArgs?
  split
  · rename_i args span hb
    rw [hb]
    dsimp only
    split
    · exact hs.trans (visits_baseArguments args [] _ hh rfl)
    · split
      · exact hs.trans (visits_baseArguments args _ _ hh rfl)
      · exact (hs.fault _ _ rfl).trans (visits_baseArguments args _ _ hh rfl)
  · rename_i hb
    cases hd : d.base with
    | none => exact .refl t
    | some b =>
      obtain ⟨type, args, span⟩ := b
      cases args with
      | none => exact .refl t
      | some args => exact absurd hd (hb type args span)

end Typer

/-- All code of a declaration, from the typer on that the declaration gets. -/
theorem TypeDecl.visits_check {d : TypeDecl} {table : TypeTable} {info : TypeInfo} {t : Typer}
    (ht : d.typer? table = some (info, t)) (hl : info.constructor.length = d.params.length) :
    ∃ t', t.Visits d.sites t' ∧ d.check table = t'.report := by
  have hv := ((Typer.visits_primaryDefaults t d.params info.constructor hl).trans
    (Typer.visits_baseOf _ d info.base)).trans (Typer.visits_foldl Typer.visits_member d.members _)
  refine ⟨_, hv, ?_⟩
  unfold TypeDecl.check
  rw [ht]

/-- The code of a declaration of a unit that is checked is gone over from a new typer on that knows the parameters of the
declaration. -/
theorem TypeDecl.visits_of_typer [Text.Hash] {source : String} {file : Option Nat} {unit : SourceUnit} {d : TypeDecl}
    (h : SourceUnit.parse source file = .ok unit) (hd : d ∈ unit.types) {info : TypeInfo} {t : Typer}
    (ht : d.resolve.decl.typer? (TypeTable.build unit.resolve.unit).value = some (info, t)) :
    info.constructor.map (·.name) = d.params.map (·.name) ∧
      t = .start (TypeTable.build unit.resolve.unit).value info.selfType
        ((TypeTable.build unit.resolve.unit).value.genericScope d.resolve.decl) info.constructor ∧
      ∃ t', t.Visits d.resolve.decl.sites t' ∧
        d.resolve.decl.check (TypeTable.build unit.resolve.unit).value = t'.report := by
  have htt := ht
  unfold TypeDecl.typer? at htt
  split at htt
  · rename_i info' hf
    split at htt
    · rename_i hs
      cases htt
      obtain ⟨d', hd', -, hp, hc⟩ := TypeTable.find?_build hf hs
      obtain ⟨r, hr, rfl⟩ := List.mem_map.1 hd'
      obtain ⟨e, he, rfl⟩ := List.mem_map.1 hr
      obtain rfl := SourceUnit.eq_of_nameSpan h he hd hp
      exact ⟨hc, rfl, TypeDecl.visits_check ht (by simpa using congrArg List.length hc)⟩
    · cases htt
  · cases htt

/-- The code of a declaration of a unit is left out, or gone over from a new typer on that knows the parameters of the
declaration. -/
theorem TypeDecl.visits_of_unit [Text.Hash] {source : String} {file : Option Nat} {unit : SourceUnit} {d : TypeDecl}
    (h : SourceUnit.parse source file = .ok unit) (hd : d ∈ unit.types) :
    d.resolve.decl.check (TypeTable.build unit.resolve.unit).value = .empty ∨
      ∃ (info : TypeInfo) (t : Typer),
        (Typer.start (TypeTable.build unit.resolve.unit).value info.selfType
          ((TypeTable.build unit.resolve.unit).value.genericScope d.resolve.decl) info.constructor).Visits
            d.resolve.decl.sites t ∧
          info.constructor.map (·.name) = d.params.map (·.name) ∧
            d.resolve.decl.check (TypeTable.build unit.resolve.unit).value = t.report := by
  cases ht : d.resolve.decl.typer? (TypeTable.build unit.resolve.unit).value with
  | none =>
    refine .inl ?_
    rw [TypeDecl.check, ht]
  | some pair =>
    obtain ⟨info, t⟩ := pair
    obtain ⟨hn, rfl, t', hv, hc⟩ := d.visits_of_typer h hd ht
    exact .inr ⟨info, t', hv, hn, hc⟩

end NavCheck
