import NavCheck.Proofs.Lockstep
import NavCheck.Proofs.WellFormed

/-!
# Runs

What a typer does to check the code of a declaration: it moves between bodies and scopes, declares locals, reports faults and
types complete expressions, all with types that the declarations around the code have. A run tells the steps and the
expressions that are typed, each with the environment it is typed in. An invariant of the steps is an invariant of checking.
-/

namespace NavCheck

/-- The type that is expected has a property. -/
def Expectation.All (p : Ty → Prop) : Expectation → Prop
  | .type expected => p expected
  | .value | .discard => True

/-- What is expected of the initializer of a local: the type that is written, or some value. -/
def Env.localExpectation (env : Env) : Option TypeExpr → Expectation
  | some written => .type (env.resolve written).value
  | none => .value

/-- A complete expression, the environment that it is typed in, and what is expected of it. -/
structure RootTyping where
  env : Env
  expr : Expr
  expectation : Expectation

/-- What typing the expression gives. -/
def RootTyping.typed (r : RootTyping) : Typed Ty :=
  Typer.rootType r.env r.expr r.expectation

namespace Typer

variable {p : Ty → Prop} {t t' t'' : Typer} {rs rs' : List RootTyping} {es es' : List Expr}

/-- A typer comes from a state to another by steps that type complete expressions in order. The types that it is told, for
locals and for what is expected, have the property `p`; a local has a written type or an initializer, and the faults that are
reported are not about chains. -/
inductive Runs (p : Ty → Prop) : Typer → List RootTyping → Typer → Prop where
  | refl (t : Typer) : Runs p t [] t
  | enter {t u : Typer} {rs : List RootTyping} (h : Runs p t rs u) (phase : Phase) (isStatic : Bool) :
      Runs p t rs (u.enter phase isStatic)
  | pushScope {t u : Typer} {rs : List RootTyping} (h : Runs p t rs u) : Runs p t rs u.pushScope
  | popScope {t u : Typer} {rs : List RootTyping} (h : Runs p t rs u) : Runs p t rs u.popScope
  | declare {t u : Typer} {rs : List RootTyping} (h : Runs p t rs u) (name : String) {type : Ty} (ht : p type) :
      Runs p t rs (u.declare name type)
  | fault {t u : Typer} {rs : List RootTyping} (h : Runs p t rs u) (fault : TypingFault) (span : Span)
      (hf : fault.isOfChain = false) : Runs p t rs (u.fault fault span)
  | local {t u : Typer} {rs : List RootTyping} (h : Runs p t rs u) (type : Option TypeExpr) (name : String) (span : Span)
      (init : Option Expr) (hw : type.isSome ∨ init.isSome) :
      Runs p t (rs ++ init.toList.map fun e => ⟨u.env, e, u.env.localExpectation type⟩) (u.checkLocal type name span init)
  | root {t u : Typer} {rs : List RootTyping} (h : Runs p t rs u) (e : Expr) {expectation : Expectation}
      (hx : expectation.All p) : Runs p t (rs ++ [⟨u.env, e, expectation⟩]) (u.checked e expectation)

/-- The declaration of a local declares it and changes nothing else. -/
theorem env_checkLocal (t : Typer) (type : Option TypeExpr) (name : String) (span : Span) (init : Option Expr) :
    ∃ declared, (t.checkLocal type name span init).env = t.env.declare name declared := by
  cases type with
  | some written =>
    refine ⟨(t.env.resolve written).value, ?_⟩
    cases init with
    | none => rfl
    | some e => exact congrArg (Env.declare · name _) (env_checked (t.run fun env => env.resolve written).2 e _)
  | none =>
    cases init with
    | none => exact ⟨_, rfl⟩
    | some e =>
      refine ⟨((t.checkRoot e .value).2.inferLocal name span (t.checkRoot e .value).1).1, ?_⟩
      have hi := (visits_inferLocal (t.checkRoot e .value).2 name span (t.checkRoot e .value).1).2
      exact congrArg (Env.declare · name _) (hi.trans (env_checked t e .value))

namespace Runs

/-- A run behind a run is a run. -/
theorem trans (h : Runs p t rs t') (h' : Runs p t' rs' t'') : Runs p t (rs ++ rs') t'' := by
  induction h' with
  | refl => rwa [List.append_nil]
  | enter _ phase isStatic ih => exact ih.enter phase isStatic
  | pushScope _ ih => exact ih.pushScope
  | popScope _ ih => exact ih.popScope
  | declare _ name ht ih => exact ih.declare name ht
  | fault _ fault span hf ih => exact ih.fault fault span hf
  | «local» _ type name span init hw ih =>
    rw [← List.append_assoc]
    exact ih.local type name span init hw
  | root _ e hx ih =>
    rw [← List.append_assoc]
    exact ih.root e hx

/-- A run stays at the same type. -/
theorem owner (h : Runs p t rs t') : t'.env.SameOwner t.env := by
  induction h with
  | refl => exact .refl _
  | enter _ _ _ ih => exact ⟨ih.table, ih.self, ih.generics, ih.primary⟩
  | pushScope _ ih => exact ⟨ih.table, ih.self, ih.generics, ih.primary⟩
  | popScope _ ih =>
    unfold Typer.popScope
    split
    · exact ⟨ih.table, ih.self, ih.generics, ih.primary⟩
    · exact ih
  | declare _ name _ ih => exact ih.declare name _
  | fault _ _ _ _ ih => exact ih
  | @«local» u rs _ type name span init _ ih =>
    obtain ⟨found, he⟩ := env_checkLocal u type name span init
    rw [he]
    exact ih.declare name found
  | root _ _ _ ih => rwa [env_checked]

/-- The complete expressions of a run are typed inside of the same type. -/
theorem owners (h : Runs p t rs t') : ∀ r ∈ rs, r.env.SameOwner t.env := by
  induction h with
  | refl => exact List.forall_mem_nil _
  | enter _ _ _ ih => exact ih
  | pushScope _ ih => exact ih
  | popScope _ ih => exact ih
  | declare _ _ _ ih => exact ih
  | fault _ _ _ _ ih => exact ih
  | «local» h _ _ _ _ _ ih => exact List.forall_mem_append.2 ⟨ih, List.forall_mem_map.2 fun _ _ => h.owner⟩
  | root h _ _ ih => exact List.forall_mem_append.2 ⟨ih, List.forall_mem_singleton.2 h.owner⟩

end Runs

/-! ## Runs over expressions -/

/-- A typer comes from a state to another by typing expressions in order. -/
def Checks (p : Ty → Prop) (t : Typer) (es : List Expr) (u : Typer) : Prop :=
  ∃ rs, Runs p t rs u ∧ rs.map (·.expr) = es

namespace Checks

/-- A typer that does nothing types no expressions. -/
theorem refl (t : Typer) : Checks p t [] t :=
  ⟨[], .refl t, rfl⟩

/-- Typing some expressions and then others is typing both. -/
theorem trans (h : Checks p t es t') (h' : Checks p t' es' t'') : Checks p t (es ++ es') t'' := by
  obtain ⟨rs, hr, rfl⟩ := h
  obtain ⟨rs', hr', rfl⟩ := h'
  exact ⟨rs ++ rs', hr.trans hr', List.map_append⟩

/-- Entering a phase types no expressions. -/
theorem enter (h : Checks p t es t') (phase : Phase) (isStatic : Bool) : Checks p t es (t'.enter phase isStatic) :=
  h.imp fun _ h => ⟨h.1.enter phase isStatic, h.2⟩

/-- Opening a scope types no expressions. -/
theorem pushScope (h : Checks p t es t') : Checks p t es t'.pushScope :=
  h.imp fun _ h => ⟨h.1.pushScope, h.2⟩

/-- Closing a scope types no expressions. -/
theorem popScope (h : Checks p t es t') : Checks p t es t'.popScope :=
  h.imp fun _ h => ⟨h.1.popScope, h.2⟩

/-- Declaring a local types no expressions. -/
theorem declare (h : Checks p t es t') (name : String) {type : Ty} (ht : p type) : Checks p t es (t'.declare name type) :=
  h.imp fun _ h => ⟨h.1.declare name ht, h.2⟩

/-- Reporting a fault types no expressions. -/
theorem fault (h : Checks p t es t') (fault : TypingFault) (span : Span) (hf : fault.isOfChain = false) :
    Checks p t es (t'.fault fault span) :=
  h.imp fun _ h => ⟨h.1.fault fault span hf, h.2⟩

/-- Typing a complete expression is one expression more. -/
theorem root (h : Checks p t es t') (e : Expr) {expectation : Expectation} (hx : expectation.All p) :
    Checks p t (es ++ [e]) (t'.checked e expectation) := by
  obtain ⟨rs, hr, rfl⟩ := h
  exact ⟨_, hr.root e hx, List.map_append⟩

/-- Written types mean the same all the time. -/
theorem resolveDeclared (h : Checks p t es t') : t'.env.resolveDeclared = t.env.resolveDeclared := by
  obtain ⟨rs, hr, -⟩ := h
  exact hr.owner.resolveDeclared

/-- The table stays as it is. -/
theorem table (h : Checks p t es t') : t'.env.table = t.env.table := by
  obtain ⟨rs, hr, -⟩ := h
  exact hr.owner.table

end Checks

/-- Typing a complete expression types that expression. -/
theorem checks_checked (t : Typer) (e : Expr) (expectation : Expectation) (hx : expectation.All p) :
    Checks p t [e] (t.checked e expectation) :=
  (Checks.refl t).root e hx

/-- Going over several things one behind another. -/
theorem checks_foldl {α : Type} {f : Typer → α → Typer} (exprs : α → List Expr) {resolve : TypeExpr → Ty} (list : List α)
    (hf : ∀ t, t.env.resolveDeclared = resolve → ∀ a ∈ list, Checks p t (exprs a) (f t a)) (t : Typer)
    (ht : t.env.resolveDeclared = resolve) : Checks p t (list.flatMap exprs) (list.foldl f t) := by
  induction list generalizing t with
  | nil => exact .refl t
  | cons a list ih =>
    have ha := hf t ht a List.mem_cons_self
    exact ha.trans (ih (fun t ht b hb => hf t ht b (List.mem_cons_of_mem a hb)) _ (ha.resolveDeclared.trans ht))

/-! ## Statements -/

/-- The site of an expression that may be missing has that expression. -/
theorem map_optionSites (hidden : List String) (phase : Phase) (o : Option Expr) :
    (optionSites hidden phase o).map Site.expr = o.toList := by
  cases o <;> rfl

/-- Checking a `return` types its value. -/
theorem checks_checkReturn {result : Ty} (hr : p result) (t : Typer) (value : Option Expr) (span : Span) :
    Checks p t value.toList (t.checkReturn result value span) := by
  unfold checkReturn
  split
  · exact (checks_checked t _ .discard trivial).fault _ _ rfl
  · exact checks_checked t _ (.type result) hr
  · exact .refl t
  · exact .refl t
  · exact (Checks.refl t).fault _ _ rfl

mutual

/-- Statements are gone over in order. -/
theorem checks_statement (hb : p .bool) {result : Ty} (hr : p result) :
    ∀ (s : Statement) (hidden : List String) (t : Typer), s.WellFormed →
      Checks p t ((s.sites hidden).map Site.expr) (statement result s t)
  | .block list _, hidden, t, hw => by
    rw [statement]
    exact ((Checks.refl t).pushScope.trans (checks_statements hb hr list hidden _ hw)).popScope
  | .give value span, hidden, t, _ => by
    rw [statement, Statement.sites, map_optionSites]
    exact checks_checkReturn hr t value span
  | .branch condition thenBranch elseBranch _, hidden, t, hw => by
    obtain ⟨ht, he⟩ := Statement.wellFormed_branch.1 hw
    have hc := ((checks_checked t condition (.type .bool) hb).pushScope.trans
      (checks_statement hb hr thenBranch hidden _ ht)).popScope
    cases elseBranch with
    | none =>
      rw [statement, Statement.sites, List.append_nil]
      exact hc
    | some s =>
      rw [statement, Statement.sites, List.map_append]
      exact (hc.pushScope.trans (checks_statement hb hr s hidden _ (he s rfl))).popScope
  | .local type name nameSpan init _, hidden, t, hw => by
    rw [statement, Statement.sites, map_optionSites]
    refine ⟨_, (Runs.refl t).local type name nameSpan init hw, ?_⟩
    rw [List.nil_append, List.map_map]
    exact List.map_id _
  | .expr e, hidden, t, _ => by
    rw [statement]
    exact checks_checked t e .discard trivial

/-- Checking statements types the expressions of their sites. -/
theorem checks_statements (hb : p .bool) {result : Ty} (hr : p result) :
    ∀ (list : List Statement) (hidden : List String) (t : Typer), statementsWellFormed list →
      Checks p t ((statementSites hidden list).map Site.expr) (statements result list t)
  | [], hidden, t, _ => by
    rw [statements]
    exact .refl t
  | s :: rest, hidden, t, hw => by
    rw [statements, statementSites, List.map_append]
    exact (checks_statement hb hr s hidden t hw.1).trans (checks_statements hb hr rest _ _ hw.2)

end

/-! ## Members -/

/-- Checking a body types the expressions of its sites. -/
theorem checks_body (hb : p .bool) {result : Ty} (hr : p result) {b : Body} (hw : b.WellFormed) (hidden : List String)
    (t : Typer) :
    Checks p t ((b.sites hidden).map Site.expr) (t.body result b) := by
  cases b with
  | expr e =>
    refine checks_checked t e _ ?_
    split
    · trivial
    · exact hr
  | block b => exact ((Checks.refl t).pushScope.trans (checks_statements hb hr b.statements hidden _ hw)).popScope

/-- Checking the initializer of a member types it. -/
theorem checks_initializer (t : Typer) (m : Member) {type : Ty} (ht : p type) (o : Option Expr) :
    Checks p t o.toList (t.initializer m type o) := by
  cases o with
  | none => exact .refl t
  | some e => exact ((Checks.refl t).enter _ _).root e ht

/-- The types of parameters have the property. -/
theorem checks_enterBody (t : Typer) {params : List (String × Ty)} (hp : ∀ q ∈ params, p q.2) (isStatic : Bool) :
    Checks p t [] (t.enterBody params isStatic) := by
  have hd : ∀ t : Typer, Checks p t [] (params.foldl (fun t q => t.declare q.1 q.2) t) := by
    intro t
    induction params generalizing t with
    | nil => exact .refl t
    | cons q params ih =>
      obtain ⟨hq, hps⟩ := List.forall_mem_cons.1 hp
      exact ((Checks.refl t).declare q.1 hq).trans (ih hps _)
  exact ((Checks.refl t).enter _ _).trans (hd _)

/-- Checking default values types them. -/
theorem checks_defaults (t : Typer) (params : List Param) (hp : ∀ q ∈ params, p (t.env.resolveDeclared q.type)) (isStatic : Bool) :
    Checks p t ((defaultSites params).map Site.expr) (t.defaults params isStatic) := by
  rw [defaultSites, List.map_flatMap]
  refine checks_foldl _ params (fun u hu q hq => ?_) t rfl
  rw [map_optionSites]
  cases q.default with
  | none => exact .refl u
  | some e => exact ((Checks.refl u).enter _ _).root e (show p _ from hu ▸ hp q hq)

section

variable (hb : p .bool) (hv : p .void) {params : List Param} {types : List (String × Ty)} (hp : ∀ q ∈ types, p q.2)
  {type : Ty} (ht : p type)

include hb hv hp ht

/-- Checking an accessor types the expressions of its sites. -/
theorem checks_accessor (isStatic : Bool) (t : Typer) {a : Accessor} (hw : ∀ b ∈ a.body, b.WellFormed) :
    Checks p t ((a.sites params).map Site.expr) (accessor types type isStatic t a) := by
  unfold accessor Accessor.sites
  cases hab : a.body with
  | none => exact .refl t
  | some b =>
    have hw := hw b hab
    cases a.kind with
    | get => exact (checks_enterBody t hp isStatic).trans (checks_body hb ht hw _ _)
    | set => exact ((checks_enterBody t hp isStatic).declare _ ht).trans (checks_body hb hv hw _ _)

/-- Checking the body of a property types the expressions of its sites. -/
theorem checks_propertyBody (isStatic : Bool) (t : Typer) {b : PropertyBody} (hw : b.WellFormed) :
    Checks p t ((b.sites params).map Site.expr) (t.propertyBody types type isStatic b) := by
  cases b with
  | expr e => exact (checks_enterBody t hp isStatic).root e ht
  | accessors list =>
    rw [PropertyBody.sites, List.map_flatMap]
    exact checks_foldl _ list (fun t _ a ha => checks_accessor hb hv hp ht isStatic t (hw.2 a ha)) t rfl

end

end Typer

namespace Typer

variable {p : Ty → Prop}

/-- The code of a member whose written types have the property. -/
theorem checks_member (hb : p .bool) (hv : p .void) (t : Typer) {m : Member} (hw : m.WellFormed)
    (hp : ∀ e ∈ m.written, p (t.env.resolveDeclared e)) : Checks p t (m.sites.map Site.expr) (t.member m) := by
  have types : ∀ {params : List Param}, (∀ e ∈ params.map (·.type), p (t.env.resolveDeclared e)) →
      (∀ q ∈ params, p (t.env.resolveDeclared q.type)) ∧ ∀ q ∈ t.paramTypes params, p q.2 := by
    intro params h
    have hd : ∀ q ∈ params, p (t.env.resolveDeclared q.type) := fun q hq => h q.type (List.mem_map_of_mem hq)
    exact ⟨hd, List.forall_mem_map.2 hd⟩
  cases m with
  | field f =>
    rw [Member.sites, map_optionSites]
    exact checks_initializer t _ (hp _ List.mem_cons_self) f.init
  | property q =>
    have ht := hp _ List.mem_cons_self
    rw [Member.sites, List.map_append, map_optionSites]
    exact (checks_propertyBody hb hv (List.forall_mem_nil _) ht _ t hw).trans (checks_initializer _ _ ht q.init)
  | method d =>
    obtain ⟨hr, hps⟩ := List.forall_mem_cons.1 hp
    obtain ⟨hd, ht⟩ := types hps
    rw [Member.sites, List.map_append]
    exact (checks_defaults t d.params hd _).trans ((checks_enterBody _ ht _).trans (checks_body hb hr hw.2 _ _))
  | indexer i =>
    obtain ⟨hr, hps⟩ := List.forall_mem_cons.1 hp
    obtain ⟨hd, ht⟩ := types hps
    rw [Member.sites, List.map_append]
    exact (checks_defaults t i.params hd _).trans (checks_propertyBody hb hv ht hr _ _ hw.2.2)

/-! ## Headers -/

/-- Checking the default values of primary parameters types them. -/
theorem checks_primaryDefaults (t : Typer) (params : List PrimaryParam) {signatures : List ParamSig}
    (hl : signatures.length = params.length) (hp : ∀ s ∈ signatures, p s.type) :
    Checks p t ((params.flatMap fun q => optionSites [] .construction q.default).map Site.expr)
      (t.primaryDefaults params signatures) := by
  have hs : (params.flatMap fun q => optionSites [] .construction q.default).map Site.expr =
      (params.zip signatures).flatMap fun qs => qs.1.default.toList := by
    rw [List.map_flatMap]
    simp only [map_optionSites]
    rw [← List.flatMap_map (f := Prod.fst) (g := fun q : PrimaryParam => q.default.toList),
      List.map_fst_zip (Nat.le_of_eq hl.symm)]
  rw [hs]
  refine checks_foldl _ (params.zip signatures) (fun t _ qs hq => ?_) t rfl
  obtain ⟨q, s⟩ := qs
  dsimp only
  cases q.default with
  | none => exact .refl t
  | some e => exact ((Checks.refl t).enter _ _).root e (hp s (List.of_mem_zip hq).2)

/-- Checking the arguments for a base types them, whether there are parameters for them or not. -/
theorem checks_baseArguments (es : List Expr) : ∀ (params : List ParamSig), (∀ s ∈ params, p s.type) → ∀ t : Typer,
    Checks p t es (t.baseArguments params es) := by
  induction es with
  | nil =>
    intro params _ t
    rw [baseArguments.eq_def]
    exact .refl t
  | cons e es ih =>
    intro params hp t
    cases params with
    | nil =>
      rw [baseArguments]
      exact (checks_checked t e .value trivial).trans (ih [] hp _)
    | cons q params =>
      obtain ⟨hq, hps⟩ := List.forall_mem_cons.1 hp
      rw [baseArguments]
      exact (checks_checked t e (.type q.type) hq).trans (ih params hps _)

/-- Checking the base of a declaration types its arguments, if there are any. -/
theorem checks_baseOf (t : Typer) (d : TypeDecl) (base : Option Ty)
    (hp : ∀ b ∈ base, ∀ params ∈ baseConstructor? t.env.table b, ∀ s ∈ params, p s.type) :
    Checks p t (d.baseArgs?.getD []) (t.baseOf d base) := by
  have hs := (Checks.refl (p := p) t).enter .construction false
  unfold baseOf TypeDecl.baseArgs?
  split
  · rename_i args span hd
    rw [hd]
    dsimp only
    split
    · exact hs.trans (checks_baseArguments args [] (List.forall_mem_nil _) _)
    · rename_i params hc
      obtain ⟨b, hb, hc⟩ := Option.bind_eq_some_iff.1 hc
      split
      · exact hs.trans (checks_baseArguments args params (hp b hb params hc) _)
      · exact (hs.fault _ _ rfl).trans (checks_baseArguments args params (hp b hb params hc) _)
  · rename_i hb
    cases hd : d.base with
    | none => exact .refl t
    | some b =>
      obtain ⟨type, args, span⟩ := b
      cases args with
      | none => exact .refl t
      | some args => exact absurd hd (hb type args span)

end Typer

/-- All code of a declaration whose signature has the property. -/
theorem TypeDecl.checks_check {p : Ty → Prop} {d : TypeDecl} {table : TypeTable} {info : TypeInfo} {t : Typer}
    (ht : d.typer? table = some (info, t)) (hl : info.constructor.length = d.params.length) (hb : p .bool) (hv : p .void)
    (hc : ∀ s ∈ info.constructor, p s.type)
    (hbase : ∀ b ∈ info.base, ∀ params ∈ Typer.baseConstructor? table b, ∀ s ∈ params, p s.type)
    (hw : ∀ m ∈ d.members, m.WellFormed) (hm : ∀ m ∈ d.members, ∀ e ∈ m.written, p (t.env.resolveDeclared e)) :
    ∃ t', t.Checks p (d.sites.map Site.expr) t' ∧ d.check table = t'.report := by
  have htable : t.env.table = table := by
    unfold TypeDecl.typer? at ht
    split at ht
    · split at ht <;> cases ht
      rfl
    · cases ht
  have hd := Typer.checks_primaryDefaults t d.params hl hc
  have hh := hd.trans (Typer.checks_baseOf _ d info.base (by rwa [hd.table, htable]))
  have hms := hh.trans (Typer.checks_foldl (fun m => m.sites.map Site.expr) d.members
    (fun u hu m hmm => Typer.checks_member hb hv u (hw m hmm) (hu ▸ hm m hmm)) _ hh.resolveDeclared)
  have he : d.sites.map Site.expr = (d.params.flatMap fun q => optionSites [] .construction q.default).map Site.expr ++
      d.baseArgs?.getD [] ++ d.members.flatMap fun m => m.sites.map Site.expr := by
    have hm : (d.members.flatMap Member.sites).map Site.expr = d.members.flatMap fun m => m.sites.map Site.expr :=
      List.map_flatMap
    rw [TypeDecl.sites, TypeDecl.headerSites, List.map_append, List.map_append, List.map_map, hm,
      show Site.expr ∘ (fun e => (⟨e, [], .construction⟩ : Site)) = id from rfl, List.map_id]
  refine ⟨_, he ▸ hms, ?_⟩
  unfold TypeDecl.check
  rw [ht]

namespace TypeDecl

variable {d : TypeDecl}

/-- The members of a resolved declaration are well formed, and so are the fields that are added. -/
theorem wellFormed_members_resolve (hw : d.WellFormed) : ∀ m ∈ d.resolve.decl.members, m.WellFormed := by
  refine List.forall_mem_append.2 ⟨fun m hm => ?_, hw.members⟩
  obtain ⟨g, -, rfl⟩ := List.mem_map.1 hm
  trivial

/-- The code of a declaration of a unit that is checked is gone over by a run. -/
theorem runs_of_typer [Text.Hash] {source : String} {file : Option Nat} {unit : SourceUnit}
    (h : SourceUnit.parse source file = .ok unit) (hd : d ∈ unit.types) {info : TypeInfo} {t : Typer}
    (ht : d.resolve.decl.typer? (TypeTable.build unit.resolve.unit).value = some (info, t)) :
    ∃ typings t', t.Runs (fun _ => True) typings t' ∧
      d.resolve.decl.check (TypeTable.build unit.resolve.unit).value = t'.report ∧
        typings.map (·.expr) = d.resolve.decl.exprs := by
  have hl : info.constructor.length = d.params.length := by simpa using congrArg List.length (d.visits_of_typer h hd ht).1
  obtain ⟨t', ⟨typings, hr, he⟩, hreport⟩ := checks_check (p := fun _ => True) ht hl trivial trivial (fun _ _ => trivial)
    (fun _ _ _ _ _ _ => trivial) (wellFormed_members_resolve (SourceUnit.wellFormed_of_parse h d hd)) fun _ _ _ _ => trivial
  exact ⟨typings, t', hr, hreport, he.trans d.resolve.decl.exprs_eq.symm⟩

end TypeDecl

end NavCheck
