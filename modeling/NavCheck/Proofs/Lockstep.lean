import NavCheck.Proofs.Visits

/-!
# Typers in lockstep

Two typers that go over the same code. Inside of a body they are at the same point, so all that they type there is the
same to them; between bodies only the type that they work for has to be the same, because every body is entered anew.
A relation that the few steps of typers keep is kept by all the code of a declaration.
-/

namespace NavCheck

/-- Two environments belong to the same type. -/
structure Env.SameOwner (env' env : Env) : Prop where
  table : env'.table = env.table
  self : env'.self = env.self
  generics : env'.generics = env.generics
  primary : env'.primary = env.primary

namespace Env.SameOwner

variable {env env' env'' : Env}

/-- An environment belongs to its own type. -/
theorem refl (env : Env) : env.SameOwner env :=
  ⟨rfl, rfl, rfl, rfl⟩

/-- Belonging to the same type is transitive. -/
theorem trans (h : env''.SameOwner env') (h' : env'.SameOwner env) : env''.SameOwner env :=
  ⟨h.table.trans h'.table, h.self.trans h'.self, h.generics.trans h'.generics, h.primary.trans h'.primary⟩

/-- Belonging to the same type is symmetric. -/
theorem symm (h : env'.SameOwner env) : env.SameOwner env' :=
  ⟨h.table.symm, h.self.symm, h.generics.symm, h.primary.symm⟩

/-- A local that is declared belongs to the same type. -/
theorem declare (h : env'.SameOwner env) (name : String) (type : Ty) : (env'.declare name type).SameOwner env := by
  unfold Env.declare
  split <;> exact ⟨h.table, h.self, h.generics, h.primary⟩

/-- Written types mean the same. -/
theorem resolveDeclared (h : env'.SameOwner env) : env'.resolveDeclared = env.resolveDeclared := by
  funext e
  rw [Env.resolveDeclared, Env.resolveDeclared, h.table, h.generics]

/-- A body that is entered is entered at the same point. -/
theorem enter {t u : Typer} (h : t.env.SameOwner u.env) (phase : Phase) (isStatic : Bool) :
    (t.enter phase isStatic).env = (u.enter phase isStatic).env := by
  obtain ⟨table, self, generics, primary⟩ := h
  simp only [Typer.enter, table, self, generics, primary]

end Env.SameOwner

namespace Typer

/-- A relation between typers inside of a body and one between bodies, which the steps of typers keep where the
expressions are fine. -/
structure Lockstep (ok : Expr → Prop) (Inside Between : Typer → Typer → Prop) : Prop where
  env {u t : Typer} : Inside u t → t.env = u.env
  leave {u t : Typer} : Inside u t → Between u t
  owner {u t : Typer} : Between u t → t.env.SameOwner u.env
  enter {u t : Typer} : Between u t → ∀ phase isStatic, Inside (u.enter phase isStatic) (t.enter phase isStatic)
  scopes {u t : Typer} : Inside u t → ∀ scopes,
    Inside { u with env := { u.env with scopes } } { t with env := { t.env with scopes } }
  run {u t : Typer} {α : Type} : Inside u t → ∀ part : Env → Typed α, (∀ env, plansOf (part env).notes = []) →
    Inside (u.run part).2 (t.run part).2
  root {u t : Typer} {e : Expr} : Inside u t → ok e → ∀ expectation, Inside (u.checked e expectation) (t.checked e expectation)

/-- The meaning of a written type comes without plans. -/
theorem plansOf_resolve (e : TypeExpr) (env : Env) : plansOf (env.resolve e).notes = [] := by
  unfold Env.resolve
  split <;> rfl

namespace Lockstep

variable {ok : Expr → Prop} {Inside Between : Typer → Typer → Prop} (L : Lockstep ok Inside Between) {u t : Typer}

/-- What holds of the site of an expression that may be missing holds of the expression. -/
theorem forall_optionSites {hidden : List String} {phase : Phase} {o : Option Expr}
    (h : ∀ s ∈ optionSites hidden phase o, ok s.expr) : ∀ e ∈ o, ok e := by
  rintro e rfl
  exact h _ List.mem_cons_self

/-- Going over several things one behind another. -/
theorem foldl_between {α : Type} {f g : Typer → α → Typer} : ∀ (list : List α) {u t : Typer},
    (∀ a ∈ list, ∀ {u t}, Between u t → Between (f u a) (g t a)) → Between u t → Between (list.foldl f u) (list.foldl g t)
  | [], _, _, _, h => h
  | a :: list, _, _, hf, h =>
    foldl_between list (fun b hb => hf b (List.mem_cons_of_mem a hb)) (hf a List.mem_cons_self h)

include L

/-! ## Scopes and locals -/

/-- Typers stay in lockstep when both open a scope. -/
theorem pushScope (h : Inside u t) : Inside u.pushScope t.pushScope := by
  have ht : t.pushScope = { t with env := { t.env with scopes := [] :: u.env.scopes } } := by
    rw [Typer.pushScope, Env.enterScope, L.env h]
  rw [ht]
  exact L.scopes h _

/-- Typers stay in lockstep when both close a scope. -/
theorem popScope (h : Inside u t) : Inside u.popScope t.popScope := by
  have he := L.env h
  unfold Typer.popScope
  split
  · rename_i outer rest hu
    rw [← he] at hu
    rw [hu]
    exact L.scopes h (outer :: rest)
  · rename_i hu
    split
    · rename_i ht
      exact absurd (he ▸ ht) (hu _ _ _)
    · exact h

/-- Typers stay in lockstep when both declare a local. -/
theorem declare (h : Inside u t) (name : String) (type : Ty) : Inside (u.declare name type) (t.declare name type) := by
  have he := L.env h
  unfold Typer.declare Env.declare
  cases hu : u.env.scopes with
  | nil =>
    rw [he, hu, ← he]
    have hi := L.scopes h u.env.scopes
    rwa [← he] at hi
  | cons scope scopes =>
    rw [he, hu, ← he]
    have hi := L.scopes h (((name, type) :: scope) :: scopes)
    rwa [← he] at hi

/-- Typers stay in lockstep when both report a fault. -/
theorem fault (h : Inside u t) (fault : TypingFault) (span : Span) : Inside (u.fault fault span) (t.fault fault span) :=
  L.run h _ fun _ => rfl

/-! ## Statements -/

/-- Typers in lockstep infer the same type for a local, and stay in lockstep. -/
theorem inferLocal (h : Inside u t) (name : String) (span : Span) (found : Ty) :
    (t.inferLocal name span found).1 = (u.inferLocal name span found).1 ∧
      Inside (u.inferLocal name span found).2 (t.inferLocal name span found).2 := by
  unfold Typer.inferLocal
  split
  · exact ⟨rfl, L.fault h _ _⟩
  · split
    · exact ⟨rfl, L.fault h _ _⟩
    · exact ⟨rfl, h⟩
  · exact ⟨rfl, h⟩

/-- Typers stay in lockstep over a `return`. -/
theorem checkReturn (h : Inside u t) (result : Ty) {value : Option Expr} (hv : ∀ e ∈ value, ok e) (span : Span) :
    Inside (u.checkReturn result value span) (t.checkReturn result value span) := by
  unfold Typer.checkReturn
  split
  · exact L.fault (L.root h (hv _ rfl) _) _ _
  · exact L.root h (hv _ rfl) _
  · exact h
  · exact h
  · exact L.fault h _ _

/-- Typers stay in lockstep over a local. -/
theorem checkLocal (h : Inside u t) (type : Option TypeExpr) (name : String) (nameSpan : Span) {init : Option Expr}
    (hi : ∀ e ∈ init, ok e) :
    Inside (u.checkLocal type name nameSpan init) (t.checkLocal type name nameSpan init) := by
  unfold Typer.checkLocal
  split
  · rename_i written
    have hr := L.run h (fun env => env.resolve written) (plansOf_resolve written)
    have hd : (t.run fun env => env.resolve written).1 = (u.run fun env => env.resolve written).1 := by
      simp only [Typer.run, L.env h]
    dsimp only
    rw [hd]
    cases init with
    | none => exact L.declare hr _ _
    | some e => exact L.declare (L.root hr (hi e rfl) _) _ _
  · rename_i e
    have hr : Inside (u.checkRoot e .value).2 (t.checkRoot e .value).2 := L.root h (hi e rfl) .value
    have hf : (t.checkRoot e .value).1 = (u.checkRoot e .value).1 := by
      rw [type_checkRoot, type_checkRoot, L.env h]
    obtain ⟨hn, hs⟩ := L.inferLocal hr name nameSpan (u.checkRoot e .value).1
    dsimp only
    rw [hf, hn]
    exact L.declare hs _ _
  · exact L.declare h _ _

/-- A scope around a part that both go over. -/
theorem inScope {f : Typer → Typer} (h : Inside u t) (hf : ∀ {u t}, Inside u t → Inside (f u) (f t)) :
    Inside (f u.pushScope).popScope (f t.pushScope).popScope :=
  L.popScope (hf (L.pushScope h))

omit L

mutual

/-- A statement, by its structure. -/
theorem statement (L : Lockstep ok Inside Between) (result : Ty) :
    ∀ (s : Statement) (hidden : List String) {u t : Typer}, (∀ site ∈ s.sites hidden, ok site.expr) → Inside u t →
      Inside (statement result s u) (statement result s t)
  | .block list _, hidden, u, t, hs, h => by
    rw [Typer.statement, Typer.statement]
    exact L.inScope h (L.statements result list hidden hs)
  | .give value span, hidden, u, t, hs, h => by
    rw [Typer.statement, Typer.statement]
    exact L.checkReturn h result (forall_optionSites hs) span
  | .branch condition thenBranch none _, hidden, u, t, hs, h => by
    rw [Typer.statement, Typer.statement]
    rw [Statement.sites, List.append_nil, List.forall_mem_cons] at hs
    exact L.inScope (L.root h hs.1 _) (L.statement result thenBranch hidden hs.2)
  | .branch condition thenBranch (some s) _, hidden, u, t, hs, h => by
    rw [Typer.statement, Typer.statement]
    rw [Statement.sites, List.cons_append, List.forall_mem_cons, List.forall_mem_append] at hs
    obtain ⟨hc, ht, he⟩ := hs
    exact L.inScope (L.inScope (L.root h hc _) (L.statement result thenBranch hidden ht)) (L.statement result s hidden he)
  | .local type name nameSpan init _, hidden, u, t, hs, h => by
    rw [Typer.statement, Typer.statement]
    exact L.checkLocal h type name nameSpan (forall_optionSites hs)
  | .expr e, hidden, u, t, hs, h => by
    rw [Typer.statement, Typer.statement]
    exact L.root h (hs _ List.mem_cons_self) _

/-- Typers stay in lockstep over statements. -/
theorem statements (L : Lockstep ok Inside Between) (result : Ty) :
    ∀ (list : List Statement) (hidden : List String) {u t : Typer}, (∀ site ∈ statementSites hidden list, ok site.expr) →
      Inside u t → Inside (statements result list u) (statements result list t)
  | [], _, u, t, _, h => by
    rw [Typer.statements, Typer.statements]
    exact h
  | s :: rest, hidden, u, t, hs, h => by
    rw [Typer.statements, Typer.statements]
    rw [statementSites, List.forall_mem_append] at hs
    exact L.statements result rest _ hs.2 (L.statement result s hidden hs.1 h)

end

include L

/-- Typers stay in lockstep over a body. -/
theorem body (result : Ty) {b : Body} {hidden : List String} (hs : ∀ s ∈ b.sites hidden, ok s.expr) (h : Inside u t) :
    Inside (u.body result b) (t.body result b) := by
  cases b with
  | expr e => exact L.root h (hs _ List.mem_cons_self) _
  | block b => exact L.inScope h (L.statements result b.statements hidden hs)

/-! ## Members -/

/-- Typers between bodies are in lockstep when both enter a body. -/
theorem enterBody (h : Between u t) (params : List (String × Ty)) (isStatic : Bool) :
    Inside (u.enterBody params isStatic) (t.enterBody params isStatic) := by
  have hd : ∀ (params : List (String × Ty)) {u t : Typer}, Inside u t →
      Inside (params.foldl (fun t p => t.declare p.1 p.2) u) (params.foldl (fun t p => t.declare p.1 p.2) t) := by
    intro params
    induction params with
    | nil => exact fun h => h
    | cons p params ih => exact fun h => ih (L.declare h p.1 p.2)
  exact hd params (L.enter h .afterwards isStatic)

/-- A complete expression at the begin of a body or an initializer. -/
theorem entered {e : Expr} (h : Between u t) (he : ok e) (phase : Phase) (isStatic : Bool) (expectation : Expectation) :
    Between ((u.enter phase isStatic).checked e expectation) ((t.enter phase isStatic).checked e expectation) :=
  L.leave (L.root (L.enter h phase isStatic) he expectation)

/-- Typers between bodies stay so over the initializer of a member. -/
theorem initializer (h : Between u t) (m : Member) (type : Ty) {o : Option Expr} (ho : ∀ e ∈ o, ok e) :
    Between (u.initializer m type o) (t.initializer m type o) := by
  cases o with
  | none => exact h
  | some e => exact L.entered h (ho e rfl) _ _ _

/-- Typers between bodies stay so over default values of parameters. -/
theorem defaults (h : Between u t) {params : List Param} (hs : ∀ s ∈ defaultSites params, ok s.expr) (isStatic : Bool) :
    Between (u.defaults params isStatic) (t.defaults params isStatic) := by
  refine foldl_between params (fun p hp u t h => ?_) h
  have hsites : ∀ s ∈ optionSites [] .afterwards p.default, ok s.expr := fun s hsp =>
    hs s (List.mem_flatMap.2 ⟨p, hp, hsp⟩)
  have hd := forall_optionSites hsites
  cases hpd : p.default with
  | none => exact h
  | some e =>
    dsimp only
    rw [(L.owner h).resolveDeclared]
    exact L.entered h (hd e hpd) _ _ _

/-- Typers between bodies stay so over an accessor. -/
theorem accessor {params : List Param} (types : List (String × Ty)) (type : Ty) (isStatic : Bool) {a : Accessor}
    (hs : ∀ s ∈ a.sites params, ok s.expr) (h : Between u t) :
    Between (accessor types type isStatic u a) (accessor types type isStatic t a) := by
  unfold Typer.accessor
  unfold Accessor.sites at hs
  cases hb : a.body with
  | none => exact h
  | some b =>
    rw [hb] at hs
    cases a.kind with
    | get => exact L.leave (L.body type hs (L.enterBody h types isStatic))
    | set => exact L.leave (L.body .void hs (L.declare (L.enterBody h types isStatic) "value" type))

/-- Typers between bodies stay so over the body of a property. -/
theorem propertyBody {params : List Param} (types : List (String × Ty)) (type : Ty) (isStatic : Bool) {b : PropertyBody}
    (hs : ∀ s ∈ b.sites params, ok s.expr) (h : Between u t) :
    Between (u.propertyBody types type isStatic b) (t.propertyBody types type isStatic b) := by
  cases b with
  | expr e => exact L.leave (L.root (L.enterBody h types isStatic) (hs _ List.mem_cons_self) _)
  | accessors list =>
    exact foldl_between list (fun a ha _ _ h =>
      L.accessor types type isStatic (fun s hsa => hs s (List.mem_flatMap.2 ⟨a, ha, hsa⟩)) h) h

/-- The code of a member. -/
theorem member {m : Member} (hs : ∀ s ∈ m.sites, ok s.expr) (h : Between u t) : Between (u.member m) (t.member m) := by
  have hr := (L.owner h).resolveDeclared
  have hp : ∀ params, t.paramTypes params = u.paramTypes params := fun params => by
    rw [paramTypes, paramTypes, hr]
  unfold Typer.member
  cases m with
  | field f =>
    dsimp only
    rw [hr]
    exact L.initializer h _ _ (forall_optionSites hs)
  | property p =>
    dsimp only
    rw [hr]
    rw [Member.sites, List.forall_mem_append] at hs
    exact L.initializer (L.propertyBody [] _ _ hs.1 h) _ _ (forall_optionSites hs.2)
  | method d =>
    dsimp only
    rw [hr, hp]
    rw [Member.sites, List.forall_mem_append] at hs
    exact L.leave (L.body _ hs.2 (L.enterBody (L.defaults h hs.1 _) _ _))
  | indexer i =>
    dsimp only
    rw [hr, hp]
    rw [Member.sites, List.forall_mem_append] at hs
    exact L.propertyBody _ _ _ hs.2 (L.defaults h hs.1 _)

/-! ## Headers -/

/-- Typers between bodies stay so over the default values of primary parameters. -/
theorem primaryDefaults {params : List PrimaryParam}
    (hs : ∀ s ∈ params.flatMap fun p => optionSites [] .construction p.default, ok s.expr) (signatures : List ParamSig)
    (h : Between u t) : Between (u.primaryDefaults params signatures) (t.primaryDefaults params signatures) := by
  refine foldl_between (params.zip signatures) (fun ⟨p, s⟩ hp u t h => ?_) h
  have hsites : ∀ s ∈ optionSites [] .construction p.default, ok s.expr := fun s hsp =>
    hs s (List.mem_flatMap.2 ⟨p, (List.of_mem_zip hp).1, hsp⟩)
  have hd := forall_optionSites hsites
  cases hpd : p.default with
  | none => simpa only [hpd] using h
  | some e => simpa only [hpd] using L.entered h (hd e hpd) .construction false (.type s.type)

/-- Typers stay in lockstep over the arguments for a base. -/
theorem baseArguments (es : List Expr) : ∀ (params : List ParamSig) {u t : Typer}, (∀ e ∈ es, ok e) → Inside u t →
    Inside (u.baseArguments params es) (t.baseArguments params es) := by
  induction es with
  | nil =>
    intro params u t _ h
    rw [baseArguments.eq_def, baseArguments.eq_def]
    exact h
  | cons e es ih =>
    intro params u t hs h
    rw [List.forall_mem_cons] at hs
    cases params with
    | nil =>
      rw [Typer.baseArguments, Typer.baseArguments]
      exact ih [] hs.2 (L.root h hs.1 _)
    | cons p params =>
      rw [Typer.baseArguments, Typer.baseArguments]
      exact ih params hs.2 (L.root h hs.1 _)

/-- Typers between bodies stay so over the base of a declaration. -/
theorem baseOf {d : TypeDecl} (hs : ∀ e ∈ d.baseArgs?.getD [], ok e) (base : Option Ty) (h : Between u t) :
    Between (u.baseOf d base) (t.baseOf d base) := by
  have hi := L.enter h .construction false
  unfold Typer.baseOf
  unfold TypeDecl.baseArgs? at hs
  split
  · rename_i args span hb
    rw [hb] at hs
    dsimp only
    rw [L.env hi]
    split
    · exact L.leave (L.baseArguments args [] hs hi)
    · split
      · exact L.leave (L.baseArguments args _ hs hi)
      · exact L.leave (L.baseArguments args _ hs (L.fault hi _ _))
  · exact h

end Lockstep

end Typer

end NavCheck
