import NavCheck.Proofs.Layout.Typing

/-!
# Bodies in another layout

A typer that goes through relocated code keeps the relocated locals, plans and records, and it makes the same findings in the
same order. The code of a declaration is checked when the table knows the declaration by its place, so relocated code is
checked exactly when the code is, as long as no two places become one.
-/

namespace NavCheck

@[simps]
instance LoweredExpr.placed : Placed LoweredExpr where
  move m l := ⟨m.span l.span, move m l.lowered⟩
  move_move m n l := by simp only [move_move]; rfl

@[simps]
instance TypingReport.placed : Placed TypingReport where
  move m r :=
    { diagnostics := move m r.diagnostics, navigation := move m r.navigation, lowered := move m r.lowered
      names := move m r.names }
  move_move m n r := by simp only [move_move]

/-- What was found in relocated code beside what was found in the code. -/
structure TypingReport.Moved (m : Relocation) (r' r : TypingReport) : Prop where
  findings : erased r'.diagnostics = erased r.diagnostics
  navigation : r'.navigation = move m r.navigation
  lowered : r'.lowered = move m r.lowered
  names : r'.names = move m r.names

namespace TypingReport.Moved

variable {m : Relocation} {r' r s' s : TypingReport}

/-- Nothing found is relocated as nothing found. -/
theorem empty : Moved m .empty .empty :=
  ⟨rfl, rfl, rfl, rfl⟩

/-- Relocated reports add up to the relocation of the sum. -/
theorem append (h : Moved m r' r) (hs : Moved m s' s) : Moved m (r'.append s') (r.append s) where
  findings := by rw [TypingReport.append, TypingReport.append, erased_append, erased_append, h.findings, hs.findings]
  navigation := by simp [TypingReport.append, h.navigation, hs.navigation]
  lowered := by simp [TypingReport.append, h.lowered, hs.lowered]
  names := by simp [TypingReport.append, h.names, hs.names]

/-- Relocated reports are the same but for their places. -/
theorem erased_eq (h : Moved m r' r) : erased r' = erased r := by
  show TypingReport.mk (erased r'.diagnostics) (erased r'.navigation) (erased r'.lowered) (erased r'.names) = _
  rw [h.findings, h.navigation, h.lowered, h.names, erased_move, erased_move, erased_move]
  rfl

end TypingReport.Moved

/-! ## Notes -/

section

variable {m : Relocation} {notes' notes : List TypingNote} (h : List.Forall₂ (TypingNote.Moved m) notes' notes)

include h

/-- Findings of relocated notes are the same but for their places. -/
theorem erased_findingsOf : erased (findingsOf notes') = erased (findingsOf notes) := by
  induction h with
  | nil => rfl
  | @cons _ _ notes notes' hn _ ih =>
    cases hn with
    | @finding d' d hd =>
      have hd : erased d' = erased d := hd
      show erased d' :: erased (findingsOf notes) = erased d :: erased (findingsOf notes')
      rw [hd, ih]
    | chain record plan => exact ih
    | name use => exact ih

/-- Relocated notes have the relocated records. -/
theorem recordsOf_moved : recordsOf notes' = (recordsOf notes).map (move m) := by
  induction h with
  | nil => rfl
  | cons hn _ ih =>
    cases hn with
    | chain record plan => exact congrArg (move m record :: ·) ih
    | finding _ => exact ih
    | name use => exact ih

/-- Relocated notes have the relocated uses of names. -/
theorem usesOf_moved : usesOf notes' = (usesOf notes).map (move m) := by
  induction h with
  | nil => rfl
  | cons hn _ ih =>
    cases hn with
    | name use => exact congrArg (move m use :: ·) ih
    | finding _ => exact ih
    | chain record plan => exact ih

/-- Relocated notes leave the same plans, under the relocated guards. -/
theorem plansOf_moved : plansOf notes' = guarded m (plansOf notes) := by
  unfold plansOf
  rw [guarded, List.map_reverse]
  refine congrArg List.reverse ?_
  induction h with
  | nil => rfl
  | cons hn _ ih =>
    cases hn with
    | chain record plan =>
      cases plan with
      | none => exact ih
      | some plan => exact congrArg ((m.guard record.guard, plan) :: ·) ih
    | finding _ => exact ih
    | name use => exact ih

end

/-! ## Typers -/

/-- A typer in relocated code beside a typer in the code. -/
structure Typer.Moved (m : Relocation) (t' t : Typer) : Prop where
  env : t'.env = move m t.env
  report : t'.report.Moved m t.report
  plans : t'.plans = guarded m t.plans

namespace Typer.Moved

variable {m : Relocation} {t' t : Typer}

/-- A typer starts on a relocated table as the relocation of a typer on the table. -/
theorem start (table : TypeTable) (self : Ty) (generics : List GenericInfo) (primary : List ParamSig) :
    Moved m (.start (move m table) self generics primary) (.start table self generics primary) :=
  ⟨rfl, .empty, rfl⟩

/-- Entering a phase keeps typers relocated. -/
theorem enter (h : Moved m t' t) (phase : Phase) (isStatic : Bool) :
    Moved m (t'.enter phase isStatic) (t.enter phase isStatic) :=
  ⟨by rw [Typer.enter, h.env]; rfl, h.report, h.plans⟩

/-- Opening a scope keeps typers relocated. -/
theorem pushScope (h : Moved m t' t) : Moved m t'.pushScope t.pushScope :=
  ⟨by rw [Typer.pushScope, h.env]; rfl, h.report, h.plans⟩

/-- Closing a scope keeps typers relocated. -/
theorem popScope (h : Moved m t' t) : Moved m t'.popScope t.popScope := by
  obtain ⟨env', report', plans'⟩ := t'
  obtain ⟨⟨table, self, generics, primary, phase, isStatic, scopes⟩, report, plans⟩ := t
  obtain ⟨rfl, hr, hp⟩ := h
  rcases scopes with _ | ⟨scope, _ | ⟨outer, rest⟩⟩ <;> exact ⟨rfl, hr, hp⟩

/-- Declaring a local keeps typers relocated. -/
theorem declare (h : Moved m t' t) (name : String) (type : Ty) : Moved m (t'.declare name type) (t.declare name type) := by
  refine ⟨?_, h.report, h.plans⟩
  rw [Typer.declare, h.env]
  obtain ⟨⟨table, self, generics, primary, phase, isStatic, _ | ⟨scope, scopes⟩⟩, report, plans⟩ := t <;> rfl

/-- Keeping relocated notes and relocated chains keeps typers relocated. -/
theorem keep (hm : m.Faithful) (h : Moved m t' t) {notes' notes : List TypingNote}
    (hn : List.Forall₂ (TypingNote.Moved m) notes' notes) (chains : LoweredChains) (lowered : List LoweredExpr) :
    Moved m (t'.keep notes' (guarded m chains) (move m lowered)) (t.keep notes chains lowered) := by
  have navigation : (recordsOf notes').map (fun r => { r with lowered := (guarded m chains).lookup r.guard }) =
      move m ((recordsOf notes).map fun r => { r with lowered := chains.lookup r.guard }) := by
    rw [recordsOf_moved hn, List.placed_move, List.map_map, List.map_map]
    refine congrArg (List.map · (recordsOf notes)) (funext fun r => ?_)
    simp only [Function.comp_apply, NavigationRecord.placed_move_guard, lookup_guarded hm]
    rfl
  have plans : plansOf notes' ++ t'.plans = guarded m (plansOf notes ++ t.plans) := by
    rw [plansOf_moved hn, h.plans, guarded, guarded, guarded, List.map_append]
  exact ⟨h.env, h.report.append ⟨erased_findingsOf hn, navigation, rfl, usesOf_moved hn⟩, plans⟩

/-- A part of typing that is relocated with its environment answers the same and keeps typers relocated. -/
theorem run (hm : m.Faithful) (h : Moved m t' t) {α : Type} {part' part : Env → Typed α}
    (hp : Typed.Moves m id (part' (move m t.env)) (part t.env)) :
    (t'.run part').1 = (t.run part).1 ∧ Moved m (t'.run part').2 (t.run part).2 := by
  rw [Typer.run, Typer.run, h.env]
  exact ⟨hp.1, h.keep hm hp.2 [] []⟩

/-- Reporting a fault keeps typers relocated, whatever the two places are. -/
theorem fault (hm : m.Faithful) (h : Moved m t' t) (fault : TypingFault) (span' span : Span) :
    Moved m (t'.fault fault span') (t.fault fault span) :=
  (h.run hm (fault.moves_report span' span)).2

/-- A relocated root gets the same type as the root, and the typers stay relocated. -/
theorem checkRoot (hm : m.Faithful) (h : Moved m t' t) (e : Expr) (expectation : Expectation) :
    (t'.checkRoot (move m e) expectation).1 = (t.checkRoot e expectation).1 ∧
      Moved m (t'.checkRoot (move m e) expectation).2 (t.checkRoot e expectation).2 := by
  have typed : Typed.Moves m id (rootType t'.env (move m e) expectation) (rootType t.env e expectation) := by
    rw [h.env]
    cases expectation with
    | type expected =>
      exact (Env.moves_check t.env expected e (e.moves_typeSpine hm t.env (.against expected))).bind fun _ =>
        Noted.moves_pure rfl
    | value => exact Env.moves_presentValueOf t.env e (e.moves_typeSpine hm t.env .value)
    | discard => exact Env.moves_valueOf t.env e (e.moves_typeSpine hm t.env .value)
  have hp : plansOf (rootType t'.env (move m e) expectation).notes ++ t'.plans =
      guarded m (plansOf (rootType t.env e expectation).notes ++ t.plans) := by
    rw [plansOf_moved typed.2, h.plans, guarded, guarded, guarded, List.map_append]
  simp only [Typer.checkRoot, Expr.hasNavigation_move, hp, Expr.lowerRoot_move hm]
  split
  · generalize e.lowerRoot (plansOf (rootType t.env e expectation).notes ++ t.plans) = lowered
    have hl : [LoweredExpr.mk (move m e).span (move m lowered).root] = move m [⟨e.span, lowered.root⟩] := by
      rw [Expr.move_span]
      rfl
    rw [hl]
    exact ⟨typed.1, h.keep hm typed.2 _ _⟩
  · exact ⟨typed.1, h.keep hm typed.2 [] []⟩

/-- Typing a root for its findings alone keeps typers relocated. -/
theorem checked (hm : m.Faithful) (h : Moved m t' t) (e : Expr) (expectation : Expectation) :
    Moved m (t'.checked (move m e) expectation) (t.checked e expectation) :=
  (h.checkRoot hm e expectation).2

/-! ## Statements -/

/-- A local gets the same inferred type in relocated code, and the typers stay relocated. -/
theorem inferLocal (hm : m.Faithful) (h : Moved m t' t) (name : String) (span' span : Span) (found : Ty) :
    (t'.inferLocal name span' found).1 = (t.inferLocal name span found).1 ∧
      Moved m (t'.inferLocal name span' found).2 (t.inferLocal name span found).2 := by
  cases found with
  | null => exact ⟨rfl, h.fault hm _ _ _⟩
  | delegate params result =>
    rw [Typer.inferLocal, Typer.inferLocal]
    split
    · exact ⟨rfl, h.fault hm _ _ _⟩
    · exact ⟨rfl, h⟩
  | _ => exact ⟨rfl, h⟩

/-- A relocated `return` is checked as the `return` is. -/
theorem checkReturn (hm : m.Faithful) (h : Moved m t' t) (result : Ty) (value : Option Expr) (span' span : Span) :
    Moved m (t'.checkReturn result (value.map (move m)) span') (t.checkReturn result value span) := by
  cases value with
  | some e =>
    cases result with
    | void => exact (h.checked hm e .discard).fault hm _ _ _
    | _ => exact h.checked hm e _
  | none =>
    cases result with
    | void => exact h
    | error => exact h
    | _ => exact h.fault hm _ _ _

/-- A relocated local is checked as the local is. -/
theorem checkLocal (hm : m.Faithful) (h : Moved m t' t) (type : Option TypeExpr) (name : String) (span' span : Span)
    (init : Option Expr) :
    Moved m (t'.checkLocal (type.map (move m)) name span' (init.map (move m))) (t.checkLocal type name span init) := by
  rw [Typer.checkLocal.eq_def, Typer.checkLocal.eq_def]
  cases type with
  | some written =>
    have hr : (t'.run fun env => env.resolve (move m written)).1 = (t.run fun env => env.resolve written).1 ∧
        Moved m (t'.run fun env => env.resolve (move m written)).2 (t.run fun env => env.resolve written).2 :=
      h.run hm (Env.moves_resolve t.env written)
    dsimp only [Option.map_some]
    generalize t'.run (fun env => env.resolve (move m written)) = found' at hr ⊢
    generalize t.run (fun env => env.resolve written) = found at hr ⊢
    obtain ⟨declared, u'⟩ := found'
    obtain ⟨rfl, hu⟩ := hr
    cases init with
    | none => exact hu.declare name _
    | some e => exact (hu.checked hm e _).declare name _
  | none =>
    cases init with
    | none => exact h.declare name .error
    | some e =>
      have hr := h.checkRoot hm e .value
      dsimp only [Option.map_none, Option.map_some]
      generalize t'.checkRoot (move m e) .value = found' at hr ⊢
      generalize t.checkRoot e .value = found at hr ⊢
      obtain ⟨type, u'⟩ := found'
      obtain ⟨rfl, hu⟩ := hr
      obtain ⟨hi, hs⟩ := hu.inferLocal hm name span' span found.1
      dsimp only
      rw [hi]
      exact hs.declare name _

mutual

/-- A relocated statement is checked as the statement is: by induction on the statement, beside the lists in it. -/
theorem statement (hm : m.Faithful) (result : Ty) : ∀ (s : Statement) {t' t : Typer}, Moved m t' t →
    Moved m (Typer.statement result (move m s) t') (Typer.statement result s t)
  | .block list _, t', t, h => by
    rw [Statement.move_block, Typer.statement, Typer.statement]
    exact (statements hm result list h.pushScope).popScope
  | .give value span, t', t, h => by
    rw [Statement.move_give, Typer.statement, Typer.statement]
    exact h.checkReturn hm result value _ _
  | .branch condition thenBranch none _, t', t, h => by
    rw [Statement.move_branch, Option.map_none, Typer.statement, Typer.statement]
    exact (statement hm result thenBranch (h.checked hm condition (.type .bool)).pushScope).popScope
  | .branch condition thenBranch (some elseBranch) _, t', t, h => by
    rw [Statement.move_branch, Option.map_some, Typer.statement, Typer.statement]
    exact (statement hm result elseBranch
      (statement hm result thenBranch (h.checked hm condition (.type .bool)).pushScope).popScope.pushScope).popScope
  | .local type name nameSpan init _, t', t, h => by
    rw [Statement.move_local, Typer.statement, Typer.statement]
    exact h.checkLocal hm type name _ _ init
  | .expr e, t', t, h => by
    rw [Statement.move_expr, Typer.statement, Typer.statement]
    exact h.checked hm e .discard

/-- Relocated statements are checked as the statements are. -/
theorem statements (hm : m.Faithful) (result : Ty) : ∀ (list : List Statement) {t' t : Typer}, Moved m t' t →
    Moved m (Typer.statements result (list.map (move m)) t') (Typer.statements result list t)
  | [], t', t, h => by
    rw [List.map_nil, Typer.statements, Typer.statements]
    exact h
  | s :: rest, t', t, h => by
    rw [List.map_cons, Typer.statements, Typer.statements]
    exact statements hm result rest (statement hm result s h)

end

/-- A relocated body is checked as the body is. -/
theorem body (hm : m.Faithful) (h : Moved m t' t) (result : Ty) (b : Body) :
    Moved m (t'.body result (move m b)) (t.body result b) := by
  cases b with
  | expr e => exact h.checked hm e _
  | block b => exact (statements hm result b.statements h.pushScope).popScope

/-! ## Members -/

/-- What every step along a list keeps is kept along the list. -/
theorem foldl {α α' : Type} {p : α → α'} {f' : Typer → α' → Typer} {f : Typer → α → Typer}
    (hf : ∀ {t' t} a, Moved m t' t → Moved m (f' t' (p a)) (f t a)) (list : List α) (h : Moved m t' t) :
    Moved m ((list.map p).foldl f' t') (list.foldl f t) := by
  induction list generalizing t' t with
  | nil => exact h
  | cons a list ih => exact ih (hf a h)

/-- Entering a body keeps typers relocated. -/
theorem enterBody (h : Moved m t' t) (params : List (String × Ty)) (isStatic : Bool) :
    Moved m (t'.enterBody params isStatic) (t.enterBody params isStatic) := by
  have hd : Moved m ((params.map id).foldl (fun t p => t.declare p.1 p.2) (t'.enter .afterwards isStatic))
      (params.foldl (fun t p => t.declare p.1 p.2) (t.enter .afterwards isStatic)) :=
    foldl (fun p h => h.declare p.1 p.2) params (h.enter .afterwards isStatic)
  rw [List.map_id] at hd
  exact hd

/-- A written type means the same in relocated code. -/
theorem resolveDeclared (h : Moved m t' t) (e : TypeExpr) :
    t'.env.resolveDeclared (move m e) = t.env.resolveDeclared e := by
  rw [h.env, Env.resolveDeclared_move]

/-- The relocated initializer of a member is checked as the initializer is. -/
theorem initializer (hm : m.Faithful) (h : Moved m t' t) (x : Member) (type : Ty) (init : Option Expr) :
    Moved m (t'.initializer (move m x) type (init.map (move m))) (t.initializer x type init) := by
  cases init with
  | none => exact h
  | some e =>
    rw [Option.map_some, Typer.initializer, Typer.initializer, Member.initPhase_move, Member.isStatic_move]
    exact (h.enter _ _).checked hm e _

/-- Relocated parameters have the same types. -/
theorem paramTypes (h : Moved m t' t) (params : List Param) : t'.paramTypes (params.map (move m)) = t.paramTypes params := by
  rw [Typer.paramTypes, Typer.paramTypes, List.map_map]
  refine congrArg (List.map · params) (funext fun p => ?_)
  exact congrArg (p.name, ·) (h.resolveDeclared p.type)

/-- Relocated default values of parameters are checked as the default values are. -/
theorem defaults (hm : m.Faithful) (h : Moved m t' t) (params : List Param) (isStatic : Bool) :
    Moved m (t'.defaults (params.map (move m)) isStatic) (t.defaults params isStatic) := by
  refine foldl (fun {t' t} p h => ?_) params h
  obtain ⟨type, name, nameSpan, _ | e, span⟩ := p
  · exact h
  · show Moved m (Typer.checked _ (move m e) (.type (t'.env.resolveDeclared (move m type)))) _
    rw [h.resolveDeclared]
    exact (h.enter _ _).checked hm e _

/-- A relocated accessor is checked as the accessor is. -/
theorem accessor (hm : m.Faithful) (h : Moved m t' t) (params : List (String × Ty)) (type : Ty) (isStatic : Bool)
    (a : Accessor) :
    Moved m (Typer.accessor params type isStatic t' (move m a)) (Typer.accessor params type isStatic t a) := by
  obtain ⟨kind, _ | b, span⟩ := a
  · exact h
  · cases kind with
    | get => exact (h.enterBody params isStatic).body hm type b
    | set => exact ((h.enterBody params isStatic).declare "value" type).body hm .void b

/-- The relocated body of a property is checked as the body is. -/
theorem propertyBody (hm : m.Faithful) (h : Moved m t' t) (params : List (String × Ty)) (type : Ty) (isStatic : Bool)
    (b : PropertyBody) :
    Moved m (t'.propertyBody params type isStatic (move m b)) (t.propertyBody params type isStatic b) := by
  cases b with
  | expr e => exact (h.enterBody params isStatic).checked hm e _
  | accessors list => exact foldl (fun a h => h.accessor hm params type isStatic a) list h

/-- A relocated member is checked as the member is. -/
theorem member (hm : m.Faithful) (h : Moved m t' t) (x : Member) : Moved m (t'.member (move m x)) (t.member x) := by
  have hs := Member.isStatic_move m x
  cases x with
  | field f =>
    show Moved m (Typer.initializer _ _ (t'.env.resolveDeclared (move m f.type)) _) _
    rw [h.resolveDeclared]
    exact h.initializer hm (.field f) _ f.init
  | property p =>
    rw [Member.move_property] at hs ⊢
    show Moved m ((t'.propertyBody [] (t'.env.resolveDeclared (move m p.type)) _ (move m p.body)).initializer _
      (t'.env.resolveDeclared (move m p.type)) _) _
    rw [h.resolveDeclared, hs]
    exact (h.propertyBody hm [] _ _ p.body).initializer hm (.property p) _ p.init
  | method d =>
    rw [Member.move_method] at hs ⊢
    show Moved m (((t'.defaults (d.params.map (move m)) _).enterBody (t'.paramTypes (d.params.map (move m))) _).body
      (t'.env.resolveDeclared (move m d.returnType)) (move m d.body)) _
    rw [h.resolveDeclared, h.paramTypes, hs]
    exact ((h.defaults hm d.params _).enterBody _ _).body hm _ d.body
  | indexer i =>
    rw [Member.move_indexer] at hs ⊢
    show Moved m ((t'.defaults (i.params.map (move m)) _).propertyBody (t'.paramTypes (i.params.map (move m)))
      (t'.env.resolveDeclared (move m i.type)) _ (move m i.body)) _
    rw [h.resolveDeclared, h.paramTypes, hs]
    exact (h.defaults hm i.params _).propertyBody hm _ _ _ i.body

/-! ## Headers -/

/-- Relocated default values of primary parameters are checked as the default values are. -/
theorem primaryDefaults (hm : m.Faithful) (h : Moved m t' t) (params : List PrimaryParam) (signatures : List ParamSig) :
    Moved m (t'.primaryDefaults (params.map (move m)) signatures) (t.primaryDefaults params signatures) := by
  rw [Typer.primaryDefaults, Typer.primaryDefaults, List.zip_map_left]
  refine foldl (fun {t' t} p h => ?_) (params.zip signatures) h
  obtain ⟨⟨attributes, modifiers, type, name, nameSpan, _ | e, span⟩, s⟩ := p
  · exact h
  · exact (h.enter _ _).checked hm e _

/-- Relocated arguments for a base are checked as the arguments are. -/
theorem baseArguments (hm : m.Faithful) (params : List ParamSig) (es : List Expr) (h : Moved m t' t) :
    Moved m (t'.baseArguments params (es.map (move m))) (t.baseArguments params es) := by
  induction es generalizing params t' t with
  | nil =>
    rw [List.map_nil, Typer.baseArguments.eq_def, Typer.baseArguments.eq_def]
    exact h
  | cons e es ih =>
    cases params with
    | nil => exact ih [] (h.checked hm e .value)
    | cons p ps => exact ih ps (h.checked hm e _)

/-- The constructor of a base is looked up alike in a relocated table. -/
theorem baseConstructor?_move (table : TypeTable) : baseConstructor? (move m table) = baseConstructor? table := by
  funext type
  cases type with
  | named name args =>
    rw [baseConstructor?, baseConstructor?, TypeTable.find?_move]
    cases table.find? name <;> rfl
  | _ => rfl

/-- The arguments for a base are checked against the parameters of its constructor, if it has one. -/
theorem baseOf_eq (t : Typer) {d : TypeDecl} {spec : BaseSpec} {args : List Expr} (base : Option Ty)
    (hd : d.base = some spec) (ha : spec.args = some args) :
    t.baseOf d base =
      (base.bind (Typer.baseConstructor? (t.enter .construction false).env.table)).elim
        ((t.enter .construction false).baseArguments [] args) fun params =>
        (if countFits params args.length then t.enter .construction false
          else (t.enter .construction false).fault (.baseArgCount d.name params.length args.length)
            spec.span).baseArguments params args := by
  obtain ⟨type, args', span⟩ := spec
  obtain rfl : args' = some args := ha
  unfold Typer.baseOf
  rw [hd]
  dsimp only
  cases base.bind (Typer.baseConstructor? (t.enter .construction false).env.table) <;> rfl

/-- The relocated arguments of a declaration for its base are checked as the arguments are. -/
theorem baseOf (hm : m.Faithful) (h : Moved m t' t) (d : TypeDecl) (base : Option Ty) :
    Moved m (t'.baseOf (move m d) base) (t.baseOf d base) := by
  obtain ⟨modifiers, kind, name, nameSpan, generics, primary, _ | ⟨type, _ | args, span⟩, members, whole⟩ := d
  · exact h
  · exact h
  · have he := h.enter .construction false
    rw [baseOf_eq t' base rfl rfl, baseOf_eq t base rfl rfl, he.env, Env.placed_move_table, baseConstructor?_move]
    cases base.bind (Typer.baseConstructor? (t.enter .construction false).env.table) with
    | none => exact baseArguments hm [] args he
    | some params =>
      rw [Option.elim_some, Option.elim_some, List.placed_move, List.length_map]
      split
      · exact baseArguments hm params args he
      · exact baseArguments hm params args (he.fault hm _ _ _)

end Typer.Moved

/-! ## Declarations -/

namespace TypeDecl

variable {m : Relocation}

/-- The code of a relocated declaration is checked as the code of the declaration is. -/
theorem moved_check (hm : m.Faithful) (d : TypeDecl) (table : TypeTable) :
    TypingReport.Moved m ((move m d).check (move m table)) (d.check table) := by
  rw [check, check, typer?, typer?, TypeDecl.placed_move_name, TypeTable.find?_move, TypeTable.genericScope_move]
  cases table.find? d.name with
  | none => exact .empty
  | some info =>
    have hs : (move m info).span = some (move m d).nameSpan ↔ info.span = some d.nameSpan := by
      rw [TypeInfo.placed_move_span, Option.placed_move, TypeDecl.placed_move_nameSpan]
      exact Option.map_injective hm.span_injective |>.eq_iff (b := some d.nameSpan)
    dsimp only [Option.map_some]
    by_cases hi : info.span = some d.nameSpan
    · rw [if_pos (hs.2 hi), if_pos hi]
      dsimp only
      have started := Typer.Moved.start (m := m) table info.selfType (table.genericScope d) info.constructor
      have header := (started.primaryDefaults hm d.params info.constructor).baseOf hm d info.base
      rw [TypeDecl.params_move, TypeDecl.placed_move_members, List.placed_move]
      exact (Typer.Moved.foldl (fun x h => h.member hm x) d.members header).report
    · rw [if_neg (mt hs.1 hi), if_neg hi]
      exact .empty

end TypeDecl

/-- The code of a relocated unit is checked as the code of the unit is. -/
theorem SourceUnit.moved_check {m : Relocation} (hm : m.Faithful) (u : SourceUnit) (table : TypeTable) :
    TypingReport.Moved m ((move m u).check (move m table)) (u.check table) := by
  have step : ∀ (ds : List TypeDecl) {r' r : TypingReport}, TypingReport.Moved m r' r →
      TypingReport.Moved m (((ds.map (move m)).map (·.check (move m table))).foldl TypingReport.append r')
        ((ds.map (·.check table)).foldl TypingReport.append r) := by
    intro ds
    induction ds with
    | nil => exact id
    | cons d ds ih => exact fun h => ih (h.append (d.moved_check hm table))
  exact step u.types .empty

end NavCheck
