import NavCheck.Proofs.SameTables
import NavCheck.Typing.Body

/-!
# Typing on tables that know the same types

Typing asks its table for types by their names only. On a table that finds the same types, an expression has the same type with
the same notes, and the code of a declaration is checked to the same report.
-/

namespace NavCheck

namespace Env

/-- The environment on another table. -/
def onTable (env : Env) (table : TypeTable) : Env :=
  { env with table }

variable (env : Env) (table : TypeTable)

/-- An environment on a table has that table. -/
theorem onTable_table : (env.onTable table).table = table :=
  rfl

/-- The body of a lambda is on the same table. -/
theorem onTable_enterLambda (params : List (String × Ty)) :
    (env.onTable table).enterLambda params = (env.enterLambda params).onTable table :=
  rfl

end Env

namespace TypeTable.SameTypes

variable {env : Env} {t' : TypeTable} (h : t'.SameTypes env.table)

include h

/-! ## Names and accesses -/

/-- Names mean the same. -/
theorem meaning : (env.onTable t').meaning = env.meaning := by
  funext name
  rw [Env.meaning, Env.meaning, Env.onTable_table, h.member?]
  rfl

/-- Names are looked up alike. -/
theorem lookup : (env.onTable t').lookup = env.lookup := by
  funext name span
  rw [Env.lookup, Env.lookup, h.meaning]
  rfl

/-- The same names can be assigned to. -/
theorem isSettable : (env.onTable t').isSettable = env.isSettable := by
  funext name
  rw [Env.isSettable, Env.isSettable, Env.onTable_table, h.member?]
  rfl

/-- The same accesses can be assigned to. -/
theorem accessSettable : (env.onTable t').accessSettable = env.accessSettable := by
  funext operand link
  cases operand with
  | method name params result => rfl
  | value type =>
    cases link with
    | member name span => simp only [Env.accessSettable, Env.linkSettable, Env.onTable_table, h.member?]
    | element indices => simp only [Env.accessSettable, Env.linkSettable, Env.onTable_table, h.indexer?]
    | invoke args => rfl

/-- Written types mean the same. -/
theorem resolveIn : (env.onTable t').resolve = env.resolve := by
  funext e
  rw [Env.resolve, Env.resolve, Env.onTable_table, h.resolve]
  rfl

/-- Written types that were reported before mean the same. -/
theorem resolveDeclared : (env.onTable t').resolveDeclared = env.resolveDeclared := by
  funext e
  rw [Env.resolveDeclared, Env.resolveDeclared, Env.onTable_table, h.resolveOrError]
  rfl

/-- Values have the same members. -/
theorem memberOf : (env.onTable t').memberOf = env.memberOf := by
  funext type name span
  rw [Env.memberOf, Env.memberOf, Env.onTable_table, h.member?]

/-- Values have the same indexers. -/
theorem indexerOf : (env.onTable t').indexerOf = env.indexerOf := by
  funext type count span
  rw [Env.indexerOf, Env.indexerOf, Env.onTable_table, h.indexer?]

/-- Types have the same constructors. -/
theorem constructorOf : (env.onTable t').constructorOf = env.constructorOf := by
  funext type span
  cases type with
  | named name args => rw [Env.constructorOf, Env.constructorOf, Env.onTable_table, h name]
  | _ => rfl

/-- Entries of an initializer set the same members. -/
theorem memberTarget : (env.onTable t').memberTarget = env.memberTarget := by
  funext type name span
  rw [Env.memberTarget, Env.memberTarget, Env.onTable_table, h.member?]

/-! ## Operators and chains -/

/-- A `??` has the same type. -/
theorem coalesceType : (env.onTable t').coalesceType = env.coalesceType := by
  funext left right leftSpan span
  rw [Env.coalesceType, Env.coalesceType, Env.onTable_table, h.classify, h.coalesce?]

/-- An operation has the same type. -/
theorem binaryType : (env.onTable t').binaryType = env.binaryType := by
  funext op left right leftSpan span
  rw [Env.binaryType, Env.binaryType, h.coalesceType, Env.onTable_table, h.binary?]

/-- A conditional has the same type. -/
theorem branchType : (env.onTable t').branchType = env.branchType := by
  funext thenType elseType span
  rw [Env.branchType, Env.branchType, Env.onTable_table, h.unify?]

/-- Chains are opened alike: the type that a `?` tests is of the same kind. -/
theorem openChain : (env.onTable t').openChain = env.openChain := by
  funext root type guard
  rw [Env.openChain, Env.openChain, Env.rootFault?, Env.rootFault?, Env.onTable_table, h.classify]

/-- Chains are closed alike: their result is the same. -/
theorem close : (env.onTable t').close = env.close := by
  funext top spine
  cases spine with
  | chain c => rw [Env.close, Env.close, Env.closeChain, Env.closeChain, Env.onTable_table, h.chainResult]
  | _ => rfl

/-- The parameters of a lambda have the same types. -/
theorem lambdaParams : (env.onTable t').lambdaParams = env.lambdaParams := by
  funext params expected
  induction params generalizing expected with
  | nil => rfl
  | cons p ps ih => rw [Env.lambdaParams, Env.lambdaParams, h.resolveIn, ih]

/-- An expression that is needed as a value has the same type. -/
theorem valueOf : (env.onTable t').valueOf = env.valueOf := by
  funext e spine
  rw [Env.valueOf, Env.valueOf, h.close]

/-- An expression that is needed as a value that is there has the same type. -/
theorem presentValueOf : (env.onTable t').presentValueOf = env.presentValueOf := by
  funext e spine
  rw [Env.presentValueOf, Env.presentValueOf, h.valueOf]

/-- An expression that is checked against a type is checked alike. -/
theorem check : (env.onTable t').check = env.check := by
  funext expected e spine
  rw [Env.check, Env.check, h.presentValueOf, Env.onTable_table, h.assignable]

/-- The target of an assignment has the same type. -/
theorem targetOf : (env.onTable t').targetOf = env.targetOf := by
  funext e spine
  rw [Env.targetOf, Env.targetOf, h.close]

/-! ## Expressions -/

omit h in
mutual

/-- An expression is typed alike, with the same notes. -/
theorem typeSpine {env : Env} (h : t'.SameTypes env.table) (goal : Goal) :
    ∀ e : Expr, e.typeSpine (env.onTable t') goal = e.typeSpine env goal
  | .literal _ _ => rfl
  | .name text span => by rw [Expr.typeSpine, Expr.typeSpine, h.lookup, h.isSettable]
  | .self _ => rfl
  | .unary op operand span => by rw [Expr.typeSpine, Expr.typeSpine, h.presentValueOf, typeSpine h _ operand]
  | .binary op left right span => by
    rw [Expr.typeSpine, Expr.typeSpine, h.presentValueOf, h.binaryType, typeSpine h _ left, typeSpine h _ right]
  | .conditional condition thenBranch elseBranch span => by
    rw [Expr.typeSpine, Expr.typeSpine, h.check, h.presentValueOf, h.branchType, typeSpine h _ condition,
      typeSpine h _ thenBranch, typeSpine h _ elseBranch]
  | .assign target value span => by
    simp only [Expr.typeSpine, h.targetOf, h.check, typeSpine h _ target, typeSpine h _ value]
  | .lambda params body span => by
    -- The table is the same inside the body, whatever the parameters are.
    have hi (types : List (String × Ty)) : t'.SameTypes (env.enterLambda types).table := h
    simp only [Expr.typeSpine, h.lambdaParams, Env.onTable_enterLambda, (hi _).valueOf, (hi _).check,
      typeSpine (hi _) _ body]
  | .paren inner span => by
    cases goal <;> simp only [Expr.typeSpine, h.targetOf, h.close, typeSpine h _ inner]
  | .access base (.invoke args) true span => by
    rw [Expr.typeSpine, Expr.typeSpine, h.valueOf, typeSpine h _ base, typeList h args]
  | .access base (.member name nameSpan) true span => by
    simp only [Expr.typeSpine, h.valueOf, h.openChain, typeSpine h _ base, typeOnto h _ _ (.member name nameSpan)]
  | .access base (.element indices) true span => by
    simp only [Expr.typeSpine, h.valueOf, h.openChain, typeSpine h _ base, typeOnto h _ _ (.element indices)]
  | .access base link false span => by
    simp only [Expr.typeSpine, h.accessSettable, typeSpine h _ base, typeOnto h _ _ link]
  | .create type args entries span => by
    simp only [Expr.typeSpine, h.resolveIn, h.constructorOf, typeList h args, checkList h _ args, checkEntries h _ entries]

/-- A link onto an operand is typed alike. -/
theorem typeOnto {env : Env} (h : t'.SameTypes env.table) (operand : Operand) (span : Span) :
    ∀ link : Link, link.typeOnto (env.onTable t') operand span = link.typeOnto env operand span
  | .member name nameSpan => by rw [Link.typeOnto, Link.typeOnto, h.memberOf]
  | .element indices => by
    simp only [Link.typeOnto, h.indexerOf, typeList h indices, checkList h _ indices]
  | .invoke args => by
    simp only [Link.typeOnto, typeList h args, checkList h _ args]

/-- Expressions in a row are typed alike. -/
theorem typeList {env : Env} (h : t'.SameTypes env.table) : ∀ es : List Expr, typeList (env.onTable t') es = NavCheck.typeList env es
  | [] => rfl
  | e :: es => by rw [NavCheck.typeList, NavCheck.typeList, h.valueOf, typeSpine h _ e, typeList h es]

/-- Arguments are checked alike against parameters. -/
theorem checkList {env : Env} (h : t'.SameTypes env.table) :
    ∀ (params : List ParamSig) (es : List Expr), NavCheck.checkList (env.onTable t') params es = NavCheck.checkList env params es
  | _, [] => by rw [NavCheck.checkList, NavCheck.checkList]
  | [], e :: es => by rw [NavCheck.checkList, NavCheck.checkList, h.valueOf, typeSpine h _ e, checkList h [] es]
  | p :: ps, e :: es => by rw [NavCheck.checkList, NavCheck.checkList, h.check, typeSpine h _ e, checkList h ps es]

/-- The entries of an initializer are checked alike. -/
theorem checkEntries {env : Env} (h : t'.SameTypes env.table) (type : Ty) :
    ∀ entries : List Entry, NavCheck.checkEntries (env.onTable t') type entries = NavCheck.checkEntries env type entries
  | [] => rfl
  | .member name span value :: entries => by
    simp only [NavCheck.checkEntries, h.memberTarget, h.check, typeSpine h _ value, checkEntries h type entries]
  | .element indices span value :: entries => by
    simp only [NavCheck.checkEntries, Env.onTable_table, h.indexer?, h.check, checkList h _ indices, typeList h indices,
      typeSpine h _ value, checkEntries h type entries]

end

end TypeTable.SameTypes

/-! ## Typers -/

/-- A typer beside a typer that differs in its table only, and not in the types that the table knows. -/
structure Typer.Alongside (t' t : Typer) : Prop where
  types : t'.env.table.SameTypes t.env.table
  env : t'.env = t.env.onTable t'.env.table
  report : t'.report = t.report
  plans : t'.plans = t.plans

namespace Typer.Alongside

variable {t' t : Typer}

/-- Fresh typers on tables with the same types are alongside each other. -/
theorem start {table' table : TypeTable} (h : table'.SameTypes table) (self : Ty) (generics : List GenericInfo)
    (primary : List ParamSig) : Alongside (.start table' self generics primary) (.start table self generics primary) :=
  ⟨h, rfl, rfl, rfl⟩

/-- What changes the environments alike, but not their tables, keeps typers beside each other. -/
theorem inside (h : Alongside t' t) (f : Env → Env) (hf : ∀ env table, f (env.onTable table) = (f env).onTable table)
    (ht : ∀ env, (f env).table = env.table) : Alongside { t' with env := f t'.env } { t with env := f t.env } where
  types := by
    rw [ht, ht]
    exact h.types
  env := by
    dsimp only
    rw [ht, h.env, hf]
    rfl
  report := h.report
  plans := h.plans

/-- Beginning a body keeps typers alongside each other. -/
theorem enter (h : Alongside t' t) (phase : Phase) (isStatic : Bool) :
    Alongside (t'.enter phase isStatic) (t.enter phase isStatic) :=
  h.inside (fun env => { env with phase, isStatic, scopes := [[]] }) (fun _ _ => rfl) fun _ => rfl

/-- So does opening a scope. -/
theorem pushScope (h : Alongside t' t) : Alongside t'.pushScope t.pushScope :=
  h.inside (Env.enterScope · []) (fun _ _ => rfl) fun _ => rfl

/-- So does closing one. -/
theorem popScope (h : Alongside t' t) : Alongside t'.popScope t.popScope := by
  have hs : t'.env.scopes = t.env.scopes := by
    rw [h.env]
    rfl
  rw [Typer.popScope, Typer.popScope, hs]
  split
  · rename_i outer rest _
    exact h.inside (fun env => { env with scopes := outer :: rest }) (fun _ _ => rfl) fun _ => rfl
  · exact h

/-- So does declaring a local. -/
theorem declare (h : Alongside t' t) (name : String) (type : Ty) : Alongside (t'.declare name type) (t.declare name type) := by
  refine h.inside (Env.declare · name type) (fun env table => ?_) fun env => ?_ <;>
    obtain ⟨_, _, _, _, _, _, _ | _⟩ := env <;> rfl

/-- So does keeping the same notes. -/
theorem keep (h : Alongside t' t) (notes : List TypingNote) (chains : LoweredChains) (lowered : List LoweredExpr) :
    Alongside (t'.keep notes chains lowered) (t.keep notes chains lowered) where
  types := h.types
  env := h.env
  report := by rw [Typer.keep, Typer.keep, h.report]
  plans := by rw [Typer.keep, Typer.keep, h.plans]

/-- So does reporting the same fault. -/
theorem fault (h : Alongside t' t) (fault : TypingFault) (span : Span) : Alongside (t'.fault fault span) (t.fault fault span) :=
  h.keep _ [] []

/-- Written types mean the same to typers alongside each other. -/
theorem resolveDeclared (h : Alongside t' t) : t'.env.resolveDeclared = t.env.resolveDeclared := by
  rw [h.env, h.types.resolveDeclared]

/-- Complete expressions are typed alike. -/
theorem rootType (h : Alongside t' t) (e : Expr) (expectation : Expectation) :
    rootType t'.env e expectation = rootType t.env e expectation := by
  rw [h.env]
  cases expectation with
  | type expected =>
    rw [Typer.rootType, Typer.rootType, Expr.checkAgainst, Expr.checkAgainst, h.types.check, h.types.typeSpine]
  | value => rw [Typer.rootType, Typer.rootType, Expr.presentType, Expr.presentType, h.types.presentValueOf, h.types.typeSpine]
  | discard => rw [Typer.rootType, Typer.rootType, Expr.type, Expr.type, h.types.valueOf, h.types.typeSpine]

/-- A complete expression has the same type, and leaves typers alongside each other. -/
theorem checkRoot (h : Alongside t' t) (e : Expr) (expectation : Expectation) :
    (t'.checkRoot e expectation).1 = (t.checkRoot e expectation).1 ∧
      Alongside (t'.checkRoot e expectation).2 (t.checkRoot e expectation).2 := by
  rw [Typer.checkRoot, Typer.checkRoot, h.rootType, h.plans]
  split <;> exact ⟨rfl, h.keep _ _ _⟩

/-- The same, without the type. -/
theorem checked (h : Alongside t' t) (e : Expr) (expectation : Expectation) :
    Alongside (t'.checked e expectation) (t.checked e expectation) :=
  (h.checkRoot e expectation).2

/-! ## Statements -/

/-- A local without a written type gets the same one. -/
theorem inferLocal (h : Alongside t' t) (name : String) (span : Span) (found : Ty) :
    (t'.inferLocal name span found).1 = (t.inferLocal name span found).1 ∧
      Alongside (t'.inferLocal name span found).2 (t.inferLocal name span found).2 := by
  rw [Typer.inferLocal.eq_def, Typer.inferLocal.eq_def]
  split
  · exact ⟨rfl, h.fault _ _⟩
  · split
    · exact ⟨rfl, h.fault _ _⟩
    · exact ⟨rfl, h⟩
  · exact ⟨rfl, h⟩

/-- A `return` leaves typers alongside each other. -/
theorem checkReturn (h : Alongside t' t) (result : Ty) (value : Option Expr) (span : Span) :
    Alongside (t'.checkReturn result value span) (t.checkReturn result value span) := by
  rw [Typer.checkReturn.eq_def, Typer.checkReturn.eq_def]
  split
  · exact (h.checked _ _).fault _ _
  · exact h.checked _ _
  · exact h
  · exact h
  · exact h.fault _ _

/-- A declaration of a local leaves typers alongside each other. -/
theorem checkLocal (h : Alongside t' t) (type : Option TypeExpr) (name : String) (span : Span) (init : Option Expr) :
    Alongside (t'.checkLocal type name span init) (t.checkLocal type name span init) := by
  cases type with
  | some written =>
    have hr : t'.env.resolve written = t.env.resolve written := by
      rw [h.env, h.types.resolveIn]
    have hk := h.keep (t.env.resolve written).notes [] []
    rw [Typer.checkLocal, Typer.checkLocal, Typer.run, Typer.run, hr]
    cases init with
    | none => exact hk.declare name _
    | some e => exact (hk.checked e _).declare name _
  | none =>
    cases init with
    | none => exact h.declare name .error
    | some e =>
      obtain ⟨hv, hc⟩ := h.checkRoot e .value
      obtain ⟨hi, hl⟩ := hc.inferLocal name span (t.checkRoot e .value).1
      rw [Typer.checkLocal, Typer.checkLocal]
      dsimp only
      rw [hv, hi]
      exact hl.declare name _

mutual

/-- A statement leaves typers alongside each other. -/
theorem statement (result : Ty) : ∀ (s : Statement) {t' t : Typer}, Alongside t' t →
    Alongside (Typer.statement result s t') (Typer.statement result s t)
  | .block list _, t', t, h => by
    rw [Typer.statement, Typer.statement]
    exact (statements result list h.pushScope).popScope
  | .give value span, t', t, h => by
    rw [Typer.statement, Typer.statement]
    exact h.checkReturn result value span
  | .branch condition thenBranch none _, t', t, h => by
    rw [Typer.statement, Typer.statement]
    exact (statement result thenBranch (h.checked condition (.type .bool)).pushScope).popScope
  | .branch condition thenBranch (some elseBranch) _, t', t, h => by
    rw [Typer.statement, Typer.statement]
    have ht := (statement result thenBranch (h.checked condition (.type .bool)).pushScope).popScope
    exact (statement result elseBranch ht.pushScope).popScope
  | .local type name nameSpan init _, t', t, h => by
    rw [Typer.statement, Typer.statement]
    exact h.checkLocal type name nameSpan init
  | .expr e, t', t, h => by
    rw [Typer.statement, Typer.statement]
    exact h.checked e .discard

/-- So do statements in a row. -/
theorem statements (result : Ty) : ∀ (list : List Statement) {t' t : Typer}, Alongside t' t →
    Alongside (Typer.statements result list t') (Typer.statements result list t)
  | [], t', t, h => by
    rw [Typer.statements, Typer.statements]
    exact h
  | s :: rest, t', t, h => by
    rw [Typer.statements, Typer.statements]
    exact statements result rest (statement result s h)

end

/-- So does a body. -/
theorem body (h : Alongside t' t) (result : Ty) (b : Body) : Alongside (t'.body result b) (t.body result b) := by
  cases b with
  | expr e => exact h.checked e _
  | block b => exact (statements result b.statements h.pushScope).popScope

/-! ## Members -/

/-- What every step along a list keeps is kept along the list. -/
theorem foldl {α : Type} {f : Typer → α → Typer} (hf : ∀ {t' t} a, Alongside t' t → Alongside (f t' a) (f t a)) (list : List α)
    (h : Alongside t' t) : Alongside (list.foldl f t') (list.foldl f t) := by
  induction list generalizing t' t with
  | nil => exact h
  | cons a list ih => exact ih (hf a h)

/-- Beginning a body with parameters leaves typers alongside each other. -/
theorem enterBody (h : Alongside t' t) (params : List (String × Ty)) (isStatic : Bool) :
    Alongside (t'.enterBody params isStatic) (t.enterBody params isStatic) :=
  foldl (fun p h => h.declare p.1 p.2) params (h.enter .afterwards isStatic)

/-- So does the initial value of a member. -/
theorem initializer (h : Alongside t' t) (m : Member) (type : Ty) (init : Option Expr) :
    Alongside (t'.initializer m type init) (t.initializer m type init) := by
  cases init with
  | none => exact h
  | some e => exact (h.enter _ _).checked e _

/-- Parameters have the same types. -/
theorem paramTypes (h : Alongside t' t) : t'.paramTypes = t.paramTypes := by
  funext params
  rw [Typer.paramTypes, Typer.paramTypes, h.resolveDeclared]

/-- The default values of parameters leave typers alongside each other. -/
theorem defaults (h : Alongside t' t) (params : List Param) (isStatic : Bool) :
    Alongside (t'.defaults params isStatic) (t.defaults params isStatic) := by
  refine foldl (fun p h => ?_) params h
  rw [h.resolveDeclared]
  split
  · exact (h.enter _ _).checked _ _
  · exact h

/-- So does an accessor. -/
theorem accessor (h : Alongside t' t) (params : List (String × Ty)) (type : Ty) (isStatic : Bool) (a : Accessor) :
    Alongside (Typer.accessor params type isStatic t' a) (Typer.accessor params type isStatic t a) := by
  obtain ⟨kind, _ | b, span⟩ := a
  · exact h
  · cases kind with
    | get => exact (h.enterBody params isStatic).body type b
    | set => exact ((h.enterBody params isStatic).declare "value" type).body .void b

/-- So does the body of a property. -/
theorem propertyBody (h : Alongside t' t) (params : List (String × Ty)) (type : Ty) (isStatic : Bool) (b : PropertyBody) :
    Alongside (t'.propertyBody params type isStatic b) (t.propertyBody params type isStatic b) := by
  cases b with
  | expr e => exact (h.enterBody params isStatic).checked e _
  | accessors list => exact foldl (fun a h => h.accessor params type isStatic a) list h

/-- So does a member. -/
theorem member (h : Alongside t' t) (m : Member) : Alongside (t'.member m) (t.member m) := by
  cases m with
  | field f =>
    rw [Typer.member, Typer.member, h.resolveDeclared]
    exact h.initializer _ _ f.init
  | property p =>
    rw [Typer.member, Typer.member, h.resolveDeclared]
    exact (h.propertyBody [] _ _ p.body).initializer _ _ p.init
  | method d =>
    rw [Typer.member, Typer.member, h.resolveDeclared, h.paramTypes]
    exact ((h.defaults d.params _).enterBody _ _).body _ d.body
  | indexer i =>
    rw [Typer.member, Typer.member, h.resolveDeclared, h.paramTypes]
    exact (h.defaults i.params _).propertyBody _ _ _ i.body

/-! ## Headers -/

/-- So do the default values of primary parameters. -/
theorem primaryDefaults (h : Alongside t' t) (params : List PrimaryParam) (signatures : List ParamSig) :
    Alongside (t'.primaryDefaults params signatures) (t.primaryDefaults params signatures) := by
  refine foldl (fun p h => ?_) (params.zip signatures) h
  dsimp only
  split
  · exact (h.enter _ _).checked _ _
  · exact h

/-- So do the arguments of a base. -/
theorem baseArguments (params : List ParamSig) (es : List Expr) (h : Alongside t' t) :
    Alongside (t'.baseArguments params es) (t.baseArguments params es) := by
  induction es generalizing params t' t with
  | nil =>
    rw [Typer.baseArguments.eq_def, Typer.baseArguments.eq_def]
    exact h
  | cons e es ih =>
    cases params with
    | nil => exact ih [] (h.checked e .value)
    | cons p ps => exact ih ps (h.checked e _)

/-- The constructor of a base is the same. -/
theorem baseConstructor? {table' table : TypeTable} (h : table'.SameTypes table) :
    Typer.baseConstructor? table' = Typer.baseConstructor? table := by
  funext type
  cases type with
  | named name args => rw [Typer.baseConstructor?, Typer.baseConstructor?, h name]
  | _ => rfl

/-- The base of a declaration leaves typers alongside each other. -/
theorem baseOf (h : Alongside t' t) (d : TypeDecl) (base : Option Ty) : Alongside (t'.baseOf d base) (t.baseOf d base) := by
  have he := h.enter .construction false
  rw [Typer.baseOf.eq_def, Typer.baseOf.eq_def]
  split
  · rename_i args span _
    dsimp only
    rw [baseConstructor? he.types]
    split
    · exact baseArguments [] args he
    · rename_i params _
      refine baseArguments params args ?_
      split
      · exact he
      · exact he.fault _ _
  · exact h

end Typer.Alongside

/-- On tables that know the same types, the code of a declaration is checked to the same report. -/
theorem TypeTable.SameTypes.checkDecl {table' table : TypeTable} (h : table'.SameTypes table) (d : TypeDecl) :
    d.check table' = d.check table := by
  rw [TypeDecl.check, TypeDecl.check, TypeDecl.typer?, TypeDecl.typer?, h d.name, h.genericScope]
  cases table.find? d.name with
  | none => rfl
  | some info =>
    by_cases hp : info.span = some d.nameSpan
    · have hs := Typer.Alongside.start h info.selfType (table.genericScope d) info.constructor
      have hh := (hs.primaryDefaults d.params info.constructor).baseOf d info.base
      simp only [if_pos hp]
      exact (Typer.Alongside.foldl (fun m h => h.member m) d.members hh).report
    · simp only [if_neg hp]

end NavCheck
