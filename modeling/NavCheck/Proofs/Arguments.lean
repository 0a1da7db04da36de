import NavCheck.Check.Report
import NavCheck.Proofs.KnownUnits
import NavCheck.Proofs.Outcomes
import NavCheck.Text.Digest

/-!
# Arguments of calls

A call passes when it has as many arguments as there are parameters without a default value, and no more than there are
parameters. Arguments go to parameters by their places, so the count alone says that a parameter has its argument only where the
parameters without default values stand first. Each call that typing comes to and that has a wrong number of arguments is
reported, and so is each list of arguments for a base.
-/

namespace NavCheck

/-! ## Counts and places -/

/-- Parameters with default values stand behind those without. -/
def DefaultsLast (params : List ParamSig) : Prop :=
  params.Pairwise fun a b => a.hasDefault = true → b.hasDefault = true

/-- With a number of arguments each parameter without a default value has one at its own place. -/
def Supplies (params : List ParamSig) (given : Nat) : Prop :=
  ∀ i, ∀ h : i < params.length, params[i].hasDefault = false → i < given

/-- As many arguments as there are parameters without default values supply these when they stand first. -/
theorem supplies_requiredCount {params : List ParamSig} (hd : DefaultsLast params) : Supplies params (requiredCount params) := by
  induction params with
  | nil => exact fun _ h => absurd h (Nat.not_lt_zero _)
  | cons p params ih =>
    obtain ⟨hp, hd⟩ := List.pairwise_cons.1 hd
    intro i h hi
    cases hpd : p.hasDefault with
    | false =>
      have hc : requiredCount (p :: params) = requiredCount params + 1 := by simp [requiredCount, hpd]
      rw [hc]
      cases i with
      | zero => exact Nat.succ_pos _
      | succ i => exact Nat.succ_lt_succ (ih hd i (Nat.lt_of_succ_lt_succ h) hi)
    | true =>
      cases i with
      | zero => cases hpd.symm.trans hi
      | succ i => cases (hp _ (List.getElem_mem (Nat.lt_of_succ_lt_succ h)) hpd).symm.trans hi

/-- A number of arguments that fits supplies the parameters when those with default values stand last. -/
theorem supplies_of_countFits {params : List ParamSig} {given : Nat} (hf : countFits params given = true)
    (hd : DefaultsLast params) : Supplies params given := by
  have hle : requiredCount params ≤ given := of_decide_eq_true (Bool.and_eq_true_iff.1 hf).1
  exact fun i h hi => Nat.lt_of_lt_of_le (supplies_requiredCount hd i h hi) hle

/-- The parameters of a delegate are all supplied by arguments that fit. -/
theorem supplies_ofDelegate {types : List Ty} {given : Nat} (hf : countFits (ParamSig.ofDelegate types) given = true) :
    Supplies (ParamSig.ofDelegate types) given := by
  refine supplies_of_countFits hf (List.pairwise_of_forall_mem_list fun a ha b _ h => ?_)
  obtain ⟨i, hi, rfl⟩ := List.mem_mapIdx.1 ha
  cases h

/-! ## The calls of expressions -/

/-- A call of a method, a delegate or a constructor: what is called, its parameters, the arguments and the place. -/
structure Call where
  callee : String
  params : List ParamSig
  args : List Expr
  span : Span

/-- Whether a call has a fitting number of arguments. -/
def Call.fits (c : Call) : Bool :=
  countFits c.params c.args.length

/-- The finding about a call with a wrong number of arguments. -/
def Call.finding? (c : Call) : Option TypingNote :=
  if c.fits then none
  else some (.finding ((TypingFault.argCount c.callee (requiredCount c.params) c.params.length c.args.length).finding c.span))

mutual

/-- The calls that typing an expression comes to, with the parameters that it finds. -/
def Expr.calls (env : Env) (goal : Goal) : Expr → List Call
  | .literal _ _ | .name _ _ | .self _ => []
  | .unary _ operand _ => operand.calls env .value
  | .binary _ left right _ => left.calls env .value ++ right.calls env .value
  | .conditional condition thenBranch elseBranch _ =>
    condition.calls env (.against .bool) ++ thenBranch.calls env .value ++ elseBranch.calls env .value
  | .assign target value _ =>
    target.calls env .target ++ value.calls env (.against (env.targetOf target (target.typeSpine env .target)).value)
  | .lambda params body _ =>
    let expected := goal.delegate? params.length
    let inside := env.enterLambda (env.lambdaParams params (expected.map (·.1))).value
    match expected with
    | none => body.calls inside .value
    | some (_, .void) => body.calls inside .value
    | some (_, result) => body.calls inside (.against result)
  | .paren inner _ =>
    match goal with
    | .target => inner.calls env .target
    | _ => inner.calls env .value
  | .access base (.invoke args) true _ => base.calls env .value ++ listCalls env args
  | .access base link true span =>
    base.calls env .value ++
      match (env.openChain base (env.valueOf base (base.typeSpine env .value)).value (guardSpan base span)).value with
      | some c => link.calls env c.operand span
      | none => []
  | .access base link false span =>
    base.calls env .value ++
      match (base.typeSpine env .value).value with
      | .chain c => link.calls env c.operand span
      | .refused => []
      | .whole operand _ => link.calls env (Env.baseOperand operand goal link base).value span
  | .create type args entries span =>
    let created := (env.resolve type).value
    (match (env.constructorOf created type.span).value with
      | some params => ⟨s!"new {created.text}", params, args, span⟩ :: checkedCalls env params args
      | none => listCalls env args) ++ entryCalls env created entries

/-- The calls of a link on an operand, itself among them. -/
def Link.calls (env : Env) (operand : Operand) (span : Span) : Link → List Call
  | .member _ _ => []
  | .element indices =>
    match (env.indexerOf (operand.type span).value indices.length span).value with
    | some indexer => checkedCalls env indexer.params indices
    | none => listCalls env indices
  | .invoke args =>
    match (operand.callee span).value with
    | some callee => ⟨callee.text, callee.params, args, span⟩ :: checkedCalls env callee.params args
    | none => listCalls env args

/-- The calls of expressions that nothing is expected of. -/
def listCalls (env : Env) : List Expr → List Call
  | [] => []
  | e :: es => e.calls env .value ++ listCalls env es

/-- The calls of arguments for parameters. -/
def checkedCalls (env : Env) : List ParamSig → List Expr → List Call
  | _, [] => []
  | [], e :: es => e.calls env .value ++ checkedCalls env [] es
  | p :: ps, e :: es => e.calls env (.against p.type) ++ checkedCalls env ps es

/-- The calls of the entries of an initializer. -/
def entryCalls (env : Env) (type : Ty) : List Entry → List Call
  | [] => []
  | .member name span value :: entries =>
    value.calls env (.against (env.memberTarget type name span).value) ++ entryCalls env type entries
  | .element indices span value :: entries =>
    let indexer := env.table.indexer? type indices.length
    if type = .error then value.calls env (.against .error) ++ entryCalls env type entries
    else
      (match indexer with
        | some indexer => checkedCalls env indexer.params indices
        | none => listCalls env indices) ++
        value.calls env (.against (Env.elementTarget type indexer span).value) ++ entryCalls env type entries

end

/-! ## Reports of calls -/

/-- Notes that tell of each of the calls with a wrong number of arguments. -/
def Tells (calls : List Call) (notes : List TypingNote) : Prop :=
  (calls.filterMap Call.finding?).Sublist notes

section

variable {α β : Type} {calls more : List Call} {a b : List TypingNote} {x : Typed α} {f : α → Typed β}

theorem tells_nil (notes : List TypingNote) : Tells [] notes :=
  List.nil_sublist notes

theorem Tells.append (h : Tells calls a) (h' : Tells more b) : Tells (calls ++ more) (a ++ b) := by
  rw [Tells, List.filterMap_append]
  exact List.Sublist.append h h'

theorem Tells.bind (h : Tells calls x.notes) (hf : Tells more (f x.value).notes) : Tells (calls ++ more) (x >>= f).notes :=
  h.append hf

/-- What comes behind adds to what is told. -/
theorem Tells.before (h : Tells calls x.notes) : Tells calls (x >>= f).notes :=
  List.Sublist.trans h (List.sublist_append_left _ _)

/-- What comes in front adds to what is told. -/
theorem Tells.behind (hf : Tells calls (f x.value).notes) : Tells calls (x >>= f).notes :=
  List.Sublist.trans hf (List.sublist_append_right _ _)

/-- Counting the arguments of a call tells of it. -/
theorem tells_checkCount (c : Call) : Tells [c] (checkCount c.callee c.params c.args.length c.span).notes := by
  unfold Tells checkCount
  rw [List.filterMap_cons, List.filterMap_nil, Call.finding?, Call.fits]
  cases countFits c.params c.args.length <;> exact List.Sublist.refl _

end

section

variable {env : Env} {e : Expr} {spine : Typed TypedSpine} {calls : List Call}

theorem Tells.valueOf (h : Tells calls spine.notes) : Tells calls (env.valueOf e spine).notes :=
  h.before

theorem Tells.presentValueOf (h : Tells calls spine.notes) : Tells calls (env.presentValueOf e spine).notes :=
  h.valueOf.before

theorem Tells.check (h : Tells calls spine.notes) (expected : Ty) : Tells calls (env.check expected e spine).notes :=
  h.presentValueOf.before

theorem Tells.targetOf (h : Tells calls spine.notes) : Tells calls (env.targetOf e spine).notes :=
  h.before

end

/-- Typing a guarded access that is no call tells of the calls of its link when the chain is not refused. -/
theorem tells_guarded {env : Env} {base : Expr} {link : Link} {span : Span} {calls : List Call} {more : Operand → List Call}
    (hb : Tells calls (env.valueOf base (base.typeSpine env .value)).notes)
    (hl : ∀ operand, Tells (more operand) (link.typeOnto env operand span).notes) :
    Tells
      (calls ++
        match (env.openChain base (env.valueOf base (base.typeSpine env .value)).value (guardSpan base span)).value with
        | some c => more c.operand
        | none => [])
      (do
        let type ← env.valueOf base (base.typeSpine env .value)
        match ← env.openChain base type (guardSpan base span) with
        | some c => return .chain { c with operand := ← link.typeOnto env c.operand span }
        | none => return .refused : Typed TypedSpine).notes := by
  refine hb.bind (Tells.behind ?_)
  cases (env.openChain base (env.valueOf base (base.typeSpine env .value)).value (guardSpan base span)).value with
  | some c => exact (hl c.operand).before
  | none => exact tells_nil _

mutual

/-- Typing a row of accesses tells of the calls in it. -/
theorem Expr.tells_typeSpine (env : Env) (goal : Goal) : ∀ e : Expr, Tells (e.calls env goal) (e.typeSpine env goal).notes
  | .literal _ _ | .name _ _ | .self _ => tells_nil _
  | .unary _ operand _ => (operand.tells_typeSpine env .value).presentValueOf.before
  | .binary _ left right _ =>
    (left.tells_typeSpine env .value).presentValueOf.bind (right.tells_typeSpine env .value).presentValueOf.before
  | .conditional condition thenBranch elseBranch _ => by
    rw [Expr.calls, List.append_assoc]
    exact ((condition.tells_typeSpine env (.against .bool)).check .bool).bind <|
      (thenBranch.tells_typeSpine env .value).presentValueOf.bind <|
        (elseBranch.tells_typeSpine env .value).presentValueOf.before
  | .assign target value _ =>
    (target.tells_typeSpine env .target).targetOf.bind ((value.tells_typeSpine env (.against _)).check _).before
  | .lambda params body _ => by
    refine Tells.behind ?_
    rw [Expr.calls]
    dsimp only
    generalize goal.delegate? params.length = expected
    have hv : ∀ inside : Env, Tells (body.calls inside .value) (inside.valueOf body (body.typeSpine inside .value)).notes :=
      fun inside => (body.tells_typeSpine inside .value).valueOf
    rcases expected with _ | ⟨types, result⟩
    · exact (hv _).before
    · cases result with
      | void => exact (hv _).before
      | _ => exact ((body.tells_typeSpine _ (.against _)).check _).before
  | .paren inner _ => by
    have hv := inner.tells_typeSpine env .value
    have ht := inner.tells_typeSpine env .target
    rw [Expr.calls.eq_def, Expr.typeSpine.eq_def]
    cases goal with
    | target => exact ht.targetOf.before
    | value | against _ => exact hv.before
  | .access base (.invoke args) true span => (base.tells_typeSpine env .value).valueOf.bind (tells_typeList env args).before
  | .access base (.member name nameSpan) true span =>
    tells_guarded (base.tells_typeSpine env .value).valueOf fun operand =>
      (Link.member name nameSpan).tells_typeOnto env operand span
  | .access base (.element indices) true span =>
    tells_guarded (base.tells_typeSpine env .value).valueOf fun operand =>
      (Link.element indices).tells_typeOnto env operand span
  | .access base link false span => by
    have hb := base.tells_typeSpine env .value
    have hl := fun operand => link.tells_typeOnto env operand span
    rw [Expr.calls, Expr.typeSpine]
    refine hb.bind ?_
    cases (base.typeSpine env .value).value with
    | chain c => exact (hl c.operand).before
    | refused => exact tells_nil _
    | whole operand settable => exact Tells.behind (hl _).before
  | .create type args entries span => by
    have he := (tells_checkEntries env (env.resolve type).value entries).before
      (f := fun _ => pure (TypedSpine.whole (.value (env.resolve type).value) false))
    rw [Expr.calls]
    refine Tells.behind (Tells.behind ?_)
    cases (env.constructorOf (env.resolve type).value type.span).value with
    | some params =>
      have hc := tells_checkCount ⟨s!"new {(env.resolve type).value.text}", params, args, span⟩
      exact hc.bind ((tells_checkList env params args).bind he)
    | none => exact (tells_typeList env args).bind he

/-- Typing the access of a link tells of the calls in it. -/
theorem Link.tells_typeOnto (env : Env) (operand : Operand) (span : Span) :
    ∀ link : Link, Tells (link.calls env operand span) (link.typeOnto env operand span).notes
  | .member _ _ => tells_nil _
  | .element indices => by
    rw [Link.calls]
    refine Tells.behind (Tells.behind ?_)
    cases (env.indexerOf (operand.type span).value indices.length span).value with
    | some indexer => exact (tells_checkList env indexer.params indices).before
    | none => exact (tells_typeList env indices).before
  | .invoke args => by
    rw [Link.calls]
    refine Tells.behind ?_
    cases (operand.callee span).value with
    | some callee =>
      exact (tells_checkCount ⟨callee.text, callee.params, args, span⟩).bind (tells_checkList env callee.params args).before
    | none => exact (tells_typeList env args).before

theorem tells_typeList (env : Env) : ∀ es : List Expr, Tells (listCalls env es) (typeList env es).notes
  | [] => tells_nil _
  | e :: es => (e.tells_typeSpine env .value).valueOf.bind (tells_typeList env es)

theorem tells_checkList (env : Env) :
    ∀ (params : List ParamSig) (es : List Expr), Tells (checkedCalls env params es) (checkList env params es).notes
  | _, [] => by
    rw [checkedCalls]
    exact tells_nil _
  | [], e :: es => (e.tells_typeSpine env .value).valueOf.bind (tells_checkList env [] es)
  | p :: ps, e :: es => ((e.tells_typeSpine env (.against p.type)).check p.type).bind (tells_checkList env ps es)

theorem tells_checkEntries (env : Env) (type : Ty) :
    ∀ entries : List Entry, Tells (entryCalls env type entries) (checkEntries env type entries).notes
  | [] => tells_nil _
  | .member name span value :: entries =>
    Tells.behind (((value.tells_typeSpine env (.against _)).check _).bind (tells_checkEntries env type entries))
  | .element indices span value :: entries => by
    have hv : ∀ target : Ty, Tells (value.calls env (.against target) ++ entryCalls env type entries)
        (do
          env.check target value (value.typeSpine env (.against target))
          checkEntries env type entries : Typed Unit).notes := fun target =>
      ((value.tells_typeSpine env (.against target)).check target).bind (tells_checkEntries env type entries)
    rw [entryCalls, checkEntries]
    dsimp only
    by_cases ht : type = .error
    · rw [if_pos ht, if_pos ht]
      exact Tells.behind (hv _)
    · rw [if_neg ht, if_neg ht, List.append_assoc]
      cases env.table.indexer? type indices.length with
      | some indexer => exact (tells_checkList env indexer.params indices).bind (Tells.behind (hv _))
      | none => exact (tells_typeList env indices).bind (Tells.behind (hv _))

end

/-! ## Runs that report no count -/

/-- None of the findings is about a wrong number of arguments. -/
def TypingReport.CountsFit (r : TypingReport) : Prop :=
  ∀ f ∈ r.diagnostics, f.code.map (·.code) ≠ some "TCK104"

/-- Where nothing is found about a wrong number of arguments all calls fit. -/
theorem Tells.fits {calls : List Call} {notes : List TypingNote} (h : Tells calls notes)
    (hn : ∀ f ∈ findingsOf notes, f.code.map (·.code) ≠ some "TCK104") : ∀ c ∈ calls, c.fits = true := by
  intro c hc
  cases hf : c.fits with
  | true => rfl
  | false =>
    have hm := h.subset (List.mem_filterMap.2 ⟨c, hc, by rw [Call.finding?, hf]; rfl⟩)
    exact absurd rfl (hn _ (List.mem_filterMap.2 ⟨_, hm, rfl⟩))

/-- The calls that typing a complete expression comes to. -/
def RootTyping.calls (r : RootTyping) : List Call :=
  r.expr.calls r.env r.expectation.goal

theorem RootTyping.tells_typed (r : RootTyping) : Tells r.calls r.typed.notes := by
  obtain ⟨env, e, expectation⟩ := r
  cases expectation with
  | type expected => exact ((e.tells_typeSpine env (.against expected)).check expected).before
  | value => exact (e.tells_typeSpine env .value).presentValueOf
  | discard => exact (e.tells_typeSpine env .value).valueOf

namespace Typer

variable {p : Ty → Prop} {t u : Typer} {rs : List RootTyping}

theorem countsFit_keep {notes : List TypingNote} {chains : LoweredChains} {lowered : List LoweredExpr} :
    (t.keep notes chains lowered).report.CountsFit ↔
      t.report.CountsFit ∧ ∀ f ∈ findingsOf notes, f.code.map (·.code) ≠ some "TCK104" :=
  List.forall_mem_append

/-- Typing a complete expression without a finding about a wrong number of arguments. -/
theorem fits_checked {e : Expr} {expectation : Expectation} (h : (t.checked e expectation).report.CountsFit) :
    t.report.CountsFit ∧ ∀ c ∈ RootTyping.calls ⟨t.env, e, expectation⟩, c.fits = true := by
  rw [TypingReport.CountsFit, diagnostics_checked, List.forall_mem_append] at h
  exact ⟨h.1, (RootTyping.tells_typed ⟨t.env, e, expectation⟩).fits h.2⟩

/-- The declaration of a local without a finding about a wrong number of arguments. -/
theorem fits_checkLocal {type : Option TypeExpr} {name : String} {span : Span} {init : Option Expr}
    (h : (t.checkLocal type name span init).report.CountsFit) :
    t.report.CountsFit ∧ ∀ e ∈ init, ∀ c ∈ RootTyping.calls ⟨t.env, e, t.env.localExpectation type⟩, c.fits = true := by
  cases type with
  | some written =>
    cases init with
    | none => exact ⟨(countsFit_keep.1 h).1, fun _ he => nomatch he⟩
    | some e =>
      have hs : (((t.run fun env => env.resolve written).2).checked e
          (.type (t.env.resolve written).value)).report.CountsFit := h
      obtain ⟨hr, hc⟩ := fits_checked hs
      exact ⟨(countsFit_keep.1 hr).1, fun _ he => Option.some.inj he ▸ hc⟩
  | none =>
    cases init with
    | none => exact ⟨h, fun _ he => nomatch he⟩
    | some e =>
      have hs : (t.checked e .value).report.CountsFit := by
        have hi : ((t.checked e .value).inferLocal name span (t.checkRoot e .value).1).2.report.CountsFit := h
        unfold inferLocal at hi
        split at hi
        · exact (countsFit_keep.1 hi).1
        · split at hi
          · exact (countsFit_keep.1 hi).1
          · exact hi
        · exact hi
      obtain ⟨hr, hc⟩ := fits_checked hs
      exact ⟨hr, fun _ he => Option.some.inj he ▸ hc⟩

/-- In a run without a finding about a wrong number of arguments all calls fit. -/
theorem Runs.fits (h : Runs p t rs u) (hn : u.report.CountsFit) :
    t.report.CountsFit ∧ ∀ r ∈ rs, ∀ c ∈ r.calls, c.fits = true := by
  induction h with
  | refl => exact ⟨hn, List.forall_mem_nil _⟩
  | enter _ _ _ ih => exact ih hn
  | pushScope _ ih => exact ih hn
  | @popScope u _ _ ih =>
    have hr : u.popScope.report = u.report := by
      unfold Typer.popScope
      split <;> rfl
    exact ih (hr ▸ hn)
  | declare _ _ _ ih => exact ih hn
  | fault _ _ _ _ ih => exact ih (countsFit_keep.1 hn).1
  | «local» _ type name span init _ ih =>
    obtain ⟨hr, hl⟩ := fits_checkLocal hn
    obtain ⟨ht, hrs⟩ := ih hr
    refine ⟨ht, List.forall_mem_append.2 ⟨hrs, List.forall_mem_map.2 fun e he => ?_⟩⟩
    exact hl e (Option.mem_toList.1 he)
  | root _ e _ ih =>
    obtain ⟨hr, hc⟩ := fits_checked hn
    obtain ⟨ht, hrs⟩ := ih hr
    exact ⟨ht, List.forall_mem_append.2 ⟨hrs, List.forall_mem_singleton.2 hc⟩⟩

theorem Checks.countsFit {es : List Expr} (h : Checks p t es u) (hn : u.report.CountsFit) : t.report.CountsFit := by
  obtain ⟨rs, hr, -⟩ := h
  exact (hr.fits hn).1

/-- Arguments for a base without a finding about their number fit the constructor of the base. -/
theorem countFits_baseOf {d : TypeDecl} {base : Option Ty} (h : (t.baseOf d base).report.CountsFit) {b : Ty} (hb : base = some b)
    {params : List ParamSig} (hp : baseConstructor? t.env.table b = some params) {args : List Expr}
    (ha : d.baseArgs? = some args) : countFits params args.length = true := by
  obtain ⟨spec, hspec, hargs⟩ := Option.bind_eq_some_iff.1 ha
  obtain ⟨type, _, span⟩ := spec
  cases hargs
  unfold baseOf at h
  rw [hspec] at h
  dsimp only at h
  rw [hb, show Option.bind (some b) (baseConstructor? (t.enter .construction false).env.table) = some params from hp] at h
  dsimp only at h
  cases hf : countFits params args.length with
  | true => rfl
  | false =>
    rw [hf] at h
    have hc := (checks_baseArguments (p := fun _ => True) args params (fun _ _ => trivial) _).countsFit h
    exact absurd rfl ((countsFit_keep.1 hc).2 _ (List.mem_singleton_self _))

end Typer

/-! ## Declarations and units -/

/-- That arguments come to parameters: they are as many as needed and no more than there are, and where default values stand last
each parameter without one has an argument at its own place. -/
def CallSupplied (params : List ParamSig) (given : Nat) : Prop :=
  countFits params given = true ∧ (DefaultsLast params → Supplies params given)

/-- What a check without a finding about a wrong number of arguments says of a declaration: every call that its code comes to and
every list of arguments for its base supplies the parameters. -/
def TypeDecl.IsSupplied (d : TypeDecl) (table : TypeTable) : Prop :=
  ∀ info t, d.typer? table = some (info, t) →
    (∃ typings t', t.Runs (fun _ => True) typings t' ∧ d.check table = t'.report ∧ typings.map (·.expr) = d.exprs ∧
      ∀ r ∈ typings, ∀ c ∈ r.calls, CallSupplied c.params c.args.length) ∧
    ∀ b ∈ info.base, ∀ params ∈ Typer.baseConstructor? table b, ∀ args ∈ d.baseArgs?, CallSupplied params args.length

theorem TypeDecl.isSupplied_resolve [Text.Hash] {source : String} {file : Option Nat} {unit : SourceUnit} {d : TypeDecl}
    (h : SourceUnit.parse source file = .ok unit) (hd : d ∈ unit.types)
    (hn : (d.resolve.decl.check (TypeTable.build unit.resolve.unit).value).CountsFit) :
    d.resolve.decl.IsSupplied (TypeTable.build unit.resolve.unit).value := by
  intro info t ht
  have hv := d.visits_of_typer h hd ht
  have hw := d.wellFormed_members_resolve (SourceUnit.wellFormed_of_parse h d hd)
  obtain ⟨typings, t', hr, hreport, he⟩ := d.runs_of_typer h hd ht
  generalize (TypeTable.build unit.resolve.unit).value = table at *
  have hl : info.constructor.length = d.params.length := by simpa using congrArg List.length hv.1
  have supplied : ∀ {params : List ParamSig} {given : Nat}, countFits params given = true → CallSupplied params given :=
    fun hf => ⟨hf, supplies_of_countFits hf⟩
  constructor
  · rw [hreport] at hn ⊢
    exact ⟨typings, t', hr, rfl, he, fun r hm c hc => supplied ((hr.fits hn).2 r hm c hc)⟩
  · intro b hb params hp args ha
    obtain ⟨typings, hr, -⟩ := Typer.checks_primaryDefaults (p := fun _ => True) t d.resolve.decl.params hl fun _ _ => trivial
    have htable : t.env.table = table := by
      rw [hv.2.1]
      rfl
    generalize hheader : (t.primaryDefaults d.resolve.decl.params info.constructor).baseOf d.resolve.decl info.base = header
    have hms := Typer.checks_foldl (p := fun _ => True) (f := Typer.member) (fun m => m.sites.map Site.expr)
      d.resolve.decl.members (fun u _ m hm => Typer.checks_member trivial trivial u (hw m hm) fun _ _ => trivial) header rfl
    have hh : header.report.CountsFit := by
      rw [TypeDecl.check, ht] at hn
      exact hms.countsFit (hheader ▸ hn)
    refine supplied (Typer.countFits_baseOf (hheader ▸ hh) hb ?_ ha)
    rw [hr.owner.table, htable]
    exact hp

/-- A source text in which nothing is found about a wrong number of arguments: every call that the code of its declarations comes to,
and every list of arguments for a base, has an argument for each parameter that needs one where default values stand last. -/
theorem CheckReport.supplied_of_codes [Text.Hash] {path source : String} {report : CheckReport}
    (h : checkSource path source = .ok report) (hn : "TCK104" ∉ report.codes) :
    ∀ r ∈ report.resolved.types, r.decl.IsSupplied (TypeTable.build report.resolved.unit).value := by
  unfold checkSource at h
  dsimp only at h
  split at h
  · cases h
  · rename_i unit hp
    cases h
    intro r hm
    obtain ⟨d, hd, rfl⟩ := List.mem_map.1 hm
    refine d.isSupplied_resolve hp hd fun f hf hc => hn (List.mem_filterMap.2 ⟨f, ?_, hc⟩)
    exact List.mem_append_right _ (SourceUnit.mem_diagnostics_check.2 ⟨_, List.mem_map_of_mem hm, hf⟩)

instance (params : List ParamSig) (given : Nat) : Decidable (Supplies params given) :=
  inferInstanceAs (Decidable (∀ i, ∀ h : i < params.length, params[i].hasDefault = false → i < given))

/-- A parameter with a default value in front of one without: the argument that is there is counted for the second and given to the
first, and nothing is reported. -/
theorem argument_at_place_of_default :
    ∃ report, checkSource "a" "class A { int M(int a = 1, int b) { return b; } int F() { return M(5); } }" = .ok report ∧
      report.codes = [] ∧ ∃ r ∈ report.resolved.types, ∃ e ∈ r.decl.exprs,
        ∃ found ∈ r.decl.typer? (TypeTable.build report.resolved.unit).value,
          ∃ c ∈ e.calls (found.2.enterBody [] false).env (.against .int), ¬ Supplies c.params c.args.length := by
  decide +kernel

/-- A class may name a base whose constructor needs an argument and give no list of arguments at all, and nothing is reported. -/
theorem base_without_arguments :
    ∃ report, checkSource "a" "class B(int x) { } class D : B { }" = .ok report ∧ report.codes = [] ∧
      ∃ r ∈ report.resolved.types, r.decl.baseArgs? = none ∧
        ∃ found ∈ r.decl.typer? (TypeTable.build report.resolved.unit).value, ∃ b ∈ found.1.base,
          ∃ params ∈ Typer.baseConstructor? (TypeTable.build report.resolved.unit).value b, ¬ Supplies params 0 := by
  decide +kernel

end NavCheck
