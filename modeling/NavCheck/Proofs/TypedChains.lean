import NavCheck.Proofs.Guards
import NavCheck.Proofs.NullableOnce
import NavCheck.Proofs.Runs

/-!
# Typed chains

What typing an expression notes about chains: for each chain whose accesses come to a type, a record with the plan of the chain,
and a finding when the type cannot be told to be a reference or a value. The chains are told with the environments that they are
typed in, so that the type of the root and the type that the accesses come to can be spoken of.
-/

namespace NavCheck

/-! ## Chains in environments -/

/-- An environment further inside: of the body of a lambda, or of a lambda in it. -/
def Env.Inside (env inner : Env) : Prop :=
  ∃ phase scopes, inner = { env with phase, scopes := scopes ++ env.scopes }

namespace Env.Inside

theorem refl (env : Env) : env.Inside env :=
  ⟨env.phase, [], rfl⟩

theorem lambda (env : Env) (params : List (String × Ty)) : env.Inside (env.enterLambda params) :=
  ⟨.afterwards, [params.reverse], rfl⟩

theorem trans {a b c : Env} (h : a.Inside b) (h' : b.Inside c) : a.Inside c := by
  obtain ⟨phase, scopes, rfl⟩ := h
  obtain ⟨phase', scopes', rfl⟩ := h'
  refine ⟨phase', scopes' ++ scopes, ?_⟩
  rw [List.append_assoc]

theorem table {env inner : Env} (h : env.Inside inner) : inner.table = env.table := by
  obtain ⟨phase, scopes, rfl⟩ := h
  rfl

end Env.Inside

/-- What accesses come to, from an operand on. -/
def Env.follow (env : Env) (operand : Operand) (links : List ChainLink) : Typed Operand :=
  links.foldlM (fun operand l => l.link.typeOnto env operand l.span) operand

theorem Env.follow_append (env : Env) (operand : Operand) (links more : List ChainLink) :
    env.follow operand (links ++ more) = env.follow operand links >>= (env.follow · more) :=
  List.foldlM_append

/-- A chain with a root of a type, in front of its accesses. -/
def TypedChain.begin (table : TypeTable) (root : Ty) (guard : Span) : TypedChain where
  root := root
  operand := .value (if table.classify root = .nullableValue then root.inner?.getD root else root)
  guard := guard
  unwraps := decide (table.classify root = .nullableValue) && root.inner?.isSome
  valid := decide (table.classify root ≠ .value)

namespace Chain

/-- The chain in an environment in front of its accesses. -/
def begin (chain : Chain) (env : Env) : TypedChain :=
  .begin env.table (chain.root.type env).value chain.guard

/-- The chain typed in an environment: the type of its root, and what its accesses come to. -/
def typed (chain : Chain) (env : Env) : TypedChain :=
  { chain.begin env with operand := (env.follow (chain.begin env).operand chain.links).value }

/-- One more access goes on from what the accesses come to. -/
theorem typed_access (chain : Chain) (env : Env) (l : ChainLink) :
    typed { chain with links := chain.links ++ [l] } env =
      { chain.typed env with operand := (l.link.typeOnto env (chain.typed env).operand l.span).value } := by
  have hf : ∀ operand, (env.follow operand (chain.links ++ [l])).value =
      (l.link.typeOnto env (env.follow operand chain.links).value l.span).value := by
    intro operand
    rw [env.follow_append]
    rfl
  unfold typed
  rw [hf]
  rfl

end Chain

/-- A chain that typing has come to the end of: its environment, its outermost access, and the plan that is noted for it. -/
structure ChainTyping where
  env : Env
  top : Expr
  chain : Chain
  plan : Option ChainPlan

namespace ChainTyping

/-- The type that the `?` tests. -/
def rootType (c : ChainTyping) : Ty :=
  (c.chain.root.type c.env).value

/-- The type that the accesses come to. -/
def linkType (c : ChainTyping) : Ty :=
  ((c.chain.typed c.env).operand.type c.top.span).value

/-- What the chain gives. -/
def result (c : ChainTyping) : ChainResult :=
  c.env.table.chainResult c.linkType

/-- The record of the chain, without a lowered form. -/
def record (c : ChainTyping) : NavigationRecord :=
  ⟨c.top.span, c.chain.guard, c.top.text, c.rootType, c.result, none⟩

/-- What is reported when the type of the accesses cannot be told to be a reference or a value. -/
def finding? (c : ChainTyping) : Option Diagnostic :=
  if c.env.table.classify c.linkType = .unknown then some ((TypingFault.unknownResult c.linkType c.top.text).finding c.top.span)
  else none

/-- The chain is the one that ends in its outermost access, its accesses come to a type, and the plan is what lowering has to
know of it. Nothing is nullable twice in the types of its environment. -/
structure Fits (c : ChainTyping) : Prop where
  env : c.env.All Ty.Once
  chain : c.top.chain? = some c.chain
  linkType : c.linkType ≠ .error
  plan : c.plan = Env.planOf (c.chain.typed c.env) c.result

end ChainTyping

/-! ## Notes about chains -/

/-- The records of chains among notes, with the plans. -/
def chainsOf (notes : List TypingNote) : List (NavigationRecord × Option ChainPlan) :=
  notes.filterMap fun
    | .chain record plan => some (record, plan)
    | _ => none

/-- The findings among notes about results without a static type. -/
def unknownsOf (notes : List TypingNote) : List Diagnostic :=
  (findingsOf notes).filter (·.isUnknownResult)

/-- Notes about chains with outermost accesses among given ones, each in an environment inside another: a record for each, and a
finding for each whose result has no static type. -/
structure Describe (env : Env) (tops : List Expr) (chains : List ChainTyping) (notes : List TypingNote) : Prop where
  recorded : chainsOf notes = chains.map fun c => (c.record, c.plan)
  reported : unknownsOf notes = chains.filterMap ChainTyping.finding?
  tops : (chains.map (·.top)).Sublist tops
  inside : ∀ c ∈ chains, env.Inside c.env
  fits : ∀ c ∈ chains, c.Fits

/-- Notes that describe chains. -/
def Described (env : Env) (tops : List Expr) (notes : List TypingNote) : Prop :=
  ∃ chains, Describe env tops chains notes

section

variable {α β : Type} {env : Env} {ts us : List Expr} {a b : List TypingNote}

theorem chainsOf_append (a b : List TypingNote) : chainsOf (a ++ b) = chainsOf a ++ chainsOf b :=
  List.filterMap_append

theorem unknownsOf_append (a b : List TypingNote) : unknownsOf (a ++ b) = unknownsOf a ++ unknownsOf b := by
  simp only [unknownsOf, findingsOf, List.filterMap_append, List.filter_append]

/-- Notes about no chain. -/
theorem described_nil (hc : chainsOf a = []) (hu : unknownsOf a = []) : Described env ts a :=
  ⟨[], hc, hu, List.nil_sublist _, List.forall_mem_nil _, List.forall_mem_nil _⟩

theorem Quiet.described {x : Typed α} (h : Quiet x) : Described env ts x.notes := by
  refine described_nil (List.filterMap_eq_nil_iff.2 fun n hn => ?_) (List.filter_eq_nil_iff.2 fun d hd => ?_)
  · have hp := h n hn
    cases n with
    | chain => simp [TypingNote.isPlain] at hp
    | finding | name => rfl
  · obtain ⟨n, hn, hf⟩ := List.mem_filterMap.1 hd
    have hp := h n hn
    cases n with
    | finding d' =>
      obtain rfl : d' = d := by simpa using hf
      simp only [TypingNote.isPlain, Bool.and_eq_true] at hp
      simpa using hp.2
    | chain | name => cases hf

theorem Described.append (h : Described env ts a) (h' : Described env us b) : Described env (ts ++ us) (a ++ b) := by
  obtain ⟨cs, hr, hu, ht, hi, hf⟩ := h
  obtain ⟨ds, hr', hu', ht', hi', hf'⟩ := h'
  refine ⟨cs ++ ds, ?_, ?_, ?_, List.forall_mem_append.2 ⟨hi, hi'⟩, List.forall_mem_append.2 ⟨hf, hf'⟩⟩
  · rw [chainsOf_append, hr, hr', List.map_append]
  · rw [unknownsOf_append, hu, hu', List.filterMap_append]
  · rw [List.map_append]
    exact ht.append ht'

theorem Described.bind {x : Typed α} {f : α → Typed β} (h : Described env ts x.notes) (hf : Described env us (f x.value).notes) :
    Described env (ts ++ us) (x >>= f).notes :=
  h.append hf

/-- Notes about fewer chains are notes about more. -/
theorem Described.mono (h : Described env ts a) (hs : ts.Sublist us) : Described env us a := by
  obtain ⟨cs, hr, hu, ht, hi, hf⟩ := h
  exact ⟨cs, hr, hu, ht.trans hs, hi, hf⟩

theorem Described.bind_quiet {x : Typed α} {f : α → Typed β} (h : Described env ts x.notes) (hf : ∀ v, Quiet (f v)) :
    Described env ts (x >>= f).notes := by
  have hq : Described env [] (f x.value).notes := (hf x.value).described
  have hb := h.append hq
  rwa [List.append_nil] at hb

theorem Described.quiet_bind {x : Typed α} {f : α → Typed β} (h : Quiet x) (hf : Described env ts (f x.value).notes) :
    Described env ts (x >>= f).notes := by
  have hq : Described env [] x.notes := h.described
  exact hq.append hf

/-- A call behind a `?` is reported, but no chain. -/
theorem described_guardedInvocation (call : Span) (replacement : String) (guard : Span) :
    Described env [] ((TypingFault.guardedInvocation call replacement).report guard).notes :=
  described_nil rfl rfl

/-- What is noted inside a lambda is noted inside the expression around it. -/
theorem Described.outside {inner : Env} (hi : env.Inside inner) (h : Described inner ts a) : Described env ts a := by
  obtain ⟨cs, hr, hu, ht, hc, hf⟩ := h
  exact ⟨cs, hr, hu, ht, fun c hm => hi.trans (hc c hm), hf⟩

end

/-! ## Rows of accesses -/

/-- A chain that is still going on is the one that the expression ends, typed in the environment. -/
def TypedSpine.Follows (env : Env) (e : Expr) : TypedSpine → Prop
  | .chain c => ∃ chain, e.chain? = some chain ∧ c = chain.typed env
  | _ => True

/-- A chain begins with the type of its root. -/
theorem begin_of_openChain {env : Env} {root : Expr} {type : Ty} {guard : Span} {c : TypedChain}
    (h : (env.openChain root type guard).value = some c) : c = .begin env.table type guard := by
  unfold Env.openChain at h
  split at h
  · cases h
  split at h
  · cases h
  split at h
  · rename_i hc
    cases h
    simp [TypedChain.begin, hc]
  · rename_i hc
    cases h
    simp [TypedChain.begin, hc]
  · rename_i hn hv
    cases h
    have hv : env.table.classify type ≠ .value := hv
    rw [TypedChain.begin, if_neg hn, decide_eq_false hn, decide_eq_true hv]
    rfl

/-- The notes at the end of a chain whose accesses come to a type. -/
theorem described_chain {c : ChainTyping} (hc : c.Fits) :
    Described c.env [c.top] ((c.finding?.map TypingNote.finding).toList ++ [.chain c.record c.plan]) := by
  refine ⟨[c], ?_, ?_, .refl _, List.forall_mem_singleton.2 (.refl _), List.forall_mem_singleton.2 hc⟩
  · cases c.finding? <;> rfl
  · unfold ChainTyping.finding?
    by_cases hk : c.env.table.classify c.linkType = .unknown
    · simp only [List.filterMap_cons, if_pos hk]
      rfl
    · simp only [List.filterMap_cons, if_neg hk]
      rfl

/-- What ends a chain is noted, and nothing else. -/
theorem described_close {env : Env} (h : env.All Ty.Once) {e : Expr} {row : TypedSpine} (hf : row.Follows env e) :
    Described env (if e.onChain then [e] else []) (env.close e row).notes := by
  cases row with
  | whole operand settable => exact (quiet_pure operand).described
  | refused => exact (quiet_pure (Operand.value .error)).described
  | chain c =>
    obtain ⟨chain, hc, rfl⟩ := hf
    have hon : e.onChain = true := by
      rw [← e.isSome_chain?, hc]
      rfl
    rw [if_pos hon]
    refine Described.bind_quiet ?_ fun _ => quiet_pure _
    unfold Env.closeChain
    refine Described.quiet_bind (quiet_operand_type _ _) ?_
    split
    · exact (quiet_pure Ty.error).described
    · rename_i hne
      let found : ChainTyping := ⟨env, e, chain, Env.planOf (chain.typed env)
        (env.table.chainResult ((chain.typed env).operand.type e.span).value)⟩
      have noted := described_chain (c := found) ⟨h, hc, hne, rfl⟩
      have unknown : env.table.chainResult found.linkType = .error ↔ found.env.table.classify found.linkType = .unknown :=
        TypeTable.chainResult_eq_error
      dsimp only
      split
      · rename_i he
        rw [ChainTyping.finding?, if_pos (unknown.1 he)] at noted
        exact noted
      · rename_i he
        rw [ChainTyping.finding?, if_neg (mt unknown.2 he)] at noted
        exact noted

/-- What is known of the action that types a row of accesses. -/
structure DescribesRow (env : Env) (e : Expr) (spine : Typed TypedSpine) : Prop where
  described : Described env e.innerTops spine.notes
  follows : spine.value.Follows env e

/-- An expression that is no access ends no chain. -/
theorem describesRow_whole {env : Env} {e : Expr} {spine : Typed TypedSpine} (h : Described env e.innerTops spine.notes)
    (hw : ∃ operand settable, spine.value = .whole operand settable) : DescribesRow env e spine := by
  obtain ⟨operand, settable, hw⟩ := hw
  refine ⟨h, ?_⟩
  rw [hw]
  trivial

section

variable {env : Env} (h : env.All Ty.Once) {e : Expr} {spine : Typed TypedSpine} (hr : DescribesRow env e spine)

include h hr

theorem DescribesRow.valueOf : Described env e.tops (env.valueOf e spine).notes := by
  have hc := (hr.described.bind (described_close h hr.follows)).bind_quiet fun o => quiet_operand_type o e.span
  simpa [Expr.tops, Expr.withTop, Env.valueOf] using hc

theorem DescribesRow.presentValueOf : Described env e.tops (env.presentValueOf e spine).notes :=
  (hr.valueOf h).bind_quiet fun type => quiet_requireValue type e.span

theorem DescribesRow.check (expected : Ty) : Described env e.tops (env.check expected e spine).notes := by
  refine (hr.presentValueOf h).bind_quiet fun found => ?_
  split
  · exact quiet_report _ _ rfl
  · exact quiet_pure _

theorem DescribesRow.targetOf : Described env e.tops (env.targetOf e spine).notes := by
  refine hr.described.append ((described_close h hr.follows).bind_quiet fun o =>
    (quiet_operand_type o e.span).bind fun type => ?_)
  split
  · exact quiet_report_then _ rfl
  split
  · exact quiet_pure _
  · split
    · exact quiet_report_then _ rfl
    · exact quiet_pure _

end

/-! ## Expressions -/

/-- What holds of a value whatever is noted. -/
theorem Noted.Ensures.always {ν α : Type} {p : α → Prop} {x : Noted ν α} (h : Noted.Ensures (fun _ => True) p x) : p x.value :=
  h fun _ _ => trivial

section

variable {env : Env} (h : env.All Ty.Once)

include h

/-- Typing a guarded access that is no invocation begins a chain. -/
theorem describesRow_guarded {base : Expr} {link : Link} {span : Span}
    (hb : Described env base.tops (env.valueOf base (base.typeSpine env .value)).notes)
    (hl : ∀ operand : Operand, operand.All Ty.Once → Described env link.tops (link.typeOnto env operand span).notes) :
    DescribesRow env (.access base link true span) (do
      let type ← env.valueOf base (base.typeSpine env .value)
      match ← env.openChain base type (guardSpan base span) with
      | some c => return .chain { c with operand := ← link.typeOnto env c.operand span }
      | none => return .refused) := by
  have once : (env.valueOf base (base.typeSpine env .value)).value.Once :=
    (Ty.kept_once.valueOf (Ty.kept_once.typeSpine h .value trivial base (.inl .error))).always
  have opened := (Ty.kept_once.openChain h base once (guardSpan base span)).always
  have begun := @begin_of_openChain env base (env.valueOf base (base.typeSpine env .value)).value (guardSpan base span)
  constructor
  · refine hb.bind (Described.quiet_bind (quiet_openChain _ _ _ _) ?_)
    generalize (env.openChain base _ (guardSpan base span)).value = o at opened
    cases o with
    | none => exact (quiet_pure TypedSpine.refused).described
    | some c => exact (hl c.operand opened).bind_quiet fun _ => quiet_pure _
  · dsimp only [Noted.value_bind]
    generalize (env.openChain base _ (guardSpan base span)).value = o at begun
    cases o with
    | none => trivial
    | some c =>
      obtain rfl := begun rfl
      exact ⟨⟨base, [⟨link, true, span⟩], guardSpan base span⟩, rfl, rfl⟩

/-- Typing an access without a `?` goes on with the row of its base. -/
theorem describesRow_plain {base : Expr} {link : Link} {span : Span} {goal : Goal}
    (hb : DescribesRow env base (base.typeSpine env .value))
    (hl : ∀ operand : Operand, operand.All Ty.Once → Described env link.tops (link.typeOnto env operand span).notes) :
    DescribesRow env (.access base link false span) (Expr.typeSpine env goal (.access base link false span)) := by
  have once := (Ty.kept_once.typeSpine h .value trivial base (.inl .error)).always
  obtain ⟨hn, hf⟩ := hb
  rw [Expr.typeSpine]
  cases hs : (base.typeSpine env .value).value with
  | chain c =>
    rw [hs] at hf once
    obtain ⟨chain, hc, rfl⟩ := hf
    constructor
    · refine hn.bind ?_
      rw [hs]
      exact (hl _ once).bind_quiet fun _ => quiet_pure _
    · rw [Noted.value_bind, hs]
      refine ⟨{ chain with links := chain.links ++ [⟨link, false, span⟩] }, ?_, ?_⟩
      · rw [Expr.chain?, hc]
        rfl
      · exact (chain.typed_access env ⟨link, false, span⟩).symm
  | refused =>
    constructor
    · refine hn.bind ?_
      rw [hs]
      exact (quiet_pure TypedSpine.refused).described
    · rw [Noted.value_bind, hs]
      trivial
  | whole operand settable =>
    rw [hs] at once
    constructor
    · refine hn.bind ?_
      rw [hs]
      exact Described.quiet_bind (quiet_baseOperand _ _ _ _)
        ((hl _ (Ty.kept_once.baseOperand once goal link base).always).bind_quiet fun _ => quiet_pure _)
    · rw [Noted.value_bind, hs]
      trivial

end

mutual

/-- Typing a row of accesses describes the chains inside it. -/
theorem Expr.describesRow_typeSpine {env : Env} (h : env.All Ty.Once) (goal : Goal) (hg : goal.All Ty.Once) :
    ∀ e : Expr, DescribesRow env e (e.typeSpine env goal)
  | .literal value _ => ⟨(quiet_pure _).described, trivial⟩
  | .name text span => by
    refine describesRow_whole (Described.bind_quiet ?_ fun _ => quiet_pure _) ⟨_, _, rfl⟩
    exact Described.bind_quiet (described_nil rfl rfl) fun _ => quiet_operandOf _ _ _ _
  | .self span => ⟨((quiet_selfType env span).bind fun _ => quiet_pure _).described, trivial⟩
  | .unary op operand span =>
    ⟨((operand.describesRow_typeSpine h .value trivial).presentValueOf h).bind_quiet fun _ =>
      (quiet_unaryType _ _ _).bind fun _ => quiet_pure _, trivial⟩
  | .binary op left right span =>
    ⟨((left.describesRow_typeSpine h .value trivial).presentValueOf h).bind <|
      ((right.describesRow_typeSpine h .value trivial).presentValueOf h).bind_quiet fun _ =>
        (quiet_binaryType _ _ _ _ _ _).bind fun _ => quiet_pure _, trivial⟩
  | .conditional condition thenBranch elseBranch span => by
    refine ⟨?_, trivial⟩
    rw [Expr.innerTops, List.append_assoc]
    exact ((condition.describesRow_typeSpine h (.against .bool) (Ty.hereditary_once.simple _)).check h .bool).bind <|
      ((thenBranch.describesRow_typeSpine h .value trivial).presentValueOf h).bind <|
        ((elseBranch.describesRow_typeSpine h .value trivial).presentValueOf h).bind_quiet fun _ =>
          (quiet_branchType _ _ _ _).bind fun _ => quiet_pure _
  | .assign target value span => by
    have ht : (env.targetOf target (target.typeSpine env .target)).value.Once :=
      (Ty.kept_once.targetOf (Ty.kept_once.typeSpine h .target trivial target (.inl .error))).always
    exact describesRow_whole (((target.describesRow_typeSpine h .target trivial).targetOf h).bind <|
      ((value.describesRow_typeSpine h (.against _) ht).check h _).bind_quiet fun _ => quiet_pure _) ⟨_, _, rfl⟩
  | .lambda params body span => by
    have types : ∀ q ∈ (env.lambdaParams params ((goal.delegate? params.length).map (·.1))).value, q.2.Once := by
      refine (Ty.kept_once.lambdaParams env params _ (fun _ => .inl .error) fun ts hts => ?_).always
      obtain ⟨expected, hd, rfl⟩ := Option.map_eq_some_iff.1 hts
      exact ⟨goal.length_of_delegate? hd, (Ty.hereditary_once.delegate? hg hd).1⟩
    have hi := h.enterLambda types
    have hb := ((body.describesRow_typeSpine hi .value trivial).valueOf hi).outside (.lambda env _)
    refine describesRow_whole (Described.quiet_bind (quiet_lambdaParams _ _ _) ?_) ?_
    · dsimp only
      split
      · exact hb.bind_quiet fun _ => quiet_pure _
      · exact hb.bind_quiet fun _ => quiet_pure _
      · rename_i hd
        have hr := (Ty.hereditary_once.delegate? hg hd).2
        exact (((body.describesRow_typeSpine hi (.against _) hr).check hi _).outside (.lambda env _)).bind_quiet
          fun _ => (quiet_pure _).bind fun _ => quiet_pure _
    · rw [Expr.typeSpine]
      dsimp only [Noted.value_bind]
      split <;> exact ⟨_, _, rfl⟩
  | .paren inner span => by
    have hv := inner.describesRow_typeSpine h .value trivial
    have ht := inner.describesRow_typeSpine h .target trivial
    rw [Expr.typeSpine.eq_def]
    dsimp only
    split
    · exact ⟨(ht.targetOf h).bind_quiet fun _ => quiet_pure _, trivial⟩
    · exact ⟨hv.described.bind ((described_close h hv.follows).bind_quiet fun o => quiet_pure (TypedSpine.whole o false)),
        trivial⟩
  | .access base (.invoke args) true span => by
    have ha : ∀ call replacement, Described env (listTops args) (do
          typeList env args
          (TypingFault.guardedInvocation call replacement).report (guardSpan base span)
          return TypedSpine.refused : Typed TypedSpine).notes := by
      intro call replacement
      have hr := (described_typeList h args).append (described_guardedInvocation call replacement (guardSpan base span))
      rwa [List.append_nil] at hr
    exact ⟨((base.describesRow_typeSpine h .value trivial).valueOf h).bind (ha _ _), trivial⟩
  | .access base (.member name nameSpan) true span => by
    have hb := (base.describesRow_typeSpine h .value trivial).valueOf h
    have hl := fun operand ho => (Link.member name nameSpan).described_typeOnto h operand ho span
    exact describesRow_guarded h hb hl
  | .access base (.element indices) true span => by
    have hb := (base.describesRow_typeSpine h .value trivial).valueOf h
    have hl := fun operand ho => (Link.element indices).described_typeOnto h operand ho span
    exact describesRow_guarded h hb hl
  | .access base link false span => by
    have hb := base.describesRow_typeSpine h .value trivial
    have hl := fun operand ho => link.described_typeOnto h operand ho span
    exact describesRow_plain h hb hl
  | .create type args entries span => by
    have hc := (Ty.kept_once.resolve env type).always
    have he := (described_checkEntries h hc entries).bind_quiet fun _ =>
      quiet_pure (TypedSpine.whole (.value (env.resolve type).value) false)
    refine describesRow_whole (Described.quiet_bind (quiet_resolve _ _) (Described.quiet_bind (quiet_constructorOf _ _ _) ?_)) ?_
    · split
      · rename_i params hp
        exact Described.quiet_bind (quiet_checkCount _ _ _ _)
          ((described_checkList h params ((Ty.kept_once.constructorOf h hc type.span).always params hp) args).bind he)
      · exact (described_typeList h args).bind he
    · rw [Expr.typeSpine]
      dsimp only [Noted.value_bind]
      split <;> exact ⟨_, _, rfl⟩

/-- Typing the access of a link describes the chains in its operands. -/
theorem Link.described_typeOnto {env : Env} (h : env.All Ty.Once) (operand : Operand) (ho : operand.All Ty.Once) (span : Span) :
    ∀ link : Link, Described env link.tops (link.typeOnto env operand span).notes
  | .member name nameSpan => ((quiet_operand_type _ _).bind fun _ => quiet_memberOf _ _ _ _).described
  | .element indices => by
    have ht := (Ty.kept_once.operand_type ho span).always
    have hi := (Ty.kept_once.indexerOf h ht indices.length span).always
    refine Described.quiet_bind (quiet_operand_type _ _) (Described.quiet_bind (quiet_indexerOf _ _ _ _) ?_)
    split
    · rename_i indexer hx
      rw [hx] at hi
      have hp : ∀ s ∈ indexer.params, s.type.Once := fun s hs => hi _ (List.mem_cons_of_mem _ (List.mem_map_of_mem hs))
      exact (described_checkList h indexer.params hp indices).bind_quiet fun _ => quiet_pure _
    · exact (described_typeList h indices).bind_quiet fun _ => quiet_pure _
  | .invoke args => by
    have hc := (Ty.kept_once.callee ho span).always
    refine Described.quiet_bind (quiet_callee _ _) ?_
    split
    · rename_i callee hx
      rw [hx] at hc
      exact Described.quiet_bind (quiet_checkCount _ _ _ _)
        ((described_checkList h callee.params hc.1 args).bind_quiet fun _ => quiet_pure _)
    · exact (described_typeList h args).bind_quiet fun _ => quiet_pure _

/-- Typing several expressions describes the chains in them. -/
theorem described_typeList {env : Env} (h : env.All Ty.Once) :
    ∀ es : List Expr, Described env (listTops es) (typeList env es).notes
  | [] => (quiet_pure _).described
  | e :: es => ((e.describesRow_typeSpine h .value trivial).valueOf h).bind (described_typeList h es)

/-- Checking arguments describes the chains in them. -/
theorem described_checkList {env : Env} (h : env.All Ty.Once) :
    ∀ (params : List ParamSig) (_ : ∀ s ∈ params, s.type.Once) (es : List Expr),
      Described env (listTops es) (checkList env params es).notes
  | _, _, [] => by
    rw [checkList.eq_def]
    exact (quiet_pure _).described
  | [], hp, e :: es => ((e.describesRow_typeSpine h .value trivial).valueOf h).bind (described_checkList h [] hp es)
  | p :: ps, hp, e :: es =>
    have ⟨hq, hps⟩ := List.forall_mem_cons.1 hp
    ((e.describesRow_typeSpine h (.against p.type) hq).check h p.type).bind (described_checkList h ps hps es)

/-- Checking the entries of an initializer describes the chains in them. -/
theorem described_checkEntries {env : Env} (h : env.All Ty.Once) {type : Ty} (ht : type.Once) :
    ∀ entries : List Entry, Described env (entryTops entries) (checkEntries env type entries).notes
  | [] => (quiet_pure _).described
  | .member name span value :: entries =>
    Described.quiet_bind (quiet_memberTarget _ _ _ _) <|
      ((value.describesRow_typeSpine h (.against _) (Ty.kept_once.memberTarget h ht name span).always).check h _).bind
        (described_checkEntries h ht entries)
  | .element indices span value :: entries => by
    have hv : ∀ target : Ty, target.Once → Described env (value.tops ++ entryTops entries) (do
          env.check target value (value.typeSpine env (.against target))
          checkEntries env type entries : Typed Unit).notes := fun target hc =>
      ((value.describesRow_typeSpine h (.against target) hc).check h target).bind (described_checkEntries h ht entries)
    have target : (Env.elementTarget type (env.table.indexer? type indices.length) span).value.Once := by
      refine (Ty.kept_once.elementTarget ?_ span).always
      cases hi : env.table.indexer? type indices.length with
      | none => exact .error
      | some indexer => exact Ty.hereditary_once.indexer? h.table ht hi
    rw [entryTops, List.append_assoc, checkEntries]
    split
    · exact (Described.quiet_bind (quiet_pure _) (hv _ .error)).mono (List.sublist_append_right _ _)
    · dsimp only
      split
      · rename_i indexer hi
        have hx := Ty.hereditary_once.indexer? h.table ht hi
        have hp : ∀ s ∈ indexer.params, s.type.Once := fun s hs => hx _ (List.mem_cons_of_mem _ (List.mem_map_of_mem hs))
        exact (described_checkList h indexer.params hp indices).bind
          (Described.quiet_bind (quiet_entryTarget _ _ _ _) (hv _ target))
      · exact (described_typeList h indices).bind (Described.quiet_bind (quiet_entryTarget _ _ _ _) (hv _ target))

end

/-- Typing a complete expression describes the chains in it. -/
theorem RootTyping.described {r : RootTyping} (h : r.env.All Ty.Once) (hx : r.expectation.All Ty.Once) :
    Described r.env r.expr.tops r.typed.notes := by
  obtain ⟨env, e, expectation⟩ := r
  cases expectation with
  | type expected =>
    exact ((e.describesRow_typeSpine h (.against expected) hx).check h expected).bind_quiet fun _ => quiet_pure expected
  | value => exact (e.describesRow_typeSpine h .value trivial).presentValueOf h
  | discard => exact (e.describesRow_typeSpine h .value trivial).valueOf h

end NavCheck
