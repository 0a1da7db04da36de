import NavCheck.Proofs.ChainRecords
import NavCheck.Proofs.KnownUnits
import NavCheck.Proofs.LoweredTypes
import NavCheck.Proofs.Outcomes
import NavCheck.Text.Digest

/-!
# Results of chains

What a chain gives in the code of a unit: nothing that has a type exactly when the type of its accesses cannot be told to be a
reference or a value, and that is reported once; otherwise a type that can hold the `null` of a chain cut short and that is not
wrapped again. The plan of the chain says so to lowering, and both branches of the lowered chain have the type of its result.
-/

namespace NavCheck

/-! ## Single chains -/

/-- What accesses come to has types in which nothing is nullable twice. -/
theorem Env.All.once_follow {env : Env} (h : env.All Ty.Once) (links : List ChainLink) {operand : Operand}
    (ho : operand.All Ty.Once) : (env.follow operand links).value.All Ty.Once := by
  induction links generalizing operand with
  | nil => exact ho
  | cons l links ih => exact ih (Ty.kept_once.typeOnto h ho l.span l.link).always

namespace ChainTyping

variable {c : ChainTyping}

/-- The root of a chain is nullable at most once. -/
theorem Fits.once_rootType (hc : c.Fits) : c.rootType.Once :=
  (Ty.kept_once.valueOf (Ty.kept_once.typeSpine hc.env .value trivial c.chain.root (.inl .error))).always

/-- What the accesses of a chain give is nullable at most once. -/
theorem Fits.once_linkType (hc : c.Fits) : c.linkType.Once := by
  have begun : (c.chain.begin c.env).operand.All Ty.Once := by
    show Ty.Once (if c.env.table.classify c.rootType = .nullableValue then c.rootType.inner?.getD c.rootType else c.rootType)
    split
    · cases hi : c.rootType.inner? with
      | none => exact hc.once_rootType
      | some inner => exact Ty.hereditary_once.inner? hc.once_rootType hi
    · exact hc.once_rootType
  have reached : (c.chain.typed c.env).operand.All Ty.Once := hc.env.once_follow c.chain.links begun
  rw [hc.operand_eq] at reached
  exact reached

/-- What holds of a chain whose accesses come to a type. Its result has no type exactly when the category of that type is not
known. Otherwise the result can hold `null` if there is one at all, is nullable at most once and is given as it is by a chain whose
accesses give it. There is a plan exactly when the root may be missing and the result has a type; it unwraps a root that is a
value which may be missing, and wraps what is a plain value. -/
structure Sound (c : ChainTyping) : Prop where
  error : c.result = .error ↔ c.env.table.classify c.linkType = .unknown
  holdsNull : c.result ≠ .error → c.result ≠ .void → c.env.table.assignable .null c.result.type = true
  once : ∀ inner, c.result.type ≠ .nullable (.nullable inner)
  stable : c.result ≠ .error → (c.env.table.chainResult c.result.type).type = c.result.type
  planned : c.plan.isSome = true ↔ c.env.table.classify c.rootType ≠ .value ∧ c.result ≠ .error
  unwraps : ∀ plan ∈ c.plan, (plan.unwraps = true ↔ c.env.table.classify c.rootType = .nullableValue)
  wraps : ∀ plan ∈ c.plan, (plan.wrap.isSome = true ↔ c.env.table.classify c.linkType = .value)

/-- A chain that is typed by the rule of chains is sound. -/
theorem Fits.sound (hc : c.Fits) : c.Sound where
  error := TypeTable.chainResult_eq_error
  holdsNull he hv := TypeTable.assignable_null (TypeTable.acceptsNull_chainResult he hv)
  once _ := (TypeTable.once_chainResult hc.once_linkType).ne_nullable_nullable
  stable := TypeTable.chainResult_chainResult
  planned := by
    constructor
    · intro h
      obtain ⟨plan, hp⟩ := Option.isSome_iff_exists.1 h
      exact (hc.plan_eq_some_iff.1 hp).1
    · intro h
      rw [hc.plan_eq_some_iff.2 ⟨h, rfl⟩]
      rfl
  unwraps plan hp := by
    obtain ⟨-, rfl⟩ := hc.plan_eq_some_iff.1 hp
    show (decide (c.env.table.classify c.rootType = .nullableValue) && c.rootType.inner?.isSome) = true ↔ _
    rw [Bool.and_eq_true, decide_eq_true_iff]
    exact and_iff_left_of_imp hc.env.table.isSome_inner?
  wraps plan hp := by
    obtain ⟨-, rfl⟩ := hc.plan_eq_some_iff.1 hp
    exact TypeTable.isSome_lift?_chainResult

/-- A record that tells a chain. It has a lowered form exactly when there is a plan, and the form spells the chain out. -/
structure Settled (c : ChainTyping) (r : NavigationRecord) : Prop where
  record : { r with lowered := none } = c.record
  lowered : r.lowered.isSome = c.plan.isSome
  spells : ∀ f ∈ r.lowered, c.Spells f

end ChainTyping

/-- The plans of chains by their guards. -/
def plansOfChains (chains : List ChainTyping) : ChainPlans :=
  chains.filterMap fun c => c.plan.map (c.chain.guard, ·)

/-! ## Complete expressions -/

section

variable {env : Env} {tops : List Expr} {chains : List ChainTyping} {notes : List TypingNote} (h : Describe env tops chains notes)

include h

/-- The records among notes on chains are those of the chains. -/
theorem Describe.recordsOf_eq : recordsOf notes = chains.map ChainTyping.record := by
  have hr : recordsOf notes = (chainsOf notes).map (·.1) := by
    unfold recordsOf chainsOf
    rw [List.map_filterMap]
    congr
    funext n
    cases n <;> rfl
  rw [hr, h.recorded, List.map_map]
  rfl

/-- The plans of notes on chains are those of the chains, the latest first. -/
theorem Describe.plansOf_eq : plansOf notes = (plansOfChains chains).reverse := by
  have hp : plansOf notes = ((chainsOf notes).filterMap fun q => q.2.map (q.1.guard, ·)).reverse := by
    unfold plansOf chainsOf
    rw [List.filterMap_filterMap]
    congr
    funext n
    cases n with
    | chain record plan => cases plan <;> rfl
    | finding | name => rfl
  rw [hp, h.recorded, List.filterMap_map]
  rfl

/-- The guards of the chains are guards of their outermost accesses, in the same order. -/
theorem Describe.guards : (chains.map (·.chain.guard)).Sublist (topGuards tops) := by
  have hg : chains.map (·.chain.guard) = topGuards (chains.map (·.top)) := by
    rw [topGuards, List.filterMap_map, ← List.filterMap_eq_map]
    refine List.filterMap_congr fun c hc => ?_
    simp [Expr.chainGuard?, (h.fits c hc).chain]
  rw [hg]
  exact h.tops.filterMap _

end

/-- The plan of a chain is the one that its record has. -/
theorem ChainTyping.Fits.plan_eq {c : ChainTyping} (hc : c.Fits) : c.plan = c.record.plan? c.env.table := by
  have hv : (c.chain.typed c.env).valid = true ↔ c.env.table.classify c.rootType ≠ .value := decide_eq_true_iff
  rw [hc.plan]
  simp only [Env.planOf, NavigationRecord.plan?, hv]
  rfl

section

variable {table : TypeTable} {chains : List ChainTyping} (hf : ∀ c ∈ chains, c.Fits) (ht : ∀ c ∈ chains, c.env.table = table)

include hf ht

/-- The plans of chains are the plans of their records. -/
theorem plansOfChains_eq : plansOfChains chains = recordPlans table (chains.map ChainTyping.record) := by
  unfold plansOfChains recordPlans
  rw [List.filterMap_map]
  refine List.filterMap_congr fun c hc => ?_
  rw [(hf c hc).plan_eq, ht c hc]
  rfl

/-- Each chain has its own plan when no two have the same guard. -/
theorem lookup_plansOfChains (hn : (chains.map (·.chain.guard)).Nodup) {c : ChainTyping} (hc : c ∈ chains) :
    (plansOfChains chains).reverse.lookup c.chain.guard = c.plan := by
  have hr : ((chains.map ChainTyping.record).map (·.guard)).Nodup := by
    rw [List.map_map]
    exact hn
  rw [plansOfChains_eq hf ht, TypeTable.lookup_reverse (hr.sublist guards_recordPlans), (hf c hc).plan_eq, ht c hc]
  exact lookup_recordPlans hr (List.mem_map_of_mem hc)

omit hf ht in
/-- There are plans by guards of chains only. -/
theorem lookup_plansOfChains_of_notMem {g : Span} (hg : g ∉ chains.map (·.chain.guard)) :
    (plansOfChains chains).reverse.lookup g = none := by
  rw [List.lookup_eq_none_iff]
  intro q hq
  obtain ⟨c, hc, hq⟩ := List.mem_filterMap.1 (List.mem_reverse.1 hq)
  obtain ⟨plan, -, rfl⟩ := Option.map_eq_some_iff.1 hq
  rw [bne_iff_ne]
  rintro rfl
  exact hg (List.mem_map_of_mem hc)

end

/-! ## Runs -/

/-- The plans of chains behind others come first. -/
theorem plansOfChains_append (chains more : List ChainTyping) :
    (plansOfChains (chains ++ more)).reverse = (plansOfChains more).reverse ++ (plansOfChains chains).reverse := by
  rw [plansOfChains, List.filterMap_append, List.reverse_append]
  rfl

namespace Typer

/-- What a typer tells of chains on its way from a state to another: their records, the findings about results without a type, and
the plans. -/
structure TellsChains (t : Typer) (chains : List ChainTyping) (u : Typer) : Prop where
  records : ∃ records, u.report.navigation = t.report.navigation ++ records ∧ List.Forall₂ ChainTyping.Settled chains records
  findings : u.report.diagnostics.filter (·.isUnknownResult) =
    t.report.diagnostics.filter (·.isUnknownResult) ++ chains.filterMap ChainTyping.finding?
  plans : u.plans = (plansOfChains chains).reverse ++ t.plans

section

variable {t u v : Typer} {chains more : List ChainTyping}

namespace TellsChains

/-- A typer that does nothing tells of no chains. -/
theorem refl (t : Typer) : TellsChains t [] t :=
  ⟨⟨[], (List.append_nil _).symm, .nil⟩, (List.append_nil _).symm, rfl⟩

/-- A typer tells of the chains of both ways, one after the other. -/
theorem trans (h : TellsChains t chains u) (h' : TellsChains u more v) : TellsChains t (chains ++ more) v := by
  obtain ⟨⟨rs, hr, hs⟩, hf, hp⟩ := h
  obtain ⟨⟨rs', hr', hs'⟩, hf', hp'⟩ := h'
  refine ⟨⟨rs ++ rs', ?_, List.rel_append hs hs'⟩, ?_, ?_⟩
  · rw [hr', hr, List.append_assoc]
  · rw [hf', hf, List.append_assoc, List.filterMap_append]
  · rw [hp', hp, plansOfChains_append, List.append_assoc]

/-- The environment of a typer does not matter. -/
theorem move (h : TellsChains t chains u) (env : Env) : TellsChains t chains { u with env } :=
  ⟨h.records, h.findings, h.plans⟩

/-- A part of typing that notes nothing about chains tells nothing. -/
theorem quiet {α : Type} (part : Env → Typed α) (h : TellsChains t chains u) (hq : Quiet (part u.env)) :
    TellsChains t chains (u.run part).2 := by
  have described : Described u.env [] (part u.env).notes := hq.described
  obtain ⟨none, hd⟩ := described
  obtain rfl : none = [] := List.map_eq_nil_iff.1 (List.sublist_nil.1 hd.tops)
  have found : unknownsOf (part u.env).notes = [] := hd.reported
  have kept : TellsChains u [] (u.run part).2 := by
    refine ⟨⟨[], ?_, .nil⟩, ?_, ?_⟩
    · show u.report.navigation ++ (recordsOf (part u.env).notes).map _ = _
      rw [hd.recordsOf_eq]
      rfl
    · show (u.report.diagnostics ++ findingsOf (part u.env).notes).filter _ = _
      rw [List.filter_append]
      exact congrArg _ found
    · show plansOf (part u.env).notes ++ u.plans = _
      rw [hd.plansOf_eq]
  have both := h.trans kept
  rwa [List.append_nil] at both

/-- Reporting a fault tells of no chains. -/
theorem fault (h : TellsChains t chains u) (fault : TypingFault) (span : Span) (hf : fault.isOfChain = false) :
    TellsChains t chains (u.fault fault span) :=
  h.quiet _ (quiet_report fault span hf)

/-- Closing a scope tells of no chains. -/
theorem popScope (h : TellsChains t chains u) : TellsChains t chains u.popScope := by
  unfold Typer.popScope
  split
  · exact h.move _
  · exact h

/-- What a local without a written type is taken to be tells of no chain. -/
theorem inferLocal (h : TellsChains t chains u) (name : String) (span : Span) (found : Ty) :
    TellsChains t chains (u.inferLocal name span found).2 := by
  unfold Typer.inferLocal
  split
  · exact h.fault _ _ rfl
  · split
    · exact h.fault _ _ rfl
    · exact h
  · exact h

end TellsChains

/-- Checking a complete expression tells of the chains that typing it notes, when their guards are new and different. -/
theorem tells_checked (hr : t.env.table.Rooted) {e : Expr} {expectation : Expectation}
    (hd : Describe t.env e.tops chains (rootType t.env e expectation).notes) (hn : e.guards.Nodup)
    (hp : ∀ g ∈ e.guards, t.plans.lookup g = none) : t.TellsChains chains (t.checked e expectation) := by
  have table : ∀ c ∈ chains, c.env.table = t.env.table := fun c hc => (hd.inside c hc).table
  have different : (topGuards e.tops).Nodup := e.perm_guards.nodup_iff.2 hn
  have recorded := t.navigation_checked e expectation fun hnav => by
    have none := hd.tops
    rw [e.tops_eq_nil hnav, List.sublist_nil, List.map_eq_nil_iff] at none
    rw [hd.recordsOf_eq, none]
    rfl
  refine ⟨⟨_, recorded, ?_⟩, ?_, ?_⟩
  · generalize hplans : plansOf (rootType t.env e expectation).notes ++ t.plans = plans
    rw [hd.recordsOf_eq, withLowered, List.forall₂_map_right_iff, List.forall₂_map_right_iff, List.forall₂_same]
    intro c hc
    have keeps := e.keeps_lower plans
    have top : c.top ∈ e.tops := hd.tops.subset (List.mem_map_of_mem hc)
    have guard : c.top.chainGuard? = some c.chain.guard := by rw [Expr.chainGuard?, (hd.fits c hc).chain]; rfl
    have own : plans.lookup c.chain.guard = c.plan := by
      have mine : c.chain.guard ∈ e.guards :=
        e.perm_guards.subset (hd.guards.subset (List.mem_map_of_mem (f := fun c => c.chain.guard) hc))
      rw [← hplans, hd.plansOf_eq, List.lookup_append, hp _ mine, Option.or_none,
        lookup_plansOfChains hd.fits table (different.sublist hd.guards) hc]
    cases hplan : c.plan with
    | none =>
      have lowered := keeps.frame ⟨0, []⟩ c.chain.guard fun _ _ _ => own.trans hplan
      refine ⟨rfl, ?_, fun f hf => ?_⟩
      · rw [hplan]
        exact congrArg Option.isSome lowered
      · cases lowered.symm.trans hf
    | some plan =>
      obtain ⟨l, hl, spelled⟩ := keeps.kept different ⟨0, []⟩ c.top top c.chain.guard guard (by rw [own, hplan]; rfl)
      refine ⟨rfl, ?_, fun f hf => ?_⟩
      · rw [hplan]
        exact congrArg Option.isSome hl
      · obtain rfl := Option.some.inj (hl.symm.trans hf)
        exact (hd.fits c hc).spells (table c hc ▸ hr) hplan (own.trans hplan) spelled
  · rw [diagnostics_checked, List.filter_append]
    exact congrArg _ hd.reported
  · rw [plans_checked, hd.plansOf_eq]

end

/-! ## Runs in which nothing is nullable twice -/

variable {t u : Typer} {rs : List RootTyping}

/-- What is typed of a complete expression is no type in which anything is nullable twice. -/
theorem once_rootType {env : Env} (h : env.All Ty.Once) (e : Expr) {expectation : Expectation} (hx : expectation.All Ty.Once) :
    (rootType env e expectation).value.Once := by
  cases expectation with
  | type expected => exact hx
  | value => exact (Ty.kept_once.presentValueOf (Ty.kept_once.typeSpine h .value trivial e (.inl .error))).always
  | discard => exact (Ty.kept_once.valueOf (Ty.kept_once.typeSpine h .value trivial e (.inl .error))).always

/-- The inferred type of a local is nullable at most once when the type of its value is. -/
theorem once_inferLocal (t : Typer) (name : String) (span : Span) {found : Ty} (h : found.Once) :
    (t.inferLocal name span found).1.Once := by
  unfold inferLocal
  split
  · exact .error
  · split
    · exact .error
    · exact h
  · exact h

/-- What is expected of the initializer of a local. -/
theorem once_localExpectation (env : Env) (type : Option TypeExpr) : (env.localExpectation type).All Ty.Once := by
  cases type with
  | none => trivial
  | some written => exact (Ty.kept_once.resolve env written).always

/-- A local keeps the types of an environment nullable at most once. -/
theorem once_checkLocal (h : t.env.All Ty.Once) (type : Option TypeExpr) (name : String) (span : Span) (init : Option Expr) :
    (t.checkLocal type name span init).env.All Ty.Once := by
  cases type with
  | some written =>
    have ht : (t.env.resolve written).value.Once := (Ty.kept_once.resolve t.env written).always
    cases init with
    | none => exact Env.All.declare h name ht
    | some e =>
      have he : (t.checkLocal (some written) name span (some e)).env = t.env.declare name (t.env.resolve written).value :=
        congrArg (Env.declare · name _) (env_checked (t.run fun env => env.resolve written).2 e _)
      rw [he]
      exact h.declare name ht
  | none =>
    cases init with
    | none => exact Env.All.declare h name .error
    | some e =>
      let found := (t.checked e .value).inferLocal name span (t.checkRoot e .value).1
      have he : (t.checkLocal none name span (some e)).env = t.env.declare name found.1 :=
        congrArg (Env.declare · name _) ((visits_inferLocal _ name span _).2.trans (env_checked t e .value))
      have ht : (t.checkRoot e .value).1.Once := by
        rw [type_checkRoot]
        exact once_rootType h e trivial
      rw [he]
      exact h.declare name (once_inferLocal _ name span ht)

/-- In a run from an environment on in whose types nothing is nullable twice, nothing is nullable twice anywhere. -/
theorem Runs.once (h : Runs Ty.Once t rs u) (ht : t.env.All Ty.Once) :
    u.env.All Ty.Once ∧ ∀ r ∈ rs, r.env.All Ty.Once ∧ r.expectation.All Ty.Once := by
  induction h with
  | refl => exact ⟨ht, List.forall_mem_nil _⟩
  | enter _ phase isStatic ih => exact ih.imp (·.enter phase isStatic) id
  | pushScope _ ih => exact ih.imp (·.enterScope (List.forall_mem_nil _)) id
  | popScope _ ih => exact ih.imp all_popScope id
  | declare _ name hd ih => exact ih.imp (·.declare name hd) id
  | fault _ _ _ _ ih => exact ih
  | @«local» v _ _ type name span init _ ih =>
    obtain ⟨hu, hrs⟩ := ih
    refine ⟨once_checkLocal hu type name span init, List.forall_mem_append.2 ⟨hrs, List.forall_mem_map.2 fun e _ => ?_⟩⟩
    exact ⟨hu, once_localExpectation v.env type⟩
  | @root v _ _ e _ hx ih =>
    obtain ⟨hu, hrs⟩ := ih
    exact ⟨(env_checked v e _).symm ▸ hu, List.forall_mem_append.2 ⟨hrs, List.forall_mem_singleton.2 ⟨hu, hx⟩⟩⟩

end Typer

/-! ## Runs that tell of chains -/

/-- Chains are those of a complete expression: they are what typing it notes of chains. -/
def RootTyping.Has (r : RootTyping) (chains : List ChainTyping) : Prop :=
  Describe r.env r.expr.tops chains r.typed.notes

/-- The guards in complete expressions. -/
def guardsOf (rs : List RootTyping) : List Span :=
  rs.flatMap (·.expr.guards)

/-- The guards of expressions one after the other are those of both. -/
theorem guardsOf_append (rs more : List RootTyping) : guardsOf (rs ++ more) = guardsOf rs ++ guardsOf more :=
  List.flatMap_append

/-- The guards of the chains in expressions are among the guards of the expressions. -/
theorem guards_of_has {rs : List RootTyping} {lists : List (List ChainTyping)} (h : List.Forall₂ RootTyping.Has rs lists) :
    ∀ g ∈ lists.flatten.map (·.chain.guard), g ∈ guardsOf rs := by
  induction h with
  | nil => exact List.forall_mem_nil _
  | @cons r chains rs lists hr _ ih =>
    rw [List.flatten_cons, List.map_append, List.forall_mem_append]
    exact ⟨fun g hg => List.mem_append_left _ (r.expr.perm_guards.subset (hr.guards.subset hg)),
      fun g hg => List.mem_append_right _ (ih g hg)⟩

namespace Typer

/-- A typer tells of the chains in complete expressions on its way from a state to another. -/
def TellsOf (t : Typer) (rs : List RootTyping) (u : Typer) : Prop :=
  ∃ lists, List.Forall₂ RootTyping.Has rs lists ∧ t.TellsChains lists.flatten u

namespace TellsOf

variable {t u v : Typer} {rs more : List RootTyping}

/-- A typer that tells of no chains tells of those in no expressions. -/
theorem none (h : t.TellsChains [] u) : t.TellsOf [] u :=
  ⟨[], .nil, h⟩

/-- A typer that tells of the chains in one expression tells of those in that expression. -/
theorem one {r : RootTyping} {chains : List ChainTyping} (hr : r.Has chains) (h : t.TellsChains chains u) : t.TellsOf [r] u := by
  refine ⟨[chains], .cons hr .nil, ?_⟩
  rwa [List.flatten_singleton]

/-- A typer tells of the chains in the expressions of both ways, one after the other. -/
theorem trans (h : t.TellsOf rs u) (h' : u.TellsOf more v) : t.TellsOf (rs ++ more) v := by
  obtain ⟨lists, has, told⟩ := h
  obtain ⟨lists', has', told'⟩ := h'
  refine ⟨lists ++ lists', List.rel_append has has', ?_⟩
  rw [List.flatten_append]
  exact told.trans told'

/-- What tells of no more chains can follow. -/
theorem behind (h : t.TellsOf rs u) (hs : ∀ {chains}, t.TellsChains chains u → t.TellsChains chains v) : t.TellsOf rs v :=
  h.imp fun _ h => ⟨h.1, hs h.2⟩

/-- The plans that come up are for guards of the expressions, so those for other guards stay. -/
theorem lookup_plans (h : t.TellsOf rs u) {g : Span} (hg : g ∉ guardsOf rs) : u.plans.lookup g = t.plans.lookup g := by
  obtain ⟨lists, has, told⟩ := h
  rw [told.plans, List.lookup_append, lookup_plansOfChains_of_notMem fun hm => hg (guards_of_has has g hm), Option.none_or]

end TellsOf

variable {t u : Typer} {rs : List RootTyping}

/-- The declaration of a local tells of the chains in its initializer. -/
theorem tells_checkLocal (h : t.env.All Ty.Once) (hr : t.env.table.Rooted) (type : Option TypeExpr) (name : String) (span : Span)
    {init : Option Expr} (hn : (init.toList.flatMap Expr.guards).Nodup)
    (hp : ∀ g ∈ init.toList.flatMap Expr.guards, t.plans.lookup g = none) :
    t.TellsOf (init.toList.map fun e => ⟨t.env, e, t.env.localExpectation type⟩) (t.checkLocal type name span init) := by
  have once := once_localExpectation t.env type
  have resolved : ∀ written : TypeExpr, t.TellsChains [] (t.run fun env => env.resolve written).2 :=
    fun written => (TellsChains.refl t).quiet _ (quiet_resolve t.env written)
  cases init with
  | none =>
    refine .none ?_
    cases type with
    | none => exact (TellsChains.refl t).move _
    | some written => exact (resolved written).move _
  | some e =>
    rw [Option.toList_some, List.flatMap_singleton] at hn hp
    cases type with
    | none =>
      obtain ⟨chains, has⟩ := RootTyping.described (r := ⟨t.env, e, .value⟩) h once
      exact .one has (((t.tells_checked hr has hn hp).inferLocal name span _).move _)
    | some written =>
      have plans : ∀ g ∈ e.guards, (t.run fun env => env.resolve written).2.plans.lookup g = none := by
        rw [(resolved written).plans]
        exact hp
      obtain ⟨chains, has⟩ := RootTyping.described (r := ⟨t.env, e, .type (t.env.resolve written).value⟩) h once
      have told := tells_checked (t := (t.run fun env => env.resolve written).2) hr has hn plans
      exact .one has (((resolved written).trans told).move _)

/-- A run tells of the chains in its complete expressions, when their guards are new and different. -/
theorem Runs.tells (h : Runs Ty.Once t rs u) (ht : t.env.All Ty.Once) (hr : t.env.table.Rooted) (hn : (guardsOf rs).Nodup)
    (hp : ∀ g ∈ guardsOf rs, t.plans.lookup g = none) : t.TellsOf rs u := by
  induction h with
  | refl => exact .none (.refl t)
  | enter _ _ _ ih => exact (ih hn hp).behind (·.move _)
  | pushScope _ ih => exact (ih hn hp).behind (·.move _)
  | popScope _ ih => exact (ih hn hp).behind (·.popScope)
  | declare _ _ _ ih => exact (ih hn hp).behind (·.move _)
  | fault _ _ _ hf ih => exact (ih hn hp).behind (·.fault _ _ hf)
  | @«local» v rs hv type name span init _ ih =>
    have hg : guardsOf (init.toList.map fun e => ⟨v.env, e, v.env.localExpectation type⟩) = init.toList.flatMap Expr.guards :=
      List.flatMap_map _ _ _
    rw [guardsOf_append, hg] at hn hp
    obtain ⟨hns, hni, hd⟩ := List.nodup_append.1 hn
    have told := ih hns fun g hm => hp g (List.mem_append_left _ hm)
    refine told.trans (tells_checkLocal (hv.once ht).1 (hv.owner.table ▸ hr) type name span hni fun g hm => ?_)
    rw [told.lookup_plans fun hm' => hd g hm' g hm rfl]
    exact hp g (List.mem_append_right _ hm)
  | @root v rs hv e expectation hx ih =>
    have hg : guardsOf [⟨v.env, e, expectation⟩] = e.guards := List.flatMap_singleton _ _
    rw [guardsOf_append, hg] at hn hp
    obtain ⟨hns, hne, hd⟩ := List.nodup_append.1 hn
    have told := ih hns fun g hm => hp g (List.mem_append_left _ hm)
    obtain ⟨chains, has⟩ := RootTyping.described (r := ⟨v.env, e, expectation⟩) (hv.once ht).1 hx
    refine told.trans (.one has (tells_checked (hv.owner.table ▸ hr) has hne fun g hm => ?_))
    rw [told.lookup_plans fun hm' => hd g hm' g hm rfl]
    exact hp g (List.mem_append_right _ hm)

end Typer

/-! ## Units -/

/-- What stands on the right of related lists has something on the left that it is related to. -/
theorem exists_left {α β : Type} {R : α → β → Prop} {as : List α} {bs : List β} (h : List.Forall₂ R as bs) :
    ∀ b ∈ bs, ∃ a ∈ as, R a b := by
  induction h with
  | nil => exact List.forall_mem_nil _
  | cons hr _ ih =>
    refine List.forall_mem_cons.2 ⟨⟨_, List.mem_cons_self, hr⟩, fun b hb => ?_⟩
    obtain ⟨a, ha, hr⟩ := ih b hb
    exact ⟨a, List.mem_cons_of_mem _ ha, hr⟩

namespace TypeDecl

variable {source : String} {file : Option Nat} {unit : SourceUnit} {d : TypeDecl}

/-- The run over a declaration, with types in which nothing is nullable twice. -/
theorem runs_once [Text.Hash] (h : SourceUnit.parse source file = .ok unit) (hd : d ∈ unit.types) {info : TypeInfo} {t : Typer}
    (ht : d.resolve.decl.typer? (TypeTable.build unit.resolve.unit).value = some (info, t)) :
    t.env.All Ty.Once ∧ ∃ typings t', t.Runs Ty.Once typings t' ∧
      d.resolve.decl.check (TypeTable.build unit.resolve.unit).value = t'.report ∧
        typings.map (·.expr) = d.resolve.decl.exprs := by
  obtain ⟨hn, hstart, -⟩ := d.visits_of_typer h hd ht
  have hw := d.wellFormed_members_resolve (SourceUnit.wellFormed_of_parse h d hd)
  have once := TypeTable.all_once_build unit.resolve.unit
  generalize (TypeTable.build unit.resolve.unit).value = table at *
  have hf : table.find? d.resolve.decl.name = some info := by
    unfold typer? at ht
    split at ht
    · split at ht <;> cases ht
      assumption
    · cases ht
  have hi := once _ info hf
  have base : ∀ b ∈ info.base, ∀ params ∈ Typer.baseConstructor? table b, ∀ s ∈ params, s.type.Once := by
    intro b hb params hp
    cases b with
    | named name args =>
      obtain ⟨found, hfound, rfl⟩ := Option.map_eq_some_iff.1 hp
      exact Ty.hereditary_once.constructorWith once hfound (Ty.hereditary_once.named.1 (hi.base _ hb))
    | _ => cases hp
  have declared : ∀ e, (t.env.resolveDeclared e).Once := by
    intro e
    unfold Env.resolveDeclared TypeTable.resolveOrError
    split
    · exact Ty.hereditary_once.resolve _ _ e ‹_›
    · exact .error
  have hl : info.constructor.length = d.params.length := by simpa using congrArg List.length hn
  obtain ⟨t', ⟨typings, hr, he⟩, hreport⟩ := checks_check (p := Ty.Once) ht hl (Ty.hereditary_once.simple _) .void hi.constructor
    base hw fun _ _ e _ => declared e
  refine ⟨?_, typings, t', hr, hreport, he.trans d.resolve.decl.exprs_eq.symm⟩
  rw [hstart]
  exact ⟨once, .named (List.forall_mem_map.2 fun _ _ => .param _ _), hi.constructor,
    List.forall_mem_singleton.2 (List.forall_mem_nil _)⟩

end TypeDecl

/-- What is told of each chain whose accesses come to a type, wherever it stands in an expression that is typed over the table of a
unit. There is a record for each, with the plan of the chain; the results can hold `null`, are not nullable twice, and are given as
they are by chains that give them. There is a finding for each chain whose category is not known, and for no other. A record has a
lowered form exactly when the chain has a plan, and the form spells the chain out: `null` in one branch and the accesses in the
other, both of the type of the result. The check of a declaration that was read tells so of all the chains in its code. -/
theorem SourceUnit.chains_hold_null [Text.Hash] :
    (∀ (u : SourceUnit) (t : Typer) (e : Expr) (expectation : Expectation), t.env.table = (TypeTable.build u).value →
      t.env.All Ty.Once → expectation.All Ty.Once → ∃ chains, RootTyping.Has ⟨t.env, e, expectation⟩ chains ∧
        (∀ c ∈ chains, c.Sound) ∧ (e.guards.Nodup → (∀ g ∈ e.guards, t.plans.lookup g = none) →
          t.TellsChains chains (t.checked e expectation))) ∧
    ∀ {source : String} {file : Option Nat} {unit : SourceUnit}, SourceUnit.parse source file = .ok unit → ∀ d ∈ unit.types,
      ∀ {info : TypeInfo} {t : Typer}, d.resolve.decl.typer? (TypeTable.build unit.resolve.unit).value = some (info, t) →
        ∃ typings lists t', t.Runs Ty.Once typings t' ∧
          typings.map (·.expr) = d.resolve.decl.exprs ∧ List.Forall₂ RootTyping.Has typings lists ∧
            (∀ c ∈ lists.flatten, c.env.table = (TypeTable.build unit.resolve.unit).value ∧ c.Fits ∧ c.Sound) ∧
              d.resolve.decl.check (TypeTable.build unit.resolve.unit).value = t'.report ∧
                List.Forall₂ ChainTyping.Settled lists.flatten t'.report.navigation ∧
                  t'.report.diagnostics.filter (·.isUnknownResult) = lists.flatten.filterMap ChainTyping.finding? ∧
                    t'.plans = (plansOfChains lists.flatten).reverse := by
  constructor
  · intro u t e expectation htable once hx
    have rooted : t.env.table.Rooted := htable ▸ TypeTable.rooted_build u
    obtain ⟨chains, has⟩ := RootTyping.described (r := ⟨t.env, e, expectation⟩) once hx
    exact ⟨chains, has, fun c hc => (has.fits c hc).sound, t.tells_checked rooted has⟩
  · intro source file unit h d hd info t ht
    obtain ⟨once, typings, t', hr, hreport, he⟩ := TypeDecl.runs_once h hd ht
    have hstart := (d.visits_of_typer h hd ht).2.1
    have htable : t.env.table = (TypeTable.build unit.resolve.unit).value := by
      rw [hstart]
      rfl
    have rooted : t.env.table.Rooted := htable ▸ TypeTable.rooted_build unit.resolve.unit
    have guards : guardsOf typings = d.exprs.flatMap Expr.guards := by
      rw [← d.siteGuards_resolve, Typer.siteGuards, ← List.flatMap_map (f := Site.expr) (g := Expr.guards), ← TypeDecl.exprs_eq,
        ← he, List.flatMap_map]
      rfl
    have different : (guardsOf typings).Nodup := by
      have hn := nodup_nodeGuards h
      rw [List.flatMap_assoc] at hn
      exact guards ▸ (List.nodup_flatMap.1 hn).1 d hd
    have fresh : t.plans = [] ∧ t.report = .empty := by
      rw [hstart]
      exact ⟨rfl, rfl⟩
    obtain ⟨lists, has, ⟨⟨records, hn, settled⟩, found, plans⟩⟩ := hr.tells once rooted different fun _ _ => by rw [fresh.1]; rfl
    rw [fresh.2] at hn found
    rw [fresh.1, List.append_nil] at plans
    refine ⟨typings, lists, t', hr, he, has, fun c hc => ?_, hreport, hn ▸ settled, found, plans⟩
    obtain ⟨chains, hm, hc⟩ := List.mem_flatten.1 hc
    obtain ⟨r, hmr, described⟩ := exists_left has chains hm
    have fits := described.fits c hc
    exact ⟨(described.inside c hc).table.trans ((hr.owners r hmr).table.trans htable), fits, fits.sound⟩

/-- The length of a text that may be missing is a number that may be missing: of a local over the table without declarations, and
of a parameter of a method that was read. -/
theorem chains_hold_null_length :
    (∃ (t : Typer) (e : Expr), t.env.All Ty.Once ∧ e.guards.Nodup ∧
      ∃ r ∈ (t.checked e .value).report.navigation, r.result.type = .nullable .int ∧
        ∃ c : ChainTyping, c.Settled r ∧ c.Sound ∧ c.plan.isSome = true) ∧
    ∃ unit, SourceUnit.parse "class A { void F(string s) { var n = s?.Length; } }" none = .ok unit ∧ ∃ d ∈ unit.types,
      ∃ r ∈ (d.resolve.decl.check (TypeTable.build unit.resolve.unit).value).navigation, r.result.type = .nullable .int ∧
        ∃ c : ChainTyping, c.Settled r ∧ c.Sound ∧ c.plan.isSome = true := by
  constructor
  · let start := Typer.start (TypeTable.build ⟨[]⟩).value .object [] []
    let t := start.declare "s" .string
    let e : Expr := .access (.name "s" ⟨none, 0, 1⟩) (.member (.plain "Length") ⟨none, 3, 9⟩) true ⟨none, 0, 9⟩
    have started : start.env.All Ty.Once :=
      ⟨TypeTable.all_once_build ⟨[]⟩, Ty.hereditary_once.simple "object", List.forall_mem_nil _,
        List.forall_mem_singleton.2 (List.forall_mem_nil _)⟩
    have once : t.env.All Ty.Once := started.declare "s" (Ty.hereditary_once.simple _)
    have different : e.guards.Nodup := by decide
    have evaluated : ∃ r ∈ (t.checked e .value).report.navigation, r.result.type = .nullable .int ∧ r.lowered.isSome = true := by
      decide +kernel
    obtain ⟨r, hr, hi, hl⟩ := evaluated
    obtain ⟨chains, -, sound, told⟩ := SourceUnit.chains_hold_null.1 ⟨[]⟩ t e .value rfl once trivial
    obtain ⟨records, hn, settled⟩ := (told different fun _ _ => rfl).records
    have hm : r ∈ records := by rwa [hn] at hr
    obtain ⟨c, hc, hcr⟩ := exists_left settled r hm
    exact ⟨t, e, once, different, r, hr, hi, c, hcr, sound c hc, hcr.lowered ▸ hl⟩
  · have evaluated : ∃ unit, SourceUnit.parse "class A { void F(string s) { var n = s?.Length; } }" none = .ok unit ∧
        ∃ d ∈ unit.types, (d.resolve.decl.typer? (TypeTable.build unit.resolve.unit).value).isSome = true ∧
          ∃ r ∈ (d.resolve.decl.check (TypeTable.build unit.resolve.unit).value).navigation,
            r.result.type = .nullable .int ∧ r.lowered.isSome = true := by
      decide +kernel
    obtain ⟨unit, h, d, hd, hs, r, hr, hi, hl⟩ := evaluated
    obtain ⟨⟨info, t⟩, ht⟩ := Option.isSome_iff_exists.1 hs
    obtain ⟨_, lists, t', -, -, -, sound, hreport, settled, -, -⟩ := SourceUnit.chains_hold_null.2 h d hd ht
    obtain ⟨c, hc, hcr⟩ := exists_left settled r (hreport ▸ hr)
    exact ⟨unit, h, d, hd, r, hr, hi, c, hcr, (sound c hc).2.2, hcr.lowered ▸ hl⟩

end NavCheck
