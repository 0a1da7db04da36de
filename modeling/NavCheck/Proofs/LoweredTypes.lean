import NavCheck.Proofs.KeptChains
import NavCheck.Proofs.TypedChains

/-!
# Types of lowered chains

A lowered chain tests a temporary and gives `null` in one branch and the accesses, put onto the temporary, in the other. Lowering
knows nothing of types but the plan of the chain. The types of lowered expressions are told by rules of their own, so that it can
be said that both branches have the type that typing found for the chain.
-/

namespace NavCheck

/-! ## Rules -/

/-- What a lowered expression yields when temporaries have types: a value, or a method that is not yet invoked. The operands of
accesses do not matter but for their number, and a text as the only index may take the indexer for texts. Only what may be missing
has a `null`, or what yields nothing. -/
inductive Lowered.Yields (table : TypeTable) (temps : List (Nat × Ty)) : Lowered → Operand → Prop
  | temp {index : Nat} {type : Ty} (h : temps.lookup index = some type) : Yields table temps (.temp index) (.value type)
  | null {type : Ty} (h : type = .void ∨ table.acceptsNull type = true) : Yields table temps (.null type) (.value type)
  | unwrap {l : Lowered} {inner : Ty} (h : Yields table temps l (.value (.nullable inner))) :
      Yields table temps (.unwrap l) (.value inner)
  | wrap {l : Lowered} {type : Ty} (h : Yields table temps l (.value type)) (hv : table.classify type = .value) :
      Yields table temps (.wrap type.orNull l) (.value type.orNull)
  | member {base : Lowered} {type : Ty} {name : String} {m : MemberSig} (h : Yields table temps base (.value type))
      (hm : table.member? type (.plain name) = some m) : Yields table temps (.member base name) (.ofMember m)
  | key {base : Lowered} {type : Ty} {name : String} {span : Span} {m : MemberSig} (h : Yields table temps base (.value type))
      (hm : table.member? type (.keyed name) = some m) :
      Yields table temps (.element base [.source (.literal (.str name) span)]) (.ofMember m)
  | element {base : Lowered} {type : Ty} {indices : List Lowered} {i : IndexerSig} (h : Yields table temps base (.value type))
      (hi : table.indexer? type indices.length = some i) : Yields table temps (.element base indices) (.value i.type)
  | invoke {callee : Lowered} {operand : Operand} {args : List Lowered} {span : Span} {c : Callee}
      (h : Yields table temps callee operand) (hc : (operand.callee span).value = some c) :
      Yields table temps (.invoke callee args) (.value c.result)

/-! ## Accesses -/

/-- How many operands a link has. -/
def Link.operandCount : Link → Nat
  | .member _ _ => 0
  | .element indices => indices.length
  | .invoke args => args.length

theorem length_lowerList (plans : ChainPlans) :
    ∀ (es : List Expr) (s : LowerState), ((lowerList plans es).run s).1.length = es.length
  | [], _ => rfl
  | _ :: es, _ => congrArg Nat.succ (length_lowerList plans es _)

theorem Link.length_lowerOperands (plans : ChainPlans) (s : LowerState) (link : Link) :
    ((link.lowerOperands plans).run s).1.length = link.operandCount := by
  cases link with
  | member name nameSpan => rfl
  | element indices => exact length_lowerList plans indices s
  | invoke args => exact length_lowerList plans args s

/-- Nothing comes of an access to the error type. -/
theorem Link.typeOnto_error (env : Env) (span : Span) (link : Link) :
    (link.typeOnto env (.value .error) span).value = .value .error := by
  cases link with
  | member name nameSpan =>
    rw [Link.typeOnto]
    simp [Operand.type, Env.memberOf]
  | element indices =>
    rw [Link.typeOnto]
    simp [Operand.type, Env.indexerOf]
  | invoke args =>
    rw [Link.typeOnto]
    simp [Operand.callee]

section

variable {env : Env} {operand : Operand} {temps : List (Nat × Ty)} {base : Lowered} {span : Span}

/-- An operand that is a value other than the error type. -/
theorem Operand.eq_value {type : Ty} (h : (operand.type span).value = type) (hne : type ≠ .error) : operand = .value type := by
  cases operand with
  | value found =>
    obtain rfl : found = type := h
    rfl
  | method => exact absurd h.symm hne

/-- A link that is put onto what yields an operand yields what the access comes to, if it comes to anything. -/
theorem Lowered.Yields.put (h : Yields env.table temps base operand) {link : Link} {operands : List Lowered}
    (hl : operands.length = link.operandCount) (hne : (link.typeOnto env operand span).value ≠ .value .error) :
    Yields env.table temps (link.put operands base) (link.typeOnto env operand span).value := by
  cases link with
  | member name nameSpan =>
    rw [Link.typeOnto, Noted.value_bind] at hne ⊢
    generalize ht : (operand.type nameSpan).value = type at hne ⊢
    unfold Env.memberOf at hne ⊢
    by_cases he : type = .error
    · rw [if_pos he] at hne
      exact absurd rfl hne
    rw [if_neg he] at hne ⊢
    obtain rfl := Operand.eq_value ht he
    cases hm : env.table.member? type name with
    | none =>
      rw [hm] at hne
      cases name <;> exact absurd rfl hne
    | some m =>
      cases name with
      | plain name => exact .member h hm
      | keyed name => exact .key h hm
  | element indices =>
    rw [Link.typeOnto, Noted.value_bind] at hne ⊢
    generalize ht : (operand.type span).value = type at hne ⊢
    rw [Noted.value_bind] at hne ⊢
    unfold Env.indexerOf at hne ⊢
    by_cases he : type = .error
    · rw [if_pos he] at hne
      exact absurd rfl hne
    rw [if_neg he] at hne ⊢
    obtain rfl := Operand.eq_value ht he
    cases hi : env.table.indexer? type indices.length with
    | none =>
      rw [hi] at hne
      exact absurd rfl hne
    | some i => exact .element h (hl ▸ hi)
  | invoke args =>
    rw [Link.typeOnto, Noted.value_bind] at hne ⊢
    cases hc : (operand.callee span).value with
    | none =>
      rw [hc] at hne
      exact absurd rfl hne
    | some c => exact .invoke h hc

end

/-! ## Chains -/

/-- A chain without accesses yields its root, taken out of its nullable form if it has one. -/
theorem TypedChain.yields_begin {table : TypeTable} {temps : List (Nat × Ty)} {temp : Nat} {root : Ty} {guard : Span}
    (ht : temps.lookup temp = some root) :
    Lowered.Yields table temps (if (begin table root guard).unwraps then .unwrap (.temp temp) else .temp temp)
      (begin table root guard).operand := by
  unfold begin
  by_cases hc : table.classify root = .nullableValue
  · cases root with
    | nullable inner =>
      simp only [hc, decide_true, Ty.inner?, Option.isSome_some, Bool.and_self, if_true, Option.getD_some]
      exact .unwrap (.temp ht)
    | named | array | param | delegate | null | void | error =>
      simp only [Ty.inner?, Option.isSome_none, Bool.and_false, Option.getD_none, ite_self]
      exact .temp ht
  · simp only [hc, decide_false, Bool.false_and, if_false]
    exact .temp ht

/-- A row of accesses that ends a chain with a plan is lowered to the accesses of the chain put onto a temporary. They yield what
typing the chain comes to, if that is no error and the plan unwraps what typing unwraps. -/
theorem Expr.lowerSpine_of_chain? (plans : ChainPlans) {plan : ChainPlan} :
    ∀ (e : Expr) (chain : Chain), e.chain? = some chain → plans.lookup chain.guard = some plan → ∀ s : LowerState,
      ∃ c : OpenChain, ((e.lowerSpine plans).run s).1 = .chain c ∧ c.plan = plan ∧
        ∀ env : Env, plan.unwraps = (chain.begin env).unwraps → (chain.typed env).operand ≠ .value .error →
          Lowered.Yields env.table [(c.temp, (chain.root.type env).value)] c.access (chain.typed env).operand
  | .access base link true span, chain, hc, hp, s => by
    cases hc
    let root := (base.lower plans).run s
    let temp := root.2.next
    let operands := (link.lowerOperands plans).run { root.2 with next := temp + 1 }
    let start : Lowered := if plan.unwraps then .unwrap (.temp temp) else .temp temp
    refine ⟨⟨plan, guardSpan base span, temp, root.1, link.put operands.1 start⟩, ?_, rfl, fun env hu hne => ?_⟩
    · rw [Expr.lowerSpine, hp]
      rfl
    · have started : Lowered.Yields env.table [(temp, (base.type env).value)] start
          (TypedChain.begin env.table (base.type env).value (guardSpan base span)).operand := by
        dsimp only [start]
        rw [hu]
        exact TypedChain.yields_begin List.lookup_cons_self
      exact started.put (link.length_lowerOperands plans _) hne
  | .access base link false span, chain, hc, hp, s => by
    obtain ⟨inner, hi, rfl⟩ := Option.map_eq_some_iff.1 hc
    obtain ⟨c, hs, hcp, ih⟩ := base.lowerSpine_of_chain? plans inner hi hp s
    rw [Expr.lowerSpine, if_pos (Expr.hasNavigation_of_chain? hi)]
    refine ⟨{ c with access := link.put ((link.lowerOperands plans).run ((base.lowerSpine plans).run s).2).1 c.access },
      ?_, hcp, fun env hu hne => ?_⟩
    · exact congrArg (LoweredSpine.onto (link.put ((link.lowerOperands plans).run ((base.lowerSpine plans).run s).2).1)) hs
    · rw [inner.typed_access env ⟨link, false, span⟩] at hne ⊢
      have before : (inner.typed env).operand ≠ .value .error := by
        intro he
        rw [he, link.typeOnto_error] at hne
        exact hne rfl
      exact (ih env hu before).put (link.length_lowerOperands plans _) hne

namespace ChainTyping

variable {c : ChainTyping}

/-- A chain spelled out: the root is bound and tested, and of the two branches, `null` and the accesses, each yields a value of the
type that the chain gives. -/
def Spells (c : ChainTyping) (f : Lowered) : Prop :=
  ∃ temp root access, f = .bind temp root (.conditional (.isNull (.temp temp)) (.null c.result.type) access) ∧
    ∀ branch ∈ [.null c.result.type, access], branch.Yields c.env.table [(temp, c.rootType)] (.value c.result.type)

/-- A chain has a plan when its root may be missing and its result has a type. -/
theorem Fits.plan_eq_some_iff (hc : c.Fits) {plan : ChainPlan} :
    c.plan = some plan ↔ (c.env.table.classify c.rootType ≠ .value ∧ c.result ≠ .error) ∧
      plan = ⟨(c.chain.begin c.env).unwraps, c.result.lift?, c.result.type⟩ := by
  have hv : (c.chain.typed c.env).valid = true ↔ c.env.table.classify c.rootType ≠ .value := decide_eq_true_iff
  rw [hc.plan, Env.planOf, ← hv]
  split
  · rename_i h
    exact ⟨fun hp => ⟨h, (Option.some.inj hp).symm⟩, fun hp => congrArg some hp.2.symm⟩
  · rename_i h
    exact iff_of_false (Option.some_ne_none _).symm fun hp => h hp.1

/-- The accesses of a chain come to a value of the type of its links. -/
theorem Fits.operand_eq (hc : c.Fits) : (c.chain.typed c.env).operand = .value c.linkType :=
  Operand.eq_value rfl hc.linkType

/-- What lowering makes of a chain with a plan spells it out. -/
theorem Fits.spells (hc : c.Fits) (hr : c.env.table.Rooted) {plan : ChainPlan} (hp : c.plan = some plan) {plans : ChainPlans}
    (hl : plans.lookup c.chain.guard = some plan) {f : Lowered} (hf : c.top.LowersTo plans f) : c.Spells f := by
  obtain ⟨⟨-, he⟩, rfl⟩ := hc.plan_eq_some_iff.1 hp
  obtain ⟨s, rfl, -⟩ := hf
  obtain ⟨o, hs, ho, typed⟩ := c.top.lowerSpine_of_chain? plans c.chain hc.chain hl s
  have access := typed c.env rfl (by rw [hc.operand_eq]; exact fun h => hc.linkType (Operand.value.inj h))
  rw [hc.operand_eq] at access
  have lowered : ((c.top.lower plans).run s).1 = o.lowered := by
    rw [Expr.lower, Lowering.settle, if_pos (Expr.hasNavigation_of_chain? hc.chain)]
    exact congrArg (fun row => ((LoweredSpine.close c.top row).run ((c.top.lowerSpine plans).run s).2).1) hs
  have missing : c.result.type = .void ∨ c.env.table.acceptsNull c.result.type = true := by
    by_cases hv : c.result = .void
    · exact .inl (by rw [hv]; rfl)
    · exact .inr (TypeTable.acceptsNull_chainResult he hv)
  refine ⟨o.temp, o.value, _, lowered.trans (by rw [OpenChain.lowered, ho]), List.forall_mem_cons.2 ⟨.null missing, ?_⟩⟩
  refine List.forall_mem_singleton.2 ?_
  unfold result TypeTable.chainResult at he ⊢
  cases hk : c.env.table.classify c.linkType with
  | reference => exact access
  | value => exact .wrap access hk
  | nullableValue => exact access
  | void =>
    rw [hr.eq_void hk] at access
    exact access
  | unknown =>
    rw [hk] at he
    exact absurd rfl he

end ChainTyping

end NavCheck
