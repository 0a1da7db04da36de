import NavCheck.Proofs.Evaluation
import NavCheck.Proofs.KeptSource

/-!
# Lowering keeps the meaning

`eval_lowerRoot`: an expression and its lowered form are the same computation, whatever the operations on values do and
whichever chains have plans. The carrying statement is `Follows`: what lowering has made of a row of accesses, closed or not,
computes the row. Targets of assignments must be free of null-conditional accesses: a place cannot be read off a binding. With a
plan for every chain the lowered form does all of this itself, and leaves no null-conditional access to what it keeps as source.
-/

namespace NavCheck

/-! ## Targets of assignments -/

/-- No target of an assignment among the nodes has a null-conditional access. -/
def PlainTargets (nodes : List Expr) : Prop :=
  ∀ target value span, Expr.assign target value span ∈ nodes → target.hasNavigation = false

/-- No target of an assignment in an expression has a null-conditional access. -/
def Expr.HasPlainTargets (e : Expr) : Prop :=
  PlainTargets e.nodes

@[simp] theorem plainTargets_nil : PlainTargets [] := by
  intro target value span h
  simp at h

@[simp] theorem plainTargets_append (a b : List Expr) : PlainTargets (a ++ b) ↔ PlainTargets a ∧ PlainTargets b := by
  simp only [PlainTargets, List.mem_append]
  exact ⟨fun h => ⟨fun t v s hm => h t v s (.inl hm), fun t v s hm => h t v s (.inr hm)⟩,
    fun h t v s hm => hm.elim (h.1 t v s) (h.2 t v s)⟩

/-- Only an assignment adds a target. -/
theorem PlainTargets.tail {e : Expr} {nodes : List Expr} (h : PlainTargets (e :: nodes)) : PlainTargets nodes :=
  fun t v s hm => h t v s (List.mem_cons_of_mem e hm)

/-- The target of the first node. -/
theorem PlainTargets.target {target value : Expr} {span : Span} {nodes : List Expr}
    (h : PlainTargets (.assign target value span :: nodes)) : target.hasNavigation = false :=
  h target value span List.mem_cons_self

/-! ## Rows without a guard -/

section

variable {m : Type → Type} {O : Type} [Monad m] [LawfulMonad m] (I : Interpretation m O)

/-- The value of a row that is a value. -/
@[simp] theorem rowValue_some (x : m (Value O)) : rowValue (some <$> x) = x := by
  simp [rowValue]

/-- A row without a guard is never cut short. -/
theorem Expr.evalRow_of_not_onChain (e : Expr) (h : e.onChain = false) : e.evalRow I = some <$> e.eval I := by
  match e with
  | .access base link true span => simp [Expr.onChain] at h
  | .access base link false span =>
    have hb := base.evalRow_of_not_onChain (by simpa [Expr.onChain] using h)
    rw [Expr.eval, Expr.evalRow, hb]
    simp [rowValue]
  | .conditional condition thenBranch elseBranch span =>
    simp only [Expr.eval, Expr.evalRow, rowValue, map_bind, Functor.map_map]
    refine bind_congr fun c => bind_congr fun b => ?_
    cases b <;> simp
  | .literal .. | .name .. | .self .. | .unary .. | .binary .. | .assign .. | .lambda .. | .paren .. | .create .. =>
    simp [Expr.eval, Expr.evalRow, rowValue]

/-- The access of each link in turn to a value. -/
def evalLinks (links : List ChainLink) (v : Value O) : m (Value O) :=
  links.foldlM (fun v l => l.link.evalOnto I v) v

/-- A row that ends a chain: its root is evaluated, and unless that is `null` the links are applied in order. -/
theorem Expr.evalRow_of_chain? (e : Expr) (c : Chain) (h : e.chain? = some c) :
    e.evalRow I = (do
      let root ← c.root.eval I
      if root.isNull then return none
      some <$> evalLinks I c.links root) := by
  match e with
  | .access base link true span =>
    obtain rfl : c = ⟨base, [⟨link, true, span⟩], guardSpan base span⟩ := by simpa [Expr.chain?] using h.symm
    simp [Expr.evalRow, Expr.eval, evalLinks]
  | .access base link false span =>
    simp only [Expr.chain?, Option.map_eq_some_iff] at h
    obtain ⟨inner, hi, rfl⟩ := h
    simp only [Expr.evalRow, base.evalRow_of_chain? inner hi, bind_assoc]
    refine bind_congr fun root => ?_
    cases root.isNull <;> simp [evalLinks]
  | .literal .. | .name .. | .self .. | .unary .. | .binary .. | .conditional .. | .assign .. | .lambda .. | .paren ..
  | .create .. => simp [Expr.chain?] at h

/-- The value of a chain: the root is evaluated once, and when it is `null` so is the chain, without any link evaluated. -/
theorem Expr.eval_of_chain? (e : Expr) (c : Chain) (h : e.chain? = some c) :
    e.eval I = (do
      let root ← c.root.eval I
      if root.isNull then return .null
      evalLinks I c.links root) := by
  rw [Expr.eval, e.evalRow_of_chain? I c h, rowValue, map_bind]
  refine bind_congr fun root => ?_
  cases root.isNull <;> simp

/-! ## What lowered expressions compute -/

/-- A lowered expression is a computation, whatever the temporaries outside are. -/
def Lowered.Computes (l : Lowered) (x : m (Value O)) : Prop :=
  ∀ temps, l.eval I temps = x

/-- Lowered expressions are a computation of several values, whatever the temporaries outside are. -/
def Lowered.ComputeAll (ls : List Lowered) (x : m (List (Value O))) : Prop :=
  ∀ temps, Lowered.evalList I temps ls = x

/-- What lowering has made of a row of accesses computes the row. A chain that is still going on computes it as soon as the
value of the root is bound to its temporary; a row that is kept as source will be evaluated as it is. -/
def LoweredSpine.Follows (row : m (Option (Value O))) : LoweredSpine → Prop
  | .whole l => ∀ temps, some <$> l.eval I temps = row
  | .chain c => ∀ temps, row = do
      let root ← c.value.eval I temps
      if root.isNull then return none
      some <$> c.access.eval I (Function.update temps c.temp root)
  | .kept => True

/-- A chain spelled out computes the value of its row. -/
theorem OpenChain.lowered_computes {c : OpenChain} {row : m (Option (Value O))}
    (h : LoweredSpine.Follows I row (.chain c)) : c.lowered.Computes I (rowValue row) := by
  intro temps
  rw [h temps, OpenChain.lowered, Lowered.eval, rowValue, map_bind]
  refine bind_congr fun root => ?_
  simp only [Lowered.eval, pure_bind, Function.update_self]
  cases hn : root.isNull
  · -- Lifting the result keeps its value.
    cases c.plan.wrap <;> simp [Value.bool, Interpretation.test, Lowered.eval]
  · simp [Value.bool, Interpretation.test]

/-- A row that is closed computes the value of the expression it ends in. -/
theorem LoweredSpine.close_computes {top : Expr} {spine : LoweredSpine} (h : spine.Follows I (top.evalRow I)) :
    (spine.close top).Gives (Lowered.Computes I · (top.eval I)) := by
  cases spine with
  | whole l =>
    refine Lowering.gives_pure fun temps => ?_
    rw [Expr.eval, ← h temps, rowValue_some]
  | chain c => exact .after fun _ => Lowering.gives_pure (OpenChain.lowered_computes I h)
  | kept => exact Lowering.gives_pure fun temps => rfl

/-- Settling a row gives a computation of the whole expression. -/
theorem Lowering.settle_computes {e : Expr} {spine : Lowering LoweredSpine} (h : spine.Gives (·.Follows I (e.evalRow I))) :
    (Lowering.settle e spine).Gives (Lowered.Computes I · (e.eval I)) := by
  unfold Lowering.settle
  split
  · exact h.bind fun _ hs => LoweredSpine.close_computes I hs
  · exact Lowering.gives_pure fun temps => rfl

/-- A link put onto a base, with its operands lowered, evaluates the access to the value of the base. -/
theorem Link.eval_put {link : Link} {operands : List Lowered} (h : Lowered.ComputeAll I operands (evalList I link.operands))
    (base : Lowered) (temps : Nat → Value O) :
    (link.put operands base).eval I temps = (do link.evalOnto I (← base.eval I temps)) := by
  match link with
  | .member (.plain name) span => rfl
  | .member (.keyed name) span =>
    simp [Link.put, Lowered.eval, Lowered.evalList, Expr.eval, Expr.evalRow, rowValue, Link.evalOnto,
      Interpretation.memberOf, Value.text]
  | .element indices => simp only [Link.put, Lowered.eval, h temps, Link.evalOnto, Link.operands]
  | .invoke args => simp only [Link.put, Lowered.eval, h temps, Link.evalOnto, Link.operands]

/-- An access put onto a row goes on with the row. -/
theorem LoweredSpine.onto_follows {spine : LoweredSpine} {base : Expr} {link : Link} {operands : List Lowered} (span : Span)
    (hs : spine.Follows I (base.evalRow I)) (ho : Lowered.ComputeAll I operands (evalList I link.operands)) :
    (spine.onto (link.put operands)).Follows I ((Expr.access base link false span).evalRow I) := by
  cases spine with
  | whole l =>
    intro temps
    simp only [Expr.evalRow, ← hs temps, link.eval_put I ho, map_bind, bind_map_left]
  | chain c =>
    intro temps
    simp only [Expr.evalRow, hs temps, bind_assoc, link.eval_put I ho]
    refine bind_congr fun root => ?_
    cases root.isNull <;> simp
  | kept => trivial

/-- Places of targets without null-conditional accesses are evaluated as they are. -/
theorem Lowering.settle_target {e : Expr} (spine : Lowering LoweredSpine) (h : e.hasNavigation = false) :
    (Lowering.settle e spine).Gives (· = .source e) := by
  simp only [Lowering.settle, h]
  exact Lowering.gives_pure rfl

set_option linter.unusedSectionVars false in
mutual

/-- What lowering makes of a row of accesses computes the row. -/
theorem Expr.lowerSpine_follows (plans : ChainPlans) :
    ∀ e : Expr, e.HasPlainTargets → (e.lowerSpine plans).Gives (·.Follows I (e.evalRow I))
  | .literal value span, _ => Lowering.gives_pure fun temps => by
      simp [Lowered.eval, Expr.eval, Expr.evalRow, rowValue]
  | .name text span, _ => Lowering.gives_pure fun temps => by
      simp [Lowered.eval, Expr.eval, Expr.evalRow]
  | .self span, _ => Lowering.gives_pure fun temps => by
      simp [Lowered.eval, Expr.eval, Expr.evalRow]
  | .unary op operand span, h => by
    have ih := Lowering.settle_computes I (operand.lowerSpine_follows plans h.tail)
    refine ih.bind fun l hl => Lowering.gives_pure fun temps => ?_
    simp [Lowered.eval, Expr.evalRow, hl temps, Expr.eval]
  | .binary op left right span, h => by
    have ht := (plainTargets_append _ _).1 h.tail
    refine (Lowering.settle_computes I (left.lowerSpine_follows plans ht.1)).bind fun l hl => ?_
    refine (Lowering.settle_computes I (right.lowerSpine_follows plans ht.2)).bind fun r hr => ?_
    refine Lowering.gives_pure fun temps => ?_
    simp [Lowered.eval, Expr.evalRow, hl temps, hr temps, Expr.eval]
  | .conditional condition thenBranch elseBranch span, h => by
    have ht := (plainTargets_append _ _).1 h.tail
    have hc := (plainTargets_append _ _).1 ht.1
    refine (Lowering.settle_computes I (condition.lowerSpine_follows plans hc.1)).bind fun c hl => ?_
    refine (Lowering.settle_computes I (thenBranch.lowerSpine_follows plans hc.2)).bind fun t htn => ?_
    refine (Lowering.settle_computes I (elseBranch.lowerSpine_follows plans ht.2)).bind fun f hf => ?_
    refine Lowering.gives_pure fun temps => ?_
    simp only [Lowered.eval, Expr.evalRow, hl temps, htn temps, hf temps, Expr.eval, map_bind]
    refine bind_congr fun v => bind_congr fun b => ?_
    cases b <;> rfl
  | .assign target value span, h => by
    have ht := (plainTargets_append _ _).1 h.tail
    refine (Lowering.settle_target (target.lowerSpine plans) h.target).bind fun t hl => ?_
    refine (Lowering.settle_computes I (value.lowerSpine_follows plans ht.2)).bind fun v hv => ?_
    refine Lowering.gives_pure fun temps => ?_
    subst hl
    simp [Lowered.eval, Lowered.evalPlace, Expr.evalRow, hv temps, Expr.eval]
  | .lambda params body span, _ => .after fun _ => Lowering.gives_pure fun temps => by
      simp [Lowered.eval, Expr.eval, Expr.evalRow]
  | .paren inner span, h => by
    refine (Lowering.settle_computes I (inner.lowerSpine_follows plans h.tail)).bind fun l hl => ?_
    refine Lowering.gives_pure fun temps => ?_
    simp [Expr.evalRow, hl temps, Expr.eval]
  | .access base link true span, h => by
    have ht := (plainTargets_append _ _).1 h.tail
    refine (Lowering.settle_computes I (base.lowerSpine_follows plans ht.1)).bind fun value hv => ?_
    cases plans.lookup (guardSpan base span) with
    | none => exact .after fun _ => Lowering.gives_pure trivial
    | some plan =>
      refine .after fun temp => ?_
      refine (Link.lowerOperands_compute plans link ht.2).bind fun operands ho => ?_
      refine Lowering.gives_pure fun temps => ?_
      -- The temporary stands for the root whether it is taken out of a nullable form or not.
      have hs : ∀ v : Value O, Lowered.eval I (Function.update temps temp v)
          (if plan.unwraps then .unwrap (.temp temp) else .temp temp) = pure v := by
        intro v
        cases plan.unwraps <;> simp [Lowered.eval]
      simp only [Expr.evalRow, hv temps, Expr.eval, link.eval_put I ho, hs, pure_bind]
  | .access base link false span, h => by
    have ht := (plainTargets_append _ _).1 h.tail
    have next : ∀ spine : LoweredSpine, spine.Follows I (base.evalRow I) →
        Lowering.Gives (do return spine.onto (link.put (← link.lowerOperands plans)))
          (·.Follows I ((Expr.access base link false span).evalRow I)) := fun spine hs =>
      (Link.lowerOperands_compute plans link ht.2).bind fun operands ho =>
        Lowering.gives_pure (LoweredSpine.onto_follows I span hs ho)
    rw [Expr.lowerSpine]
    split
    · exact (base.lowerSpine_follows plans ht.1).bind next
    · rename_i hn
      refine (Lowering.gives_pure fun temps => ?_).bind next
      rw [base.evalRow_of_not_onChain I (base.not_onChain_of_not_hasNavigation (by simpa using hn))]
      rfl
  | .create type args entries span, _ => .after fun _ => .after fun _ => Lowering.gives_pure fun temps => by
      simp [Lowered.eval, Expr.eval, Expr.evalRow, rowValue]

/-- The lowered operands of a link are the values of its operands. -/
theorem Link.lowerOperands_compute (plans : ChainPlans) :
    ∀ link : Link, PlainTargets link.nodes →
      (link.lowerOperands plans).Gives (Lowered.ComputeAll I · (evalList I link.operands))
  | .member _ _, _ => Lowering.gives_pure fun _ => rfl
  | .element indices, h => lowerList_compute plans indices h
  | .invoke args, h => lowerList_compute plans args h

/-- Lowered expressions in a row are the values of the expressions. -/
theorem lowerList_compute (plans : ChainPlans) :
    ∀ es : List Expr, PlainTargets (listNodes es) →
      (lowerList plans es).Gives (Lowered.ComputeAll I · (evalList I es))
  | [], _ => Lowering.gives_pure fun temps => rfl
  | e :: es, h => by
    have ht := (plainTargets_append _ _).1 h
    refine (Lowering.settle_computes I (e.lowerSpine_follows plans ht.1)).bind fun l hl => ?_
    refine (lowerList_compute plans es ht.2).bind fun ls hls => ?_
    refine Lowering.gives_pure fun temps => ?_
    simp only [Lowered.evalList, evalList, hl temps, hls temps, Expr.eval]

end

/-- Lowering keeps the meaning of an expression: its lowered form is the same computation, so it gives the same value, with
the same effects in the same order, whichever chains have plans and whatever the plans are. Where every chain has a plan this
does not rest on parts that are kept as source: none of them has a null-conditional access, except inside lambda bodies and
creations, so each short circuit is one of the bindings and conditionals of the lowered form. -/
theorem eval_lowerRoot (plans : ChainPlans) (e : Expr) (h : e.HasPlainTargets) (temps : Nat → Value O) :
    (e.lowerRoot plans).root.eval I temps = e.eval I ∧
      (Planned plans e.outerNodes → ∀ x, .source x ∈ (e.lowerRoot plans).root.nodes → ∀ n ∈ x.outerNodes, n.isGuarded = false) :=
  ⟨Lowering.settle_computes I (e.lowerSpine_follows I plans h) ⟨0, []⟩ temps, e.lowerRoot_spelledOut plans⟩

end

/-! ## An interpretation that notes what it does -/

/-- Every name is `null`, and every operation appends a note to a trace. -/
def noting : Interpretation (StateM (List String)) Unit where
  name text := note text .null
  self := note "this" (.object ())
  member _ name := note ("." ++ name) .null
  element _ _ := note "[]" .null
  invoke _ _ := note "()" .null
  unary op _ := note op.symbol .null
  binary op _ right := do
    let v ← right
    note op.symbol v
  truth _ := note "truth" false
  lambda _ _ := note "=>" (.object ())
  create _ _ := note "new" (.object ())
  store _ _ := note "=" ()
where
  note {α : Type} (text : String) (value : α) : StateM (List String) α :=
    fun trace => (value, trace ++ [text])

/-- The chain of `last = order?.Items[next]` is cut short: its index is not evaluated, and the value `null` is stored. The chain
has a plan, and no `?` is left in the lowered form. -/
theorem eval_lowerRoot_of_null :
    let place (start stop : Nat) : Span := ⟨none, start, stop⟩
    let chain := Expr.access (.access (.name "order" (place 7 12)) (.member (.plain "Items") (place 14 19)) true (place 7 19))
      (.element [.name "next" (place 20 24)]) false (place 7 25)
    let e := Expr.assign (.name "last" (place 0 4)) chain (place 0 25)
    let plans : ChainPlans := [(place 12 19, ⟨false, none, .named "string" []⟩)]
    e.HasPlainTargets ∧ Planned plans e.outerNodes ∧
      (e.lowerRoot plans).root.eval noting (fun _ => .null) [] = (.null, ["order", "="]) ∧
        ∀ x, .source x ∈ (e.lowerRoot plans).root.nodes → ∀ n ∈ x.outerNodes, n.isGuarded = false := by
  intro place chain e plans
  have h : e.HasPlainTargets := by
    intro target value span hm
    simp [e, chain, Expr.nodes, Link.nodes, listNodes] at hm
    rw [hm.1]
    rfl
  have hp : Planned plans e.outerNodes := by
    unfold Planned
    decide
  obtain ⟨meaning, spelledOut⟩ := eval_lowerRoot noting plans e h (fun _ => .null)
  refine ⟨h, hp, ?_, spelledOut hp⟩
  rw [meaning]
  rfl

end NavCheck
