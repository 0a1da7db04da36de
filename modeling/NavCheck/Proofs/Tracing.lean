import NavCheck.Proofs.Sites
import NavCheck.Typing.Body

/-!
# Notes and the expressions they are about

What typing notes while it goes over an expression: every record is about the outermost access of a chain in the expression,
once for each and in the order of lowering, and every name that is looked up stands in the expression, where it means a local
exactly when a local or a parameter of a lambda hides it. Notes of the rules for single constructs are findings only.
-/

namespace NavCheck

/-! ## The outermost accesses of chains -/

/-- The outermost accesses of the chains that lie inside an expression, and the expression itself when it is one. -/
def Expr.withTop (e : Expr) (inner : List Expr) : List Expr :=
  inner ++ if e.onChain then [e] else []

mutual

/-- The outermost accesses of the chains inside an expression but the chain that it ends itself, each behind those inside
it. -/
def Expr.innerTops : Expr → List Expr
  | .literal _ _ | .name _ _ | .self _ => []
  | .unary _ operand _ => operand.withTop operand.innerTops
  | .binary _ left right _ => left.withTop left.innerTops ++ right.withTop right.innerTops
  | .conditional condition thenBranch elseBranch _ =>
    condition.withTop condition.innerTops ++ thenBranch.withTop thenBranch.innerTops ++
      elseBranch.withTop elseBranch.innerTops
  | .assign target value _ => target.withTop target.innerTops ++ value.withTop value.innerTops
  | .lambda _ body _ => body.withTop body.innerTops
  | .paren inner _ => inner.withTop inner.innerTops
  | .access base link true _ => base.withTop base.innerTops ++ link.tops
  | .access base link false _ => base.innerTops ++ link.tops
  | .create _ args entries _ => listTops args ++ entryTops entries

/-- The outermost accesses of the chains in the operands of a link. -/
def Link.tops : Link → List Expr
  | .member _ _ => []
  | .element indices => listTops indices
  | .invoke args => listTops args

/-- The outermost accesses of the chains in several expressions. -/
def listTops : List Expr → List Expr
  | [] => []
  | e :: es => e.withTop e.innerTops ++ listTops es

/-- The outermost accesses of the chains in the entries of an initializer. -/
def entryTops : List Entry → List Expr
  | [] => []
  | .member _ _ value :: entries => value.withTop value.innerTops ++ entryTops entries
  | .element indices _ value :: entries => listTops indices ++ value.withTop value.innerTops ++ entryTops entries

end

/-- The outermost accesses of all chains in an expression. -/
def Expr.tops (e : Expr) : List Expr :=
  e.withTop e.innerTops

/-- What a chain is known by: its guard, its place and its text. -/
structure ChainKey where
  guard : Span
  span : Span
  text : String

/-- The key of a record. -/
def NavigationRecord.key (r : NavigationRecord) : ChainKey :=
  ⟨r.guard, r.span, r.text⟩

/-- The key of the chain that an expression ends. -/
def Expr.key? (e : Expr) : Option ChainKey :=
  e.chain?.map fun c => ⟨c.guard, e.span, e.text⟩

/-- An expression on a row with a `?` ends a chain. -/
theorem Expr.isSome_chain? : ∀ e : Expr, e.chain?.isSome = e.onChain
  | .access base link true span => rfl
  | .access base link false span => by
    rw [Expr.chain?, Option.isSome_map, base.isSome_chain?]
    rfl
  | .literal .. | .name .. | .self .. | .unary .. | .binary .. | .conditional .. | .assign .. | .lambda .. | .paren ..
  | .create .. => rfl

/-- An expression that ends a chain has a `?`. -/
theorem Expr.hasNavigation_of_chain? {e : Expr} {chain : Chain} (h : e.chain? = some chain) : e.hasNavigation = true := by
  cases hn : e.hasNavigation with
  | true => rfl
  | false =>
    have ho := e.not_onChain_of_not_hasNavigation hn
    rw [← e.isSome_chain?, h] at ho
    cases ho

/-! ## Plans of records -/

/-- What lowering has to know of a recorded chain: nothing when its root can never be missing or it has no result. -/
def NavigationRecord.plan? (table : TypeTable) (r : NavigationRecord) : Option ChainPlan :=
  if table.classify r.operand ≠ .value ∧ r.result ≠ .error then
    some ⟨decide (table.classify r.operand = .nullableValue) && r.operand.inner?.isSome, r.result.lift?, r.result.type⟩
  else none

/-! ## Names -/

/-- A name that was looked up is an occurrence, and means what the occurrence says: a local when it is hidden, and otherwise a
parameter in the phase of the occurrence when there is a parameter of the name. -/
def NameUse.Agrees (primary : List ParamSig) (use : NameUse) (o : Occurrence) : Prop :=
  use.name = o.name ∧ use.span = o.span ∧
    match use.meaning with
    | .local _ => o.hidden = true
    | .parameter param phase => o.hidden = false ∧ phase = o.phase ∧ param.name = o.name ∧ param ∈ primary
    | .member _ | .unknown => o.hidden = false ∧ ∀ param ∈ primary, param.name ≠ o.name

/-- The names that are hidden are those of the locals. -/
def Env.Hides (env : Env) (hidden : List String) : Prop :=
  ∀ name, hidden.contains name = (env.local? name).isSome

/-! ## Notes -/

/-- Notes about the chains with the given outermost accesses and the names that are given as occurrences. -/
structure Traced (table : TypeTable) (primary : List ParamSig) (tops : List Expr) (os : List Occurrence)
    (notes : List TypingNote) : Prop where
  chains : ((recordsOf notes).map NavigationRecord.key).Sublist (tops.filterMap Expr.key?)
  plans : ∀ record plan, .chain record plan ∈ notes → plan = record.plan? table
  names : ∀ use ∈ usesOf notes, ∃ o ∈ os, use.Agrees primary o

/-- Where a call behind a `?` is reported, if the finding is about one. -/
def Diagnostic.rejection? (d : Diagnostic) : Option Span :=
  if d.codeText = "NAV001" then d.span? else none

/-- Is this finding about a chain whose result has no static type? -/
def Diagnostic.isUnknownResult (d : Diagnostic) : Bool :=
  d.codeText = "NAV002"

/-- Is this a fault of a whole chain: a call behind a `?`, or a result without a static type? -/
def TypingFault.isOfChain : TypingFault → Bool
  | .guardedInvocation _ _ | .unknownResult _ _ => true
  | _ => false

/-- Is this note a finding, and not about a whole chain? -/
def TypingNote.isPlain : TypingNote → Bool
  | .finding d => d.rejection?.isNone && !d.isUnknownResult
  | _ => false

/-- A part of typing that notes nothing but findings, none of them about a whole chain. -/
def Quiet {α : Type} (x : Typed α) : Prop :=
  ∀ n ∈ x.notes, n.isPlain = true

section

variable {α β : Type}

/-- Records of notes one after the other are the records of both, in order. -/
theorem recordsOf_append (a b : List TypingNote) : recordsOf (a ++ b) = recordsOf a ++ recordsOf b :=
  List.filterMap_append

/-- Uses of names in notes one after the other are the uses of both, in order. -/
theorem usesOf_append (a b : List TypingNote) : usesOf (a ++ b) = usesOf a ++ usesOf b :=
  List.filterMap_append

/-- A plain answer notes nothing. -/
theorem quiet_pure (a : α) : Quiet (pure a : Typed α) := by
  simp [Quiet]

/-- Quiet parts are quiet one after the other. -/
theorem Quiet.bind {x : Typed α} {f : α → Typed β} (h : Quiet x) (hf : ∀ a, Quiet (f a)) : Quiet (x >>= f) := by
  intro n hn
  rcases List.mem_append.1 hn with hn | hn
  · exact h n hn
  · exact hf _ n hn

/-- A report of a fault is quiet when the fault is not one of a whole chain. -/
theorem quiet_report (fault : TypingFault) (span : Span) (h : fault.isOfChain = false) :
    Quiet (fault.report span) := by
  intro n hn
  obtain rfl := List.mem_singleton.1 hn
  cases fault <;> first | rfl | cases h

/-- A fault, and the error type in the place of a result. -/
theorem quiet_report_then {fault : TypingFault} {span : Span} (a : α) (h : fault.isOfChain = false) :
    Quiet (do fault.report span; return a : Typed α) :=
  (quiet_report fault span h).bind fun _ => quiet_pure a

/-- Quiet notes are about no chain and no name. -/
theorem Traced.of_quiet {table : TypeTable} {primary : List ParamSig} {x : Typed α} (h : Quiet x) :
    Traced table primary [] [] x.notes := by
  have hr : recordsOf x.notes = [] := by
    refine List.filterMap_eq_nil_iff.2 fun n hn => ?_
    have := h n hn
    cases n <;> simp_all [TypingNote.isPlain]
  have hu : usesOf x.notes = [] := by
    refine List.filterMap_eq_nil_iff.2 fun n hn => ?_
    have := h n hn
    cases n <;> simp_all [TypingNote.isPlain]
  refine ⟨by simp [hr], fun record plan hm => ?_, by simp [hu]⟩
  have := h _ hm
  simp [TypingNote.isPlain] at this

/-- A report of a fault is about no chain and no name. -/
theorem traced_report {table : TypeTable} {primary : List ParamSig} (fault : TypingFault) (span : Span) :
    Traced table primary [] [] (fault.report span).notes :=
  ⟨List.nil_sublist _, fun record plan hm => by simp [TypingFault.report] at hm,
    fun use hu => absurd hu List.not_mem_nil⟩

/-- Notes one after the other are about the chains and the names of both, in order. -/
theorem Traced.append {table : TypeTable} {primary : List ParamSig} {ts us : List Expr} {os ps : List Occurrence}
    {a b : List TypingNote} (h : Traced table primary ts os a) (h' : Traced table primary us ps b) :
    Traced table primary (ts ++ us) (os ++ ps) (a ++ b) := by
  refine ⟨?_, ?_, ?_⟩
  · rw [recordsOf_append, List.map_append, List.filterMap_append]
    exact h.chains.append h'.chains
  · intro record plan hm
    exact (List.mem_append.1 hm).elim (h.plans record plan) (h'.plans record plan)
  · intro use hu
    rw [usesOf_append] at hu
    rcases List.mem_append.1 hu with hu | hu
    · obtain ⟨o, ho, ha⟩ := h.names use hu
      exact ⟨o, List.mem_append_left _ ho, ha⟩
    · obtain ⟨o, ho, ha⟩ := h'.names use hu
      exact ⟨o, List.mem_append_right _ ho, ha⟩

/-- Notes about less are notes about more. -/
theorem Traced.mono {table : TypeTable} {primary : List ParamSig} {ts us : List Expr} {os ps : List Occurrence}
    {notes : List TypingNote} (h : Traced table primary ts os notes) (ht : ts.Sublist us) (ho : os ⊆ ps) :
    Traced table primary us ps notes := by
  refine ⟨h.chains.trans (ht.filterMap _), h.plans, fun use hu => ?_⟩
  obtain ⟨o, hm, ha⟩ := h.names use hu
  exact ⟨o, ho hm, ha⟩

end

/-! ## The rules for single constructs -/

/-- Asking an operand for its type is quiet. -/
theorem quiet_operand_type (operand : Operand) (span : Span) : Quiet (operand.type span) := by
  cases operand
  · exact quiet_pure _
  · exact quiet_report_then _ rfl

/-- Asking for a value is quiet. -/
theorem quiet_requireValue (type : Ty) (span : Span) : Quiet (requireValue type span) := by
  unfold requireValue
  split
  · exact quiet_report_then _ rfl
  · exact quiet_pure _

/-- What a name stands for is answered quietly. -/
theorem quiet_operandOf (env : Env) (name : String) (span : Span) (meaning : NameMeaning) :
    Quiet (env.operandOf name span meaning) := by
  unfold Env.operandOf
  split
  · exact quiet_pure _
  · exact quiet_pure _
  · split
    · exact quiet_report_then _ rfl
    · exact quiet_pure _
  · exact quiet_report_then _ rfl

/-- A written type is resolved quietly. -/
theorem quiet_resolve (env : Env) (e : TypeExpr) : Quiet (env.resolve e) := by
  unfold Env.resolve
  split
  · exact quiet_pure _
  · intro n hn
    obtain rfl := List.mem_singleton.1 (by simpa using hn)
    rfl

/-- The rule for a unary operator is quiet. -/
theorem quiet_unaryType (op : UnOp) (type : Ty) (span : Span) : Quiet (unaryType op type span) := by
  unfold unaryType
  split
  · exact quiet_pure _
  split
  · exact quiet_pure _
  · exact quiet_report_then _ rfl

/-- The rule for `??` is quiet. -/
theorem quiet_coalesceType (env : Env) (left right : Ty) (leftSpan span : Span) :
    Quiet (env.coalesceType left right leftSpan span) := by
  unfold Env.coalesceType
  split
  · exact quiet_pure _
  split
  · exact quiet_pure _
  split
  · exact quiet_report_then _ rfl
  · exact quiet_report_then _ rfl
  · split
    · exact quiet_pure _
    · exact quiet_report_then _ rfl

/-- The rule for a binary operator is quiet. -/
theorem quiet_binaryType (env : Env) (op : BinOp) (left right : Ty) (leftSpan span : Span) :
    Quiet (env.binaryType op left right leftSpan span) := by
  unfold Env.binaryType
  split
  · exact quiet_coalesceType env left right leftSpan span
  split
  · exact quiet_pure _
  split
  · exact quiet_pure _
  · exact quiet_report_then _ rfl

/-- The rule for the branches of a conditional is quiet. -/
theorem quiet_branchType (env : Env) (thenType elseType : Ty) (span : Span) :
    Quiet (env.branchType thenType elseType span) := by
  unfold Env.branchType
  split
  · exact quiet_pure _
  · exact quiet_report_then _ rfl

/-- The rule for `this` is quiet. -/
theorem quiet_selfType (env : Env) (span : Span) : Quiet (env.selfType span) := by
  unfold Env.selfType
  split
  · exact quiet_report_then _ rfl
  · exact quiet_pure _

/-- Parameters of a lambda are typed quietly. -/
theorem quiet_lambdaParams (env : Env) (params : List LambdaParam) (expected : Option (List Ty)) :
    Quiet (env.lambdaParams params expected) := by
  induction params generalizing expected with
  | nil => exact quiet_pure _
  | cons p ps ih =>
    rw [Env.lambdaParams]
    split
    · exact (quiet_resolve env _).bind fun _ => (ih _).bind fun _ => quiet_pure _
    · exact (quiet_pure _).bind fun _ => (ih _).bind fun _ => quiet_pure _

/-- The base of a link is prepared quietly. -/
theorem quiet_baseOperand (operand : Operand) (goal : Goal) (link : Link) (base : Expr) :
    Quiet (Env.baseOperand operand goal link base) := by
  unfold Env.baseOperand
  split
  · exact quiet_pure _
  · exact (quiet_operand_type operand _).bind fun _ => quiet_pure _
  · exact quiet_pure _

/-- Members are looked up quietly. -/
theorem quiet_memberOf (env : Env) (type : Ty) (name : MemberName) (span : Span) :
    Quiet (env.memberOf type name span) := by
  unfold Env.memberOf
  split
  · exact quiet_pure _
  split
  · exact quiet_pure _
  split
  · exact quiet_report_then _ rfl
  · exact quiet_report_then _ rfl

/-- Indexers are looked up quietly. -/
theorem quiet_indexerOf (env : Env) (type : Ty) (count : Nat) (span : Span) : Quiet (env.indexerOf type count span) := by
  unfold Env.indexerOf
  split
  · exact quiet_pure _
  split
  · exact quiet_pure _
  · exact quiet_report_then _ rfl

/-- Asking an operand for what it calls is quiet. -/
theorem quiet_callee (operand : Operand) (span : Span) : Quiet (operand.callee span) := by
  unfold Operand.callee
  split
  · exact quiet_pure _
  · exact quiet_pure _
  · exact quiet_pure _
  · exact quiet_report_then _ rfl

/-- Counting arguments is quiet. -/
theorem quiet_checkCount (callee : String) (params : List ParamSig) (given : Nat) (span : Span) :
    Quiet (checkCount callee params given span) := by
  unfold checkCount
  split
  · exact quiet_pure _
  · exact quiet_report _ _ rfl

/-- Constructors are looked up quietly. -/
theorem quiet_constructorOf (env : Env) (type : Ty) (span : Span) : Quiet (env.constructorOf type span) := by
  unfold Env.constructorOf
  split
  · exact quiet_pure _
  · exact quiet_pure _
  · exact quiet_report_then _ rfl

/-- The target of an entry is found quietly. -/
theorem quiet_entryTarget (type : Ty) (label : String) (found : Option (Bool × Ty)) (span : Span) :
    Quiet (Env.entryTarget type label found span) := by
  unfold Env.entryTarget
  split
  · exact quiet_pure _
  · exact quiet_report_then _ rfl
  · exact quiet_report_then _ rfl

/-- The member that an entry sets is found quietly. -/
theorem quiet_memberTarget (env : Env) (type : Ty) (name : MemberName) (span : Span) :
    Quiet (env.memberTarget type name span) := by
  unfold Env.memberTarget
  split
  · exact quiet_pure _
  · exact quiet_entryTarget _ _ _ _

/-- The fault of a root is not about the whole chain. -/
theorem isOfChain_rootFault {env : Env} {root : Expr} {type : Ty} {fault : TypingFault}
    (h : env.rootFault? root type = some fault) : fault.isOfChain = false := by
  unfold Env.rootFault? at h
  split at h
  · cases h
    rfl
  split at h
  · cases h
    rfl
  · cases h

/-- Opening a chain on a type is quiet. -/
theorem quiet_openChain (env : Env) (root : Expr) (type : Ty) (guard : Span) :
    Quiet (env.openChain root type guard) := by
  unfold Env.openChain
  split
  · exact quiet_report_then _ (isOfChain_rootFault ‹_›)
  split
  · exact quiet_pure _
  split
  · exact quiet_pure _
  · exact quiet_report_then _ rfl
  · exact quiet_pure _

/-! ## Rows of accesses -/

section

variable {α β : Type} {table : TypeTable} {primary : List ParamSig} {ts us : List Expr} {os ps : List Occurrence}

/-- Parts of typing one after the other are about the chains and the names of both. -/
theorem Traced.bind {x : Typed α} {f : α → Typed β} (h : Traced table primary ts os x.notes)
    (hf : Traced table primary us ps (f x.value).notes) : Traced table primary (ts ++ us) (os ++ ps) (x >>= f).notes :=
  h.append hf

/-- Quiet parts behind a part of typing add nothing that it is about. -/
theorem Traced.bind_quiet {x : Typed α} {f : α → Typed β} (h : Traced table primary ts os x.notes)
    (hf : ∀ a, Quiet (f a)) : Traced table primary ts os (x >>= f).notes := by
  simpa using h.append (Traced.of_quiet (hf x.value))

/-- Quiet parts in front of a part of typing add nothing that it is about. -/
theorem Traced.quiet_bind {x : Typed α} {f : α → Typed β} (h : Quiet x)
    (hf : Traced table primary ts os (f x.value).notes) : Traced table primary ts os (x >>= f).notes :=
  (Traced.of_quiet h).append hf

/-- A chain that is still going on belongs to the row of accesses, and knows of its root what lowering has to know. -/
def TypedSpine.Fits (table : TypeTable) (e : Expr) : TypedSpine → Prop
  | .chain c => (∃ chain, e.chain? = some chain ∧ c.guard = chain.guard) ∧
      c.unwraps = (decide (table.classify c.root = .nullableValue) && c.root.inner?.isSome) ∧
      (c.valid = true ↔ table.classify c.root ≠ .value)
  | _ => True

/-- The note about a chain. -/
theorem traced_chain {e : Expr} {c : TypedChain} (h : (TypedSpine.chain c).Fits table e) (result : ChainResult) :
    Traced table primary [e] []
      (Noted.note (.chain ⟨e.span, c.guard, e.text, c.root, result, none⟩ (Env.planOf c result)) : Typed Unit).notes := by
  obtain ⟨⟨chain, hc, hg⟩, hu, hv⟩ := h
  refine ⟨?_, ?_, ?_⟩
  · simp [recordsOf, NavigationRecord.key, Expr.key?, hc, hg]
  · intro record plan hm
    simp only [Noted.notes_note, List.mem_singleton, TypingNote.chain.injEq] at hm
    obtain ⟨rfl, rfl⟩ := hm
    simp only [Env.planOf, NavigationRecord.plan?, hv, hu]
  · intro use hu
    simp [usesOf] at hu

/-- What ends a chain is noted, and nothing else. -/
theorem traced_close (env : Env) (e : Expr) (row : TypedSpine) (h : row.Fits env.table e) :
    Traced env.table primary (if e.onChain then [e] else []) [] (env.close e row).notes := by
  cases row with
  | whole operand settable => exact (Traced.of_quiet (quiet_pure operand)).mono (List.nil_sublist _) (by simp)
  | refused =>
    exact (Traced.of_quiet (quiet_pure (Operand.value .error))).mono (List.nil_sublist _) (by simp)
  | chain c =>
    obtain ⟨chain, hc, -⟩ := h.1
    have hon : e.onChain = true := by
      rw [← e.isSome_chain?, hc]
      rfl
    rw [if_pos hon]
    refine Traced.bind_quiet ?_ fun _ => quiet_pure _
    unfold Env.closeChain
    refine Traced.quiet_bind (quiet_operand_type _ _) ?_
    split
    · exact (Traced.of_quiet (quiet_pure Ty.error)).mono (List.nil_sublist _) (by simp)
    · dsimp only
      split
      · exact (traced_report _ _).bind ((traced_chain h _).bind_quiet fun _ => quiet_pure _)
      · exact (traced_chain h _).bind_quiet fun _ => quiet_pure _

/-- What is known of the action that types a row of accesses. -/
structure Traces (env : Env) (e : Expr) (hidden : List String) (spine : Typed TypedSpine) : Prop where
  traced : Traced env.table env.primary e.innerTops (e.occurrences hidden env.phase) spine.notes
  fits : spine.value.Fits env.table e

variable {env : Env} {e : Expr} {hidden : List String} {spine : Typed TypedSpine}

/-- What is noted when a traced expression is typed as a value is about the chains and the names of the expression. -/
theorem Traces.valueOf (h : Traces env e hidden spine) :
    Traced env.table env.primary e.tops (e.occurrences hidden env.phase) (env.valueOf e spine).notes := by
  have hc := (h.traced.bind (traced_close env e spine.value h.fits)).bind_quiet fun o => quiet_operand_type o e.span
  simpa [Expr.tops, Expr.withTop, Env.valueOf] using hc

/-- The same where the value must not be `void`. -/
theorem Traces.presentValueOf (h : Traces env e hidden spine) :
    Traced env.table env.primary e.tops (e.occurrences hidden env.phase) (env.presentValueOf e spine).notes :=
  h.valueOf.bind_quiet fun type => quiet_requireValue type e.span

/-- The same where the value is checked against a type. -/
theorem Traces.check (h : Traces env e hidden spine) (expected : Ty) :
    Traced env.table env.primary e.tops (e.occurrences hidden env.phase) (env.check expected e spine).notes := by
  refine h.presentValueOf.bind_quiet fun found => ?_
  split
  · exact quiet_report _ _ rfl
  · exact quiet_pure _

/-- The same where the expression is the target of an assignment. -/
theorem Traces.targetOf (h : Traces env e hidden spine) :
    Traced env.table env.primary e.tops (e.occurrences hidden env.phase) (env.targetOf e spine).notes := by
  suffices hc : Traced env.table env.primary e.tops (e.occurrences hidden env.phase ++ []) (env.targetOf e spine).notes by
    rwa [List.append_nil] at hc
  refine h.traced.append ((traced_close env e spine.value h.fits).bind_quiet fun o =>
    (quiet_operand_type o e.span).bind fun type => ?_)
  split
  · exact quiet_report_then _ rfl
  split
  · exact quiet_pure _
  · split
    · exact quiet_report_then _ rfl
    · exact quiet_pure _

end

/-- A chain begins at its guard. -/
theorem openChain_spec {env : Env} {root : Expr} {type : Ty} {guard : Span} {c : TypedChain}
    (h : (env.openChain root type guard).value = some c) :
    c.guard = guard ∧ c.unwraps = (decide (env.table.classify c.root = .nullableValue) && c.root.inner?.isSome) ∧
      (c.valid = true ↔ env.table.classify c.root ≠ .value) := by
  unfold Env.openChain at h
  split at h
  · cases h
  split at h
  · cases h
  split at h
  · rename_i hc
    cases h
    simp [hc]
  · rename_i hc
    cases h
    simp [hc]
  · rename_i hn hv
    cases h
    refine ⟨rfl, ?_, by simpa using hv⟩
    rw [decide_eq_false hn]
    rfl

/-- Typing a guarded access that is no invocation notes what is inside it. -/
theorem traces_guarded {env : Env} {hidden : List String} {base : Expr} {link : Link} {span : Span}
    (hb : Traced env.table env.primary base.tops (base.occurrences hidden env.phase)
      (env.valueOf base (base.typeSpine env .value)).notes)
    (hl : ∀ operand, Traced env.table env.primary link.tops (link.occurrences hidden env.phase)
      (link.typeOnto env operand span).notes) :
    Traces env (.access base link true span) hidden (do
      let type ← env.valueOf base (base.typeSpine env .value)
      match ← env.openChain base type (guardSpan base span) with
      | some c => return .chain { c with operand := ← link.typeOnto env c.operand span }
      | none => return .refused) := by
  have rest : ∀ o : Option TypedChain, Traced env.table env.primary link.tops (link.occurrences hidden env.phase)
      (match o with
        | some c => do return TypedSpine.chain { c with operand := ← link.typeOnto env c.operand span }
        | none => return .refused : Typed TypedSpine).notes := by
    intro o
    cases o with
    | none => exact (Traced.of_quiet (quiet_pure TypedSpine.refused)).mono (List.nil_sublist _) (by simp)
    | some c => exact (hl c.operand).bind_quiet fun _ => quiet_pure _
  refine ⟨hb.bind (Traced.quiet_bind (quiet_openChain _ _ _ _) (rest _)), ?_⟩
  dsimp only [Noted.value_bind]
  split
  · rename_i c hc
    obtain ⟨hg, hu, hv⟩ := openChain_spec hc
    exact ⟨⟨_, rfl, hg⟩, hu, hv⟩
  · trivial

/-- Typing an access without a `?` goes on with the row of its base. -/
theorem traces_plain {env : Env} {hidden : List String} {base : Expr} {link : Link} {span : Span} {goal : Goal}
    (hb : Traces env base hidden (base.typeSpine env .value))
    (hl : ∀ operand, Traced env.table env.primary link.tops (link.occurrences hidden env.phase)
      (link.typeOnto env operand span).notes) :
    Traces env (.access base link false span) hidden (Expr.typeSpine env goal (.access base link false span)) := by
  obtain ⟨ht, hf⟩ := hb
  rw [Expr.typeSpine]
  cases hs : (base.typeSpine env .value).value with
  | chain c =>
    rw [hs] at hf
    obtain ⟨⟨chain, hc, hg⟩, hu, hv⟩ := hf
    refine ⟨ht.bind ?_, ?_⟩
    · rw [hs]
      exact (hl c.operand).bind_quiet fun _ => quiet_pure _
    · rw [Noted.value_bind, hs]
      refine ⟨⟨{ chain with links := chain.links ++ [⟨link, false, span⟩] }, ?_, hg⟩, hu, hv⟩
      rw [Expr.chain?, hc]
      rfl
  | refused =>
    refine ⟨ht.bind ?_, ?_⟩
    · rw [hs]
      exact (Traced.of_quiet (quiet_pure TypedSpine.refused)).mono (List.nil_sublist _) (List.nil_subset _)
    · rw [Noted.value_bind, hs]
      trivial
  | whole operand settable =>
    refine ⟨ht.bind ?_, ?_⟩
    · rw [hs]
      exact Traced.quiet_bind (quiet_baseOperand _ _ _ _) ((hl _).bind_quiet fun _ => quiet_pure _)
    · rw [Noted.value_bind, hs]
      trivial

/-! ## Expressions -/

/-- The locals of a lambda have the names of its parameters. -/
theorem Env.names_lambdaParams (env : Env) (params : List LambdaParam) (expected : Option (List Ty)) :
    (env.lambdaParams params expected).value.map (·.1) = params.map (·.name) := by
  induction params generalizing expected with
  | nil => rfl
  | cons p ps ih =>
    rw [Env.lambdaParams]
    cases p.type <;> simp [ih]

/-- A row of pairs has a value for the names in front of them. -/
theorem isSome_lookup (name : String) (pairs : List (String × Ty)) :
    (pairs.lookup name).isSome = (pairs.map (·.1)).contains name := by
  induction pairs with
  | nil => rfl
  | cons p ps ih =>
    rw [List.lookup_cons, List.map_cons, List.contains_cons]
    cases h : name == p.1 <;> simp [ih]

/-- One more scope hides its names as well. -/
theorem Env.Hides.enterScope {env : Env} {hidden : List String} (h : env.Hides hidden) (scope : Scope) (names : List String)
    (hn : ∀ name, names.contains name = (scope.map (·.1)).contains name) :
    (env.enterScope scope).Hides (names ++ hidden) := by
  intro name
  rw [List.contains_append, h name, hn name, ← isSome_lookup]
  simp only [Env.enterScope, Env.local?, List.findSome?_cons]
  cases scope.lookup name <;> simp

/-- The locals of a lambda hide the names of its parameters. -/
theorem Env.Hides.enterLambda {env : Env} {hidden : List String} (h : env.Hides hidden) (params : List LambdaParam)
    (expected : Option (List Ty)) :
    (env.enterLambda (env.lambdaParams params expected).value).Hides (params.map (·.name) ++ hidden) := by
  refine h.enterScope (env.lambdaParams params expected).value.reverse (params.map (·.name)) fun name => ?_
  rw [List.map_reverse, env.names_lambdaParams]
  simp

/-- A name that is looked up agrees with its occurrence. -/
theorem Env.Hides.agrees {env : Env} {hidden : List String} (h : env.Hides hidden) (name : String) (span : Span) :
    NameUse.Agrees env.primary ⟨name, span, env.meaning name⟩ ⟨name, span, env.phase, hidden.contains name⟩ := by
  refine ⟨rfl, rfl, ?_⟩
  rw [h name]
  unfold Env.meaning
  cases env.local? name with
  | some type => rfl
  | none =>
    cases hp : env.primary? name with
    | some param =>
      have hm := List.mem_of_find?_eq_some hp
      have hq := List.find?_some hp
      exact ⟨rfl, rfl, by simpa using hq, hm⟩
    | none =>
      have hq : ∀ param ∈ env.primary, param.name ≠ name := by
        simpa [Env.primary?] using hp
      cases env.table.member? env.self (.plain name) <;> exact ⟨rfl, hq⟩

mutual

/-- Typing a row of accesses notes what is inside it. -/
theorem Expr.traces_typeSpine (env : Env) (hidden : List String) (hh : env.Hides hidden) (goal : Goal) :
    ∀ e : Expr, Traces env e hidden (e.typeSpine env goal)
  | .literal value _ => ⟨.of_quiet (quiet_pure _), trivial⟩
  | .name text span => by
    refine ⟨Traced.bind_quiet ?_ fun _ => quiet_pure _, trivial⟩
    refine Traced.bind_quiet ⟨List.nil_sublist _, fun record plan hm => by simp at hm, fun use hu => ?_⟩ fun _ =>
      quiet_operandOf _ _ _ _
    obtain rfl : use = ⟨text, span, env.meaning text⟩ := by simpa [usesOf] using hu
    exact ⟨_, List.mem_singleton_self _, hh.agrees text span⟩
  | .self span => ⟨Traced.bind_quiet (.of_quiet (quiet_selfType env span)) fun _ => quiet_pure _, trivial⟩
  | .unary op operand span =>
    ⟨(operand.traces_typeSpine env hidden hh .value).presentValueOf.bind_quiet fun _ =>
      (quiet_unaryType _ _ _).bind fun _ => quiet_pure _, trivial⟩
  | .binary op left right span =>
    ⟨(left.traces_typeSpine env hidden hh .value).presentValueOf.bind <|
      (right.traces_typeSpine env hidden hh .value).presentValueOf.bind_quiet fun _ =>
        (quiet_binaryType _ _ _ _ _ _).bind fun _ => quiet_pure _, trivial⟩
  | .conditional condition thenBranch elseBranch span => by
    refine ⟨?_, trivial⟩
    rw [Expr.innerTops, Expr.occurrences, List.append_assoc, List.append_assoc]
    exact ((condition.traces_typeSpine env hidden hh (.against .bool)).check .bool).bind <|
      (thenBranch.traces_typeSpine env hidden hh .value).presentValueOf.bind <|
        (elseBranch.traces_typeSpine env hidden hh .value).presentValueOf.bind_quiet fun _ =>
          (quiet_branchType _ _ _ _).bind fun _ => quiet_pure _
  | .assign target value span =>
    ⟨(target.traces_typeSpine env hidden hh .target).targetOf.bind <|
      ((value.traces_typeSpine env hidden hh (.against _)).check _).bind_quiet fun _ => quiet_pure _, trivial⟩
  | .lambda params body span => by
    have hi := hh.enterLambda params ((goal.delegate? params.length).map (·.1))
    refine ⟨Traced.quiet_bind (quiet_lambdaParams _ _ _) ?_, ?_⟩
    · dsimp only
      split
      · exact (body.traces_typeSpine _ _ hi .value).valueOf.bind_quiet fun _ => quiet_pure _
      · exact (body.traces_typeSpine _ _ hi .value).valueOf.bind_quiet fun _ => quiet_pure _
      · exact ((body.traces_typeSpine _ _ hi (.against _)).check _).bind_quiet fun _ =>
          (quiet_pure _).bind fun _ => quiet_pure _
    · rw [Expr.typeSpine]
      dsimp only [Noted.value_bind]
      split <;> trivial
  | .paren inner span => by
    have hv := inner.traces_typeSpine env hidden hh .value
    have ht := inner.traces_typeSpine env hidden hh .target
    rw [Expr.typeSpine.eq_def]
    dsimp only
    split
    · exact ⟨ht.targetOf.bind_quiet fun _ => quiet_pure _, trivial⟩
    · have hc := hv.traced.append ((traced_close env inner _ hv.fits).bind_quiet
        fun o => quiet_pure (TypedSpine.whole o false))
      rw [List.append_nil] at hc
      exact ⟨hc, trivial⟩
  | .access base (.invoke args) true span => by
    have ha : ∀ fault : TypingFault, Traced env.table env.primary (listTops args) (listOccurrences hidden env.phase args)
        (do typeList env args; fault.report (guardSpan base span); return TypedSpine.refused : Typed TypedSpine).notes := by
      intro fault
      have hr := (traced_typeList env hidden hh args).append
        ((traced_report fault (guardSpan base span)).bind_quiet fun _ => quiet_pure TypedSpine.refused)
      rwa [List.append_nil, List.append_nil] at hr
    exact ⟨(base.traces_typeSpine env hidden hh .value).valueOf.bind (ha _), trivial⟩
  | .access base (.member name nameSpan) true span => by
    have hb := (base.traces_typeSpine env hidden hh .value).valueOf
    have hl := fun operand => (Link.member name nameSpan).traced_typeOnto env hidden hh operand span
    exact traces_guarded hb hl
  | .access base (.element indices) true span => by
    have hb := (base.traces_typeSpine env hidden hh .value).valueOf
    have hl := fun operand => (Link.element indices).traced_typeOnto env hidden hh operand span
    exact traces_guarded hb hl
  | .access base link false span => by
    have hb := base.traces_typeSpine env hidden hh .value
    have hl := fun operand => link.traced_typeOnto env hidden hh operand span
    exact traces_plain hb hl
  | .create type args entries span => by
    have he := fun created => (traced_checkEntries env hidden hh created entries).bind_quiet
      fun _ => quiet_pure (TypedSpine.whole (.value created) false)
    refine ⟨Traced.quiet_bind (quiet_resolve _ _) (Traced.quiet_bind (quiet_constructorOf _ _ _) ?_), ?_⟩
    · split
      · exact Traced.quiet_bind (quiet_checkCount _ _ _ _) ((traced_checkList env hidden hh _ args).bind (he _))
      · exact (traced_typeList env hidden hh args).bind (he _)
    · rw [Expr.typeSpine]
      dsimp only [Noted.value_bind]
      split <;> trivial

/-- Typing the access of a link notes what is inside its operands. -/
theorem Link.traced_typeOnto (env : Env) (hidden : List String) (hh : env.Hides hidden) (operand : Operand) (span : Span) :
    ∀ link : Link, Traced env.table env.primary link.tops (link.occurrences hidden env.phase)
      (link.typeOnto env operand span).notes
  | .member name nameSpan => .of_quiet ((quiet_operand_type _ _).bind fun _ => quiet_memberOf _ _ _ _)
  | .element indices => by
    refine Traced.quiet_bind (quiet_operand_type _ _) (Traced.quiet_bind (quiet_indexerOf _ _ _ _) ?_)
    split
    · exact (traced_checkList env hidden hh _ indices).bind_quiet fun _ => quiet_pure _
    · exact (traced_typeList env hidden hh indices).bind_quiet fun _ => quiet_pure _
  | .invoke args => by
    refine Traced.quiet_bind (quiet_callee _ _) ?_
    split
    · exact Traced.quiet_bind (quiet_checkCount _ _ _ _) ((traced_checkList env hidden hh _ args).bind_quiet fun _ => quiet_pure _)
    · exact (traced_typeList env hidden hh args).bind_quiet fun _ => quiet_pure _

/-- Typing several expressions notes what is inside them. -/
theorem traced_typeList (env : Env) (hidden : List String) (hh : env.Hides hidden) :
    ∀ es : List Expr, Traced env.table env.primary (listTops es) (listOccurrences hidden env.phase es) (typeList env es).notes
  | [] => .of_quiet (quiet_pure _)
  | e :: es => (e.traces_typeSpine env hidden hh .value).valueOf.bind (traced_typeList env hidden hh es)

/-- Checking arguments notes what is inside them. -/
theorem traced_checkList (env : Env) (hidden : List String) (hh : env.Hides hidden) :
    ∀ (params : List ParamSig) (es : List Expr),
      Traced env.table env.primary (listTops es) (listOccurrences hidden env.phase es) (checkList env params es).notes
  | _, [] => by
    rw [checkList.eq_def]
    exact .of_quiet (quiet_pure _)
  | [], e :: es => (e.traces_typeSpine env hidden hh .value).valueOf.bind (traced_checkList env hidden hh [] es)
  | p :: ps, e :: es =>
    ((e.traces_typeSpine env hidden hh (.against p.type)).check p.type).bind (traced_checkList env hidden hh ps es)

/-- Checking the entries of an initializer notes what is inside them. -/
theorem traced_checkEntries (env : Env) (hidden : List String) (hh : env.Hides hidden) (type : Ty) :
    ∀ entries : List Entry,
      Traced env.table env.primary (entryTops entries) (entryOccurrences hidden env.phase entries)
        (checkEntries env type entries).notes
  | [] => .of_quiet (quiet_pure _)
  | .member name span value :: entries =>
    Traced.quiet_bind (quiet_memberTarget _ _ _ _) <|
      ((value.traces_typeSpine env hidden hh (.against _)).check _).bind (traced_checkEntries env hidden hh type entries)
  | .element indices span value :: entries => by
    have hv : ∀ target : Ty, Traced env.table env.primary (value.tops ++ entryTops entries)
        (value.occurrences hidden env.phase ++ entryOccurrences hidden env.phase entries)
        (do
          env.check target value (value.typeSpine env (.against target))
          checkEntries env type entries : Typed Unit).notes := fun target =>
      ((value.traces_typeSpine env hidden hh (.against target)).check target).bind
        (traced_checkEntries env hidden hh type entries)
    rw [entryTops, entryOccurrences, List.append_assoc, List.append_assoc]
    rw [checkEntries]
    split
    · exact (Traced.quiet_bind (quiet_pure _) (hv _)).mono (List.sublist_append_right _ _)
        (List.subset_append_right _ _)
    · dsimp only
      split
      · exact (traced_checkList env hidden hh _ indices).bind (Traced.quiet_bind (quiet_entryTarget _ _ _ _) (hv _))
      · exact (traced_typeList env hidden hh indices).bind (Traced.quiet_bind (quiet_entryTarget _ _ _ _) (hv _))

end

/-- Typing a complete expression notes what is inside it. -/
theorem traced_rootType {env : Env} {hidden : List String} (hh : env.Hides hidden) (e : Expr) (expectation : Expectation) :
    Traced env.table env.primary e.tops (e.occurrences hidden env.phase) (Typer.rootType env e expectation).notes := by
  cases expectation with
  | type expected =>
    exact ((e.traces_typeSpine env hidden hh (.against expected)).check expected).bind_quiet fun _ => quiet_pure expected
  | value => exact (e.traces_typeSpine env hidden hh .value).presentValueOf
  | discard => exact (e.traces_typeSpine env hidden hh .value).valueOf

end NavCheck
