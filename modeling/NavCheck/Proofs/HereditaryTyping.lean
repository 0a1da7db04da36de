import NavCheck.Proofs.Hereditary
import NavCheck.Typing.Typer

/-!
# Hereditary properties in typing

Typing an expression in an environment whose types have a hereditary property comes to types that have it, as long as the error
type has it or nothing is noted that gives the error type. The error type keeps quiet: nothing is said about what is done with
it, so whatever gives it must say something itself. One producer says nothing. A lambda that no delegate is expected of gives the
error type to its parameters that have no written types; `Expr.infers` says that the type of an expression comes from no such
lambda.
-/

namespace NavCheck

/-! ## Lambdas -/

/-- Whether every lambda that the type of an expression comes from has types for its parameters: they are written, or a
delegate is expected. Where a result is expected of a lambda, its type does not come from its body. -/
def Expr.infers (goal : Goal) : Expr → Bool
  | .literal _ _ | .name _ _ | .self _ | .create _ _ _ _ => true
  | .unary _ operand _ => operand.infers .value
  | .binary _ left right _ => left.infers .value && right.infers .value
  | .conditional _ thenBranch elseBranch _ => thenBranch.infers .value && elseBranch.infers .value
  | .assign target _ _ => target.infers .target
  | .lambda params body _ =>
    match goal.delegate? params.length with
    | none => params.all (·.type.isSome) && body.infers .value
    | some (_, .void) => body.infers .value
    | some _ => true
  | .paren inner _ => inner.infers (if goal = .target then .target else .value)
  | .access base _ _ _ => base.infers .value

/-! ## What typing keeps -/

/-- A note that is no error: no such finding, and no use of a parameter of the constructor after construction, which is found
apart from typing. -/
def TypingNote.IsFine : TypingNote → Prop
  | .finding d => d.isError = false
  | .name use => ∀ param, use.meaning ≠ .parameter param .afterwards
  | .chain _ _ => True

/-- A property that typing keeps when its notes are fine: it is hereditary, and the error type has it or fine notes are no
errors. -/
structure Ty.Kept (p : Ty → Prop) (fine : TypingNote → Prop) : Prop where
  hereditary : Ty.Hereditary p
  error : p .error ∨ ∀ n, fine n → n.IsFine

/-- Every type in an operand has a property. -/
def Operand.All (p : Ty → Prop) : Operand → Prop
  | .value type => p type
  | .method _ params result => (∀ s ∈ params, p s.type) ∧ p result

/-- A row of accesses has come to something with a property; one that was refused is the error type. -/
def TypedSpine.All (p : Ty → Prop) : TypedSpine → Prop
  | .whole operand _ => operand.All p
  | .chain c => c.operand.All p
  | .refused => p .error

/-- A type that is expected has a property. -/
def Goal.All (p : Ty → Prop) : Goal → Prop
  | .against expected => p expected
  | _ => True

/-- Every type that can be spoken of in an environment has a property. -/
structure Env.All (p : Ty → Prop) (env : Env) : Prop where
  table : env.table.All p
  self : p env.self
  primary : ∀ s ∈ env.primary, p s.type
  scopes : ∀ scope ∈ env.scopes, ∀ q ∈ scope, p q.2

/-- A delegate that is expected has as many parameters as the lambda. -/
theorem Goal.length_of_delegate? {goal : Goal} {count : Nat} {params : List Ty} {result : Ty}
    (hd : goal.delegate? count = some (params, result)) : params.length = count := by
  unfold Goal.delegate? at hd
  split at hd
  · split at hd <;> cases hd
    assumption
  · cases hd

namespace Env.All

variable {p : Ty → Prop} {env : Env} (h : env.All p)

include h

/-- The type of a local has the property. -/
theorem local? {name : String} {type : Ty} (hl : env.local? name = some type) : p type := by
  obtain ⟨scope, hs, hl⟩ := List.exists_of_findSome?_eq_some hl
  obtain ⟨before, behind, rfl, -⟩ := List.lookup_eq_some_iff.1 hl
  exact h.scopes _ hs _ (List.mem_append_right before List.mem_cons_self)

/-- A scope whose locals have the property keeps the environment so. -/
theorem enterScope {scope : Scope} (hs : ∀ q ∈ scope, p q.2) : (env.enterScope scope).All p :=
  ⟨h.table, h.self, h.primary, List.forall_mem_cons.2 ⟨hs, h.scopes⟩⟩

/-- So does a lambda whose parameters have it. -/
theorem enterLambda {params : List (String × Ty)} (hp : ∀ q ∈ params, p q.2) : (env.enterLambda params).All p :=
  ⟨h.table, h.self, h.primary, (h.enterScope fun q hm => hp q (List.mem_reverse.1 hm)).scopes⟩

/-- So does the declaration of a local whose type has it. -/
theorem declare (name : String) {type : Ty} (ht : p type) : (env.declare name type).All p := by
  unfold Env.declare
  split
  · exact h
  · rename_i scope scopes hs
    have hk := h.scopes
    rw [hs] at hk
    obtain ⟨hscope, hscopes⟩ := List.forall_mem_cons.1 hk
    exact ⟨h.table, h.self, h.primary, List.forall_mem_cons.2 ⟨List.forall_mem_cons.2 ⟨ht, hscope⟩, hscopes⟩⟩

/-- A body begins without locals, so nothing new has to have it. -/
theorem enter (phase : Phase) (isStatic : Bool) : Env.All p { env with phase, isStatic, scopes := [[]] } :=
  ⟨h.table, h.self, h.primary, List.forall_mem_singleton.2 (List.forall_mem_nil _)⟩

end Env.All

/-- Closing a scope only takes locals away. -/
theorem Typer.all_popScope {p : Ty → Prop} {t : Typer} (h : t.env.All p) : t.popScope.env.All p := by
  unfold popScope
  split
  · rename_i hs
    have hk := h.scopes
    rw [hs] at hk
    exact ⟨h.table, h.self, h.primary, (List.forall_mem_cons.1 hk).2⟩
  · exact h

namespace Ty.Hereditary

variable {p : Ty → Prop} (hp : Ty.Hereditary p) {left right type : Ty}

include hp

/-- A delegate that is expected brings its parts: parameters and result have the property. -/
theorem delegate? {goal : Goal} (h : goal.All p) {count : Nat} {params : List Ty} {result : Ty}
    (hd : goal.delegate? count = some (params, result)) : (∀ q ∈ params, p q) ∧ p result := by
  unfold Goal.delegate? at hd
  split at hd
  · split at hd <;> cases hd
    exact hp.delegate.1 h
  · cases hd

omit hp in
/-- A member whose types have the property is an operand of such types. -/
theorem ofMember {m : MemberSig} (h : ∀ type ∈ m.types, p type) : (Operand.ofMember m).All p := by
  obtain ⟨ht, hk⟩ := List.forall_mem_cons.1 h
  unfold Operand.ofMember
  split
  · rename_i params he
    rw [he] at hk
    exact ⟨fun s hs => hk _ (List.mem_map_of_mem hs), ht⟩
  · exact ht

/-- What a chain gives has the property when the type behind its links does, unless that is no result at all. -/
theorem chainResult {t : TypeTable} (h : p type) (hr : t.chainResult type = .error → p .error) :
    p (t.chainResult type).type := by
  unfold TypeTable.chainResult at hr ⊢
  split
  · exact h
  · exact hp.orNull h
  · exact h
  · exact hp.void
  · rename_i hc
    rw [hc] at hr
    exact hr rfl

variable (hl : p left) (hr : p right)

include hl hr

/-- Arithmetic gives one of its operands, or a number. -/
theorem arithmetic? (h : left.arithmetic? right = some type) : p type := by
  have wider : ∀ c : Prop, [Decidable c] → p (if c then left else right) := fun c _ => by
    split
    · exact hl
    · exact hr
  have core : ∀ {t : Ty}, p t → p (t.inner?.getD t) := fun {t} ht => by
    cases hi : t.inner? with
    | none => exact ht
    | some inner => exact hp.inner? ht hi
  obtain ⟨_, -, _, -, rfl⟩ := by simpa [Ty.arithmetic?, Option.bind_eq_some_iff] using h
  split
  · exact hp.orNull (core (wider _))
  · exact core (wider _)

variable {t : TypeTable}

omit hr in
/-- Beside `null` a type keeps the property, nullable or not. -/
theorem besideNull? (hb : t.besideNull? left = some type) : p type := by
  unfold TypeTable.besideNull? at hb
  split at hb <;> cases hb
  · exact hp.orNull hl
  · exact hl
  · exact hl

/-- A common type is one of the two, or comes from one of them beside `null`. -/
theorem unify? (hu : t.unify? left right = some type) : p type := by
  unfold TypeTable.unify? at hu
  split at hu
  · cases hu
    exact hl
  split at hu
  · rename_i he
    cases hu
    exact he.elim (· ▸ hl) (· ▸ hr)
  split at hu
  · exact hp.besideNull? hr hu
  · exact hp.besideNull? hl hu
  · split at hu
    · cases hu
      exact hr
    · split at hu <;> cases hu
      exact hl

/-- A `??` gives a type with the property when both sides have it. -/
theorem coalesce? (h : t.All p) (hc : t.coalesce? left right = some type) : p type := by
  unfold TypeTable.coalesce? at hc
  split at hc
  · obtain ⟨inner, hi⟩ := Option.isSome_iff_exists.1 (h.isSome_inner? ‹_›)
    rw [hi] at hc
    dsimp only [Option.getD_some] at hc
    split at hc
    · cases hc
      exact hp.inner? hl hi
    · split at hc <;> cases hc
      exact hl
  · split at hc
    · cases hc
      exact hl
    · split at hc <;> cases hc
      exact hr

/-- An operator gives a type with the property when both operands have it. -/
theorem binary? {op : BinOp} (hb : t.binary? op left right = some type) : p type := by
  unfold TypeTable.binary? at hb
  split at hb
  · split at hb <;> cases hb
    exact hp.simple _
  split at hb
  · split at hb <;> cases hb
    exact hp.simple _
  split at hb
  · split at hb <;> cases hb
    exact hp.simple _
  split at hb
  · cases hb
    exact hp.simple _
  · exact hp.arithmetic? hl hr hb

end Ty.Hereditary

/-! ## The rules for single constructs -/

open Noted (Ensures ensures_pure)

namespace Ty.Kept

variable {p : Ty → Prop} {fine : TypingNote → Prop} (k : Ty.Kept p fine)

include k

/-- Behind a fault there is the error type, if anything has to hold there. -/
theorem report {α : Type} {q : α → Prop} (fault : TypingFault) (span : Span) {f : Unit → Typed α}
    (h : p .error → Ensures fine q (f ())) : Ensures fine q (fault.report span >>= f) := by
  rcases k.error with he | he
  · exact Ensures.behind fun _ => h he
  · have hb : ¬ fine (.finding (fault.finding span)) := fun hf => Bool.noConfusion (show true = false from he _ hf)
    exact Noted.ensures_bad hb f

/-- Behind a report the error type stands only if it has the property, or a note is an error. -/
theorem report_error (fault : TypingFault) (span : Span) : Ensures fine p (do fault.report span; return .error) :=
  k.report fault span fun he => ensures_pure he

/-- An operand that is used as a value keeps its type, or is reported. -/
theorem operand_type {operand : Operand} (h : operand.All p) (span : Span) : Ensures fine p (operand.type span) := by
  cases operand with
  | value type => exact ensures_pure h
  | method name params result => exact k.report_error _ _

/-- What is needed as a value keeps its type, or is reported. -/
theorem requireValue {type : Ty} (h : p type) (span : Span) : Ensures fine p (requireValue type span) := by
  unfold NavCheck.requireValue
  split
  · exact k.report_error _ _
  · exact ensures_pure h

/-- What an operator makes of a type has the property, or is reported. -/
theorem unaryType (op : UnOp) {type : Ty} (h : p type) (span : Span) : Ensures fine p (unaryType op type span) := by
  unfold NavCheck.unaryType
  split
  · rename_i he
    exact ensures_pure (he ▸ h)
  split
  · exact ensures_pure h
  · exact k.report_error _ _

/-- A written type has the property, or is reported. -/
theorem resolve (env : Env) (e : TypeExpr) : Ensures fine p (env.resolve e) := by
  unfold Env.resolve
  cases hr : env.table.resolve env.generics e with
  | ok type => exact ensures_pure (k.hereditary.resolve env.table _ e hr)
  | error fault =>
    rcases k.error with he | he
    · exact Ensures.behind fun _ => ensures_pure he
    · have hb : ¬ fine (.finding fault.toDiagnostic) := fun hf => Bool.noConfusion (show true = false from he _ hf)
      exact Noted.ensures_bad hb _

/-- Written types of parameters have the property, and so have those that are taken from what is expected. -/
theorem lambdaParams (env : Env) :
    ∀ (params : List LambdaParam) (expected : Option (List Ty)),
      (expected = none → p .error ∨ params.all (·.type.isSome) = true) →
        (∀ types ∈ expected, types.length = params.length ∧ ∀ t ∈ types, p t) →
          Ensures fine (∀ q ∈ ·, p q.2) (env.lambdaParams params expected)
  | [], _, _, _ => ensures_pure (List.forall_mem_nil _)
  | q :: qs, none, hw, _ => by
    have hrest : p .error ∨ qs.all (·.type.isSome) = true := (hw rfl).imp_right fun h => (Bool.and_eq_true_iff.1 h).2
    have rest := lambdaParams env qs none (fun _ => hrest) fun _ h => nomatch h
    rw [Env.lambdaParams]
    cases ht : q.type with
    | none =>
      have he : p .error := (hw rfl).resolve_right fun h => by simp [ht] at h
      exact (ensures_pure (p := p) he).bind fun type ht => rest.bind fun types hts =>
        ensures_pure (List.forall_mem_cons.2 ⟨ht, hts⟩)
    | some written =>
      exact (k.resolve env written).bind fun type ht => rest.bind fun types hts =>
        ensures_pure (List.forall_mem_cons.2 ⟨ht, hts⟩)
  | q :: qs, some [], _, he => nomatch (he _ rfl).1
  | q :: qs, some (t :: ts), _, he => by
    obtain ⟨hl, hk⟩ := he _ rfl
    obtain ⟨ht, hts⟩ := List.forall_mem_cons.1 hk
    have rest := lambdaParams env qs (some ts) (fun h => nomatch h) fun _ h => Option.mem_some.1 h ▸ ⟨Nat.succ.inj hl, hts⟩
    rw [Env.lambdaParams]
    cases q.type with
    | none =>
      exact (ensures_pure (p := p) ht).bind fun type ht => rest.bind fun types hps =>
        ensures_pure (List.forall_mem_cons.2 ⟨ht, hps⟩)
    | some written =>
      exact (k.resolve env written).bind fun type ht => rest.bind fun types hps =>
        ensures_pure (List.forall_mem_cons.2 ⟨ht, hps⟩)

/-- What is invoked has parameters and a result with the property, or is reported. -/
theorem callee {operand : Operand} (h : operand.All p) (span : Span) :
    Ensures fine (·.elim (p .error) fun c => (∀ s ∈ c.params, p s.type) ∧ p c.result) (operand.callee span) := by
  unfold Operand.callee
  split
  · exact ensures_pure h
  · obtain ⟨hq, hr⟩ := k.hereditary.delegate.1 h
    exact ensures_pure ⟨Hereditary.ofDelegate hq, hr⟩
  · exact ensures_pure h
  · exact k.report _ _ fun he => ensures_pure he

/-- A base keeps its types, or is reported. -/
theorem baseOperand {operand : Operand} (h : operand.All p) (goal : Goal) (link : Link) (base : Expr) :
    Ensures fine (Operand.All p) (Env.baseOperand operand goal link base) := by
  unfold Env.baseOperand
  split
  · exact ensures_pure h
  · exact (k.operand_type h _).bind fun _ ht => ensures_pure ht
  · exact ensures_pure h

/-- The type of a conditional has the property when those of the branches do. -/
theorem branchType {env : Env} {thenType elseType : Ty} (ht : p thenType) (he : p elseType) (span : Span) :
    Ensures fine p (env.branchType thenType elseType span) := by
  unfold Env.branchType
  split
  · exact ensures_pure (k.hereditary.unify? ht he ‹_›)
  · exact k.report_error _ _

/-- A chain that is closed keeps the property, or is reported. -/
theorem closeChain {env : Env} (top : Expr) {c : TypedChain} (hc : c.operand.All p) : Ensures fine p (env.closeChain top c) := by
  unfold Env.closeChain
  refine (k.operand_type hc _).bind fun type ht => ?_
  dsimp only
  split
  · rename_i he
    exact ensures_pure (he ▸ ht)
  split
  · exact k.report _ _ fun he => Ensures.behind fun _ => ensures_pure (k.hereditary.chainResult ht fun _ => he)
  · exact Ensures.behind fun _ => ensures_pure (k.hereditary.chainResult ht fun h => absurd h ‹_›)

/-- A row of accesses that is closed keeps the property, or is reported. -/
theorem close {env : Env} (top : Expr) {row : TypedSpine} (hr : row.All p) :
    Ensures fine (Operand.All p) (env.close top row) := by
  cases row with
  | whole operand settable => exact ensures_pure hr
  | chain c => exact (k.closeChain top hr).bind fun _ ht => ensures_pure ht
  | refused => exact ensures_pure hr

section

variable {env : Env} (h : env.All p)

include h

/-- A name gives a type with the property, or is reported. -/
theorem lookup (name : String) (span : Span) : Ensures fine (Operand.All p) (env.lookup name span) := by
  refine (Noted.ensures_note _).bind fun _ hu => ?_
  unfold Env.meaning at hu ⊢
  cases hl : env.local? name with
  | some type => exact ensures_pure (h.local? hl)
  | none =>
    rw [hl] at hu
    cases hq : env.primary? name with
    | some param =>
      rw [hq] at hu
      dsimp only [Env.operandOf]
      split
      · exact ensures_pure (h.primary param (List.mem_of_find?_eq_some hq))
      · rename_i hphase
        -- the use is no fine note, or the error type has the property
        have hafter : env.phase = .afterwards := by
          cases hc : env.phase with
          | construction => exact absurd hc hphase
          | afterwards => rfl
        exact ensures_pure (k.error.resolve_right fun he => he _ hu param (congrArg _ hafter))
    | none =>
      cases hm : env.table.member? env.self (.plain name) with
      | some m =>
        dsimp only [Env.operandOf]
        split
        · exact k.report _ _ fun he => ensures_pure he
        · exact ensures_pure (Hereditary.ofMember (k.hereditary.member? h.table h.self hm))
      | none => exact k.report _ _ fun he => ensures_pure he

/-- The current object has the type of the declaration, or is reported. -/
theorem selfType (span : Span) : Ensures fine p (env.selfType span) := by
  unfold Env.selfType
  split
  · exact k.report_error _ _
  · exact ensures_pure h.self

/-- A `??` keeps the property, or is reported. -/
theorem coalesceType {left right : Ty} (hl : p left) (hr : p right) (leftSpan span : Span) :
    Ensures fine p (env.coalesceType left right leftSpan span) := by
  unfold Env.coalesceType
  split
  · rename_i he
    exact ensures_pure (he.elim (· ▸ hl) (· ▸ hr))
  split
  · exact ensures_pure hr
  split
  · exact k.report _ _ fun _ => ensures_pure hl
  · exact k.report _ _ fun _ => ensures_pure hl
  split
  · exact ensures_pure (k.hereditary.coalesce? hl hr h.table ‹_›)
  · exact k.report_error _ _

/-- An operation keeps the property, or is reported. -/
theorem binaryType (op : BinOp) {left right : Ty} (hl : p left) (hr : p right) (leftSpan span : Span) :
    Ensures fine p (env.binaryType op left right leftSpan span) := by
  unfold Env.binaryType
  split
  · exact k.coalesceType h hl hr leftSpan span
  split
  · rename_i he
    refine ensures_pure ?_
    split
    · exact k.hereditary.simple _
    · exact he.elim (· ▸ hl) (· ▸ hr)
  split
  · exact ensures_pure (k.hereditary.binary? hl hr ‹_›)
  · exact k.report_error _ _

/-- A member of a type with the property has such types, or is reported. -/
theorem memberOf {type : Ty} (ht : p type) (name : MemberName) (span : Span) :
    Ensures fine (Operand.All p) (env.memberOf type name span) := by
  unfold Env.memberOf
  split
  · rename_i he
    exact ensures_pure (p := Operand.All p) (show p .error from he ▸ ht)
  split
  · exact ensures_pure (Hereditary.ofMember (k.hereditary.member? h.table ht ‹_›))
  · split
    · exact k.report _ _ fun he => ensures_pure he
    · exact k.report _ _ fun he => ensures_pure he

/-- An indexer of a type with the property has such types, or is reported. -/
theorem indexerOf {type : Ty} (ht : p type) (count : Nat) (span : Span) :
    Ensures fine (·.elim (p .error) fun i => ∀ x ∈ i.types, p x) (env.indexerOf type count span) := by
  unfold Env.indexerOf
  split
  · rename_i he
    exact ensures_pure (show Option.elim none (p .error) _ from he ▸ ht)
  split
  · exact ensures_pure (k.hereditary.indexer? h.table ht ‹_›)
  · exact k.report _ _ fun he => ensures_pure he

/-- A constructor of a type with the property has such parameters, or is reported. -/
theorem constructorOf {type : Ty} (ht : p type) (span : Span) :
    Ensures fine (∀ params ∈ ·, ∀ s ∈ params, p s.type) (env.constructorOf type span) := by
  unfold Env.constructorOf
  split
  · refine ensures_pure fun params hp => ?_
    obtain ⟨info, hf, rfl⟩ := Option.map_eq_some_iff.1 hp
    exact k.hereditary.constructorWith h.table hf (k.hereditary.named.1 ht)
  · exact ensures_pure fun _ hp => nomatch hp
  · exact Ensures.behind fun _ => ensures_pure fun _ hp => nomatch hp

/-- A chain begins with a value that has the property, or the error type has it. -/
theorem openChain (root : Expr) {type : Ty} (ht : p type) (guard : Span) :
    Ensures fine (·.elim (p .error) (·.operand.All p)) (env.openChain root type guard) := by
  unfold Env.openChain
  split
  · exact k.report _ _ fun he => ensures_pure he
  split
  · rename_i he
    exact ensures_pure (show Option.elim none (p .error) _ from he ▸ ht)
  split
  · obtain ⟨inner, hi⟩ := Option.isSome_iff_exists.1 (h.table.isSome_inner? ‹_›)
    rw [hi]
    exact ensures_pure (k.hereditary.inner? ht hi)
  · exact k.report _ _ fun _ => ensures_pure ht
  · exact ensures_pure ht

/-- A member that an initializer sets has a type with the property, or is reported. -/
theorem memberTarget {type : Ty} (ht : p type) (name : MemberName) (span : Span) :
    Ensures fine p (env.memberTarget type name span) := by
  unfold Env.memberTarget
  split
  · rename_i he
    exact ensures_pure (he ▸ ht)
  · unfold Env.entryTarget
    split
    · rename_i hm
      obtain ⟨m, hm, he⟩ := Option.map_eq_some_iff.1 hm
      exact ensures_pure ((Prod.mk.inj he).2 ▸ k.hereditary.member? h.table ht hm _ List.mem_cons_self)
    · exact k.report_error _ _
    · exact k.report_error _ _

omit h in
/-- An element that an initializer sets has a type with the property. -/
theorem elementTarget {type : Ty} {indexer : Option IndexerSig} (hi : indexer.elim (p .error) fun i => ∀ x ∈ i.types, p x)
    (span : Span) :
    Ensures fine p (Env.elementTarget type indexer span) := by
  unfold Env.elementTarget Env.entryTarget
  split
  · rename_i hm
    obtain ⟨i, rfl, he⟩ := Option.map_eq_some_iff.1 hm
    exact ensures_pure ((Prod.mk.inj he).2 ▸ hi _ List.mem_cons_self)
  · exact k.report_error _ _
  · exact k.report_error _ _

end

/-! ## Values of rows -/

section

variable {env : Env} {e : Expr} {spine : Typed TypedSpine} (h : Ensures fine (TypedSpine.All p) spine)

include h

/-- An expression that is needed as a value keeps the property when its row does. -/
theorem valueOf : Ensures fine p (env.valueOf e spine) :=
  h.bind fun _ hr => (k.close e hr).bind fun _ ho => k.operand_type ho e.span

/-- An expression that is needed as a value that is there keeps it too. -/
theorem presentValueOf : Ensures fine p (env.presentValueOf e spine) :=
  (k.valueOf h).bind fun _ ht => k.requireValue ht e.span

/-- The target of an assignment keeps it too. -/
theorem targetOf : Ensures fine p (env.targetOf e spine) := by
  refine h.bind fun row hr => (k.close e hr).bind fun o ho => (k.operand_type ho e.span).bind fun type ht => ?_
  split
  · exact k.report_error _ _
  split
  · exact ensures_pure ht
  · split
    · exact k.report_error _ _
    · exact ensures_pure (Decidable.not_not.1 ‹¬type ≠ .error› ▸ ht)

end

/-! ## Expressions -/

/-- What a link gives on an operand that has the property has it, whatever its arguments are. -/
theorem typeOnto {env : Env} (h : env.All p) {operand : Operand} (ho : operand.All p) (span : Span) (link : Link) :
    Ensures fine (Operand.All p) (link.typeOnto env operand span) := by
  cases link with
  | member name nameSpan => exact (k.operand_type ho _).bind fun _ ht => k.memberOf h ht name nameSpan
  | element indices =>
    rw [Link.typeOnto]
    refine (k.operand_type ho span).bind fun type ht => (k.indexerOf h ht _ span).bind fun i hi => ?_
    cases i with
    | some indexer => exact Ensures.behind fun _ => ensures_pure (hi _ List.mem_cons_self)
    | none => exact Ensures.behind fun _ => ensures_pure hi
  | invoke args =>
    rw [Link.typeOnto]
    refine (k.callee ho span).bind fun c hc => ?_
    cases c with
    | some callee => exact Ensures.behind fun _ => Ensures.behind fun _ => ensures_pure hc.2
    | none => exact Ensures.behind fun _ => ensures_pure hc

/-- Typing a guarded access that is no invocation. -/
theorem guarded {env : Env} (h : env.All p) {base : Expr} {span guard : Span} (hb : Ensures fine p (base.type env))
    (link : Link) :
    Ensures fine (TypedSpine.All p) (do
      match ← env.openChain base (← base.type env) guard with
      | some c => return .chain { c with operand := ← link.typeOnto env c.operand span }
      | none => return .refused) := by
  refine hb.bind fun type ht => (k.openChain h base ht guard).bind fun o ho => ?_
  cases o with
  | some c => exact (k.typeOnto h ho span link).bind fun _ ho => ensures_pure ho
  | none => exact ensures_pure (p := TypedSpine.All p) ho

/-- An expression that is typed in an environment whose types have the property comes to something that has it, if the error type
has it or the lambdas that its type comes from have types for their parameters. -/
theorem typeSpine {env : Env} (h : env.All p) (goal : Goal) (hg : goal.All p) :
    ∀ e : Expr, p .error ∨ e.infers goal = true → Ensures fine (TypedSpine.All p) (e.typeSpine env goal)
  | .literal value _, _ => ensures_pure (by
      cases value
      · exact k.hereditary.simple _
      · exact k.hereditary.simple _
      · exact k.hereditary.simple _
      · exact k.hereditary.null)
  | .name text span, _ => (k.lookup h text span).bind fun _ ho => ensures_pure ho
  | .self span, _ => (k.selfType h span).bind fun _ ht => ensures_pure ht
  | .unary op operand span, hi =>
    (k.presentValueOf (typeSpine h .value trivial operand hi)).bind fun _ ht =>
      (k.unaryType op ht span).bind fun _ ht => ensures_pure ht
  | .binary op left right span, hi => by
    obtain ⟨hl, hr⟩ := or_and_left.1 (hi.imp_right Bool.and_eq_true_iff.1)
    exact (k.presentValueOf (typeSpine h .value trivial left hl)).bind fun _ hl =>
      (k.presentValueOf (typeSpine h .value trivial right hr)).bind fun _ hr =>
        (k.binaryType h op hl hr left.span span).bind fun _ ht => ensures_pure ht
  | .conditional condition thenBranch elseBranch span, hi => by
    obtain ⟨ht, he⟩ := or_and_left.1 (hi.imp_right Bool.and_eq_true_iff.1)
    exact Ensures.behind fun _ =>
      (k.presentValueOf (typeSpine h .value trivial thenBranch ht)).bind fun _ ht =>
        (k.presentValueOf (typeSpine h .value trivial elseBranch he)).bind fun _ he =>
          (k.branchType ht he _).bind fun _ ht => ensures_pure ht
  | .assign target value span, hi =>
    (k.targetOf (typeSpine h .target trivial target hi)).bind fun _ ht =>
      Ensures.behind fun _ => ensures_pure ht
  | .lambda params body span, hi => by
    have whole {types : List (String × Ty)} {result : Ty} (ht : ∀ q ∈ types, p q.2) (hr : p result) :
        Ensures fine (TypedSpine.All p) (pure (.whole (.value (.delegate (types.map (·.2)) result)) false)) :=
      ensures_pure (k.hereditary.delegate.2 ⟨List.forall_mem_map.2 ht, hr⟩)
    rw [Expr.infers] at hi
    rw [Expr.typeSpine]
    cases hd : goal.delegate? params.length with
    | none =>
      rw [hd] at hi
      obtain ⟨hp, hb⟩ := or_and_left.1 (hi.imp_right Bool.and_eq_true_iff.1)
      refine (k.lambdaParams env params none (fun _ => hp) fun _ h => nomatch h).bind fun types ht => ?_
      exact (k.valueOf (typeSpine (h.enterLambda ht) .value trivial body hb)).bind fun result hr => whole ht hr
    | some expected =>
      obtain ⟨types, result⟩ := expected
      obtain ⟨hts, hr⟩ := k.hereditary.delegate? hg hd
      rw [hd] at hi
      refine (k.lambdaParams env params (some types) (fun h => nomatch h) fun _ h => ?_).bind fun types ht => ?_
      · exact Option.mem_some.1 h ▸ ⟨goal.length_of_delegate? hd, hts⟩
      · dsimp only
        split
        · rename_i he
          cases he
        · rename_i he
          cases he
          exact (k.valueOf (typeSpine (h.enterLambda ht) .value trivial body hi)).bind fun result hr => whole ht hr
        · rename_i he
          cases he
          exact Ensures.behind fun _ => whole ht hr
  | .paren inner span, hi => by
    rw [Expr.typeSpine.eq_def]
    dsimp only
    split
    · exact (k.targetOf (typeSpine h .target trivial inner hi)).bind fun _ ht => ensures_pure ht
    · rename_i hgoal
      rw [Expr.infers, if_neg (hgoal ·)] at hi
      exact (typeSpine h .value trivial inner hi).bind fun _ hr => (k.close inner hr).bind fun _ ho => ensures_pure ho
  | .access base (.invoke args) true span, _ =>
    Ensures.behind fun _ => Ensures.behind fun _ => k.report _ _ fun he => ensures_pure he
  | .access base (.member name nameSpan) true span, hi =>
    k.guarded h (k.valueOf (typeSpine h .value trivial base hi)) (.member name nameSpan)
  | .access base (.element indices) true span, hi =>
    k.guarded h (k.valueOf (typeSpine h .value trivial base hi)) (.element indices)
  | .access base link false span, hi => by
    rw [Expr.typeSpine]
    refine (typeSpine h .value trivial base hi).bind fun row hr => ?_
    split
    · exact (k.typeOnto h hr span _).bind fun _ ho => ensures_pure ho
    · exact ensures_pure hr
    · exact (k.baseOperand hr goal link base).bind fun _ ho =>
        (k.typeOnto h ho span link).bind fun _ ho => ensures_pure ho
  | .create type args entries span, _ => by
    rw [Expr.typeSpine]
    refine (k.resolve env type).bind fun created hc => Ensures.behind fun found => ?_
    split
    · exact Ensures.behind fun _ => Ensures.behind fun _ => Ensures.behind fun _ => ensures_pure hc
    · exact Ensures.behind fun _ => Ensures.behind fun _ => ensures_pure hc

end Ty.Kept

end NavCheck
