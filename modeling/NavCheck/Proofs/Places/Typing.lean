import NavCheck.Proofs.Places.Tables
import NavCheck.Typing.Body

/-!
# Places of findings about code

What is noted while code is typed is noted at places of the code. All but two of these are the place of an expression,
a name or a type: the branches of a conditional are compared at the place that covers both, and a `?` in front of a
call is reported at its own place.
-/

namespace NavCheck

open Noted

variable {good : Span → Prop} {env : Env} {span : Span}

/-- The place of a note, if it is a finding. -/
def TypingNote.Within (good : Span → Prop) : TypingNote → Prop
  | .finding d => d.Within good
  | .chain _ _ | .name _ => True

/-- A finding stands at the place of its fault, and so do its suggestions if they have places. -/
theorem TypingFault.within_finding {fault : TypingFault} (h : good span)
    (hs : ∀ s ∈ fault.suggestions, ∀ span ∈ s.span, good span) : (fault.finding span).Within good :=
  ⟨⟨_, rfl, h⟩, List.forall_mem_nil _, hs⟩

/-- A fault without a suggestion. -/
theorem TypingFault.says_report {fault : TypingFault} (h : good span) (hs : fault.suggestions = []) :
    (fault.report span).Says (·.Within good) :=
  says_note (TypingFault.within_finding h (hs ▸ List.forall_mem_nil _))

/-- A fault without a suggestion, and what is given in its place. -/
theorem TypingFault.says_instead {α : Type} {fault : TypingFault} {a : α} (h : good span) (hs : fault.suggestions = []) :
    (do fault.report span; return a : Typed α).Says (·.Within good) :=
  (says_report h hs).bind fun _ => says_pure _

/-! ## Names, members and operators -/

/-- A method that is used as a value is reported at its place. -/
theorem Operand.says_type (o : Operand) (h : good span) : (o.type span).Says (·.Within good) := by
  cases o with
  | value type => exact says_pure _
  | method name params result => exact TypingFault.says_instead h rfl

/-- What cannot be invoked is reported at its place. -/
theorem Operand.says_callee (o : Operand) (h : good span) : (o.callee span).Says (·.Within good) := by
  unfold Operand.callee
  split
  · exact says_pure _
  · exact says_pure _
  · exact says_pure _
  · exact TypingFault.says_instead h rfl

/-- What gives no value is reported at its place. -/
theorem says_requireValue (type : Ty) (h : good span) : (requireValue type span).Says (·.Within good) := by
  unfold requireValue
  split
  · exact TypingFault.says_instead h rfl
  · exact says_pure _

/-- A wrong number of arguments is reported at the place of the call. -/
theorem says_checkCount (callee : String) (params : List ParamSig) (given : Nat) (h : good span) :
    (checkCount callee params given span).Says (·.Within good) := by
  unfold checkCount
  split
  · exact says_pure _
  · exact TypingFault.says_report h rfl

/-- An operand that does not fit is reported at the place of the operation. -/
theorem says_unaryType (op : UnOp) (type : Ty) (h : good span) : (unaryType op type span).Says (·.Within good) := by
  unfold unaryType
  split
  · exact says_pure _
  · split
    · exact says_pure _
    · exact TypingFault.says_instead h rfl

namespace Env

/-- A name that means nothing is reported at its place. -/
theorem says_lookup (name : String) (h : good span) : (env.lookup name span).Says (·.Within good) := by
  have operand (meaning : NameMeaning) : (env.operandOf name span meaning).Says (·.Within good) := by
    unfold operandOf
    split
    · exact says_pure _
    · exact says_pure _
    · split
      · exact TypingFault.says_instead h rfl
      · exact says_pure _
    · exact TypingFault.says_instead h rfl
  exact (says_note trivial).bind fun _ => operand _

/-- A written type that means nothing is reported at a place in it. -/
theorem says_resolve {e : TypeExpr} (h : e.Within good) : (env.resolve e).Says (·.Within good) := by
  unfold resolve
  split
  · exact says_pure _
  · refine Says.bind (says_note ?_) fun _ => says_pure _
    exact Diagnostic.within_coded _ _ _ (TypeTable.within_resolve h ‹_›)

/-- The current object in static code is reported at its place. -/
theorem says_selfType (h : good span) : (env.selfType span).Says (·.Within good) := by
  unfold selfType
  split
  · exact TypingFault.says_instead h rfl
  · exact says_pure _

/-- A member that there is not is reported at the place of its name. -/
theorem says_memberOf (type : Ty) (name : MemberName) (h : good span) : (env.memberOf type name span).Says (·.Within good) := by
  unfold memberOf
  split
  · exact says_pure _
  · split
    · exact says_pure _
    · split
      · exact TypingFault.says_instead h rfl
      · exact TypingFault.says_instead h rfl

/-- An indexer that there is not is reported at the place of the access. -/
theorem says_indexerOf (type : Ty) (count : Nat) (h : good span) : (env.indexerOf type count span).Says (·.Within good) := by
  unfold indexerOf
  split
  · exact says_pure _
  · split
    · exact says_pure _
    · exact TypingFault.says_instead h rfl

/-- A type that cannot be created is reported at its place. -/
theorem says_constructorOf (type : Ty) (h : good span) : (env.constructorOf type span).Says (·.Within good) := by
  unfold constructorOf
  split
  · exact says_pure _
  · exact says_pure _
  · exact TypingFault.says_instead h rfl

/-- An entry that has no target is reported at its place. -/
theorem says_entryTarget (type : Ty) (label : String) (found : Option (Bool × Ty)) (h : good span) :
    (entryTarget type label found span).Says (·.Within good) := by
  unfold entryTarget
  split
  · exact says_pure _
  · exact TypingFault.says_instead h rfl
  · exact TypingFault.says_instead h rfl

/-- A member that an initializer cannot set is reported at the place of the entry. -/
theorem says_memberTarget (type : Ty) (name : MemberName) (h : good span) :
    (env.memberTarget type name span).Says (·.Within good) := by
  unfold memberTarget
  split
  · exact says_pure _
  · exact says_entryTarget _ _ _ h

/-- What is wrong with a `??` is reported at the place of its left side or of the whole. -/
theorem says_coalesceType (left right : Ty) {leftSpan : Span} (hl : good leftSpan) (h : good span) :
    (env.coalesceType left right leftSpan span).Says (·.Within good) := by
  unfold coalesceType
  split
  · exact says_pure _
  · split
    · exact says_pure _
    · split
      · exact TypingFault.says_instead hl rfl
      · exact TypingFault.says_instead hl rfl
      · split
        · exact says_pure _
        · exact TypingFault.says_instead h rfl

/-- Operands that do not fit are reported at the place of the operation or of the left one. -/
theorem says_binaryType (op : BinOp) (left right : Ty) {leftSpan : Span} (hl : good leftSpan) (h : good span) :
    (env.binaryType op left right leftSpan span).Says (·.Within good) := by
  unfold binaryType
  split
  · exact says_coalesceType left right hl h
  · split
    · exact says_pure _
    · split
      · exact says_pure _
      · exact TypingFault.says_instead h rfl

/-- Branches that do not fit are reported at the place that covers both. -/
theorem says_branchType (thenType elseType : Ty) (h : good span) :
    (env.branchType thenType elseType span).Says (·.Within good) := by
  unfold branchType
  split
  · exact says_pure _
  · exact TypingFault.says_instead h rfl

/-- The types of the parameters of a lambda are reported where they are written. -/
theorem says_lambdaParams {params : List LambdaParam} (h : ∀ p ∈ params, p.Within good) (expected : Option (List Ty)) :
    (env.lambdaParams params expected).Says (·.Within good) := by
  induction params generalizing expected with
  | nil => exact says_pure _
  | cons p ps ih =>
    obtain ⟨hp, hps⟩ := List.forall_mem_cons.1 h
    have rest (type : Ty) : (do return (p.name, type) :: (← env.lambdaParams ps (expected.map (·.tail))) :
        Typed (List (String × Ty))).Says (·.Within good) :=
      (ih hps _).bind fun _ => says_pure _
    rw [lambdaParams]
    split
    · exact (says_resolve (hp.type _ ‹_›)).bind rest
    · exact (says_pure _).bind rest

/-! ## Chains and rows of accesses -/

/-- What a `?` cannot test is reported in the root, or at the `?`. -/
theorem says_openChain {root : Expr} (h : root.Within good) (type : Ty) (guard : Span) :
    (env.openChain root type guard).Says (·.Within good) := by
  unfold openChain
  split
  · rename_i fault hf
    have hs : fault.suggestions = [] := by
      grind [rootFault?, TypingFault.suggestions]
    exact TypingFault.says_instead h.span hs
  · split
    · exact says_pure _
    · split
      · exact says_pure _
      · exact TypingFault.says_instead h.span rfl
      · exact says_pure _

/-- A chain whose result is unknown is reported in the chain. -/
theorem says_close {top : Expr} (h : top.Within good) (row : TypedSpine) : (env.close top row).Says (·.Within good) := by
  cases row with
  | whole operand settable => exact says_pure _
  | refused => exact says_pure _
  | chain c =>
    refine Says.bind (x := env.closeChain top c) ((c.operand.says_type h.span).bind fun type => ?_) fun _ => says_pure _
    have record (result : ChainResult) : (do
        Noted.note (.chain ⟨top.span, c.guard, top.text, c.root, result, none⟩ (planOf c result))
        return result.type : Typed Ty).Says (·.Within good) :=
      (says_note trivial).bind fun _ => says_pure _
    split
    · exact says_pure _
    · dsimp only
      split
      · exact (TypingFault.says_report h.span rfl).bind fun _ => record _
      · exact record _

variable {e : Expr} {row : Typed TypedSpine}

/-- An expression without a value is reported in the expression. -/
theorem says_valueOf (h : e.Within good) (hr : row.Says (·.Within good)) : (env.valueOf e row).Says (·.Within good) :=
  hr.bind fun _ => (says_close h _).bind fun o => o.says_type h.span

/-- An expression without a value that is there is reported in the expression. -/
theorem says_presentValueOf (h : e.Within good) (hr : row.Says (·.Within good)) :
    (env.presentValueOf e row).Says (·.Within good) :=
  (says_valueOf h hr).bind fun type => says_requireValue type h.span

/-- An expression of another type than expected is reported in the expression. -/
theorem says_check (expected : Ty) (h : e.Within good) (hr : row.Says (·.Within good)) :
    (env.check expected e row).Says (·.Within good) := by
  refine (says_presentValueOf h hr).bind fun found => ?_
  split
  · exact TypingFault.says_report h.span rfl
  · exact says_pure _

/-- A target that is none is reported in the target. -/
theorem says_targetOf (h : e.Within good) (hr : row.Says (·.Within good)) : (env.targetOf e row).Says (·.Within good) := by
  refine hr.bind fun r => (says_close h r).bind fun o => (o.says_type h.span).bind fun type => ?_
  split
  · exact TypingFault.says_instead h.span rfl
  · split
    · exact says_pure _
    · split
      · exact TypingFault.says_instead h.span rfl
      · exact says_pure _

/-- A base that cannot be accessed is reported in the base. -/
theorem says_baseOperand (operand : Operand) (goal : Goal) (link : Link) (h : e.Within good) :
    (baseOperand operand goal link e).Says (·.Within good) := by
  unfold baseOperand
  split
  · exact says_pure _
  · exact (operand.says_type h.span).bind fun _ => says_pure _
  · exact says_pure _

end Env

/-! ## Expressions -/

mutual

/-- What is noted while an expression is typed is noted in the expression. -/
theorem Expr.Within.says_typeSpine (join : ∀ {a b : Span}, good a → good b → good (a.join b))
    (env : Env) (goal : Goal) {e : Expr} (h : e.Within good) :
    (e.typeSpine env goal).Says (·.Within good) := by
  match e, h with
  | .literal value span, _ => exact says_pure _
  | .name text span, h => exact (Env.says_lookup text h).bind fun _ => says_pure _
  | .self span, h => exact (Env.says_selfType h).bind fun _ => says_pure _
  | .unary op operand span, h =>
    exact (Env.says_presentValueOf h.1 (Expr.Within.says_typeSpine join env _ h.1)).bind fun type =>
      (says_unaryType op type h.2).bind fun _ => says_pure _
  | .binary op left right span, h =>
    exact (Env.says_presentValueOf h.1 (Expr.Within.says_typeSpine join env _ h.1)).bind fun leftType =>
      (Env.says_presentValueOf h.2.1 (Expr.Within.says_typeSpine join env _ h.2.1)).bind fun rightType =>
        (Env.says_binaryType op leftType rightType h.1.span h.2.2).bind fun _ => says_pure _
  | .conditional condition thenBranch elseBranch span, h =>
    exact (Env.says_check _ h.1 (Expr.Within.says_typeSpine join env _ h.1)).bind fun _ =>
      (Env.says_presentValueOf h.2.1 (Expr.Within.says_typeSpine join env _ h.2.1)).bind fun thenType =>
        (Env.says_presentValueOf h.2.2.1 (Expr.Within.says_typeSpine join env _ h.2.2.1)).bind fun elseType =>
          (Env.says_branchType thenType elseType (join h.2.1.span h.2.2.1.span)).bind fun _ => says_pure _
  | .assign target value span, h =>
    exact (Env.says_targetOf h.1 (Expr.Within.says_typeSpine join env _ h.1)).bind fun type =>
      (Env.says_check type h.2.1 (Expr.Within.says_typeSpine join env _ h.2.1)).bind fun _ => says_pure _
  | .lambda params body span, h =>
    rw [Expr.typeSpine]
    refine (Env.says_lambdaParams h.1 _).bind fun types => ?_
    have value (inside : Env) : (inside.valueOf body (body.typeSpine inside .value)).Says (·.Within good) :=
      Env.says_valueOf h.2.1 (Expr.Within.says_typeSpine join inside _ h.2.1)
    dsimp only
    split
    · exact (value _).bind fun _ => says_pure _
    · exact (value _).bind fun _ => says_pure _
    · exact (Env.says_check _ h.2.1 (Expr.Within.says_typeSpine join _ _ h.2.1)).bind fun _ => says_pure _
  | .paren inner span, h =>
    rw [Expr.typeSpine.eq_def]
    dsimp only
    split
    · exact (Env.says_targetOf h.1 (Expr.Within.says_typeSpine join env _ h.1)).bind fun _ => says_pure _
    · exact (Expr.Within.says_typeSpine join env _ h.1).bind fun r => (Env.says_close h.1 r).bind fun _ => says_pure _
  | .access base (.invoke args) true span, h =>
    rw [Expr.typeSpine]
    have guarded (call : String) :
        ((TypingFault.guardedInvocation span call).report (guardSpan base span)).Says (·.Within good) :=
      says_note (TypingFault.within_finding h.2.2.2
        (List.forall_mem_singleton.2 (by rintro _ ⟨⟩; exact h.2.2.1)))
    exact (Env.says_valueOf h.1 (Expr.Within.says_typeSpine join env _ h.1)).bind fun _ =>
      (says_typeList join env h.2.1).bind fun _ => (guarded _).bind fun _ => says_pure _
  | .access base (.member text textSpan) true span, h =>
    rw [Expr.typeSpine]
    · refine (Env.says_valueOf h.1 (Expr.Within.says_typeSpine join env _ h.1)).bind fun type =>
        (Env.says_openChain h.1 type _).bind fun o => ?_
      split
      · exact (Link.Within.says_typeOnto join env _ h.2.2.1 h.2.1).bind fun _ => says_pure _
      · exact says_pure _
    · exact nofun
  | .access base (.element indices) true span, h =>
    rw [Expr.typeSpine]
    · refine (Env.says_valueOf h.1 (Expr.Within.says_typeSpine join env _ h.1)).bind fun type =>
        (Env.says_openChain h.1 type _).bind fun o => ?_
      split
      · exact (Link.Within.says_typeOnto join env _ h.2.2.1 h.2.1).bind fun _ => says_pure _
      · exact says_pure _
    · exact nofun
  | .access base link false span, h =>
    rw [Expr.typeSpine]
    refine (Expr.Within.says_typeSpine join env _ h.1).bind fun r => ?_
    split
    · exact (Link.Within.says_typeOnto join env _ h.2.2.1 h.2.1).bind fun _ => says_pure _
    · exact says_pure _
    · exact (Env.says_baseOperand _ goal link h.1).bind fun operand =>
        (Link.Within.says_typeOnto join env operand h.2.2.1 h.2.1).bind fun _ => says_pure _
  | .create type args entries span, h =>
    rw [Expr.typeSpine]
    refine (Env.says_resolve h.1).bind fun created => (Env.says_constructorOf created h.1.span).bind fun o => ?_
    have initialized : (do checkEntries env created entries; return .whole (.value created) false :
        Typed TypedSpine).Says (·.Within good) :=
      (says_checkEntries join env created h.2.2.1).bind fun _ => says_pure _
    split
    · exact (says_checkCount _ _ _ h.2.2.2).bind fun _ => (says_checkList join env _ h.2.1).bind fun _ => initialized
    · exact (says_typeList join env h.2.1).bind fun _ => initialized

/-- What is noted while a link is typed is noted in the link, or at the place of its operand. -/
theorem Link.Within.says_typeOnto (join : ∀ {a b : Span}, good a → good b → good (a.join b))
    (env : Env) (operand : Operand) {span : Span} (hs : good span) {link : Link} (h : link.Within good) :
    (link.typeOnto env operand span).Says (·.Within good) := by
  match link, h with
  | .member text textSpan, h =>
    exact (operand.says_type h).bind fun type => Env.says_memberOf type text h
  | .element indices, h =>
    rw [Link.typeOnto]
    refine (operand.says_type hs).bind fun type => (Env.says_indexerOf type _ hs).bind fun o => ?_
    split
    · exact (says_checkList join env _ h).bind fun _ => says_pure _
    · exact (says_typeList join env h).bind fun _ => says_pure _
  | .invoke args, h =>
    rw [Link.typeOnto]
    refine (operand.says_callee hs).bind fun o => ?_
    split
    · exact (says_checkCount _ _ _ hs).bind fun _ => (says_checkList join env _ h).bind fun _ => says_pure _
    · exact (says_typeList join env h).bind fun _ => says_pure _

/-- What is noted while expressions in a row are typed is noted in one of them. -/
theorem says_typeList (join : ∀ {a b : Span}, good a → good b → good (a.join b))
    (env : Env) {es : List Expr} (h : listWithin good es) : (typeList env es).Says (·.Within good) := by
  match es, h with
  | [], _ => exact says_pure _
  | e :: es, h =>
    exact (Env.says_valueOf h.1 (Expr.Within.says_typeSpine join env _ h.1)).bind fun _ => says_typeList join env h.2

/-- What is noted while arguments are checked is noted in one of them. -/
theorem says_checkList (join : ∀ {a b : Span}, good a → good b → good (a.join b))
    (env : Env) (params : List ParamSig) {es : List Expr} (h : listWithin good es) :
    (checkList env params es).Says (·.Within good) := by
  match params, es, h with
  | _, [], _ =>
    rw [checkList]
    exact says_pure _
  | [], e :: es, h =>
    exact (Env.says_valueOf h.1 (Expr.Within.says_typeSpine join env _ h.1)).bind fun _ =>
      says_checkList join env [] h.2
  | p :: ps, e :: es, h =>
    exact (Env.says_check _ h.1 (Expr.Within.says_typeSpine join env _ h.1)).bind fun _ =>
      says_checkList join env ps h.2

/-- What is noted while the entries of an initializer are checked is noted in one of them. -/
theorem says_checkEntries (join : ∀ {a b : Span}, good a → good b → good (a.join b))
    (env : Env) (type : Ty) {entries : List Entry} (h : entriesWithin good entries) :
    (checkEntries env type entries).Says (·.Within good) := by
  match entries, h with
  | [], _ => exact says_pure _
  | .member text span value :: entries, h =>
    exact (Env.says_memberTarget type text h.1).bind fun target =>
      (Env.says_check target h.2.1 (Expr.Within.says_typeSpine join env _ h.2.1)).bind fun _ =>
        says_checkEntries join env type h.2.2
  | .element indices span value :: entries, h =>
    rw [checkEntries]
    have rest (target : Ty) : (do
        env.check target value (value.typeSpine env (.against target))
        checkEntries env type entries : Typed Unit).Says (·.Within good) :=
      (Env.says_check target h.2.2.1 (Expr.Within.says_typeSpine join env _ h.2.2.1)).bind fun _ =>
        says_checkEntries join env type h.2.2.2
    have target (indexer : Option IndexerSig) : (Env.elementTarget type indexer span).Says (·.Within good) :=
      Env.says_entryTarget _ _ _ h.2.1
    split
    · exact (says_pure _).bind rest
    · dsimp only
      split
      · exact (says_checkList join env _ h.1).bind fun _ => (target _).bind rest
      · exact (says_typeList join env h.1).bind fun _ => (target _).bind rest

end
/-! ## Typers -/

/-- All findings of a typer are at good places. -/
def Typer.Located (good : Span → Prop) (t : Typer) : Prop :=
  ∀ d ∈ t.report.diagnostics, d.Within good

namespace Typer

variable {t : Typer}

/-- Keeping notes with places keeps findings at places. -/
theorem Located.keep (ht : t.Located good) {notes : List TypingNote} (hn : ∀ n ∈ notes, n.Within good)
    (chains : LoweredChains) (lowered : List LoweredExpr) : (t.keep notes chains lowered).Located good := by
  refine List.forall_mem_append.2 ⟨ht, fun d hd => ?_⟩
  obtain ⟨n, hmem, hf⟩ := List.mem_filterMap.1 hd
  cases n with
  | finding d' =>
    cases hf
    exact hn _ hmem
  | chain | name => cases hf

/-- Reporting a fault at a place keeps findings at places. -/
theorem Located.fault (ht : t.Located good) {fault : TypingFault} (hs : good span) (h : fault.suggestions = []) :
    (t.fault fault span).Located good :=
  ht.keep (TypingFault.says_report hs h) _ _

/-- Beginning a body keeps findings at places. -/
theorem Located.enter (ht : t.Located good) (phase : Phase) (isStatic : Bool) : (t.enter phase isStatic).Located good :=
  ht

/-- Opening a scope keeps findings at places. -/
theorem Located.pushScope (ht : t.Located good) : t.pushScope.Located good :=
  ht

/-- Declaring a local keeps findings at places. -/
theorem Located.declare (ht : t.Located good) (name : String) (type : Ty) : (t.declare name type).Located good :=
  ht

/-- Closing a scope keeps findings at places. -/
theorem Located.popScope (ht : t.Located good) : t.popScope.Located good := by
  unfold Typer.popScope
  split <;> exact ht

/-- Beginning a body with parameters keeps findings at places. -/
theorem Located.enterBody (ht : t.Located good) (params : List (String × Ty)) (isStatic : Bool) :
    (t.enterBody params isStatic).Located good :=
  List.foldlRecOn params _ (ht.enter _ _) fun _ ht p _ => ht.declare p.1 p.2

/-- A local whose type cannot be inferred is reported at its place. -/
theorem Located.inferLocal (ht : t.Located good) (name : String) (hs : good span) (found : Ty) :
    (t.inferLocal name span found).2.Located good := by
  unfold Typer.inferLocal
  split
  · exact ht.fault hs rfl
  · split
    · exact ht.fault hs rfl
    · exact ht
  · exact ht

section

variable (join : ∀ {a b : Span}, good a → good b → good (a.join b)) {e : Expr}

include join

/-- What is noted while a complete expression is typed is noted in it. -/
theorem says_rootType (env : Env) (he : e.Within good) (expectation : Expectation) :
    (rootType env e expectation).Says (·.Within good) := by
  have row (goal : Goal) : (e.typeSpine env goal).Says (·.Within good) := Expr.Within.says_typeSpine join env goal he
  cases expectation with
  | type expected => exact (Env.says_check expected he (row _)).bind fun _ => says_pure _
  | value => exact Env.says_presentValueOf he (row _)
  | discard => exact Env.says_valueOf he (row _)

/-- A complete expression keeps findings at places. -/
theorem Located.checkRoot (ht : t.Located good) (he : e.Within good) (expectation : Expectation) :
    (t.checkRoot e expectation).2.Located good := by
  have hn := says_rootType join t.env he expectation
  unfold Typer.checkRoot
  dsimp only
  split <;> exact ht.keep hn _ _

/-- The same, without the type. -/
theorem Located.checked (ht : t.Located good) (he : e.Within good) (expectation : Expectation) :
    (t.checked e expectation).Located good :=
  ht.checkRoot join he expectation

/-! ## Statements -/

/-- A `return` that does not fit is reported in its value, or at its own place. -/
theorem Located.checkReturn (ht : t.Located good) (result : Ty) {value : Option Expr} (hv : ∀ e ∈ value, e.Within good)
    (hs : good span) : (t.checkReturn result value span).Located good := by
  unfold Typer.checkReturn
  split
  · rename_i e
    exact (ht.checked join (hv e rfl) _).fault (hv e rfl).span rfl
  · exact ht.checked join (hv _ rfl) _
  · exact ht
  · exact ht
  · exact ht.fault hs rfl

/-- A declaration of a local keeps findings at places. -/
theorem Located.checkLocal (ht : t.Located good) {type : Option TypeExpr} (name : String) {init : Option Expr}
    (hw : ∀ t ∈ type, t.Within good) (hs : good span) (hi : ∀ e ∈ init, e.Within good) :
    (t.checkLocal type name span init).Located good := by
  cases type with
  | some written =>
    have hr : (t.run fun env => env.resolve written).2.Located good := ht.keep (Env.says_resolve (hw written rfl)) _ _
    cases init with
    | none => exact hr.declare _ _
    | some e => exact (hr.checked join (hi e rfl) _).declare _ _
  | none =>
    cases init with
    | none => exact ht.declare _ _
    | some e => exact ((ht.checkRoot join (hi e rfl) _).inferLocal name hs _).declare _ _

end

mutual

/-- A statement keeps findings at places. -/
theorem Located.statement (join : ∀ {a b : Span}, good a → good b → good (a.join b)) {t : Typer} (ht : t.Located good)
    (result : Ty) {s : Statement} (h : s.Within good) : (statement result s t).Located good := by
  match s, h with
  | .block list _, h => exact (Located.statements join ht.pushScope result h.1).popScope
  | .give value _, h => exact ht.checkReturn join result h.1 h.2
  | .branch condition thenBranch none _, h =>
    exact (Located.statement join (ht.checked join h.1 _).pushScope result h.2.1).popScope
  | .branch condition thenBranch (some elseBranch) _, h =>
    have hthen := (Located.statement join (ht.checked join h.1 (.type .bool)).pushScope result h.2.1).popScope
    exact (Located.statement join hthen.pushScope result h.2.2.1).popScope
  | .local type name _ init _, h => exact ht.checkLocal join name h.1 h.2.1 h.2.2.1
  | .expr e, h => exact ht.checked join h _

/-- So do statements in a row. -/
theorem Located.statements (join : ∀ {a b : Span}, good a → good b → good (a.join b)) {t : Typer} (ht : t.Located good)
    (result : Ty) {list : List Statement} (h : statementsWithin good list) : (statements result list t).Located good := by
  match list, h with
  | [], _ => exact ht
  | s :: rest, h => exact Located.statements join (Located.statement join ht result h.1) result h.2

end

section

variable (join : ∀ {a b : Span}, good a → good b → good (a.join b))

include join

/-- So does a body. -/
theorem Located.body (ht : t.Located good) (result : Ty) {b : Body} (h : b.Within good) : (t.body result b).Located good := by
  cases b with
  | expr e => exact ht.checked join h _
  | block b => exact (ht.pushScope.statements join result h).popScope

/-! ## Members and headers -/

/-- So does the initial value of a member. -/
theorem Located.initializer (ht : t.Located good) (m : Member) (type : Ty) {init : Option Expr}
    (h : ∀ e ∈ init, e.Within good) : (t.initializer m type init).Located good := by
  cases init with
  | none => exact ht
  | some e => exact (ht.enter _ _).checked join (h e rfl) _

/-- So do the default values of parameters. -/
theorem Located.defaults (ht : t.Located good) {params : List Param} (h : ∀ p ∈ params, p.Within good) (isStatic : Bool) :
    (t.defaults params isStatic).Located good := by
  refine List.foldlRecOn params _ ht fun t ht p hp => ?_
  split
  · exact (ht.enter _ _).checked join ((h p hp).default _ ‹_›) _
  · exact ht

/-- So does the body of a property. -/
theorem Located.propertyBody (ht : t.Located good) (params : List (String × Ty)) (type : Ty) (isStatic : Bool)
    {b : PropertyBody} (h : b.Within good) : (t.propertyBody params type isStatic b).Located good := by
  cases b with
  | expr e => exact (ht.enterBody params isStatic).checked join h _
  | accessors list =>
    refine List.foldlRecOn list _ ht fun t ht a ha => ?_
    unfold Typer.accessor
    split
    · exact ht
    · have hb := h a ha _ ‹_›
      dsimp only
      split
      · exact (ht.enterBody params isStatic).body join _ hb
      · exact ((ht.enterBody params isStatic).declare _ _).body join _ hb

/-- So does a member. -/
theorem Located.member (ht : t.Located good) {m : Member} (h : m.Within good) : (t.member m).Located good := by
  obtain ⟨-, -, h⟩ := h
  cases m with
  | field f => exact ht.initializer join _ _ h.2
  | property p => exact (ht.propertyBody join _ _ _ h.2.1).initializer join _ _ h.2.2
  | method d => exact ((ht.defaults join h.2.1 _).enterBody _ _).body join _ h.2.2
  | indexer i => exact (ht.defaults join h.2.1 _).propertyBody join _ _ _ h.2.2

/-- So do the default values of primary parameters. -/
theorem Located.primaryDefaults (ht : t.Located good) {params : List PrimaryParam} (h : ∀ p ∈ params, p.Within good)
    (signatures : List ParamSig) : (t.primaryDefaults params signatures).Located good := by
  refine List.foldlRecOn (params.zip signatures) _ ht fun t ht p hp => ?_
  dsimp only
  split
  · exact (ht.enter _ _).checked join ((h p.1 (List.of_mem_zip hp).1).default _ ‹_›) _
  · exact ht

/-- So do the arguments of a base. -/
theorem Located.baseArguments (ht : t.Located good) (params : List ParamSig) {es : List Expr} (h : ∀ e ∈ es, e.Within good) :
    (t.baseArguments params es).Located good := by
  induction es generalizing t params with
  | nil =>
    rw [Typer.baseArguments.eq_def]
    cases params <;> exact ht
  | cons e es ih =>
    obtain ⟨he, hes⟩ := List.forall_mem_cons.1 h
    cases params with
    | nil => exact ih (ht.checked join he _) [] hes
    | cons p ps => exact ih (ht.checked join he _) ps hes

/-- So does the base of a declaration. -/
theorem Located.baseOf (ht : t.Located good) {d : TypeDecl} (h : d.Within good) (base : Option Ty) :
    (t.baseOf d base).Located good := by
  unfold Typer.baseOf
  split
  · rename_i args span hb
    have hw := h.base _ hb
    dsimp only
    split
    · exact (ht.enter _ _).baseArguments join [] hw.args
    · refine Located.baseArguments join ?_ _ hw.args
      split
      · exact ht.enter _ _
      · exact (ht.enter _ _).fault hw.span rfl
  · exact ht

end

end Typer

/-- What is found in the code of a unit is found at its places. -/
theorem SourceUnit.Within.diagnostics_check {u : SourceUnit} (join : ∀ {a b : Span}, good a → good b → good (a.join b))
    (h : u.Within good) (table : TypeTable) : ∀ d ∈ (u.check table).diagnostics, d.Within good := by
  have one : ∀ d ∈ u.types, ∀ finding ∈ (d.check table).diagnostics, finding.Within good := by
    intro d hd
    have hw := h d hd
    unfold TypeDecl.check
    split
    · exact List.forall_mem_nil _
    · rename_i info t hopen
      have hstart : t.Located good := by
        unfold TypeDecl.typer? at hopen
        split at hopen
        · split at hopen
          · cases hopen
            exact List.forall_mem_nil _
          · cases hopen
        · cases hopen
      have hbase := (hstart.primaryDefaults join hw.params info.constructor).baseOf join hw info.base
      exact List.foldlRecOn (motive := Typer.Located good) d.members _ hbase fun _ ht m hm => ht.member join (hw.members m hm)
  have empty : ∀ d ∈ TypingReport.empty.diagnostics, d.Within good := List.forall_mem_nil _
  refine List.foldlRecOn (motive := fun r : TypingReport => ∀ d ∈ r.diagnostics, d.Within good) _ _ empty
    fun r hr report hmem => ?_
  obtain ⟨d, hd, rfl⟩ := List.mem_map.1 hmem
  exact List.forall_mem_append.2 ⟨hr, one d hd⟩

end NavCheck
