import Mathlib.Data.List.Perm.Basic
import NavCheck.Proofs.Guards
import NavCheck.Proofs.Outcomes
import NavCheck.Proofs.Visits
import NavCheck.Text.Digest

/-!
# Calls behind a question mark

A call must not stand behind a `?`. Typing reports such a call at its `?` at most once, and reports nothing else that way. It
comes to every such call but those in two kinds of places: in the operands of the accesses of a chain, which are passed over
when the root of the chain is refused, and in the indices of an entry of an initializer, which are passed over when the type
to be created is unknown.
-/

namespace NavCheck

/-! ## The calls of expressions -/

/-- The place of the `?` of a call behind one. -/
def Expr.guardedCall? : Expr → Option Span
  | .access base (.invoke _) true span => some (guardSpan base span)
  | _ => none

mutual

/-- The calls behind a `?` in an expression, by the places of their `?` and in the order of typing: all of them, or without
those that typing may pass over. -/
def Expr.guardedCalls (all : Bool) : Expr → List Span
  | .literal _ _ | .name _ _ | .self _ => []
  | .unary _ operand _ => operand.guardedCalls all
  | .binary _ left right _ => left.guardedCalls all ++ right.guardedCalls all
  | .conditional condition thenBranch elseBranch _ =>
    condition.guardedCalls all ++ thenBranch.guardedCalls all ++ elseBranch.guardedCalls all
  | .assign target value _ => target.guardedCalls all ++ value.guardedCalls all
  | .lambda _ body _ => body.guardedCalls all
  | .paren inner _ => inner.guardedCalls all
  | .access base (.invoke args) true span =>
    base.guardedCalls all ++ listGuardedCalls all args ++ [guardSpan base span]
  | .access base (.element indices) true _ =>
    base.guardedCalls all ++ if all then listGuardedCalls all indices else []
  | .access base (.member _ _) true _ => base.guardedCalls all
  | .access base link false _ => base.guardedCalls all ++ if all || !base.onChain then link.guardedCalls all else []
  | .create _ args entries _ => listGuardedCalls all args ++ entryGuardedCalls all entries

/-- The calls behind a `?` in the operands of a link. -/
def Link.guardedCalls (all : Bool) : Link → List Span
  | .member _ _ => []
  | .element indices => listGuardedCalls all indices
  | .invoke args => listGuardedCalls all args

/-- The calls behind a `?` in several expressions. -/
def listGuardedCalls (all : Bool) : List Expr → List Span
  | [] => []
  | e :: es => e.guardedCalls all ++ listGuardedCalls all es

/-- The calls behind a `?` in the entries of an initializer. -/
def entryGuardedCalls (all : Bool) : List Entry → List Span
  | [] => []
  | .member _ _ value :: entries => value.guardedCalls all ++ entryGuardedCalls all entries
  | .element indices _ value :: entries =>
    (if all then listGuardedCalls all indices else []) ++ value.guardedCalls all ++ entryGuardedCalls all entries

end

mutual

/-- The calls behind a `?` in an expression are its nodes of that kind. -/
theorem Expr.perm_guardedCalls : ∀ e : Expr, (e.guardedCalls true).Perm (e.nodes.filterMap Expr.guardedCall?)
  | .literal _ _ | .name _ _ | .self _ => .refl _
  | .unary _ operand _ => operand.perm_guardedCalls
  | .binary _ left right _ => by
    simpa [Expr.guardedCalls, Expr.nodes, List.filterMap_cons, Expr.guardedCall?] using
      left.perm_guardedCalls.append right.perm_guardedCalls
  | .conditional condition thenBranch elseBranch _ => by
    simpa [Expr.guardedCalls, Expr.nodes, List.filterMap_cons, Expr.guardedCall?] using
      condition.perm_guardedCalls.append (thenBranch.perm_guardedCalls.append elseBranch.perm_guardedCalls)
  | .assign target value _ => by
    simpa [Expr.guardedCalls, Expr.nodes, List.filterMap_cons, Expr.guardedCall?] using
      target.perm_guardedCalls.append value.perm_guardedCalls
  | .lambda _ body _ => body.perm_guardedCalls
  | .paren inner _ => inner.perm_guardedCalls
  | .access base (.invoke args) true span => by
    rw [Expr.guardedCalls]
    refine (List.perm_append_singleton _ _).trans ?_
    simpa [Expr.nodes, Link.nodes, List.filterMap_cons, Expr.guardedCall?] using
      base.perm_guardedCalls.append (perm_listGuardedCalls args)
  | .access base (.element indices) true _ => by
    simpa [Expr.guardedCalls, Expr.nodes, Link.nodes, List.filterMap_cons, Expr.guardedCall?] using
      base.perm_guardedCalls.append (perm_listGuardedCalls indices)
  | .access base (.member _ _) true _ => by
    simpa [Expr.guardedCalls, Expr.nodes, Link.nodes, List.filterMap_cons, Expr.guardedCall?] using base.perm_guardedCalls
  | .access base link false _ => by
    simpa [Expr.guardedCalls, Expr.nodes, List.filterMap_cons, Expr.guardedCall?] using
      base.perm_guardedCalls.append link.perm_guardedCalls
  | .create _ args entries _ => by
    simpa [Expr.guardedCalls, Expr.nodes, List.filterMap_cons, Expr.guardedCall?] using
      (perm_listGuardedCalls args).append (perm_entryGuardedCalls entries)

/-- All guarded calls in a link are those of its nodes. -/
theorem Link.perm_guardedCalls :
    ∀ link : Link, (link.guardedCalls true).Perm (link.nodes.filterMap Expr.guardedCall?)
  | .member _ _ => .refl _
  | .element indices => perm_listGuardedCalls indices
  | .invoke args => perm_listGuardedCalls args

/-- All guarded calls in expressions are those of their nodes. -/
theorem perm_listGuardedCalls :
    ∀ es : List Expr, (listGuardedCalls true es).Perm ((listNodes es).filterMap Expr.guardedCall?)
  | [] => .refl _
  | e :: es => by
    simpa [listGuardedCalls, listNodes] using e.perm_guardedCalls.append (perm_listGuardedCalls es)

/-- All guarded calls in entries are those of their nodes. -/
theorem perm_entryGuardedCalls :
    ∀ entries : List Entry, (entryGuardedCalls true entries).Perm ((entryNodes entries).filterMap Expr.guardedCall?)
  | [] => .refl _
  | .member _ _ value :: entries => by
    simpa [entryGuardedCalls, entryNodes] using value.perm_guardedCalls.append (perm_entryGuardedCalls entries)
  | .element indices _ value :: entries => by
    simpa [entryGuardedCalls, entryNodes] using
      (perm_listGuardedCalls indices).append (value.perm_guardedCalls.append (perm_entryGuardedCalls entries))

end

/-! ## Reports of calls -/

/-- The calls behind a `?` that are reported among notes. -/
def rejectionsOf (notes : List TypingNote) : List Span :=
  (findingsOf notes).filterMap Diagnostic.rejection?

/-- The calls reported in notes one after the other are those of both. -/
theorem rejectionsOf_append (a b : List TypingNote) : rejectionsOf (a ++ b) = rejectionsOf a ++ rejectionsOf b := by
  rw [rejectionsOf, findingsOf, List.filterMap_append, List.filterMap_append]
  rfl

/-- A part of typing that reports no call. -/
def Calm {α : Type} (x : Typed α) : Prop :=
  rejectionsOf x.notes = []

/-- Notes that report calls: each of those in `sure`, and of those in `all` at most, in the same order. -/
structure Rejects (sure all : List Span) (notes : List TypingNote) : Prop where
  sure : sure.Sublist (rejectionsOf notes)
  all : (rejectionsOf notes).Sublist all

section

variable {α β : Type} {sure all more most : List Span} {a b : List TypingNote}

/-- A quiet part of typing reports no call. -/
theorem Quiet.calm {x : Typed α} (h : Quiet x) : Calm x := by
  refine List.filterMap_eq_nil_iff.2 fun d hd => ?_
  obtain ⟨n, hn, hf⟩ := List.mem_filterMap.1 hd
  cases n with
  | finding d' =>
    cases hf
    have hp : d.rejection? = none ∧ d.isUnknownResult = false := by simpa [TypingNote.isPlain] using h _ hn
    exact hp.1
  | chain | name => cases hf

/-- A part of typing that reports no call has none to report. -/
theorem Calm.rejects {x : Typed α} (h : Calm x) : Rejects [] [] x.notes :=
  ⟨List.nil_sublist _, by rw [h]⟩

/-- Notes one after the other report the calls of both. -/
theorem Rejects.append (h : Rejects sure all a) (h' : Rejects more most b) : Rejects (sure ++ more) (all ++ most) (a ++ b) := by
  constructor
  · rw [rejectionsOf_append]
    exact h.sure.append h'.sure
  · rw [rejectionsOf_append]
    exact h.all.append h'.all

/-- Parts of typing one after the other report the calls of both. -/
theorem Rejects.bind {x : Typed α} {f : α → Typed β} (h : Rejects sure all x.notes)
    (hf : Rejects more most (f x.value).notes) : Rejects (sure ++ more) (all ++ most) (x >>= f).notes :=
  h.append hf

/-- A part that reports no call adds none behind another. -/
theorem Rejects.bind_calm {x : Typed α} {f : α → Typed β} (h : Rejects sure all x.notes) (hf : ∀ v, Calm (f v)) :
    Rejects sure all (x >>= f).notes := by
  simpa using h.append (hf x.value).rejects

/-- A part that reports no call adds none in front of another. -/
theorem Rejects.calm_bind {x : Typed α} {f : α → Typed β} (h : Calm x) (hf : Rejects sure all (f x.value).notes) :
    Rejects sure all (x >>= f).notes :=
  h.rejects.append hf

/-- Fewer calls are surely reported, and more at most. -/
theorem Rejects.mono (h : Rejects sure all a) (hs : more.Sublist sure) (ha : all.Sublist most) : Rejects more most a :=
  ⟨hs.trans h.sure, h.all.trans ha⟩

/-- Parts that report no call report none one after the other. -/
theorem Calm.bind {x : Typed α} {f : α → Typed β} (h : Calm x) (hf : ∀ v, Calm (f v)) : Calm (x >>= f) := by
  have hf := hf x.value
  rw [Calm] at *
  rw [Noted.notes_bind, rejectionsOf_append, h, hf, List.append_nil]

/-- The report of a call behind a `?`. -/
theorem rejects_guardedInvocation (call : Span) (replacement : String) (guard : Span) :
    Rejects [guard] [guard] ((TypingFault.guardedInvocation call replacement).report guard).notes :=
  ⟨.refl _, .refl _⟩

end

/-- Ending a row of accesses reports no call. -/
theorem calm_close (env : Env) (top : Expr) (row : TypedSpine) : Calm (env.close top row) := by
  have hc : ∀ (record : NavigationRecord) (plan : Option ChainPlan), Calm (Noted.note (.chain record plan)) := fun _ _ => rfl
  cases row with
  | whole operand settable => exact (quiet_pure operand).calm
  | refused => exact (quiet_pure (Operand.value .error)).calm
  | chain c =>
    refine Calm.bind ?_ fun _ => (quiet_pure _).calm
    unfold Env.closeChain
    refine (quiet_operand_type _ _).calm.bind fun type => ?_
    split
    · exact (quiet_pure Ty.error).calm
    · dsimp only
      split
      · have hr : Calm ((TypingFault.unknownResult type top.text).report top.span) := rfl
        exact hr.bind fun _ => (hc _ _).bind fun _ => (quiet_pure _).calm
      · exact (hc _ _).bind fun _ => (quiet_pure _).calm

section

variable {env : Env} {e : Expr} {spine : Typed TypedSpine} {sure all : List Span}

/-- What is reported when an expression is typed is reported when it is typed as a value. -/
theorem Rejects.valueOf (h : Rejects sure all spine.notes) : Rejects sure all (env.valueOf e spine).notes :=
  h.bind_calm fun row => (calm_close env e row).bind fun o => (quiet_operand_type o e.span).calm

/-- The same where the value must not be `void`. -/
theorem Rejects.presentValueOf (h : Rejects sure all spine.notes) : Rejects sure all (env.presentValueOf e spine).notes :=
  h.valueOf.bind_calm fun type => (quiet_requireValue type e.span).calm

/-- The same where the value is checked against a type. -/
theorem Rejects.check (h : Rejects sure all spine.notes) (expected : Ty) :
    Rejects sure all (env.check expected e spine).notes := by
  refine h.presentValueOf.bind_calm fun found => ?_
  split
  · exact (quiet_report _ _ rfl).calm
  · exact (quiet_pure _).calm

/-- The same where the expression is the target of an assignment. -/
theorem Rejects.targetOf (h : Rejects sure all spine.notes) : Rejects sure all (env.targetOf e spine).notes := by
  refine h.bind_calm fun row => (calm_close env e row).bind fun o => (quiet_operand_type o e.span).calm.bind fun type => ?_
  split
  · exact (quiet_report_then _ rfl).calm
  split
  · exact (quiet_pure _).calm
  · split
    · exact (quiet_report_then _ rfl).calm
    · exact (quiet_pure _).calm

end

/-- Typing a guarded access that is no call comes to its operands when the chain is not refused. -/
theorem rejects_guarded {env : Env} {base : Expr} {link : Link} {span : Span} {sure all more most : List Span}
    (hb : Rejects sure all (env.valueOf base (base.typeSpine env .value)).notes)
    (hl : ∀ operand, Rejects more most (link.typeOnto env operand span).notes) :
    Rejects sure (all ++ most) (do
      let type ← env.valueOf base (base.typeSpine env .value)
      match ← env.openChain base type (guardSpan base span) with
      | some c => return .chain { c with operand := ← link.typeOnto env c.operand span }
      | none => return .refused : Typed TypedSpine).notes := by
  have rest : ∀ o : Option TypedChain, Rejects [] most
      (match o with
        | some c => do return TypedSpine.chain { c with operand := ← link.typeOnto env c.operand span }
        | none => return .refused : Typed TypedSpine).notes := by
    intro o
    cases o with
    | none => exact (quiet_pure TypedSpine.refused).calm.rejects.mono (.refl _) (List.nil_sublist _)
    | some c => exact ((hl c.operand).bind_calm fun _ => (quiet_pure _).calm).mono (List.nil_sublist _) (.refl _)
  refine Rejects.mono ?_ (List.sublist_append_left sure []) (.refl _)
  exact hb.bind (Rejects.calm_bind (quiet_openChain env base _ (guardSpan base span)).calm (rest _))

/-- A row without a `?` is no chain. -/
theorem Expr.typeSpine_whole (env : Env) :
    ∀ (e : Expr) (goal : Goal), e.onChain = false →
      ∃ operand settable, (e.typeSpine env goal).value = .whole operand settable
  | .access base link false span, goal, h => by
    obtain ⟨operand, settable, hb⟩ := base.typeSpine_whole env .value h
    rw [Expr.typeSpine, Noted.value_bind, hb]
    exact ⟨_, _, rfl⟩
  | .access base link true span, goal, h => by cases h
  | .paren inner _, goal, _ => by
    rw [Expr.typeSpine.eq_def]
    cases goal <;> exact ⟨_, _, rfl⟩
  | .literal .., _, _ | .name .., _, _ | .self .., _, _ | .unary .., _, _ | .binary .., _, _ | .conditional .., _, _
  | .assign .., _, _ => ⟨_, _, rfl⟩
  | .lambda params body span, goal, _ => by
    rw [Expr.typeSpine]
    dsimp only [Noted.value_bind]
    split <;> exact ⟨_, _, rfl⟩
  | .create type args entries span, goal, _ => by
    rw [Expr.typeSpine]
    dsimp only [Noted.value_bind]
    split <;> exact ⟨_, _, rfl⟩

mutual

/-- Typing a row of accesses reports the calls in it. -/
theorem Expr.rejects_typeSpine (env : Env) (goal : Goal) :
    ∀ e : Expr, Rejects (e.guardedCalls false) (e.guardedCalls true) (e.typeSpine env goal).notes
  | .literal value _ => (quiet_pure _).calm.rejects
  | .name text span => by
    have hn : Calm (Noted.note (.name ⟨text, span, env.meaning text⟩)) := rfl
    exact (hn.bind fun _ => (quiet_operandOf _ _ _ _).calm).rejects.bind_calm fun _ => (quiet_pure _).calm
  | .self span => (quiet_selfType env span).calm.rejects.bind_calm fun _ => (quiet_pure _).calm
  | .unary op operand span =>
    (operand.rejects_typeSpine env .value).presentValueOf.bind_calm fun _ =>
      ((quiet_unaryType _ _ _).bind fun _ => quiet_pure _).calm
  | .binary op left right span =>
    (left.rejects_typeSpine env .value).presentValueOf.bind <|
      (right.rejects_typeSpine env .value).presentValueOf.bind_calm fun _ =>
        ((quiet_binaryType _ _ _ _ _ _).bind fun _ => quiet_pure _).calm
  | .conditional condition thenBranch elseBranch span => by
    rw [Expr.guardedCalls, Expr.guardedCalls, List.append_assoc, List.append_assoc]
    exact ((condition.rejects_typeSpine env (.against .bool)).check .bool).bind <|
      (thenBranch.rejects_typeSpine env .value).presentValueOf.bind <|
        (elseBranch.rejects_typeSpine env .value).presentValueOf.bind_calm fun _ =>
          ((quiet_branchType _ _ _ _).bind fun _ => quiet_pure _).calm
  | .assign target value span =>
    (target.rejects_typeSpine env .target).targetOf.bind <|
      ((value.rejects_typeSpine env (.against _)).check _).bind_calm fun _ => (quiet_pure _).calm
  | .lambda params body span => by
    refine Rejects.calm_bind (quiet_lambdaParams _ _ _).calm ?_
    dsimp only
    split
    · exact (body.rejects_typeSpine _ .value).valueOf.bind_calm fun _ => (quiet_pure _).calm
    · exact (body.rejects_typeSpine _ .value).valueOf.bind_calm fun _ => (quiet_pure _).calm
    · exact ((body.rejects_typeSpine _ (.against _)).check _).bind_calm fun _ =>
        ((quiet_pure _).bind fun _ => quiet_pure _).calm
  | .paren inner span => by
    have hv := inner.rejects_typeSpine env .value
    have ht := inner.rejects_typeSpine env .target
    rw [Expr.typeSpine.eq_def]
    dsimp only
    split
    · exact ht.targetOf.bind_calm fun _ => (quiet_pure _).calm
    · exact hv.bind_calm fun row => (calm_close env inner row).bind fun _ => (quiet_pure _).calm
  | .access base (.invoke args) true span => by
    have ha : ∀ call text, Rejects (listGuardedCalls false args ++ [guardSpan base span])
        (listGuardedCalls true args ++ [guardSpan base span])
        (do
          typeList env args
          (TypingFault.guardedInvocation call text).report (guardSpan base span)
          return TypedSpine.refused : Typed TypedSpine).notes := fun call text =>
      (rejects_typeList env args).append
        ((rejects_guardedInvocation call text _).bind_calm fun _ => (quiet_pure TypedSpine.refused).calm)
    rw [Expr.guardedCalls, Expr.guardedCalls, List.append_assoc, List.append_assoc]
    exact (base.rejects_typeSpine env .value).valueOf.bind (ha _ _)
  | .access base (.member name nameSpan) true span => by
    have hg := rejects_guarded (base.rejects_typeSpine env .value).valueOf fun operand =>
      (Link.member name nameSpan).rejects_typeOnto env operand span
    rw [Link.guardedCalls, List.append_nil] at hg
    exact hg
  | .access base (.element indices) true span => by
    have hg := rejects_guarded (base.rejects_typeSpine env .value).valueOf fun operand =>
      (Link.element indices).rejects_typeOnto env operand span
    rw [Expr.guardedCalls, Expr.guardedCalls, if_neg Bool.false_ne_true, List.append_nil]
    exact hg
  | .access base link false span => by
    have hb := base.rejects_typeSpine env .value
    have hl := fun operand => link.rejects_typeOnto env operand span
    have sublist : ∀ b : Bool, (if b then link.guardedCalls false else []).Sublist (link.guardedCalls false) := by
      intro b
      cases b
      · exact List.nil_sublist _
      · exact .refl _
    rw [Expr.guardedCalls, Expr.guardedCalls, Expr.typeSpine]
    cases hs : (base.typeSpine env .value).value with
    | whole operand settable =>
      refine Rejects.mono (hb.append ?_) ((List.Sublist.refl _).append (sublist _)) (.refl _)
      rw [hs]
      exact Rejects.calm_bind (quiet_baseOperand _ _ _ _).calm ((hl _).bind_calm fun _ => (quiet_pure _).calm)
    | chain c =>
      refine Rejects.mono (hb.append ?_) ((List.Sublist.refl _).append (sublist _)) (.refl _)
      rw [hs]
      exact (hl c.operand).bind_calm fun _ => (quiet_pure _).calm
    | refused =>
      have hon : base.onChain = true := by
        by_contra h
        obtain ⟨operand, settable, hw⟩ := base.typeSpine_whole env .value (by simpa using h)
        cases hs.symm.trans hw
      rw [hon]
      refine Rejects.mono (hb.append ?_) (.refl _) ((List.Sublist.refl _).append (List.nil_sublist _))
      rw [hs]
      exact (quiet_pure TypedSpine.refused).calm.rejects
  | .create type args entries span => by
    have he := fun created => (rejects_checkEntries env created entries).bind_calm
      fun _ => (quiet_pure (TypedSpine.whole (.value created) false)).calm
    refine Rejects.calm_bind (quiet_resolve _ _).calm (Rejects.calm_bind (quiet_constructorOf _ _ _).calm ?_)
    split
    · exact Rejects.calm_bind (quiet_checkCount _ _ _ _).calm ((rejects_checkList env _ args).bind (he _))
    · exact (rejects_typeList env args).bind (he _)

/-- Typing the access of a link reports the calls in its operands. -/
theorem Link.rejects_typeOnto (env : Env) (operand : Operand) (span : Span) :
    ∀ link : Link, Rejects (link.guardedCalls false) (link.guardedCalls true) (link.typeOnto env operand span).notes
  | .member name nameSpan => ((quiet_operand_type _ _).bind fun _ => quiet_memberOf _ _ _ _).calm.rejects
  | .element indices => by
    refine Rejects.calm_bind (quiet_operand_type _ _).calm (Rejects.calm_bind (quiet_indexerOf _ _ _ _).calm ?_)
    split
    · exact (rejects_checkList env _ indices).bind_calm fun _ => (quiet_pure _).calm
    · exact (rejects_typeList env indices).bind_calm fun _ => (quiet_pure _).calm
  | .invoke args => by
    refine Rejects.calm_bind (quiet_callee _ _).calm ?_
    split
    · exact Rejects.calm_bind (quiet_checkCount _ _ _ _).calm <|
        (rejects_checkList env _ args).bind_calm fun _ => (quiet_pure _).calm
    · exact (rejects_typeList env args).bind_calm fun _ => (quiet_pure _).calm

/-- Typing expressions reports the guarded calls in them. -/
theorem rejects_typeList (env : Env) :
    ∀ es : List Expr, Rejects (listGuardedCalls false es) (listGuardedCalls true es) (typeList env es).notes
  | [] => (quiet_pure _).calm.rejects
  | e :: es => (e.rejects_typeSpine env .value).valueOf.bind (rejects_typeList env es)

/-- Checking expressions against parameters reports the guarded calls in them. -/
theorem rejects_checkList (env : Env) :
    ∀ (params : List ParamSig) (es : List Expr),
      Rejects (listGuardedCalls false es) (listGuardedCalls true es) (checkList env params es).notes
  | _, [] => by
    rw [checkList.eq_def]
    exact (quiet_pure _).calm.rejects
  | [], e :: es => (e.rejects_typeSpine env .value).valueOf.bind (rejects_checkList env [] es)
  | p :: ps, e :: es => ((e.rejects_typeSpine env (.against p.type)).check p.type).bind (rejects_checkList env ps es)

/-- Checking the entries of an initializer reports the calls in them, but perhaps not those in indices. -/
theorem rejects_checkEntries (env : Env) (type : Ty) :
    ∀ entries : List Entry,
      Rejects (entryGuardedCalls false entries) (entryGuardedCalls true entries) (checkEntries env type entries).notes
  | [] => (quiet_pure _).calm.rejects
  | .member name span value :: entries =>
    Rejects.calm_bind (quiet_memberTarget _ _ _ _).calm <|
      ((value.rejects_typeSpine env (.against _)).check _).bind (rejects_checkEntries env type entries)
  | .element indices span value :: entries => by
    have hv : ∀ target : Ty, Rejects (value.guardedCalls false ++ entryGuardedCalls false entries)
        (value.guardedCalls true ++ entryGuardedCalls true entries)
        (do
          env.check target value (value.typeSpine env (.against target))
          checkEntries env type entries : Typed Unit).notes := fun target =>
      ((value.rejects_typeSpine env (.against target)).check target).bind (rejects_checkEntries env type entries)
    rw [entryGuardedCalls, entryGuardedCalls, if_neg Bool.false_ne_true, if_pos rfl, List.nil_append, List.append_assoc,
      checkEntries]
    split
    · refine Rejects.mono ?_ (.refl _) (List.sublist_append_right _ _)
      exact Rejects.calm_bind (quiet_pure _).calm (hv _)
    · refine Rejects.mono ?_ (List.sublist_append_right (listGuardedCalls false indices) _) (.refl _)
      dsimp only
      split
      · exact (rejects_checkList env _ indices).bind (Rejects.calm_bind (quiet_entryTarget _ _ _ _).calm (hv _))
      · exact (rejects_typeList env indices).bind (Rejects.calm_bind (quiet_entryTarget _ _ _ _).calm (hv _))

end

/-- Typing a complete expression reports the calls in it. -/
theorem rejects_rootType (env : Env) (e : Expr) (expectation : Expectation) :
    Rejects (e.guardedCalls false) (e.guardedCalls true) (Typer.rootType env e expectation).notes := by
  cases expectation with
  | type expected =>
    exact ((e.rejects_typeSpine env (.against expected)).check expected).bind_calm fun _ => (quiet_pure expected).calm
  | value => exact (e.rejects_typeSpine env .value).presentValueOf
  | discard => exact (e.rejects_typeSpine env .value).valueOf

/-! ## Reports of declarations -/

/-- A visit reports the calls of its sites behind what was reported before. -/
theorem Typer.Visits.rejects {t t' : Typer} {ss : List Site} (h : t.Visits ss t') :
    ∃ notes, t'.report.diagnostics = t.report.diagnostics ++ findingsOf notes ∧
      Rejects (ss.flatMap (·.expr.guardedCalls false)) (ss.flatMap (·.expr.guardedCalls true)) notes := by
  induction h with
  | refl => exact ⟨[], (List.append_nil _).symm, (quiet_pure ()).calm.rejects⟩
  | move env _ _ _ ih => exact ih
  | @quiet u sites α part h hq ih =>
    obtain ⟨notes, hd, hr⟩ := ih
    refine ⟨notes ++ (part u.env).notes, ?_, by simpa using hr.append hq.calm.rejects⟩
    rw [findingsOf, List.filterMap_append, ← List.append_assoc]
    exact congrArg (· ++ _) hd
  | @root u sites site expectation h _ _ ih =>
    obtain ⟨notes, hd, hr⟩ := ih
    refine ⟨notes ++ (rootType u.env site.expr expectation).notes, ?_, ?_⟩
    · rw [findingsOf, List.filterMap_append, ← List.append_assoc,
        show List.filterMap _ notes = findingsOf notes from rfl, ← hd]
      exact u.diagnostics_checked site.expr expectation
    · rw [List.flatMap_append, List.flatMap_append]
      simpa using hr.append (rejects_rootType u.env site.expr expectation)

/-- The calls behind a `?` among nodes are guards of nodes. -/
theorem sublist_guards_of_calls (nodes : List Expr) :
    (nodes.filterMap Expr.guardedCall?).Sublist (nodes.filterMap Expr.guard?) := by
  induction nodes with
  | nil => exact .slnil
  | cons n ns ih =>
    rw [List.filterMap_cons, List.filterMap_cons]
    cases hc : n.guardedCall? with
    | none =>
      cases n.guard? with
      | none => exact ih
      | some g => exact ih.cons g
    | some g =>
      have hg : n.guard? = some g := by
        unfold Expr.guardedCall? at hc
        split at hc
        · exact hc
        · cases hc
      rw [hg]
      exact ih.cons_cons g

namespace TypeDecl

variable {source : String} {file : Option Nat} {unit : SourceUnit} {d : TypeDecl}

/-- No two calls behind a `?` of a declaration have the same place. -/
theorem nodup_guardedCalls [Text.Hash] (h : SourceUnit.parse source file = .ok unit) (hd : d ∈ unit.types) :
    ((d.exprs.flatMap Expr.nodes).filterMap Expr.guardedCall?).Nodup := by
  have hg : ((d.exprs.flatMap Expr.nodes).filterMap Expr.guard?).Nodup := by
    have hn := SourceUnit.nodup_nodeGuards h
    rw [List.flatMap_assoc] at hn
    rw [List.filterMap_flatMap]
    exact (List.nodup_flatMap.1 hn).1 d hd
  exact hg.sublist (sublist_guards_of_calls _)

/-- Calls behind a `?` are rejected. Checking a declaration reports each of them at most once, at its `?`, and takes nothing
else for one. It reports every one that stands neither in an operand of an access of a chain, unless the operand is an argument
of the guarded call itself, nor in an index of an entry of an initializer, whatever else is wrong around it. -/
theorem guardedCalls_rejected [Text.Hash] (h : SourceUnit.parse source file = .ok unit) (hd : d ∈ unit.types)
    (hc : (d.resolve.decl.typer? (TypeTable.build unit.resolve.unit).value).isSome = true) :
    let calls := (d.exprs.flatMap Expr.nodes).filterMap Expr.guardedCall?
    let reported :=
      (d.resolve.decl.check (TypeTable.build unit.resolve.unit).value).diagnostics.filterMap Diagnostic.rejection?
    calls.Nodup ∧ reported.Nodup ∧ reported ⊆ calls ∧ (d.exprs.flatMap (Expr.guardedCalls false)).Sublist reported := by
  intro calls reported
  obtain ⟨⟨info, t⟩, ht⟩ := Option.isSome_iff_exists.1 hc
  obtain ⟨-, rfl, t', hv, hr⟩ := d.visits_of_typer h hd ht
  obtain ⟨notes, hn, hs, ha⟩ := hv.rejects
  rw [d.flatMap_sites_resolve (Expr.guardedCalls false) fun _ _ => rfl] at hs
  rw [d.flatMap_sites_resolve (Expr.guardedCalls true) fun _ _ => rfl] at ha
  have hreported : reported = rejectionsOf notes := by
    show List.filterMap _ (d.resolve.decl.check _).diagnostics = _
    rw [hr, hn]
    rfl
  have hp : (d.exprs.flatMap (Expr.guardedCalls true)).Perm calls := by
    show List.Perm _ (List.filterMap _ _)
    rw [List.filterMap_flatMap]
    exact List.Perm.flatMap_left _ fun e _ => e.perm_guardedCalls
  have hcalls : calls.Nodup := nodup_guardedCalls h hd
  rw [hreported]
  exact ⟨hcalls, (hp.nodup_iff.2 hcalls).sublist ha, List.Subset.trans ha.subset hp.subset, hs⟩

end TypeDecl

/-- An argument of a chain whose root means nothing is passed over, and so is the call behind a `?` in it. -/
theorem guardedCall_passed_over :
    ∃ unit, SourceUnit.parse "class A { void F() { var g = (int y) => y; missing?.M(g?(1)); } }" none = .ok unit ∧
      ∃ d ∈ unit.types, ∃ call ∈ (d.exprs.flatMap Expr.nodes).filterMap Expr.guardedCall?,
        call ∉ (d.resolve.decl.check (TypeTable.build unit.resolve.unit).value).diagnostics.filterMap
          Diagnostic.rejection? := by
  decide +kernel

end NavCheck
