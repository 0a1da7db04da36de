import NavCheck.Expr.Printer

/-!
# Expressions as they are written

The printer puts an operand in parentheses when its form is too loose for its place. `Expr.written` is the tree with these
parentheses as nodes of their own and without places; it has the text of the original. A tree regroups another one when it
differs from it by places and by parentheses around operands only.
-/

namespace NavCheck

/-! ## Forgetting places -/

mutual

/-- A type without its place. -/
def TypeExpr.erased : TypeExpr → TypeExpr
  | ⟨name, args, suffixes, _⟩ => ⟨name, erasedTypes args, suffixes, default⟩

/-- Types without their places. -/
def erasedTypes : List TypeExpr → List TypeExpr
  | [] => []
  | t :: ts => t.erased :: erasedTypes ts

end

mutual

/-- The text of a type has no places. -/
@[simp]
theorem TypeExpr.text_erased : ∀ t : TypeExpr, t.erased.text = t.text
  | ⟨name, args, suffixes, _⟩ => by
    have hn : (erasedTypes args).isEmpty = args.isEmpty := by cases args <;> rfl
    rw [TypeExpr.erased, TypeExpr.text, TypeExpr.text, argTexts_erasedTypes, hn]

/-- The texts of types have no places. -/
theorem argTexts_erasedTypes : ∀ ts : List TypeExpr, TypeExpr.argTexts (erasedTypes ts) = TypeExpr.argTexts ts
  | [] => rfl
  | t :: ts => by rw [erasedTypes, TypeExpr.argTexts, TypeExpr.argTexts, t.text_erased, argTexts_erasedTypes ts]

end

mutual

/-- A type without places has none to lose. -/
@[simp]
theorem TypeExpr.erased_erased : ∀ t : TypeExpr, t.erased.erased = t.erased
  | ⟨_, args, _, _⟩ => by simp only [TypeExpr.erased, erasedTypes_erasedTypes args]

/-- Types without places have none to lose. -/
theorem erasedTypes_erasedTypes : ∀ ts : List TypeExpr, erasedTypes (erasedTypes ts) = erasedTypes ts
  | [] => rfl
  | t :: ts => by simp only [erasedTypes, t.erased_erased, erasedTypes_erasedTypes ts]

end

/-- A parameter without its place. -/
def LambdaParam.erased (p : LambdaParam) : LambdaParam :=
  ⟨p.type.map TypeExpr.erased, p.name, default⟩

/-- A parameter of a lambda without places has none to lose. -/
@[simp]
theorem LambdaParam.erased_erased (p : LambdaParam) : p.erased.erased = p.erased := by
  cases h : p.type <;> simp [LambdaParam.erased, h]

mutual

/-- An expression without its places. -/
def Expr.erased : Expr → Expr
  | .literal value _ => .literal value default
  | .name text _ => .name text default
  | .self _ => .self default
  | .unary op operand _ => .unary op operand.erased default
  | .binary op left right _ => .binary op left.erased right.erased default
  | .conditional condition thenBranch elseBranch _ =>
    .conditional condition.erased thenBranch.erased elseBranch.erased default
  | .assign target value _ => .assign target.erased value.erased default
  | .lambda params body _ => .lambda (params.map LambdaParam.erased) body.erased default
  | .paren inner _ => .paren inner.erased default
  | .access base link guarded _ => .access base.erased link.erased guarded default
  | .create type args entries _ => .create type.erased (erasedList args) (erasedEntries entries) default

/-- A link without its places. -/
def Link.erased : Link → Link
  | .member name _ => .member name default
  | .element indices => .element (erasedList indices)
  | .invoke args => .invoke (erasedList args)

/-- Expressions without their places. -/
def erasedList : List Expr → List Expr
  | [] => []
  | e :: es => e.erased :: erasedList es

/-- Entries of an initializer without their places. -/
def erasedEntries : List Entry → List Entry
  | [] => []
  | .member name _ value :: entries => .member name default value.erased :: erasedEntries entries
  | .element indices _ value :: entries => .element (erasedList indices) default value.erased :: erasedEntries entries

end

/-- The text of a parameter of a lambda has no places. -/
@[simp]
theorem LambdaParam.text_erased (p : LambdaParam) : p.erased.text = p.text := by
  cases h : p.type <;> simp [LambdaParam.erased, LambdaParam.text, h]

/-- Parameters of a lambda are a sole name when they are one without their places. -/
@[simp]
theorem soleName?_erased (params : List LambdaParam) : soleName? (params.map LambdaParam.erased) = soleName? params := by
  rcases params with _ | ⟨⟨type, name, span⟩, _ | ⟨q, params⟩⟩
  · rfl
  · cases type <;> rfl
  · cases type <;> rfl

/-- The text of parameters does not depend on their places. -/
theorem lambdaParamsText_erased (params : List LambdaParam) :
    lambdaParamsText (params.map LambdaParam.erased) = lambdaParamsText params := by
  simp [lambdaParamsText, Function.comp_def]

mutual

/-- An expression prints in the same way without its places. -/
@[simp]
theorem Expr.render_erased : ∀ e : Expr, e.erased.render = e.render
  | .literal _ _ | .name _ _ | .self _ => rfl
  | .unary _ operand _ => by rw [Expr.erased, Expr.render, Expr.render, operand.render_erased]
  | .binary _ left right _ => by
    rw [Expr.erased, Expr.render, Expr.render, left.render_erased, right.render_erased]
  | .conditional condition thenBranch elseBranch _ => by
    rw [Expr.erased, Expr.render, Expr.render, condition.render_erased, thenBranch.render_erased, elseBranch.render_erased]
  | .assign target value _ => by
    rw [Expr.erased, Expr.render, Expr.render, target.render_erased, value.render_erased]
  | .lambda params body _ => by
    rw [Expr.erased, Expr.render, Expr.render, lambdaParamsText_erased, body.render_erased]
  | .paren inner _ => by rw [Expr.erased, Expr.render, Expr.render, inner.render_erased]
  | .access base link _ _ => by rw [Expr.erased, Expr.render, Expr.render, base.render_erased, link.text_erased]
  | .create type args entries _ => by
    have hn : (erasedEntries entries).isEmpty = entries.isEmpty := by
      rcases entries with _ | ⟨_ | _, _⟩ <;> rfl
    rw [Expr.erased, Expr.render, Expr.render, type.text_erased, listTexts_erasedList args,
      entryTexts_erasedEntries entries, hn]

/-- The text of a link has no places. -/
theorem Link.text_erased : ∀ link : Link, link.erased.text = link.text
  | .member _ _ => rfl
  | .element indices => by rw [Link.erased, Link.text, Link.text, listTexts_erasedList indices]
  | .invoke args => by rw [Link.erased, Link.text, Link.text, listTexts_erasedList args]

/-- The texts of expressions have no places. -/
theorem listTexts_erasedList : ∀ es : List Expr, listTexts (erasedList es) = listTexts es
  | [] => rfl
  | e :: es => by rw [erasedList, listTexts, listTexts, e.render_erased, listTexts_erasedList es]

/-- The texts of entries have no places. -/
theorem entryTexts_erasedEntries : ∀ entries : List Entry, entryTexts (erasedEntries entries) = entryTexts entries
  | [] => rfl
  | .member _ _ value :: entries => by
    rw [erasedEntries, entryTexts, entryTexts, value.render_erased, entryTexts_erasedEntries entries]
  | .element indices _ value :: entries => by
    rw [erasedEntries, entryTexts, entryTexts, listTexts_erasedList indices, value.render_erased,
      entryTexts_erasedEntries entries]

end

/-! ## Adding parentheses -/

namespace Expr

/-- The level of the form of an expression. -/
def level : Expr → Nat
  | .literal _ _ | .name _ _ | .self _ | .paren _ _ | .create _ _ _ _ => levels.primary
  | .unary _ _ _ => levels.unary
  | .binary op _ _ _ => levels.binary + op.precedence
  | .conditional _ _ _ _ => levels.conditional
  | .assign _ _ _ => levels.assign
  | .lambda _ _ _ => levels.lambda
  | .access _ _ _ _ => levels.postfixed

/-- An expression is rendered on its own level. -/
@[simp]
theorem level_render (e : Expr) : e.render.level = e.level := by
  cases e <;> rfl

/-- The operand for a place that asks for a level: in parentheses when the form is looser. -/
def within (e : Expr) (level : Nat) : Expr :=
  if e.level < level then .paren e default else e

/-- An operand is tight enough for its place. -/
theorem le_level_within (e : Expr) {level : Nat} (h : level ≤ levels.primary) : level ≤ (e.within level).level := by
  unfold within
  split
  · exact h
  · omega

end Expr

namespace BinOp

/-- The level of the form that an operator makes. -/
def level (op : BinOp) : Nat :=
  levels.binary + op.precedence

/-- The level that the left operand of an operator must have. -/
def leftLevel (op : BinOp) : Nat :=
  if op.groupsRight then op.level + 1 else op.level

/-- The level that the right operand of an operator must have. -/
def rightLevel (op : BinOp) : Nat :=
  if op.groupsRight then op.level else op.level + 1

/-- What an operator asks of its left operand is at most the level of primary expressions. -/
theorem leftLevel_le (op : BinOp) : op.leftLevel ≤ levels.primary := by
  cases op <;> decide

/-- What an operator asks of its right operand is at most the level of primary expressions. -/
theorem rightLevel_le (op : BinOp) : op.rightLevel ≤ levels.primary := by
  cases op <;> decide

end BinOp

mutual

/-- An expression with the parentheses that the printer adds, without places. -/
def Expr.written : Expr → Expr
  | .literal value _ => .literal value default
  | .name text _ => .name text default
  | .self _ => .self default
  | .unary op operand _ => .unary op (operand.written.within levels.unary) default
  | .binary op left right _ => .binary op (left.written.within op.leftLevel) (right.written.within op.rightLevel) default
  | .conditional condition thenBranch elseBranch _ =>
    .conditional (condition.written.within (levels.conditional + 1)) (thenBranch.written.within levels.conditional)
      (elseBranch.written.within levels.conditional) default
  | .assign target value _ =>
    .assign (target.written.within (levels.assign + 1)) (value.written.within levels.assign) default
  | .lambda params body _ => .lambda (params.map LambdaParam.erased) (body.written.within levels.assign) default
  | .paren inner _ => .paren inner.written default
  | .access base link guarded _ => .access (base.written.within levels.postfixed) link.written guarded default
  | .create type args entries _ => .create type.erased (writtenList args) (writtenEntries entries) default

/-- A link with the parentheses that the printer adds. -/
def Link.written : Link → Link
  | .member name _ => .member name default
  | .element indices => .element (writtenList indices)
  | .invoke args => .invoke (writtenList args)

/-- Expressions with the parentheses that the printer adds. -/
def writtenList : List Expr → List Expr
  | [] => []
  | e :: es => e.written :: writtenList es

/-- Entries of an initializer with the parentheses that the printer adds. -/
def writtenEntries : List Entry → List Entry
  | [] => []
  | .member name _ value :: entries =>
    .member name default (value.written.within levels.assign) :: writtenEntries entries
  | .element indices _ value :: entries =>
    .element (writtenList indices) default (value.written.within levels.assign) :: writtenEntries entries

end

/-- An expression as it is written is on its own level. -/
@[simp]
theorem Expr.level_written (e : Expr) : e.written.level = e.level := by
  cases e <;> rfl

/-- An operand in the parentheses that its place asks for has the text that the printer gives it there. -/
theorem Expr.atLeast_within (e : Expr) {level : Nat} (h : level ≤ levels.primary) :
    (e.within level).render.atLeast level = e.render.atLeast level := by
  unfold Expr.within
  split
  · rename_i hl
    rw [Expr.render, Rendered.atLeast, if_neg (Nat.not_lt.2 h), Rendered.atLeast, Expr.level_render, if_pos hl]
  · rfl

/-- How an operator and its operands are written. -/
theorem Expr.render_binary (op : BinOp) (left right : Expr) (span : Span) :
    (Expr.binary op left right span).render =
      ⟨left.render.atLeast op.leftLevel ++ " " ++ op.symbol ++ " " ++ right.render.atLeast op.rightLevel, op.level⟩ := by
  cases op <;> rfl

mutual

/-- The parentheses that the printer adds do not change the text. -/
@[simp]
theorem Expr.render_written : ∀ e : Expr, e.written.render = e.render
  | .literal _ _ | .name _ _ | .self _ => rfl
  | .unary _ operand _ => by
    rw [Expr.written, Expr.render, Expr.atLeast_within _ (by decide), operand.render_written, Expr.render]
  | .binary op left right _ => by
    rw [Expr.written, Expr.render_binary, Expr.atLeast_within _ op.leftLevel_le, Expr.atLeast_within _ op.rightLevel_le,
      left.render_written, right.render_written, Expr.render_binary]
  | .conditional condition thenBranch elseBranch _ => by
    rw [Expr.written, Expr.render, Expr.atLeast_within _ (by decide), Expr.atLeast_within _ (by decide),
      Expr.atLeast_within _ (by decide), condition.render_written, thenBranch.render_written, elseBranch.render_written,
      Expr.render]
  | .assign target value _ => by
    rw [Expr.written, Expr.render, Expr.atLeast_within _ (by decide), Expr.atLeast_within _ (by decide),
      target.render_written, value.render_written, Expr.render]
  | .lambda params body _ => by
    rw [Expr.written, Expr.render, lambdaParamsText_erased, Expr.atLeast_within _ (by decide), body.render_written,
      Expr.render]
  | .paren inner _ => by rw [Expr.written, Expr.render, Expr.render, inner.render_written]
  | .access base link _ _ => by
    rw [Expr.written, Expr.render, Expr.atLeast_within _ (by decide), base.render_written, link.text_written, Expr.render]
  | .create type args entries _ => by
    have hn : (writtenEntries entries).isEmpty = entries.isEmpty := by
      rcases entries with _ | ⟨_ | _, _⟩ <;> rfl
    rw [Expr.written, Expr.render, Expr.render, type.text_erased, listTexts_writtenList args,
      entryTexts_writtenEntries entries, hn]

/-- Parentheses that are needed do not show in the text of a link: the printer adds them anyway. -/
theorem Link.text_written : ∀ link : Link, link.written.text = link.text
  | .member _ _ => rfl
  | .element indices => by rw [Link.written, Link.text, Link.text, listTexts_writtenList indices]
  | .invoke args => by rw [Link.written, Link.text, Link.text, listTexts_writtenList args]

/-- The texts of expressions are those of the expressions as they are written. -/
theorem listTexts_writtenList : ∀ es : List Expr, listTexts (writtenList es) = listTexts es
  | [] => rfl
  | e :: es => by rw [writtenList, listTexts, listTexts, e.render_written, listTexts_writtenList es]

/-- The texts of entries are those of the entries as they are written. -/
theorem entryTexts_writtenEntries : ∀ entries : List Entry, entryTexts (writtenEntries entries) = entryTexts entries
  | [] => rfl
  | .member _ _ value :: entries => by
    rw [writtenEntries, entryTexts, entryTexts, Expr.atLeast_within _ (by decide), value.render_written,
      entryTexts_writtenEntries entries]
  | .element indices _ value :: entries => by
    rw [writtenEntries, entryTexts, entryTexts, listTexts_writtenList indices, Expr.atLeast_within _ (by decide),
      value.render_written, entryTexts_writtenEntries entries]

end

/-- A tree that reads as another one is written has its text. -/
theorem Expr.text_eq_of_erased_eq_written {e e' : Expr} (h : e'.erased = e.written) : e'.text = e.text := by
  rw [Expr.text, ← e'.render_erased, h, Expr.render_written, Expr.text]

/-! ## Regrouping -/

/-- Whether an expression is an access. -/
def Expr.isAccess : Expr → Bool
  | .access _ _ _ _ => true
  | _ => false

/-- Whether an operand has a property, perhaps inside parentheses. -/
def Wrapped (holds : Expr → Prop) (e : Expr) : Prop :=
  holds e ∨ ∃ inner span, e = .paren inner span ∧ holds inner

mutual

/-- Whether a tree is the given one up to places and parentheses added around operands. No parentheses come between an access
and the access that is its base, so rows of accesses stay together. -/
def Expr.Regroups : Expr → Expr → Prop
  | .literal value _ => fun e' => ∃ span, e' = .literal value span
  | .name text _ => fun e' => ∃ span, e' = .name text span
  | .self _ => fun e' => ∃ span, e' = .self span
  | .unary op operand _ => fun e' => ∃ operand' span, e' = .unary op operand' span ∧ Wrapped operand.Regroups operand'
  | .binary op left right _ => fun e' => ∃ left' right' span, e' = .binary op left' right' span ∧
    Wrapped left.Regroups left' ∧ Wrapped right.Regroups right'
  | .conditional condition thenBranch elseBranch _ => fun e' => ∃ condition' thenBranch' elseBranch' span,
    e' = .conditional condition' thenBranch' elseBranch' span ∧ Wrapped condition.Regroups condition' ∧
      Wrapped thenBranch.Regroups thenBranch' ∧ Wrapped elseBranch.Regroups elseBranch'
  | .assign target value _ => fun e' => ∃ target' value' span, e' = .assign target' value' span ∧
    Wrapped target.Regroups target' ∧ Wrapped value.Regroups value'
  | .lambda params body _ => fun e' => ∃ params' body' span, e' = .lambda params' body' span ∧
    params'.map LambdaParam.erased = params.map LambdaParam.erased ∧ Wrapped body.Regroups body'
  | .paren inner _ => fun e' => ∃ inner' span, e' = .paren inner' span ∧ inner.Regroups inner'
  | .access base link guarded _ => fun e' => ∃ base' link' span, e' = .access base' link' guarded span ∧
    Wrapped base.Regroups base' ∧ (base.isAccess = true → base.Regroups base') ∧ link.Regroups link'
  | .create type args entries _ => fun e' => ∃ type' args' entries' span, e' = .create type' args' entries' span ∧
    type'.erased = type.erased ∧ ListRegroups args args' ∧ EntriesRegroup entries entries'

/-- Whether a link is the given one up to places and parentheses around operands. -/
def Link.Regroups : Link → Link → Prop
  | .member name _ => fun link' => ∃ span, link' = .member name span
  | .element indices => fun link' => ∃ indices', link' = .element indices' ∧ ListRegroups indices indices'
  | .invoke args => fun link' => ∃ args', link' = .invoke args' ∧ ListRegroups args args'

/-- Whether expressions are the given ones up to places and parentheses around operands. -/
def ListRegroups : List Expr → List Expr → Prop
  | [] => fun es' => es' = []
  | e :: es => fun es' => ∃ f fs, es' = f :: fs ∧ e.Regroups f ∧ ListRegroups es fs

/-- Whether entries are the given ones up to places and parentheses around values. -/
def EntriesRegroup : List Entry → List Entry → Prop
  | [] => fun entries' => entries' = []
  | .member name _ value :: entries => fun entries' => ∃ span value' more, entries' = .member name span value' :: more ∧
    Wrapped value.Regroups value' ∧ EntriesRegroup entries more
  | .element indices _ value :: entries => fun entries' => ∃ indices' span value' more,
    entries' = .element indices' span value' :: more ∧ ListRegroups indices indices' ∧ Wrapped value.Regroups value' ∧
      EntriesRegroup entries more

end

/-- An operand that reads as another one is written in its place regroups it. -/
theorem Wrapped.of_erased {e e' : Expr} {level : Nat} (h : e'.erased = e.written.within level)
    (ih : ∀ f : Expr, f.erased = e.written → e.Regroups f) : Wrapped e.Regroups e' := by
  unfold Expr.within at h
  split at h
  · cases e' with
    | paren inner span =>
      simp only [Expr.erased, Expr.paren.injEq, and_true] at h
      exact .inr ⟨inner, span, rfl, ih inner h⟩
    | _ => simp [Expr.erased] at h
  · exact .inl (ih e' h)

mutual

/-- A tree that reads as another one is written regroups it. -/
theorem Expr.regroups_of_erased : ∀ e e' : Expr, e'.erased = e.written → e.Regroups e'
  | .literal _ _, e', h => by
    cases e' <;> simp [Expr.erased, Expr.written] at h
    exact ⟨_, by rw [h]⟩
  | .name _ _, e', h => by
    cases e' <;> simp [Expr.erased, Expr.written] at h
    exact ⟨_, by rw [h]⟩
  | .self _, e', h => by
    cases e' <;> simp [Expr.erased, Expr.written] at h
    exact ⟨_, rfl⟩
  | .unary _ operand _, e', h => by
    cases e' <;> simp [Expr.erased, Expr.written] at h
    exact ⟨_, _, by rw [h.1], .of_erased h.2 operand.regroups_of_erased⟩
  | .binary _ left right _, e', h => by
    cases e' <;> simp [Expr.erased, Expr.written] at h
    exact ⟨_, _, _, by rw [h.1], .of_erased h.2.1 left.regroups_of_erased, .of_erased h.2.2 right.regroups_of_erased⟩
  | .conditional condition thenBranch elseBranch _, e', h => by
    cases e' <;> simp [Expr.erased, Expr.written] at h
    exact ⟨_, _, _, _, rfl, .of_erased h.1 condition.regroups_of_erased, .of_erased h.2.1 thenBranch.regroups_of_erased,
      .of_erased h.2.2 elseBranch.regroups_of_erased⟩
  | .assign target value _, e', h => by
    cases e' <;> simp [Expr.erased, Expr.written] at h
    exact ⟨_, _, _, rfl, .of_erased h.1 target.regroups_of_erased, .of_erased h.2 value.regroups_of_erased⟩
  | .lambda _ body _, e', h => by
    cases e' <;> simp only [Expr.erased, Expr.written, Expr.lambda.injEq, reduceCtorEq] at h
    exact ⟨_, _, _, rfl, h.1, .of_erased h.2.1 body.regroups_of_erased⟩
  | .paren inner _, e', h => by
    cases e' <;> simp [Expr.erased, Expr.written] at h
    exact ⟨_, _, rfl, inner.regroups_of_erased _ h⟩
  | .access base link _ _, e', h => by
    cases e' <;> simp [Expr.erased, Expr.written] at h
    refine ⟨_, _, _, by rw [h.2.2], .of_erased h.1 base.regroups_of_erased, fun ha => ?_, Link.regroups_of_erased link _ h.2.1⟩
    refine base.regroups_of_erased _ (h.1.trans ?_)
    rw [Expr.within, if_neg]
    rw [Expr.level_written]
    cases base <;> simp_all [Expr.isAccess, Expr.level]
  | .create _ args entries _, e', h => by
    cases e' <;> simp [Expr.erased, Expr.written] at h
    exact ⟨_, _, _, _, rfl, h.1, listRegroups_of_erased args _ h.2.1, entriesRegroup_of_erased entries _ h.2.2⟩

/-- A link that is one as it is written, up to places, differs from it in grouping only. -/
theorem Link.regroups_of_erased : ∀ link link' : Link, link'.erased = link.written → link.Regroups link'
  | .member _ _, link', h => by
    cases link' <;> simp [Link.erased, Link.written] at h
    exact ⟨_, by rw [h]⟩
  | .element indices, link', h => by
    cases link' <;> simp [Link.erased, Link.written] at h
    exact ⟨_, rfl, listRegroups_of_erased indices _ h⟩
  | .invoke args, link', h => by
    cases link' <;> simp [Link.erased, Link.written] at h
    exact ⟨_, rfl, listRegroups_of_erased args _ h⟩

/-- Expressions that are others as they are written, up to places, differ from them in grouping only. -/
theorem listRegroups_of_erased : ∀ es es' : List Expr, erasedList es' = writtenList es → ListRegroups es es'
  | [], es', h => by
    cases es' with
    | nil => rfl
    | cons e' es' => simp [erasedList, writtenList] at h
  | e :: es, es', h => by
    cases es' with
    | nil => simp [erasedList, writtenList] at h
    | cons e' es' =>
      simp only [erasedList, writtenList, List.cons.injEq] at h
      exact ⟨e', es', rfl, e.regroups_of_erased e' h.1, listRegroups_of_erased es es' h.2⟩

/-- Entries that are others as they are written, up to places, differ from them in grouping only. -/
theorem entriesRegroup_of_erased : ∀ entries entries' : List Entry, erasedEntries entries' = writtenEntries entries →
    EntriesRegroup entries entries'
  | [], entries', h => by
    cases entries' with
    | nil => rfl
    | cons entry entries' => cases entry <;> simp [erasedEntries, writtenEntries] at h
  | .member _ _ value :: entries, entries', h => by
    cases entries' with
    | nil => simp [erasedEntries, writtenEntries] at h
    | cons entry entries' =>
      cases entry <;> simp [erasedEntries, writtenEntries] at h
      exact ⟨_, _, _, by rw [h.1.1], .of_erased h.1.2 value.regroups_of_erased,
        entriesRegroup_of_erased entries _ h.2⟩
  | .element indices _ value :: entries, entries', h => by
    cases entries' with
    | nil => simp [erasedEntries, writtenEntries] at h
    | cons entry entries' =>
      cases entry <;> simp [erasedEntries, writtenEntries] at h
      exact ⟨_, _, _, _, rfl, listRegroups_of_erased indices _ h.1.1,
        .of_erased h.1.2 value.regroups_of_erased, entriesRegroup_of_erased entries _ h.2⟩

end

end NavCheck
