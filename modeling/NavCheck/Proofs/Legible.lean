import NavCheck.Proofs.Written

/-!
# Legible expressions

Not everything that is printed reads back. Two `?` behind a type make one sign; a `?` between a created type and a parenthesis
is no suffix; and the `?` of a conditional whose then-branch begins with a parenthesis looks like the guard of an invocation
when the marks that are counted behind it do not come out even. `Expr.Legible` says that none of this happens.
-/

namespace NavCheck

/-! ## Types -/

namespace TypeSuffix

/-- Whether two `?` stand next to each other. -/
def doubled : List TypeSuffix → Bool
  | .nullable :: .nullable :: _ => true
  | _ :: suffixes => doubled suffixes
  | [] => false

end TypeSuffix

mutual

/-- Whether two `?` stand next to each other in a type. -/
def TypeExpr.doubled : TypeExpr → Bool
  | ⟨_, args, suffixes, _⟩ => typesDoubled args || TypeSuffix.doubled suffixes

/-- Whether two `?` stand next to each other in some of the types. -/
def typesDoubled : List TypeExpr → Bool
  | [] => false
  | t :: ts => t.doubled || typesDoubled ts

end

mutual

/-- Whether a type shows a `?` or a comma. -/
def TypeExpr.strays : TypeExpr → Bool
  | ⟨_, args, suffixes, _⟩ => typesStray args || suffixes.contains .nullable

/-- Whether types with commas between them show a `?` or a comma. -/
def typesStray : List TypeExpr → Bool
  | [] => false
  | [t] => t.strays
  | _ :: _ :: _ => true

end

namespace TypeExpr

/-- Whether the last suffix of a type is a `?`. -/
def endsNullable (t : TypeExpr) : Bool :=
  t.suffixes.getLast? == some .nullable

end TypeExpr

mutual

@[simp]
theorem TypeExpr.doubled_erased : ∀ t : TypeExpr, t.erased.doubled = t.doubled
  | ⟨_, args, _, _⟩ => by rw [TypeExpr.erased, TypeExpr.doubled, TypeExpr.doubled, typesDoubled_erased args]

theorem typesDoubled_erased : ∀ ts : List TypeExpr, typesDoubled (erasedTypes ts) = typesDoubled ts
  | [] => rfl
  | t :: ts => by rw [erasedTypes, typesDoubled, typesDoubled, t.doubled_erased, typesDoubled_erased ts]

end

@[simp]
theorem TypeExpr.endsNullable_erased (t : TypeExpr) : t.erased.endsNullable = t.endsNullable := by
  cases t
  rfl

/-! ## What a `?` is used for -/

/-- What the parts of an expression that may show a `?` are: a type that is created or given to a parameter, the guard of an
access, and the mark behind the condition of a conditional. -/
inductive QuestionUse where
  | created (type : TypeExpr)
  | param (type : TypeExpr)
  | guard
  | branch

namespace QuestionUse

/-- Whether the types are printed such that they read back. -/
def legible : QuestionUse → Bool
  | .created type => !type.doubled && !type.endsNullable
  | .param type => !type.doubled
  | .guard | .branch => true

end QuestionUse

/-- The types of parameters. -/
def paramUses (params : List LambdaParam) : List QuestionUse :=
  params.filterMap fun p => p.type.map fun type => .param type.erased

mutual

/-- The uses of `?` in an expression, in the order they are written. -/
def Expr.uses : Expr → List QuestionUse
  | .literal _ _ | .name _ _ | .self _ => []
  | .unary _ operand _ => operand.uses
  | .binary _ left right _ => left.uses ++ right.uses
  | .conditional condition thenBranch elseBranch _ => condition.uses ++ .branch :: (thenBranch.uses ++ elseBranch.uses)
  | .assign target value _ => target.uses ++ value.uses
  | .lambda params body _ => paramUses params ++ body.uses
  | .paren inner _ => inner.uses
  | .access base link guarded _ => base.uses ++ ((if guarded then [.guard] else []) ++ link.uses)
  | .create type args entries _ => .created type.erased :: (listUses args ++ entryUses entries)

/-- The uses of `?` in a link. -/
def Link.uses : Link → List QuestionUse
  | .member _ _ => []
  | .element indices => listUses indices
  | .invoke args => listUses args

/-- The uses of `?` in expressions. -/
def listUses : List Expr → List QuestionUse
  | [] => []
  | e :: es => e.uses ++ listUses es

/-- The uses of `?` in the entries of an initializer. -/
def entryUses : List Entry → List QuestionUse
  | [] => []
  | .member _ _ value :: entries => value.uses ++ entryUses entries
  | .element indices _ value :: entries => listUses indices ++ (value.uses ++ entryUses entries)

end

/-- Parentheses around an operand show no `?`. -/
@[simp]
theorem Expr.uses_within (e : Expr) (level : Nat) : (e.within level).uses = e.uses := by
  unfold Expr.within
  split <;> rfl

theorem paramUses_erased (params : List LambdaParam) : paramUses (params.map LambdaParam.erased) = paramUses params := by
  simp [paramUses, List.filterMap_map, Function.comp_def, LambdaParam.erased]

mutual

/-- The parentheses that the printer adds show no `?`. -/
@[simp]
theorem Expr.uses_written : ∀ e : Expr, e.written.uses = e.uses
  | .literal _ _ | .name _ _ | .self _ => rfl
  | .unary _ operand _ => by simp [Expr.written, Expr.uses, operand.uses_written]
  | .binary _ left right _ => by simp [Expr.written, Expr.uses, left.uses_written, right.uses_written]
  | .conditional condition thenBranch elseBranch _ => by
    simp [Expr.written, Expr.uses, condition.uses_written, thenBranch.uses_written, elseBranch.uses_written]
  | .assign target value _ => by simp [Expr.written, Expr.uses, target.uses_written, value.uses_written]
  | .lambda params body _ => by simp [Expr.written, Expr.uses, paramUses_erased, body.uses_written]
  | .paren inner _ => by simp [Expr.written, Expr.uses, inner.uses_written]
  | .access base link _ _ => by simp [Expr.written, Expr.uses, base.uses_written, link.uses_written]
  | .create _ args entries _ => by
    simp [Expr.written, Expr.uses, listUses_writtenList args, entryUses_writtenEntries entries]

theorem Link.uses_written : ∀ link : Link, link.written.uses = link.uses
  | .member _ _ => rfl
  | .element indices => listUses_writtenList indices
  | .invoke args => listUses_writtenList args

theorem listUses_writtenList : ∀ es : List Expr, listUses (writtenList es) = listUses es
  | [] => rfl
  | e :: es => by simp [writtenList, listUses, e.uses_written, listUses_writtenList es]

theorem entryUses_writtenEntries : ∀ entries : List Entry, entryUses (writtenEntries entries) = entryUses entries
  | [] => rfl
  | .member _ _ value :: entries => by
    simp [writtenEntries, entryUses, value.uses_written, entryUses_writtenEntries entries]
  | .element indices _ value :: entries => by
    simp [writtenEntries, entryUses, listUses_writtenList indices, value.uses_written, entryUses_writtenEntries entries]

end

/-! ## Conditionals -/

namespace Expr

/-- Whether a written expression shows, outside all brackets, a comma or a `?` that the search for the `:` of a conditional
takes for the `?` of another one. -/
def strays : Expr → Bool
  | .literal _ _ | .name _ _ | .self _ | .paren _ _ => false
  | .unary _ operand _ => operand.strays
  | .binary _ left right _ => left.strays || right.strays
  | .conditional condition thenBranch elseBranch _ => condition.strays || (thenBranch.strays || elseBranch.strays)
  | .assign target value _ => target.strays || value.strays
  | .lambda _ body _ => body.strays
  | .access base (.invoke _) guarded _ => base.strays || guarded
  | .access base _ _ _ => base.strays
  | .create type _ _ _ => type.strays

/-- Whether a written expression begins with a parenthesis. -/
def opensParen : Expr → Bool
  | .literal _ _ | .name _ _ | .self _ | .unary _ _ _ | .create _ _ _ _ => false
  | .paren _ _ => true
  | .binary _ left _ _ => left.opensParen
  | .conditional condition _ _ _ => condition.opensParen
  | .assign target _ _ => target.opensParen
  | .lambda params _ _ => (soleName? params).isNone
  | .access base _ _ _ => base.opensParen

/-- Whether something stray stands between the `:` of a conditional and the last `:` behind it in the same brackets that a
conditional around it waits for. `later` says so for what is behind the conditional, and is nothing when none waits. -/
def straysLater (elseBranch : Expr) (later : Option Bool) : Bool :=
  later.elim false (elseBranch.strays || ·)

end Expr

mutual

/-- Whether no conditional in a written expression is taken for an invocation with a guard. -/
def Expr.clear (later : Option Bool) : Expr → Bool
  | .literal _ _ | .name _ _ | .self _ => true
  | .unary _ operand _ => operand.clear later
  | .binary _ left right _ => left.clear later && right.clear later
  | .conditional condition thenBranch elseBranch _ =>
    !(thenBranch.opensParen && (thenBranch.strays || elseBranch.straysLater later)) &&
      (condition.clear later && (thenBranch.clear (some (elseBranch.straysLater later)) && elseBranch.clear later))
  | .assign target value _ => target.clear later && value.clear later
  | .lambda _ body _ => body.clear later
  | .paren inner _ => inner.clear none
  | .access base link _ _ => base.clear later && link.clear
  | .create _ args entries _ => listClear args && entriesClear entries

/-- Whether no conditional in a link is taken for an invocation. -/
def Link.clear : Link → Bool
  | .member _ _ => true
  | .element indices => listClear indices
  | .invoke args => listClear args

/-- Whether no conditional in expressions between brackets is taken for an invocation. -/
def listClear : List Expr → Bool
  | [] => true
  | e :: es => e.clear none && listClear es

/-- Whether no conditional in the entries of an initializer is taken for an invocation. -/
def entriesClear : List Entry → Bool
  | [] => true
  | .member _ _ value :: entries => value.clear none && entriesClear entries
  | .element indices _ value :: entries => listClear indices && (value.clear none && entriesClear entries)

end

/-- Whether the types in an expression read back from its text, and no conditional is taken for an invocation. -/
def Expr.Legible (e : Expr) : Prop :=
  (∀ use ∈ e.uses, use.legible = true) ∧ e.written.clear none = true

instance (e : Expr) : Decidable e.Legible :=
  inferInstanceAs (Decidable (_ ∧ _))

end NavCheck
