import NavCheck.Expr.Basic

/-!
# Statements

What the bodies of members are made of.
-/

namespace NavCheck

/-- A statement. A local without a written type takes the type of its initializer. -/
inductive Statement where
  | block (statements : List Statement) (span : Span)
  | give (value : Option Expr) (span : Span)
  | branch (condition : Expr) (thenBranch : Statement) (elseBranch : Option Statement) (span : Span)
  | local (type : Option TypeExpr) (name : String) (nameSpan : Span) (init : Option Expr) (span : Span)
  | expr (value : Expr)

/-- Statements between braces. -/
structure Block where
  statements : List Statement
  span : Span

/-- A body: one expression, or a block. -/
inductive Body where
  | expr (value : Expr)
  | block (block : Block)

end NavCheck
