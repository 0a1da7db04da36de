import NavCheck.Diagnostic.Basic
import NavCheck.Token.Lexer
import NavCheck.TypeExpr.Basic

/-!
# Faults of expressions

Why no expression can be read. Every fault has a wording and, but for a text without any token, a place.
-/

namespace NavCheck

/-- Where a name was expected. -/
inductive NamePlace where
  | lambdaParam
  | initializer
  | behindDot
  | behindGuardedDot
deriving DecidableEq

/-- The wording of a place for a name. -/
def NamePlace.text : NamePlace → String
  | .lambdaParam => "as lambda parameter"
  | .initializer => "as initializer member"
  | .behindDot => "after `.`"
  | .behindGuardedDot => "after `?.`"

/-- Which bracket was not closed. -/
inductive ClosePlace where
  | paren
  | lambdaParams
  | indices
  | args
  | initializer
deriving DecidableEq

/-- The mark that closes a bracket. -/
def ClosePlace.mark : ClosePlace → Punct
  | .paren => .closeParen
  | .lambdaParams => .closeParen
  | .indices => .closeBracket
  | .args => .closeParen
  | .initializer => .closeBrace

/-- The wording of an unclosed bracket. -/
def ClosePlace.text : ClosePlace → String
  | .paren => "to close parenthesized expression"
  | .lambdaParams => "to close lambda parameters"
  | .indices => "after index expression"
  | .args => "after argument list"
  | .initializer => "to close object initializer"

/-- Why no expression can be read. Where a fault carries a lexeme it is that of the token found instead. -/
inductive ExprFault where
  | lexical (fault : LexFault)
  | trailing (lexeme : String)
  | noExpression (found : Option String)
  | noName (place : NamePlace) (found : Option String)
  | unclosed (place : ClosePlace)
  | noColon
  | noLambdaArrow
  | blockLambda
  | noCreatedType
  | noCreationBody (type : TypeExpr)
  | noEntryAssign
  | noIndex
  | looseDollar
  | noDollarName (found : Option String)
  | detachedDollar

/-- A message that names what was found, if anything. -/
def withFound (message : String) : Option String → String
  | some lexeme => s!"{message}, found `{lexeme}`"
  | none => message

/-- The wording of a fault. -/
def ExprFault.message : ExprFault → String
  | .lexical fault => s!"lex error while parsing expression: {fault.message}"
  | .trailing lexeme => s!"unexpected token `{lexeme}` after expression"
  | .noExpression found => withFound "expected expression" found
  | .noName place found => withFound s!"expected identifier {place.text}" found
  | .unclosed place => s!"expected `{place.mark.char}` {place.text}"
  | .noColon => "expected `:` after `?` branch in conditional expression"
  | .noLambdaArrow => "expected `=>` after lambda parameters"
  | .blockLambda => "lambda bodies must be expressions"
  | .noCreatedType => "expected type name after `new`"
  | .noCreationBody type => s!"expected `(` or `\x7b` after `new {type.text}`"
  | .noEntryAssign => "expected `=` in object initializer entry"
  | .noIndex => "expected index expression before `]`"
  | .looseDollar => "indexed member name `$name` requires a receiver, as in `value.$name`"
  | .noDollarName found => withFound "expected identifier after `$`" found
  | .detachedDollar => "`$` must be immediately followed by the member name"

/-- A fault and its place. -/
structure ExprError where
  fault : ExprFault
  span : Option Span

/-- The error that a fault is reported as. -/
def ExprError.toDiagnostic (e : ExprError) : Diagnostic :=
  Diagnostic.error e.fault.message e.span

end NavCheck
