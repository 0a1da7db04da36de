import NavCheck.Expr.Operator
import NavCheck.TypeExpr.Basic

/-!
# Expressions

Expression trees. Every postfix access, whether of a member, of an element or an invocation, is one `access` node: a base, a
`Link` that says what is done with it, and whether a `?` guards it. Every node knows its place in the source.
-/

namespace NavCheck

/-- The values that are written out. -/
inductive Literal where
  | int (value : Int)
  | str (value : String)
  | bool (value : Bool)
  | null
deriving DecidableEq

/-- The name behind a dot: a plain name, or a `$` name, which stands for an element with the name as its key. -/
inductive MemberName where
  | plain (name : String)
  | keyed (name : String)
deriving DecidableEq

namespace MemberName

/-- How a member name is written. -/
def text : MemberName → String
  | .plain name => name
  | .keyed name => "$" ++ name

end MemberName

/-- A parameter of a lambda; the type may be left to the context. -/
structure LambdaParam where
  type : Option TypeExpr
  name : String
  span : Span

mutual

/-- An expression. -/
inductive Expr where
  | literal (value : Literal) (span : Span)
  | name (text : String) (span : Span)
  | self (span : Span)
  | unary (op : UnOp) (operand : Expr) (span : Span)
  | binary (op : BinOp) (left right : Expr) (span : Span)
  | conditional (condition thenBranch elseBranch : Expr) (span : Span)
  | assign (target value : Expr) (span : Span)
  | lambda (params : List LambdaParam) (body : Expr) (span : Span)
  | paren (inner : Expr) (span : Span)
  | access (base : Expr) (link : Link) (guarded : Bool) (span : Span)
  | create (type : TypeExpr) (args : List Expr) (entries : List Entry) (span : Span)

/-- What an access does with its base. -/
inductive Link where
  | member (name : MemberName) (nameSpan : Span)
  | element (indices : List Expr)
  | invoke (args : List Expr)

/-- An entry of an object initializer: a member or an element of the new object, and the value that it gets. -/
inductive Entry where
  | member (name : MemberName) (span : Span) (value : Expr)
  | element (indices : List Expr) (span : Span) (value : Expr)

end

namespace Link

/-- The expressions inside a link. -/
def operands : Link → List Expr
  | .member _ _ => []
  | .element indices => indices
  | .invoke args => args

end Link

namespace Entry

/-- The expressions inside an entry, the value last. -/
def operands : Entry → List Expr
  | .member _ _ value => [value]
  | .element indices _ value => indices ++ [value]

/-- The value of an entry. -/
def value : Entry → Expr
  | .member _ _ value => value
  | .element _ _ value => value

/-- The place of the target of an entry. -/
def span : Entry → Span
  | .member _ span _ => span
  | .element _ span _ => span

end Entry

namespace Expr

/-- The place of an expression. -/
def span : Expr → Span
  | .literal _ span => span
  | .name _ span => span
  | .self span => span
  | .unary _ _ span => span
  | .binary _ _ _ span => span
  | .conditional _ _ _ span => span
  | .assign _ _ span => span
  | .lambda _ _ span => span
  | .paren _ span => span
  | .access _ _ _ span => span
  | .create _ _ _ span => span

/-- The direct parts of an expression, in the order they are written. -/
def children : Expr → List Expr
  | .literal _ _ => []
  | .name _ _ => []
  | .self _ => []
  | .unary _ operand _ => [operand]
  | .binary _ left right _ => [left, right]
  | .conditional condition thenBranch elseBranch _ => [condition, thenBranch, elseBranch]
  | .assign target value _ => [target, value]
  | .lambda _ body _ => [body]
  | .paren inner _ => [inner]
  | .access base link _ _ => base :: link.operands
  | .create _ args entries _ => args ++ entries.flatMap Entry.operands

/-- Is this an access with a `?`? -/
def isGuarded : Expr → Bool
  | .access _ _ guarded _ => guarded
  | _ => false

end Expr

mutual

/-- The expression and everything inside it, each before its parts. -/
def Expr.nodes : Expr → List Expr
  | .literal value span => [.literal value span]
  | .name text span => [.name text span]
  | .self span => [.self span]
  | .unary op operand span => .unary op operand span :: operand.nodes
  | .binary op left right span => .binary op left right span :: (left.nodes ++ right.nodes)
  | .conditional condition thenBranch elseBranch span =>
    .conditional condition thenBranch elseBranch span :: (condition.nodes ++ thenBranch.nodes ++ elseBranch.nodes)
  | .assign target value span => .assign target value span :: (target.nodes ++ value.nodes)
  | .lambda params body span => .lambda params body span :: body.nodes
  | .paren inner span => .paren inner span :: inner.nodes
  | .access base link guarded span => .access base link guarded span :: (base.nodes ++ link.nodes)
  | .create type args entries span => .create type args entries span :: (listNodes args ++ entryNodes entries)

/-- All expressions inside a link. -/
def Link.nodes : Link → List Expr
  | .member _ _ => []
  | .element indices => listNodes indices
  | .invoke args => listNodes args

/-- All expressions inside a list. -/
def listNodes : List Expr → List Expr
  | [] => []
  | e :: es => e.nodes ++ listNodes es

/-- All expressions inside the entries of an initializer. -/
def entryNodes : List Entry → List Expr
  | [] => []
  | .member _ _ value :: entries => value.nodes ++ entryNodes entries
  | .element indices _ value :: entries => listNodes indices ++ value.nodes ++ entryNodes entries

end

mutual

/-- Whether a `?` guards an access anywhere in an expression. -/
def Expr.hasNavigation : Expr → Bool
  | .literal _ _ => false
  | .name _ _ => false
  | .self _ => false
  | .unary _ operand _ => operand.hasNavigation
  | .binary _ left right _ => left.hasNavigation || right.hasNavigation
  | .conditional condition thenBranch elseBranch _ =>
    condition.hasNavigation || thenBranch.hasNavigation || elseBranch.hasNavigation
  | .assign target value _ => target.hasNavigation || value.hasNavigation
  | .lambda _ body _ => body.hasNavigation
  | .paren inner _ => inner.hasNavigation
  | .access base link guarded _ => guarded || base.hasNavigation || link.hasNavigation
  | .create _ args entries _ => listHasNavigation args || entriesHaveNavigation entries

/-- Whether a `?` guards an access in an operand of a link. -/
def Link.hasNavigation : Link → Bool
  | .member _ _ => false
  | .element indices => listHasNavigation indices
  | .invoke args => listHasNavigation args

/-- Whether a `?` guards an access in one of several expressions. -/
def listHasNavigation : List Expr → Bool
  | [] => false
  | e :: es => e.hasNavigation || listHasNavigation es

/-- Whether a `?` guards an access in the entries of an initializer. -/
def entriesHaveNavigation : List Entry → Bool
  | [] => false
  | .member _ _ value :: entries => value.hasNavigation || entriesHaveNavigation entries
  | .element indices _ value :: entries =>
    listHasNavigation indices || value.hasNavigation || entriesHaveNavigation entries

end

end NavCheck
