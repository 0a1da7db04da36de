import Mathlib.Logic.Function.Basic
import NavCheck.Lowered.Lower

/-!
# Evaluation

What expressions and lowered expressions mean. The operations on values are left open: an `Interpretation` gives them, in any
monad, so that they may note what they do in a trace, change a store, or fail. An expression is evaluated along its rows of
accesses: a row is cut short when the root of a `?` is `null`, and then nothing behind the `?` is evaluated
(`Expr.eval_of_chain?` says the same by `Expr.chain?`). A lowered expression keeps the values of its temporaries.
-/

namespace NavCheck

/-- A value: one that can be written out, or an object. -/
inductive Value (O : Type) where
  | literal (value : Literal)
  | object (object : O)
deriving DecidableEq

namespace Value

variable {O : Type}

/-- The value of `null`. -/
def null : Value O := .literal .null

/-- The truth values. -/
def bool (b : Bool) : Value O := .literal (.bool b)

/-- The texts. -/
def text (s : String) : Value O := .literal (.str s)

/-- Is this `null`? -/
def isNull : Value O → Bool
  | .literal .null => true
  | _ => false

end Value

/-- What an assignment stores to. -/
inductive Place (O : Type) where
  | name (text : String)
  | member (base : Value O) (name : String)
  | element (base : Value O) (indices : List (Value O))
  | nowhere

/-- The operations on values. Names are read from the environment that the interpretation brings. The right operand of an
operator and the body of a lambda are handed over unevaluated, so that an operator may leave its right operand out and a body
may run later, or more than once. -/
structure Interpretation (m : Type → Type) (O : Type) where
  name : String → m (Value O)
  self : m (Value O)
  member : Value O → String → m (Value O)
  element : Value O → List (Value O) → m (Value O)
  invoke : Value O → List (Value O) → m (Value O)
  unary : UnOp → Value O → m (Value O)
  binary : BinOp → Value O → m (Value O) → m (Value O)
  /-- The truth of a value that is no truth value. -/
  truth : Value O → m Bool
  lambda : List LambdaParam → m (Value O) → m (Value O)
  create : TypeExpr → List (Value O) → m (Value O)
  store : Place O → Value O → m Unit

variable {m : Type → Type} {O : Type}

/-- Whether a condition holds. -/
def Interpretation.test [Monad m] (I : Interpretation m O) : Value O → m Bool
  | .literal (.bool b) => pure b
  | v => I.truth v

/-- The value of a row of accesses; one that was cut short is `null`. -/
def rowValue [Monad m] (row : m (Option (Value O))) : m (Value O) :=
  (·.getD .null) <$> row

/-- The part of a place that a member name and a base make; a keyed name is an element with the name as its key. -/
def MemberName.place (base : Value O) : MemberName → Place O
  | .plain name => .member base name
  | .keyed name => .element base [.text name]

/-- A member of a value; a keyed name reads the element with the name as its key. -/
def Interpretation.memberOf (I : Interpretation m O) (base : Value O) : MemberName → m (Value O)
  | .plain name => I.member base name
  | .keyed name => I.element base [.text name]

section Expressions

variable [Monad m] (I : Interpretation m O)

mutual

/-- Evaluates an expression as a row of accesses: nothing when the row was cut short. The root of a `?` is evaluated once,
and when it is `null` the row is cut short before the access; an access goes on with a row that was not cut short.
Parentheses end a row. -/
def Expr.evalRow : Expr → m (Option (Value O))
  | .literal value _ => pure (some (.literal value))
  | .name text _ => some <$> I.name text
  | .self _ => some <$> I.self
  | .unary op operand _ => do
    let v ← rowValue operand.evalRow
    some <$> I.unary op v
  | .binary op left right _ => do
    let v ← rowValue left.evalRow
    some <$> I.binary op v (rowValue right.evalRow)
  | .conditional condition thenBranch elseBranch _ => do
    let c ← rowValue condition.evalRow
    if ← I.test c then some <$> rowValue thenBranch.evalRow else some <$> rowValue elseBranch.evalRow
  | .assign target value _ => do
    let place ← target.evalPlace
    let v ← rowValue value.evalRow
    I.store place v
    return some v
  | .lambda params body _ => some <$> I.lambda params (rowValue body.evalRow)
  | .paren inner _ => some <$> rowValue inner.evalRow
  | .access base link true _ => do
    let root ← rowValue base.evalRow
    if root.isNull then return none
    some <$> link.evalOnto root
  | .access base link false _ => do
    match ← base.evalRow with
    | none => return none
    | some v => some <$> link.evalOnto v
  | .create type args entries _ => do
    let vs ← evalList args
    let object ← I.create type vs
    evalEntries object entries
    return some object

/-- Evaluates the operands of the target of an assignment. -/
def Expr.evalPlace : Expr → m (Place O)
  | .name text _ => pure (.name text)
  | .paren inner _ => inner.evalPlace
  | .access base (.member name _) false _ => do
    let v ← rowValue base.evalRow
    return name.place v
  | .access base (.element indices) false _ => do
    let v ← rowValue base.evalRow
    return .element v (← evalList indices)
  | _ => pure .nowhere

/-- Evaluates the access of a link to a value. -/
def Link.evalOnto (base : Value O) : Link → m (Value O)
  | .member name _ => I.memberOf base name
  | .element indices => do
    let vs ← evalList indices
    I.element base vs
  | .invoke args => do
    let vs ← evalList args
    I.invoke base vs

/-- Evaluates expressions from left to right. -/
def evalList : List Expr → m (List (Value O))
  | [] => pure []
  | e :: es => do
    let v ← rowValue e.evalRow
    let vs ← evalList es
    return v :: vs

/-- Stores the values of the entries of an initializer. -/
def evalEntries (object : Value O) : List Entry → m Unit
  | [] => pure ()
  | .member name _ value :: entries => do
    let v ← rowValue value.evalRow
    I.store (name.place object) v
    evalEntries object entries
  | .element indices _ value :: entries => do
    let vs ← evalList indices
    let v ← rowValue value.evalRow
    I.store (.element object vs) v
    evalEntries object entries

end

attribute [simp] Expr.evalRow

/-- Evaluates an expression. -/
def Expr.eval (e : Expr) : m (Value O) :=
  rowValue (e.evalRow I)

end Expressions

/-! ## Lowered expressions -/

section Lowered

variable [Monad m] (I : Interpretation m O)

mutual

/-- Evaluates a lowered expression with values for the temporaries. A binding evaluates its value once; taking a value out of
its nullable form or putting it into one keeps it. -/
def Lowered.eval (temps : Nat → Value O) : Lowered → m (Value O)
  | .source expr => expr.eval I
  | .temp index => pure (temps index)
  | .bind index value body => do
    let v ← value.eval temps
    body.eval (Function.update temps index v)
  | .conditional condition thenBranch elseBranch => do
    let c ← condition.eval temps
    if ← I.test c then thenBranch.eval temps else elseBranch.eval temps
  | .isNull operand => do
    let v ← operand.eval temps
    return .bool v.isNull
  | .null _ => pure .null
  | .unwrap operand => operand.eval temps
  | .wrap _ value => value.eval temps
  | .member base name => do
    let v ← base.eval temps
    I.member v name
  | .element base indices => do
    let v ← base.eval temps
    let vs ← Lowered.evalList temps indices
    I.element v vs
  | .invoke callee args => do
    let v ← callee.eval temps
    let vs ← Lowered.evalList temps args
    I.invoke v vs
  | .binary op left right => do
    let v ← left.eval temps
    I.binary op v (right.eval temps)
  | .unary op operand => do
    let v ← operand.eval temps
    I.unary op v
  | .assign target value => do
    let place ← target.evalPlace temps
    let v ← value.eval temps
    I.store place v
    return v

/-- Evaluates the operands of the target of an assignment. -/
def Lowered.evalPlace (temps : Nat → Value O) : Lowered → m (Place O)
  | .source expr => expr.evalPlace I
  | .member base name => do
    let v ← base.eval temps
    return .member v name
  | .element base indices => do
    let v ← base.eval temps
    return .element v (← Lowered.evalList temps indices)
  | _ => pure .nowhere

/-- Evaluates lowered expressions from left to right. -/
def Lowered.evalList (temps : Nat → Value O) : List Lowered → m (List (Value O))
  | [] => pure []
  | l :: ls => do
    let v ← l.eval temps
    let vs ← Lowered.evalList temps ls
    return v :: vs

end

attribute [simp] Lowered.eval

end Lowered

end NavCheck
