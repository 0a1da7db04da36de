import NavCheck.Expr.Basic
import NavCheck.Text.Quoted

/-!
# Printing expressions

The canonical text of an expression. Every form has a level; an operand whose level is too low for its place is put in
parentheses, and no others are added.
-/

namespace NavCheck

/-- The levels of the forms, from the loosest to the tightest. A binary operator stands at `binary` plus its precedence. -/
structure Levels where
  lambda : Nat
  assign : Nat
  conditional : Nat
  binary : Nat
  unary : Nat
  postfixed : Nat
  primary : Nat

/-- The levels that the printer uses. -/
def levels : Levels :=
  { lambda := 0, assign := 1, conditional := 2, binary := 10, unary := 30, postfixed := 40, primary := 50 }

/-- A text and the level of the form that it spells. -/
structure Rendered where
  text : String
  level : Nat

/-- The text for a place that asks for a level: in parentheses when the form is looser. -/
def Rendered.atLeast (r : Rendered) (level : Nat) : String :=
  if r.level < level then "(" ++ r.text ++ ")" else r.text

/-- How a literal is written. -/
def Literal.text : Literal → String
  | .int value => toString value
  | .str value => Text.quote value
  | .bool value => if value then "true" else "false"
  | .null => "null"

/-- The name of a single parameter without a type, which a lambda shows without parentheses. -/
def soleName? : List LambdaParam → Option String
  | [⟨none, name, _⟩] => some name
  | _ => none

/-- How a parameter of a lambda is written. -/
def LambdaParam.text (p : LambdaParam) : String :=
  match p.type with
  | some type => type.text ++ " " ++ p.name
  | none => p.name

/-- The parameters of a lambda; a single one without a type needs no parentheses. -/
def lambdaParamsText (params : List LambdaParam) : String :=
  match soleName? params with
  | some name => name
  | none => "(" ++ ", ".intercalate (params.map LambdaParam.text) ++ ")"

mutual

/-- The text and level of an expression. -/
def Expr.render : Expr → Rendered
  | .literal value _ => ⟨value.text, levels.primary⟩
  | .name text _ => ⟨text, levels.primary⟩
  | .self _ => ⟨"this", levels.primary⟩
  | .paren inner _ => ⟨"(" ++ inner.render.text ++ ")", levels.primary⟩
  | .unary op operand _ => ⟨op.symbol ++ operand.render.atLeast levels.unary, levels.unary⟩
  | .binary op left right _ =>
    let level := levels.binary + op.precedence
    let (leftLevel, rightLevel) := if op.groupsRight then (level + 1, level) else (level, level + 1)
    ⟨left.render.atLeast leftLevel ++ " " ++ op.symbol ++ " " ++ right.render.atLeast rightLevel, level⟩
  | .conditional condition thenBranch elseBranch _ =>
    ⟨condition.render.atLeast (levels.conditional + 1) ++ " ? " ++ thenBranch.render.atLeast levels.conditional ++
      " : " ++ elseBranch.render.atLeast levels.conditional, levels.conditional⟩
  | .assign target value _ =>
    ⟨target.render.atLeast (levels.assign + 1) ++ " = " ++ value.render.atLeast levels.assign, levels.assign⟩
  | .lambda params body _ => ⟨lambdaParamsText params ++ " => " ++ body.render.atLeast levels.assign, levels.lambda⟩
  | .access base link guarded _ =>
    ⟨base.render.atLeast levels.postfixed ++ (if guarded then "?" else "") ++ link.text, levels.postfixed⟩
  | .create type args entries _ =>
    let head := "new " ++ type.text ++ "(" ++ ", ".intercalate (listTexts args) ++ ")"
    let tail := if entries.isEmpty then "" else " \x7b " ++ ", ".intercalate (entryTexts entries) ++ " \x7d"
    ⟨head ++ tail, levels.primary⟩

/-- The text of a link behind its base and its `?`. -/
def Link.text : Link → String
  | .member name _ => "." ++ name.text
  | .element indices => "[" ++ ", ".intercalate (listTexts indices) ++ "]"
  | .invoke args => "(" ++ ", ".intercalate (listTexts args) ++ ")"

/-- The texts of several expressions. -/
def listTexts : List Expr → List String
  | [] => []
  | e :: es => e.render.text :: listTexts es

/-- The texts of the entries of an initializer. -/
def entryTexts : List Entry → List String
  | [] => []
  | .member name _ value :: entries =>
    (name.text ++ " = " ++ value.render.atLeast levels.assign) :: entryTexts entries
  | .element indices _ value :: entries =>
    ("[" ++ ", ".intercalate (listTexts indices) ++ "] = " ++ value.render.atLeast levels.assign) :: entryTexts entries

end

/-- The canonical text of an expression. -/
def Expr.text (e : Expr) : String :=
  e.render.text

end NavCheck
