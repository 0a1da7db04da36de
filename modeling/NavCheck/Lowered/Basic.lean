import NavCheck.Expr.Printer
import NavCheck.Ty.Basic

/-!
# Lowered expressions

The form of an expression in which every null-conditional chain is spelled out: the root is bound to a temporary, which is
tested against `null`, and the accesses run on the temporary only when it is not `null`. Parts without any chain are kept as
source.
-/

namespace NavCheck

/-- A lowered expression. `bind` evaluates its value once; `unwrap` takes the value out of its nullable form, and `wrap` puts
one into it. -/
inductive Lowered where
  | source (expr : Expr)
  | temp (index : Nat)
  | bind (index : Nat) (value body : Lowered)
  | conditional (condition thenBranch elseBranch : Lowered)
  | isNull (operand : Lowered)
  | null (type : Ty)
  | unwrap (operand : Lowered)
  | wrap (type : Ty) (value : Lowered)
  | member (base : Lowered) (name : String)
  | element (base : Lowered) (indices : List Lowered)
  | invoke (callee : Lowered) (args : List Lowered)
  | binary (op : BinOp) (left right : Lowered)
  | unary (op : UnOp) (operand : Lowered)
  | assign (target value : Lowered)

namespace Lowered

mutual

/-- The temporaries that are bound, in the order of evaluation. -/
def boundTemps : Lowered → List Nat
  | .source _ => []
  | .temp _ => []
  | .bind index value body => value.boundTemps ++ index :: body.boundTemps
  | .conditional condition thenBranch elseBranch =>
    condition.boundTemps ++ thenBranch.boundTemps ++ elseBranch.boundTemps
  | .isNull operand => operand.boundTemps
  | .null _ => []
  | .unwrap operand => operand.boundTemps
  | .wrap _ value => value.boundTemps
  | .member base _ => base.boundTemps
  | .element base indices => base.boundTemps ++ listBoundTemps indices
  | .invoke callee args => callee.boundTemps ++ listBoundTemps args
  | .binary _ left right => left.boundTemps ++ right.boundTemps
  | .unary _ operand => operand.boundTemps
  | .assign target value => target.boundTemps ++ value.boundTemps

/-- The temporaries that are bound in several expressions. -/
def listBoundTemps : List Lowered → List Nat
  | [] => []
  | l :: ls => l.boundTemps ++ listBoundTemps ls

end

/-! ## Text -/

/-- Whether an expression stands by itself where an operand is expected. -/
def standsAlone : Expr → Bool
  | .literal _ _ | .name _ _ | .self _ | .paren _ _ | .access _ _ _ _ | .create _ _ _ _ => true
  | _ => false

/-- Whether a lowered expression needs parentheses where an operand is expected. -/
def isCompound : Lowered → Bool
  | .bind _ _ _ => true
  | .binary _ _ _ => true
  | .unary _ _ => true
  | .assign _ _ => true
  | .isNull _ => true
  | .source expr => !standsAlone expr
  | _ => false

/-- Whether a lowered expression is a binding, whose body would take in what follows. -/
def isBinding : Lowered → Bool
  | .bind _ _ _ => true
  | _ => false

/-- How a temporary is written. -/
def tempText (index : Nat) : String :=
  s!"$t{index}"

/-- A text in parentheses when a condition holds. -/
def parensIf (condition : Bool) (text : String) : String :=
  if condition then "(" ++ text ++ ")" else text

mutual

/-- How a lowered expression is written. -/
def text : Lowered → String
  | .source expr => expr.text
  | .temp index => tempText index
  | .bind index value body =>
    "let " ++ tempText index ++ " = " ++ parensIf value.isBinding value.text ++ " in " ++ body.text
  | .conditional condition thenBranch elseBranch =>
    "(" ++ condition.text ++ " ? " ++ parensIf thenBranch.isCompound thenBranch.text ++ " : " ++
      parensIf elseBranch.isCompound elseBranch.text ++ ")"
  | .isNull operand => parensIf operand.isCompound operand.text ++ " == null"
  | .null _ => "null"
  | .unwrap operand => "unwrap(" ++ operand.text ++ ")"
  | .wrap type value => "(" ++ type.text ++ ")(" ++ value.text ++ ")"
  | .member base name => parensIf base.isCompound base.text ++ "." ++ name
  | .element base indices => parensIf base.isCompound base.text ++ "[" ++ ", ".intercalate (valueTexts indices) ++ "]"
  | .invoke callee args => parensIf callee.isCompound callee.text ++ "(" ++ ", ".intercalate (valueTexts args) ++ ")"
  | .binary op left right =>
    parensIf left.isCompound left.text ++ " " ++ op.symbol ++ " " ++ parensIf right.isCompound right.text
  | .unary op operand => op.symbol ++ parensIf operand.isCompound operand.text
  | .assign target value => parensIf target.isCompound target.text ++ " = " ++ parensIf value.isBinding value.text

/-- How several lowered expressions are written where values are expected. -/
def valueTexts : List Lowered → List String
  | [] => []
  | l :: ls => parensIf l.isBinding l.text :: valueTexts ls

end

end Lowered

end NavCheck
