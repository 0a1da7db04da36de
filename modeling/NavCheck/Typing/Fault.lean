import NavCheck.Diagnostic.Basic
import NavCheck.Expr.Basic
import NavCheck.Ty.Basic

/-!
# Faults of types

What can be wrong with the types of expressions and statements, and with null-conditional chains.
-/

namespace NavCheck

/-- What is wrong. Where a chain is at fault the expressions in question are carried as texts. -/
inductive TypingFault where
  | unknownName (name : String)
  | noMember (type : Ty) (name : String)
  | noEntryTarget (type : Ty) (label : String)
  | noKeyIndexer (name : MemberName) (type : Ty)
  | noIndexer (type : Ty) (count : Nat)
  | notInvocable (type : Ty)
  | argCount (callee : String) (required total given : Nat)
  | baseArgCount (name : String) (total given : Nat)
  | methodValue (name : String)
  | selfInStatic
  | instanceInStatic (name : String)
  | noValue
  | mismatch (expected found : Ty)
  | notCreatable (type : Ty)
  | branchMismatch (thenType elseType : Ty)
  | coalesceMismatch (left right : Ty)
  | nullLocal (name : String)
  | lambdaLocal (name : String)
  | valueFromVoid
  | noReturnValue (type : Ty)
  | badOperand (op : UnOp) (type : Ty)
  | badOperands (op : BinOp) (left right : Ty)
  | chainTarget
  | notTarget
  | fixedEntryTarget (label : String) (type : Ty)
  | neverNullLeft (type : Ty)
  | guardedInvocation (call : Span) (replacement : String)
  | unknownResult (type : Ty) (chain : String)
  | nullOperand
  | valueOperand (operand : String) (type : Ty)
  | voidOperand
deriving DecidableEq

namespace TypingFault

/-- The code of a fault. -/
def code : TypingFault → String
  | .unknownName _ => "TCK100"
  | .noMember _ _ => "TCK101"
  | .noEntryTarget _ _ => "TCK101"
  | .noKeyIndexer _ _ => "TCK102"
  | .noIndexer _ _ => "TCK102"
  | .notInvocable _ => "TCK103"
  | .argCount _ _ _ _ => "TCK104"
  | .baseArgCount _ _ _ => "TCK104"
  | .methodValue _ => "TCK105"
  | .selfInStatic => "TCK106"
  | .instanceInStatic _ => "TCK107"
  | .noValue => "TCK200"
  | .mismatch _ _ => "TCK200"
  | .notCreatable _ => "TCK200"
  | .branchMismatch _ _ => "TCK200"
  | .coalesceMismatch _ _ => "TCK200"
  | .nullLocal _ => "TCK200"
  | .lambdaLocal _ => "TCK200"
  | .valueFromVoid => "TCK200"
  | .noReturnValue _ => "TCK200"
  | .badOperand _ _ => "TCK201"
  | .badOperands _ _ _ => "TCK201"
  | .chainTarget => "TCK202"
  | .notTarget => "TCK202"
  | .fixedEntryTarget _ _ => "TCK202"
  | .neverNullLeft _ => "TCK203"
  | .guardedInvocation _ _ => "NAV001"
  | .unknownResult _ _ => "NAV002"
  | .nullOperand => "NAV003"
  | .valueOperand _ _ => "NAV003"
  | .voidOperand => "NAV003"

/-- Whether the fault is one of a null-conditional chain. -/
def isNavigation : TypingFault → Bool
  | .guardedInvocation _ _ | .unknownResult _ _ | .nullOperand | .valueOperand _ _ | .voidOperand => true
  | _ => false

/-- The category of a fault. -/
def category (fault : TypingFault) : String :=
  if fault.isNavigation then "navigation" else "typeck"

/-- How many arguments are expected. -/
def countText (required total : Nat) : String :=
  if required = total then toString total else s!"{required} to {total}"

/-- The wording of a fault. -/
def message : TypingFault → String
  | .unknownName name => s!"cannot find `{name}` in this scope"
  | .noMember type name => s!"type `{type.text}` has no member named `{name}`"
  | .noEntryTarget type label => s!"type `{type.text}` has no settable `{label}`"
  | .noKeyIndexer name type => s!"`{name.text}` needs a `string` indexer, but type `{type.text}` has none"
  | .noIndexer type count => s!"type `{type.text}` has no indexer taking {count} argument(s)"
  | .notInvocable type => s!"a value of type `{type.text}` cannot be invoked"
  | .argCount callee required total given =>
    s!"`{callee}` takes {countText required total} argument(s) but {given} were supplied"
  | .baseArgCount name total given =>
    s!"base constructor of `{name}` takes {total} argument(s) but {given} were supplied"
  | .methodValue name => s!"method `{name}` must be invoked; a method is not a value"
  | .selfInStatic => "`this` is not available in a static context"
  | .instanceInStatic name => s!"instance member `{name}` cannot be used from a static context"
  | .noValue => "expression does not produce a value"
  | .mismatch expected found => s!"expected `{expected.text}`, found `{found.text}`"
  | .notCreatable type => s!"cannot create an instance of `{type.text}`"
  | .branchMismatch thenType elseType =>
    s!"conditional branches have incompatible types `{thenType.text}` and `{elseType.text}`"
  | .coalesceMismatch left right => s!"`??` operands have incompatible types `{left.text}` and `{right.text}`"
  | .nullLocal name => s!"cannot infer the type of `{name}` from `null`"
  | .lambdaLocal name => s!"cannot infer the parameter types of the lambda assigned to `{name}`"
  | .valueFromVoid => "a `void` member cannot return a value"
  | .noReturnValue type => s!"missing return value of type `{type.text}`"
  | .badOperand op type => s!"operator `{op.symbol}` cannot be applied to `{type.text}`"
  | .badOperands op left right =>
    s!"operator `{op.symbol}` cannot be applied to `{left.text}` and `{right.text}`"
  | .chainTarget => "a null-conditional access cannot be assigned to"
  | .notTarget => "left side of an assignment must be a variable, a settable property or an indexer"
  | .fixedEntryTarget label type =>
    s!"`{label}` of `{type.text}` cannot be assigned in an object initializer"
  | .neverNullLeft type => s!"left operand of `??` has non-nullable type `{type.text}`"
  | .guardedInvocation _ _ => "a null-conditional access cannot guard an invocation"
  | .unknownResult type chain =>
    s!"cannot tell whether `{type.text}` is a reference or a value type, " ++
      s!"so the result of `{chain}` has no static type"
  | .nullOperand => "the `null` literal cannot be the operand of a null-conditional access"
  | .valueOperand operand type =>
    s!"`{operand}` has non-nullable value type `{type.text}` and can never be null"
  | .voidOperand => "the operand of a null-conditional access does not produce a value"

/-- What is said beside the message. -/
def notes : TypingFault → List String
  | .unknownResult (.param name _) _ =>
    [s!"constrain `{name}` with `where {name} : class` or `where {name} : struct`"]
  | .valueOperand _ _ =>
    ["use `.` instead of `?.`, or make the operand nullable",
      "null-conditional access is reserved for reference and nullable value operands, as in the host language"]
  | _ => []

/-- What is proposed. -/
def suggestions : TypingFault → List Suggestion
  | .guardedInvocation call replacement => [⟨"call `Invoke` explicitly", some call, some replacement⟩]
  | _ => []

/-- The finding about a fault at a place. -/
def finding (fault : TypingFault) (span : Span) : Diagnostic :=
  { Diagnostic.coded fault.code fault.category fault.message (some span) with
    notes := fault.notes, suggestions := fault.suggestions }

end TypingFault

end NavCheck
