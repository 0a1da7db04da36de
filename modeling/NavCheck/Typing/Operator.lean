import NavCheck.Typing.Env

/-!
# Types of operators

The rules for operators once the types of their operands are known. An operand of the error type keeps quiet.
-/

namespace NavCheck

namespace Ty

/-- Whether the operator can be applied to a type. -/
def allowsUnary (type : Ty) : UnOp → Bool
  | .not => type = .bool
  | .neg => type.liftedRank?.isSome

/-- The type of a number operation: the wider of the two number types, nullable if one of them is. -/
def arithmetic? (left right : Ty) : Option Ty := do
  let leftRank ← left.liftedRank?
  let rightRank ← right.liftedRank?
  let wider := if rightRank ≤ leftRank then left else right
  let core := wider.inner?.getD wider
  return if left.inner?.isSome || right.inner?.isSome then core.orNull else core

/-- Whether two types can be compared by size. -/
def comparable (left right : Ty) : Bool :=
  (left.liftedRank?.isSome && right.liftedRank?.isSome) || (left = .char && right = .char)

end Ty

namespace TypeTable

/-- Whether a value of a type can be compared with `null`. -/
def meetsNull (t : TypeTable) (other : Ty) : Bool :=
  other = .null || t.classify other ≠ .value

/-- Whether two types can be compared for equality. -/
def equatable (t : TypeTable) (left right : Ty) : Bool :=
  match left, right with
  | .null, other => t.meetsNull other
  | other, .null => t.meetsNull other
  | _, _ =>
    t.assignable left right || t.assignable right left ||
      (left.liftedRank?.isSome && right.liftedRank?.isSome)

/-- The type of a branch beside a `null`. -/
def besideNull? (t : TypeTable) (other : Ty) : Option Ty :=
  match t.classify other with
  | .value => some other.orNull
  | .reference | .nullableValue => some other
  | .void | .unknown => none

/-- The common type of two branches. -/
def unify? (t : TypeTable) (left right : Ty) : Option Ty :=
  if left = right then some left
  else if left = .error ∨ right = .error then some .error
  else
    match left, right with
    | .null, other => t.besideNull? other
    | other, .null => t.besideNull? other
    | _, _ =>
      if t.assignable left right then some right
      else if t.assignable right left then some left
      else none

/-- The type of `??` with a left operand that may be missing. -/
def coalesce? (t : TypeTable) (left right : Ty) : Option Ty :=
  match t.classify left with
  | .nullableValue =>
    let inner := left.inner?.getD .error
    if t.assignable right inner then some inner
    else if t.assignable right left then some left
    else none
  | _ =>
    if t.assignable right left then some left
    else if t.assignable left right then some right
    else none

/-- The type of an operator between two operands other than `??`. -/
def binary? (t : TypeTable) (op : BinOp) (left right : Ty) : Option Ty :=
  if op.isLogical then if left = .bool ∧ right = .bool then some .bool else none
  else if op.isEquality then if t.equatable left right then some .bool else none
  else if op.isComparison then if left.comparable right then some .bool else none
  else if op = .add ∧ (left = .string ∨ right = .string) then some .string
  else left.arithmetic? right

end TypeTable

namespace BinOp

/-- Whether an operator gives a truth value whatever its operands are. -/
def givesBool (op : BinOp) : Bool :=
  op.isComparison || op.isEquality || op.isLogical

end BinOp

/-- The type of an operator in front of an operand. -/
def unaryType (op : UnOp) (type : Ty) (span : Span) : Typed Ty := do
  if type = .error then return .error
  if type.allowsUnary op then return type
  (TypingFault.badOperand op type).report span
  return .error

namespace Env

/-- The type of `??`. -/
def coalesceType (env : Env) (left right : Ty) (leftSpan span : Span) : Typed Ty := do
  if left = .error ∨ right = .error then return .error
  if left = .null then return right
  match env.table.classify left with
  | .value | .void =>
    (TypingFault.neverNullLeft left).report leftSpan
    return left
  | _ =>
    match env.table.coalesce? left right with
    | some type => return type
    | none =>
      (TypingFault.coalesceMismatch left right).report span
      return .error

/-- The type of an operator between two operands. -/
def binaryType (env : Env) (op : BinOp) (left right : Ty) (leftSpan span : Span) : Typed Ty := do
  if op = .coalesce then return ← env.coalesceType left right leftSpan span
  if left = .error ∨ right = .error then return if op.givesBool then .bool else .error
  match env.table.binary? op left right with
  | some type => return type
  | none =>
    (TypingFault.badOperands op left right).report span
    return .error

/-- The type of a conditional with the given branches. -/
def branchType (env : Env) (thenType elseType : Ty) (span : Span) : Typed Ty :=
  match env.table.unify? thenType elseType with
  | some type => pure type
  | none => do
    (TypingFault.branchMismatch thenType elseType).report span
    return .error

end Env

end NavCheck
