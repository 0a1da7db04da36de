import NavCheck.Token.Basic

/-!
# Operators

The operators of expressions, the signs they are written with, and how tightly they bind. The parser and the printer share
these tables.
-/

namespace NavCheck

/-- The operators between two operands. -/
inductive BinOp where
  | add | sub | mul | div | rem | eq | ne | lt | le | gt | ge | and | or | coalesce
deriving DecidableEq

namespace BinOp

/-- The sign of an operator. -/
def sign : BinOp → Sign
  | .add => .plus
  | .sub => .minus
  | .mul => .star
  | .div => .slash
  | .rem => .percent
  | .eq => .equal
  | .ne => .notEqual
  | .lt => .less
  | .le => .atMost
  | .gt => .greater
  | .ge => .atLeast
  | .and => .both
  | .or => .either
  | .coalesce => .coalesce

/-- The operator of a sign. -/
def ofSign? : Sign → Option BinOp
  | .plus => some .add
  | .minus => some .sub
  | .star => some .mul
  | .slash => some .div
  | .percent => some .rem
  | .equal => some .eq
  | .notEqual => some .ne
  | .less => some .lt
  | .atMost => some .le
  | .greater => some .gt
  | .atLeast => some .ge
  | .both => some .and
  | .either => some .or
  | .coalesce => some .coalesce
  | _ => none

theorem ofSign?_eq_some_iff (s : Sign) (op : BinOp) : ofSign? s = some op ↔ s = op.sign := by
  cases s <;> cases op <;> decide

/-- How an operator is written. -/
def symbol (op : BinOp) : String :=
  op.sign.text

/-- How tightly an operator binds; more is tighter. -/
def precedence : BinOp → Nat
  | .coalesce => 1
  | .or => 2
  | .and => 3
  | .eq | .ne => 4
  | .lt | .le | .gt | .ge => 5
  | .add | .sub => 6
  | .mul | .div | .rem => 7

/-- Only `??` groups to the right. -/
def groupsRight : BinOp → Bool
  | .coalesce => true
  | _ => false

/-- Operators that compute a number or a text. -/
def isArithmetic : BinOp → Bool
  | .add | .sub | .mul | .div | .rem => true
  | _ => false

/-- Operators that compare by size. -/
def isComparison : BinOp → Bool
  | .lt | .le | .gt | .ge => true
  | _ => false

/-- Operators that compare for equality. -/
def isEquality : BinOp → Bool
  | .eq | .ne => true
  | _ => false

/-- Operators between truth values. -/
def isLogical : BinOp → Bool
  | .and | .or => true
  | _ => false

/-- Every operator. -/
def all : List BinOp :=
  [.add, .sub, .mul, .div, .rem, .eq, .ne, .lt, .le, .gt, .ge, .and, .or, .coalesce]

/-- The operator with a written form. -/
def ofSymbol? (s : String) : Option BinOp :=
  all.find? (·.symbol == s)

end BinOp

/-- The operators in front of an operand. -/
inductive UnOp where
  | not | neg
deriving DecidableEq

namespace UnOp

/-- The sign of an operator. -/
def sign : UnOp → Sign
  | .not => .bang
  | .neg => .minus

/-- The operator of a sign. -/
def ofSign? : Sign → Option UnOp
  | .bang => some .not
  | .minus => some .neg
  | _ => none

theorem ofSign?_eq_some_iff (s : Sign) (op : UnOp) : ofSign? s = some op ↔ s = op.sign := by
  cases s <;> cases op <;> decide

/-- How an operator is written. -/
def symbol (op : UnOp) : String :=
  op.sign.text

/-- The operator with a written form. -/
def ofSymbol? (s : String) : Option UnOp :=
  [UnOp.not, UnOp.neg].find? (·.symbol == s)

end UnOp

namespace Token

/-- The operator that a token stands for between operands. -/
def binOp? (t : Token) : Option BinOp :=
  match t.kind with
  | .sign s => BinOp.ofSign? s
  | _ => none

/-- The operator that a token stands for in front of an operand. -/
def unOp? (t : Token) : Option UnOp :=
  match t.kind with
  | .sign s => UnOp.ofSign? s
  | _ => none

/-- Can an operand begin with this token? -/
def startsOperand (t : Token) : Bool :=
  match t.kind with
  | .name | .number _ | .string _ | .punct .openParen => true
  | .keyword .thisKw | .keyword .nullKw | .keyword .trueKw | .keyword .falseKw | .keyword .newKw => true
  | .sign .bang | .sign .minus => true
  | _ => false

end Token

end NavCheck
