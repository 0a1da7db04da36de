import NavCheck.Expr.Chain
import NavCheck.Typing.Operator

/-!
# Types of accesses

The rules for accesses, calls and creations once the types of their bases are known. An access to the error type keeps quiet.
-/

namespace NavCheck

namespace Env

/-- A member of a value. -/
def memberOf (env : Env) (type : Ty) (name : MemberName) (span : Span) : Typed Operand := do
  if type = .error then return .value .error
  match env.table.member? type name with
  | some m => return .ofMember m
  | none =>
    match name with
    | .plain text => (TypingFault.noMember type text).report span
    | .keyed _ => (TypingFault.noKeyIndexer name type).report span
    return .value .error

/-- The indexer of a value with a number of parameters. -/
def indexerOf (env : Env) (type : Ty) (count : Nat) (span : Span) : Typed (Option IndexerSig) := do
  if type = .error then return none
  match env.table.indexer? type count with
  | some indexer => return some indexer
  | none =>
    (TypingFault.noIndexer type count).report span
    return none

end Env

/-- What can be called: a text that names it, its parameters and what it gives. -/
structure Callee where
  text : String
  params : List ParamSig
  result : Ty

namespace Operand

/-- What a call of an operand at a place calls. -/
def callee (operand : Operand) (span : Span) : Typed (Option Callee) :=
  match operand with
  | .method name params result => pure (some ⟨name, params, result⟩)
  | .value (.delegate params result) => pure (some ⟨"delegate", ParamSig.ofDelegate params, result⟩)
  | .value .error => pure none
  | .value type => do
    (TypingFault.notInvocable type).report span
    return none

end Operand

/-- How many parameters need an argument. -/
def requiredCount (params : List ParamSig) : Nat :=
  (params.filter (!·.hasDefault)).length

/-- Whether a number of arguments fits parameters. -/
def countFits (params : List ParamSig) (given : Nat) : Bool :=
  requiredCount params ≤ given && given ≤ params.length

/-- Checks the number of arguments of a call. -/
def checkCount (callee : String) (params : List ParamSig) (given : Nat) (span : Span) : Typed Unit :=
  if countFits params given then pure ()
  else (TypingFault.argCount callee (requiredCount params) params.length given).report span

namespace Env

/-- The constructor of a type that is to be created. -/
def constructorOf (env : Env) (type : Ty) (span : Span) : Typed (Option (List ParamSig)) :=
  match type with
  | .named name args => pure ((env.table.find? name).map (·.constructorWith args))
  | .error => pure none
  | other => do
    (TypingFault.notCreatable other).report span
    return none

/-- The type that an entry of an initializer stores to: it must be there and settable. -/
def entryTarget (type : Ty) (label : String) (found : Option (Bool × Ty)) (span : Span) : Typed Ty :=
  match found with
  | some (true, target) => pure target
  | some (false, _) => do
    (TypingFault.fixedEntryTarget label type).report span
    return .error
  | none => do
    (TypingFault.noEntryTarget type label).report span
    return .error

/-- The type of a member that an entry of an initializer stores to. -/
def memberTarget (env : Env) (type : Ty) (name : MemberName) (span : Span) : Typed Ty :=
  if type = .error then pure .error
  else entryTarget type name.text ((env.table.member? type name).map fun m => (m.isSettable, m.type)) span

/-- The type of an element that an entry of an initializer stores to. -/
def elementTarget (type : Ty) (indexer : Option IndexerSig) (span : Span) : Typed Ty :=
  entryTarget type "indexer" (indexer.map fun i => (i.settable, i.type)) span

end Env

/-! ## Chains -/

/-- A chain that is still going on: the type of its root, what it has come to, the place of its `?`, whether its root is taken
out of a nullable form, and whether the root can be missing at all. -/
structure TypedChain where
  root : Ty
  operand : Operand
  guard : Span
  unwraps : Bool
  valid : Bool

/-- A row of accesses: no chain, with whether it can be assigned to, or a chain that is still going on, or a chain that was
refused, whose further accesses are not looked at. -/
inductive TypedSpine where
  | whole (operand : Operand) (settable : Bool)
  | chain (chain : TypedChain)
  | refused

namespace Expr

/-- Whether an expression is the `null` literal, perhaps in parentheses. -/
def isNullLiteral : Expr → Bool
  | .literal .null _ => true
  | .paren inner _ => inner.isNullLiteral
  | _ => false

end Expr

namespace Env

/-- The fault of the root of a chain that refuses the chain, if there is one; the error type refuses it quietly. -/
def rootFault? (env : Env) (root : Expr) (type : Ty) : Option TypingFault :=
  if root.isNullLiteral ∨ type = .null then some .nullOperand
  else if env.table.classify type = .void then some .voidOperand
  else none

/-- Begins a chain at a root of a type. A root that can never be missing is reported, but the chain is looked at. -/
def openChain (env : Env) (root : Expr) (type : Ty) (guard : Span) : Typed (Option TypedChain) := do
  match env.rootFault? root type with
  | some fault =>
    fault.report root.span
    return none
  | none =>
    if type = .error then return none
    match env.table.classify type with
    | .nullableValue => return some ⟨type, .value (type.inner?.getD type), guard, type.inner?.isSome, true⟩
    | .value =>
      (TypingFault.valueOperand root.text type).report root.span
      return some ⟨type, .value type, guard, false, false⟩
    | _ => return some ⟨type, .value type, guard, false, true⟩

/-- What lowering has to know of a chain. -/
def planOf (c : TypedChain) (result : ChainResult) : Option ChainPlan :=
  if c.valid ∧ result ≠ .error then some ⟨c.unwraps, result.lift?, result.type⟩ else none

/-- Ends a chain at its outermost access: says what it gives and records it. -/
def closeChain (env : Env) (top : Expr) (c : TypedChain) : Typed Ty := do
  let type ← c.operand.type top.span
  if type = .error then return .error
  let result := env.table.chainResult type
  if result = .error then (TypingFault.unknownResult type top.text).report top.span
  Noted.note (.chain ⟨top.span, c.guard, top.text, c.root, result, none⟩ (planOf c result))
  return result.type

/-- Ends a row of accesses at its outermost access. -/
def close (env : Env) (top : Expr) : TypedSpine → Typed Operand
  | .whole operand _ => pure operand
  | .chain c => do return .value (← env.closeChain top c)
  | .refused => pure (.value .error)

end Env

end NavCheck
