import NavCheck.Capture.Reference
import NavCheck.Lowered.Plan
import NavCheck.Noted
import NavCheck.Table.Assignable
import NavCheck.Typing.ChainResult
import NavCheck.Typing.Fault

/-!
# Environments of typing

What an expression may speak of: the table, the type around it with its generic parameters and the parameters of its
constructor, the locals, and when the code runs. Typing an expression gives a type and notes: findings, and records of the
chains that were understood.
-/

namespace NavCheck

/-- The locals of a block, the latest first. -/
abbrev Scope := List (String × Ty)

/-- What an expression may speak of; the innermost scope stands first. -/
structure Env where
  table : TypeTable
  self : Ty
  generics : List GenericInfo
  primary : List ParamSig
  phase : Phase
  isStatic : Bool
  scopes : List Scope

/-- An understood chain: its place and that of its `?`, its text, the type that the `?` tests, what it gives, and its lowered
form once it has one. -/
structure NavigationRecord where
  span : Span
  guard : Span
  text : String
  operand : Ty
  result : ChainResult
  lowered : Option Lowered

/-- What a name stands for: a local, a primary constructor parameter in a phase, a member, or nothing. -/
inductive NameMeaning where
  | local (type : Ty)
  | parameter (param : ParamSig) (phase : Phase)
  | member (sig : MemberSig)
  | unknown
deriving DecidableEq

/-- A name that was looked up, and what it stands for there. -/
structure NameUse where
  name : String
  span : Span
  meaning : NameMeaning
deriving DecidableEq

/-- What is noted while an expression is typed: findings, the chains that were understood, and the names that were looked
up. -/
inductive TypingNote where
  | finding (diagnostic : Diagnostic)
  | chain (record : NavigationRecord) (plan : Option ChainPlan)
  | name (use : NameUse)

/-- A value with notes of typing. -/
abbrev Typed (α : Type) := Noted TypingNote α

/-- Reports a fault. -/
def TypingFault.report (fault : TypingFault) (span : Span) : Typed Unit :=
  Noted.note (.finding (fault.finding span))

/-- What an expression is before it is used: a value, or a method that is not yet invoked. -/
inductive Operand where
  | value (type : Ty)
  | method (name : String) (params : List ParamSig) (result : Ty)
deriving DecidableEq

namespace Operand

/-- A member as an operand. -/
def ofMember (m : MemberSig) : Operand :=
  match m.kind with
  | .method params => .method m.name params m.type
  | _ => .value m.type

/-- The type of an operand that is used as a value at a place. -/
def type (operand : Operand) (span : Span) : Typed Ty :=
  match operand with
  | .value t => pure t
  | .method name _ _ => do
    (TypingFault.methodValue name).report span
    return .error

end Operand

/-- The type of an expression at a place where a value is needed. -/
def requireValue (type : Ty) (span : Span) : Typed Ty :=
  match type with
  | .void => do
    TypingFault.noValue.report span
    return .error
  | t => pure t

namespace Env

/-- The type of the latest local of a name. -/
def local? (env : Env) (name : String) : Option Ty :=
  env.scopes.findSome? (·.lookup name)

/-- The primary constructor parameter of a name. -/
def primary? (env : Env) (name : String) : Option ParamSig :=
  env.primary.find? (·.name == name)

/-- The environment with one more scope inside. -/
def enterScope (env : Env) (scope : Scope) : Env :=
  { env with scopes := scope :: env.scopes }

/-- The environment with one more local in the innermost scope. -/
def declare (env : Env) (name : String) (type : Ty) : Env :=
  match env.scopes with
  | [] => env
  | scope :: scopes => { env with scopes := ((name, type) :: scope) :: scopes }

/-- The environment of the body of a lambda, which may run at any time. -/
def enterLambda (env : Env) (params : List (String × Ty)) : Env :=
  { env.enterScope params.reverse with phase := .afterwards }

/-- What a name stands for. Locals come first, and then the parameters of the primary constructor. -/
def meaning (env : Env) (name : String) : NameMeaning :=
  match env.local? name with
  | some type => .local type
  | none =>
    match env.primary? name with
    | some param => .parameter param env.phase
    | none =>
      match env.table.member? env.self (.plain name) with
      | some m => .member m
      | none => .unknown

/-- What a meaning gives to the expression that names it. A parameter that is out of reach is reported elsewhere. -/
def operandOf (env : Env) (name : String) (span : Span) : NameMeaning → Typed Operand
  | .local type => pure (.value type)
  | .parameter param phase => pure (.value (if phase = .construction then param.type else .error))
  | .member m =>
    if env.isStatic && !m.isStatic then do
      (TypingFault.instanceInStatic name).report span
      return .value .error
    else pure (.ofMember m)
  | .unknown => do
    (TypingFault.unknownName name).report span
    return .value .error

/-- Looks a name up. -/
def lookup (env : Env) (name : String) (span : Span) : Typed Operand := do
  Noted.note (.name ⟨name, span, env.meaning name⟩)
  env.operandOf name span (env.meaning name)

/-- Whether a name can be assigned to, if it means anything. -/
def isSettable (env : Env) (name : String) : Bool :=
  (env.local? name).isSome || (env.primary? name).isSome ||
    ((env.table.member? env.self (.plain name)).map (·.isSettable)).getD true

/-- Whether a link on a value of a type can be assigned to, if it means anything. -/
def linkSettable (env : Env) (type : Ty) : Link → Bool
  | .member name _ => ((env.table.member? type name).map (·.isSettable)).getD true
  | .element indices => ((env.table.indexer? type indices.length).map (·.settable)).getD true
  | .invoke _ => false

/-- The meaning of a written type. -/
def resolve (env : Env) (e : TypeExpr) : Typed Ty :=
  match env.table.resolve env.generics e with
  | .ok type => pure type
  | .error fault => do
    Noted.note (.finding fault.toDiagnostic)
    return .error

/-- The meaning of a written type whose faults were already reported. -/
def resolveDeclared (env : Env) (e : TypeExpr) : Ty :=
  env.table.resolveOrError env.generics e

end Env

end NavCheck
