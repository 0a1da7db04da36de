import NavCheck.Typing.Access

/-!
# Types of expressions

Typing goes over an expression once, from the inside out and from left to right. As in lowering, a row of accesses is carried
as a `TypedSpine` up to its outermost access, where a chain is closed and recorded. What is expected of an expression
matters in two places only: a lambda takes the types of its parameters from a delegate, and a target of an assignment must be
settable.
-/

namespace NavCheck

/-- What an expression is typed for: its value, a value of an expected type, or to be assigned to. -/
inductive Goal where
  | value
  | against (expected : Ty)
  | target
deriving DecidableEq

namespace Goal

/-- The delegate that is expected of a lambda with a number of parameters. -/
def delegate? (goal : Goal) (count : Nat) : Option (List Ty × Ty) :=
  match goal with
  | .against (.delegate params result) => if params.length = count then some (params, result) else none
  | _ => none

end Goal

/-- The type of a literal. -/
def Literal.type : Literal → Ty
  | .int _ => .int
  | .str _ => .string
  | .bool _ => .bool
  | .null => .null

namespace Env

/-- The type of `this`. -/
def selfType (env : Env) (span : Span) : Typed Ty := do
  if env.isStatic then
    TypingFault.selfInStatic.report span
    return .error
  return env.self

/-- The types of the parameters of a lambda, written or taken from the types that are expected. -/
def lambdaParams (env : Env) : List LambdaParam → Option (List Ty) → Typed (List (String × Ty))
  | [], _ => pure []
  | p :: ps, expected => do
    let type ←
      match p.type with
      | some written => env.resolve written
      | none => pure ((expected.bind (·.head?)).getD .error)
    return (p.name, type) :: (← env.lambdaParams ps (expected.map (·.tail)))

/-- The type of an expression as a value, by its row of accesses. -/
def valueOf (env : Env) (e : Expr) (spine : Typed TypedSpine) : Typed Ty := do
  (← env.close e (← spine)).type e.span

/-- The type of an expression where something that is not `void` is needed. -/
def presentValueOf (env : Env) (e : Expr) (spine : Typed TypedSpine) : Typed Ty := do
  requireValue (← env.valueOf e spine) e.span

/-- Types an expression and checks that it can be stored where a type is expected. -/
def check (env : Env) (expected : Ty) (e : Expr) (spine : Typed TypedSpine) : Typed Unit := do
  let found ← env.presentValueOf e spine
  if !env.table.assignable found expected then (TypingFault.mismatch expected found).report e.span

/-- The type that can be assigned to an expression. -/
def targetOf (env : Env) (e : Expr) (spine : Typed TypedSpine) : Typed Ty := do
  let row ← spine
  let type ← (← env.close e row).type e.span
  if e.onChain then
    TypingFault.chainTarget.report e.span
    return .error
  match row with
  | .whole _ true => return type
  | _ =>
    if type ≠ .error then TypingFault.notTarget.report e.span
    return .error

/-- The operand that an access is put onto. One that is to be assigned to must have a value as its base. -/
def baseOperand (operand : Operand) (goal : Goal) (link : Link) (base : Expr) : Typed Operand :=
  match goal, link with
  | .target, .invoke _ => pure operand
  | .target, _ => do return .value (← operand.type base.span)
  | _, _ => pure operand

/-- Whether an access on an operand can be assigned to. -/
def accessSettable (env : Env) (operand : Operand) (link : Link) : Bool :=
  match operand with
  | .value type => env.linkSettable type link
  | .method _ _ _ => false

end Env

mutual

/-- Types an expression up to its outermost access. -/
def Expr.typeSpine (env : Env) (goal : Goal) : Expr → Typed TypedSpine
  | .literal value _ => pure (.whole (.value value.type) false)
  | .name text span => do
    return .whole (← env.lookup text span) (env.isSettable text)
  | .self span => do
    return .whole (.value (← env.selfType span)) false
  | .unary op operand span => do
    let type ← env.presentValueOf operand (operand.typeSpine env .value)
    return .whole (.value (← unaryType op type span)) false
  | .binary op left right span => do
    let leftType ← env.presentValueOf left (left.typeSpine env .value)
    let rightType ← env.presentValueOf right (right.typeSpine env .value)
    return .whole (.value (← env.binaryType op leftType rightType left.span span)) false
  | .conditional condition thenBranch elseBranch _ => do
    env.check .bool condition (condition.typeSpine env (.against .bool))
    let thenType ← env.presentValueOf thenBranch (thenBranch.typeSpine env .value)
    let elseType ← env.presentValueOf elseBranch (elseBranch.typeSpine env .value)
    return .whole (.value (← env.branchType thenType elseType (thenBranch.span.join elseBranch.span))) false
  | .assign target value _ => do
    let type ← env.targetOf target (target.typeSpine env .target)
    env.check type value (value.typeSpine env (.against type))
    return .whole (.value type) false
  | .lambda params body _ => do
    let expected := goal.delegate? params.length
    let types ← env.lambdaParams params (expected.map (·.1))
    let inside := env.enterLambda types
    let result ←
      match expected with
      | none => inside.valueOf body (body.typeSpine inside .value)
      | some (_, .void) => inside.valueOf body (body.typeSpine inside .value)
      | some (_, result) => do
        inside.check result body (body.typeSpine inside (.against result))
        pure result
    return .whole (.value (.delegate (types.map (·.2)) result)) false
  | .paren inner _ => do
    match goal with
    | .target => return .whole (.value (← env.targetOf inner (inner.typeSpine env .target))) true
    | _ => return .whole (← env.close inner (← inner.typeSpine env .value)) false
  | .access base (.invoke args) true span => do
    let _ ← env.valueOf base (base.typeSpine env .value)
    typeList env args
    let call := base.text ++ "?.Invoke(" ++ ", ".intercalate (args.map (·.text)) ++ ")"
    (TypingFault.guardedInvocation span call).report (guardSpan base span)
    return .refused
  | .access base link true span => do
    let type ← env.valueOf base (base.typeSpine env .value)
    match ← env.openChain base type (guardSpan base span) with
    | some c => return .chain { c with operand := ← link.typeOnto env c.operand span }
    | none => return .refused
  | .access base link false span => do
    match ← base.typeSpine env .value with
    | .chain c => return .chain { c with operand := ← link.typeOnto env c.operand span }
    | .refused => return .refused
    | .whole operand _ =>
      let operand ← Env.baseOperand operand goal link base
      return .whole (← link.typeOnto env operand span) (env.accessSettable operand link)
  | .create type args entries span => do
    let created ← env.resolve type
    match ← env.constructorOf created type.span with
    | some params =>
      checkCount s!"new {created.text}" params args.length span
      checkList env params args
    | none => typeList env args
    checkEntries env created entries
    return .whole (.value created) false

/-- The access of a link to an operand; `span` is the place of the whole access. -/
def Link.typeOnto (env : Env) (operand : Operand) (span : Span) : Link → Typed Operand
  | .member name nameSpan => do
    env.memberOf (← operand.type nameSpan) name nameSpan
  | .element indices => do
    let type ← operand.type span
    match ← env.indexerOf type indices.length span with
    | some indexer =>
      checkList env indexer.params indices
      return .value indexer.type
    | none =>
      typeList env indices
      return .value .error
  | .invoke args => do
    match ← operand.callee span with
    | some callee =>
      checkCount callee.text callee.params args.length span
      checkList env callee.params args
      return .value callee.result
    | none =>
      typeList env args
      return .value .error

/-- Types expressions for nothing but their faults. -/
def typeList (env : Env) : List Expr → Typed Unit
  | [] => pure ()
  | e :: es => do
    let _ ← env.valueOf e (e.typeSpine env .value)
    typeList env es

/-- Checks arguments against parameters; arguments without a parameter are typed for their faults. -/
def checkList (env : Env) : List ParamSig → List Expr → Typed Unit
  | _, [] => pure ()
  | [], e :: es => do
    let _ ← env.valueOf e (e.typeSpine env .value)
    checkList env [] es
  | p :: ps, e :: es => do
    env.check p.type e (e.typeSpine env (.against p.type))
    checkList env ps es

/-- Checks the entries of an initializer of a type. -/
def checkEntries (env : Env) (type : Ty) : List Entry → Typed Unit
  | [] => pure ()
  | .member name span value :: entries => do
    let target ← env.memberTarget type name span
    env.check target value (value.typeSpine env (.against target))
    checkEntries env type entries
  | .element indices span value :: entries => do
    let target ←
      if type = .error then pure .error
      else do
        let indexer := env.table.indexer? type indices.length
        match indexer with
        | some indexer => checkList env indexer.params indices
        | none => typeList env indices
        Env.elementTarget type indexer span
    env.check target value (value.typeSpine env (.against target))
    checkEntries env type entries

end

namespace Expr

/-- The type of an expression as a value. -/
def type (env : Env) (e : Expr) : Typed Ty :=
  env.valueOf e (e.typeSpine env .value)

/-- The type of an expression that must not be `void`. -/
def presentType (env : Env) (e : Expr) : Typed Ty :=
  env.presentValueOf e (e.typeSpine env .value)

/-- Types an expression where a type is expected. -/
def checkAgainst (env : Env) (expected : Ty) (e : Expr) : Typed Unit :=
  env.check expected e (e.typeSpine env (.against expected))

end Expr

end NavCheck
