import NavCheck.Expr.Chain
import NavCheck.Lowered.Plan

/-!
# Lowering

Every chain with a plan is spelled out; one without a plan was found wrong and stays as source, but the chains among its
operands are lowered nevertheless. The accesses of a chain are put onto its temporary from the inside out, so a `LoweredSpine`
carries a chain from its `?` up to its outermost access, where it is closed.
-/

namespace NavCheck

/-- What lowering keeps: the number of the next temporary and the chains so far. -/
structure LowerState where
  next : Nat
  chains : LoweredChains

/-- An action of lowering. -/
abbrev Lowering := StateM LowerState

/-- A chain that is still going on: its plan, the place of its `?`, the temporary, the value of the root, and the accesses so
far put onto the temporary. -/
structure OpenChain where
  plan : ChainPlan
  guard : Span
  temp : Nat
  value : Lowered
  access : Lowered

/-- A row of accesses: no chain, a chain that is still going on, or a chain without a plan. -/
inductive LoweredSpine where
  | whole (lowered : Lowered)
  | chain (chain : OpenChain)
  | kept

namespace Lowering

/-- A new temporary. -/
def freshTemp : Lowering Nat :=
  fun s => (s.next, { s with next := s.next + 1 })

/-- Keeps a lowered chain. -/
def keepChain (guard : Span) (lowered : Lowered) : Lowering Unit :=
  modify fun s => { s with chains := s.chains.insert guard lowered }

end Lowering

namespace OpenChain

/-- The chain spelled out. -/
def lowered (c : OpenChain) : Lowered :=
  let access := match c.plan.wrap with
    | some type => .wrap type c.access
    | none => c.access
  .bind c.temp c.value (.conditional (.isNull (.temp c.temp)) (.null c.plan.result) access)

end OpenChain

namespace LoweredSpine

/-- Ends a row of accesses at its outermost access. -/
def close (top : Expr) : LoweredSpine → Lowering Lowered
  | .whole lowered => pure lowered
  | .chain c => do
    Lowering.keepChain c.guard c.lowered
    return c.lowered
  | .kept => pure (.source top)

/-- Puts an access onto a row of accesses. -/
def onto (put : Lowered → Lowered) : LoweredSpine → LoweredSpine
  | .whole lowered => .whole (put lowered)
  | .chain c => .chain { c with access := put c.access }
  | .kept => .kept

end LoweredSpine

/-- Lowers an expression by an action for its row of accesses; without any chain inside it stays as it is. -/
def Lowering.settle (e : Expr) (spine : Lowering LoweredSpine) : Lowering Lowered :=
  if e.hasNavigation then do LoweredSpine.close e (← spine) else pure (.source e)

/-- A link with lowered operands, put onto a base. A keyed name reads the element with the name as its key. -/
def Link.put (link : Link) (operands : List Lowered) (base : Lowered) : Lowered :=
  match link with
  | .member (.plain name) _ => .member base name
  | .member (.keyed name) span => .element base [.source (.literal (.str name) span)]
  | .element _ => .element base operands
  | .invoke _ => .invoke base operands

mutual

/-- Lowers an expression up to its outermost access. -/
def Expr.lowerSpine (plans : ChainPlans) : Expr → Lowering LoweredSpine
  | .literal value span => pure (.whole (.source (.literal value span)))
  | .name text span => pure (.whole (.source (.name text span)))
  | .self span => pure (.whole (.source (.self span)))
  | .unary op operand _ => do
    let operand ← Lowering.settle operand (operand.lowerSpine plans)
    return .whole (.unary op operand)
  | .binary op left right _ => do
    let left ← Lowering.settle left (left.lowerSpine plans)
    let right ← Lowering.settle right (right.lowerSpine plans)
    return .whole (.binary op left right)
  | .conditional condition thenBranch elseBranch _ => do
    let condition ← Lowering.settle condition (condition.lowerSpine plans)
    let thenBranch ← Lowering.settle thenBranch (thenBranch.lowerSpine plans)
    let elseBranch ← Lowering.settle elseBranch (elseBranch.lowerSpine plans)
    return .whole (.conditional condition thenBranch elseBranch)
  | .assign target value _ => do
    let target ← Lowering.settle target (target.lowerSpine plans)
    let value ← Lowering.settle value (value.lowerSpine plans)
    return .whole (.assign target value)
  | .lambda params body span => do
    let _ ← Lowering.settle body (body.lowerSpine plans)
    return .whole (.source (.lambda params body span))
  | .paren inner _ => do
    return .whole (← Lowering.settle inner (inner.lowerSpine plans))
  | .access base link true span => do
    let value ← Lowering.settle base (base.lowerSpine plans)
    match plans.lookup (guardSpan base span) with
    | some plan =>
      let temp ← Lowering.freshTemp
      let operands ← link.lowerOperands plans
      let start := if plan.unwraps then .unwrap (.temp temp) else .temp temp
      return .chain ⟨plan, guardSpan base span, temp, value, link.put operands start⟩
    | none =>
      let _ ← link.lowerOperands plans
      return .kept
  | .access base link false _ => do
    let spine ← if base.hasNavigation then base.lowerSpine plans else pure (.whole (.source base))
    let operands ← link.lowerOperands plans
    return spine.onto (link.put operands)
  | .create type args entries span => do
    let _ ← lowerList plans args
    let _ ← lowerEntries plans entries
    return .whole (.source (.create type args entries span))

/-- Lowers the operands of a link. -/
def Link.lowerOperands (plans : ChainPlans) : Link → Lowering (List Lowered)
  | .member _ _ => pure []
  | .element indices => lowerList plans indices
  | .invoke args => lowerList plans args

/-- Lowers expressions in order. -/
def lowerList (plans : ChainPlans) : List Expr → Lowering (List Lowered)
  | [] => pure []
  | e :: es => do
    let l ← Lowering.settle e (e.lowerSpine plans)
    let ls ← lowerList plans es
    return l :: ls

/-- Lowers the operands of the entries of an initializer, for the chains among them only. -/
def lowerEntries (plans : ChainPlans) : List Entry → Lowering Unit
  | [] => pure ()
  | .member _ _ value :: entries => do
    let _ ← Lowering.settle value (value.lowerSpine plans)
    lowerEntries plans entries
  | .element indices _ value :: entries => do
    let _ ← lowerList plans indices
    let _ ← Lowering.settle value (value.lowerSpine plans)
    lowerEntries plans entries

end

/-- Lowers an expression. -/
def Expr.lower (plans : ChainPlans) (e : Expr) : Lowering Lowered :=
  Lowering.settle e (e.lowerSpine plans)

/-- A lowered expression and the chains inside it. -/
structure LoweredRoot where
  root : Lowered
  chains : LoweredChains

/-- Lowers an expression that is part of no other. Its temporaries are numbered from zero. -/
def Expr.lowerRoot (plans : ChainPlans) (e : Expr) : LoweredRoot :=
  let (root, state) := (e.lower plans).run ⟨0, []⟩
  ⟨root, state.chains⟩

end NavCheck
