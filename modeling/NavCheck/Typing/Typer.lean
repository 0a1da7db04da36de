import NavCheck.Lowered.Lower
import NavCheck.Typing.Expr

/-!
# Typers

A typer goes through the code of one type: it keeps the locals and what was found so far. A complete expression is typed and
then lowered if it has a chain. The plans of chains are kept by the places of their `?` and never dropped.
-/

namespace NavCheck

/-- What the code around a complete expression expects: a value of a type, some value, or nothing. -/
inductive Expectation where
  | type (type : Ty)
  | value
  | discard

/-- A complete expression in its lowered form. -/
structure LoweredExpr where
  span : Span
  lowered : Lowered

/-- What was found in code: findings, the chains that were understood, the expressions that were lowered, and the names that
were looked up. -/
structure TypingReport where
  diagnostics : List Diagnostic
  navigation : List NavigationRecord
  lowered : List LoweredExpr
  names : List NameUse

namespace TypingReport

/-- Nothing found. -/
def empty : TypingReport :=
  ⟨[], [], [], []⟩

/-- What was found in two places. -/
def append (a b : TypingReport) : TypingReport :=
  ⟨a.diagnostics ++ b.diagnostics, a.navigation ++ b.navigation, a.lowered ++ b.lowered, a.names ++ b.names⟩

end TypingReport

/-- The findings among notes. -/
def findingsOf (notes : List TypingNote) : List Diagnostic :=
  notes.filterMap fun
    | .finding d => some d
    | _ => none

/-- The records of chains among notes. -/
def recordsOf (notes : List TypingNote) : List NavigationRecord :=
  notes.filterMap fun
    | .chain record _ => some record
    | _ => none

/-- The plans among notes, the latest first. -/
def plansOf (notes : List TypingNote) : ChainPlans :=
  (notes.filterMap fun
    | .chain record (some plan) => some (record.guard, plan)
    | _ => none).reverse

/-- The names that were looked up among notes. -/
def usesOf (notes : List TypingNote) : List NameUse :=
  notes.filterMap fun
    | .name use => some use
    | _ => none

/-- A typer at work. -/
structure Typer where
  env : Env
  report : TypingReport
  plans : ChainPlans

namespace Typer

/-- A typer for the code of a type, outside of all bodies. -/
def start (table : TypeTable) (self : Ty) (generics : List GenericInfo) (primary : List ParamSig) : Typer where
  env := { table, self, generics, primary, phase := .afterwards, isStatic := false, scopes := [[]] }
  report := .empty
  plans := []

/-- Begins a body or an initializer, without any local. -/
def enter (t : Typer) (phase : Phase) (isStatic : Bool) : Typer :=
  { t with env := { t.env with phase, isStatic, scopes := [[]] } }

/-- Opens a scope. -/
def pushScope (t : Typer) : Typer :=
  { t with env := t.env.enterScope [] }

/-- Closes the innermost scope, but never the last. -/
def popScope (t : Typer) : Typer :=
  match t.env.scopes with
  | _ :: outer :: rest => { t with env := { t.env with scopes := outer :: rest } }
  | _ => t

/-- Declares a local. -/
def declare (t : Typer) (name : String) (type : Ty) : Typer :=
  { t with env := t.env.declare name type }

/-- Keeps what was noted; records get the lowered forms that there are for them. -/
def keep (t : Typer) (notes : List TypingNote) (chains : LoweredChains) (lowered : List LoweredExpr) : Typer :=
  { t with
    report := t.report.append
      ⟨findingsOf notes, (recordsOf notes).map fun r => { r with lowered := chains.lookup r.guard }, lowered, usesOf notes⟩
    plans := plansOf notes ++ t.plans }

/-- Does a part of typing by itself. -/
def run {α : Type} (t : Typer) (part : Env → Typed α) : α × Typer :=
  let typed := part t.env
  (typed.value, t.keep typed.notes [] [])

/-- Reports a fault. -/
def fault (t : Typer) (fault : TypingFault) (span : Span) : Typer :=
  (t.run fun _ => fault.report span).2

/-- What a complete expression is typed as. -/
def rootType (env : Env) (e : Expr) : Expectation → Typed Ty
  | .type expected => do
    e.checkAgainst env expected
    return expected
  | .value => e.presentType env
  | .discard => e.type env

/-- Types a complete expression, and lowers it if it has a chain. -/
def checkRoot (t : Typer) (e : Expr) (expectation : Expectation) : Ty × Typer :=
  let typed := rootType t.env e expectation
  if e.hasNavigation then
    let root := e.lowerRoot (plansOf typed.notes ++ t.plans)
    (typed.value, t.keep typed.notes root.chains [⟨e.span, root.root⟩])
  else (typed.value, t.keep typed.notes [] [])

/-- Types a complete expression whose type does not matter. -/
def checked (t : Typer) (e : Expr) (expectation : Expectation) : Typer :=
  (t.checkRoot e expectation).2

end Typer

end NavCheck
