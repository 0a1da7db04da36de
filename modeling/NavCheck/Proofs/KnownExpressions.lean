import NavCheck.Proofs.HereditaryTyping
import NavCheck.Proofs.KnownTypes

/-!
# Known types of expressions

An expression that is typed without an error has a known type: being known is hereditary, and whatever gives the error type says
something. What `Expr.infers` leaves out is left out here as well.
-/

namespace NavCheck

/-! ## What is known -/

/-- The value has a property unless an error is noted. -/
abbrev Assures {α : Type} (p : α → Prop) (x : Typed α) : Prop :=
  Noted.Ensures TypingNote.IsFine p x

/-- A row of accesses was not refused and has come to something known. -/
def TypedSpine.Known : TypedSpine → Prop :=
  TypedSpine.All Ty.Known

/-- All that can be spoken of in an environment is known. -/
structure Env.Known (env : Env) : Prop where
  table : env.table.Known
  self : env.self.Known
  primary : ∀ p ∈ env.primary, p.Known
  scopes : ∀ scope ∈ env.scopes, ∀ p ∈ scope, p.2.Known

namespace Env.Known

variable {env : Env} (h : env.Known)

include h

theorem all : env.All Ty.Known :=
  ⟨h.table.all, h.self, h.primary, h.scopes⟩

omit h in
theorem of_all (ht : env.table.Known) (ha : env.All Ty.Known) : env.Known :=
  ⟨ht, ha.self, ha.primary, ha.scopes⟩

theorem enterScope {scope : Scope} (hs : ∀ p ∈ scope, p.2.Known) : (env.enterScope scope).Known :=
  .of_all h.table (h.all.enterScope hs)

end Env.Known

/-! ## Expressions -/

/-- Typing without an error comes to known types. -/
theorem Ty.kept_known : Ty.Kept Ty.Known TypingNote.IsFine :=
  ⟨Ty.hereditary_known, .inr fun _ h => h⟩

theorem assures_resolve (env : Env) (e : TypeExpr) : Assures Ty.Known (env.resolve e) :=
  Ty.kept_known.resolve env e

section

variable {env : Env} {e : Expr} {spine : Typed TypedSpine} (h : Assures TypedSpine.Known spine)

include h

theorem Assures.valueOf : Assures Ty.Known (env.valueOf e spine) :=
  Ty.kept_known.valueOf h

theorem Assures.presentValueOf : Assures Ty.Known (env.presentValueOf e spine) :=
  Ty.kept_known.presentValueOf h

end

/-- An expression that is typed without an error in a known environment comes to something known, if the lambdas that its type
comes from have types for their parameters. -/
theorem Expr.assures_typeSpine {env : Env} (h : env.Known) (goal : Goal) (hg : goal.All Ty.Known) (e : Expr)
    (hi : e.infers goal = true) : Assures TypedSpine.Known (e.typeSpine env goal) :=
  Ty.kept_known.typeSpine h.all goal hg e (.inr hi)

end NavCheck
