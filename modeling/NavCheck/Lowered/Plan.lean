import NavCheck.Lowered.Basic

/-!
# Plans of chains

What lowering has to know of a chain that was found correct, and the chains it has made of them. Chains are told apart by the
place of their `?`.
-/

namespace NavCheck

/-- How a chain is to be lowered: whether its root is taken out of a nullable form, into which type the result is lifted, if
it is, and of which type the `null` of a chain cut short is. -/
structure ChainPlan where
  unwraps : Bool
  wrap : Option Ty
  result : Ty
deriving DecidableEq

/-- Plans by the place of the `?`, the latest first. -/
abbrev ChainPlans := List (Span × ChainPlan)

/-- Lowered chains by the place of the `?`. -/
abbrev LoweredChains := List (Span × Lowered)

namespace LoweredChains

/-- Adds a chain; it takes the place of another with the same `?`. -/
def insert (chains : LoweredChains) (guard : Span) (lowered : Lowered) : LoweredChains :=
  chains.filter (·.1 != guard) ++ [(guard, lowered)]

end LoweredChains

end NavCheck
