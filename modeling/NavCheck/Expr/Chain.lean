import NavCheck.Expr.Basic

/-!
# Null-conditional chains

A chain is a run of accesses behind one `?`: `order?.Customer.$nickname[0]` is one chain with three links and the root
`order`. In `a?.b?.c` the chain of the first `?` is the root of the chain of the second. Parentheses end a chain.
-/

namespace NavCheck

/-- One access of a chain: the link, whether the `?` stands in front of it, and the place of the whole access node. -/
structure ChainLink where
  link : Link
  guarded : Bool
  span : Span

/-- A chain: what the `?` tests, the accesses behind it from the inside out, and the place from the end of the root to the
end of the first access, which tells chains apart. -/
structure Chain where
  root : Expr
  links : List ChainLink
  guard : Span

/-- The place of the `?` access with a base and a span. -/
def guardSpan (base : Expr) (span : Span) : Span :=
  { file := span.file, start := base.span.stop, stop := span.stop }

namespace Expr

/-- The chain whose outermost access is this expression. -/
def chain? : Expr → Option Chain
  | .access base link true span => some ⟨base, [⟨link, true, span⟩], guardSpan base span⟩
  | .access base link false span =>
    base.chain?.map fun chain => { chain with links := chain.links ++ [⟨link, false, span⟩] }
  | _ => none

/-- Whether a `?` stands somewhere on the row of accesses that ends in this expression. -/
def onChain : Expr → Bool
  | .access base _ guarded _ => guarded || base.onChain
  | _ => false

/-- A row with a guard on it has one inside it. -/
theorem not_onChain_of_not_hasNavigation : ∀ e : Expr, e.hasNavigation = false → e.onChain = false
  | .access base link guarded span, h => by
    rw [hasNavigation, Bool.or_eq_false_iff, Bool.or_eq_false_iff] at h
    rw [onChain, h.1.1, base.not_onChain_of_not_hasNavigation h.1.2, Bool.or_false]
  | .literal .., _ | .name .., _ | .self .., _ | .unary .., _ | .binary .., _ | .conditional .., _ | .assign .., _
  | .lambda .., _ | .paren .., _ | .create .., _ => rfl

end Expr

/-- What kind of access a link is, in one word. -/
def Link.kindText : Link → String
  | .member (.plain _) _ => "member"
  | .member (.keyed _) _ => "indexed"
  | .element _ => "element"
  | .invoke _ => "invocation"

namespace Chain

/-- Is the first access behind the `?` an invocation? -/
def guardsInvocation (c : Chain) : Bool :=
  match c.links with
  | ⟨.invoke _, _, _⟩ :: _ => true
  | _ => false

/-- The accesses of a chain put onto an expression. -/
def rebuild (root : Expr) (links : List ChainLink) : Expr :=
  links.foldl (fun base l => .access base l.link l.guarded l.span) root

end Chain

end NavCheck
