import Mathlib.Logic.Relation
import NavCheck.Proofs.Scoping
import NavCheck.Proofs.Tracing

/-!
# Chains recovered from accesses

A chain is what is left of a row of accesses when it is cut at its outermost `?`: the root in front of the cut, and what the
accesses behind it add. Nothing is lost in this, so the accesses can be put onto the root again. A `?` stands somewhere in an
expression exactly when an expression in it ends a chain.
-/

namespace NavCheck

theorem Chain.rebuild_append (root : Expr) (links more : List ChainLink) :
    rebuild root (links ++ more) = rebuild (rebuild root links) more :=
  List.foldl_append

namespace Expr

/-! ## Rows of accesses -/

/-- The base of an access. -/
def base? : Expr → Option Expr
  | .access base _ _ _ => some base
  | _ => none

/-- What an access adds to its base. -/
def chainLink? : Expr → Option ChainLink
  | .access _ link guarded span => some ⟨link, guarded, span⟩
  | _ => none

/-- An expression ends a chain with these accesses, from the inside out: each is put onto the one before it, the first onto the
root; the first has the only `?`, the last is the expression. -/
structure EndsChain (e : Expr) (c : Chain) (accesses : List Expr) : Prop where
  nonempty : accesses ≠ []
  links : accesses.map chainLink? = c.links.map some
  bases : accesses.map base? = (c.root :: accesses.dropLast).map some
  guarded : accesses.map isGuarded = true :: List.replicate (accesses.length - 1) false
  last : accesses.getLast? = some e
  rebuilt : Chain.rebuild c.root c.links = e
  guard : accesses.head?.map (fun first => guardSpan c.root first.span) = some c.guard

theorem endsChain_guarded (base : Expr) (link : Link) (span : Span) :
    (access base link true span).EndsChain ⟨base, [⟨link, true, span⟩], guardSpan base span⟩
      [access base link true span] :=
  ⟨List.cons_ne_nil _ _, rfl, rfl, rfl, rfl, rfl, rfl⟩

/-- An access without a `?` goes on with the chain of its base. -/
theorem EndsChain.onto {base : Expr} {c : Chain} {accesses : List Expr} (h : base.EndsChain c accesses) (link : Link)
    (span : Span) : (access base link false span).EndsChain { c with links := c.links ++ [⟨link, false, span⟩] }
      (accesses ++ [access base link false span]) := by
  have ends : accesses.dropLast ++ [base] = accesses := List.dropLast_append_getLast? base h.last
  refine ⟨List.append_ne_nil_of_left_ne_nil h.nonempty _, ?_, ?_, ?_, List.getLast?_concat, ?_, ?_⟩
  · rw [List.map_append, h.links, List.map_append]
    rfl
  · rw [List.map_append, h.bases, List.dropLast_concat]
    show ((c.root :: accesses.dropLast).map some) ++ [base].map some = _
    rw [← List.map_append, List.cons_append, ends]
  · have hn : accesses.length - 1 + 1 = accesses.length := Nat.sub_add_cancel (List.length_pos_iff.2 h.nonempty)
    rw [List.map_append, h.guarded, List.length_append, List.length_singleton, Nat.add_sub_cancel, ← hn, List.replicate_succ']
    rfl
  · show Chain.rebuild c.root (c.links ++ [⟨link, false, span⟩]) = _
    rw [Chain.rebuild_append, h.rebuilt]
    rfl
  · rw [List.head?_append_of_ne_nil _ h.nonempty]
    exact h.guard

/-- The chain that is found has the accesses of the row. -/
theorem exists_endsChain : ∀ {e : Expr} {c : Chain}, e.chain? = some c → ∃ accesses, e.EndsChain c accesses
  | .access base link true span, c, h => by
    obtain rfl := Option.some.inj h
    exact ⟨_, endsChain_guarded base link span⟩
  | .access base link false span, c, h => by
    rw [chain?, Option.map_eq_some_iff] at h
    obtain ⟨d, hd, rfl⟩ := h
    obtain ⟨accesses, ha⟩ := exists_endsChain hd
    exact ⟨_, ha.onto link span⟩
  | .literal .., _, h | .name .., _, h | .self .., _, h | .unary .., _, h | .binary .., _, h | .conditional .., _, h
  | .assign .., _, h | .lambda .., _, h | .paren .., _, h | .create .., _, h => nomatch h

/-! ## Chains put together again -/

/-- Accesses without a `?` go on with the chain that they are put onto. -/
theorem chain?_rebuild {e : Expr} {c : Chain} {links : List ChainLink} (h : e.chain? = some c)
    (hg : ∀ l ∈ links, l.guarded = false) : (Chain.rebuild e links).chain? = some { c with links := c.links ++ links } := by
  induction links generalizing e c with
  | nil =>
    rw [List.append_nil]
    exact h
  | cons l links ih =>
    obtain ⟨link, guarded, span⟩ := l
    obtain ⟨hl, hmore⟩ := List.forall_mem_cons.1 hg
    obtain rfl : guarded = false := hl
    have step : (access e link false span).chain? = some { c with links := c.links ++ [⟨link, false, span⟩] } := by
      rw [chain?, h, Option.map_some]
    rw [List.append_cons]
    exact ih step hmore

theorem isGuarded_eq_any (e : Expr) : e.isGuarded = e.chainLink?.any (·.guarded) := by
  cases e <;> rfl

theorem span_of_chainLink? {e : Expr} {l : ChainLink} (h : e.chainLink? = some l) : e.span = l.span := by
  cases e with
  | access base link guarded span =>
    obtain rfl := Option.some.inj h
    rfl
  | _ => cases h

/-- The links of a chain are guarded where its accesses are. -/
theorem EndsChain.map_guarded {e : Expr} {c : Chain} {accesses : List Expr} (h : e.EndsChain c accesses) :
    c.links.map (·.guarded) = true :: List.replicate (accesses.length - 1) false := by
  calc
    c.links.map (·.guarded) = (c.links.map some).map (·.any (·.guarded)) := by rw [List.map_map]; rfl
    _ = accesses.map isGuarded := by
      rw [← h.links, List.map_map]
      exact List.map_congr_left fun a _ => a.isGuarded_eq_any.symm
    _ = true :: List.replicate (accesses.length - 1) false := h.guarded

/-- A chain with a row of accesses is the one that is found. -/
theorem EndsChain.chain?_eq {e : Expr} {c : Chain} {accesses : List Expr} (h : e.EndsChain c accesses) : e.chain? = some c := by
  obtain ⟨first, more, rfl⟩ := List.exists_cons_of_ne_nil h.nonempty
  have hg := h.map_guarded
  obtain ⟨root, links, guard⟩ := c
  cases links with
  | nil => cases h.links
  | cons l links =>
    obtain ⟨hl, hmore⟩ := List.cons.inj hg
    have plain : ∀ m ∈ links, m.guarded = false := fun m hm =>
      List.eq_of_mem_replicate (hmore ▸ List.mem_map_of_mem hm)
    have hspan : first.span = l.span := span_of_chainLink? (List.cons.inj h.links).1
    obtain rfl : guardSpan root l.span = guard := hspan ▸ Option.some.inj h.guard
    obtain ⟨link, guarded, span⟩ := l
    obtain rfl : guarded = true := hl
    have opening : (access root link true span).chain? = some ⟨root, [⟨link, true, span⟩], guardSpan root span⟩ := rfl
    rw [← h.rebuilt]
    exact chain?_rebuild opening plain

/-- The chain that an expression ends is the one of its accesses. -/
theorem chain?_eq_some_iff {e : Expr} {c : Chain} : e.chain? = some c ↔ ∃ accesses, e.EndsChain c accesses :=
  ⟨exists_endsChain, fun ⟨_, h⟩ => h.chain?_eq⟩

end Expr

/-! ## A `?` anywhere -/

theorem listHasNavigation_eq_any (es : List Expr) : listHasNavigation es = es.any Expr.hasNavigation := by
  induction es with
  | nil => rfl
  | cons e es ih => rw [listHasNavigation, ih, List.any_cons]

theorem entriesHaveNavigation_eq_any (entries : List Entry) :
    entriesHaveNavigation entries = (entries.flatMap Entry.operands).any Expr.hasNavigation := by
  induction entries with
  | nil => rfl
  | cons entry entries ih =>
    cases entry <;>
      simp [entriesHaveNavigation, Entry.operands, listHasNavigation_eq_any, ih, Bool.or_assoc, -List.any_flatMap]

namespace Expr

/-- A `?` guards the access itself, or an access in one of the parts. -/
theorem hasNavigation_eq_any (e : Expr) : e.hasNavigation = (e.isGuarded || e.children.any Expr.hasNavigation) := by
  cases e with
  | access base link guarded span =>
    cases link <;>
      simp [hasNavigation, Link.hasNavigation, isGuarded, children, Link.operands, listHasNavigation_eq_any, Bool.or_assoc]
  | create type args entries span =>
    rw [hasNavigation, listHasNavigation_eq_any, entriesHaveNavigation_eq_any, ← List.any_append]
    rfl
  | _ => simp [hasNavigation, isGuarded, children, Bool.or_assoc]

/-- What stands in an expression, at any depth. -/
def Reaches : Expr → Expr → Prop :=
  Relation.ReflTransGen fun e part => part ∈ e.children

theorem isSome_chain?_of_isGuarded {e : Expr} (h : e.isGuarded = true) : e.chain?.isSome = true := by
  cases e with
  | access base link guarded span =>
    obtain rfl : guarded = true := h
    rfl
  | _ => cases h

/-- A `?` stands in an expression exactly when something in it ends a chain. -/
theorem hasNavigation_iff_reaches (e : Expr) : e.hasNavigation = true ↔ ∃ n, e.Reaches n ∧ n.chain?.isSome = true := by
  constructor
  · intro h
    induction e using induction_children with
    | step e ih =>
      rw [hasNavigation_eq_any, Bool.or_eq_true, List.any_eq_true] at h
      rcases h with hg | ⟨part, hp, hn⟩
      · exact ⟨e, .refl, isSome_chain?_of_isGuarded hg⟩
      · obtain ⟨n, hr, hc⟩ := ih part hp hn
        exact ⟨n, .head hp hr, hc⟩
  · rintro ⟨n, hr, hc⟩
    induction hr using Relation.ReflTransGen.head_induction_on with
    | refl =>
      obtain ⟨chain, hc⟩ := Option.isSome_iff_exists.1 hc
      exact hasNavigation_of_chain? hc
    | head hp _ ih =>
      rw [hasNavigation_eq_any, Bool.or_eq_true, List.any_eq_true]
      exact .inr ⟨_, hp, ih⟩

/-- The chain that ends in an expression is recovered exactly. There is one when a `?` stands on the row of accesses that ends in
it. Its accesses are put one onto the other and all onto the root; only the first has a `?`, the last is the expression, and what
they add, put onto the root, gives the expression; no other chain has this. And a `?` stands anywhere in an expression when
something in it ends a chain. -/
theorem chain_recovery (e : Expr) :
    (e.chain?.isSome = true ↔ e.onChain = true) ∧ (∀ c, e.chain? = some c ↔ ∃ accesses, e.EndsChain c accesses) ∧
      (e.hasNavigation = true ↔ ∃ n, e.Reaches n ∧ n.chain?.isSome = true) :=
  ⟨by rw [isSome_chain?], fun _ => chain?_eq_some_iff, e.hasNavigation_iff_reaches⟩

end Expr

end NavCheck
