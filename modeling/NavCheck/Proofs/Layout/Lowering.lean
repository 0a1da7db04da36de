import NavCheck.Proofs.Layout.Relocation

/-!
# Lowered forms in another layout

Lowering finds the plan of a chain by the place of its `?`, and keeps its form under that place. As long as a relocation
keeps the places of different `?` apart, relocated plans are found as the plans are, and what is made of a relocated
expression is the relocated form.
-/

namespace NavCheck

variable (m : Relocation)

/-! ## Which expressions are lowered -/

mutual

/-- A relocated expression has a `?` when the expression has one. -/
@[simp]
theorem Expr.hasNavigation_move : ∀ e : Expr, (move m e).hasNavigation = e.hasNavigation
  | .literal _ _ | .name _ _ | .self _ => rfl
  | .unary _ operand _ => operand.hasNavigation_move
  | .binary _ left right _ => by
    rw [Expr.move_binary, Expr.hasNavigation, Expr.hasNavigation, left.hasNavigation_move, right.hasNavigation_move]
  | .conditional condition thenBranch elseBranch _ => by
    rw [Expr.move_conditional, Expr.hasNavigation, Expr.hasNavigation, condition.hasNavigation_move,
      thenBranch.hasNavigation_move, elseBranch.hasNavigation_move]
  | .assign target value _ => by
    rw [Expr.move_assign, Expr.hasNavigation, Expr.hasNavigation, target.hasNavigation_move, value.hasNavigation_move]
  | .lambda _ body _ => body.hasNavigation_move
  | .paren inner _ => inner.hasNavigation_move
  | .access base link _ _ => by
    rw [Expr.move_access, Expr.hasNavigation, Expr.hasNavigation, base.hasNavigation_move, link.hasNavigation_move]
  | .create _ args entries _ => by
    rw [Expr.move_create, Expr.hasNavigation, Expr.hasNavigation, listHasNavigation_move args,
      entriesHaveNavigation_move entries]

/-- A relocated link has a `?` when the link has one. -/
theorem Link.hasNavigation_move : ∀ link : Link, (move m link).hasNavigation = link.hasNavigation
  | .member _ _ => rfl
  | .element indices => by rw [Link.move_element, Link.hasNavigation, Link.hasNavigation, listHasNavigation_move indices]
  | .invoke args => by rw [Link.move_invoke, Link.hasNavigation, Link.hasNavigation, listHasNavigation_move args]

/-- Relocated expressions have a `?` when the expressions have one. -/
theorem listHasNavigation_move : ∀ es : List Expr, listHasNavigation (es.map (move m)) = listHasNavigation es
  | [] => rfl
  | e :: es => by
    rw [List.map_cons, listHasNavigation, listHasNavigation, e.hasNavigation_move, listHasNavigation_move es]

/-- Relocated entries have a `?` when the entries have one. -/
theorem entriesHaveNavigation_move :
    ∀ entries : List Entry, entriesHaveNavigation (entries.map (move m)) = entriesHaveNavigation entries
  | [] => rfl
  | .member _ _ value :: entries => by
    rw [List.map_cons, Entry.move_member, entriesHaveNavigation, entriesHaveNavigation, value.hasNavigation_move,
      entriesHaveNavigation_move entries]
  | .element indices _ value :: entries => by
    rw [List.map_cons, Entry.move_element, entriesHaveNavigation, entriesHaveNavigation, listHasNavigation_move indices,
      value.hasNavigation_move, entriesHaveNavigation_move entries]

end

/-! ## Lowered forms -/

mutual

/-- A lowered expression, relocated. -/
def Lowered.relocated (m : Relocation) : Lowered → Lowered
  | .source expr => .source (move m expr)
  | .temp index => .temp index
  | .bind index value body => .bind index (value.relocated m) (body.relocated m)
  | .conditional condition thenBranch elseBranch =>
    .conditional (condition.relocated m) (thenBranch.relocated m) (elseBranch.relocated m)
  | .isNull operand => .isNull (operand.relocated m)
  | .null type => .null type
  | .unwrap operand => .unwrap (operand.relocated m)
  | .wrap type value => .wrap type (value.relocated m)
  | .member base name => .member (base.relocated m) name
  | .element base indices => .element (base.relocated m) (relocatedForms m indices)
  | .invoke callee args => .invoke (callee.relocated m) (relocatedForms m args)
  | .binary op left right => .binary op (left.relocated m) (right.relocated m)
  | .unary op operand => .unary op (operand.relocated m)
  | .assign target value => .assign (target.relocated m) (value.relocated m)

/-- Lowered expressions, relocated. -/
def relocatedForms (m : Relocation) : List Lowered → List Lowered
  | [] => []
  | l :: ls => l.relocated m :: relocatedForms m ls

end

/-- Relocated forms are the forms relocated one by one. -/
theorem relocatedForms_eq (ls : List Lowered) : relocatedForms m ls = ls.map (·.relocated m) := by
  induction ls with
  | nil => rfl
  | cons l ls ih => rw [relocatedForms, ih, List.map_cons]

mutual

/-- Relocating a lowered expression twice is relocating it once by both relocations. -/
theorem Lowered.relocated_relocated (m n : Relocation) :
    ∀ l : Lowered, (l.relocated m).relocated n = l.relocated (m.andThen n)
  | .source expr => by simp only [Lowered.relocated, move_move]
  | .temp _ | .null _ => rfl
  | .bind _ value body => by
    simp only [Lowered.relocated, value.relocated_relocated m n, body.relocated_relocated m n]
  | .conditional condition thenBranch elseBranch => by
    simp only [Lowered.relocated, condition.relocated_relocated m n, thenBranch.relocated_relocated m n,
      elseBranch.relocated_relocated m n]
  | .isNull operand | .unwrap operand | .wrap _ operand | .member operand _ | .unary _ operand => by
    simp only [Lowered.relocated, operand.relocated_relocated m n]
  | .element base indices => by
    simp only [Lowered.relocated, base.relocated_relocated m n, relocatedForms_relocatedForms m n indices]
  | .invoke callee args => by
    simp only [Lowered.relocated, callee.relocated_relocated m n, relocatedForms_relocatedForms m n args]
  | .binary _ left right | .assign left right => by
    simp only [Lowered.relocated, left.relocated_relocated m n, right.relocated_relocated m n]

/-- Relocating forms twice is relocating them once by both relocations. -/
theorem relocatedForms_relocatedForms (m n : Relocation) :
    ∀ ls : List Lowered, relocatedForms n (relocatedForms m ls) = relocatedForms (m.andThen n) ls
  | [] => rfl
  | l :: ls => by simp only [relocatedForms, l.relocated_relocated m n, relocatedForms_relocatedForms m n ls]

end

instance Lowered.placed : Placed Lowered :=
  ⟨Lowered.relocated, Lowered.relocated_relocated⟩

/-- A lowered element access is relocated in its parts. -/
theorem Lowered.move_element (base : Lowered) (indices : List Lowered) :
    move m (element base indices) = element (move m base) (indices.map (move m)) := by
  show Lowered.relocated m _ = _
  rw [Lowered.relocated, relocatedForms_eq]
  rfl

/-- A lowered invocation is relocated in its parts. -/
theorem Lowered.move_invoke (callee : Lowered) (args : List Lowered) :
    move m (invoke callee args) = invoke (move m callee) (args.map (move m)) := by
  show Lowered.relocated m _ = _
  rw [Lowered.relocated, relocatedForms_eq]
  rfl

@[simps] instance ChainPlan.placed : Placed ChainPlan := .fixed

/-- What is kept by the places of `?`, relocated. -/
def guarded {α : Type} [Placed α] (m : Relocation) (list : List (Span × α)) : List (Span × α) :=
  list.map fun p => (m.guard p.1, move m p.2)

section

variable {m} {α : Type} [Placed α]

/-- What is kept by places is found at the relocated ones. -/
theorem lookup_guarded (hm : m.Faithful) (list : List (Span × α)) (guard : Span) :
    (guarded m list).lookup (m.guard guard) = (list.lookup guard).map (move m) := by
  induction list with
  | nil => rfl
  | cons p list ih =>
    have hg : (m.guard guard == m.guard p.1) = (guard == p.1) := by
      rw [Bool.eq_iff_iff, beq_iff_eq, beq_iff_eq, hm.guard_injective.eq_iff]
    show ((m.guard p.1, move m p.2) :: guarded m list).lookup _ = _
    rw [List.lookup_cons, List.lookup_cons, hg]
    cases guard == p.1
    · exact ih
    · rfl

/-- A chain is kept under its relocated `?` when no two places become one. -/
theorem insert_guarded (hm : m.Faithful) (chains : LoweredChains) (guard : Span) (lowered : Lowered) :
    LoweredChains.insert (guarded m chains) (m.guard guard) (move m lowered) = guarded m (chains.insert guard lowered) := by
  have hg : ((fun p : Span × Lowered => p.1 != m.guard guard) ∘ fun p : Span × Lowered => (m.guard p.1, move m p.2)) =
      fun p => p.1 != guard := by
    funext p
    rw [Function.comp_apply, Bool.eq_iff_iff, bne_iff_ne, bne_iff_ne, ne_eq, ne_eq, hm.guard_injective.eq_iff]
  rw [LoweredChains.insert, LoweredChains.insert, guarded, guarded, List.filter_map, hg, List.map_append]
  rfl

end

/-! ## Actions -/

@[simps]
instance OpenChain.placed : Placed OpenChain where
  move m c := { c with guard := m.guard c.guard, value := move m c.value, access := move m c.access }
  move_move m n c := by simp only [move_move]; rfl

instance LoweredSpine.placed : Placed LoweredSpine where
  move m
    | .whole lowered => .whole (move m lowered)
    | .chain c => .chain (move m c)
    | .kept => .kept
  move_move m n spine := by cases spine <;> simp only [move_move]

@[simps]
instance LowerState.placed : Placed LowerState where
  move m s := ⟨s.next, guarded m s.chains⟩
  move_move m n s := by
    simp only [guarded, List.map_map, Function.comp_def, move_move]
    rfl

namespace Lowering

variable {m} {α β : Type} [Placed α] [Placed β]

/-- An action on a relocated expression beside the action on the expression. -/
def Moves (m : Relocation) (a' a : Lowering α) : Prop :=
  ∀ s, Id.run (a'.run (move m s)) = move m (Id.run (a.run s))

/-- An answer without an action is relocated when the answer is. -/
theorem moves_pure {v' v : α} (h : v' = move m v) : Moves m (pure v') (pure v) := by
  intro s
  rw [h]
  rfl

/-- Actions one after the other are relocated when each of them is. -/
theorem Moves.bind {a' a : Lowering α} {k' k : α → Lowering β} (h : Moves m a' a)
    (hk : ∀ v, Moves m (k' (move m v)) (k v)) : Moves m (a' >>= k') (a >>= k) := by
  intro s
  show Id.run ((k' (Id.run (a'.run (move m s))).1).run (Id.run (a'.run (move m s))).2) = _
  rw [h s]
  exact hk _ _

/-- Fresh temporaries do not depend on places. -/
theorem moves_freshTemp : Moves m freshTemp freshTemp :=
  fun _ => rfl

/-- Keeping a relocated chain is keeping the chain, relocated. -/
theorem moves_keepChain (hm : m.Faithful) (guard : Span) (lowered : Lowered) :
    Moves m (keepChain (m.guard guard) (move m lowered)) (keepChain guard lowered) := fun s =>
  congrArg (fun chains => ((), LowerState.mk s.next chains)) (insert_guarded hm s.chains guard lowered)

end Lowering

/-- A relocated open chain is spelled out as the open chain is, relocated. -/
theorem OpenChain.lowered_move (c : OpenChain) : (move m c).lowered = move m c.lowered := by
  obtain ⟨⟨unwraps, wrap, result⟩, guard, temp, value, access⟩ := c
  cases wrap <;> rfl

namespace LoweredSpine

variable {m}

/-- A relocated chain is closed as the chain is. -/
theorem moves_close (hm : m.Faithful) (top : Expr) (spine : LoweredSpine) :
    Lowering.Moves m ((move m spine).close (move m top)) (spine.close top) := by
  cases spine with
  | whole lowered => exact Lowering.moves_pure rfl
  | chain c =>
    show Lowering.Moves m (do
      Lowering.keepChain (m.guard c.guard) (move m c).lowered
      return (move m c).lowered) _
    rw [OpenChain.lowered_move]
    exact (Lowering.moves_keepChain hm c.guard c.lowered).bind fun _ => Lowering.moves_pure rfl
  | kept => exact Lowering.moves_pure rfl

/-- What is put on a row is put on the relocated row. -/
theorem onto_move {put' put : Lowered → Lowered} (h : ∀ l, put' (move m l) = move m (put l)) (spine : LoweredSpine) :
    (move m spine).onto put' = move m (spine.onto put) := by
  cases spine with
  | whole lowered => exact congrArg LoweredSpine.whole (h lowered)
  | chain c => exact congrArg (fun access => LoweredSpine.chain { move m c with access }) (h c.access)
  | kept => rfl

end LoweredSpine

/-! ## Expressions -/

/-- The place of the `?` in front of a relocated access. -/
theorem guardSpan_move {m : Relocation} (hm : m.Faithful) (base : Expr) (span : Span) :
    guardSpan (move m base) (m.span span) = m.guard (guardSpan base span) := by
  rw [guardSpan, guardSpan, Expr.move_span, hm.guard_between]

/-- A relocated link is put on relocated operands as the link is. -/
theorem Link.put_move (link : Link) (operands : List Lowered) (base : Lowered) :
    (move m link).put (operands.map (move m)) (move m base) = move m (link.put operands base) := by
  cases link with
  | member name span => cases name <;> rfl
  | element indices =>
    rw [Link.move_element, Link.put, Link.put, Lowered.move_element]
  | invoke args => rw [Link.move_invoke, Link.put, Link.put, Lowered.move_invoke]

variable {m}

/-- A relocated expression is settled as the expression is. -/
theorem Lowering.moves_settle (hm : m.Faithful) {e : Expr} {spine' spine : Lowering LoweredSpine}
    (h : Lowering.Moves m spine' spine) : Lowering.Moves m (settle (move m e) spine') (settle e spine) := by
  rw [settle, settle, Expr.hasNavigation_move]
  split
  · exact h.bind fun row => LoweredSpine.moves_close hm e row
  · exact Lowering.moves_pure rfl

open Lowering in
mutual

/-- A relocated expression is lowered as the expression is. -/
theorem Expr.moves_lowerSpine (hm : m.Faithful) (plans : ChainPlans) :
    ∀ e : Expr, Lowering.Moves m ((move m e).lowerSpine (guarded m plans)) (e.lowerSpine plans)
  | .literal _ _ | .name _ _ | .self _ => moves_pure rfl
  | .unary _ operand _ => (moves_settle hm (operand.moves_lowerSpine hm plans)).bind fun _ => moves_pure rfl
  | .binary _ left right _ =>
    (moves_settle hm (left.moves_lowerSpine hm plans)).bind fun _ =>
      (moves_settle hm (right.moves_lowerSpine hm plans)).bind fun _ => moves_pure rfl
  | .conditional condition thenBranch elseBranch _ =>
    (moves_settle hm (condition.moves_lowerSpine hm plans)).bind fun _ =>
      (moves_settle hm (thenBranch.moves_lowerSpine hm plans)).bind fun _ =>
      (moves_settle hm (elseBranch.moves_lowerSpine hm plans)).bind fun _ => moves_pure rfl
  | .assign target value _ =>
    (moves_settle hm (target.moves_lowerSpine hm plans)).bind fun _ =>
      (moves_settle hm (value.moves_lowerSpine hm plans)).bind fun _ => moves_pure rfl
  | .lambda _ body _ => (moves_settle hm (body.moves_lowerSpine hm plans)).bind fun _ => moves_pure rfl
  | .paren inner _ => (moves_settle hm (inner.moves_lowerSpine hm plans)).bind fun _ => moves_pure rfl
  | .access base link true span => by
    rw [Expr.move_access, Expr.lowerSpine, Expr.lowerSpine, guardSpan_move hm, lookup_guarded hm]
    refine (moves_settle hm (base.moves_lowerSpine hm plans)).bind fun value => ?_
    cases plans.lookup (guardSpan base span) with
    | some plan =>
      refine moves_freshTemp.bind fun temp => (link.moves_lowerOperands hm plans).bind fun operands => moves_pure ?_
      have start : (if plan.unwraps then Lowered.unwrap (.temp temp) else .temp temp) =
          move m (if plan.unwraps then Lowered.unwrap (.temp temp) else .temp temp) := by
        split <;> rfl
      have access := link.put_move m operands (if plan.unwraps then .unwrap (.temp temp) else .temp temp)
      rw [← start] at access
      exact congrArg (fun access => LoweredSpine.chain ⟨plan, m.guard (guardSpan base span), temp, move m value, access⟩) access
    | none => exact (link.moves_lowerOperands hm plans).bind fun _ => moves_pure rfl
  | .access base link false _ => by
    have rest : ∀ row : LoweredSpine, Lowering.Moves m
        (do return (move m row).onto ((move m link).put (← (move m link).lowerOperands (guarded m plans))))
        (do return row.onto (link.put (← link.lowerOperands plans))) := fun row =>
      (link.moves_lowerOperands hm plans).bind fun operands =>
        moves_pure (LoweredSpine.onto_move (link.put_move m operands) row)
    rw [Expr.move_access, Expr.lowerSpine, Expr.lowerSpine, Expr.hasNavigation_move]
    split
    · exact (base.moves_lowerSpine hm plans).bind rest
    · exact rest (.whole (.source base))
  | .create type args entries span => by
    rw [Expr.move_create, Expr.lowerSpine, Expr.lowerSpine]
    exact (moves_lowerList hm plans args).bind fun _ => (moves_lowerEntries hm plans entries).bind fun _ =>
      moves_pure (by rw [← Expr.move_create]; rfl)

/-- The operands of a relocated link are lowered as those of the link are. -/
theorem Link.moves_lowerOperands (hm : m.Faithful) (plans : ChainPlans) :
    ∀ link : Link, Lowering.Moves m ((move m link).lowerOperands (guarded m plans)) (link.lowerOperands plans)
  | .member _ _ => moves_pure rfl
  | .element indices => by
    rw [Link.move_element, Link.lowerOperands, Link.lowerOperands]
    exact moves_lowerList hm plans indices
  | .invoke args => by
    rw [Link.move_invoke, Link.lowerOperands, Link.lowerOperands]
    exact moves_lowerList hm plans args

/-- Relocated expressions are lowered as the expressions are. -/
theorem moves_lowerList (hm : m.Faithful) (plans : ChainPlans) :
    ∀ es : List Expr, Lowering.Moves m (lowerList (guarded m plans) (es.map (move m))) (lowerList plans es)
  | [] => moves_pure rfl
  | e :: es => by
    rw [List.map_cons, lowerList, lowerList]
    exact (moves_settle hm (e.moves_lowerSpine hm plans)).bind fun _ => (moves_lowerList hm plans es).bind fun _ =>
      moves_pure rfl

/-- Relocated entries are lowered as the entries are. -/
theorem moves_lowerEntries (hm : m.Faithful) (plans : ChainPlans) :
    ∀ entries : List Entry,
      Lowering.Moves m (lowerEntries (guarded m plans) (entries.map (move m))) (lowerEntries plans entries)
  | [] => moves_pure rfl
  | .member _ _ value :: entries => by
    rw [List.map_cons, Entry.move_member, lowerEntries, lowerEntries]
    exact (moves_settle hm (value.moves_lowerSpine hm plans)).bind fun _ => moves_lowerEntries hm plans entries
  | .element indices _ value :: entries => by
    rw [List.map_cons, Entry.move_element, lowerEntries, lowerEntries]
    exact (moves_lowerList hm plans indices).bind fun _ => (moves_settle hm (value.moves_lowerSpine hm plans)).bind fun _ =>
      moves_lowerEntries hm plans entries

end

instance LoweredRoot.placed : Placed LoweredRoot where
  move m r := ⟨move m r.root, guarded m r.chains⟩
  move_move m n r := by
    simp only [guarded, List.map_map, Function.comp_def, move_move]
    rfl

/-- The lowered form of a relocated expression is the relocated form. -/
theorem Expr.lowerRoot_move (hm : m.Faithful) (plans : ChainPlans) (e : Expr) :
    (move m e).lowerRoot (guarded m plans) = move m (e.lowerRoot plans) := by
  have h := Lowering.moves_settle (e := e) hm (e.moves_lowerSpine hm plans) ⟨0, []⟩
  exact congrArg (fun p : Lowered × LowerState => LoweredRoot.mk p.1 p.2.chains) h

end NavCheck
