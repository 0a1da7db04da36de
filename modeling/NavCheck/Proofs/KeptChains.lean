import NavCheck.Proofs.Guards

/-!
# Kept chains

What lowering an expression keeps: for every chain in it that has a plan, the binding that the chain is lowered to. Nothing else
is kept or taken away, so the kept chains can be looked up by their guards.
-/

namespace NavCheck

/-! ## Tables of chains -/

namespace LoweredChains

variable {chains : LoweredChains} {guard g : Span} {lowered : Lowered}

/-- A chain that is kept is found under its guard. -/
theorem lookup_insert_self : (chains.insert guard lowered).lookup guard = some lowered := by
  have hn : (chains.filter (·.1 != guard)).lookup guard = none := by
    rw [List.lookup_eq_none_iff]
    intro p hp
    have hne : p.1 ≠ guard := by simpa using (List.mem_filter.1 hp).2
    exact bne_iff_ne.2 hne.symm
  rw [insert, List.lookup_append, hn]
  simp

/-- Keeping a chain leaves the chains under other guards. -/
theorem lookup_insert_of_ne (h : g ≠ guard) : (chains.insert guard lowered).lookup g = chains.lookup g := by
  rw [insert, List.lookup_append]
  have hg : ([(guard, lowered)] : LoweredChains).lookup g = none := by
    simp [h]
  rw [hg, Option.or_none]
  induction chains with
  | nil => rfl
  | cons p ps ih =>
    by_cases hp : p.1 = guard
    · rw [List.filter_cons_of_neg (by simp [hp]), ih, List.lookup_cons, beq_false_of_ne (hp ▸ h)]
    · rw [List.filter_cons_of_pos (by simp [hp]), List.lookup_cons, List.lookup_cons, ih]

end LoweredChains

/-! ## What is kept -/

/-- A lowered expression is the binding that lowering makes of an expression, from some state on. -/
def Expr.LowersTo (plans : ChainPlans) (e : Expr) (f : Lowered) : Prop :=
  ∃ s, f = ((e.lower plans).run s).1 ∧ f.isBinding = true

/-- An action of lowering keeps the chains with the given outermost accesses, as far as they have plans, and nothing else. -/
structure Keeps {α : Type} (plans : ChainPlans) (tops : List Expr) (x : Lowering α) : Prop where
  frame : ∀ s g, (∀ t ∈ tops, t.chainGuard? = some g → plans.lookup g = none) →
    (x.run s).2.chains.lookup g = s.chains.lookup g
  kept : (topGuards tops).Nodup → ∀ s, ∀ t ∈ tops, ∀ g, t.chainGuard? = some g → (plans.lookup g).isSome = true →
    ∃ f, (x.run s).2.chains.lookup g = some f ∧ t.LowersTo plans f

namespace Keeps

variable {α β : Type} {plans : ChainPlans} {ts us : List Expr}

/-- A plain answer keeps no chains. -/
theorem pure (a : α) : Keeps plans [] (Pure.pure a : Lowering α) :=
  ⟨fun _ _ _ => rfl, fun _ _ _ h => absurd h List.not_mem_nil⟩

/-- Actions one after the other keep the chains of both. -/
theorem bind {x : Lowering α} {f : α → Lowering β} (hx : Keeps plans ts x) (hf : ∀ a, Keeps plans us (f a)) :
    Keeps plans (ts ++ us) (x >>= f) := by
  refine ⟨fun s g h => ?_, fun hn s t ht g hg hp => ?_⟩
  · show ((f (x.run s).1).run (x.run s).2).2.chains.lookup g = _
    rw [(hf _).frame _ _ fun t ht => h t (List.mem_append_right _ ht), hx.frame _ _ fun t ht => h t (List.mem_append_left _ ht)]
  · rw [topGuards_append, List.nodup_append] at hn
    obtain ⟨hnt, hnu, hd⟩ := hn
    rcases List.mem_append.1 ht with ht | ht
    · obtain ⟨l, hl, hs⟩ := hx.kept hnt s t ht g hg hp
      refine ⟨l, ?_, hs⟩
      rw [← hl]
      refine (hf _).frame _ _ fun u hu hgu => ?_
      exact absurd rfl (hd g (List.mem_filterMap.2 ⟨t, ht, hg⟩) g (List.mem_filterMap.2 ⟨u, hu, hgu⟩))
    · exact (hf _).kept hnu _ t ht g hg hp

/-- An action keeps its chains whatever is made of its outcome. -/
theorem bind_pure {x : Lowering α} {f : α → β} (hx : Keeps plans ts x) : Keeps plans ts (do return f (← x)) := by
  have hf : ∀ a, Keeps plans [] (Pure.pure (f a) : Lowering β) := fun a => pure (f a)
  simpa using hx.bind hf

end Keeps

/-- A row of accesses has a chain that is going on exactly when the chain has a plan. -/
def LoweredSpine.Fits (plans : ChainPlans) (e : Expr) : LoweredSpine → Prop
  | .whole _ => e.onChain = false
  | .chain c => e.chainGuard? = some c.guard ∧ (plans.lookup c.guard).isSome = true
  | .kept => ∃ g, e.chainGuard? = some g ∧ plans.lookup g = none

/-- What is known of the action that lowers a row of accesses. -/
structure KeepsRow (plans : ChainPlans) (e : Expr) (spine : Lowering LoweredSpine) : Prop where
  keeps : Keeps plans e.innerTops spine
  fits : ∀ s, (spine.run s).1.Fits plans e

/-- An expression ends a chain exactly when it stands on a row with a `?`. -/
theorem Expr.isSome_chainGuard? (e : Expr) : e.chainGuard?.isSome = e.onChain := by
  rw [Expr.chainGuard?, Option.isSome_map, e.isSome_chain?]

/-- An expression that ends a chain is an outermost access. -/
theorem Expr.self_mem_tops {e : Expr} {g : Span} (h : e.chainGuard? = some g) : e ∈ e.tops := by
  have ho : e.onChain = true := by rw [← e.isSome_chainGuard?, h]; rfl
  refine List.mem_append_right _ ?_
  rw [if_pos ho]
  exact List.mem_singleton_self _

/-- Ending a row of accesses keeps its chain, if it has one with a plan. -/
theorem KeepsRow.settle {plans : ChainPlans} {e : Expr} (h : KeepsRow plans e (e.lowerSpine plans))
    (hn : e.hasNavigation = false → e.tops = []) : Keeps plans e.tops (e.lower plans) := by
  cases hh : e.hasNavigation with
  | false =>
    rw [hn hh, Expr.lower, Lowering.settle, hh]
    exact .pure _
  | true =>
    have hl : e.lower plans = (do LoweredSpine.close e (← e.lowerSpine plans)) := by
      rw [Expr.lower, Lowering.settle, hh]
      rfl
    refine ⟨fun s g hg => ?_, fun hd s t ht g hg hp => ?_⟩
    · have hin := h.keeps.frame s g fun t ht => hg t (List.mem_append_left _ ht)
      have hfit := h.fits s
      rw [hl, ← hin]
      show ((LoweredSpine.close e ((e.lowerSpine plans).run s).1).run ((e.lowerSpine plans).run s).2).2.chains.lookup g = _
      cases hr : ((e.lowerSpine plans).run s).1 with
      | whole lowered => rfl
      | kept => rfl
      | chain c =>
        rw [hr] at hfit
        obtain ⟨hce, hpl⟩ := hfit
        refine LoweredChains.lookup_insert_of_ne ?_
        rintro rfl
        rw [hg e (Expr.self_mem_tops hce) hce] at hpl
        cases hpl
    · rw [topGuards_tops, List.nodup_append] at hd
      have hfit := h.fits s
      have hrun : ((e.lower plans).run s) =
          (LoweredSpine.close e ((e.lowerSpine plans).run s).1).run ((e.lowerSpine plans).run s).2 := by
        rw [hl]
        rfl
      rcases Expr.mem_tops ht with hti | rfl
      · obtain ⟨f, hf, hlow⟩ := h.keeps.kept hd.1 s t hti g hg hp
        refine ⟨f, ?_, hlow⟩
        rw [hrun, ← hf]
        cases hr : ((e.lowerSpine plans).run s).1 with
        | whole lowered => rfl
        | kept => rfl
        | chain c =>
          rw [hr] at hfit
          refine LoweredChains.lookup_insert_of_ne ?_
          rintro rfl
          refine absurd rfl (hd.2.2 c.guard (List.mem_filterMap.2 ⟨t, hti, hg⟩) c.guard ?_)
          rw [hfit.1]
          exact List.mem_singleton_self _
      · cases hr : ((t.lowerSpine plans).run s).1 with
        | whole lowered =>
          rw [hr] at hfit
          have := t.isSome_chainGuard?
          rw [hg, show t.onChain = false from hfit] at this
          cases this
        | kept =>
          rw [hr] at hfit
          obtain ⟨g', hg', hp'⟩ := hfit
          obtain rfl := Option.some.inj (hg.symm.trans hg')
          rw [hp'] at hp
          cases hp
        | chain c =>
          rw [hr] at hfit
          obtain rfl := Option.some.inj (hg.symm.trans hfit.1)
          rw [hr] at hrun
          exact ⟨c.lowered, by rw [hrun]; exact LoweredChains.lookup_insert_self, s, by rw [hrun]; rfl, rfl⟩

/-! ## Expressions without chains -/

mutual

/-- An expression without a `?` has no chains inside it. -/
theorem Expr.innerTops_eq_nil : ∀ e : Expr, e.hasNavigation = false → e.innerTops = []
  | .literal _ _, _ | .name _ _, _ | .self _, _ => rfl
  | .unary _ operand _, h => operand.tops_eq_nil h
  | .binary _ left right _, h => by
    obtain ⟨hl, hr⟩ := Bool.or_eq_false_iff.1 h
    simp [Expr.innerTops, left.tops_eq_nil hl, right.tops_eq_nil hr]
  | .conditional condition thenBranch elseBranch _, h => by
    obtain ⟨h, he⟩ := Bool.or_eq_false_iff.1 h
    obtain ⟨hc, ht⟩ := Bool.or_eq_false_iff.1 h
    simp [Expr.innerTops, condition.tops_eq_nil hc, thenBranch.tops_eq_nil ht, elseBranch.tops_eq_nil he]
  | .assign target value _, h => by
    obtain ⟨ht, hv⟩ := Bool.or_eq_false_iff.1 h
    simp [Expr.innerTops, target.tops_eq_nil ht, value.tops_eq_nil hv]
  | .lambda _ body _, h => body.tops_eq_nil h
  | .paren inner _, h => inner.tops_eq_nil h
  | .access base link guarded _, h => by
    obtain ⟨h, hl⟩ := Bool.or_eq_false_iff.1 h
    obtain ⟨rfl, hb⟩ := Bool.or_eq_false_iff.1 h
    simp [Expr.innerTops, base.innerTops_eq_nil hb, link.tops_eq_nil hl]
  | .create _ args entries _, h => by
    obtain ⟨ha, he⟩ := Bool.or_eq_false_iff.1 h
    simp [Expr.innerTops, listTops_eq_nil args ha, entryTops_eq_nil entries he]

/-- Without a `?` there is no chain. -/
theorem Expr.tops_eq_nil (e : Expr) (h : e.hasNavigation = false) : e.tops = [] := by
  rw [Expr.tops_of_not_onChain (e.not_onChain_of_not_hasNavigation h), e.innerTops_eq_nil h]

/-- A link without a `?` has no chains inside it. -/
theorem Link.tops_eq_nil : ∀ link : Link, link.hasNavigation = false → link.tops = []
  | .member _ _, _ => rfl
  | .element indices, h => listTops_eq_nil indices h
  | .invoke args, h => listTops_eq_nil args h

/-- Expressions without a `?` have no chains inside them. -/
theorem listTops_eq_nil : ∀ es : List Expr, listHasNavigation es = false → listTops es = []
  | [], _ => rfl
  | e :: es, h => by
    obtain ⟨he, hs⟩ := Bool.or_eq_false_iff.1 h
    simp [listTops, e.tops_eq_nil he, listTops_eq_nil es hs]

/-- Entries without a `?` have no chains inside them. -/
theorem entryTops_eq_nil : ∀ entries : List Entry, entriesHaveNavigation entries = false → entryTops entries = []
  | [], _ => rfl
  | .member _ _ value :: entries, h => by
    obtain ⟨hv, hs⟩ := Bool.or_eq_false_iff.1 h
    simp [entryTops, value.tops_eq_nil hv, entryTops_eq_nil entries hs]
  | .element indices _ value :: entries, h => by
    obtain ⟨h, hs⟩ := Bool.or_eq_false_iff.1 h
    obtain ⟨hi, hv⟩ := Bool.or_eq_false_iff.1 h
    simp [entryTops, listTops_eq_nil indices hi, value.tops_eq_nil hv, entryTops_eq_nil entries hs]

end

/-! ## Lowering -/

/-- An expression that is no access ends no chain. -/
theorem keepsRow_whole {plans : ChainPlans} {e : Expr} (ho : e.onChain = false) {x : Lowering LoweredSpine}
    (h : Keeps plans e.innerTops x) (hw : ∀ s, ∃ lowered, (x.run s).1 = .whole lowered) : KeepsRow plans e x := by
  refine ⟨h, fun s => ?_⟩
  obtain ⟨lowered, hl⟩ := hw s
  rw [hl]
  exact ho

/-- Lowering an expression with a `?` at its outermost access begins a chain, if there is a plan. -/
theorem keepsRow_guarded {plans : ChainPlans} {base : Expr} {link : Link} {span : Span}
    (hb : Keeps plans base.tops (base.lower plans)) (hl : Keeps plans link.tops (link.lowerOperands plans)) :
    KeepsRow plans (.access base link true span) (Expr.lowerSpine plans (.access base link true span)) := by
  rw [Expr.lowerSpine]
  cases hp : plans.lookup (guardSpan base span) with
  | none => exact ⟨hb.bind fun _ => hl.bind_pure (f := fun _ => LoweredSpine.kept), fun s => ⟨_, rfl, hp⟩⟩
  | some plan =>
    have hf : Keeps plans [] Lowering.freshTemp := ⟨fun _ _ _ => rfl, fun _ _ _ h => absurd h List.not_mem_nil⟩
    refine ⟨hb.bind fun value => hf.bind fun temp => hl.bind_pure (f := fun operands => LoweredSpine.chain
      ⟨plan, guardSpan base span, temp, value, link.put operands (if plan.unwraps then .unwrap (.temp temp) else .temp temp)⟩),
      fun s => ⟨rfl, ?_⟩⟩
    show (plans.lookup (guardSpan base span)).isSome = true
    rw [hp]
    rfl

/-- An access without a `?` goes on with the row of its base. -/
theorem KeepsRow.onto {plans : ChainPlans} {base : Expr} {link : Link} {span : Span} {row : Lowering LoweredSpine}
    (hr : KeepsRow plans base row) (hl : Keeps plans link.tops (link.lowerOperands plans)) :
    KeepsRow plans (.access base link false span) (do
      let spine ← row
      let operands ← link.lowerOperands plans
      return spine.onto (link.put operands)) := by
  refine ⟨hr.keeps.bind fun spine => hl.bind_pure (f := fun operands => spine.onto (link.put operands)), fun s => ?_⟩
  have hfit := hr.fits s
  show (LoweredSpine.onto _ (row.run s).1).Fits plans _
  cases hv : (row.run s).1 with
  | whole lowered =>
    rw [hv] at hfit
    exact hfit
  | chain c =>
    rw [hv] at hfit
    exact ⟨(Expr.chainGuard?_plain ..).trans hfit.1, hfit.2⟩
  | kept =>
    rw [hv] at hfit
    obtain ⟨g, hg, hp⟩ := hfit
    exact ⟨g, (Expr.chainGuard?_plain ..).trans hg, hp⟩

/-- An access without a `?` keeps the chains inside its base and those inside its link. -/
theorem keepsRow_plain {plans : ChainPlans} {base : Expr} {link : Link} {span : Span}
    (hb : KeepsRow plans base (base.lowerSpine plans)) (hl : Keeps plans link.tops (link.lowerOperands plans)) :
    KeepsRow plans (.access base link false span) (Expr.lowerSpine plans (.access base link false span)) := by
  rw [Expr.lowerSpine]
  split
  · exact hb.onto hl
  · rename_i hh
    have hh : base.hasNavigation = false := by simpa using hh
    refine KeepsRow.onto (keepsRow_whole (base.not_onChain_of_not_hasNavigation hh) ?_ fun _ => ⟨_, rfl⟩) hl
    rw [base.innerTops_eq_nil hh]
    exact .pure _

mutual

/-- Lowering a row of accesses keeps the chains inside it. -/
theorem Expr.keepsRow_lowerSpine (plans : ChainPlans) : ∀ e : Expr, KeepsRow plans e (e.lowerSpine plans)
  | .literal _ _ | .name _ _ | .self _ => keepsRow_whole rfl (.pure _) fun _ => ⟨_, rfl⟩
  | .unary op operand span => by
    have h := (operand.keepsRow_lowerSpine plans).settle operand.tops_eq_nil
    exact keepsRow_whole rfl (h.bind_pure (f := fun l => LoweredSpine.whole (.unary op l))) fun _ => ⟨_, rfl⟩
  | .binary op left right span => by
    have hl := (left.keepsRow_lowerSpine plans).settle left.tops_eq_nil
    have hr := (right.keepsRow_lowerSpine plans).settle right.tops_eq_nil
    exact keepsRow_whole rfl (hl.bind fun l => hr.bind_pure (f := fun r => LoweredSpine.whole (.binary op l r))) fun _ => ⟨_, rfl⟩
  | .conditional condition thenBranch elseBranch span => by
    have hc := (condition.keepsRow_lowerSpine plans).settle condition.tops_eq_nil
    have ht := (thenBranch.keepsRow_lowerSpine plans).settle thenBranch.tops_eq_nil
    have he := (elseBranch.keepsRow_lowerSpine plans).settle elseBranch.tops_eq_nil
    refine keepsRow_whole rfl ?_ fun _ => ⟨_, rfl⟩
    rw [Expr.innerTops, List.append_assoc]
    exact hc.bind fun c => ht.bind fun t => he.bind_pure (f := fun e => LoweredSpine.whole (.conditional c t e))
  | .assign target value span => by
    have ht := (target.keepsRow_lowerSpine plans).settle target.tops_eq_nil
    have hv := (value.keepsRow_lowerSpine plans).settle value.tops_eq_nil
    exact keepsRow_whole rfl (ht.bind fun t => hv.bind_pure (f := fun v => LoweredSpine.whole (.assign t v))) fun _ => ⟨_, rfl⟩
  | .lambda params body span => by
    have h := (body.keepsRow_lowerSpine plans).settle body.tops_eq_nil
    exact keepsRow_whole rfl (h.bind_pure (f := fun _ => LoweredSpine.whole (.source (.lambda params body span))))
      fun _ => ⟨_, rfl⟩
  | .paren inner span => by
    have h := (inner.keepsRow_lowerSpine plans).settle inner.tops_eq_nil
    exact keepsRow_whole rfl (h.bind_pure (f := LoweredSpine.whole)) fun _ => ⟨_, rfl⟩
  | .access base link true span =>
    keepsRow_guarded ((base.keepsRow_lowerSpine plans).settle base.tops_eq_nil) (link.keeps_lowerOperands plans)
  | .access base link false span => keepsRow_plain (base.keepsRow_lowerSpine plans) (link.keeps_lowerOperands plans)
  | .create type args entries span => by
    have ha := keeps_lowerList plans args
    have he := keeps_lowerEntries plans entries
    exact keepsRow_whole rfl
      (ha.bind fun _ => he.bind_pure (f := fun _ => LoweredSpine.whole (.source (.create type args entries span))))
      fun _ => ⟨_, rfl⟩

/-- Lowering the operands of a link keeps the chains inside the link. -/
theorem Link.keeps_lowerOperands (plans : ChainPlans) : ∀ link : Link, Keeps plans link.tops (link.lowerOperands plans)
  | .member _ _ => .pure _
  | .element indices => keeps_lowerList plans indices
  | .invoke args => keeps_lowerList plans args

/-- Lowering expressions keeps the chains inside them. -/
theorem keeps_lowerList (plans : ChainPlans) : ∀ es : List Expr, Keeps plans (listTops es) (lowerList plans es)
  | [] => .pure _
  | e :: es => by
    have he := (e.keepsRow_lowerSpine plans).settle e.tops_eq_nil
    exact he.bind fun l => (keeps_lowerList plans es).bind_pure (f := fun ls => l :: ls)

/-- Lowering entries keeps the chains inside them. -/
theorem keeps_lowerEntries (plans : ChainPlans) :
    ∀ entries : List Entry, Keeps plans (entryTops entries) (lowerEntries plans entries)
  | [] => .pure _
  | .member _ _ value :: entries => by
    have hv := (value.keepsRow_lowerSpine plans).settle value.tops_eq_nil
    exact hv.bind fun _ => keeps_lowerEntries plans entries
  | .element indices _ value :: entries => by
    have hv := (value.keepsRow_lowerSpine plans).settle value.tops_eq_nil
    rw [entryTops, List.append_assoc]
    exact (keeps_lowerList plans indices).bind fun _ => hv.bind fun _ => keeps_lowerEntries plans entries

end

/-- Lowering an expression keeps the chains inside it. -/
theorem Expr.keeps_lower (plans : ChainPlans) (e : Expr) : Keeps plans e.tops (e.lower plans) :=
  (e.keepsRow_lowerSpine plans).settle e.tops_eq_nil

/-! ## Plans that matter -/

/-- Two rows of plans say the same of the guards of some expressions. -/
def SamePlans (nodes : List Expr) (plans plans' : ChainPlans) : Prop :=
  ∀ n ∈ nodes, ∀ g, n.guard? = some g → plans.lookup g = plans'.lookup g

namespace SamePlans

variable {n : Expr} {ns ms : List Expr} {plans plans' : ChainPlans}

/-- The same plans for expressions are the same for all but the first. -/
theorem tail (h : SamePlans (n :: ns) plans plans') : SamePlans ns plans plans' :=
  fun m hm => h m (List.mem_cons_of_mem _ hm)

/-- The same plans for expressions are the same for the first of them. -/
theorem left (h : SamePlans (ns ++ ms) plans plans') : SamePlans ns plans plans' :=
  fun m hm => h m (List.mem_append_left _ hm)

/-- The same plans for expressions are the same for the last of them. -/
theorem right (h : SamePlans (ns ++ ms) plans plans') : SamePlans ms plans plans' :=
  fun m hm => h m (List.mem_append_right _ hm)

end SamePlans

section

variable {plans plans' : ChainPlans}

mutual

/-- Lowering looks at the plans for the guards in the expression only. -/
theorem Expr.lowerSpine_congr : ∀ e : Expr, SamePlans e.nodes plans plans' → e.lowerSpine plans = e.lowerSpine plans'
  | .literal _ _, _ | .name _ _, _ | .self _, _ => rfl
  | .unary op operand span, h => by
    rw [Expr.lowerSpine, Expr.lowerSpine, operand.lowerSpine_congr h.tail]
  | .binary op left right span, h => by
    rw [Expr.lowerSpine, Expr.lowerSpine, left.lowerSpine_congr h.tail.left, right.lowerSpine_congr h.tail.right]
  | .conditional condition thenBranch elseBranch span, h => by
    rw [Expr.lowerSpine, Expr.lowerSpine, condition.lowerSpine_congr h.tail.left.left,
      thenBranch.lowerSpine_congr h.tail.left.right, elseBranch.lowerSpine_congr h.tail.right]
  | .assign target value span, h => by
    rw [Expr.lowerSpine, Expr.lowerSpine, target.lowerSpine_congr h.tail.left, value.lowerSpine_congr h.tail.right]
  | .lambda params body span, h => by
    rw [Expr.lowerSpine, Expr.lowerSpine, body.lowerSpine_congr h.tail]
  | .paren inner span, h => by
    rw [Expr.lowerSpine, Expr.lowerSpine, inner.lowerSpine_congr h.tail]
  | .access base link true span, h => by
    have hg := h _ List.mem_cons_self (guardSpan base span) rfl
    rw [Expr.lowerSpine, Expr.lowerSpine, base.lowerSpine_congr h.tail.left, link.lowerOperands_congr h.tail.right, hg]
  | .access base link false span, h => by
    rw [Expr.lowerSpine, Expr.lowerSpine, base.lowerSpine_congr h.tail.left, link.lowerOperands_congr h.tail.right]
  | .create type args entries span, h => by
    rw [Expr.lowerSpine, Expr.lowerSpine, lowerList_congr args h.tail.left, lowerEntries_congr entries h.tail.right]

/-- The operands of a link are lowered alike by the same plans. -/
theorem Link.lowerOperands_congr :
    ∀ link : Link, SamePlans link.nodes plans plans' → link.lowerOperands plans = link.lowerOperands plans'
  | .member _ _, _ => rfl
  | .element indices, h => lowerList_congr indices h
  | .invoke args, h => lowerList_congr args h

/-- Expressions are lowered alike by the same plans. -/
theorem lowerList_congr : ∀ es : List Expr, SamePlans (listNodes es) plans plans' → lowerList plans es = lowerList plans' es
  | [], _ => rfl
  | e :: es, h => by
    rw [lowerList, lowerList, e.lowerSpine_congr h.left, lowerList_congr es h.right]

/-- Entries are lowered alike by the same plans. -/
theorem lowerEntries_congr :
    ∀ entries : List Entry, SamePlans (entryNodes entries) plans plans' → lowerEntries plans entries = lowerEntries plans' entries
  | [], _ => rfl
  | .member _ _ value :: entries, h => by
    rw [lowerEntries, lowerEntries, value.lowerSpine_congr h.left, lowerEntries_congr entries h.right]
  | .element indices _ value :: entries, h => by
    rw [lowerEntries, lowerEntries, lowerList_congr indices h.left.left, value.lowerSpine_congr h.left.right,
      lowerEntries_congr entries h.right]

end

/-- An expression is lowered to the same binding with any plans that say the same of its guards. -/
theorem Expr.LowersTo.congr {e : Expr} {f : Lowered} (h : e.LowersTo plans f) (hp : SamePlans e.nodes plans plans') :
    e.LowersTo plans' f := by
  obtain ⟨s, hs, hb⟩ := h
  refine ⟨s, ?_, hb⟩
  rwa [Expr.lower, e.lowerSpine_congr hp] at hs

end

end NavCheck
