import NavCheck.Check.Report
import NavCheck.Proofs.Outcomes
import NavCheck.Proofs.Temporaries
import NavCheck.Text.Digest

/-!
# What stays as source

Lowering leaves no `?` behind (`Expr.lowerRoot_spelledOut`): when every chain of an expression has a plan, the parts that its
lowered form keeps as source have no null-conditional access in them. Two kinds of expression are kept as source whatever is in
them, and are left out: lambdas, whose bodies are lowered for themselves, and creations (`creation_kept_as_source`).
-/

namespace NavCheck

/-! ## The part of an expression that is spelled out -/

mutual

/-- The expression and what is inside it, except for what is inside the body of a lambda or inside a creation. -/
def Expr.outerNodes : Expr → List Expr
  | .literal value span => [.literal value span]
  | .name text span => [.name text span]
  | .self span => [.self span]
  | .unary op operand span => .unary op operand span :: operand.outerNodes
  | .binary op left right span => .binary op left right span :: (left.outerNodes ++ right.outerNodes)
  | .conditional condition thenBranch elseBranch span =>
    .conditional condition thenBranch elseBranch span ::
      (condition.outerNodes ++ thenBranch.outerNodes ++ elseBranch.outerNodes)
  | .assign target value span => .assign target value span :: (target.outerNodes ++ value.outerNodes)
  | .lambda params body span => [.lambda params body span]
  | .paren inner span => .paren inner span :: inner.outerNodes
  | .access base link guarded span => .access base link guarded span :: (base.outerNodes ++ link.outerNodes)
  | .create type args entries span => [.create type args entries span]

/-- The same for the operands of a link. -/
def Link.outerNodes : Link → List Expr
  | .member _ _ => []
  | .element indices => listOuterNodes indices
  | .invoke args => listOuterNodes args

/-- The same for several expressions. -/
def listOuterNodes : List Expr → List Expr
  | [] => []
  | e :: es => e.outerNodes ++ listOuterNodes es

end

/-- Every chain that ends in one of the nodes has a plan. -/
def Planned (plans : ChainPlans) (nodes : List Expr) : Prop :=
  ∀ n ∈ nodes, ∀ c, n.chain? = some c → (plans.lookup c.guard).isSome = true

namespace Planned

variable {plans : ChainPlans} {n : Expr} {ns ms : List Expr}

/-- Plans for all nodes are plans for all but the first. -/
theorem tail (h : Planned plans (n :: ns)) : Planned plans ns :=
  fun m hm => h m (List.mem_cons_of_mem _ hm)

/-- Plans for all nodes are plans for the first of them. -/
theorem left (h : Planned plans (ns ++ ms)) : Planned plans ns :=
  fun m hm => h m (List.mem_append_left _ hm)

/-- Plans for all nodes are plans for the last of them. -/
theorem right (h : Planned plans (ns ++ ms)) : Planned plans ms :=
  fun m hm => h m (List.mem_append_right _ hm)

end Planned

/-- No node is an access with a `?`. -/
def Unguarded (nodes : List Expr) : Prop :=
  ∀ n ∈ nodes, n.isGuarded = false

namespace Unguarded

variable {n : Expr} {ns ms : List Expr}

/-- No nodes have no guards. -/
@[simp] theorem nil : Unguarded [] := by
  simp [Unguarded]

/-- Nodes have no guards when the first has none and the others have none. -/
@[simp] theorem cons : Unguarded (n :: ns) ↔ n.isGuarded = false ∧ Unguarded ns :=
  List.forall_mem_cons

/-- Nodes of two sequences have no guards when those of each have none. -/
@[simp] theorem append : Unguarded (ns ++ ms) ↔ Unguarded ns ∧ Unguarded ms :=
  List.forall_mem_append

end Unguarded

mutual

/-- Without a `?` anywhere no node is guarded. -/
theorem Expr.unguarded_outerNodes : ∀ e : Expr, e.hasNavigation = false → Unguarded e.outerNodes
  | .literal .., _ | .name .., _ | .self .., _ | .lambda .., _ | .create .., _ => by simp [Expr.outerNodes, Expr.isGuarded]
  | .unary _ operand _, h | .paren operand _, h => by
    simp [Expr.outerNodes, Expr.isGuarded, operand.unguarded_outerNodes h]
  | .binary _ left right _, h | .assign left right _, h => by
    obtain ⟨hl, hr⟩ := Bool.or_eq_false_iff.1 h
    simp [Expr.outerNodes, Expr.isGuarded, left.unguarded_outerNodes hl, right.unguarded_outerNodes hr]
  | .conditional condition thenBranch elseBranch _, h => by
    obtain ⟨h, he⟩ := Bool.or_eq_false_iff.1 h
    obtain ⟨hc, ht⟩ := Bool.or_eq_false_iff.1 h
    simp [Expr.outerNodes, Expr.isGuarded, condition.unguarded_outerNodes hc, thenBranch.unguarded_outerNodes ht,
      elseBranch.unguarded_outerNodes he]
  | .access base link guarded _, h => by
    obtain ⟨h, hl⟩ := Bool.or_eq_false_iff.1 h
    obtain ⟨rfl, hb⟩ := Bool.or_eq_false_iff.1 h
    simp [Expr.outerNodes, Expr.isGuarded, base.unguarded_outerNodes hb, link.unguarded_outerNodes hl]

/-- A link without a `?` has no guards. -/
theorem Link.unguarded_outerNodes : ∀ link : Link, link.hasNavigation = false → Unguarded link.outerNodes
  | .member _ _, _ => .nil
  | .element indices, h => unguarded_listOuterNodes indices h
  | .invoke args, h => unguarded_listOuterNodes args h

/-- Expressions without a `?` have no guards. -/
theorem unguarded_listOuterNodes : ∀ es : List Expr, listHasNavigation es = false → Unguarded (listOuterNodes es)
  | [], _ => .nil
  | e :: es, h => by
    obtain ⟨he, hs⟩ := Bool.or_eq_false_iff.1 h
    simp [listOuterNodes, e.unguarded_outerNodes he, unguarded_listOuterNodes es hs]

end

/-! ## What lowering gives -/

/-- Whatever the state, an action of lowering gives something with a property. -/
def Lowering.Gives {α : Type} (x : Lowering α) (P : α → Prop) : Prop :=
  ∀ s, P (x s).1

/-- An action that only gives something. -/
theorem Lowering.gives_pure {α : Type} {P : α → Prop} {a : α} (h : P a) : Lowering.Gives (pure a) P :=
  fun _ => h

/-- An action, and then one that goes on with what it gave. -/
theorem Lowering.Gives.bind {α β : Type} {x : Lowering α} {P : α → Prop} {f : α → Lowering β} {Q : β → Prop}
    (hx : x.Gives P) (hf : ∀ a, P a → (f a).Gives Q) : (x >>= f).Gives Q :=
  fun s => hf (x s).1 (hx s) (x s).2

/-- Actions before one that does not depend on them. -/
theorem Lowering.Gives.after {α β : Type} {x : Lowering α} {f : α → Lowering β} {Q : β → Prop}
    (hf : ∀ a, (f a).Gives Q) : (x >>= f).Gives Q :=
  fun s => hf (x s).1 (x s).2

/-! ## What lowering keeps as source -/

/-- What the nodes of lowered expressions keep as source has no null-conditional access outside of lambda bodies and
creations. -/
def NoGuardKept (nodes : List Lowered) : Prop :=
  ∀ x, .source x ∈ nodes → Unguarded x.outerNodes

namespace NoGuardKept

variable {ls ms : List Lowered}

/-- No nodes keep no guards. -/
theorem nil : NoGuardKept [] :=
  fun _ h => absurd h List.not_mem_nil

/-- An expression without guards is kept as source without guards. -/
theorem source {x : Expr} (h : Unguarded x.outerNodes) : NoGuardKept (Lowered.source x).nodes := by
  intro y hy
  cases List.mem_singleton.1 hy
  exact h

/-- Nodes of two sequences keep no guards when those of each keep none. -/
theorem append (hl : NoGuardKept ls) (hm : NoGuardKept ms) : NoGuardKept (ls ++ ms) :=
  fun x hx => (List.mem_append.1 hx).elim (hl x) (hm x)

/-- A node that is not source itself adds nothing. -/
theorem cons {l : Lowered} (h : NoGuardKept ls) (hl : ∀ x, l ≠ .source x := by simp) : NoGuardKept (l :: ls) := by
  intro x hx
  rcases List.mem_cons.1 hx with hx | hx
  · exact absurd hx.symm (hl x)
  · exact h x hx

end NoGuardKept

/-- A row of accesses is lowered, and its parts keep no `?` as source. -/
def LoweredSpine.SpelledOut : LoweredSpine → Prop
  | .whole l => NoGuardKept l.nodes
  | .chain c => NoGuardKept c.value.nodes ∧ NoGuardKept c.access.nodes
  | .kept => False

/-- A chain spelled out. -/
theorem OpenChain.spelledOut_lowered {c : OpenChain} (hv : NoGuardKept c.value.nodes) (ha : NoGuardKept c.access.nodes) :
    NoGuardKept c.lowered.nodes := by
  have hbind : ∀ access : Lowered, NoGuardKept access.nodes →
      NoGuardKept (Lowered.bind c.temp c.value (.conditional (.isNull (.temp c.temp)) (.null c.plan.result) access)).nodes := by
    intro access haccess
    have htest : NoGuardKept ((Lowered.isNull (.temp c.temp)).nodes ++ (Lowered.null c.plan.result).nodes) := by
      intro x hx
      simp [Lowered.nodes] at hx
    exact (hv.append ((htest.append haccess).cons)).cons
  rw [OpenChain.lowered]
  split
  · exact hbind _ (ha.cons)
  · exact hbind _ ha

/-- Closing a spelled out row keeps no guard. -/
theorem LoweredSpine.spelledOut_close {top : Expr} {spine : LoweredSpine} (h : spine.SpelledOut) :
    (spine.close top).Gives (NoGuardKept ·.nodes) := by
  cases spine with
  | whole l => exact Lowering.gives_pure h
  | chain c => exact .after fun _ => Lowering.gives_pure (OpenChain.spelledOut_lowered h.1 h.2)
  | kept => exact h.elim

/-- An expression on a spelled out row settles to a form that keeps no guard. -/
theorem Lowering.Gives.settle_spelledOut {e : Expr} {spine : Lowering LoweredSpine} (h : spine.Gives (·.SpelledOut)) :
    (Lowering.settle e spine).Gives (NoGuardKept ·.nodes) := by
  unfold Lowering.settle
  split
  · exact h.bind fun _ hs => LoweredSpine.spelledOut_close hs
  · rename_i hn
    exact Lowering.gives_pure (.source (e.unguarded_outerNodes (by simpa using hn)))

/-- A link with operands that keep no guard, on a base that keeps none, keeps none. -/
theorem Link.spelledOut_put {base : Lowered} {operands : List Lowered} (link : Link) (hb : NoGuardKept base.nodes)
    (ho : NoGuardKept (Lowered.listNodes operands)) : NoGuardKept (link.put operands base).nodes := by
  match link with
  | .member (.plain name) _ => exact hb.cons
  | .member (.keyed name) span =>
    have hkey : NoGuardKept (Lowered.source (.literal (.str name) span)).nodes :=
      .source (by simp [Expr.outerNodes, Expr.isGuarded])
    exact (hb.append (hkey.append .nil)).cons
  | .element _ | .invoke _ => exact (hb.append ho).cons

/-- A spelled out row stays so when a link is put on it whose operands keep no guard. -/
theorem LoweredSpine.SpelledOut.onto {spine : LoweredSpine} {operands : List Lowered} (hs : spine.SpelledOut)
    (ho : NoGuardKept (Lowered.listNodes operands)) (link : Link) : (spine.onto (link.put operands)).SpelledOut := by
  cases spine with
  | whole l => exact link.spelledOut_put hs ho
  | chain c => exact ⟨hs.1, link.spelledOut_put hs.2 ho⟩
  | kept => exact hs

mutual

/-- With a plan for every chain, a row of accesses is lowered and keeps no `?` as source. -/
theorem Expr.lowerSpine_spelledOut (plans : ChainPlans) :
    ∀ e : Expr, Planned plans e.outerNodes → (e.lowerSpine plans).Gives (·.SpelledOut)
  | .literal .., _ | .name .., _ | .self .., _ => Lowering.gives_pure (.source (by simp [Expr.outerNodes, Expr.isGuarded]))
  | .unary op operand _, h =>
    (operand.lowerSpine_spelledOut plans h.tail).settle_spelledOut.bind fun _ ho => Lowering.gives_pure (ho.cons)
  | .binary op left right _, h =>
    (left.lowerSpine_spelledOut plans h.tail.left).settle_spelledOut.bind fun _ hl =>
      (right.lowerSpine_spelledOut plans h.tail.right).settle_spelledOut.bind fun _ hr =>
        Lowering.gives_pure ((hl.append hr).cons)
  | .conditional condition thenBranch elseBranch _, h =>
    (condition.lowerSpine_spelledOut plans h.tail.left.left).settle_spelledOut.bind fun _ hc =>
      (thenBranch.lowerSpine_spelledOut plans h.tail.left.right).settle_spelledOut.bind fun _ ht =>
        (elseBranch.lowerSpine_spelledOut plans h.tail.right).settle_spelledOut.bind fun _ he =>
          Lowering.gives_pure (((hc.append ht).append he).cons)
  | .assign target value _, h =>
    (target.lowerSpine_spelledOut plans h.tail.left).settle_spelledOut.bind fun _ ht =>
      (value.lowerSpine_spelledOut plans h.tail.right).settle_spelledOut.bind fun _ hv =>
        Lowering.gives_pure ((ht.append hv).cons)
  | .lambda params body span, _ => .after fun _ => Lowering.gives_pure (.source (by simp [Expr.outerNodes, Expr.isGuarded]))
  | .paren inner _, h =>
    (inner.lowerSpine_spelledOut plans h.tail).settle_spelledOut.bind fun _ hi => Lowering.gives_pure hi
  | .access base link true span, h => by
    refine (base.lowerSpine_spelledOut plans h.tail.left).settle_spelledOut.bind fun value hv => ?_
    have hplan := h _ List.mem_cons_self _ rfl
    -- Only a chain without a plan is kept as source.
    cases hp : plans.lookup (guardSpan base span) with
    | none => rw [hp] at hplan; cases hplan
    | some plan =>
      refine .after fun temp => (link.lowerOperands_spelledOut plans h.tail.right).bind fun operands ho => ?_
      refine Lowering.gives_pure ⟨hv, link.spelledOut_put ?_ ho⟩
      intro x hx
      split at hx <;> simp [Lowered.nodes] at hx
  | .access base link false span, h => by
    have next : ∀ spine : LoweredSpine, spine.SpelledOut →
        Lowering.Gives (do return spine.onto (link.put (← link.lowerOperands plans))) (·.SpelledOut) := fun spine hs =>
      (link.lowerOperands_spelledOut plans h.tail.right).bind fun _ ho => Lowering.gives_pure (hs.onto ho link)
    rw [Expr.lowerSpine]
    split
    · exact (base.lowerSpine_spelledOut plans h.tail.left).bind next
    · rename_i hn
      refine (Lowering.gives_pure ?_).bind next
      exact .source (base.unguarded_outerNodes (by simpa using hn))
  | .create type args entries span, _ =>
    .after fun _ => .after fun _ => Lowering.gives_pure (.source (by simp [Expr.outerNodes, Expr.isGuarded]))

/-- The operands of a link are lowered to forms that keep no guard when all chains have plans. -/
theorem Link.lowerOperands_spelledOut (plans : ChainPlans) :
    ∀ link : Link, Planned plans link.outerNodes → (link.lowerOperands plans).Gives (NoGuardKept <| Lowered.listNodes ·)
  | .member _ _, _ => Lowering.gives_pure .nil
  | .element indices, h => lowerList_spelledOut plans indices h
  | .invoke args, h => lowerList_spelledOut plans args h

/-- Expressions are lowered to forms that keep no guard when all chains have plans. -/
theorem lowerList_spelledOut (plans : ChainPlans) :
    ∀ es : List Expr, Planned plans (listOuterNodes es) → (lowerList plans es).Gives (NoGuardKept <| Lowered.listNodes ·)
  | [], _ => Lowering.gives_pure .nil
  | e :: es, h =>
    (e.lowerSpine_spelledOut plans h.left).settle_spelledOut.bind fun _ hl =>
      (lowerList_spelledOut plans es h.right).bind fun _ hls => Lowering.gives_pure (hl.append hls)

end

/-- Lowering leaves no `?` behind: with a plan for every chain that is in no lambda body and in no creation, what the lowered form
keeps as source has no null-conditional access, except inside lambda bodies and creations. -/
theorem Expr.lowerRoot_spelledOut (plans : ChainPlans) (e : Expr) (h : Planned plans e.outerNodes) :
    ∀ x, .source x ∈ (e.lowerRoot plans).root.nodes → ∀ n ∈ x.outerNodes, n.isGuarded = false :=
  (e.lowerSpine_spelledOut plans h).settle_spelledOut ⟨0, []⟩

/-- The arguments of a creation are kept as source with it, although the chain among them is understood and lowered, and nothing is
reported. -/
theorem creation_kept_as_source :
    ∃ report, checkSource "a"
        "class P \x7b public P q; \x7d class Q(P p) \x7b \x7d class A \x7b Q F(P p) \x7b return new Q(p?.q); \x7d \x7d" = .ok report ∧
      report.codes = [] ∧ (∃ record ∈ report.typing.navigation, record.lowered.isSome = true) ∧
      ∃ l ∈ report.typing.lowered, ∃ type args entries span,
        l.lowered = .source (.create type args entries span) ∧ ∃ n ∈ listOuterNodes args, n.isGuarded = true := by
  have evaluated : ∃ report, checkSource "a"
      "class P \x7b public P q; \x7d class Q(P p) \x7b \x7d class A \x7b Q F(P p) \x7b return new Q(p?.q); \x7d \x7d" = .ok report ∧
        report.codes = [] ∧ (∃ record ∈ report.typing.navigation, record.lowered.isSome = true) ∧
          ∃ l ∈ report.typing.lowered, (match l.lowered with
            | .source (.create _ args _ _) => (listOuterNodes args).any Expr.isGuarded
            | _ => false) = true := by
    decide +kernel
  obtain ⟨report, h, hn, understood, l, hl, hm⟩ := evaluated
  refine ⟨report, h, hn, understood, l, hl, ?_⟩
  split at hm
  · rename_i type args entries span he
    exact ⟨type, args, entries, span, he, List.any_eq_true.1 hm⟩
  · cases hm

end NavCheck
