import NavCheck.Lowered.Lower

/-!
# Temporaries

The temporaries of a lowered expression are hygienic (`Expr.lowerRoot_hygienic`): each is bound once, in ascending order of
evaluation, is read in the body of its binding only, and is read there exactly twice. The carrying notion is a supply: lowering
takes the numbers of its temporaries from a range that begins where the range of what was lowered before has ended, whether
the result of that is used or thrown away.
-/

namespace NavCheck

namespace Lowered

/-! ## Occurrences -/

mutual

/-- A lowered expression and everything inside it, each before its parts. -/
def nodes : Lowered → List Lowered
  | .source expr => [.source expr]
  | .temp index => [.temp index]
  | .bind index value body => .bind index value body :: (value.nodes ++ body.nodes)
  | .conditional condition thenBranch elseBranch =>
    .conditional condition thenBranch elseBranch :: (condition.nodes ++ thenBranch.nodes ++ elseBranch.nodes)
  | .isNull operand => .isNull operand :: operand.nodes
  | .null type => [.null type]
  | .unwrap operand => .unwrap operand :: operand.nodes
  | .wrap type value => .wrap type value :: value.nodes
  | .member base name => .member base name :: base.nodes
  | .element base indices => .element base indices :: (base.nodes ++ listNodes indices)
  | .invoke callee args => .invoke callee args :: (callee.nodes ++ listNodes args)
  | .binary op left right => .binary op left right :: (left.nodes ++ right.nodes)
  | .unary op operand => .unary op operand :: operand.nodes
  | .assign target value => .assign target value :: (target.nodes ++ value.nodes)

/-- Several lowered expressions and everything inside them. -/
def listNodes : List Lowered → List Lowered
  | [] => []
  | l :: ls => l.nodes ++ listNodes ls

end

/-- The temporary that a node reads. -/
def temp? : Lowered → Option Nat
  | .temp index => some index
  | _ => none

/-- The temporaries that are read, one for each occurrence. -/
def temps (l : Lowered) : List Nat :=
  l.nodes.filterMap temp?

mutual

/-- The temporaries that are read outside the body of a binding of them, one for each occurrence. -/
def free : Lowered → List Nat
  | .source _ => []
  | .temp index => [index]
  | .bind index value body => value.free ++ body.free.filter (· != index)
  | .conditional condition thenBranch elseBranch => condition.free ++ thenBranch.free ++ elseBranch.free
  | .isNull operand => operand.free
  | .null _ => []
  | .unwrap operand => operand.free
  | .wrap _ value => value.free
  | .member base _ => base.free
  | .element base indices => base.free ++ listFree indices
  | .invoke callee args => callee.free ++ listFree args
  | .binary _ left right => left.free ++ right.free
  | .unary _ operand => operand.free
  | .assign target value => target.free ++ value.free

/-- The temporaries that several expressions read outside the bodies of their bindings. -/
def listFree : List Lowered → List Nat
  | [] => []
  | l :: ls => l.free ++ listFree ls

end

/-- What the accesses of a row are put onto in the end, whether they are lifted or not. -/
def receiver : Lowered → Lowered
  | .wrap _ value => value.receiver
  | .unwrap operand => operand.receiver
  | .member base _ => base.receiver
  | .element base _ => base.receiver
  | .invoke callee _ => callee.receiver
  | l => l

mutual

/-- A temporary that an expression does not bind has only free occurrences in it. -/
theorem count_nodes {i : Nat} : ∀ l : Lowered, i ∉ l.boundTemps → (l.nodes.filterMap temp?).count i = l.free.count i
  | .source _, _ | .null _, _ | .temp _, _ => rfl
  | .bind index value body, h => by
    simp only [boundTemps, List.mem_append, List.mem_cons, not_or] at h
    have hf : (body.free.filter (· != index)).count i = body.free.count i := List.count_filter (by simpa using h.2.1)
    simp [nodes, List.filterMap_cons, temp?, free, value.count_nodes h.1, body.count_nodes h.2.2, hf]
  | .conditional condition thenBranch elseBranch, h => by
    simp only [boundTemps, List.mem_append, not_or] at h
    simp [nodes, List.filterMap_cons, temp?, free, condition.count_nodes h.1.1, thenBranch.count_nodes h.1.2,
      elseBranch.count_nodes h.2]
  | .isNull operand, h | .unwrap operand, h | .wrap _ operand, h | .member operand _, h | .unary _ operand, h => by
    simp [nodes, List.filterMap_cons, temp?, free, operand.count_nodes h]
  | .element base operands, h | .invoke base operands, h => by
    simp only [boundTemps, List.mem_append, not_or] at h
    simp [nodes, List.filterMap_cons, temp?, free, base.count_nodes h.1, count_listNodes operands h.2]
  | .binary _ left right, h | .assign left right, h => by
    simp only [boundTemps, List.mem_append, not_or] at h
    simp [nodes, List.filterMap_cons, temp?, free, left.count_nodes h.1, right.count_nodes h.2]

theorem count_listNodes {i : Nat} :
    ∀ ls : List Lowered, i ∉ listBoundTemps ls → ((listNodes ls).filterMap temp?).count i = (listFree ls).count i
  | [], _ => rfl
  | l :: ls, h => by
    simp only [listBoundTemps, List.mem_append, not_or] at h
    simp [listNodes, listFree, l.count_nodes h.1, count_listNodes ls h.2]

end

/-! ## Hygiene -/

/-- A binding as lowering makes them: its value does not read the temporary, its body reads it exactly twice, once to test it
against `null`, and once as what the accesses are put onto when it is not `null`. -/
structure BindsOnce (index : Nat) (value body : Lowered) : Prop where
  fresh : index ∉ value.temps
  tested : ∃ type access, body = .conditional (.isNull (.temp index)) (.null type) access ∧ access.receiver = .temp index
  twice : body.temps.count index = 2

/-- A lowered expression is hygienic: its temporaries are bound in ascending order, every occurrence of one is in the body of its
binding, and its bindings are as lowering makes them. -/
structure Hygienic (l : Lowered) : Prop where
  increasing : l.boundTemps.Pairwise (· < ·)
  closed : l.free = []
  binds : ∀ index value body, .bind index value body ∈ l.nodes → BindsOnce index value body

/-- Parts of a lowered expression, given by what they bind, what they read freely and their nodes: they are hygienic but for the
free occurrences `outer`, and bind temporaries from `lo` on and below `hi`. -/
structure Supplied (lo hi : Nat) (outer bound free : List Nat) (nodes : List Lowered) : Prop where
  increasing : bound.Pairwise (· < ·)
  range : ∀ i ∈ bound, lo ≤ i ∧ i < hi
  free_eq : free = outer
  binds : ∀ index value body, .bind index value body ∈ nodes → BindsOnce index value body

/-- A lowered expression binds temporaries of a range only and reads the given ones freely. -/
def Within (lo hi : Nat) (outer : List Nat) (l : Lowered) : Prop :=
  Supplied lo hi outer l.boundTemps l.free l.nodes

/-- Closed lowered expressions in a row bind temporaries of a range only. -/
def ListWithin (lo hi : Nat) (ls : List Lowered) : Prop :=
  Supplied lo hi [] (listBoundTemps ls) (listFree ls) (listNodes ls)

theorem Within.hygienic {lo hi : Nat} {l : Lowered} (h : l.Within lo hi []) : l.Hygienic :=
  ⟨h.increasing, h.free_eq, h.binds⟩

namespace Supplied

variable {lo mid hi : Nat} {outer outer' bound bound' free free' : List Nat} {ns ns' : List Lowered}

theorem nil : Supplied lo hi [] [] [] [] :=
  ⟨.nil, by simp, rfl, by simp⟩

theorem mono (h : Supplied lo mid outer bound free ns) (hm : mid ≤ hi) : Supplied lo hi outer bound free ns :=
  { h with range := fun i hi => ⟨(h.range i hi).1, Nat.lt_of_lt_of_le (h.range i hi).2 hm⟩ }

theorem append (h : Supplied lo mid outer bound free ns) (h' : Supplied mid hi outer' bound' free' ns')
    (hl : lo ≤ mid) (hm : mid ≤ hi) :
    Supplied lo hi (outer ++ outer') (bound ++ bound') (free ++ free') (ns ++ ns') where
  increasing := List.pairwise_append.2 ⟨h.increasing, h'.increasing, fun i hi j hj =>
    Nat.lt_of_lt_of_le (h.range i hi).2 (h'.range j hj).1⟩
  range i hi := by
    rcases List.mem_append.1 hi with hi | hi
    · have := h.range i hi
      omega
    · have := h'.range i hi
      omega
  free_eq := by rw [h.free_eq, h'.free_eq]
  binds i v b hb := (List.mem_append.1 hb).elim (h.binds i v b) (h'.binds i v b)

/-- A node that is no binding adds nothing. -/
theorem cons {n : Lowered} (h : Supplied lo hi outer bound free ns) (hn : n.isBinding = false) :
    Supplied lo hi outer bound free (n :: ns) where
  increasing := h.increasing
  range := h.range
  free_eq := h.free_eq
  binds i v b hb := by
    rcases List.mem_cons.1 hb with rfl | hb
    · cases hn
    · exact h.binds i v b hb

end Supplied

end Lowered

/-! ## Chains -/

open Lowered

/-- A chain that is still going on: its value is closed and has taken temporaries from `lo` on, then the chain has taken its own,
and its accesses are put onto that, with those of their operands above it. -/
structure OpenChain.Within (lo hi : Nat) (c : OpenChain) : Prop where
  value : c.value.Within lo c.temp []
  access : c.access.Within (c.temp + 1) hi [c.temp]
  receiver : c.access.receiver = .temp c.temp
  lower : lo ≤ c.temp
  upper : c.temp < hi

/-- A chain spelled out is closed, and takes the temporaries of its value, its own and those of its operands. -/
theorem OpenChain.Within.lowered {lo hi : Nat} {c : OpenChain} (h : c.Within lo hi) : c.lowered.Within lo hi [] := by
  have hfresh : ∀ i ∈ c.access.boundTemps, c.temp < i := fun i hi => (h.access.range i hi).1
  have hone : c.access.temps.count c.temp = 1 := by
    rw [temps, c.access.count_nodes fun hm => Nat.lt_irrefl _ (hfresh _ hm), h.access.free_eq]
    simp
  have hvalue : c.temp ∉ c.value.temps := by
    refine List.count_eq_zero.1 ?_
    rw [temps, c.value.count_nodes fun hm => Nat.lt_irrefl _ (h.value.range _ hm).2, h.value.free_eq]
    rfl
  -- Lifting the result is no access and binds nothing.
  obtain ⟨access, hlow, hbound, hfree, hrec, hcount, hnodes⟩ : ∃ access : Lowered,
      c.lowered = .bind c.temp c.value (.conditional (.isNull (.temp c.temp)) (.null c.plan.result) access) ∧
      access.boundTemps = c.access.boundTemps ∧ access.free = c.access.free ∧ access.receiver = c.access.receiver ∧
      access.temps.count c.temp = 1 ∧
      ∀ i v b, .bind i v b ∈ access.nodes → BindsOnce i v b := by
    cases hw : c.plan.wrap with
    | none =>
      exact ⟨c.access, by rw [OpenChain.lowered, hw], rfl, rfl, rfl, hone, h.access.binds⟩
    | some type =>
      exact ⟨.wrap type c.access, by rw [OpenChain.lowered, hw], rfl, rfl, rfl, hone,
        (h.access.cons (n := .wrap type c.access) rfl).binds⟩
  have hbinds : BindsOnce c.temp c.value (.conditional (.isNull (.temp c.temp)) (.null c.plan.result) access) := by
    refine ⟨hvalue, ⟨_, _, rfl, hrec.trans h.receiver⟩, ?_⟩
    simp only [temps] at hcount
    simp [temps, nodes, List.filterMap_cons, temp?, hcount]
  rw [hlow]
  refine ⟨?_, ?_, ?_, ?_⟩
  · simp only [boundTemps, hbound, List.nil_append]
    refine List.pairwise_append.2 ⟨h.value.increasing, List.pairwise_cons.2 ⟨hfresh, h.access.increasing⟩, ?_⟩
    intro i hi j hj
    have hi := (h.value.range i hi).2
    rcases List.mem_cons.1 hj with rfl | hj
    · exact hi
    · exact Nat.lt_trans hi (hfresh j hj)
  · simp only [boundTemps, hbound, List.nil_append]
    intro i hi
    have hl := h.lower
    have hu := h.upper
    rcases List.mem_append.1 hi with hi | hi
    · have := h.value.range i hi
      omega
    · rcases List.mem_cons.1 hi with rfl | hi
      · exact ⟨hl, hu⟩
      · have := h.access.range i hi
        omega
  · simp [free, hfree, h.value.free_eq, h.access.free_eq]
  · intro i v b hm
    simp only [nodes, List.mem_cons, List.mem_append, reduceCtorEq, List.not_mem_nil, false_or, or_false,
      Lowered.bind.injEq] at hm
    rcases hm with ⟨rfl, rfl, rfl⟩ | hm | hm
    · exact hbinds
    · exact h.value.binds i v b hm
    · exact hnodes i v b hm

/-! ## Lowering -/

/-- All chains kept so far are hygienic. -/
def LowerState.Hygienic (s : LowerState) : Prop :=
  ∀ entry ∈ s.chains, entry.2.Hygienic

/-- An action of lowering that begins with the temporary `lo` takes temporaries from there on, keeps hygienic chains only, and has
a result that fits the number of the temporary it ends before. -/
def Lowering.SuppliedFrom {α : Type} (lo : Nat) (x : Lowering α) (P : Nat → α → Prop) : Prop :=
  ∀ s : LowerState, s.Hygienic → s.next = lo → lo ≤ (x s).2.next ∧ (x s).2.Hygienic ∧ P (x s).2.next (x s).1

namespace Lowering.SuppliedFrom

variable {α β : Type} {lo : Nat} {P : Nat → α → Prop} {Q : Nat → β → Prop}

theorem pure {a : α} (h : P lo a) : SuppliedFrom lo (Pure.pure a) P := by
  rintro s hs rfl
  exact ⟨Nat.le_refl _, hs, h⟩

theorem bind {x : Lowering α} {f : α → Lowering β} (hx : SuppliedFrom lo x P)
    (hf : ∀ mid a, lo ≤ mid → P mid a → SuppliedFrom mid (f a) fun hi b => Q hi b) : SuppliedFrom lo (x >>= f) Q := by
  intro s hs hlo
  obtain ⟨hle, hs', hp⟩ := hx s hs hlo
  obtain ⟨hle', hs'', hq⟩ := hf _ _ hle hp _ hs' rfl
  exact ⟨Nat.le_trans hle hle', hs'', hq⟩

theorem freshTemp : SuppliedFrom lo Lowering.freshTemp fun hi i => i = lo ∧ hi = lo + 1 := by
  rintro s hs rfl
  exact ⟨Nat.le_succ _, hs, rfl, rfl⟩

theorem keepChain {guard : Span} {l : Lowered} (h : l.Hygienic) :
    SuppliedFrom lo (Lowering.keepChain guard l) fun hi _ => hi = lo := by
  rintro s hs rfl
  refine ⟨Nat.le_refl _, fun entry he => ?_, rfl⟩
  rcases List.mem_append.1 he with he | he
  · exact hs entry (List.mem_filter.1 he).1
  · rw [List.mem_singleton.1 he]
    exact h

end Lowering.SuppliedFrom

/-- What a row of accesses has been lowered to binds temporaries of a range only. -/
def LoweredSpine.Within (lo hi : Nat) : LoweredSpine → Prop
  | .whole l => l.Within lo hi []
  | .chain c => c.Within lo hi
  | .kept => True

/-- What is kept as source binds nothing. -/
theorem Lowered.within_source (lo hi : Nat) (e : Expr) : (Lowered.source e).Within lo hi [] :=
  Supplied.nil.cons rfl

/-- Ending a row of accesses. -/
theorem LoweredSpine.Within.close {lo hi : Nat} {spine : LoweredSpine} (h : spine.Within lo hi) (top : Expr) :
    Lowering.SuppliedFrom hi (spine.close top) fun hi' l => hi' = hi ∧ l.Within lo hi [] := by
  cases spine with
  | whole l => exact .pure ⟨rfl, h⟩
  | chain c =>
    have hc := OpenChain.Within.lowered h
    refine (Lowering.SuppliedFrom.keepChain hc.hygienic).bind fun mid _ _ hm => ?_
    subst hm
    exact .pure ⟨rfl, hc⟩
  | kept => exact .pure ⟨rfl, within_source ..⟩

/-- Settling an expression whose row of accesses is lowered within a range. -/
theorem Lowering.SuppliedFrom.settle {lo : Nat} {e : Expr} {spine : Lowering LoweredSpine}
    (h : SuppliedFrom lo spine fun hi spine => spine.Within lo hi) :
    SuppliedFrom lo (Lowering.settle e spine) fun hi l => l.Within lo hi [] := by
  unfold Lowering.settle
  split
  · refine h.bind fun mid row _ hr => ?_
    intro s hs hn
    obtain ⟨hle, hs', hn', hw⟩ := hr.close e s hs hn
    exact ⟨hle, hs', by rwa [hn']⟩
  · exact .pure (within_source ..)

/-- A link puts its operands behind what it is put onto. -/
theorem Lowered.Within.put {lo mid hi : Nat} {outer : List Nat} {base : Lowered} {operands : List Lowered}
    (hb : base.Within lo mid outer) (ho : ListWithin mid hi operands) (hlo : lo ≤ mid) (hhi : mid ≤ hi) (link : Link) :
    (link.put operands base).Within lo hi outer := by
  have happ {n : Lowered} {ls : List Lowered} (hls : ListWithin mid hi ls) (hn : n.isBinding = false) :
      Supplied lo hi outer (base.boundTemps ++ listBoundTemps ls) (base.free ++ listFree ls)
        (n :: (base.nodes ++ listNodes ls)) := by
    simpa using (Supplied.append hb hls hlo hhi).cons hn
  match link with
  | .member (.plain name) _ => exact (Supplied.mono hb hhi).cons rfl
  | .member (.keyed name) span => exact happ (Supplied.append (within_source ..) .nil hhi (Nat.le_refl _)) rfl
  | .element _ => exact happ ho rfl
  | .invoke _ => exact happ ho rfl

/-- What a link is put onto keeps its receiver. -/
theorem Link.receiver_put (link : Link) (operands : List Lowered) (base : Lowered) :
    (link.put operands base).receiver = base.receiver := by
  match link with
  | .member (.plain _) _ | .member (.keyed _) _ | .element _ | .invoke _ => rfl

/-- A row of accesses goes on with the temporaries of the operands of the next access. -/
theorem LoweredSpine.Within.onto {lo mid hi : Nat} {spine : LoweredSpine} {operands : List Lowered} (hs : spine.Within lo mid)
    (ho : ListWithin mid hi operands) (hlo : lo ≤ mid) (hhi : mid ≤ hi) (link : Link) :
    (spine.onto (link.put operands)).Within lo hi := by
  cases spine with
  | whole l => exact Lowered.Within.put hs ho hlo hhi link
  | chain c =>
    have hc : c.Within lo mid := hs
    exact ⟨hc.value, hc.access.put ho hc.upper hhi link, (link.receiver_put operands c.access).trans hc.receiver, hc.lower,
      Nat.lt_of_lt_of_le hc.upper hhi⟩
  | kept => trivial

open Lowering in
mutual

/-- Lowering a row of accesses takes temporaries in order. -/
theorem Expr.lowerSpine_supplied (plans : ChainPlans) :
    ∀ (e : Expr) (lo : Nat), SuppliedFrom lo (e.lowerSpine plans) fun hi spine => spine.Within lo hi
  | .literal .., lo | .name .., lo | .self .., lo => .pure (within_source ..)
  | .unary op operand _, lo =>
    (operand.lowerSpine_supplied plans lo).settle.bind fun _ _ _ h => .pure (h.cons rfl)
  | .binary op left right _, lo =>
    (left.lowerSpine_supplied plans lo).settle.bind fun mid _ hlo hl =>
      (right.lowerSpine_supplied plans mid).settle.bind fun _ _ hhi hr => .pure ((hl.append hr hlo hhi).cons rfl)
  | .conditional condition thenBranch elseBranch _, lo =>
    (condition.lowerSpine_supplied plans lo).settle.bind fun mid _ hlo hc =>
      (thenBranch.lowerSpine_supplied plans mid).settle.bind fun mid' _ hm ht =>
        (elseBranch.lowerSpine_supplied plans mid').settle.bind fun _ _ hhi he =>
          .pure (((hc.append ht hlo hm).append he (Nat.le_trans hlo hm) hhi).cons rfl)
  | .assign target value _, lo =>
    (target.lowerSpine_supplied plans lo).settle.bind fun mid _ hlo ht =>
      (value.lowerSpine_supplied plans mid).settle.bind fun _ _ hhi hv => .pure ((ht.append hv hlo hhi).cons rfl)
  | .lambda params body span, lo =>
    -- The temporaries of the body are lost with it: it stays as source.
    (body.lowerSpine_supplied plans lo).settle.bind fun _ _ _ _ => .pure (within_source ..)
  | .paren inner _, lo =>
    (inner.lowerSpine_supplied plans lo).settle.bind fun _ _ _ h => .pure h
  | .access base link true span, lo => by
    refine (base.lowerSpine_supplied plans lo).settle.bind fun mid value hlo hv => ?_
    cases plans.lookup (guardSpan base span) with
    | none => exact (link.lowerOperands_supplied plans mid).bind fun _ _ _ _ => .pure trivial
    | some plan =>
      refine SuppliedFrom.freshTemp.bind fun mid' temp _ ht => ?_
      obtain ⟨rfl, rfl⟩ := ht
      refine (link.lowerOperands_supplied plans (temp + 1)).bind fun hi operands hhi ho => .pure ?_
      have hstart : (if plan.unwraps then Lowered.unwrap (.temp temp) else .temp temp).Within (temp + 1) (temp + 1) [temp] := by
        have ht : (Lowered.temp temp).Within (temp + 1) (temp + 1) [temp] := ⟨.nil, by simp [boundTemps], rfl, by simp [nodes]⟩
        split
        · exact Supplied.cons ht rfl
        · exact ht
      refine ⟨hv, hstart.put ho (Nat.le_refl _) hhi link, (link.receiver_put ..).trans ?_, hlo, hhi⟩
      cases plan.unwraps <;> rfl
  | .access base link false span, lo => by
    have next : ∀ mid (spine : LoweredSpine), lo ≤ mid → spine.Within lo mid →
        SuppliedFrom mid (do return spine.onto (link.put (← link.lowerOperands plans))) fun hi spine => spine.Within lo hi :=
      fun mid spine hlo hs => (link.lowerOperands_supplied plans mid).bind fun _ _ hhi ho => .pure (hs.onto ho hlo hhi link)
    rw [Expr.lowerSpine]
    split
    · exact (base.lowerSpine_supplied plans lo).bind next
    · exact (SuppliedFrom.pure (P := fun hi spine => spine.Within lo hi) (within_source lo lo base)).bind next
  | .create type args entries span, lo =>
    (lowerList_supplied plans args lo).bind fun mid _ _ _ =>
      (lowerEntries_supplied plans entries mid).bind fun _ _ _ _ => .pure (within_source ..)

theorem Link.lowerOperands_supplied (plans : ChainPlans) :
    ∀ (link : Link) (lo : Nat), SuppliedFrom lo (link.lowerOperands plans) fun hi ls => ListWithin lo hi ls
  | .member _ _, _ => .pure Supplied.nil
  | .element indices, lo => lowerList_supplied plans indices lo
  | .invoke args, lo => lowerList_supplied plans args lo

theorem lowerList_supplied (plans : ChainPlans) :
    ∀ (es : List Expr) (lo : Nat), SuppliedFrom lo (lowerList plans es) fun hi ls => ListWithin lo hi ls
  | [], _ => .pure Supplied.nil
  | e :: es, lo =>
    (e.lowerSpine_supplied plans lo).settle.bind fun mid _ hlo hl =>
      (lowerList_supplied plans es mid).bind fun _ _ hhi hls => .pure (hl.append hls hlo hhi)

theorem lowerEntries_supplied (plans : ChainPlans) :
    ∀ (entries : List Entry) (lo : Nat), SuppliedFrom lo (lowerEntries plans entries) fun _ _ => True
  | [], _ => .pure trivial
  | .member _ _ value :: entries, lo =>
    (value.lowerSpine_supplied plans lo).settle.bind fun mid _ _ _ => lowerEntries_supplied plans entries mid
  | .element indices _ value :: entries, lo =>
    (lowerList_supplied plans indices lo).bind fun mid _ _ _ =>
      (value.lowerSpine_supplied plans mid).settle.bind fun mid' _ _ _ => lowerEntries_supplied plans entries mid'

end

/-- Temporaries are hygienic, in what an expression is lowered to and in every chain that lowering keeps, whichever chains have
plans: they are bound in ascending order, so none is bound twice, every occurrence of one is in the body of its binding and not
in its value, and the body has two occurrences, one under the test against `null` and one that the accesses are put onto. -/
theorem Expr.lowerRoot_hygienic (plans : ChainPlans) (e : Expr) :
    (e.lowerRoot plans).root.Hygienic ∧ ∀ entry ∈ (e.lowerRoot plans).chains, entry.2.Hygienic := by
  have hempty : LowerState.Hygienic ⟨0, []⟩ := fun entry he => absurd he List.not_mem_nil
  obtain ⟨-, hchains, hroot⟩ := (e.lowerSpine_supplied plans 0).settle ⟨0, []⟩ hempty rfl
  exact ⟨hroot.hygienic, hchains⟩

end NavCheck
