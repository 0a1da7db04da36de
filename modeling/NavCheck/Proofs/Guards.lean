import Mathlib.Data.List.Nodup
import NavCheck.Proofs.Tracing

/-!
# Guards

Every `?` that guards an access begins one chain, and the chain ends in one outermost access. In a unit that was read no two of
them have the same place, so their places can be used as keys.
-/

namespace NavCheck

/-- The place of the `?` of a guarded access. -/
def Expr.guard? : Expr → Option Span
  | .access base _ true span => some (guardSpan base span)
  | _ => none

/-- The places of all `?` in an expression. -/
def Expr.guards (e : Expr) : List Span :=
  e.nodes.filterMap Expr.guard?

/-- The place of the `?` of the chain that an expression ends. -/
def Expr.chainGuard? (e : Expr) : Option Span :=
  e.chain?.map (·.guard)

/-- A guarded access ends the chain that its own `?` begins. -/
@[simp]
theorem Expr.chainGuard?_guarded (base : Expr) (link : Link) (span : Span) :
    (Expr.access base link true span).chainGuard? = some (guardSpan base span) :=
  rfl

/-- An access without a `?` goes on with the chain of its base. -/
@[simp]
theorem Expr.chainGuard?_plain (base : Expr) (link : Link) (span : Span) :
    (Expr.access base link false span).chainGuard? = base.chainGuard? := by
  simp [Expr.chainGuard?, Expr.chain?, Function.comp_def]

/-- The guards of the chains with the given outermost accesses. -/
def topGuards (tops : List Expr) : List Span :=
  tops.filterMap Expr.chainGuard?

/-- The guards of chains one after the other are those of both. -/
@[simp]
theorem topGuards_append (ts us : List Expr) : topGuards (ts ++ us) = topGuards ts ++ topGuards us :=
  List.filterMap_append

/-- An expression on a row with a `?` adds the guard of its chain. -/
theorem topGuards_tops (e : Expr) : topGuards e.tops = topGuards e.innerTops ++ e.chainGuard?.toList := by
  rw [Expr.tops, Expr.withTop, topGuards_append]
  refine congrArg (_ ++ ·) ?_
  rw [← e.isSome_chain?]
  cases h : e.chain? <;> simp [topGuards, Expr.chainGuard?, h]

/-- Only accesses end chains. -/
theorem Expr.tops_of_not_onChain {e : Expr} (h : e.onChain = false) : e.tops = e.innerTops := by
  simp [Expr.tops, Expr.withTop, h]

/-- The chains inside an expression and the one that it ends are its chains. -/
@[simp]
theorem Expr.withTop_innerTops (e : Expr) : e.withTop e.innerTops = e.tops :=
  rfl

/-! ## Every guard belongs to one chain -/

mutual

/-- The guards of the chains in an expression are its guards. -/
theorem Expr.perm_guards : ∀ e : Expr, (topGuards e.tops).Perm e.guards
  | .literal _ _ | .name _ _ | .self _ => .refl _
  | .unary _ operand _ => by
    rw [Expr.tops_of_not_onChain rfl]
    exact operand.perm_guards
  | .binary _ left right _ => by
    rw [Expr.tops_of_not_onChain rfl]
    simpa [Expr.innerTops, Expr.guards, Expr.nodes, List.filterMap_cons, Expr.guard?] using
      left.perm_guards.append right.perm_guards
  | .conditional condition thenBranch elseBranch _ => by
    rw [Expr.tops_of_not_onChain rfl]
    simpa [Expr.innerTops, Expr.guards, Expr.nodes, List.filterMap_cons, Expr.guard?] using
      condition.perm_guards.append (thenBranch.perm_guards.append elseBranch.perm_guards)
  | .assign target value _ => by
    rw [Expr.tops_of_not_onChain rfl]
    simpa [Expr.innerTops, Expr.guards, Expr.nodes, List.filterMap_cons, Expr.guard?] using
      target.perm_guards.append value.perm_guards
  | .lambda _ body _ => by
    rw [Expr.tops_of_not_onChain rfl]
    exact body.perm_guards
  | .paren inner _ => by
    rw [Expr.tops_of_not_onChain rfl]
    exact inner.perm_guards
  | .access base link true span => by
    rw [topGuards_tops, Expr.chainGuard?_guarded]
    refine (List.perm_append_singleton _ _).trans ?_
    simpa [Expr.innerTops, Expr.guards, Expr.nodes, List.filterMap_cons, Expr.guard?] using
      base.perm_guards.append link.perm_guards
  | .access base link false span => by
    -- The chain of the base goes on, so its guard is counted behind those of the operands.
    have hp := base.perm_guards.append link.perm_guards
    rw [topGuards_tops] at hp ⊢
    rw [Expr.chainGuard?_plain]
    simp only [Expr.innerTops, topGuards_append, List.append_assoc] at hp ⊢
    refine (List.perm_append_comm.append_left _).trans ?_
    simpa [Expr.guards, Expr.nodes, List.filterMap_cons, Expr.guard?] using hp
  | .create _ args entries _ => by
    rw [Expr.tops_of_not_onChain rfl]
    simpa [Expr.innerTops, Expr.guards, Expr.nodes, List.filterMap_cons, Expr.guard?] using
      (perm_listGuards args).append (perm_entryGuards entries)

/-- The chains inside a link have its guards, each once. -/
theorem Link.perm_guards : ∀ link : Link, (topGuards link.tops).Perm (link.nodes.filterMap Expr.guard?)
  | .member _ _ => .refl _
  | .element indices => perm_listGuards indices
  | .invoke args => perm_listGuards args

/-- The chains inside expressions have their guards, each once. -/
theorem perm_listGuards : ∀ es : List Expr, (topGuards (listTops es)).Perm ((listNodes es).filterMap Expr.guard?)
  | [] => .refl _
  | e :: es => by simpa [listTops, listNodes, Expr.guards] using e.perm_guards.append (perm_listGuards es)

/-- The chains inside entries have their guards, each once. -/
theorem perm_entryGuards : ∀ entries : List Entry,
    (topGuards (entryTops entries)).Perm ((entryNodes entries).filterMap Expr.guard?)
  | [] => .refl _
  | .member _ _ value :: entries => by
    simpa [entryTops, entryNodes, Expr.guards] using value.perm_guards.append (perm_entryGuards entries)
  | .element indices _ value :: entries => by
    simpa [entryTops, entryNodes, Expr.guards] using
      (perm_listGuards indices).append (value.perm_guards.append (perm_entryGuards entries))

end

/-! ## Every guard has a place of its own -/

mutual

/-- The guards of an expression begin at its marks. -/
theorem Expr.perm_starts : ∀ e : Expr, (e.guards.map (·.start)).Perm e.marks.guards
  | .literal _ _ | .name _ _ | .self _ => .refl _
  | .unary _ operand _ => operand.perm_starts
  | .binary _ left right _ => by
    simpa [Expr.marks, Expr.guards, Expr.nodes, List.filterMap_cons, Expr.guard?] using
      left.perm_starts.append right.perm_starts
  | .conditional condition thenBranch elseBranch _ => by
    simpa [Expr.marks, Expr.guards, Expr.nodes, List.filterMap_cons, Expr.guard?] using
      condition.perm_starts.append (thenBranch.perm_starts.append elseBranch.perm_starts)
  | .assign target value _ => by
    simpa [Expr.marks, Expr.guards, Expr.nodes, List.filterMap_cons, Expr.guard?] using
      target.perm_starts.append value.perm_starts
  | .lambda _ body _ => body.perm_starts
  | .paren inner _ => inner.perm_starts
  | .access base link true span => by
    -- A `?` stands behind the whole base, but the access comes before its base among the nodes.
    have hm : (Expr.access base link true span).marks.guards =
        base.marks.guards ++ (guardSpan base span).start :: link.marks.guards := by
      simp [Expr.marks, Marks.guard]
    rw [hm]
    refine .trans ?_ List.perm_middle.symm
    simpa [Expr.guards, Expr.nodes, List.filterMap_cons, Expr.guard?] using base.perm_starts.append link.perm_starts
  | .access base link false span => by
    simpa [Expr.marks, Expr.guards, Expr.nodes, List.filterMap_cons, Expr.guard?] using
      base.perm_starts.append link.perm_starts
  | .create _ args entries _ => by
    simpa [Expr.marks, Expr.guards, Expr.nodes, List.filterMap_cons, Expr.guard?] using
      (perm_listStarts args).append (perm_entryStarts entries)

/-- The guards in a link begin where the tokens of its `?` begin. -/
theorem Link.perm_starts : ∀ link : Link, ((link.nodes.filterMap Expr.guard?).map (·.start)).Perm link.marks.guards
  | .member _ _ => .refl _
  | .element indices => perm_listStarts indices
  | .invoke args => perm_listStarts args

/-- The guards in expressions begin where the tokens of their `?` begin. -/
theorem perm_listStarts : ∀ es : List Expr,
    (((listNodes es).filterMap Expr.guard?).map (·.start)).Perm (listMarks es).guards
  | [] => .refl _
  | e :: es => by simpa [listMarks, listNodes, Expr.guards] using e.perm_starts.append (perm_listStarts es)

/-- The guards in entries begin where the tokens of their `?` begin. -/
theorem perm_entryStarts : ∀ entries : List Entry,
    (((entryNodes entries).filterMap Expr.guard?).map (·.start)).Perm (entryMarks entries).guards
  | [] => .refl _
  | .member _ _ value :: entries => by
    simpa [entryMarks, entryNodes, Expr.guards] using value.perm_starts.append (perm_entryStarts entries)
  | .element indices _ value :: entries => by
    simpa [entryMarks, entryNodes, Expr.guards] using
      (perm_listStarts indices).append (value.perm_starts.append (perm_entryStarts entries))

end

/-- No two null-conditional accesses in a unit have the same guard. -/
theorem SourceUnit.nodup_nodeGuards [Text.Hash] {source : String} {file : Option Nat} {unit : SourceUnit}
    (h : SourceUnit.parse source file = .ok unit) : ((unit.types.flatMap TypeDecl.exprs).flatMap Expr.guards).Nodup := by
  have hp : ∀ ps : List Piece,
      (((ps.filterMap Piece.expr?).flatMap Expr.guards).map (·.start)).Perm (ps.flatMap (·.marks.guards)) := by
    intro ps
    induction ps with
    | nil => exact .refl _
    | cons p ps ih =>
      cases p with
      | name span => exact ih
      | expr e =>
        simpa [Piece.expr?, Piece.marks, List.filterMap_cons] using e.perm_starts.append ih
  have hu : unit.types.flatMap TypeDecl.exprs = unit.pieces.filterMap Piece.expr? := by
    rw [SourceUnit.pieces, List.filterMap_flatMap]
    rfl
  rw [hu]
  exact ((hp unit.pieces).nodup_iff.2 (nodup_guards h)).of_map _

/-! ## The accesses inside an expression -/

/-- A chain in an expression lies inside it or is ended by the expression itself. -/
theorem Expr.mem_tops {e t : Expr} (h : t ∈ e.tops) : t ∈ e.innerTops ∨ t = e := by
  rcases List.mem_append.1 h with h | h
  · exact .inl h
  · split at h
    · exact .inr (List.mem_singleton.1 h)
    · cases h

/-- An expression is one of its nodes. -/
theorem Expr.mem_nodes_self (e : Expr) : e ∈ e.nodes := by
  cases e <;> simp [Expr.nodes]

/-- What is inside an outermost access is inside the expression, if it is so for those that lie deeper. -/
theorem Expr.subset_tops_of {e : Expr} (h : ∀ t ∈ e.innerTops, t.nodes ⊆ e.nodes) : ∀ t ∈ e.tops, t.nodes ⊆ e.nodes := by
  intro t ht
  rcases Expr.mem_tops ht with ht | rfl
  · exact h t ht
  · exact List.Subset.refl _

section

variable {ts us : List Expr} {ns ms : List Expr}

/-- Chains of two sequences lie in the nodes of both. -/
theorem subset_append (h : ∀ t ∈ ts, t.nodes ⊆ ns) (h' : ∀ t ∈ us, t.nodes ⊆ ms) :
    ∀ t ∈ ts ++ us, t.nodes ⊆ ns ++ ms := by
  intro t ht
  rcases List.mem_append.1 ht with ht | ht
  · exact List.subset_append_of_subset_left _ (h t ht)
  · exact List.subset_append_of_subset_right _ (h' t ht)

/-- Chains that lie in some nodes lie in more of them. -/
theorem subset_cons (n : Expr) (h : ∀ t ∈ ts, t.nodes ⊆ ns) : ∀ t ∈ ts, t.nodes ⊆ n :: ns :=
  fun t ht => List.subset_cons_of_subset n (h t ht)

end

mutual

/-- What lies in a chain inside an expression lies in the expression. -/
theorem Expr.subset_innerTops : ∀ e : Expr, ∀ t ∈ e.innerTops, t.nodes ⊆ e.nodes
  | .literal _ _ | .name _ _ | .self _ => fun _ h => by cases h
  | .unary _ operand _ => subset_cons _ (Expr.subset_tops_of operand.subset_innerTops)
  | .binary _ left right _ =>
    subset_cons _ (subset_append (Expr.subset_tops_of left.subset_innerTops) (Expr.subset_tops_of right.subset_innerTops))
  | .conditional condition thenBranch elseBranch _ =>
    subset_cons _ (subset_append (subset_append (Expr.subset_tops_of condition.subset_innerTops)
      (Expr.subset_tops_of thenBranch.subset_innerTops)) (Expr.subset_tops_of elseBranch.subset_innerTops))
  | .assign target value _ =>
    subset_cons _ (subset_append (Expr.subset_tops_of target.subset_innerTops) (Expr.subset_tops_of value.subset_innerTops))
  | .lambda _ body _ => subset_cons _ (Expr.subset_tops_of body.subset_innerTops)
  | .paren inner _ => subset_cons _ (Expr.subset_tops_of inner.subset_innerTops)
  | .access base link true _ =>
    subset_cons _ (subset_append (Expr.subset_tops_of base.subset_innerTops) link.subset_tops)
  | .access base link false _ => subset_cons _ (subset_append base.subset_innerTops link.subset_tops)
  | .create _ args entries _ => subset_cons _ (subset_append (subset_listTops args) (subset_entryTops entries))

/-- What lies in a chain inside a link lies in the link. -/
theorem Link.subset_tops : ∀ link : Link, ∀ t ∈ link.tops, t.nodes ⊆ link.nodes
  | .member _ _ => fun _ h => by cases h
  | .element indices => subset_listTops indices
  | .invoke args => subset_listTops args

/-- What lies in a chain inside expressions lies in the expressions. -/
theorem subset_listTops : ∀ es : List Expr, ∀ t ∈ listTops es, t.nodes ⊆ listNodes es
  | [] => fun _ h => by cases h
  | e :: es => subset_append (Expr.subset_tops_of e.subset_innerTops) (subset_listTops es)

/-- What lies in a chain inside entries lies in the entries. -/
theorem subset_entryTops : ∀ entries : List Entry, ∀ t ∈ entryTops entries, t.nodes ⊆ entryNodes entries
  | [] => fun _ h => by cases h
  | .member _ _ value :: entries =>
    subset_append (Expr.subset_tops_of value.subset_innerTops) (subset_entryTops entries)
  | .element indices _ value :: entries =>
    subset_append (subset_append (subset_listTops indices) (Expr.subset_tops_of value.subset_innerTops))
      (subset_entryTops entries)

end

/-- What is inside an outermost access is inside the expression. -/
theorem Expr.subset_tops {e t : Expr} (h : t ∈ e.tops) : t.nodes ⊆ e.nodes :=
  Expr.subset_tops_of e.subset_innerTops t h

/-- The guards inside an outermost access are guards of the expression. -/
theorem Expr.guards_subset {e t : Expr} (h : t ∈ e.tops) : t.guards ⊆ e.guards := by
  intro g hg
  obtain ⟨n, hn, hm⟩ := List.mem_filterMap.1 hg
  exact List.mem_filterMap.2 ⟨n, Expr.subset_tops h hn, hm⟩

end NavCheck
