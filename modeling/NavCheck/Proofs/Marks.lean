import NavCheck.Expr.Chain
import NavCheck.Proofs.Passing

/-!
# Marks of expressions

The names in an expression, and the `?` of its null-conditional accesses, each stand for a token of its own: a name for the
token it is, a `?` for the token in front of it, which ends where the root of its chain ends. So no two names have the same
place, and no two accesses have the same guard.
-/

namespace NavCheck

/-- Where names end, and where the roots of null-conditional accesses end. -/
structure Marks where
  names : List Nat
  guards : List Nat

namespace Marks

/-- No marks. -/
def nothing : Marks := ⟨[], []⟩

/-- The mark of a name at a place. -/
def name (span : Span) : Marks := ⟨[span.stop], []⟩

/-- The mark of an access with a guard. -/
def guard (span : Span) : Marks := ⟨[], [span.start]⟩

instance : Append Marks := ⟨fun a b => ⟨a.names ++ b.names, a.guards ++ b.guards⟩⟩

@[simp] theorem names_append (a b : Marks) : (a ++ b).names = a.names ++ b.names := rfl

@[simp] theorem guards_append (a b : Marks) : (a ++ b).guards = a.guards ++ b.guards := rfl

theorem append_assoc (a b c : Marks) : a ++ b ++ c = a ++ (b ++ c) := by
  show Marks.mk _ _ = Marks.mk _ _
  rw [names_append, guards_append, List.append_assoc, List.append_assoc]
  rfl

@[simp] theorem append_nothing (a : Marks) : a ++ nothing = a := by
  show Marks.mk _ _ = _
  simp [nothing]

end Marks

mutual

/-- The marks of an expression, from left to right. -/
def Expr.marks : Expr → Marks
  | .literal _ _ | .self _ => .nothing
  | .name _ span => .name span
  | .unary _ operand _ => operand.marks
  | .binary _ left right _ => left.marks ++ right.marks
  | .conditional condition thenBranch elseBranch _ => condition.marks ++ thenBranch.marks ++ elseBranch.marks
  | .assign target value _ => target.marks ++ value.marks
  | .lambda _ body _ => body.marks
  | .paren inner _ => inner.marks
  | .access base link true span => base.marks ++ .guard (guardSpan base span) ++ link.marks
  | .access base link false _ => base.marks ++ link.marks
  | .create _ args entries _ => listMarks args ++ entryMarks entries

/-- The marks inside a link. -/
def Link.marks : Link → Marks
  | .member _ _ => .nothing
  | .element indices => listMarks indices
  | .invoke args => listMarks args

/-- The marks of several expressions. -/
def listMarks : List Expr → Marks
  | [] => .nothing
  | e :: es => e.marks ++ listMarks es

/-- The marks of the entries of an initializer. -/
def entryMarks : List Entry → Marks
  | [] => .nothing
  | .member _ _ value :: entries => value.marks ++ entryMarks entries
  | .element indices _ value :: entries => listMarks indices ++ value.marks ++ entryMarks entries

end

theorem entryMarks_cons (entry : Entry) (entries : List Entry) :
    entryMarks (entry :: entries) = entryMarks [entry] ++ entryMarks entries := by
  cases entry <;> simp [entryMarks]

/-! ## Marks on tokens -/

/-- Marks stand for tokens, in order and each for one of its own. The last token is none that a `?` follows. -/
structure Marked (marks : Marks) (ts : List Token) : Prop where
  names : marks.names.Sublist (ts.map (·.span.stop))
  guards : marks.guards.Sublist (ts.dropLast.map (·.span.stop))

namespace Marked

variable {m n : Marks} {ts us : List Token}

theorem nothing (ts : List Token) : Marked .nothing ts :=
  ⟨List.nil_sublist _, List.nil_sublist _⟩

theorem append (h : Marked m ts) (h' : Marked n us) : Marked (m ++ n) (ts ++ us) := by
  refine ⟨by simpa using h.names.append h'.names, ?_⟩
  have hd : (ts.dropLast ++ us.dropLast).Sublist (ts ++ us).dropLast := by
    cases us with
    | nil => simp
    | cons u us =>
      rw [List.dropLast_append_of_ne_nil (List.cons_ne_nil u us)]
      exact ts.dropLast_sublist.append_right _
  refine List.Sublist.trans ?_ (hd.map _)
  rw [List.map_append]
  exact h.guards.append h'.guards

/-- Tokens in front do not matter. -/
theorem behind (h : Marked m us) (ts : List Token) : Marked m (ts ++ us) :=
  (nothing ts).append h

/-- Tokens behind do not matter. -/
theorem before (h : Marked m ts) (us : List Token) : Marked m (ts ++ us) := by
  simpa using h.append (nothing us)

/-- A name stands for its token. -/
theorem name (t : Token) : Marked (.name t.span) [t] :=
  ⟨List.Sublist.refl _, List.nil_sublist _⟩

/-- A `?` behind tokens stands for the last of them. -/
theorem guard {span : Span} (h : Marked m ts) (hne : ts ≠ []) (hs : span.start = (ts.getLast hne).span.stop)
    (t : Token) (us : List Token) : Marked (m ++ .guard span) (ts ++ t :: us) := by
  refine ⟨?_, ?_⟩
  · simpa [Marks.guard] using h.names.trans (List.sublist_append_left _ _)
  · rw [List.dropLast_append_of_ne_nil (List.cons_ne_nil t us), List.map_append]
    refine List.Sublist.trans ?_ (List.sublist_append_left _ _)
    have hts : ts.map (·.span.stop) = ts.dropLast.map (·.span.stop) ++ [span.start] := by
      rw [hs, ← List.map_singleton (f := fun t : Token => t.span.stop), ← List.map_append,
        List.dropLast_concat_getLast]
    rw [hts]
    exact h.guards.append_right _

end Marked

/-- The span of tokens in order ends with the last of them. -/
theorem Cursor.Passes.stop_spanTo {c d : Cursor} {ts : List Token} (h : c.Passes ts d) (ho : InOrder ts) (hne : ts ≠ []) :
    (c.spanTo d).stop = (ts.getLast hne).span.stop := by
  obtain ⟨init, last, rfl⟩ : ∃ init last, ts = init ++ [last] :=
    ⟨_, _, (List.dropLast_concat_getLast hne).symm⟩
  cases init with
  | nil => simp [spanTo, h.1, h.2, Span.join]
  | cons first init =>
    have hle := ho.head_stop_le
    rw [List.getLast_concat]
    simp [spanTo, h.1, h.2, Span.join, hle]

/-- The marks of what a phrase stands for stand for tokens. What was read in front of operators and accesses must have its
own marks on the tokens in front. -/
def Phrase.MarkedBy : Phrase → Cursor → List Token → Prop
  | .assign _ e, _, ts | .conditional _ e, _, ts | .binary _ _ e, _, ts | .unary _ e, _, ts | .primary _ e, _, ts
  | .lambda _ _ _ e, _, ts | .creation _ e, _, ts | .entryValue e, _, ts => Marked e.marks ts
  | .operators _ _ start left whole, c, ts | .accesses _ start left whole, c, ts =>
    ∀ us, start.Passes us c → us ≠ [] → InOrder (us ++ ts) → left.span = start.spanTo c → Marked left.marks us →
      Marked whole.marks (us ++ ts)
  | .link _ _ l, _, ts => Marked l.marks ts
  | .list es, _, ts | .bracketed _ es, _, ts | .args es, _, ts => Marked (listMarks es) ts
  | .entries es, _, ts => Marked (entryMarks es) ts
  | .entry en, _, ts => Marked (entryMarks [en]) ts

/-! ### Marks between cursors -/

/-- Marks stand for tokens between two cursors, if these are in order. -/
def Cursor.MarksUpTo (c : Cursor) (m : Marks) (d : Cursor) : Prop :=
  ∃ ts, c.Passes ts d ∧ (InOrder ts → Marked m ts)

namespace Cursor.MarksUpTo

variable {m n : Marks} {c c₁ d : Cursor} {us : List Token}

/-- Between cursors with no marks. -/
theorem nothing (h : c.Passes us d) : c.MarksUpTo .nothing d :=
  ⟨us, h, fun _ => .nothing us⟩

/-- Tokens passed in front. -/
theorem behind (h : c₁.MarksUpTo m d) (hp : c.Passes us c₁) : c.MarksUpTo m d :=
  let ⟨ts, h₁, m₁⟩ := h
  ⟨us ++ ts, hp.trans h₁, fun ho => (m₁ ho.right).behind us⟩

/-- Tokens passed behind. -/
theorem before (h : c.MarksUpTo m c₁) (hp : c₁.Passes us d) : c.MarksUpTo m d :=
  let ⟨ts, h₁, m₁⟩ := h
  ⟨ts ++ us, h₁.trans hp, fun ho => (m₁ ho.left).before us⟩

/-- Two parts, one behind the other. -/
theorem append (h : c.MarksUpTo m c₁) (h' : c₁.MarksUpTo n d) : c.MarksUpTo (m ++ n) d :=
  let ⟨ts, h₁, m₁⟩ := h
  let ⟨us, h₂, m₂⟩ := h'
  ⟨ts ++ us, h₁.trans h₂, fun ho => (m₁ ho.left).append (m₂ ho.right)⟩

end Cursor.MarksUpTo

open Cursor in
/-- The marks of what was read stand for the tokens that were passed. -/
theorem Reads.marked {phrase : Phrase} {c d : Cursor} (h : Reads phrase c d) :
    ∃ ts, c.Passes ts d ∧ (InOrder ts → phrase.MarkedBy c ts) := by
  induction h with
  | assignEnd _ _ ih => exact ih
  | assign _ hd _ ih₁ ih₂ => exact MarksUpTo.append (.before ih₁ (passes_accept? hd)) ih₂
  | conditionalEnd _ _ ih => exact ih
  | conditional _ hq _ hc _ ih₁ ih₂ ih₃ =>
    exact MarksUpTo.append (.before (.append (.before ih₁ (passes_accept? hq)) ih₂) (passes_accept? hc)) ih₃
  | binary hl _ ih₁ ih₂ =>
    obtain ⟨ts, h₁, m₁⟩ := ih₁
    obtain ⟨us, h₂, m₂⟩ := ih₂
    exact ⟨_, h₁.trans h₂, fun ho => m₂ ho.right ts h₁ (hl.passes_ne_nil h₁) ho hl.span (m₁ ho.left)⟩
  | operatorsEnd _ => exact ⟨[], .refl _, fun _ us _ _ _ _ hm => hm.before []⟩
  | operators ho hr hw ih₁ ih₂ =>
    obtain ⟨t, h₀⟩ := passes_binOp? ho
    obtain ⟨ts, h₁, m₁⟩ := ih₁
    obtain ⟨us, h₂, m₂⟩ := ih₂
    refine ⟨_, (h₀.trans h₁).trans h₂, fun hi vs hv hne hvi hs hm => ?_⟩
    rw [← List.append_assoc] at hvi ⊢
    refine m₂ hi.right _ (hv.trans (h₀.trans h₁)) (by simp [hne]) hvi rfl ?_
    rw [← List.append_assoc]
    exact (hm.before _).append (m₁ hi.left.right)
  | unary ho _ ih => exact MarksUpTo.behind ih (passes_unOp? ho).choose_spec
  | postfixed _ hb _ ih₁ ih₂ =>
    obtain ⟨ts, h₁, m₁⟩ := ih₁
    obtain ⟨us, h₂, m₂⟩ := ih₂
    exact ⟨_, h₁.trans h₂, fun ho => m₂ ho.right ts h₁ (hb.passes_ne_nil h₁) ho hb.span (m₁ ho.left)⟩
  | accessesEnd _ => exact ⟨[], .refl _, fun _ us _ _ _ _ hm => hm.before []⟩
  | @accesses pending base link whole start c c₁ d mark ha hl hw ih₁ ih₂ =>
    obtain ⟨t, qs, h₀, -⟩ := passes_accessStart? ha
    obtain ⟨ts, h₁, m₁⟩ := ih₁
    obtain ⟨us, h₂, m₂⟩ := ih₂
    refine ⟨_, (h₀.trans h₁).trans h₂, fun hi vs hv hne hvi hs hm => ?_⟩
    rw [← List.append_assoc] at hvi ⊢
    refine m₂ hi.right _ (hv.trans (h₀.trans h₁)) (by simp [hne]) hvi rfl ?_
    rw [← List.append_assoc]
    cases hg : mark.value.2 with
    | false => exact (hm.before _).append (m₁ hi.left.right)
    | true =>
      -- The guard begins where the base ends, with the last token in front of the `?`.
      have hstop : (guardSpan base (start.spanTo c₁)).start = (vs.getLast hne).span.stop := by
        rw [guardSpan, hs, hv.stop_spanTo hvi.left.left hne]
      exact (hm.guard hne hstop t qs).append (m₁ hi.left.right)
  | member hn => exact MarksUpTo.nothing (memberName_eq_ok_iff.1 hn).passes.choose_spec
  | element _ _ ih => exact ih
  | invoke _ ih => exact ih
  | listEnd _ _ ih =>
    obtain ⟨ts, h₁, m₁⟩ := ih
    exact ⟨ts, h₁, fun ho => by simpa [Phrase.MarkedBy, listMarks] using m₁ ho⟩
  | list _ hk _ ih₁ ih₂ => exact MarksUpTo.append (.before ih₁ (passes_accept? hk)) ih₂
  | bracketed _ hc ih => exact MarksUpTo.before ih (passes_accept? hc)
  | argsEnd hc => exact MarksUpTo.nothing (passes_accept? hc)
  | args _ _ ih => exact ih
  | name ha _ => exact ⟨_, passes_accept? ha, fun _ => .name _⟩
  | shortLambda ha _ _ ih => exact MarksUpTo.behind ih (passes_accept? ha)
  | literal hn _ => exact MarksUpTo.nothing (passes_next? hn)
  | self ha => exact MarksUpTo.nothing (passes_accept? ha)
  | create ha _ ih => exact MarksUpTo.behind ih (passes_accept? ha)
  | longLambda ha _ hp _ ih =>
    exact MarksUpTo.behind ih ((passes_accept? ha).trans (passes_lambdaParams hp).choose_spec)
  | paren ha _ _ hc ih => exact MarksUpTo.before (.behind ih (passes_accept? ha)) (passes_accept? hc)
  | lambda ha _ ih => exact MarksUpTo.behind ih (passes_lambdaArrow ha)
  | @createArgs args _ _ _ _ _ ht ho _ _ ih =>
    have hargs : Cursor.MarksUpTo _ (listMarks args) _ := .behind ih ((passes_type? ht).choose_spec.trans (passes_accept? ho))
    simpa [MarksUpTo, Phrase.MarkedBy, Expr.marks, entryMarks] using hargs
  | createBoth ht ho _ hb _ ih₁ ih₂ =>
    exact MarksUpTo.append
      (.before (.behind ih₁ ((passes_type? ht).choose_spec.trans (passes_accept? ho))) (passes_accept? hb)) ih₂
  | createEntries ht _ hb _ ih =>
    exact MarksUpTo.append (.nothing ((passes_type? ht).choose_spec.trans (passes_accept? hb))) ih
  | entriesEnd hc => exact MarksUpTo.nothing (passes_accept? hc)
  | entriesLast _ _ _ hc ih => exact MarksUpTo.before ih (passes_accept? hc)
  | @entries entry more _ _ _ _ _ _ hk _ ih₁ ih₂ =>
    have both : Cursor.MarksUpTo _ (entryMarks [entry] ++ entryMarks more) _ := .append (.before ih₁ (passes_accept? hk)) ih₂
    rwa [← entryMarks_cons] at both
  | @entryElement indices value _ _ _ _ hb _ _ _ ih₁ ih₂ =>
    have both : Cursor.MarksUpTo _ (listMarks indices ++ value.marks) _ := .append (.behind ih₁ (passes_accept? hb)) ih₂
    simpa [MarksUpTo, Phrase.MarkedBy, entryMarks] using both
  | @entryMember value _ _ _ _ hn _ ih =>
    have hvalue : Cursor.MarksUpTo _ value.marks _ := .behind ih (entryName_eq_ok_iff.1 hn).passes.choose_spec
    simpa [MarksUpTo, Phrase.MarkedBy, entryMarks] using hvalue
  | entryValue hs _ ih => exact MarksUpTo.behind ih (passes_accept? hs)

end NavCheck
