import NavCheck.Proofs.Grammar.Expressions

/-!
# Soundness of the expression parser

What the parser reads is derived by the grammar: the tokens that are passed for an expression, and only these, are a derivation of
it, and every node of the tree has the place of its own tokens. A function of the parser that goes on behind what was read before
carries a derivation of that with it, so the loops over operators and accesses keep a level: the operand in front of the next
operator never stands on a looser level than that operator asks for.
-/

namespace NavCheck

open Grammar

/-! ## Places of rows of tokens -/

/-- The first of tokens in source order are in source order. -/
theorem InSourceOrder.of_append_left {ts us : List Token} (h : InSourceOrder (ts ++ us)) : InSourceOrder ts :=
  (List.pairwise_append.mp h).1

/-- The last of tokens in source order are in source order. -/
theorem InSourceOrder.of_append_right {ts us : List Token} (h : InSourceOrder (ts ++ us)) : InSourceOrder us :=
  (List.pairwise_append.mp h).2.1

/-- In the order of the source the first and the last token span the whole row. -/
theorem InSourceOrder.join_eq_extent {t : Token} {ts : List Token} (h : InSourceOrder (t :: ts)) :
    t.span.join (ts.getLast?.getD t).span = extent (t :: ts) := by
  have key : t.span.start ≤ (ts.getLast?.getD t).span.start ∧ t.span.stop ≤ (ts.getLast?.getD t).span.stop := by
    cases hl : ts.getLast? with
    | none => exact ⟨Nat.le_refl _, Nat.le_refl _⟩
    | some u => exact (List.pairwise_cons.mp h).1 u (List.mem_of_getLast? hl)
  simp [Span.join, extent, key]

namespace Cursor.Passes

variable {c d : Cursor} {ts : List Token}

/-- Tokens that are left in source order are so behind those that were passed. -/
theorem inSourceOrder (h : c.Passes ts d) (ho : InSourceOrder c.ahead) : InSourceOrder d.ahead :=
  (h.1 ▸ ho).of_append_right

/-- The span from a cursor to another one is the place of the tokens between them. -/
theorem spanTo_eq_extent (h : c.Passes ts d) (ho : InSourceOrder c.ahead) (hn : ts ≠ []) : c.spanTo d = extent ts := by
  rw [h.1] at ho
  obtain ⟨t, us, rfl⟩ := List.exists_cons_of_ne_nil hn
  have hl : d.passed.head? = some (us.getLast?.getD t) := by
    rw [h.2, List.head?_append, List.head?_reverse, List.getLast?_cons, Option.some_or]
  obtain ⟨rest, hd⟩ := List.head?_eq_some_iff.mp hl
  rw [spanTo, h.1, hd]
  exact ho.of_append_left.join_eq_extent

end Cursor.Passes

/-! ## Types -/

namespace TypeExpr

/-- Suffixes that were read are derived, and the last token is the last one of them or the one in front. -/
theorem derives_scanSuffixes (u : Token) (tokens : List Token) :
    ∃ ts, tokens = ts ++ (scanSuffixes u.span tokens).2.2 ∧ Derives (.suffixes (scanSuffixes u.span tokens).1) ts ∧
      (scanSuffixes u.span tokens).2.1 = (ts.getLast?.getD u).span := by
  generalize hs : u.span = last
  fun_induction scanSuffixes last tokens generalizing u with
  | case1 => exact ⟨[], rfl, .noSuffixes, hs.symm⟩
  | case2 last t rest hq hg => exact ⟨[], rfl, .noSuffixes, hs.symm⟩
  | case3 last t rest hq hg suffixes last' rest' he ih =>
    obtain ⟨ts, ht, hd, hl⟩ := ih t rfl
    rw [he] at ht hd hl
    exact ⟨t :: ts, by rw [List.cons_append, ← ht], .nullable (by simpa [Token.isMark] using hq) hd,
      by rw [hl, List.getLast?_cons, Option.getD_some]⟩
  | case4 last t _ hb close rest hk suffixes last' rest' he ih =>
    obtain ⟨ts, ht, hd, hl⟩ := ih close rfl
    rw [he] at ht hd hl
    exact ⟨t :: close :: ts, by rw [List.cons_append, List.cons_append, ← ht],
      .array (by simpa [Token.isMark] using hb) (by simpa [Token.isMark] using hk) hd,
      by rw [hl, List.getLast?_cons, List.getLast?_cons, Option.getD_some, Option.getD_some]⟩
  | case5 => exact ⟨[], rfl, .noSuffixes, hs.symm⟩
  | case6 => exact ⟨[], rfl, .noSuffixes, hs.symm⟩
  | case7 => exact ⟨[], rfl, .noSuffixes, hs.symm⟩

mutual

/-- A type that was read is derived. -/
theorem derives_scan? (tokens : List Token) (s : TypeScan TypeExpr tokens) (h : scan? tokens = some s)
    (ho : InSourceOrder tokens) :
    ∃ t ts, tokens = t :: ts ++ s.rest ∧ Derives (.type s.value) (t :: ts) ∧ s.last = (ts.getLast?.getD t).span := by
  cases tokens with
  | nil => rw [scan?] at h; cases h
  | cons first rest =>
    rw [scan?] at h
    dsimp only at h
    split at h
    · rename_i hn
      cases ha : scanArgs? first.span rest with
      | none => rw [ha] at h; cases h
      | some after =>
        obtain ⟨args, last, afterArgs, hle⟩ := after
        rw [ha] at h
        cases h
        obtain ⟨ts, ht, hd, hl⟩ := derives_scanArgs? first rest _ ha (List.pairwise_cons.mp ho).2
        dsimp only at ht hd hl ⊢
        obtain ⟨us, hu, hsuffixes, hlast⟩ := derives_scanSuffixes (ts.getLast?.getD first) afterArgs
        rw [← hl] at hu hsuffixes hlast
        have hall : first :: rest = first :: (ts ++ us) ++ (scanSuffixes last afterArgs).2.2 := by
          rw [List.cons_append, List.append_assoc, ← hu, ← ht]
        have hend : (scanSuffixes last afterArgs).2.1 = ((ts ++ us).getLast?.getD first).span := by
          rw [hlast, List.getLast?_append, Option.getD_or]
        rw [hall] at ho
        refine ⟨first, ts ++ us, hall, ?_, hend⟩
        rw [hend, ho.of_append_left.join_eq_extent]
        exact .type (by simpa [Token.is] using hn) hd hsuffixes
    · cases h
termination_by 2 * tokens.length

/-- Arguments of a type that were read are derived. -/
theorem derives_scanArgs? (u : Token) (tokens : List Token)
    (s : List TypeExpr × Span × { rest : List Token // rest.length ≤ tokens.length }) (h : scanArgs? u.span tokens = some s)
    (ho : InSourceOrder tokens) :
    ∃ ts, tokens = ts ++ s.2.2.1 ∧ Derives (.typeArgs s.1) ts ∧ s.2.1 = (ts.getLast?.getD u).span := by
  cases tokens with
  | nil => rw [scanArgs?] at h; cases h; exact ⟨[], rfl, .noTypeArgs, rfl⟩
  | cons t rest =>
    rw [scanArgs?] at h
    split at h
    · rename_i hk
      rw [Option.map_eq_some_iff] at h
      obtain ⟨s, hs, rfl⟩ := h
      obtain ⟨ts, close, hc, ht, hd, hl⟩ := derives_scanArgList? rest s hs (List.pairwise_cons.mp ho).2
      refine ⟨t :: (ts ++ [close]), by rw [List.cons_append, ← ht],
        .someTypeArgs (by simpa [Token.isSign] using hk) hd hc, ?_⟩
      rw [hl, List.getLast?_cons, List.getLast?_concat, Option.getD_some, Option.getD_some]
    · cases h
      exact ⟨[], rfl, .noTypeArgs, rfl⟩
termination_by 2 * tokens.length + 1

/-- Types with commas between them that were read, and the closing angle bracket, are derived. -/
theorem derives_scanArgList? (tokens : List Token) (s : TypeScan (List TypeExpr) tokens) (h : scanArgList? tokens = some s)
    (ho : InSourceOrder tokens) :
    ∃ ts close, close.kind = .sign .greater ∧ tokens = ts ++ [close] ++ s.rest ∧ Derives (.types s.value) ts ∧
      s.last = close.span := by
  rw [scanArgList?] at h
  cases ha : scan? tokens with
  | none => rw [ha] at h; cases h
  | some arg =>
    rw [ha] at h
    obtain ⟨u, us, hu, hd, -⟩ := derives_scan? tokens arg ha ho
    dsimp only at h
    split at h
    · cases h
    · rename_i t rest hr
      rw [hr] at hu
      have hlt : rest.length < tokens.length := by
        have hs := arg.shorter
        rw [hr, List.length_cons] at hs
        omega
      split at h
      · rename_i hk
        rw [Option.map_eq_some_iff] at h
        obtain ⟨more, hm, rfl⟩ := h
        rw [hu] at ho
        obtain ⟨ts, close, hc, ht, hds, hl⟩ :=
          derives_scanArgList? rest more hm (List.pairwise_cons.mp ho.of_append_right).2
        have hall : tokens = u :: us ++ t :: ts ++ [close] ++ more.rest :=
          calc tokens = u :: us ++ t :: rest := hu
            _ = u :: us ++ t :: (ts ++ [close] ++ more.rest) := congrArg (u :: us ++ t :: ·) ht
            _ = u :: us ++ t :: ts ++ [close] ++ more.rest := by simp
        exact ⟨_, close, hc, hall, .moreTypes hd (by simpa [Token.isMark] using hk) hds, hl⟩
      · split at h
        · rename_i hk
          cases h
          have hall : tokens = u :: us ++ [t] ++ rest := by simpa using hu
          exact ⟨_, t, by simpa [Token.isSign] using hk, hall, .lastType hd, rfl⟩
        · cases h
termination_by 2 * tokens.length + 1

end

end TypeExpr

/-! ## The small steps of the parser -/

namespace Token

/-- A binary operator is written with its sign. -/
theorem kind_of_binOp? {t : Token} {op : BinOp} (h : t.binOp? = some op) : t.kind = .sign op.sign := by
  unfold binOp? at h
  split at h
  · rename_i s hs
    rw [hs, (BinOp.ofSign?_eq_some_iff s op).mp h]
  · cases h

/-- A unary operator is written with its sign. -/
theorem kind_of_unOp? {t : Token} {op : UnOp} (h : t.unOp? = some op) : t.kind = .sign op.sign := by
  unfold unOp? at h
  split at h
  · rename_i s hs
    rw [hs, (UnOp.ofSign?_eq_some_iff s op).mp h]
  · cases h

end Token

namespace Cursor

variable {c : Cursor}

/-- An accepted token has the kind that was asked for. -/
theorem accept?_kind {kind : TokenKind} {p : Parsed Token c} (h : c.accept? kind = some p) : p.value.kind = kind :=
  (next?_of_accept? h).2

/-- An operator between operands is one token, and binds tightly enough. -/
theorem sign_of_binOp? {least : Nat} {p : Parsed BinOp c} (h : c.binOp? least = some p) :
    ∃ t, c.Passes [t] p.next ∧ t.kind = .sign p.value.sign ∧ least ≤ p.value.precedence := by
  unfold binOp? at h
  cases hn : c.next? with
  | none => rw [hn] at h; cases h
  | some q =>
    simp only [hn] at h
    cases ho : q.value.binOp? with
    | none => rw [ho] at h; cases h
    | some op =>
      simp only [ho] at h
      split at h
      · cases h
      · rename_i hl
        cases h
        exact ⟨q.value, passes_next? hn, Token.kind_of_binOp? ho, Nat.le_of_not_lt hl⟩

/-- A unary operator that is read is one token, its sign. -/
theorem sign_of_unOp? {p : Parsed UnOp c} (h : c.unOp? = some p) :
    ∃ t, c.Passes [t] p.next ∧ t.kind = .sign p.value.sign := by
  unfold unOp? at h
  cases hn : c.next? with
  | none => rw [hn] at h; cases h
  | some q =>
    simp only [hn, Option.map_eq_some_iff] at h
    obtain ⟨op, ho, rfl⟩ := h
    exact ⟨q.value, passes_next? hn, Token.kind_of_unOp? ho⟩

end Cursor

/-- The mark that an access begins with. -/
def AccessStart.mark : AccessStart → Punct
  | .dot => .dot
  | .bracket => .openBracket
  | .paren => .openParen

namespace Cursor

variable {c : Cursor}

/-- The mark of an access that is read is one token. -/
theorem mark_of_accessMark? {p : Parsed AccessStart c} (h : c.accessMark? = some p) :
    ∃ t, c.Passes [t] p.next ∧ t.kind = .punct p.value.mark := by
  unfold accessMark? at h
  cases hn : c.next? with
  | none => rw [hn] at h; cases h
  | some q =>
    simp only [hn, Token.isMark, beq_iff_eq] at h
    split at h
    · cases h; exact ⟨q.value, passes_next? hn, ‹_›⟩
    split at h
    · cases h; exact ⟨q.value, passes_next? hn, ‹_›⟩
    split at h
    · cases h; exact ⟨q.value, passes_next? hn, ‹_›⟩
    · cases h

/-- An access begins with its mark; a guarded one has a `?` in front of it and another one nothing. -/
theorem marks_of_accessStart? {pending : Nat} {p : Parsed (AccessStart × Bool) c} (h : c.accessStart? pending = some p) :
    ∃ t, t.kind = .punct p.value.1.mark ∧
      (p.value.2 = false ∧ c.Passes [t] p.next ∨
        p.value.2 = true ∧ ∃ question, question.kind = .punct .question ∧ c.Passes [question, t] p.next) := by
  unfold accessStart? at h
  cases hq : c.accept? (.punct .question) with
  | none =>
    simp only [hq, Option.map_eq_some_iff] at h
    obtain ⟨m, hm, rfl⟩ := h
    obtain ⟨t, ht, hk⟩ := mark_of_accessMark? hm
    exact ⟨t, hk, .inl ⟨rfl, ht⟩⟩
  | some q =>
    simp only [hq] at h
    cases hm : q.next.accessMark? with
    | none => rw [hm] at h; cases h
    | some m =>
      simp only [hm] at h
      split at h
      · cases h
      · cases h
        obtain ⟨t, ht, hk⟩ := mark_of_accessMark? hm
        exact ⟨t, hk, .inr ⟨rfl, q.value, accept?_kind hq, (passes_accept? hq).trans ht⟩⟩

/-- The name behind a dollar sign stands without a gap, and the place runs from the dollar sign on. -/
theorem name_of_dollarName {dollar : Token} {p : Parsed (MemberName × Span) c} (h : c.dollarName dollar = .ok p) :
    ∃ t, c.Passes [t] p.next ∧ t.kind = .name ∧ t.span.start = dollar.span.stop ∧
      p.value = (.keyed t.lexeme, dollar.span.join t.span) := by
  unfold dollarName at h
  cases hn : c.next? with
  | none => rw [hn] at h; cases h
  | some q =>
    simp only [hn] at h
    split at h
    · cases h
    rename_i hk
    split at h
    · cases h
    · rename_i hs
      cases h
      exact ⟨q.value, passes_next? hn, Decidable.not_not.mp hk, Decidable.not_not.mp hs, rfl⟩

/-- A `$` name is derived. -/
theorem derives_keyedName {dollar : Parsed Token c} {p : Parsed (MemberName × Span) dollar.next}
    (hd : c.accept? (.punct .dollar) = some dollar) (h : dollar.next.dollarName dollar.value = .ok p)
    (ho : InSourceOrder c.ahead) : ∃ ts, c.Passes ts p.next ∧ Derives (.memberName p.value.1 p.value.2) ts := by
  obtain ⟨t, hp, hk, hs, hv⟩ := name_of_dollarName h
  have hp := (passes_accept? hd).trans hp
  refine ⟨_, hp, ?_⟩
  rw [hp.1] at ho
  rw [hv, show dollar.value.span.join t.span = _ from ho.of_append_left.join_eq_extent]
  exact .keyedName (accept?_kind hd) hk hs

/-- A name that is passed is derived from its tokens. -/
theorem PassesName.derives {place : NamePlace} {p : Parsed (MemberName × Span) c} (h : c.PassesName place p)
    (ho : InSourceOrder c.ahead) : ∃ ts, c.Passes ts p.next ∧ Derives (.memberName p.value.1 p.value.2) ts := by
  cases h with
  | keyed hd hn => exact derives_keyedName hd hn ho
  | plain _ hn =>
    have ha := passes_nameAt hn
    exact ⟨_, passes_accept? ha, .plainName (accept?_kind ha)⟩

/-- A type that is read is derived from its tokens. -/
theorem derives_type? {p : Parsed TypeExpr c} (h : c.type? = some p) (ho : InSourceOrder c.ahead) :
    ∃ ts, c.Passes ts p.next ∧ Derives (.type p.value) ts := by
  obtain ⟨us, hu⟩ := passes_type? h
  unfold type? at h
  rw [Option.map_eq_some_iff] at h
  obtain ⟨s, hs, rfl⟩ := h
  obtain ⟨t, ts, ht, hd, -⟩ := TypeExpr.derives_scan? c.ahead s hs ho
  have he : us = t :: ts := List.append_cancel_right (hu.1.symm.trans ht)
  exact ⟨us, hu, he ▸ hd⟩

/-- A parameter of a lambda that is read is derived from its tokens. -/
theorem derives_lambdaParam {p : Parsed LambdaParam c} (h : c.lambdaParam = .ok p) (ho : InSourceOrder c.ahead) :
    ∃ ts, c.Passes ts p.next ∧ Derives (.param p.value) ts := by
  have plain : ∀ p : Parsed LambdaParam c, (do
      let p ← c.nameAt .lambdaParam
      .ok ⟨⟨none, p.value.lexeme, p.value.span⟩, p.next, p.shorter⟩ : Read LambdaParam c) = .ok p →
      ∃ ts, c.Passes ts p.next ∧ Derives (.param p.value) ts := by
    intro p h
    obtain ⟨name, hn, h⟩ := of_bind_eq_ok h
    cases h
    have ha := passes_nameAt hn
    exact ⟨_, passes_accept? ha, .untyped (accept?_kind ha)⟩
  unfold lambdaParam at h
  dsimp only at h
  cases ht : c.type? with
  | none => rw [ht] at h; exact plain p h
  | some type =>
    simp only [ht] at h
    cases hn : type.next.accept? .name with
    | none => rw [hn] at h; exact plain p h
    | some name =>
      rw [hn] at h
      cases h
      obtain ⟨ts, hp, hd⟩ := derives_type? ht ho
      exact ⟨_, hp.trans (passes_accept? hn), .typed hd (accept?_kind hn)⟩

/-- Parameters of a lambda in a row that are read are derived from their tokens. -/
theorem derives_lambdaParamList (c : Cursor) (p : Parsed (List LambdaParam) c) (h : c.lambdaParamList = .ok p)
    (ho : InSourceOrder c.ahead) : ∃ ts, c.Passes ts p.next ∧ Derives (.paramList p.value) ts := by
  rw [lambdaParamList] at h
  obtain ⟨param, hp, h⟩ := of_bind_eq_ok h
  obtain ⟨ts, ht, hd⟩ := derives_lambdaParam hp ho
  cases hk : param.next.accept? (.punct .comma) with
  | none =>
    rw [hk] at h
    cases h
    exact ⟨ts, ht, .lastParam hd⟩
  | some comma =>
    simp only [hk] at h
    have := Nat.lt_trans comma.shorter param.shorter
    obtain ⟨rest, hr, h⟩ := of_bind_eq_ok h
    cases h
    have hc := ht.trans (passes_accept? hk)
    obtain ⟨us, hu, hds⟩ := derives_lambdaParamList comma.next rest hr (hc.inSourceOrder ho)
    exact ⟨_, by simpa using hc.trans hu, .moreParams hd (accept?_kind hk) hds⟩
termination_by c.ahead.length

/-- The parameters of a lambda are derived, with the parenthesis in front of them. -/
theorem derives_lambdaParams {opening : Parsed Token c} {p : Parsed (List LambdaParam) opening.next}
    (hp : c.accept? (.punct .openParen) = some opening) (h : opening.next.lambdaParams = .ok p)
    (ho : InSourceOrder c.ahead) : ∃ ts, c.Passes ts p.next ∧ Derives (.params p.value) ts := by
  have ho := (passes_accept? hp).inSourceOrder ho
  unfold lambdaParams at h
  cases hc : opening.next.accept? (.punct .closeParen) with
  | some close =>
    rw [hc] at h
    cases h
    exact ⟨_, (passes_accept? hp).trans (passes_accept? hc), .noParams (accept?_kind hp) (accept?_kind hc)⟩
  | none =>
    rw [hc] at h
    obtain ⟨list, hl, h⟩ := of_bind_eq_ok h
    obtain ⟨close, hk, h⟩ := of_bind_eq_ok h
    cases h
    obtain ⟨ts, ht, hd⟩ := derives_lambdaParamList opening.next list hl ho
    have hk := accept?_of_close hk
    exact ⟨_, (passes_accept? hp).trans (ht.trans (passes_accept? hk)),
      .someParams (accept?_kind hp) hd (accept?_kind hk)⟩

/-- The arrow of a lambda is an arrow. -/
theorem arrow_of_lambdaArrow {p : Parsed Token c} (h : c.lambdaArrow = .ok p) : p.value.kind = .sign .arrow := by
  unfold lambdaArrow at h
  cases ha : c.accept? (.sign .arrow) with
  | none => rw [ha] at h; cases h
  | some q =>
    simp only [ha] at h
    split at h
    · cases h
    · cases h
      exact accept?_kind ha

end Cursor

/-! ## Levels and precedences -/

namespace Grammar.Level

/-- The level of operands with operators between them that bind at least as tightly as `least`. -/
def ofLeast : Nat → Level
  | 0 | 1 => coalescing
  | 2 => disjunction
  | 3 => conjunction
  | 4 => equality
  | 5 => relation
  | 6 => sum
  | 7 => product
  | _ => unary

/-- The rank of the level for a least binding, from that of `??` to that of unary operators. -/
theorem rank_ofLeast : ∀ least : Nat, (ofLeast least).rank = max 2 (min (least + 1) 9)
  | 0 | 1 | 2 | 3 | 4 | 5 | 6 | 7 => rfl
  | n + 8 => by
    simp only [ofLeast, rank]
    omega

/-- All levels of binary operators are below that of unary operators. -/
theorem ofLeast_le_unary (least : Nat) : ofLeast least ≤ unary := by
  show (ofLeast least).rank ≤ 9
  rw [rank_ofLeast]
  omega

/-- The rank of the level of an operator follows its precedence. -/
theorem rank_ofOp (op : BinOp) : (ofOp op).rank = op.precedence + 1 := by
  cases op <;> rfl

/-- An operator that binds tightly enough is on the level for a least binding. -/
theorem ofLeast_le_ofOp {least : Nat} {op : BinOp} (h : least ≤ op.precedence) : ofLeast least ≤ ofOp op := by
  have hop : 1 ≤ op.precedence ∧ op.precedence ≤ 7 := by cases op <;> decide
  show (ofLeast least).rank ≤ (ofOp op).rank
  rw [rank_ofLeast, rank_ofOp]
  omega

/-- What stands on the right of an operator is read on the level that the grammar gives it. -/
theorem ofLeast_rightLeast (op : BinOp) : ofLeast op.rightLeast = ofRight op := by
  cases op <;> rfl

/-- What stands on the left of an operator is at most on the level of unary operators. -/
theorem ofLeft_le_unary (op : BinOp) : ofLeft op ≤ unary := by
  cases op <;> decide

/-- An operator that the right operand of another one leaves may have that whole operation as its left operand. -/
theorem ofLeft_le_ofOp {op next : BinOp} (h : next.precedence < op.rightLeast) : ofLeft next ≤ ofOp op := by
  revert h
  cases op <;> cases next <;> decide

end Grammar.Level

/-- Operands with operators between them end where no operator follows that binds tightly enough. -/
theorem Reads.binOp?_eq_none {phrase : Phrase} {c d : Cursor} (h : Reads phrase c d) :
    match phrase with
    | .binary _ least _ | .operators _ least _ _ _ => d.binOp? least = none
    | _ => True := by
  induction h with
  | binary _ _ _ ih => exact ih
  | operatorsEnd ho => exact ho
  | operators _ _ _ _ ih => exact ih
  | _ => trivial

/-- An operator that follows although none that binds as tightly as `least` does is looser than that. -/
theorem Cursor.precedence_lt_of_binOp? {c : Cursor} {least least' : Nat} {op : Parsed BinOp c}
    (h : c.binOp? least' = none) (ho : c.binOp? least = some op) : op.value.precedence < least' := by
  unfold binOp? at h ho
  cases hn : c.next? with
  | none => rw [hn] at ho; cases ho
  | some q =>
    simp only [hn] at h ho
    cases hb : q.value.binOp? with
    | none => rw [hb] at ho; cases ho
    | some op =>
      simp only [hb] at h ho
      split at ho
      · cases ho
      · cases ho
        split at h
        · assumption
        · cases h

/-! ## Derivations -/

/-- That an expression is derived on a level from the tokens between two cursors, when these stand in the order of the source. -/
def Cursor.DerivesExpr (c : Cursor) (level : Level) (e : Expr) (d : Cursor) : Prop :=
  InSourceOrder c.ahead → ∃ ts, c.Passes ts d ∧ Derives (.expr level e) ts

/-! ## The rules between cursors

What each rule of the grammar says of cursors: an expression is derived between the cursors around its parts, and has the place of
what lies between them. Two steps are the same for all rules: the parts are passed one behind the other, and the span from the
first cursor to the last one is the place of all that was passed. -/

namespace Cursor

section

variable {c c₁ d : Cursor} {ts : List Token} {P : List Token → Prop}

/-- Tokens that were passed, and then what is read behind them. -/
theorem Passes.andThen (h : c.Passes ts c₁) (hr : InSourceOrder c₁.ahead → ∃ us, c₁.Passes us d ∧ P us)
    (ho : InSourceOrder c.ahead) : ∃ us, c.Passes (ts ++ us) d ∧ P us :=
  let ⟨us, hp, hu⟩ := hr (h.inSourceOrder ho)
  ⟨us, h.trans hp, hu⟩

/-- Tokens that were passed, then a token of a kind, and then what is read behind it. -/
theorem Passes.behind {kind : TokenKind} {mark : Parsed Token c₁} (h : c.Passes ts c₁) (hm : c₁.accept? kind = some mark)
    (hr : InSourceOrder mark.next.ahead → ∃ us, mark.next.Passes us d ∧ P us) (ho : InSourceOrder c.ahead) :
    ∃ us, c.Passes (ts ++ mark.value :: us) d ∧ P us := by
  obtain ⟨us, hp, hu⟩ := (h.trans (passes_accept? hm)).andThen hr ho
  exact ⟨us, by simpa using hp, hu⟩

end

namespace DerivesExpr

variable {c c₁ c₂ d : Cursor} {level : Level} {e left right condition thenBranch elseBranch base : Expr}

/-- What is derived on a tighter level is derived on a looser one. -/
theorem tighter {looser : Level} (h : c.DerivesExpr level e d) (hl : looser ≤ level) : c.DerivesExpr looser e d := by
  intro ho
  obtain ⟨ts, hp, hd⟩ := h ho
  exact ⟨ts, hp, .tighter hl hd⟩

/-- An assignment: a target, the sign, and a value. -/
theorem assign {sign : Parsed Token c₁} (hl : c.DerivesExpr .conditional left c₁) (hs : c₁.accept? (.sign .assign) = some sign)
    (hr : sign.next.DerivesExpr .assignment right d) : c.DerivesExpr .assignment (.assign left right (c.spanTo d)) d := by
  intro ho
  obtain ⟨ts, h₁, hd₁⟩ := hl ho
  obtain ⟨us, hp, hd₂⟩ := h₁.behind hs hr ho
  refine ⟨_, hp, ?_⟩
  rw [hp.spanTo_eq_extent ho (by simp)]
  exact .assign hd₁ (accept?_kind hs) hd₂

/-- A conditional: a condition and two branches, each behind its mark. -/
theorem conditional {question : Parsed Token c₁} {colon : Parsed Token c₂} (hc : c.DerivesExpr .coalescing condition c₁)
    (hq : c₁.accept? (.punct .question) = some question) (ht : question.next.DerivesExpr .assignment thenBranch c₂)
    (hk : c₂.accept? (.punct .colon) = some colon) (he : colon.next.DerivesExpr .assignment elseBranch d) :
    c.DerivesExpr .conditional (.conditional condition thenBranch elseBranch (c.spanTo d)) d := by
  intro ho
  obtain ⟨ts, h₁, hd₁⟩ := hc ho
  obtain ⟨us, h₂, hd₂⟩ := h₁.behind hq ht ho
  obtain ⟨vs, hp, hd₃⟩ := h₂.behind hk he ho
  refine ⟨_, hp, ?_⟩
  rw [hp.spanTo_eq_extent ho (by simp)]
  simpa using Derives.conditional hd₁ (accept?_kind hq) hd₂ (accept?_kind hk) hd₃

/-- An operation: two operands and the operator between them. -/
theorem binary {least : Nat} {op : Parsed BinOp c₁} (hl : c.DerivesExpr (.ofLeft op.value) left c₁)
    (hop : c₁.binOp? least = some op) (hr : op.next.DerivesExpr (.ofRight op.value) right d) :
    c.DerivesExpr (.ofOp op.value) (.binary op.value left right (c.spanTo d)) d := by
  intro ho
  obtain ⟨t, ht, hk, -⟩ := sign_of_binOp? hop
  obtain ⟨ts, h₁, hd₁⟩ := hl ho
  obtain ⟨us, hp, hd₂⟩ := (h₁.trans ht).andThen hr ho
  refine ⟨_, hp, ?_⟩
  rw [hp.spanTo_eq_extent ho (by simp), List.append_assoc]
  exact .binary hd₁ hk hd₂

/-- An operator and its operand. -/
theorem unary {op : Parsed UnOp c} (hop : c.unOp? = some op) (h : op.next.DerivesExpr .unary e d) :
    c.DerivesExpr .unary (.unary op.value e (c.spanTo d)) d := by
  intro ho
  obtain ⟨t, ht, hk⟩ := sign_of_unOp? hop
  obtain ⟨ts, hp, hd⟩ := ht.andThen h ho
  refine ⟨_, hp, ?_⟩
  rw [hp.spanTo_eq_extent ho (by simp)]
  exact .unary hk hd

/-- A link onto a base, with or without a `?` in front of its first token. -/
theorem access {pending : Nat} {mark : Parsed (AccessStart × Bool) c₁} {link : Link} (hb : c.DerivesExpr .access base c₁)
    (ha : c₁.accessStart? pending = some mark)
    (hl : ∀ t, t.kind = .punct mark.value.1.mark → InSourceOrder mark.next.ahead →
      ∃ us, mark.next.Passes us d ∧ Derives (.link link) (t :: us)) :
    c.DerivesExpr .access (.access base link mark.value.2 (c.spanTo d)) d := by
  intro ho
  obtain ⟨ts, h₁, hd₁⟩ := hb ho
  obtain ⟨t, hk, ⟨hg, ht⟩ | ⟨hg, question, hq, ht⟩⟩ := marks_of_accessStart? ha
  · obtain ⟨us, hp, hd₂⟩ := (h₁.trans ht).andThen (hl t hk) ho
    refine ⟨_, hp, ?_⟩
    rw [hp.spanTo_eq_extent ho (by simp), hg, List.append_assoc]
    exact .access hd₁ hd₂
  · obtain ⟨us, hp, hd₂⟩ := (h₁.trans ht).andThen (hl t hk) ho
    refine ⟨_, hp, ?_⟩
    rw [hp.spanTo_eq_extent ho (by simp), hg, List.append_assoc]
    exact .guarded hd₁ hq hd₂

/-- An expression in parentheses. -/
theorem paren {opening : Parsed Token c} {closing : Parsed Token c₁} (ho : c.accept? (.punct .openParen) = some opening)
    (h : opening.next.DerivesExpr .assignment e c₁) (hc : c₁.accept? (.punct .closeParen) = some closing) :
    c.DerivesExpr .primary (.paren e (c.spanTo closing.next)) closing.next := by
  intro hs
  obtain ⟨ts, h₁, hd⟩ := (passes_accept? ho).andThen h hs
  have hp := h₁.trans (passes_accept? hc)
  refine ⟨_, hp, ?_⟩
  rw [hp.spanTo_eq_extent hs (by simp)]
  exact .paren (accept?_kind ho) hd (accept?_kind hc)

/-- Parameters, an arrow, and the body of a lambda. -/
theorem lambda {params : List LambdaParam} {arrow : Parsed Token c₁}
    (hp : InSourceOrder c.ahead → ∃ ts, c.Passes ts c₁ ∧ Derives (.params params) ts) (ha : c₁.lambdaArrow = .ok arrow)
    (hb : arrow.next.DerivesExpr .assignment e d) : c.DerivesExpr .primary (.lambda params e (c.spanTo d)) d := by
  intro ho
  obtain ⟨ts, h₁, hd₁⟩ := hp ho
  obtain ⟨us, hp, hd₂⟩ := (h₁.trans (passes_lambdaArrow ha)).andThen hb ho
  refine ⟨_, hp, ?_⟩
  rw [hp.spanTo_eq_extent ho (by simp), List.append_assoc]
  exact .lambda hd₁ (arrow_of_lambdaArrow ha) hd₂

/-- A word for a creation that was passed, a type, and what stands behind it. -/
theorem create {word : Token} {type : Parsed TypeExpr c₁} {args : List Expr} {entries : List Entry}
    (hw : word.kind = .keyword .newKw) (hs : c.Passes [word] c₁) (ht : c₁.type? = some type)
    (hr : InSourceOrder type.next.ahead → ∃ us, type.next.Passes us d ∧ Derives (.creation args entries) us) :
    c.DerivesExpr .primary (.create type.value args entries (c.spanTo d)) d := by
  intro ho
  obtain ⟨ts, h₁, hd₁⟩ := hs.andThen (derives_type? ht) ho
  obtain ⟨us, hp, hd₂⟩ := h₁.andThen hr ho
  refine ⟨_, hp, ?_⟩
  rw [hp.spanTo_eq_extent ho (by simp)]
  exact .create hw hd₁ hd₂

end DerivesExpr

end Cursor

/-! ## What was read is derived -/

/-- What is derived when a phrase is read. Of a phrase that goes on behind other tokens it says what is derived when these are
derived already: those from the start of the whole on, or the mark that the phrase stands behind. -/
def Phrase.Derived : Phrase → Cursor → Cursor → Prop
  | .assign _ e, c, d => c.DerivesExpr .assignment e d
  | .conditional _ e, c, d => c.DerivesExpr .conditional e d
  | .binary _ least e, c, d => c.DerivesExpr (.ofLeast least) e d
  | .operators _ least start left whole, c, d =>
    ∀ level, start.DerivesExpr level left c → Level.ofLeast least ≤ level →
      (∀ op, c.binOp? least = some op → Level.ofLeft op.value ≤ level) → start.DerivesExpr (.ofLeast least) whole d
  | .unary _ e, c, d => c.DerivesExpr .unary e d
  | .accesses _ start base whole, c, d => start.DerivesExpr .access base c → start.DerivesExpr .access whole d
  | .link start _ l, c, d =>
    ∀ t, t.kind = .punct start.mark → InSourceOrder c.ahead → ∃ ts, c.Passes ts d ∧ Derives (.link l) (t :: ts)
  | .list es, c, d => InSourceOrder c.ahead → ∃ ts, c.Passes ts d ∧ Derives (.exprs es) ts
  | .bracketed place es, c, d =>
    InSourceOrder c.ahead →
      ∃ ts close, close.kind = .punct place.mark ∧ c.Passes (ts ++ [close]) d ∧ Derives (.exprs es) ts
  | .args es, c, d =>
    ∀ t, t.kind = .punct .openParen → InSourceOrder c.ahead → ∃ ts, c.Passes ts d ∧ Derives (.args es) (t :: ts)
  | .primary _ e, c, d => c.DerivesExpr .primary e d
  | .lambda _ start params e, c, d =>
    (InSourceOrder start.ahead → ∃ ts, start.Passes ts c ∧ Derives (.params params) ts) → start.DerivesExpr .primary e d
  | .creation start e, c, d =>
    ∀ t, t.kind = .keyword .newKw → start.Passes [t] c → start.DerivesExpr .primary e d
  | .entries es, c, d =>
    InSourceOrder c.ahead →
      ∃ ts close, close.kind = .punct .closeBrace ∧ c.Passes (ts ++ [close]) d ∧
        (es = [] ∧ ts = [] ∨ Derives (.entryList es) ts)
  | .entry e, c, d => InSourceOrder c.ahead → ∃ ts, c.Passes ts d ∧ Derives (.entry e) ts
  | .entryValue e, c, d =>
    InSourceOrder c.ahead →
      ∃ sign ts, sign.kind = .sign .assign ∧ c.Passes (sign :: ts) d ∧ Derives (.expr .assignment e) ts

/-- The braces around entries make them an initializer. -/
theorem Grammar.derives_initializer {entries : List Entry} {ts : List Token} {opening closing : Token}
    (ho : opening.kind = .punct .openBrace) (hc : closing.kind = .punct .closeBrace)
    (h : entries = [] ∧ ts = [] ∨ Derives (.entryList entries) ts) :
    Derives (.initializer entries) (opening :: (ts ++ [closing])) := by
  rcases h with ⟨rfl, rfl⟩ | h
  · exact .noEntries ho hc
  · exact .someEntries ho h hc

/-- Entries behind the brace that opens them are an initializer. -/
theorem Cursor.derives_braced {entries : List Entry} {c d : Cursor} {brace : Parsed Token c}
    (hb : c.accept? (.punct .openBrace) = some brace) (h : (Phrase.entries entries).Derived brace.next d)
    (ho : InSourceOrder c.ahead) : ∃ ts, c.Passes ts d ∧ Derives (.initializer entries) ts := by
  obtain ⟨ts, close, hc, hp, hd⟩ := h ((passes_accept? hb).inSourceOrder ho)
  exact ⟨_, (passes_accept? hb).trans hp, derives_initializer (accept?_kind hb) hc hd⟩

/-- Arguments behind the parenthesis that opens them. -/
theorem Cursor.derives_args {args : List Expr} {c d : Cursor} {opening : Parsed Token c}
    (hb : c.accept? (.punct .openParen) = some opening) (h : (Phrase.args args).Derived opening.next d)
    (ho : InSourceOrder c.ahead) : ∃ ts, c.Passes ts d ∧ Derives (.args args) ts := by
  obtain ⟨ts, hp, hd⟩ := h _ (accept?_kind hb) ((passes_accept? hb).inSourceOrder ho)
  exact ⟨_, (passes_accept? hb).trans hp, hd⟩

/-- An entry, a comma, and more entries, if there are any in front of the brace. -/
theorem Cursor.derives_moreEntries {entry : Entry} {entries : List Entry} {c c₁ d : Cursor} {comma : Parsed Token c₁}
    (h₁ : (Phrase.entry entry).Derived c c₁) (hk : c₁.accept? (.punct .comma) = some comma)
    (h₂ : (Phrase.entries entries).Derived comma.next d) : (Phrase.entries (entry :: entries)).Derived c d := by
  intro ho
  obtain ⟨ts, h₁, hd₁⟩ := h₁ ho
  have h₁ := h₁.trans (passes_accept? hk)
  obtain ⟨us, close, hc, h₂, hd₂⟩ := h₂ (h₁.inSourceOrder ho)
  rcases hd₂ with ⟨rfl, rfl⟩ | hd₂
  · exact ⟨_, close, hc, h₁.trans h₂, .inr (.lastEntryComma hd₁ (accept?_kind hk))⟩
  · exact ⟨_, close, hc, by simpa using h₁.trans h₂, .inr (.moreEntries hd₁ (accept?_kind hk) hd₂)⟩

/-- Indices in brackets, and the value of the entry. The place of the entry ends with the brackets. -/
theorem Cursor.derives_elementEntry {indices : List Expr} {value : Expr} {c c₁ d : Cursor} {bracket : Parsed Token c}
    (hb : c.accept? (.punct .openBracket) = some bracket) (h₁ : (Phrase.bracketed .indices indices).Derived bracket.next c₁)
    (h₂ : (Phrase.entryValue value).Derived c₁ d) : (Phrase.entry (.element indices (c.spanTo c₁) value)).Derived c d := by
  intro ho
  have h₀ := passes_accept? hb
  obtain ⟨ts, close, hc, h₁, hd₁⟩ := h₁ (h₀.inSourceOrder ho)
  have h₁ := h₀.trans h₁
  obtain ⟨sign, us, hk, h₂, hd₂⟩ := h₂ (h₁.inSourceOrder ho)
  refine ⟨_, h₁.trans h₂, ?_⟩
  rw [h₁.spanTo_eq_extent ho (by simp)]
  exact .elementEntry (accept?_kind hb) hd₁ hc hk hd₂

/-- What was read is derived. -/
theorem Reads.derived {phrase : Phrase} {c d : Cursor} (h : Reads phrase c d) : phrase.Derived c d := by
  induction h with
  | assignEnd _ _ ih => exact ih.tighter (by decide)
  | assign _ ha _ ih₁ ih₂ => exact ih₁.assign ha ih₂
  | conditionalEnd _ _ ih => exact ih.tighter (by decide)
  | conditional _ hq _ hc _ ih₁ ih₂ ih₃ => exact ih₁.conditional hq ih₂ hc ih₃
  | binary _ _ ih₁ ih₂ =>
    exact ih₂ .unary ih₁ (Level.ofLeast_le_unary _) fun op _ => Level.ofLeft_le_unary op.value
  | operatorsEnd _ => exact fun level hleft hle _ => hleft.tighter hle
  | @operators _ _ _ _ _ _ _ _ _ op hop hr _ ih₁ ih₂ =>
    -- The operation stands on the level of its operator, and the next operator can only be a looser one.
    intro level hleft _ hnext
    obtain ⟨-, -, -, hl⟩ := Cursor.sign_of_binOp? hop
    have hright : op.next.DerivesExpr (.ofLeast op.value.rightLeast) _ _ := ih₁
    rw [Level.ofLeast_rightLeast] at hright
    exact ih₂ (.ofOp op.value) ((hleft.tighter (hnext op hop)).binary hop hright) (Level.ofLeast_le_ofOp hl)
      fun next hn => Level.ofLeft_le_ofOp (Cursor.precedence_lt_of_binOp? hr.binOp?_eq_none hn)
  | unary hop _ ih => exact .unary hop ih
  | postfixed _ _ _ ih₁ ih₂ => exact (ih₂ (ih₁.tighter (by decide))).tighter (by decide)
  | accessesEnd _ => exact id
  | accesses ha _ _ ih₁ ih₂ => exact fun hbase => ih₂ (hbase.access ha ih₁)
  | member hn =>
    intro t hk ho
    obtain ⟨ts, hp, hd⟩ := (Cursor.memberName_eq_ok_iff.1 hn).derives ho
    exact ⟨ts, hp, .member hk hd⟩
  | element _ _ ih =>
    intro t hk ho
    obtain ⟨ts, close, hc, hp, hd⟩ := ih ho
    exact ⟨_, hp, .element hk hd hc⟩
  | invoke _ ih => exact fun t hk ho => (ih t hk ho).imp fun ts h => ⟨h.1, .invoke h.2⟩
  | listEnd _ _ ih => exact fun ho => (ih ho).imp fun ts h => ⟨h.1, .lastExpr h.2⟩
  | list _ hk _ ih₁ ih₂ =>
    intro ho
    obtain ⟨ts, h₁, hd₁⟩ := ih₁ ho
    obtain ⟨us, hp, hd₂⟩ := h₁.behind hk ih₂ ho
    exact ⟨_, hp, .moreExprs hd₁ (Cursor.accept?_kind hk) hd₂⟩
  | bracketed _ hc ih =>
    intro ho
    obtain ⟨ts, hp, hd⟩ := ih ho
    exact ⟨ts, _, Cursor.accept?_kind hc, hp.trans (Cursor.passes_accept? hc), hd⟩
  | argsEnd hc => exact fun t hk _ => ⟨_, Cursor.passes_accept? hc, .noArgs hk (Cursor.accept?_kind hc)⟩
  | args _ _ ih =>
    intro t hk ho
    obtain ⟨ts, close, hc, hp, hd⟩ := ih ho
    exact ⟨_, hp, .someArgs hk hd hc⟩
  | name ha _ => exact fun _ => ⟨_, Cursor.passes_accept? ha, .name (Cursor.accept?_kind ha)⟩
  | shortLambda ha _ _ ih => exact ih fun _ => ⟨_, Cursor.passes_accept? ha, .soleParam (Cursor.accept?_kind ha)⟩
  | literal hn hv => exact fun _ => ⟨_, Cursor.passes_next? hn, .literal hv⟩
  | self ha => exact fun _ => ⟨_, Cursor.passes_accept? ha, .self (Cursor.accept?_kind ha)⟩
  | create ha _ ih => exact ih _ (Cursor.accept?_kind ha) (Cursor.passes_accept? ha)
  | longLambda ha _ hl _ ih => exact ih fun ho => Cursor.derives_lambdaParams ha hl ho
  | paren ha _ _ hc ih => exact .paren ha ih hc
  | lambda ha _ ih => exact fun hparams => .lambda hparams ha ih
  | createArgs ht hopen _ _ ih =>
    exact fun word hw hs => .create hw hs ht fun ho =>
      (Cursor.derives_args hopen ih ho).imp fun ts h => ⟨h.1, .argsOnly h.2⟩
  | createBoth ht hopen _ hbrace _ ih₁ ih₂ =>
    refine fun word hw hs => .create hw hs ht fun ho => ?_
    obtain ⟨ts, h₁, hd₁⟩ := Cursor.derives_args hopen ih₁ ho
    obtain ⟨us, hp, hd₂⟩ := h₁.andThen (Cursor.derives_braced hbrace ih₂) ho
    exact ⟨_, hp, .argsAndEntries hd₁ hd₂⟩
  | createEntries ht _ hbrace _ ih =>
    exact fun word hw hs => .create hw hs ht fun ho =>
      (Cursor.derives_braced hbrace ih ho).imp fun ts h => ⟨h.1, .entriesOnly h.2⟩
  | entriesEnd hc => exact fun _ => ⟨[], _, Cursor.accept?_kind hc, Cursor.passes_accept? hc, .inl ⟨rfl, rfl⟩⟩
  | entriesLast _ _ _ hc ih =>
    intro ho
    obtain ⟨ts, hp, hd⟩ := ih ho
    exact ⟨ts, _, Cursor.accept?_kind hc, hp.trans (Cursor.passes_accept? hc), .inr (.lastEntry hd)⟩
  | entries _ _ hk _ ih₁ ih₂ => exact Cursor.derives_moreEntries ih₁ hk ih₂
  | entryElement hb _ _ _ ih₁ ih₂ => exact Cursor.derives_elementEntry hb ih₁ ih₂
  | entryMember _ hn _ ih =>
    intro ho
    obtain ⟨ts, h₁, hd₁⟩ := (Cursor.entryName_eq_ok_iff.1 hn).derives ho
    obtain ⟨sign, us, hk, h₂, hd₂⟩ := ih (h₁.inSourceOrder ho)
    exact ⟨_, h₁.trans h₂, .memberEntry hd₁ hk hd₂⟩
  | entryValue hs _ ih =>
    intro ho
    obtain ⟨ts, h₁, hd⟩ := ih ((Cursor.passes_accept? hs).inSourceOrder ho)
    exact ⟨_, ts, Cursor.accept?_kind hs, (Cursor.passes_accept? hs).trans h₁, hd⟩

/-- The tokens of a text stand in the order of the source. -/
theorem InOrder.inSourceOrder {tokens : List Token} (h : InOrder tokens) : InSourceOrder tokens := by
  refine h.apart.imp_of_mem fun {a b} ha hb hab => ?_
  have := h.proper a ha
  have := h.proper b hb
  omega

/-! ## Expressions that were read -/

namespace Expr

/-- The tokens that are passed for an assignment are derived from it. -/
theorem derives_of_readAssign {pending : Nat} {c : Cursor} {r : Parsed Expr c} (h : readAssign pending c = .ok r)
    (ho : InSourceOrder c.ahead) :
    ∃ ts, ts ≠ [] ∧ c.Passes ts r.next ∧ Derives (.expr .assignment r.value) ts := by
  have hr := reads_of_readAssign pending c r h
  obtain ⟨ts, hp, hd⟩ := hr.derived ho
  exact ⟨ts, hr.passes_ne_nil hp, hp, hd⟩

/-- What is read from an index on is an expression of the grammar: the tokens from the index up to the one that is given back, and
only these, are derived from it, and everything inside it is derived from the tokens at its place. -/
theorem derives_of_readAt {tokens : List Token} {index : Nat} {e : Expr} {next : Nat} (ho : InSourceOrder tokens)
    (h : readAt tokens index = .ok (e, next)) :
    index < next ∧ next ≤ tokens.length ∧ Derives (.expr .assignment e) ((tokens.take next).drop index) ∧
      ∀ n ∈ e.nodes, Placed ((tokens.take next).drop index) n := by
  obtain ⟨r, hr, h⟩ := of_bind_eq_ok h
  cases h
  have hahead : InSourceOrder (tokens.drop index) := ho.sublist (List.drop_sublist index tokens)
  obtain ⟨ts, hn, hp, hd⟩ := derives_of_readAssign hr hahead
  have hdrop : tokens.drop index = ts ++ r.next.ahead := hp.1
  have hlen := congrArg List.length hdrop
  rw [List.length_drop, List.length_append] at hlen
  have hpos := List.length_pos_iff.mpr hn
  have hslice : (tokens.take (tokens.length - r.next.remaining)).drop index = ts := by
    rw [List.drop_take, hdrop, Cursor.remaining, show tokens.length - r.next.ahead.length - index = ts.length by omega]
    exact List.take_left
  rw [hslice]
  refine ⟨?_, Nat.sub_le _ _, hd, hd.placed_nodes⟩
  rw [Cursor.remaining]
  omega

/-- From the second token of `!a?.b ?? c` on, `a?.b ?? c` is read, and each of its nodes is at its place. -/
theorem derives_of_readAt_coalesce :
    ∃ e, readAt (lex "!a?.b ?? c" none).significant 1 = .ok (e, 7) ∧
      Derives (.expr .assignment e) (((lex "!a?.b ?? c" none).significant.take 7).drop 1) ∧
      ∀ n ∈ e.nodes, Placed (((lex "!a?.b ?? c" none).significant.take 7).drop 1) n := by
  have hread : ((readAt (lex "!a?.b ?? c" none).significant 1).toOption.map (·.2)) = some 7 := by decide +kernel
  cases h : readAt (lex "!a?.b ?? c" none).significant 1 with
  | error fault => rw [h] at hread; cases hread
  | ok r =>
    obtain ⟨e, next⟩ := r
    rw [h] at hread
    cases hread
    obtain ⟨-, -, hd, hn⟩ := derives_of_readAt (inOrder_significant _ none).inSourceOrder h
    exact ⟨e, rfl, hd, hn⟩

end Expr

end NavCheck
